-- The disk driver of `virtio_disk.c` with the device behind it: processes put
-- chains of three descriptors in a ring, the device takes them and completes
-- them in any order, and the interrupt handler tells the processes. The device
-- works while the driver holds its lock, so the writes of `virtio_disk_rw` that
-- the device can tell apart are separate acts.
import Xv6.Lib.Machine
import Xv6.Lib.Ring
import Xv6.Param

open cells

namespace xv6.virtio

def NUM : Nat := 8
def VRING_DESC_F_NEXT : Nat := 1
def VRING_DESC_F_WRITE : Nat := 2
def VIRTIO_BLK_T_IN : Nat := 0
def VIRTIO_BLK_T_OUT : Nat := 1

/-! ## The state -/

/-- The places in memory that a descriptor can name. -/
inductive Addr where
  | null
  /-- `&disk.ops[i]` -/
  | op (i : Nat)
  /-- `b->data` -/
  | data (b : Nat)
  /-- `&disk.info[i].status` -/
  | status (i : Nat)
  deriving DecidableEq

structure Desc where
  addr : Addr
  len : Nat
  flags : Nat
  next : Nat
  deriving DecidableEq

/-- `struct virtio_blk_req` -/
structure Op where
  type : Nat
  reserved : Nat
  sector : Nat
  deriving DecidableEq

structure Info where
  b : Option Nat
  status : Nat
  deriving DecidableEq

/-- A request with its three descriptors. -/
structure Req where
  b : Nat
  write : Bool
  i0 : Nat
  i1 : Nat
  i2 : Nat
  deriving DecidableEq

/-- Where a process is in `virtio_disk_rw`. -/
inductive Pc where
  | idle
  /-- at `acquire(&disk.vdisk_lock)` -/
  | enter (b : Nat) (write : Bool)
  /-- at `alloc3_desc` -/
  | allocating (b : Nat) (write : Bool)
  /-- in `sleep(&disk.free[0], ..)` -/
  | noDesc (b : Nat) (write : Bool) (asleep : Bool)
  /-- has its descriptors -/
  | formatting (r : Req)
  /-- has written them and the slot of the ring -/
  | publishing (r : Req)
  /-- at `while(b->disk == 1)` -/
  | waiting (r : Req)
  /-- in `sleep(b, ..)` -/
  | sleeping (r : Req) (asleep : Bool)
  deriving DecidableEq

/-- Who holds `disk.vdisk_lock`. -/
inductive Holder where
  | proc (p : Nat)
  | intr
  deriving DecidableEq

/-- What happens to the chain of a descriptor, with `info[].b` where it is looked at. -/
inductive Event where
  | submit (p b : Nat)
  | complete (b : Option Nat)
  | handled (b : Option Nat)
  | ret (p b : Nat)
  deriving DecidableEq

structure State where
  desc : Nat → Desc
  /-- `avail->ring` and `avail->idx` -/
  avail : Nat → Nat
  availIdx : BitVec 16
  /-- `used->ring[].id` and `used->idx` -/
  used : Nat → Nat
  usedIdx : BitVec 16
  free : Nat → Bool
  used_idx : BitVec 16
  info : Nat → Info
  ops : Nat → Op
  lock : Option Holder
  /-- `b->disk`, `b->blockno` and the sleep-lock of the buffers -/
  disk : Nat → Bool
  blockno : Nat → Nat
  block : Nat → Option Nat
  proc : Nat → Pc
  /-- how far the device has read the avail ring -/
  seen : BitVec 16
  /-- the chains that the device has taken and not completed -/
  busy : List Nat
  /-- the chains put in the avail ring that the device has not taken, for the statements -/
  pending : List Nat
  /-- what has happened to the chain of each descriptor, for the statements -/
  trace : Nat → List Event

/-- After `virtio_disk_init`. -/
def start (blockno : Nat → Nat) : State where
  desc := fun _ => { addr := .null, len := 0, flags := 0, next := 0 }
  avail := fun _ => 0
  availIdx := 0
  used := fun _ => 0
  usedIdx := 0
  free := fun i => decide (i < NUM)
  used_idx := 0
  info := fun _ => { b := none, status := 0 }
  ops := fun _ => { type := 0, reserved := 0, sector := 0 }
  lock := none
  disk := fun _ => false
  blockno := blockno
  block := fun _ => none
  proc := fun _ => .idle
  seen := 0
  busy := []
  pending := []
  trace := fun _ => []

/-! ## Descriptors -/

def alloc_desc (s : State) : Option (Nat × State) :=
  match (List.range NUM).find? fun i => s.free i with
  | some i => some (i, { s with free := put s.free i false })
  | none => none

def Pc.wakeDesc : Pc → Pc
  | .noDesc b write _ => .noDesc b write false
  | pc => pc

def Pc.wakeBuf (b : Nat) : Pc → Pc
  | .sleeping r asleep => .sleeping r (asleep && r.b ≠ b)
  | pc => pc

def State.wakeDesc (s : State) : State := { s with proc := fun p => (s.proc p).wakeDesc }

/-- `wakeup(b)` -/
def State.wakeBuf (s : State) (b : Nat) : State :=
  { s with proc := fun p => (s.proc p).wakeBuf b }

def free_desc (s : State) (i : Nat) : Except Stop State :=
  if NUM ≤ i then .error (.panic "free_desc 1")
  else if s.free i = true then .error (.panic "free_desc 2")
  else .ok { s.wakeDesc with
    desc := put s.desc i { addr := .null, len := 0, flags := 0, next := 0 }
    free := put s.free i true }

/-- The loop runs until a descriptor has no next one. It frees a descriptor in every round, so
`NUM` rounds are as many as it can have. -/
def free_chain : Nat → State → Nat → Except Stop State
  | 0, _, _ => .error (.panic "free_desc 2")
  | rounds + 1, s, i =>
    match free_desc s i with
    | .error e => .error e
    | .ok t =>
      if (s.desc i).flags &&& VRING_DESC_F_NEXT ≠ 0 then free_chain rounds t (s.desc i).next
      else .ok t

/-- Three descriptors; those it got are given back when there are not enough. -/
def alloc3_desc (s : State) : Except Stop (Option (Nat × Nat × Nat) × State) :=
  match alloc_desc s with
  | none => .ok (none, s)
  | some (i0, s1) =>
    match alloc_desc s1 with
    | none => (free_desc s1 i0).map fun t => (none, t)
    | some (i1, s2) =>
      match alloc_desc s2 with
      | none => (free_desc s2 i0).bind fun t => (free_desc t i1).map fun t => (none, t)
      | some (i2, s3) => .ok (some (i0, i1, i2), s3)

/-! ## The driver -/

def State.setPc (s : State) (p : Nat) (pc : Pc) : State := { s with proc := put s.proc p pc }

def acquire (s : State) (p : Nat) (pc : Pc) : Except Stop State :=
  if s.lock = none then .ok { s.setPc p pc with lock := some (.proc p) } else .error .sleep

/-- The descriptors, the command, the record for the interrupt and the slot of the ring. -/
def format (s : State) (r : Req) : State :=
  { s with
    ops := put s.ops r.i0
      { type := if r.write then VIRTIO_BLK_T_OUT else VIRTIO_BLK_T_IN
        reserved := 0
        sector := s.blockno r.b * (BSIZE / 512) % 2 ^ 32 }
    desc := put (put (put s.desc r.i0
      { addr := .op r.i0, len := 16, flags := VRING_DESC_F_NEXT, next := r.i1 }) r.i1
      { addr := .data r.b
        len := BSIZE
        flags := (if r.write then 0 else VRING_DESC_F_WRITE) ||| VRING_DESC_F_NEXT
        next := r.i2 }) r.i2
      { addr := .status r.i0, len := 1, flags := VRING_DESC_F_WRITE, next := 0 }
    info := put s.info r.i0 { b := some r.b, status := 0xff }
    disk := put s.disk r.b true
    avail := put s.avail (s.availIdx.toNat % NUM) r.i0 }

/-- `avail->idx += 1` -/
def publish (s : State) (p : Nat) (r : Req) : State :=
  { s with
    availIdx := s.availIdx + 1
    pending := s.pending ++ [r.i0]
    trace := put s.trace r.i0 (s.trace r.i0 ++ [.submit p r.b]) }

/-- The rest of `virtio_disk_rw` once `b->disk` is 0. -/
def finish (s : State) (p : Nat) (r : Req) : Except Stop State :=
  match free_chain (NUM + 1) { s with info := put s.info r.i0 { s.info r.i0 with b := none } } r.i0 with
  | .error e => .error e
  | .ok t => .ok { t.setPc p .idle with
      lock := none
      trace := put t.trace r.i0 (t.trace r.i0 ++ [.ret p r.b]) }

/-- The next step of process `p` in `virtio_disk_rw`. -/
def step (s : State) (p : Nat) : Except Stop State :=
  match s.proc p with
  | .idle => .error .sleep
  | .enter b write => acquire s p (.allocating b write)
  | .allocating b write =>
    match alloc3_desc s with
    | .error e => .error e
    | .ok (some (i0, i1, i2), t) =>
      .ok (t.setPc p (.formatting { b := b, write := write, i0 := i0, i1 := i1, i2 := i2 }))
    | .ok (none, t) => .ok { t.setPc p (.noDesc b write true) with lock := none }
  | .noDesc _ _ true => .error .sleep
  | .noDesc b write false => acquire s p (.allocating b write)
  | .formatting r => .ok ((format s r).setPc p (.publishing r))
  | .publishing r => .ok ((publish s p r).setPc p (.waiting r))
  | .waiting r =>
    if s.disk r.b = true then .ok { s.setPc p (.sleeping r true) with lock := none }
    else finish s p r
  | .sleeping _ true => .error .sleep
  | .sleeping r false => acquire s p (.waiting r)

/-- One round of the loop of `virtio_disk_intr`. -/
def virtio_disk_intr (s : State) : Except Stop State :=
  let id := s.used (s.used_idx.toNat % NUM)
  if (s.info id).status ≠ 0 then .error (.panic "virtio_disk_intr status")
  else match (s.info id).b with
    | none => .error (.panic "null pointer")
    | some b =>
      .ok { ({ s with disk := put s.disk b false } : State).wakeBuf b with
        used_idx := s.used_idx + 1
        trace := put s.trace id (s.trace id ++ [.handled (s.info id).b]) }

/-! ## The device -/

/-- The last descriptor of the chain from `i`. -/
def lastDesc (desc : Nat → Desc) : Nat → Nat → Desc
  | 0, i => desc i
  | n + 1, i =>
    if (desc i).flags &&& VRING_DESC_F_NEXT ≠ 0 then lastDesc desc n (desc i).next else desc i

/-- The device writes status 0 where the last descriptor of the chain says. -/
def State.writeStatus (s : State) (h : Nat) : Nat → Info :=
  match (lastDesc s.desc NUM h).addr with
  | .status i => put s.info i { s.info i with status := 0 }
  | _ => s.info

def complete (s : State) (h : Nat) : State :=
  { s with
    info := s.writeStatus h
    used := put s.used (s.usedIdx.toNat % NUM) h
    usedIdx := s.usedIdx + 1
    busy := s.busy.erase h
    trace := put s.trace h (s.trace h ++ [.complete (s.info h).b]) }

/-! ## The acts -/

inductive Act where
  /-- `acquiresleep(&b->lock)` and `releasesleep(&b->lock)`; `bread` and `bwrite` hold the lock of
  a buffer when they call `virtio_disk_rw` -/
  | acquiresleep (p b : Nat)
  | releasesleep (p b : Nat)
  | virtio_disk_rw (p b : Nat) (write : Bool)
  | step (p : Nat)
  | kill (p : Nat)
  /-- the handler takes the lock, handles a completion, or gives the lock back -/
  | intrBegin
  | intrRound
  | intrEnd
  /-- the device takes the next chain, or completes one that it has -/
  | take
  | complete (h : Nat)
  deriving DecidableEq

def exec (s : State) : Act → Except Stop State
  | .acquiresleep p b =>
    if s.block b = none ∧ s.proc p = .idle then .ok { s with block := put s.block b (some p) }
    else .error .sleep
  | .releasesleep p b =>
    if s.block b = some p ∧ s.proc p = .idle then .ok { s with block := put s.block b none }
    else .error .sleep
  | .virtio_disk_rw p b write =>
    if s.block b = some p ∧ s.proc p = .idle then .ok (s.setPc p (.enter b write))
    else .error .sleep
  | .step p => step s p
  | .kill p =>
    match s.proc p with
    | .noDesc b write _ => .ok (s.setPc p (.noDesc b write false))
    | .sleeping r _ => .ok (s.setPc p (.sleeping r false))
    | _ => .ok s
  | .intrBegin => if s.lock = none then .ok { s with lock := some .intr } else .error .sleep
  | .intrRound =>
    if s.lock = some .intr ∧ s.used_idx ≠ s.usedIdx then virtio_disk_intr s else .error .sleep
  | .intrEnd =>
    if s.lock = some .intr ∧ s.used_idx = s.usedIdx then .ok { s with lock := none }
    else .error .sleep
  | .take =>
    if s.seen ≠ s.availIdx then
      .ok { s with
        busy := s.busy ++ [s.avail (s.seen.toNat % NUM)]
        seen := s.seen + 1
        pending := s.pending.tail }
    else .error .sleep
  | .complete h => if h ∈ s.busy then .ok (complete s h) else .error .sleep

end xv6.virtio
