-- The buffer cache of `bio.c` with the pointers of its list, under concurrent
-- processes. Every section under `bcache.lock`, under the lock of a buffer or
-- under that of the log is one act, and so is a transfer of the disk.
import Xv6.Lib.Circular
import Xv6.Lib.Machine
import Xv6.Log

open bytes cells circular

namespace xv6.buffers

/-! ## The state -/

/-- `struct buf`, without its pointers. -/
structure Buf where
  valid : Bool
  dev : Nat
  blockno : Nat
  /-- the process that holds `b->lock` -/
  lock : Option Nat
  refcnt : Nat
  data : Bytes
  /-- `data` has changed since it was last read from the disk or written to it -/
  dirty : Bool
  /-- the holder of the lock has changed `data`, and has not called `log_write` or `bwrite` since -/
  unsaved : Bool

/-- Where a process is. -/
inductive Pc where
  | idle
  /-- in `bread` of a block, at `acquiresleep`, and with the lock, to read the block -/
  | lock (dev blockno i : Nat)
  | read (dev blockno i : Nat)
  /-- in `brelse`, at `acquire(&bcache.lock)` -/
  | release (i : Nat)
  deriving DecidableEq

structure Proc where
  pc : Pc
  /-- the buffers that the process holds or waits for -/
  refs : List Nat

structure State where
  buf : Nat → Buf
  links : Links Nat
  disk : Nat → Bytes
  log : log.Log
  /-- how many blocks the loop of `install_trans` has installed -/
  tail : Nat
  proc : Nat → Proc
  /-- what was last written to each block through the cache -/
  written : Nat → Option Bytes

def head : Nat := NBUF

/-- The pointers that `binit` makes: each buffer is linked in behind `head`. -/
def binit : Links Nat :=
  (List.range NBUF).foldl (fun L b => L.push head b) ⟨fun _ => head, fun _ => head⟩

def start (disk : Nat → Bytes) (lg : log.Log) : State where
  buf := fun _ =>
    { valid := false, dev := 0, blockno := 0, lock := none, refcnt := 0, data := fun _ => 0
      dirty := false, unsaved := false }
  links := binit
  disk := disk
  log := lg
  tail := 0
  proc := fun _ => { pc := .idle, refs := [] }
  written := fun _ => none

/-! ## Sections -/

def State.setBuf (s : State) (i : Nat) (b : Buf) : State := { s with buf := put s.buf i b }

def State.setPc (s : State) (p : Nat) (pc : Pc) : State :=
  { s with proc := put s.proc p { s.proc p with pc := pc } }

/-- Process `p` has buffer `i` for the block, and goes on to lock it. -/
def State.take (s : State) (p dev blockno i : Nat) : State :=
  { s with proc := put s.proc p { pc := .lock dev blockno i, refs := i :: (s.proc p).refs } }

/-- The loop of `bget` for the block, and the one for a buffer to recycle. -/
def State.cached (s : State) (dev blockno : Nat) : Option (Option Nat) :=
  scan s.links.next head (fun i => (s.buf i).dev = dev ∧ (s.buf i).blockno = blockno) (NBUF + 1)
    (s.links.next head)

def State.unused (s : State) : Option (Option Nat) :=
  scan s.links.prev head (fun i => (s.buf i).refcnt = 0) (NBUF + 1) (s.links.prev head)

/-- `bget`, up to `acquiresleep`. A loop that does not end is an error. -/
def bget (s : State) (p dev blockno : Nat) : Except Stop State :=
  match s.cached dev blockno with
  | none => .error .sleep
  | some (some i) =>
    .ok ((s.setBuf i { s.buf i with refcnt := (s.buf i).refcnt + 1 }).take p dev blockno i)
  | some none =>
    match s.unused with
    | none => .error .sleep
    | some none => .error (.panic "bget: no buffers")
    | some (some i) =>
      .ok ((s.setBuf i { s.buf i with
        dev := dev
        blockno := blockno
        valid := false
        refcnt := 1 }).take p dev blockno i)

/-- `acquiresleep` in `bget`, and the test of `valid` in `bread`. -/
def acquiresleep (s : State) (p dev blockno i : Nat) : Except Stop State :=
  if (s.buf i).lock ≠ none then .error .sleep
  else .ok ((s.setBuf i { s.buf i with lock := some p }).setPc p
    (if (s.buf i).valid = false then .read dev blockno i else .idle))

/-- The transfer in `bread`. -/
def read (s : State) (p i : Nat) : State :=
  (s.setBuf i { s.buf i with
    data := s.disk (s.buf i).blockno
    valid := true
    dirty := false }).setPc p .idle

/-- The holder of the buffer changes its data. -/
def modify (s : State) (i : Nat) (data : Bytes) : State :=
  { s.setBuf i { s.buf i with data := data, dirty := true, unsaved := true } with
    written := put s.written (s.buf i).blockno (some data) }

def bwrite (s : State) (p i : Nat) : Except Stop State :=
  if (s.buf i).lock ≠ some p then .error (.panic "bwrite")
  else .ok { s.setBuf i { s.buf i with dirty := false, unsaved := false } with
    disk := put s.disk (s.buf i).blockno (s.buf i).data }

/-- `log_write`; a block that is new in the log pins its buffer. -/
def log_write (s : State) (i : Nat) : Except Stop State :=
  match log.log_write s.log (s.buf i).blockno with
  | .error e => .error e
  | .ok (lg, new) =>
    .ok { s.setBuf i { s.buf i with
            refcnt := if new then (s.buf i).refcnt + 1 else (s.buf i).refcnt
            unsaved := false } with
      log := lg }

/-- `brelse`, up to `acquire`. -/
def brelse (s : State) (p i : Nat) : Except Stop State :=
  if (s.buf i).lock ≠ some p then .error (.panic "brelse")
  else .ok ((s.setBuf i { s.buf i with lock := none }).setPc p (.release i))

/-- The section of `brelse` under `bcache.lock`: a buffer that nobody waits for moves to the
head of the list. -/
def release (s : State) (p i : Nat) : State :=
  { s.setBuf i { s.buf i with refcnt := (s.buf i).refcnt - 1 } with
    links := if (s.buf i).refcnt - 1 = 0 then (s.links.unlink i).push head i else s.links
    proc := put s.proc p { pc := .idle, refs := (s.proc p).refs.erase i } }

/-- `bunpin` in the loop of `install_trans`, which goes on to the next block. -/
def bunpin (s : State) (i : Nat) : State :=
  { s.setBuf i { s.buf i with refcnt := (s.buf i).refcnt - 1 } with tail := s.tail + 1 }

/-- The next section of a call in progress. -/
def step (s : State) (p : Nat) : Except Stop State :=
  match (s.proc p).pc with
  | .idle => .error .sleep
  | .lock dev blockno i => acquiresleep s p dev blockno i
  | .read _ _ i => .ok (read s p i)
  | .release i => .ok (release s p i)

/-! ## Acts -/

inductive Act where
  | bread (p dev blockno : Nat)
  | modify (p i : Nat) (data : Bytes)
  | bwrite (p i : Nat)
  | log_write (p i : Nat)
  | brelse (p i : Nat)
  | begin_op (p : Nat)
  | end_op (p : Nat)
  | bunpin (p i : Nat)
  /-- `log.lh.n = 0` in `commit` -/
  | clear (p : Nat)
  /-- `log.committing = 0` in `end_op` -/
  | committed (p : Nat)
  | step (p : Nat)

def Act.proc : Act → Nat
  | .bread p _ _ | .modify p _ _ | .bwrite p _ | .log_write p _ | .brelse p _ | .begin_op p
  | .end_op p | .bunpin p _ | .clear p | .committed p | .step p => p

/-- What a process that is in no call starts, or does between two calls. -/
def call (s : State) : Act → Except Stop State
  | .bread p dev blockno => bget s p dev blockno
  | .modify p i data => if (s.buf i).lock = some p then .ok (modify s i data) else .error .sleep
  | .bwrite p i => bwrite s p i
  | .log_write _ i => log_write s i
  | .brelse p i => brelse s p i
  | .begin_op _ =>
    match log.begin_op s.log with
    | .error e => .error e
    | .ok lg => .ok { s with log := lg }
  | .end_op _ =>
    match log.end_op s.log with
    | .error e => .error e
    | .ok (lg, _) => .ok { s with log := lg }
  | .bunpin _ i => .ok (bunpin s i)
  | .clear _ => .ok { s with log := { s.log with lh := [] }, tail := 0 }
  | .committed _ => .ok { s with log := { s.log with committing := false } }
  | .step _ => .error .sleep

def exec (s : State) (a : Act) : Except Stop State :=
  if a.proc < NPROC then
    match a with
    | .step p => step s p
    | a => if (s.proc a.proc).pc = .idle then call s a else .error .sleep
  else .error .sleep

end xv6.buffers
