-- The inode table of `fs.c` under concurrent processes. Every section under
-- `itable.lock`, under the lock of an inode or under that of its block is one
-- act. `iput` gives `itable.lock` up while it frees an inode, so freeing takes
-- several acts, between which other processes can find the same entry.
import Xv6.Fs
import Xv6.Lib.Cells
import Xv6.Lib.Machine

open cells

namespace xv6.inodes

open fs (FileType Dinode)

/-! ## The state -/

/-- An entry of the inode table; `d` are the fields that are also on the disk. -/
structure Inode where
  dev : Nat
  inum : Nat
  ref : Nat
  valid : Bool
  /-- the process that holds `ip->lock` -/
  lock : Option Nat
  d : Dinode
  /-- the holder of the lock has changed `d` since its last `iupdate` -/
  dirty : Bool

/-- Where a process is. -/
inductive Pc where
  | idle
  /-- in the loop of `ialloc`, at inode `inum` -/
  | ialloc (dev : Nat) (type : FileType) (inum : Nat)
  /-- `ialloc` has marked the inode and calls `iget` -/
  | iget (dev inum : Nat)
  /-- in `ilock`, with the lock, to read the inode from the disk -/
  | load (k : Nat)
  /-- in `iput`, with the lock of the inode and without `itable.lock`: at `itrunc`, at the
  second `iupdate`, and at `ip->valid = 0` -/
  | itrunc (k : Nat)
  | free (k : Nat)
  | invalidate (k : Nat)
  /-- in `iput`, at `acquire(&itable.lock)` -/
  | drop (k : Nat)
  deriving DecidableEq

structure Proc where
  pc : Pc
  /-- the pointers to entries that the process holds -/
  refs : List Nat

structure State where
  entry : Nat → Inode
  /-- the inodes as seen through the buffer cache -/
  disk : Nat → Nat → Dinode
  proc : Nat → Proc

def start (disk : Nat → Nat → Dinode) : State where
  entry := fun _ =>
    { dev := 0, inum := 0, ref := 0, valid := false, lock := none
      d := { type := .free, major := 0, minor := 0, nlink := 0, size := 0, addrs := fun _ => 0 }
      dirty := false }
  disk := disk
  proc := fun _ => { pc := .idle, refs := [] }

/-! ## Sections -/

def State.setPc (s : State) (p : Nat) (pc : Pc) : State :=
  { s with proc := put s.proc p { s.proc p with pc := pc } }

def State.setEntry (s : State) (k : Nat) (x : Inode) : State := { s with entry := put s.entry k x }

def State.setDisk (s : State) (dev inum : Nat) (d : Dinode) : State :=
  { s with disk := put s.disk dev (put (s.disk dev) inum d) }

/-- Process `p` gets a pointer to entry `k`. -/
def State.point (s : State) (p k : Nat) : State :=
  { s with proc := put s.proc p { pc := .idle, refs := k :: (s.proc p).refs } }

/-- The entry of the table for the inode, if it is in use. -/
def lookup (s : State) (dev inum : Nat) : Option Nat :=
  (List.range NINODE).find? fun k =>
    0 < (s.entry k).ref ∧ (s.entry k).dev = dev ∧ (s.entry k).inum = inum

def empty (s : State) : Option Nat := (List.range NINODE).find? fun k => (s.entry k).ref = 0

def iget (s : State) (p dev inum : Nat) : Except Stop State :=
  match lookup s dev inum with
  | some k => .ok ((s.setEntry k { s.entry k with ref := (s.entry k).ref + 1 }).point p k)
  | none =>
    match empty s with
    | none => .error (.panic "iget: no inodes")
    | some k =>
      .ok ((s.setEntry k { s.entry k with
        dev := dev
        inum := inum
        ref := 1
        valid := false }).point p k)

/-- One round of the loop of `ialloc`. -/
def ialloc (ninodes : Nat → Nat) (s : State) (p dev : Nat) (type : FileType) (inum : Nat) : State :=
  if inum < ninodes dev then
    if (s.disk dev inum).type = .free then
      (s.setDisk dev inum
        { type := type, major := 0, minor := 0, nlink := 0, size := 0, addrs := fun _ => 0 }).setPc p
        (.iget dev inum)
    else s.setPc p (.ialloc dev type (inum + 1))
  else s.setPc p .idle

def idup (s : State) (p k : Nat) : State :=
  (s.setEntry k { s.entry k with ref := (s.entry k).ref + 1 }).point p k

def ilock (s : State) (p k : Nat) : Except Stop State :=
  if (s.entry k).ref < 1 then .error (.panic "ilock")
  else if (s.entry k).lock ≠ none then .error .sleep
  else .ok ((s.setEntry k { s.entry k with lock := some p }).setPc p
    (if (s.entry k).valid = false then .load k else .idle))

/-- The inode is read from the disk. -/
def load (s : State) (p k : Nat) : Except Stop State :=
  let d := s.disk (s.entry k).dev (s.entry k).inum
  if d.type = .free then .error (.panic "ilock: no type")
  else .ok ((s.setEntry k { s.entry k with d := d, valid := true }).setPc p .idle)

def iupdate (s : State) (k : Nat) : State :=
  (s.setDisk (s.entry k).dev (s.entry k).inum (s.entry k).d).setEntry k
    { s.entry k with dirty := false }

def iunlock (s : State) (p k : Nat) : Except Stop State :=
  if (s.entry k).lock ≠ some p ∨ (s.entry k).ref < 1 then .error (.panic "iunlock")
  else .ok (s.setEntry k { s.entry k with lock := none })

/-- `ip->ref--`, and the pointer is gone. -/
def drop (s : State) (p k : Nat) : State :=
  { s.setEntry k { s.entry k with ref := (s.entry k).ref - 1 } with
    proc := put s.proc p { pc := .idle, refs := (s.proc p).refs.erase k } }

/-- The first section of `iput`. -/
def iput (s : State) (p k : Nat) : Except Stop State :=
  if (s.entry k).ref = 1 ∧ (s.entry k).valid = true ∧ (s.entry k).d.nlink = 0 then
    if (s.entry k).lock ≠ none then .error .sleep
    else .ok ((s.setEntry k { s.entry k with lock := some p }).setPc p (.itrunc k))
  else .ok (drop s p k)

/-- The inode's content is freed and it is written to the disk. -/
def itrunc (s : State) (k : Nat) : State :=
  let d := { (s.entry k).d with size := 0, addrs := fun _ => 0 }
  (s.setEntry k { s.entry k with d := d }).setDisk (s.entry k).dev (s.entry k).inum d

/-- `ip->type = 0` is written to the disk. -/
def freeInode (s : State) (k : Nat) : State :=
  let d := { (s.entry k).d with type := .free }
  (s.setEntry k { s.entry k with d := d }).setDisk (s.entry k).dev (s.entry k).inum d

/-- The next section of a call in progress. -/
def step (ninodes : Nat → Nat) (s : State) (p : Nat) : Except Stop State :=
  match (s.proc p).pc with
  | .idle => .error .sleep
  | .ialloc dev type inum => .ok (ialloc ninodes s p dev type inum)
  | .iget dev inum => iget s p dev inum
  | .load k => load s p k
  | .itrunc k => .ok ((itrunc s k).setPc p (.free k))
  | .free k => .ok ((freeInode s k).setPc p (.invalidate k))
  | .invalidate k =>
    .ok ((s.setEntry k { s.entry k with valid := false, lock := none }).setPc p (.drop k))
  | .drop k => .ok (drop s p k)

/-! ## Acts -/

inductive Act where
  | iget (p dev inum : Nat)
  | ialloc (p dev : Nat) (type : FileType)
  | idup (p k : Nat)
  | ilock (p k : Nat)
  /-- the holder of the lock changes the fields -/
  | modify (p k : Nat) (d : Dinode)
  | iupdate (p k : Nat)
  | iunlock (p k : Nat)
  | iput (p k : Nat)
  | step (p : Nat)

def Act.proc : Act → Nat
  | .iget p _ _ | .ialloc p _ _ | .idup p _ | .ilock p _ | .modify p _ _ | .iupdate p _
  | .iunlock p _ | .iput p _ | .step p => p

/-- What a process that is in no call starts, or does between two calls. -/
def call (s : State) : Act → Except Stop State
  | .iget p dev inum => iget s p dev inum
  | .ialloc p dev type => .ok (s.setPc p (.ialloc dev type 1))
  | .idup p k => if k ∈ (s.proc p).refs then .ok (idup s p k) else .error .sleep
  | .ilock p k => if k ∈ (s.proc p).refs then ilock s p k else .error .sleep
  | .modify p k d =>
    if (s.entry k).lock = some p then .ok (s.setEntry k { s.entry k with d := d, dirty := true })
    else .error .sleep
  | .iupdate p k => if (s.entry k).lock = some p then .ok (iupdate s k) else .error .sleep
  | .iunlock p k => if k ∈ (s.proc p).refs then iunlock s p k else .error .sleep
  | .iput p k => if k ∈ (s.proc p).refs then iput s p k else .error .sleep
  | .step _ => .error .sleep

def exec (ninodes : Nat → Nat) (s : State) (a : Act) : Except Stop State :=
  if a.proc < NPROC then
    match a with
    | .step p => step ninodes s p
    | a => if (s.proc a.proc).pc = .idle then call s a else .error .sleep
  else .error .sleep

end xv6.inodes
