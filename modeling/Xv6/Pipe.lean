-- The pipe of `pipe.c`, with the processes that write, read and close it. Every
-- section under a lock is one act: a process that holds `pi->lock` goes through
-- its loop one round at a time, so that others can be killed or scheduled in
-- between, and `wakeup` takes the locks of the processes one after the other.
-- The page of a pipe whose ends are both closed is not used again.
import Xv6.Lib.Machine
import Xv6.Lib.Ring
import Xv6.Proc

open cells

namespace xv6.pipe

open proc (procstate)

/-! ## The state -/

structure Pipe where
  data : Nat → UInt8
  nread : BitVec 32
  nwrite : BitVec 32
  readopen : Bool
  writeopen : Bool

/-- The addresses that processes sleep on: `&pi->nread` and `&pi->nwrite`. -/
inductive Chan where
  | nread
  | nwrite
  deriving DecidableEq

/-- The call that a process goes on with when `sleep` returns. -/
inductive Caller where
  | pipewrite (n i : Int)
  | piperead (n : Int)
  deriving DecidableEq

/-- What follows a `wakeup`: the call returns, or `pipewrite` sleeps because the pipe is full. -/
inductive Then where
  | ret (res : Int)
  | sleep (chan : Chan) (caller : Caller)
  deriving DecidableEq

/-- Where a process is. -/
inductive Pc where
  | user
  /-- at `acquire(&pi->lock)` of a call -/
  | enter (caller : Caller)
  /-- in the loop of `pipewrite` -/
  | writing (n i : Int)
  /-- in the first loop of `piperead` -/
  | waiting (n : Int)
  /-- in the second loop of `piperead` -/
  | reading (n i : Int)
  /-- at `acquire(&pi->lock)` of `pipeclose` -/
  | pipeclose (writable : Bool)
  /-- in the loop of `wakeup`, at process `q` -/
  | wakeup (chan : Chan) (q : Nat) (next : Then)
  /-- in `sleep`, with `p->lock` and without `pi->lock` -/
  | dozing (chan : Chan) (caller : Caller)
  /-- in `sched` -/
  | asleep (caller : Caller)
  deriving DecidableEq

structure Proc where
  state : procstate
  chan : Option Chan
  killed : Bool
  pc : Pc
  /-- what its last call on the pipe returned -/
  ret : Int
  deriving DecidableEq

structure State where
  pi : Pipe
  lock : Option Nat
  proc : Nat → Proc
  /-- the bytes taken from the writers so far -/
  accepted : List UInt8
  /-- the bytes given to the readers so far -/
  delivered : List UInt8

/-- A pipe as `pipealloc` makes it, in a page that holds `data`. -/
def pipealloc (data : Nat → UInt8) : State where
  pi := { data := data, nread := 0, nwrite := 0, readopen := true, writeopen := true }
  lock := none
  proc := fun _ => { state := .RUNNABLE, chan := none, killed := false, pc := .user, ret := 0 }
  accepted := []
  delivered := []

/-! ## The acts -/

inductive Act where
  /-- process `p` calls `pipewrite`, `piperead` or `pipeclose` -/
  | pipewrite (p : Nat) (n : Int)
  | piperead (p : Nat) (n : Int)
  | pipeclose (p : Nat) (writable : Bool)
  /-- process `p` takes its next step; `ch` is the byte that `copyin` gives, and `none` when
  `copyin` or `copyout` fails -/
  | step (p : Nat) (ch : Option UInt8)
  | kill (p : Nat)
  | scheduler (p : Nat)
  | yield (p : Nat)
  deriving DecidableEq

def State.setPc (s : State) (p : Nat) (pc : Pc) : State :=
  { s with proc := put s.proc p { s.proc p with pc := pc } }

/-- `release(&pi->lock)` and return from the call. -/
def State.leave (s : State) (p : Nat) (res : Int) : State :=
  { s with lock := none, proc := put s.proc p { s.proc p with pc := .user, ret := res } }

/-- The first half of `sleep`: take `p->lock`, give `pi->lock` back. -/
def State.doze (s : State) (p : Nat) (chan : Chan) (caller : Caller) : State :=
  { s.setPc p (.dozing chan caller) with lock := none }

def Proc.locked (x : Proc) : Bool :=
  match x.pc with
  | .dozing _ _ => true
  | _ => false

def Pc.preemptible : Pc → Bool
  | .user | .enter _ | .pipeclose _ => true
  | _ => false

/-- `acquire(&pi->lock)`. -/
def acquire (s : State) (p : Nat) (pc : Pc) : Except Stop State :=
  if s.lock = none then .ok { s.setPc p pc with lock := some p } else .error .sleep

/-- One round of the loop of `pipewrite`. -/
def pipewrite (s : State) (p : Nat) (n i : Int) (ch : Option UInt8) : State :=
  if i < n then
    if s.pi.readopen = false ∨ (s.proc p).killed = true then s.leave p (-1)
    else if s.pi.nwrite = s.pi.nread + BitVec.ofNat 32 PIPESIZE then
      s.setPc p (.wakeup .nread 0 (.sleep .nwrite (.pipewrite n i)))
    else match ch with
      | none => s.setPc p (.wakeup .nread 0 (.ret i))
      | some c =>
        { s.setPc p (.writing n (i + 1)) with
          pi := { s.pi with
            data := put s.pi.data (s.pi.nwrite.toNat % PIPESIZE) c
            nwrite := s.pi.nwrite + 1 }
          accepted := s.accepted ++ [c] }
  else s.setPc p (.wakeup .nread 0 (.ret i))

/-- One round of the first loop of `piperead`. -/
def pipewait (s : State) (p : Nat) (n : Int) : State :=
  if s.pi.nread = s.pi.nwrite ∧ s.pi.writeopen = true then
    if (s.proc p).killed = true then s.leave p (-1) else s.doze p .nread (.piperead n)
  else s.setPc p (.reading n 0)

/-- One round of the second loop of `piperead`. -/
def piperead (s : State) (p : Nat) (n i : Int) (ch : Option UInt8) : State :=
  if i < n ∧ s.pi.nread ≠ s.pi.nwrite then
    let c := s.pi.data (s.pi.nread.toNat % PIPESIZE)
    let pi := { s.pi with nread := s.pi.nread + 1 }
    match ch with
    | none => { s.setPc p (.wakeup .nwrite 0 (.ret i)) with pi := pi }
    | some _ =>
      { s.setPc p (.reading n (i + 1)) with pi := pi, delivered := s.delivered ++ [c] }
  else s.setPc p (.wakeup .nwrite 0 (.ret i))

/-- The change that `pipeclose` makes before its `wakeup`. -/
def Pipe.close (pi : Pipe) (writable : Bool) : Pipe :=
  if writable then { pi with writeopen := false } else { pi with readopen := false }

def closeChan (writable : Bool) : Chan := if writable then .nread else .nwrite

/-- One round of the loop of `wakeup`, and what follows when the loop is over. -/
def wakeup (s : State) (p : Nat) (chan : Chan) (q : Nat) (next : Then) : Except Stop State :=
  if q < NPROC then
    if q = p then .ok (s.setPc p (.wakeup chan (q + 1) next))
    else if (s.proc q).locked = true then .error .sleep
    else if (s.proc q).state = .SLEEPING ∧ (s.proc q).chan = some chan then
      .ok ({ s with proc := put s.proc q { s.proc q with state := .RUNNABLE } }.setPc p
        (.wakeup chan (q + 1) next))
    else .ok (s.setPc p (.wakeup chan (q + 1) next))
  else match next with
    | .ret res => .ok (s.leave p res)
    | .sleep c caller => .ok (s.doze p c caller)

/-- The next step of process `p`. -/
def step (s : State) (p : Nat) (ch : Option UInt8) : Except Stop State :=
  match (s.proc p).pc with
  | .user => .error .sleep
  | .enter (.pipewrite n i) => acquire s p (.writing n i)
  | .enter (.piperead n) => acquire s p (.waiting n)
  | .writing n i => .ok (pipewrite s p n i ch)
  | .waiting n => .ok (pipewait s p n)
  | .reading n i => .ok (piperead s p n i ch)
  | .pipeclose writable =>
    acquire { s with pi := s.pi.close writable } p (.wakeup (closeChan writable) 0 (.ret 0))
  | .wakeup chan q next => wakeup s p chan q next
  | .dozing chan caller =>
    .ok { s with proc := put s.proc p { s.proc p with
      state := .SLEEPING
      chan := some chan
      pc := .asleep caller } }
  | .asleep caller =>
    .ok { s with proc := put s.proc p { s.proc p with chan := none, pc := .enter caller } }

/-- A process in user space calls. -/
def call (s : State) (p : Nat) (pc : Pc) : Except Stop State :=
  if p < NPROC ∧ (s.proc p).state = .RUNNING ∧ (s.proc p).pc = .user then .ok (s.setPc p pc)
  else .error .sleep

def exec (s : State) : Act → Except Stop State
  | .pipewrite p n => call s p (.enter (.pipewrite n 0))
  | .piperead p n => call s p (.enter (.piperead n))
  | .pipeclose p writable => call s p (.pipeclose writable)
  | .step p ch => if (s.proc p).state = .RUNNING then step s p ch else .error .sleep
  | .kill p =>
    if (s.proc p).locked = true then .error .sleep
    else .ok { s with proc := put s.proc p { s.proc p with
      killed := true
      state := if (s.proc p).state = .SLEEPING then .RUNNABLE else (s.proc p).state } }
  | .scheduler p =>
    if (s.proc p).state = .RUNNABLE then
      .ok { s with proc := put s.proc p { s.proc p with state := .RUNNING } }
    else .error .sleep
  | .yield p =>
    if (s.proc p).state = .RUNNING ∧ (s.proc p).pc.preemptible = true then
      .ok { s with proc := put s.proc p { s.proc p with state := .RUNNABLE } }
    else .error .sleep

end xv6.pipe
