-- The loops of `wait`, `piperead`, `pipewrite`, `consoleread` and `sys_sleep`,
-- each of which tests `killed(p)` and then calls `sleep`, with `kill`, `exit`,
-- `pipeclose` and the interrupts that wake them. Every section under a lock of
-- a process is one act: the test is one, and the part of `sleep` that marks the
-- process as sleeping is another.
import Xv6.Lib.Machine
import Xv6.Proc

open cells

namespace xv6.loops

open proc (procstate)

/-! ## The state -/

inductive Lock where
  | wait_lock
  | pi_lock
  | cons_lock
  | tickslock
  deriving DecidableEq

/-- The addresses that processes sleep on: a process, `&pi->nread`, `&pi->nwrite`, `&cons.r` and
`&ticks`. -/
inductive Chan where
  | proc (p : Nat)
  | nread
  | nwrite
  | cons_r
  | ticks
  deriving DecidableEq

/-- A call with a loop that sleeps, and its local variables. -/
inductive Caller where
  | wait
  | piperead (n : Int)
  | pipewrite (n i : Int)
  | consoleread (n : Int)
  | sys_sleep (n : BitVec 32) (ticks0 : Option (BitVec 32))
  deriving DecidableEq

/-- The lock that the loop holds. -/
def Caller.lock : Caller → Lock
  | .wait => .wait_lock
  | .piperead _ | .pipewrite _ _ => .pi_lock
  | .consoleread _ => .cons_lock
  | .sys_sleep _ _ => .tickslock

/-- The call when it has its lock for the first time: `sys_sleep` reads the clock. -/
def Caller.begin (ticks : BitVec 32) : Caller → Caller
  | .sys_sleep n none => .sys_sleep n (some ticks)
  | c => c

/-- What process `p` sleeps on. -/
def Caller.chan (p : Nat) : Caller → Chan
  | .wait => .proc p
  | .piperead _ => .nread
  | .pipewrite _ _ => .nwrite
  | .consoleread _ => .cons_r
  | .sys_sleep _ _ => .ticks

/-- What follows a `wakeup`. -/
inductive Then where
  /-- give the lock back and return -/
  | ret (lk : Lock)
  /-- `pipewrite` sleeps, because the pipe is full -/
  | sleep (n i : Int)
  /-- `exit` wakes the parent -/
  | parent
  /-- `exit` makes the process a zombie -/
  | zombie
  deriving DecidableEq

/-- Where a process is. -/
inductive Pc where
  | user
  /-- at `acquire` of the lock of a loop -/
  | enter (c : Caller)
  /-- at the head of the loop, with its lock -/
  | head (c : Caller)
  /-- in the scan of `wait`, at slot `q` -/
  | scan (q : Nat) (havekids : Bool)
  /-- at `killed(p)` -/
  | killed (c : Caller)
  /-- in the second loop of `piperead` -/
  | reading (n i : Int)
  /-- in `pipewrite`, after `killed(p)` returned 0 -/
  | room (n i : Int)
  /-- at `sleep`, after `killed(p)` returned 0 -/
  | sleep (c : Caller)
  /-- in `sched`, called from `sleep` -/
  | asleep (c : Caller)
  /-- in the loop of `wakeup`, at slot `q` -/
  | wakeup (chan : Chan) (q : Nat) (next : Then)
  /-- in the loop of `kill`, at slot `q` -/
  | kill (pid : Int) (q : Nat)
  /-- at `acquire(&wait_lock)` of `exit` -/
  | exit
  /-- at `acquire(&pi->lock)` of `pipeclose` -/
  | pipeclose (writable : Bool)
  deriving DecidableEq

structure Proc where
  state : procstate
  pid : Int
  parent : Option Nat
  killed : Bool
  chan : Option Chan
  pc : Pc
  deriving DecidableEq

structure State where
  proc : Nat → Proc
  locked : Lock → Bool
  nread : BitVec 32
  nwrite : BitVec 32
  readopen : Bool
  writeopen : Bool
  /-- `cons.r` and `cons.w` -/
  r : BitVec 32
  w : BitVec 32
  ticks : BitVec 32
  /-- the slot at which the `wakeup` of a clock or console interrupt is -/
  clock : Option Nat
  console : Option Nat

/-- The processes with their identifiers and parents, a pipe, the console and the clock. -/
def start (pid : Nat → Int) (parent : Nat → Option Nat) : State where
  proc := fun p => ⟨.RUNNABLE, pid p, parent p, false, none, .user⟩
  locked := fun _ => false
  nread := 0
  nwrite := 0
  readopen := true
  writeopen := true
  r := 0
  w := 0
  ticks := 0
  clock := none
  console := none

/-! ## Sections -/

def State.setProc (s : State) (p : Nat) (x : Proc) : State := { s with proc := put s.proc p x }

def State.setPc (s : State) (p : Nat) (pc : Pc) : State := s.setProc p { s.proc p with pc := pc }

def acquire (s : State) (lk : Lock) : Except Stop State :=
  if s.locked lk = true then .error .sleep else .ok { s with locked := put s.locked lk true }

def release (s : State) (lk : Lock) : State := { s with locked := put s.locked lk false }

def leave (s : State) (p : Nat) (lk : Lock) : State := release (s.setPc p .user) lk

/-- The head of the loop. `ok` says whether `consoleread` goes on after a character. -/
def head (s : State) (p : Nat) (ok : Bool) : Caller → State
  | .wait => s.setPc p (.scan 0 false)
  | .piperead n =>
    if s.nread = s.nwrite ∧ s.writeopen = true then s.setPc p (.killed (.piperead n))
    else s.setPc p (.reading n 0)
  | .pipewrite n i =>
    if i < n then
      if s.readopen = false then leave s p .pi_lock else s.setPc p (.killed (.pipewrite n i))
    else s.setPc p (.wakeup .nread 0 (.ret .pi_lock))
  | .consoleread n =>
    if 0 < n then
      if s.r = s.w then s.setPc p (.killed (.consoleread n))
      else if ok = true then { s with r := s.r + 1 }.setPc p (.head (.consoleread (n - 1)))
      else leave { s with r := s.r + 1 } p .cons_lock
    else leave s p .cons_lock
  | .sys_sleep n ticks0 =>
    if s.ticks - ticks0.getD 0 < n then s.setPc p (.killed (.sys_sleep n ticks0)) else leave s p .tickslock

/-- The slot after `freeproc`. -/
def Proc.freed (x : Proc) : Proc :=
  { x with state := .UNUSED, pid := 0, parent := none, killed := false, chan := none }

/-- One round of the scan of `wait`, and the test for children behind it. -/
def scan (s : State) (p q : Nat) (havekids : Bool) : State :=
  if q < NPROC then
    if (s.proc q).parent = some p then
      if (s.proc q).state = .ZOMBIE then
        leave (s.setProc q (s.proc q).freed) p .wait_lock
      else s.setPc p (.scan (q + 1) true)
    else s.setPc p (.scan (q + 1) havekids)
  else if havekids = false then leave s p .wait_lock
  else s.setPc p (.killed .wait)

/-- `killed(p)`, and what the loop does with it. -/
def testKilled (s : State) (p : Nat) (c : Caller) : State :=
  if (s.proc p).killed = true then leave s p c.lock
  else match c with
    | .pipewrite n i => s.setPc p (.room n i)
    | c => s.setPc p (.sleep c)

/-- One round of the second loop of `piperead`. `ok` says whether `copyout` succeeds. -/
def reading (s : State) (p : Nat) (ok : Bool) (n i : Int) : State :=
  if i < n ∧ s.nread ≠ s.nwrite then
    { s with nread := s.nread + 1 }.setPc p
      (if ok = true then .reading n (i + 1) else .wakeup .nwrite 0 (.ret .pi_lock))
  else s.setPc p (.wakeup .nwrite 0 (.ret .pi_lock))

/-- The rest of the loop of `pipewrite`. `ok` says whether `copyin` succeeds. -/
def room (s : State) (p : Nat) (ok : Bool) (n i : Int) : State :=
  if s.nwrite = s.nread + BitVec.ofNat 32 PIPESIZE then
    s.setPc p (.wakeup .nread 0 (.sleep n i))
  else if ok = true then { s with nwrite := s.nwrite + 1 }.setPc p (.head (.pipewrite n (i + 1)))
  else s.setPc p (.wakeup .nread 0 (.ret .pi_lock))

/-- `sleep`, with `p->lock`. -/
def sleep (s : State) (p : Nat) (c : Caller) : State :=
  (release s c.lock).setProc p { s.proc p with
    state := .SLEEPING
    chan := some (c.chan p)
    pc := .asleep c }

/-- A process that is woken. -/
def Proc.woken (x : Proc) (chan : Chan) : Proc :=
  if x.state = .SLEEPING ∧ x.chan = some chan then { x with state := .RUNNABLE } else x

/-- One round of the loop of `wakeup`, and what follows when the loop is over. -/
def wakeup (s : State) (p : Nat) (chan : Chan) (q : Nat) (next : Then) : State :=
  if q < NPROC then
    if q = p then s.setPc p (.wakeup chan (q + 1) next)
    else (s.setProc q ((s.proc q).woken chan)).setPc p (.wakeup chan (q + 1) next)
  else match next with
    | .ret lk => leave s p lk
    | .sleep n i => s.setPc p (.sleep (.pipewrite n i))
    | .parent => s.setPc p (.wakeup (.proc ((s.proc p).parent.getD 0)) 0 .zombie)
    | .zombie => release (s.setProc p { s.proc p with state := .ZOMBIE, pc := .user }) .wait_lock

/-- The process after `kill` found it. -/
def Proc.hit (x : Proc) : Proc :=
  { x with killed := true, state := if x.state = .SLEEPING then .RUNNABLE else x.state }

/-- One round of the loop of `kill`. -/
def kill (s : State) (p : Nat) (pid : Int) (q : Nat) : State :=
  if q < NPROC then
    if (s.proc q).pid = pid then (s.setProc q (s.proc q).hit).setPc p .user
    else s.setPc p (.kill pid (q + 1))
  else s.setPc p .user

/-- `exit` gives the children to the first process, and wakes it if there are any. -/
def exit (s : State) (p : Nat) : State :=
  let adopt : Nat → Proc := fun q =>
    if (s.proc q).parent = some p then { s.proc q with parent := some 0 } else s.proc q
  let t := { s with proc := adopt }
  if (List.range NPROC).any fun q => (s.proc q).parent = some p then
    t.setPc p (.wakeup (.proc 0) 0 .parent)
  else t.setPc p (.wakeup (.proc ((t.proc p).parent.getD 0)) 0 .zombie)

def pipeclose (s : State) (p : Nat) (writable : Bool) : State :=
  if writable = true then
    { s with writeopen := false }.setPc p (.wakeup .nread 0 (.ret .pi_lock))
  else { s with readopen := false }.setPc p (.wakeup .nwrite 0 (.ret .pi_lock))

/-- The next section of process `p`. -/
def step (s : State) (p : Nat) (ok : Bool) : Except Stop State :=
  match (s.proc p).pc with
  | .user => .error .sleep
  | .enter c => (acquire s c.lock).map fun t => t.setPc p (.head (c.begin t.ticks))
  | .head c => .ok (head s p ok c)
  | .scan q havekids => .ok (scan s p q havekids)
  | .killed c => .ok (testKilled s p c)
  | .reading n i => .ok (reading s p ok n i)
  | .room n i => .ok (room s p ok n i)
  | .sleep c => .ok (sleep s p c)
  | .asleep c => .ok (s.setProc p { s.proc p with chan := none, pc := .enter c })
  | .wakeup chan q next => .ok (wakeup s p chan q next)
  | .kill pid q => .ok (kill s p pid q)
  | .exit =>
    if p = 0 then .error (.panic "init exiting") else (acquire s .wait_lock).map fun t => exit t p
  | .pipeclose writable => (acquire s .pi_lock).map fun t => pipeclose t p writable

/-! ## Acts -/

/-- The calls of a process. -/
inductive Call where
  | loop (c : Caller)
  | kill (pid : Int)
  | exit
  | pipeclose (writable : Bool)
  deriving DecidableEq

/-- Where a call starts. -/
def Call.pc : Call → Pc
  | .loop c => .enter c
  | .kill pid => .kill pid 0
  | .exit => .exit
  | .pipeclose writable => .pipeclose writable

/-- Process `p` holds no lock. -/
def Pc.preemptible : Pc → Bool
  | .user | .enter _ | .kill _ _ | .exit | .pipeclose _ => true
  | _ => false

inductive Act where
  /-- process `p` calls from user space -/
  | call (p : Nat) (c : Call)
  | step (p : Nat) (ok : Bool)
  | scheduler (p : Nat)
  | yield (p : Nat)
  /-- an interrupt starts, and goes on with its `wakeup` -/
  | clockintr
  | clockstep
  | consoleintr (w : BitVec 32)
  | consolestep
  deriving DecidableEq

/-- One round of the `wakeup` of an interrupt: the slot that it is at afterwards. -/
def intrWakeup (s : State) (chan : Chan) (lk : Lock) (q : Nat) : State × Option Nat :=
  if q < NPROC then (s.setProc q ((s.proc q).woken chan), some (q + 1)) else (release s lk, none)

def exec (s : State) : Act → Except Stop State
  | .call p c =>
    if p < NPROC ∧ (s.proc p).state = .RUNNING ∧ (s.proc p).pc = .user then .ok (s.setPc p c.pc)
    else .error .sleep
  | .step p ok => if (s.proc p).state = .RUNNING then step s p ok else .error .sleep
  | .scheduler p =>
    if (s.proc p).state = .RUNNABLE then .ok (s.setProc p { s.proc p with state := .RUNNING })
    else .error .sleep
  | .yield p =>
    if (s.proc p).state = .RUNNING ∧ (s.proc p).pc.preemptible = true then
      .ok (s.setProc p { s.proc p with state := .RUNNABLE })
    else .error .sleep
  | .clockintr => (acquire s .tickslock).map fun t => { t with ticks := t.ticks + 1, clock := some 0 }
  | .clockstep =>
    match s.clock with
    | none => .error .sleep
    | some q => let r := intrWakeup s .ticks .tickslock q; .ok { r.1 with clock := r.2 }
  | .consoleintr w => (acquire s .cons_lock).map fun t => { t with w := w, console := some 0 }
  | .consolestep =>
    match s.console with
    | none => .error .sleep
    | some q => let r := intrWakeup s .cons_r .cons_lock q; .ok { r.1 with console := r.2 }

/-! ## Kills between the test and the sleep -/

/-- The process has tested `killed(p)` and goes on to `sleep`. -/
def Pc.armed : Pc → Bool
  | .room _ _ | .sleep _ | .wakeup _ _ (.sleep _ _) => true
  | _ => false

/-- The loop of `kill` or `wakeup` has yet to come to slot `p`, where `x` is what it looks for. -/
def Pc.reaches (p : Nat) (x : Proc) : Pc → Prop
  | .kill pid q => q ≤ p ∧ x.pid = pid
  | .wakeup chan q _ => q ≤ p ∧ x.chan = some chan
  | _ => False

instance (p : Nat) (x : Proc) (pc : Pc) : Decidable (pc.reaches p x) := by
  unfold Pc.reaches
  split <;> infer_instance

/-- A `kill` or a `wakeup` of process `p` is in progress. -/
def InProgress (s : State) (p : Nat) : Prop :=
  (∃ r < NPROC, (s.proc r).pc.reaches p (s.proc p)) ∨
  (∃ q ≤ p, s.clock = some q ∧ (s.proc p).chan = some .ticks) ∨
  ∃ q ≤ p, s.console = some q ∧ (s.proc p).chan = some .cons_r

instance (s : State) (p : Nat) : Decidable (InProgress s p) :=
  inferInstanceAs (Decidable (_ ∨ _ ∨ _))

/-- Process `p` sleeps in the loop of call `c`, is killed, and nobody is about to wake it. -/
def KillLost (s : State) (p : Nat) (c : Caller) : Prop :=
  (s.proc p).state = .SLEEPING ∧ (s.proc p).pc = .asleep c ∧ (s.proc p).killed = true ∧
    ¬ InProgress s p

instance (s : State) (p : Nat) (c : Caller) : Decidable (KillLost s p c) :=
  inferInstanceAs (Decidable (_ ∧ _))

/-- No `kill` comes to a process that has tested `killed(p)` and has not yet gone to sleep. -/
def KillsOutsideWindow (s : State) (a : Act) : Prop :=
  ∀ p ok pid q, a = .step p ok → (s.proc p).pc = .kill pid q → (s.proc q).pid = pid →
    (s.proc q).pc.armed = false

/-- The process that takes the step. -/
def Act.stepper : Act → Option Nat
  | .step p _ => some p
  | _ => none

/-- The pid that a `kill` looks for, and the slot that it has come to. -/
def Pc.target : Pc → Option (Int × Nat)
  | .kill pid q => some (pid, q)
  | _ => none

lemma killsOutsideWindow_iff (s : State) (a : Act) :
    (∀ p ∈ a.stepper, ∀ x ∈ (s.proc p).pc.target, (s.proc x.2).pid = x.1 →
      (s.proc x.2).pc.armed = false) ↔ KillsOutsideWindow s a := by
  constructor
  · rintro h p ok pid q rfl hpc hpid
    exact h p rfl (pid, q) (by rw [hpc]; rfl) hpid
  · intro h p hp x hx hpid
    cases a with
    | step p' ok =>
      cases hp
      cases hpc : (s.proc p).pc
      all_goals rw [hpc] at hx
      all_goals cases hx
      exact h p ok _ _ rfl hpc hpid
    | _ => cases hp

instance (s : State) (a : Act) : Decidable (KillsOutsideWindow s a) :=
  decidable_of_iff _ (killsOutsideWindow_iff s a)

def Proc.Calm (x : Proc) : Prop := x.pc.armed = true ∨ x.state = .SLEEPING → x.killed = false

def Calm (s : State) : Prop := ∀ p, (s.proc p).Calm

variable {s t : State} {p q : Nat} {x y : Proc}

lemma Proc.Calm.mono (h : x.Calm) (hpc : y.pc.armed = true → x.pc.armed = true)
    (hst : y.state = .SLEEPING → x.state = .SLEEPING) (hk : y.killed = x.killed) : y.Calm := by
  intro hy
  rw [hk]
  exact h (hy.imp hpc hst)

lemma Proc.Calm.idle (hpc : x.pc.armed = false) (hst : x.state ≠ .SLEEPING) : x.Calm := by
  rintro (h | h)
  · rw [hpc] at h
    cases h
  · exact absurd h hst

section

variable (h : Calm s)
include h

lemma Calm.setProc (hx : x.Calm) : Calm (s.setProc p x) := by
  intro q
  unfold State.setProc
  dsimp only
  by_cases hq : q = p
  · rw [hq, put_self]
    exact hx
  · rw [put_of_ne hq]
    exact h q

lemma Calm.setPc (hst : (s.proc p).state = .RUNNING) {pc : Pc}
    (hpc : pc.armed = false) : Calm (s.setPc p pc) :=
  h.setProc (.idle hpc (by dsimp only; rw [hst]; decide))

lemma Calm.setPc_armed (hk : (s.proc p).killed = false) {pc : Pc} :
    Calm (s.setPc p pc) :=
  h.setProc fun _ => hk

lemma Calm.release (lk : Lock) : Calm (release s lk) := h

lemma Calm.acquire {lk : Lock} (he : acquire s lk = .ok t) : Calm t ∧ t.proc = s.proc := by
  unfold loops.acquire at he
  split at he
  · cases he
  · cases he
    exact ⟨h, rfl⟩

lemma Calm.leave (hst : (s.proc p).state = .RUNNING) (lk : Lock) :
    Calm (leave s p lk) :=
  (h.setPc hst rfl).release lk

lemma Calm.head (hst : (s.proc p).state = .RUNNING) (ok : Bool) (c : Caller) :
    Calm (head s p ok c) := by
  cases c with
  | wait => exact h.setPc hst rfl
  | piperead n =>
    simp only [loops.head]
    split
    · exact h.setPc hst rfl
    · exact h.setPc hst rfl
  | pipewrite n i =>
    simp only [loops.head]
    split
    · split
      · exact h.leave hst _
      · exact h.setPc hst rfl
    · exact h.setPc hst rfl
  | consoleread n =>
    simp only [loops.head]
    split
    · split
      · exact h.setPc hst rfl
      · split
        · exact Calm.setPc (s := { s with r := s.r + 1 }) h hst rfl
        · exact Calm.leave (s := { s with r := s.r + 1 }) h hst _
    · exact h.leave hst _
  | sys_sleep n ticks0 =>
    simp only [loops.head]
    split
    · exact h.setPc hst rfl
    · exact h.leave hst _

lemma Calm.scan (hst : (s.proc p).state = .RUNNING) (q : Nat) (havekids : Bool) :
    Calm (scan s p q havekids) := by
  unfold loops.scan
  split
  · split
    · split
      · rename_i hz
        have hpq : p ≠ q := by
          rintro rfl
          rw [hst] at hz
          cases hz
        refine Calm.leave (h.setProc fun _ => rfl) ?_ _
        unfold State.setProc
        dsimp only
        rw [put_of_ne hpq]
        exact hst
      · exact h.setPc hst rfl
    · exact h.setPc hst rfl
  · split
    · exact h.leave hst _
    · exact h.setPc hst rfl

lemma Calm.testKilled (hst : (s.proc p).state = .RUNNING) (c : Caller) :
    Calm (testKilled s p c) := by
  unfold loops.testKilled
  split
  · exact h.leave hst _
  · rename_i hk
    have hk' : (s.proc p).killed = false := by simpa using hk
    split
    · exact h.setPc_armed hk'
    · exact h.setPc_armed hk'

lemma Calm.reading (hst : (s.proc p).state = .RUNNING) (ok : Bool) (n i : Int) :
    Calm (reading s p ok n i) := by
  unfold loops.reading
  split
  · refine Calm.setPc (s := { s with nread := s.nread + 1 }) h hst ?_
    split
    · rfl
    · rfl
  · exact h.setPc hst rfl

lemma Calm.room {n i : Int} (hst : (s.proc p).state = .RUNNING)
    (hpc : (s.proc p).pc = .room n i) (ok : Bool) : Calm (room s p ok n i) := by
  have hk : (s.proc p).killed = false := h p (.inl (by rw [hpc]; rfl))
  unfold loops.room
  split
  · exact h.setPc_armed hk
  · split
    · exact Calm.setPc (s := { s with nwrite := s.nwrite + 1 }) h hst rfl
    · exact h.setPc hst rfl

lemma Calm.sleep {c : Caller} (hpc : (s.proc p).pc = .sleep c) :
    Calm (sleep s p c) := by
  have hk : (s.proc p).killed = false := h p (.inl (by rw [hpc]; rfl))
  exact (h.release c.lock).setProc fun _ => hk

end

lemma Proc.Calm.woken (h : x.Calm) (chan : Chan) : (x.woken chan).Calm := by
  unfold Proc.woken
  split
  · exact h.mono id (fun hc => by cases hc) rfl
  · exact h

lemma Calm.wakeup {chan : Chan} {next : Then} (h : Calm s) (hst : (s.proc p).state = .RUNNING)
    (hpc : (s.proc p).pc = .wakeup chan q next) : Calm (wakeup s p chan q next) := by
  have hkeep : ∀ {u : State}, Calm u → u.proc p = s.proc p →
      Calm (u.setPc p (.wakeup chan (q + 1) next)) := by
    intro u hu hup
    refine hu.setProc ((h p).mono ?_ ?_ ?_)
    · rw [hpc]
      cases next <;> exact id
    · rw [hup]
      exact id
    · rw [hup]
  unfold loops.wakeup
  split
  · split
    · exact hkeep h rfl
    · rename_i hqp
      refine hkeep (h.setProc ((h q).woken chan)) ?_
      unfold State.setProc
      dsimp only
      rw [put_of_ne (Ne.symm hqp)]
  · cases next with
    | ret lk => exact h.leave hst lk
    | sleep n i => exact h.setPc_armed (h p (.inl (by rw [hpc]; rfl)))
    | parent => exact h.setPc hst rfl
    | zombie =>
      refine Calm.release (h.setProc (.idle rfl ?_)) _
      dsimp only
      decide

lemma Proc.Calm.hit (hpc : x.pc.armed = false) : x.hit.Calm := by
  refine .idle hpc ?_
  unfold Proc.hit
  dsimp only
  split
  · decide
  · assumption

section

variable (h : Calm s) (hst : (s.proc p).state = .RUNNING)
include h hst

lemma Calm.kill {pid : Int}
    (hwin : (s.proc q).pid = pid → (s.proc q).pc.armed = false) : Calm (kill s p pid q) := by
  unfold loops.kill
  split
  · split
    · rename_i hpid
      refine Calm.setPc (h.setProc (.hit (hwin hpid))) ?_ rfl
      unfold State.setProc
      dsimp only
      by_cases hpq : p = q
      · rw [hpq, put_self]
        unfold Proc.hit
        rw [← hpq, hst]
        rfl
      · rw [put_of_ne hpq]
        exact hst
    · exact h.setPc hst rfl
  · exact h.setPc hst rfl

lemma Calm.exit : Calm (exit s p) := by
  have hadopt : Calm { s with proc := fun q =>
      if (s.proc q).parent = some p then { s.proc q with parent := some 0 } else s.proc q } := by
    intro q
    dsimp only
    split
    · exact (h q).mono id id rfl
    · exact h q
  have hrun : (if (s.proc p).parent = some p then { s.proc p with parent := some 0 }
      else s.proc p).state = .RUNNING := by
    split
    · exact hst
    · exact hst
  unfold loops.exit
  split
  · exact hadopt.setPc hrun rfl
  · exact hadopt.setPc hrun rfl

lemma Calm.pipeclose (writable : Bool) :
    Calm (pipeclose s p writable) := by
  unfold loops.pipeclose
  split
  · exact Calm.setPc (s := { s with writeopen := false }) h hst rfl
  · exact Calm.setPc (s := { s with readopen := false }) h hst rfl

end

lemma Calm.locked {lk : Lock} {f : State → State} (h : Calm s)
    (hf : ∀ u, Calm u → u.proc = s.proc → Calm (f u)) (he : (loops.acquire s lk).map f = .ok t) :
    Calm t := by
  cases ha : loops.acquire s lk with
  | error e =>
    rw [ha] at he
    cases he
  | ok u =>
    rw [ha] at he
    cases he
    obtain ⟨hu, hproc⟩ := h.acquire ha
    exact hf u hu hproc

lemma Calm.step {ok : Bool} (h : Calm s) (hst : (s.proc p).state = .RUNNING)
    (hwin : KillsOutsideWindow s (.step p ok)) (he : step s p ok = .ok t) : Calm t := by
  unfold loops.step at he
  split at he
  · cases he
  · exact h.locked (fun u hu hp => hu.setPc (by rw [hp]; exact hst) rfl) he
  · cases he
    exact h.head hst ok _
  · cases he
    exact h.scan hst _ _
  · cases he
    exact h.testKilled hst _
  · cases he
    exact h.reading hst ok _ _
  · rename_i hpc
    cases he
    exact h.room hst hpc ok
  · rename_i hpc
    cases he
    exact h.sleep hpc
  · cases he
    exact h.setProc (.idle rfl (by dsimp only; rw [hst]; decide))
  · rename_i hpc
    cases he
    exact h.wakeup hst hpc
  · rename_i hpc
    cases he
    exact h.kill hst fun hpid => hwin p ok _ _ rfl hpc hpid
  · split at he
    · cases he
    · exact h.locked (fun u hu hp => hu.exit (by rw [hp]; exact hst)) he
  · exact h.locked (fun u hu hp => hu.pipeclose (by rw [hp]; exact hst) _) he

lemma Calm.intrWakeup (h : Calm s) (chan : Chan) (lk : Lock) (q : Nat) :
    Calm (intrWakeup s chan lk q).1 := by
  unfold loops.intrWakeup
  split
  · exact h.setProc ((h q).woken chan)
  · exact h.release lk

lemma Calm.exec {a : Act} (h : Calm s) (hC : KillsOutsideWindow s a) (he : exec s a = .ok t) :
    Calm t := by
  cases a with
  | call p c =>
    simp only [loops.exec] at he
    split at he
    · rename_i hc
      cases he
      refine h.setPc hc.2.1 ?_
      cases c <;> rfl
    · cases he
  | step p ok =>
    simp only [loops.exec] at he
    split at he
    · rename_i hst
      exact h.step hst hC he
    · cases he
  | scheduler p =>
    simp only [loops.exec] at he
    split at he
    · cases he
      exact h.setProc ((h p).mono id (fun hc => by cases hc) rfl)
    · cases he
  | yield p =>
    simp only [loops.exec] at he
    split at he
    · cases he
      exact h.setProc ((h p).mono id (fun hc => by cases hc) rfl)
    · cases he
  | clockintr =>
    refine h.locked ?_ he
    exact fun u hu _ => hu
  | clockstep =>
    simp only [loops.exec] at he
    split at he
    · cases he
    · cases he
      exact h.intrWakeup .ticks .tickslock _
  | consoleintr w =>
    refine h.locked ?_ he
    exact fun u hu _ => hu
  | consolestep =>
    simp only [loops.exec] at he
    split at he
    · cases he
    · cases he
      exact h.intrWakeup .cons_r .cons_lock _

open machine

/-- As long as no `kill` comes between the test of `killed(p)` and the `sleep` behind it, no kill is
lost: a process that sleeps in one of the loops is not killed. -/
theorem no_kill_is_lost_outside_the_window {pid : Nat → Int} {parent : Nat → Option Nat}
    (h : Run exec KillsOutsideWindow (start pid parent) s) (p : Nat) (c : Caller) :
    ¬ KillLost s p c := by
  have hcalm : Calm s := h.invariant (I := Calm) (fun _ _ => rfl) fun _ _ _ hs hC he => hs.exec hC he
  rintro ⟨hst, _, hk, _⟩
  have hfalse := hcalm p (Or.inr hst)
  rw [hk] at hfalse
  cases hfalse

def twoProcesses : State := start (fun p => p + 1) fun p => if p = 1 then some 0 else none

/-- The first process makes the call and takes `n` steps; then the second one kills it with its
first step, and the first takes one more. -/
def killedAfter (c : Caller) (n : Nat) : List Act :=
  [.scheduler 0, .scheduler 1, .call 0 (.loop c)] ++ List.replicate n (.step 0 true) ++
    [.call 1 (.kill 1), .step 1 true, .step 0 true]

theorem no_kill_is_lost_outside_the_window_asleep : ∃ s,
    Run exec KillsOutsideWindow twoProcesses s ∧ (s.proc 0).killed = true ∧
      ¬ KillLost s 0 (.sys_sleep 1 (some 0)) := by
  obtain ⟨s, hs, ht⟩ := exists_played exec KillsOutsideWindow twoProcesses
    ((killedAfter (.sys_sleep 1 none) 4).dropLast) (fun s a => decide (KillsOutsideWindow s a))
    (fun s => (s.proc 0).killed) (fun _ _ h => of_decide_eq_true h) (by decide +kernel)
  exact ⟨s, hs, ht, no_kill_is_lost_outside_the_window hs 0 _⟩

lemma kill_lost_of_play (c : Caller) (n : Nat) (d : Caller)
    (h : (play exec (fun _ _ => true) (killedAfter c n) twoProcesses).any
      (fun s => decide (KillLost s 0 d)) = true) :
    ∃ s, Run exec (fun _ _ => True) twoProcesses s ∧ KillLost s 0 d := by
  obtain ⟨s, hs, ht⟩ := exists_played exec (fun _ _ => True) twoProcesses _ (fun _ _ => true)
    (fun s => decide (KillLost s 0 d)) (fun _ _ _ => trivial) h
  exact ⟨s, hs, of_decide_eq_true ht⟩

/-- A `kill` between the test and the sleep is lost, in every one of these loops. -/
theorem kill_in_the_window_is_lost :
    (∃ s, Run exec (fun _ _ => True) twoProcesses s ∧ KillLost s 0 .wait) ∧
    (∃ s, Run exec (fun _ _ => True) twoProcesses s ∧ KillLost s 0 (.piperead 1)) ∧
    (∃ s, Run exec (fun _ _ => True) twoProcesses s ∧ KillLost s 0 (.consoleread 1)) ∧
    ∃ s, Run exec (fun _ _ => True) twoProcesses s ∧ KillLost s 0 (.sys_sleep 1 (some 0)) := by
  refine ⟨?_, ?_, ?_, ?_⟩
  · exact kill_lost_of_play .wait 68 .wait (by decide +kernel)
  · exact kill_lost_of_play (.piperead 1) 3 (.piperead 1) (by decide +kernel)
  · exact kill_lost_of_play (.consoleread 1) 3 (.consoleread 1) (by decide +kernel)
  · exact kill_lost_of_play (.sys_sleep 1 none) 3 (.sys_sleep 1 (some 0)) (by decide +kernel)

end xv6.loops
