-- `sleep` and `wakeup`, one lock at a time. A process that sleeps takes its
-- `p->lock` before it drops `lk`, and the scheduler releases `p->lock` after
-- the process is marked, so a `wakeup` under `lk` finds it marked.
import Xv6.Lib.Machine
import Xv6.Proc

open cells machine

namespace xv6.handover

open proc (procstate)

/-- Where a process is. -/
inductive Pc where
  | run
  /-- in `sleep`, at `acquire(&p->lock)` -/
  | sleep (chan lk : Nat)
  /-- at `release(lk)` -/
  | unlock (chan lk : Nat)
  /-- at the assignments to `p->chan` and `p->state` -/
  | mark (chan lk : Nat)
  /-- in `sched`, before the scheduler releases `p->lock` -/
  | sched (chan lk : Nat)
  | asleep (chan lk : Nat)
  /-- back from `sched`, with `p->lock` -/
  | woken (lk : Nat)
  /-- at `acquire(lk)` -/
  | relock (lk : Nat)
  /-- in the loop of `wakeup`, at slot `q` -/
  | wakeup (chan q : Nat)
  /-- there with the lock of slot `q` -/
  | visit (chan q : Nat)
  deriving DecidableEq

structure Proc where
  state : procstate
  chan : Option Nat
  pc : Pc

/-- The processes, and who holds each lock. The scheduler holds `p->lock` for process `p`. -/
structure State where
  proc : Nat → Proc
  lock : Nat → Option Nat
  plock : Nat → Option Nat

def start : State where
  proc := fun _ => ⟨.RUNNABLE, none, .run⟩
  lock := fun _ => none
  plock := fun _ => none

/-! ## Steps -/

def State.setProc (s : State) (p : Nat) (x : Proc) : State := { s with proc := put s.proc p x }

def State.setPc (s : State) (p : Nat) (pc : Pc) : State := s.setProc p { s.proc p with pc := pc }

def State.setLock (s : State) (lk : Nat) (h : Option Nat) : State :=
  { s with lock := put s.lock lk h }

def State.setPlock (s : State) (q : Nat) (h : Option Nat) : State :=
  { s with plock := put s.plock q h }

def Proc.woken (x : Proc) (chan : Nat) : Proc :=
  if x.state = .SLEEPING ∧ x.chan = some chan then { x with state := .RUNNABLE } else x

/-- The next step of process `p`. -/
def step (s : State) (p : Nat) : Except Stop State :=
  match (s.proc p).pc with
  | .run | .sched _ _ | .asleep _ _ => .error .sleep
  | .sleep chan lk =>
    if s.plock p = none then .ok ((s.setPlock p (some p)).setPc p (.unlock chan lk))
    else .error .sleep
  | .unlock chan lk => .ok ((s.setLock lk none).setPc p (.mark chan lk))
  | .mark chan lk => .ok (s.setProc p ⟨.SLEEPING, some chan, .sched chan lk⟩)
  | .woken lk =>
    .ok ((s.setPlock p none).setProc p { s.proc p with chan := none, pc := .relock lk })
  | .relock lk =>
    if s.lock lk = none then .ok ((s.setLock lk (some p)).setPc p .run) else .error .sleep
  | .wakeup chan q =>
    if q < NPROC then
      if q = p then .ok (s.setPc p (.wakeup chan (q + 1)))
      else if s.plock q = none then .ok ((s.setPlock q (some p)).setPc p (.visit chan q))
      else .error .sleep
    else .ok (s.setPc p .run)
  | .visit chan q => .ok (((s.setProc q ((s.proc q).woken chan)).setPlock q none).setPc p
      (.wakeup chan (q + 1)))

def Pc.preemptible : Pc → Bool
  | .run | .relock _ | .wakeup _ _ => true
  | _ => false

def Proc.runs (x : Proc) : Prop := x.state = .RUNNING ∧ x.pc = .run

instance (x : Proc) : Decidable x.runs := inferInstanceAs (Decidable (_ ∧ _))

inductive Act where
  | acquire (p lk : Nat)
  | release (p lk : Nat)
  /-- calls of `sleep`, with `lk`, and of `wakeup` -/
  | sleep (p chan lk : Nat)
  | wakeup (p chan : Nat)
  | step (p : Nat)
  | yield (p : Nat)
  /-- the scheduler is back from process `p`, and chooses it -/
  | back (p : Nat)
  | scheduler (p : Nat)

def exec (s : State) : Act → Except Stop State
  | .acquire p lk =>
    if (s.proc p).runs ∧ s.lock lk = none then .ok (s.setLock lk (some p)) else .error .sleep
  | .release p lk =>
    if (s.proc p).runs ∧ s.lock lk = some p then .ok (s.setLock lk none) else .error .sleep
  | .sleep p chan lk =>
    if (s.proc p).runs ∧ s.lock lk = some p then .ok (s.setPc p (.sleep chan lk))
    else .error .sleep
  | .wakeup p chan =>
    if (s.proc p).runs then .ok (s.setPc p (.wakeup chan 0)) else .error .sleep
  | .step p => if (s.proc p).state = .RUNNING then step s p else .error .sleep
  | .yield p =>
    if (s.proc p).state = .RUNNING ∧ (s.proc p).pc.preemptible ∧ s.plock p = none then
      .ok (s.setProc p { s.proc p with state := .RUNNABLE })
    else .error .sleep
  | .back p =>
    match (s.proc p).pc with
    | .sched chan lk => .ok ((s.setPlock p none).setPc p (.asleep chan lk))
    | _ => .error .sleep
  | .scheduler p =>
    if s.plock p = none ∧ (s.proc p).state = .RUNNABLE then
      match (s.proc p).pc with
      | .asleep _ lk => .ok ((s.setPlock p (some p)).setProc p
          { s.proc p with state := .RUNNING, pc := .woken lk })
      | _ => .ok (s.setProc p { s.proc p with state := .RUNNING })
    else .error .sleep

/-! ## The invariant -/

/-- The process holds its own lock. -/
def Pc.locked : Pc → Bool
  | .unlock _ _ | .mark _ _ | .sched _ _ | .woken _ => true
  | _ => false

def Pc.keeps : Pc → Option Nat
  | .sleep _ lk | .unlock _ lk => some lk
  | _ => none

/-- The channel and the lock of a process that does not run. -/
def Pc.rests : Pc → Option (Nat × Nat)
  | .sched chan lk | .asleep chan lk => some (chan, lk)
  | _ => none

/-- The channel of a `wakeup`, and the slot at which it is. -/
def Pc.wakes : Pc → Option (Nat × Nat)
  | .wakeup chan q | .visit chan q => some (chan, q)
  | _ => none

/-- The process is not in a `sleep` on `chan` with `lk` that a `wakeup` has to find. -/
def Proc.clear (x : Proc) (chan lk : Nat) : Prop :=
  x.pc ≠ .mark chan lk ∧ (x.pc.rests = some (chan, lk) → x.state ≠ .SLEEPING)

/-- What holds of process `p`. -/
structure Local (s : State) (p : Nat) : Prop where
  keeps : ∀ lk, (s.proc p).pc.keeps = some lk → s.lock lk = some p
  locked : (s.proc p).pc.locked = true ↔ s.plock p = some p
  visits : ∀ chan q, (s.proc p).pc = .visit chan q → s.plock q = some p ∧ q ≠ p
  rests : (s.proc p).state = .SLEEPING → (s.proc p).pc.rests.isSome = true ∧
    ∀ chan lk, (s.proc p).pc.rests = some (chan, lk) → (s.proc p).chan = some chan
  /-- behind its `wakeup` nobody sleeps, or is about to -/
  wakes : ∀ chan q lk i, (s.proc p).pc.wakes = some (chan, q) → s.lock lk = some p → i < q →
    i ≠ p → (s.proc i).clear chan lk

def Inv (s : State) : Prop := ∀ p, Local s p

/-- What an act of process `p`, or of the scheduler for it, does to the other processes. -/
structure Change (s t : State) (p : Nat) : Prop where
  proc : ∀ i, i ≠ p → t.proc i = s.proc i
  lock : ∀ lk i, i ≠ p → (t.lock lk = some i ↔ s.lock lk = some i)
  plock : ∀ q i, i ≠ p → (t.plock q = some i ↔ s.plock q = some i)
  clear : ∀ chan lk, s.lock lk ≠ some p → (s.proc p).clear chan lk → (t.proc p).clear chan lk

variable {s t : State} {p q chan : Nat}

lemma Inv.change (h : Inv s) (hc : Change s t p) (hp : Local t p) : Inv t := by
  intro j
  by_cases hj : j = p
  · rw [hj]
    exact hp
  · obtain ⟨hkeeps, hlocked, hvisits, hrests, hwakes⟩ := h j
    constructor <;> rw [hc.proc j hj]
    · exact fun lk hlk => (hc.lock lk j hj).mpr (hkeeps lk hlk)
    · rw [hc.plock j j hj, hlocked]
    · exact fun chan q hv => ⟨(hc.plock q j hj).mpr (hvisits chan q hv).1, (hvisits chan q hv).2⟩
    · exact hrests
    · intro chan q lk i hw hlk hi hne
      have hlk' := (hc.lock lk j hj).mp hlk
      have hclear := hwakes chan q lk i hw hlk' hi hne
      by_cases hip : i = p
      · rw [hip] at hclear ⊢
        refine hc.clear chan lk ?_ hclear
        rw [hlk']
        simpa using hj
      · rw [hc.proc i hip]
        exact hclear

lemma inv_start : Inv start := by
  intro p
  constructor <;> simp [start, Pc.keeps, Pc.locked, Pc.wakes]

lemma Inv.wake (h : Inv s) (q chan : Nat) : Inv (s.setProc q ((s.proc q).woken chan)) := by
  have hq := h q
  unfold Proc.woken
  refine h.change (p := q) ?_ ?_ <;> constructor <;> simp only [State.setProc] <;>
    grind [put, Local, Proc.clear]

lemma Inv.visit (h : Inv s) (hpc : (s.proc p).pc = .visit chan q) : Inv
    (((s.setProc q ((s.proc q).woken chan)).setPlock q none).setPc p (.wakeup chan (q + 1))) := by
  have hw := h.wake q chan
  obtain ⟨hlock, hne⟩ := (h p).visits chan q hpc
  -- a process that is about to sleep holds its own lock
  have hclear : ∀ lk, ((s.proc q).woken chan).clear chan lk := by
    have hq := h q
    unfold Proc.woken
    grind [Local, Proc.clear, Pc.locked]
  have hp := hw p
  have hbehind := fun lk i => hp.wakes chan q lk i (by simp [State.setProc, hne.symm, hpc, Pc.wakes])
  refine hw.change (p := p) ?_ ?_ <;> constructor <;>
    simp only [State.setPlock, State.setPc, State.setProc] at hp hbehind ⊢ <;>
    grind [put, Local, Proc.clear, Pc.locked, Pc.keeps, Pc.rests, Pc.wakes]

lemma Inv.step (h : Inv s) (hrun : (s.proc p).state = .RUNNING) (he : step s p = .ok t) :
    Inv t := by
  have hp := h p
  cases hpc : (s.proc p).pc with
  | visit chan q =>
    simp only [handover.step, hpc] at he
    cases he
    exact h.visit hpc
  | wakeup chan q =>
    have hbehind := fun lk i => hp.wakes chan q lk i (by rw [hpc]; rfl)
    simp only [handover.step, hpc] at he
    split at he <;> (try split at he) <;> (try split at he) <;> cases he <;>
      refine h.change (p := p) ?_ ?_ <;> constructor <;>
      simp only [State.setPlock, State.setPc, State.setProc] <;>
      grind [put, Local, Proc.clear, Pc.locked, Pc.keeps, Pc.rests, Pc.wakes]
  | _ =>
    simp only [handover.step, hpc] at he
    (try split at he) <;> cases he <;>
      refine h.change (p := p) ?_ ?_ <;> constructor <;>
      simp only [State.setLock, State.setPlock, State.setPc, State.setProc] <;>
      grind [put, Local, Proc.clear, Pc.locked, Pc.keeps, Pc.rests, Pc.wakes]

lemma Inv.exec {a : Act} (h : Inv s) (he : exec s a = .ok t) : Inv t := by
  cases a with
  | step p =>
    simp only [handover.exec] at he
    split at he
    · exact h.step ‹_› he
    · cases he
  | acquire p _ | release p _ | sleep p _ _ | wakeup p _ | yield p | back p | scheduler p =>
    have hp := h p
    simp only [handover.exec] at he
    split at he <;> (try split at he) <;> cases he <;>
      refine h.change (p := p) ?_ ?_ <;> constructor <;>
      simp only [State.setLock, State.setPlock, State.setPc, State.setProc] <;>
      grind [put, Local, Proc.clear, Pc.locked, Pc.keeps, Pc.rests, Pc.wakes, Proc.runs,
        Pc.preemptible]

/-! ## The hand-over -/

lemma wakeup_state {w : Nat} (hw : (s.proc w).pc.wakes = some (chan, q)) (he : step s w = .ok t)
    (hne : (t.proc p).state ≠ (s.proc p).state) :
    (s.proc p).state = .SLEEPING ∧ (s.proc p).chan = some chan ∧ (t.proc p).state = .RUNNABLE := by
  unfold handover.step at he
  split at he <;> simp_all only [Pc.wakes, Option.some.injEq, Prod.mk.injEq, reduceCtorEq]
  · (try split at he) <;> (try split at he) <;> (try split at he) <;> cases he <;>
      simp only [State.setPlock, State.setPc, State.setProc] at hne <;> grind [put]
  · cases he
    simp only [State.setPlock, State.setPc, State.setProc, Proc.woken] at hne ⊢
    grind [put]

/-- When a `wakeup` under `lk` is at its end, no process is asleep in a `sleep` on the channel with
`lk`, or still to be marked. The `sleep` returns with `lk` and without `p->lock`. -/
theorem wakeup_finds_the_sleepers (h : Run exec (fun _ _ => True) start s) :
    (∀ w chan lk p, (s.proc w).pc = .wakeup chan NPROC → s.lock lk = some w → p < NPROC → p ≠ w →
      (s.proc p).clear chan lk) ∧
    (∀ w chan q t p, (s.proc w).pc.wakes = some (chan, q) → exec s (.step w) = .ok t →
      (t.proc p).state ≠ (s.proc p).state →
      (s.proc p).state = .SLEEPING ∧ (s.proc p).chan = some chan ∧ (t.proc p).state = .RUNNABLE) ∧
    ∀ p lk t, (s.proc p).pc = .relock lk → exec s (.step p) = .ok t →
      (t.proc p).pc = .run ∧ t.lock lk = some p ∧ t.plock p ≠ some p := by
  have hinv : Inv s := h.invariant inv_start fun _ _ _ hs _ he => hs.exec he
  refine ⟨fun w chan lk p hw hlk hp hne => ?_, fun w chan q t p hw he hne => ?_,
    fun p lk t hp he => ?_⟩
  · exact (hinv w).wakes chan NPROC lk p (by rw [hw]; rfl) hlk hp hne
  · simp only [exec] at he
    split at he
    · exact wakeup_state hw he hne
    · cases he
  · have hfree : s.plock p ≠ some p := by
      rw [Ne, ← (hinv p).locked, hp]
      simp [Pc.locked]
    simp only [exec, step, hp] at he
    split at he <;> (try split at he) <;> cases he
    simp [State.setLock, State.setPc, State.setProc, hfree]

/-- Process 1 sleeps on channel 7 with lock 3, and process 0 calls `wakeup`. -/
def handoverActs : List Act :=
  [.scheduler 1, .acquire 1 3, .sleep 1 7 3, .step 1, .step 1, .step 1, .scheduler 0,
    .acquire 0 3, .wakeup 0 7, .back 1] ++ List.replicate 127 (.step 0)

theorem wakeup_finds_the_sleeper_in_slot_one : ∃ s, Run exec (fun _ _ => True) start s ∧
    (s.proc 1).pc = .asleep 7 3 ∧ (s.proc 1).state ≠ .SLEEPING := by
  obtain ⟨s, hrun, htest⟩ := exists_played exec (fun _ _ => True) start handoverActs
    (fun _ _ => true)
    (fun s => decide ((s.proc 0).pc = .wakeup 7 NPROC ∧ s.lock 3 = some 0 ∧
      (s.proc 1).pc = .asleep 7 3)) (by simp) (by decide +kernel)
  obtain ⟨h0, hlock, h1⟩ := of_decide_eq_true htest
  have hclear := (wakeup_finds_the_sleepers hrun).1 0 7 3 1 h0 hlock (by decide) (by decide)
  exact ⟨s, hrun, h1, hclear.2 (by rw [h1]; rfl)⟩

end xv6.handover
