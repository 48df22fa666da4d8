-- The spin locks of `spinlock.c` on many CPUs. Every access to a word
-- of a lock is one step, and the steps of the CPUs come in any order.
import Xv6.Lib.Cells
import Xv6.Lib.Machine
import Xv6.Param

open cells machine

namespace xv6.spin

structure Spinlock where
  locked : Bool
  cpu : Option Nat

/-- Where a CPU is in `acquire` or `release`. -/
inductive Pc where
  | out
  /-- in `holding`, at `lk->locked` and at `lk->cpu`; `rel` if `release` called it -/
  | locked (l : Nat) (rel : Bool)
  | cpu (l : Nat) (rel : Bool)
  /-- at the atomic swap -/
  | swap (l : Nat)
  /-- at `lk->cpu = mycpu()` -/
  | record (l : Nat)
  /-- at `lk->cpu = 0`, at `__sync_lock_release` and at `pop_off` -/
  | clear (l : Nat)
  | unlock (l : Nat)
  | pop
  deriving DecidableEq

structure Cpu where
  pc : Pc
  /-- whether interrupts are on -/
  intr : Bool
  noff : Nat
  intena : Bool
  /-- the locks between their swap and their `__sync_lock_release` -/
  held : List Nat
  /-- what the last `intr_on` or `intr_off` asked for -/
  wanted : Bool

structure State where
  lock : Nat → Spinlock
  cpu : Nat → Cpu

def start : State := ⟨fun _ => ⟨false, none⟩, fun _ => ⟨.out, false, 0, false, [], false⟩⟩

def State.set (s : State) (c : Nat) (x : Cpu) : State := { s with cpu := put s.cpu c x }

def State.setLock (s : State) (l : Nat) (x : Spinlock) : State := { s with lock := put s.lock l x }

def push_off (x : Cpu) : Cpu :=
  { x with intr := false, intena := if x.noff = 0 then x.intr else x.intena, noff := x.noff + 1 }

def pop_off (x : Cpu) : Except Stop Cpu :=
  if x.intr = true then .error (.panic "pop_off - interruptible")
  else if x.noff < 1 then .error (.panic "pop_off")
  else .ok { x with
    noff := x.noff - 1, intr := if x.noff - 1 = 0 ∧ x.intena = true then true else x.intr }

/-- What `acquire` and `release` do with the result of `holding`. -/
def check (l : Nat) : (rel holding : Bool) → Except Stop Pc
  | false, true => .error (.panic "acquire")
  | false, false => .ok (.swap l)
  | true, true => .ok (.clear l)
  | true, false => .error (.panic "release")

/-- The next step of CPU `c` in its call. -/
def step (s : State) (c : Nat) : Except Stop State :=
  let x := s.cpu c
  match x.pc with
  | .out => .error .sleep
  | .locked l rel => do
    let pc ← if (s.lock l).locked = true then .ok (.cpu l rel) else check l rel false
    .ok (s.set c { x with pc := pc })
  | .cpu l rel => do
    let pc ← check l rel (decide ((s.lock l).cpu = some c))
    .ok (s.set c { x with pc := pc })
  | .swap l =>
    if (s.lock l).locked = true then .ok s
    else .ok ((s.set c { x with pc := .record l, held := l :: x.held }).setLock l
      { s.lock l with locked := true })
  | .record l => .ok ((s.set c { x with pc := .out }).setLock l { s.lock l with cpu := some c })
  | .clear l => .ok ((s.set c { x with pc := .unlock l }).setLock l { s.lock l with cpu := none })
  | .unlock l => .ok ((s.set c { x with pc := .pop, held := x.held.erase l }).setLock l
      { s.lock l with locked := false })
  | .pop => do
    let x ← pop_off x
    .ok (s.set c { x with pc := .out })

inductive Act where
  | acquire (c l : Nat)
  | release (c l : Nat)
  /-- `intr_on` or `intr_off` -/
  | intr (c : Nat) (on : Bool)
  | step (c : Nat)

/-- A CPU makes one call at a time, and calls `intr_on` and `intr_off` without a lock. -/
def exec (s : State) : Act → Except Stop State
  | .acquire c l =>
    if (s.cpu c).pc = .out then .ok (s.set c { push_off (s.cpu c) with pc := .locked l false })
    else .error .sleep
  | .release c l =>
    if (s.cpu c).pc = .out then .ok (s.set c { s.cpu c with pc := .locked l true })
    else .error .sleep
  | .intr c on =>
    if (s.cpu c).pc = .out ∧ (s.cpu c).noff = 0 then
      .ok (s.set c { s.cpu c with intr := on, wanted := on })
    else .error .sleep
  | .step c => step s c

/-! ## The invariant -/

/-- The `push_off` of a lock that is not held yet, or no more. -/
def Pc.pending : Pc → Nat
  | .locked _ false | .cpu _ false | .swap _ | .pop => 1
  | _ => 0

structure Local (x : Cpu) : Prop where
  nodup : x.held.Nodup
  count : x.noff = x.held.length + x.pc.pending
  off : 0 < x.noff → x.intr = false ∧ x.intena = x.wanted
  on : x.noff = 0 → x.intr = x.wanted
  swaps : ∀ l, x.pc = .swap l → l ∉ x.held
  holds : ∀ l, x.pc = .record l ∨ x.pc = .clear l ∨ x.pc = .unlock l → l ∈ x.held

/-- A lock names its CPU between `record` and `clear`. -/
structure Inv (s : State) : Prop where
  cpus : ∀ c, Local (s.cpu c)
  alone : ∀ l c d, l ∈ (s.cpu c).held → l ∈ (s.cpu d).held → c = d
  locked : ∀ l c, l ∈ (s.cpu c).held → (s.lock l).locked = true
  named : ∀ l c, (s.lock l).cpu = some c ↔
    l ∈ (s.cpu c).held ∧ (s.cpu c).pc ≠ .record l ∧ (s.cpu c).pc ≠ .unlock l

variable {s t : State} {c : Nat} {x : Cpu}

/-- The last `pop_off` gives the interrupts back as they were asked for. -/
lemma pop_off_eq (h : Local x) (hpc : x.pc = .pop) : pop_off x =
    .ok { x with noff := x.noff - 1, intr := if x.noff - 1 = 0 then x.wanted else false } := by
  have hpos : 0 < x.noff := by
    rw [h.count, hpc]
    exact Nat.succ_pos _
  obtain ⟨hoff, hintena⟩ := h.off hpos
  rw [pop_off, if_neg (by simp [hoff]), if_neg (by omega), hintena, hoff]
  by_cases h0 : x.noff - 1 = 0 <;> cases hw : x.wanted <;> simp [h0]

lemma local_put (h : ∀ d, Local (s.cpu d)) (hx : Local x) (d : Nat) : Local (put s.cpu c x d) := by
  by_cases hd : d = c <;> simp [hd, h, hx]

lemma Inv.step (h : Inv s) (he : step s c = .ok t) : Inv t := by
  obtain ⟨hcpus, halone, hlocked, hname⟩ := id h
  have hc := hcpus c
  cases hpc : (s.cpu c).pc <;> simp only [spin.step, hpc] at he
  case swap l =>
    have hnone : (s.lock l).locked ≠ true → ∀ d, l ∉ (s.cpu d).held := by grind
    split at he <;> cases he
    · exact h
    · constructor <;> simp only [State.set, State.setLock] <;> grind [put, Local, Pc.pending]
  case unlock l =>
    have hl := hc.holds l (by simp [hpc])
    have hmem : ∀ i, i ∈ (s.cpu c).held.erase l ↔ i ≠ l ∧ i ∈ (s.cpu c).held := fun i =>
      hc.nodup.mem_erase_iff
    have hlen := List.length_erase_of_mem hl
    have hpos := List.length_pos_of_mem hl
    have hnodup := hc.nodup.erase l
    cases he
    constructor <;> simp only [State.set, State.setLock] <;> grind [put, Local, Pc.pending]
  case locked l rel | cpu l rel =>
    by_cases hl : (s.lock l).locked = true <;> by_cases hn : (s.lock l).cpu = some c <;>
      cases rel <;> simp [hl, hn, check, bind, Except.bind] at he <;> subst he <;> constructor <;>
      simp only [State.set] <;> grind [put, Local, Pc.pending]
  case out => cases he
  all_goals
    try rw [pop_off_eq hc hpc] at he
    cases he
    constructor <;> simp only [State.set, State.setLock] <;> grind [put, Local, Pc.pending]

lemma Inv.exec {a : Act} (h : Inv s) (he : exec s a = .ok t) : Inv t := by
  cases a with
  | step c => exact h.step he
  | acquire c l | release c l | intr c on =>
    obtain ⟨hcpus, halone, hlocked, hname⟩ := h
    obtain ⟨hnodup, hcount, hoff, hon, -, -⟩ := hcpus c
    simp only [spin.exec] at he
    split at he <;> cases he
    refine ⟨local_put hcpus ?_, ?_, ?_, ?_⟩
    · constructor <;> grind [push_off, Pc.pending]
    all_goals
      simp only [State.set, push_off]
      grind [put]

/-! ## What the locks guarantee -/

/-- CPU `c` acquires a lock that it holds, or releases one that it does not hold. -/
def Misused (s : State) (c : Nat) : Prop :=
  ∃ l rel, ((s.cpu c).pc = .locked l rel ∨ (s.cpu c).pc = .cpu l rel) ∧
    (l ∈ (s.cpu c).held ↔ rel = false)

lemma misused_of_panic {text : String} (h : Inv s) (he : step s c = .error (.panic text)) :
    Misused s c := by
  obtain ⟨hcpus, -, hlocked, hname⟩ := h
  cases hpc : (s.cpu c).pc <;> simp only [spin.step, hpc] at he
  case pop =>
    rw [pop_off_eq (hcpus c) hpc] at he
    cases he
  case locked l rel | cpu l rel =>
    refine ⟨l, rel, by simp [hpc], ?_⟩
    by_cases hl : (s.lock l).locked = true <;> by_cases hn : (s.lock l).cpu = some c <;>
      cases rel <;> simp [hl, hn, check, bind, Except.bind] at he <;> grind
  all_goals grind

/-- One CPU at most is behind the atomic swap of a lock. Its interrupts are off there, and as they
were asked for when it has no lock. A CPU only panics over a lock that it misuses. -/
theorem spin_locks_exclude (h : Run exec (fun _ _ => True) start s) :
    (∀ l c d, l ∈ (s.cpu c).held → l ∈ (s.cpu d).held → c = d) ∧
    (∀ c, (s.cpu c).held ≠ [] → (s.cpu c).intr = false) ∧
    (∀ c, (s.cpu c).pc = .out → (s.cpu c).held = [] → (s.cpu c).intr = (s.cpu c).wanted) ∧
    ∀ c text, step s c = .error (.panic text) → Misused s c := by
  have hstart : Inv start := ⟨fun _ => by constructor <;> simp [start, Pc.pending],
    by simp [start], by simp [start], by simp [start]⟩
  have hinv : Inv s := h.invariant hstart fun _ _ _ hs _ he => hs.exec he
  refine ⟨hinv.alone, fun c hheld => ?_, fun c hpc hheld => ?_,
    fun _ _ => misused_of_panic hinv⟩
  · refine ((hinv.cpus c).off ?_).1
    rw [(hinv.cpus c).count]
    exact Nat.add_pos_left (List.length_pos_iff.mpr hheld) _
  · refine (hinv.cpus c).on ?_
    rw [(hinv.cpus c).count, hpc, hheld]
    rfl

/-- CPU 0 takes lock 3, and CPU 1 comes to it. -/
theorem second_cpu_does_not_take_the_lock : ∃ s, Run exec (fun _ _ => True) start s ∧
    3 ∈ (s.cpu 0).held ∧ 3 ∉ (s.cpu 1).held := by
  obtain ⟨s, hrun, htest⟩ := exists_played exec (fun _ _ => True) start
    [.acquire 0 3, .step 0, .step 0, .acquire 1 3, .step 1, .step 1, .step 1] (fun _ _ => true)
    (fun s => decide (3 ∈ (s.cpu 0).held)) (by simp) (by decide)
  have h0 := of_decide_eq_true htest
  exact ⟨s, hrun, h0, fun h1 => absurd ((spin_locks_exclude hrun).1 3 0 1 h0 h1) (by decide)⟩

end xv6.spin
