-- Process identifiers: they are distinct and positive until the counter wraps,
-- and `kill` finds the process it names unless it names 0, the identifier of
-- every unused slot.
import Xv6.ProcRuns
import Xv6.TableSteps

open cells wp

namespace xv6.proc

open vm

variable {ld : Link} {me np p q : Nat} {s t u : Sys} {x y : Proc} {C : Sys → Nat → Call → Sys → Prop}

/-! ## What a call does to a slot -/

/-- The slot has the process that it had, which was not killed in between. -/
structure SameId (x y : Proc) : Prop where
  pid : y.pid = x.pid
  killed : y.killed = x.killed
  state : y.state = .UNUSED ↔ x.state = .UNUSED

/-- The slot is as `freeproc` leaves it. -/
structure Cleared (y : Proc) : Prop where
  state : y.state = .UNUSED
  pid : y.pid = 0
  killed : y.killed = false

def Shrunk (s t : Sys) : Prop := ∀ q, SameId (s.proc q) (t.proc q) ∨ Cleared (t.proc q)

/-- Slot `np` has a new process, with the next identifier. -/
structure Entered (s t : Sys) (np : Nat) : Prop where
  unused : s.unused = some np
  pid : (t.proc np).pid = s.nextpid
  killed : (t.proc np).killed = (s.proc np).killed
  state : (t.proc np).state = .RUNNABLE
  next : t.nextpid = int32 (s.nextpid + 1)
  others : ∀ q, q ≠ np → SameId (s.proc q) (t.proc q)

/-- What a call that is no `kill` does to the identifiers. -/
def Moved (s t : Sys) : Prop :=
  (Shrunk s t ∧ (t.nextpid = s.nextpid ∨ t.nextpid = int32 (s.nextpid + 1))) ∨
    ∃ np, Entered s t np

lemma SameId.refl (x : Proc) : SameId x x := ⟨rfl, rfl, Iff.rfl⟩

lemma cleared_freed (x : Proc) : Cleared x.freed := ⟨rfl, rfl, rfl⟩

lemma shrunk_refl (s : Sys) : Shrunk s s := fun _ => .inl (.refl _)

lemma SameId.trans {z : Proc} (h : SameId x y) (h' : SameId y z) : SameId x z :=
  ⟨h'.pid.trans h.pid, h'.killed.trans h.killed, h'.state.trans h.state⟩

lemma Shrunk.trans (h : Shrunk s t) (h' : Shrunk t u) : Shrunk s u := by
  intro q
  rcases h' q with h2 | h2
  · rcases h q with h1 | h1
    · exact .inl (h1.trans h2)
    · exact .inr ⟨h2.state.mpr h1.state, h2.pid.trans h1.pid, h2.killed.trans h1.killed⟩
  · exact .inr h2

lemma sameId_put {pr : Nat → Proc} (h : SameId (pr p) y) (q : Nat) :
    SameId (pr q) (put pr p y q) := by
  by_cases hq : q = p
  · subst hq
    rw [put_self]
    exact h
  · rw [put_of_ne hq]
    exact .refl _

lemma cleared_put {pr : Nat → Proc} (h : Cleared y) (q : Nat) :
    SameId (pr q) (put pr p y q) ∨ Cleared (put pr p y q) := by
  by_cases hq : q = p
  · subst hq
    rw [put_self]
    exact .inr h
  · rw [put_of_ne hq]
    exact .inl (.refl _)

/-! ## The calls -/

lemma NoneTaken.moved (h : NoneTaken s t) : Moved s t := by
  rcases h with rfl | ⟨v, p, _, _, rfl⟩
  · exact .inl ⟨shrunk_refl _, .inl rfl⟩
  · exact .inl ⟨cleared_put (cleared_freed _), .inr rfl⟩

lemma Forked.moved {res : Int} (h : Forked me res s t) : Moved s t := by
  rcases h with ⟨_, hno⟩ | ⟨np, tf, r, v, hun, _, rfl⟩
  · exact hno.moved
  · refine .inr ⟨np, hun, ?_, ?_, ?_, rfl, fun q hq => ?_⟩
    · simp [Proc.forked, Proc.taken]
    · simp [Proc.forked, Proc.taken]
    · simp [Proc.forked]
    · dsimp only
      rw [put_of_ne hq]
      exact .refl _

lemma WaitedFor.shrunk {addr : Nat} {res : Int} (h : WaitedFor me addr res s t) :
    Shrunk s t ∧ t.nextpid = s.nextpid := by
  rcases h with ⟨_, ⟨v, rfl⟩, _⟩ | ⟨v, pp, _, _, _, _, rfl⟩
  · exact ⟨shrunk_refl _, rfl⟩
  · exact ⟨cleared_put (cleared_freed _), rfl⟩

lemma exited_sameId {status : Int} (hme : (s.proc me).state ≠ .UNUSED) (q : Nat) :
    SameId (s.proc q) (exited s me status q) := by
  have hrep : ∀ q, SameId (s.proc q) (reparented s me q) := by
    intro q
    unfold reparented
    split
    · exact ⟨rfl, rfl, Iff.rfl⟩
    · exact .refl _
  unfold exited
  by_cases hq : q = me
  · subst hq
    rw [put_self]
    refine ⟨(hrep q).pid, (hrep q).killed, ?_⟩
    simp [hme]
  · rw [put_of_ne hq]
    exact hrep q

lemma marked_sameId (q : Nat) : SameId (s.proc q) ((marked s me).proc q) :=
  sameId_put (by exact ⟨rfl, rfl, Iff.rfl⟩) q

lemma enrolled_sameId {v : Vm} (hq : q ≠ np) :
    SameId (s.proc q) ((s.enrolled me np x v).proc q) := by
  unfold Sys.enrolled
  dsimp only
  rw [put_of_ne hq]
  exact sameId_put (by exact ⟨rfl, rfl, Iff.rfl⟩) q

lemma enrolled_shrunk {v : Vm} (h : Cleared x) : Shrunk s (s.enrolled me np x v) := by
  intro q
  by_cases hq : q = np
  · subst hq
    refine .inr ?_
    unfold Sys.enrolled
    dsimp only
    rw [put_self]
    exact h
  · exact .inl (enrolled_sameId hq)

lemma CreatedBy.moved {res : Int} (h : CreatedBy ld me res s t) : Moved s t := by
  rcases h with ⟨_, hno, _⟩ | ⟨np, tf, r, v, hun, _, h⟩
  · have hmark : Shrunk s (marked s me) := fun q => .inl (marked_sameId q)
    rcases hno with rfl | ⟨v, p, _, _, rfl⟩
    · exact .inl ⟨hmark, .inl rfl⟩
    · refine .inl ⟨hmark.trans ?_, .inr rfl⟩
      exact cleared_put (cleared_freed _)
  · rcases h with ⟨_, _, rfl⟩ | ⟨_, _, rfl⟩ | ⟨_, _, sz, rfl⟩
    · exact .inl ⟨enrolled_shrunk (cleared_freed _), .inr rfl⟩
    · exact .inl ⟨enrolled_shrunk (v := v) (cleared_freed _), .inr rfl⟩
    · refine .inr ⟨np, hun, ?_, ?_, ?_, rfl, fun q hq => enrolled_sameId (v := v) hq⟩
      · simp [Sys.enrolled, newThread, Proc.taken]
      · simp [Sys.enrolled, newThread, Proc.taken]
      · simp [Sys.enrolled]

lemma dropThreads_shrunk (is : List Nat) (s : Sys) : Shrunk s (dropThreads me is s) ∧
    (dropThreads me is s).nextpid = s.nextpid := by
  induction is generalizing s with
  | nil => exact ⟨shrunk_refl s, rfl⟩
  | cons i is ih =>
    obtain ⟨h, hn⟩ := ih (dropThread me (s.threads i) s)
    refine ⟨Shrunk.trans ?_ h, hn⟩
    exact cleared_put (cleared_freed _)

lemma Joined.shrunk (h : Joined me s t) : Shrunk s t ∧ t.nextpid = s.nextpid := by
  unfold Joined at h
  split at h
  · obtain ⟨v, rfl⟩ := h
    exact dropThreads_shrunk (List.range (s.currId - 1))
      { s with vm := v, running := s.running - 1, joined := s.joined + 1 }
  · rw [h]
    exact ⟨shrunk_refl s, rfl⟩

lemma CallStep.moved {res : Int} {c : Call} (h : CallStep ld me res s t c)
    (hme : (s.proc me).state ≠ .UNUSED) (hc : ∀ pid, c ≠ .kill pid) : Moved s t := by
  cases c with
  | fork => exact Forked.moved h
  | exec path file uargv =>
    rcases h with ⟨v, rfl⟩ | ⟨v, name, r, sz, rfl⟩
    · exact .inl ⟨shrunk_refl s, .inl rfl⟩
    · exact .inl ⟨fun q => .inl (sameId_put (by exact ⟨rfl, rfl, Iff.rfl⟩) q), .inl rfl⟩
  | sbrk n =>
    obtain ⟨v, sz, rfl⟩ := h
    exact .inl ⟨fun q => .inl (sameId_put (by exact ⟨rfl, rfl, Iff.rfl⟩) q), .inl rfl⟩
  | exit status =>
    obtain ⟨_, rfl⟩ := h
    exact .inl ⟨fun q => .inl (exited_sameId hme q), .inl rfl⟩
  | wait addr =>
    obtain ⟨h1, h2⟩ := WaitedFor.shrunk h
    exact .inl ⟨h1, .inl h2⟩
  | kill pid => exact absurd rfl (hc pid)
  | create arg1 arg2 => exact CreatedBy.moved h
  | join =>
    obtain ⟨r, v, hw, hj⟩ := h
    obtain ⟨h1, h2⟩ := hw.shrunk
    obtain ⟨h3, h4⟩ := hj.shrunk
    exact .inl ⟨h1.trans h3, .inl (h4.trans h2)⟩

/-! ## Identifiers are distinct and positive -/

/-- The processes have distinct positive identifiers, all below the next one as long as the
counter has not wrapped. -/
structure Ids (s : Sys) : Prop where
  pos : ∀ p, (s.proc p).state ≠ .UNUSED → 0 < (s.proc p).pid
  lt : 0 < s.nextpid → ∀ p, (s.proc p).state ≠ .UNUSED → (s.proc p).pid < s.nextpid
  int : s.nextpid ≤ 2147483647
  inj : ∀ p q, (s.proc p).state ≠ .UNUSED → (s.proc q).state ≠ .UNUSED →
    (s.proc p).pid = (s.proc q).pid → p = q

/-- The counter is as before, or it was positive and has gone one up, or past the largest `int`. -/
def Counter (s t : Sys) : Prop :=
  t.nextpid = s.nextpid ∨ (0 < s.nextpid ∧ t.nextpid = int32 (s.nextpid + 1))

lemma Counter.le (h : Counter s t) (hs : s.nextpid ≤ 2147483647) (ht : 0 < t.nextpid) :
    0 < s.nextpid ∧ s.nextpid ≤ t.nextpid := by
  rcases h with h | ⟨h0, h⟩
  · omega
  · unfold int32 at h
    omega

lemma Counter.int (h : Counter s t) (hs : s.nextpid ≤ 2147483647) : t.nextpid ≤ 2147483647 := by
  rcases h with h | ⟨_, h⟩
  · omega
  · unfold int32 at h
    omega

/-- A slot that is in use now was in use before, with the same identifier. -/
def Kept (s t : Sys) : Prop := ∀ p, (t.proc p).state ≠ .UNUSED →
  (s.proc p).state ≠ .UNUSED ∧ (t.proc p).pid = (s.proc p).pid

lemma Shrunk.kept (hs : Shrunk s t) : Kept s t := by
  intro p hp
  rcases hs p with h1 | h1
  · exact ⟨fun hc => hp (h1.state.mpr hc), h1.pid⟩
  · exact absurd h1.state hp

lemma Ids.kept (h : Ids s) (hold : Kept s t) (hn : Counter s t) : Ids t := by
  refine ⟨fun p hp => ?_, fun ht p hp => ?_, hn.int h.int, fun p q hp hq he => ?_⟩
  · obtain ⟨h1, h2⟩ := hold p hp
    rw [h2]
    exact h.pos p h1
  · obtain ⟨h1, h2⟩ := hold p hp
    obtain ⟨h3, h4⟩ := hn.le h.int ht
    rw [h2]
    exact lt_of_lt_of_le (h.lt h3 p h1) h4
  · obtain ⟨h1, h2⟩ := hold p hp
    obtain ⟨h3, h4⟩ := hold q hq
    exact h.inj p q h1 h3 (by rw [← h2, ← h4, he])

lemma Ids.entered (h : Ids s) (hpos : 0 < s.nextpid) (hs : Entered s t np) : Ids t := by
  have hcount : Counter s t := .inr ⟨hpos, hs.next⟩
  have hold : ∀ p, p ≠ np → (t.proc p).state ≠ .UNUSED →
      (s.proc p).state ≠ .UNUSED ∧ (t.proc p).pid = (s.proc p).pid := by
    intro p hp hst
    have h1 := hs.others p hp
    exact ⟨fun hc => hst (h1.state.mpr hc), h1.pid⟩
  -- the new identifier is above all others
  have hnew : ∀ p, p ≠ np → (t.proc p).state ≠ .UNUSED → (t.proc p).pid < (t.proc np).pid := by
    intro p hp hst
    obtain ⟨h1, h2⟩ := hold p hp hst
    rw [h2, hs.pid]
    exact h.lt hpos p h1
  refine ⟨fun p hp => ?_, fun ht p hp => ?_, hcount.int h.int, fun p q hp hq he => ?_⟩
  · by_cases hpn : p = np
    · rw [hpn, hs.pid]
      exact hpos
    · obtain ⟨h1, h2⟩ := hold p hpn hp
      rw [h2]
      exact h.pos p h1
  · have hnp : (t.proc np).pid < t.nextpid := by
      have h1 := hs.next
      have h2 := h.int
      rw [hs.pid]
      unfold int32 at h1
      omega
    by_cases hpn : p = np
    · rw [hpn]
      exact hnp
    · exact lt_trans (hnew p hpn hp) hnp
  · by_cases hpn : p = np
    · by_cases hqn : q = np
      · rw [hpn, hqn]
      · have := hnew q hqn hq
        rw [hpn] at he
        omega
    · by_cases hqn : q = np
      · have := hnew p hpn hp
        rw [hqn] at he
        omega
      · obtain ⟨h1, h2⟩ := hold p hpn hp
        obtain ⟨h3, h4⟩ := hold q hqn hq
        exact h.inj p q h1 h3 (by rw [← h2, ← h4, he])

lemma Killed.sameIds {pid res : Int} (h : Killed pid res s t) (q : Nat) :
    (t.proc q).pid = (s.proc q).pid ∧
      ((t.proc q).state = .UNUSED ↔ (s.proc q).state = .UNUSED) := by
  rcases h with ⟨_, rfl⟩ | ⟨_, p, _, _, rfl⟩
  · exact ⟨rfl, Iff.rfl⟩
  · by_cases hq : q = p
    · subst hq
      dsimp only
      rw [put_self]
      refine ⟨rfl, ?_⟩
      unfold Proc.kill
      split
      · rename_i hs
        simp [hs]
      · rfl
    · dsimp only
      rw [put_of_ne hq]
      exact ⟨rfl, Iff.rfl⟩

/-- The calls that make a process: the others leave the counter alone. -/
def Call.creates : Call → Bool
  | .fork => true
  | .create _ _ => true
  | _ => false

lemma CallStep.nextpid_eq {res : Int} {c : Call} (h : CallStep ld me res s t c)
    (hc : c.creates = false) : t.nextpid = s.nextpid := by
  cases c with
  | fork => cases hc
  | create arg1 arg2 => cases hc
  | exec path file uargv =>
    rcases h with ⟨v, rfl⟩ | ⟨v, name, r, sz, rfl⟩
    · rfl
    · rfl
  | sbrk n =>
    obtain ⟨v, sz, rfl⟩ := h
    rfl
  | exit status =>
    obtain ⟨_, rfl⟩ := h
    rfl
  | kill pid =>
    rcases h with ⟨_, rfl⟩ | ⟨_, p, _, _, rfl⟩
    · rfl
    · rfl
  | wait addr => exact (WaitedFor.shrunk h).2
  | join =>
    obtain ⟨r, v, hw, hj⟩ := h
    exact hj.shrunk.2.trans hw.shrunk.2

lemma Ids.call {res : Int} {c : Call} (h : Ids s) (hs : CallStep ld me res s t c)
    (hme : (s.proc me).state ≠ .UNUSED) (hc : c.creates = true → 0 < s.nextpid) : Ids t := by
  by_cases hk : ∃ pid, c = .kill pid
  · obtain ⟨pid, rfl⟩ := hk
    have hsame := Killed.sameIds hs
    refine h.kept (fun p hp => ⟨fun hc => hp ((hsame p).2.mpr hc), (hsame p).1⟩) (.inl ?_)
    exact hs.nextpid_eq rfl
  · rcases hs.moved hme fun pid hc => hk ⟨pid, hc⟩ with ⟨h1, h2⟩ | ⟨np, h1⟩
    · refine h.kept h1.kept ?_
      by_cases hcr : c.creates = true
      · exact h2.imp id fun hn => ⟨hc hcr, hn⟩
      · exact .inl (hs.nextpid_eq (by simpa using hcr))
    · by_cases hcr : c.creates = true
      · exact h.entered (hc hcr) h1
      · -- only a creating call takes an identifier
        have hsame := hs.nextpid_eq (by simpa using hcr)
        rw [h1.next] at hsame
        unfold int32 at hsame
        omega

lemma sched_sameId {st : procstate} (hp : Live (s.proc p).state) (hst : Live st) (q : Nat) :
    SameId (s.proc q) (put s.proc p { s.proc p with state := st } q) := by
  have h1 : (s.proc p).state ≠ .UNUSED := by
    rintro hc
    rw [hc] at hp
    simp [Live] at hp
  have h2 : st ≠ .UNUSED := by
    rintro rfl
    simp [Live] at hst
  apply sameId_put
  exact ⟨rfl, rfl, by simp [h1, h2]⟩

lemma Run.ids (h : Run ld (fun s _ c _ => c.creates = true → 0 < s.nextpid) s) : Ids s := by
  induction h with
  | boot _ hboot =>
    obtain ⟨v, k, tf, r, rfl⟩ := boot_step.of_ok hboot
    have hone : ∀ p, (put (fun _ => Proc.zero) 0 (firstProc 1 tf r) p).state ≠ .UNUSED → p = 0 := by
      intro p hp
      by_contra hne
      rw [put_of_ne hne] at hp
      exact hp rfl
    refine ⟨fun p hp => ?_, fun _ p hp => ?_, (by decide : (2 : Int) ≤ 2147483647),
      fun p q hp hq _ => ?_⟩
    · rw [hone p hp]
      simp [firstProc]
    · rw [hone p hp]
      simp [firstProc]
    · rw [hone p hp, hone q hq]
  | call _ _ hst hcall hn ih =>
    have hme : ∀ {st : procstate}, st = .RUNNING → st ≠ .UNUSED := by
      rintro st rfl
      decide
    exact ih.call ((call_step (hme hst)).of_ok hcall) (hme hst) hn
  | sched _ _ hp hst ih =>
    exact ih.kept (Shrunk.kept fun q => .inl (sched_sameId hp hst q)) (.inl rfl)
  | write _ _ _ hrun ih =>
    obtain ⟨v, rfl⟩ := wp_onVm_any.of_ok hrun
    exact ⟨ih.pos, ih.lt, ih.int, ih.inj⟩

/-- As long as `fork` and `mythread_create` are called only while `nextpid` is positive, so has not
gone past the largest `int`, no two processes have the same identifier, and all are positive. -/
theorem pids_are_distinct_and_positive
    (h : Run ld (fun s _ c _ => c.creates = true → 0 < s.nextpid) s) :
    (∀ p < NPROC, (s.proc p).state ≠ .UNUSED → 0 < (s.proc p).pid) ∧
      ∀ p < NPROC, ∀ q < NPROC, (s.proc p).state ≠ .UNUSED → (s.proc q).state ≠ .UNUSED →
        (s.proc p).pid = (s.proc q).pid → p = q := by
  have hI := h.ids
  exact ⟨fun p _ hp => hI.pos p hp, fun p _ q _ => hI.inj p q⟩

theorem pids_are_distinct_and_positive_fork : ∃ s,
    Run smallLink (fun s _ c _ => c.creates = true → 0 < s.nextpid) s ∧
      (s.proc 1).state = .RUNNABLE ∧ (s.proc 2).state = .RUNNABLE ∧ 0 < (s.proc 1).pid ∧
      (s.proc 1).pid ≠ (s.proc 2).pid := by
  obtain ⟨s, hs, ht⟩ := exists_playedIf (fun s _ c _ => c.creates = true → 0 < s.nextpid)
    (fun s _ c _ => decide (c.creates = true → 0 < s.nextpid))
    [(0, .fork), (1, .exit 0), (0, .wait 0), (0, .create 0 0), (0, .fork)]
    (fun s => decide ((s.proc 1).state = .RUNNABLE ∧ (s.proc 2).state = .RUNNABLE))
    (fun _ _ _ _ h => of_decide_eq_true h) (by decide +kernel)
  obtain ⟨h1, h2⟩ := of_decide_eq_true ht
  obtain ⟨hpos, hinj⟩ := pids_are_distinct_and_positive hs
  refine ⟨s, hs, h1, h2, hpos 1 (by decide) (by rw [h1]; decide), fun hc => ?_⟩
  have := hinj 1 (by decide) 2 (by decide) (by rw [h1]; decide) (by rw [h2]; decide) hc
  cases this

/-! ## The counter wraps -/

lemma wp_freeproc_empty {E : Stop → Prop} (hlk : s.lock (.proc p) = some me)
    (htf : (s.proc p).trapframe = 0) (hpt : (s.proc p).pagetable = 0) :
    Wp (freeproc ld me p) (fun _ t => t = { s with proc := put s.proc p (s.proc p).freed }) E s := by
  unfold freeproc
  rw [wp_modify_bind, if_pos hlk, wp_get_bind]
  dsimp only
  rw [if_neg (by simp [htf]), wp_pure_bind, if_neg (by simp [hpt]), wp_pure_bind, wp_modifyProc]

lemma wp_fork_starved (hl : s.vm.freelist = 0) (hfree : AllFree s) (hun : s.unused = some p)
    (hx : s.proc p = Proc.zero) :
    Wp (fork ld me) (fun res t => res = -1 ∧ t = { s with nextpid := int32 (s.nextpid + 1) })
      (fun _ => False) s := by
  have hstate : (s.proc p).state = .UNUSED := (unused_some hun).2
  refine Wp.bind (R := fun o t => o = none ∧ t = { s with nextpid := int32 (s.nextpid + 1) }) ?_ ?_
  · unfold allocproc
    refine (findUnused_step (by simp) _ fun (_ : True) q => hfree _).bind ?_
    rintro (_ | q) t h
    · exact absurd hstate (h.2 p (List.mem_range.mpr (unused_some hun).1))
    obtain ⟨hq, hlk, rfl⟩ := h
    obtain rfl : p = q := Option.some_inj.mp (hun.symm.trans hq)
    refine (allocpid_step (by simp) fun (_ : True) => ?_).bind ?_
    · unfold Sys.locked
      dsimp only
      rw [put_of_ne (by simp)]
      exact hfree _
    rintro _ _ ⟨rfl, rfl⟩
    rw [wp_modifyProc_bind]
    refine Wp.bind (R := fun tf t => tf = 0 ∧ t = { s.locked me (.proc p) with
      proc := put s.proc p { s.proc p with pid := s.nextpid, state := .USED }
      nextpid := int32 (s.nextpid + 1) }) ?_ ?_
    · rw [wp_onVm]
      unfold kalloc
      rw [wp_get_bind]
      rw [if_pos (by exact hl), wp_pure]
      exact ⟨rfl, rfl⟩
    rintro _ _ ⟨rfl, rfl⟩
    rw [wp_modifyProc_bind, if_pos rfl]
    dsimp only
    rw [put_put, put_self]
    refine (wp_freeproc_empty (by simp [Sys.locked]) (by simp) (by simp [hx, Proc.zero])).bind ?_
    rintro _ _ rfl
    refine wp_release_back hlk rfl rfl ?_
    rw [wp_pure]
    refine ⟨rfl, ?_⟩
    have hback : put s.proc p (s.proc p).freed = s.proc := put_eq_self (by rw [hx]; rfl)
    dsimp only
    rw [put_put, put_self]
    exact congrArg (fun pr => { s with proc := pr, nextpid := int32 (s.nextpid + 1) }) hback
  · rintro _ _ ⟨rfl, rfl⟩
    dsimp only
    rw [wp_pure]
    exact ⟨rfl, rfl⟩

lemma int32_int32_add (x : Int) : int32 (int32 x + 1) = int32 (x + 1) := by
  unfold int32
  omega

lemma Run.starved (h : Run ld C s) (hC : ∀ s t, C s me .fork t) (hfree : AllFree s)
    (hme : me < NPROC) (hst : (s.proc me).state = .RUNNING) (hl : s.vm.freelist = 0)
    (hun : s.unused = some p) (hx : s.proc p = Proc.zero) (hn : int32 s.nextpid = s.nextpid) (n : Nat) :
    Run ld C { s with nextpid := int32 (s.nextpid + n) } := by
  induction n with
  | zero =>
    simp only [Int.natCast_zero, Int.add_zero, hn]
    exact h
  | succ n ih =>
    have hf : Wp (fork ld me) _ _ _ :=
      wp_fork_starved (s := { s with nextpid := int32 (s.nextpid + n) }) hl hfree hun hx
    obtain ⟨_, _, hr, _, rfl⟩ := hf.exists_ok
    have hnext : int32 (int32 (s.nextpid + n) + 1) = int32 (s.nextpid + (n + 1 : Nat)) := by
      rw [int32_int32_add]
      push_cast
      rw [Int.add_assoc]
    rw [← hnext]
    exact .call (c := .fork) ih hme hst hr (hC _ _)

def ForkOrExit : Call → Prop
  | .fork | .exit _ | .wait _ => True
  | _ => False

/-- With 26 pages for the kernel the machine has no page left after one `fork`. The first process
goes on to fork until `nextpid` is the smallest `int`, takes back the pages of its child, and
forks once more. -/
theorem wrapped_pid_is_negative : ∃ s, Run smallLink (fun _ _ c _ => ForkOrExit c) s ∧
    (s.proc 1).state = .RUNNABLE ∧ (s.proc 1).pid = -2147483648 := by
  have hplay : (playFrom smallLink 26 [(0, .fork)]).any (fun s =>
      decide ((s.proc 0).state = .RUNNING ∧ s.vm.freelist = 0 ∧ s.unused = some 2 ∧
        s.proc 2 = Proc.zero ∧ s.nextpid = 3) &&
      (play smallLink [(1, .exit 0), (0, .wait 0), (0, .fork)]
        { s with nextpid := -2147483648 }).any fun t =>
          decide ((t.proc 1).state = .RUNNABLE ∧ (t.proc 1).pid = -2147483648)) = true := by
    decide +kernel
  obtain ⟨s, hs, htest⟩ := (Option.any_eq_true _ _).mp hplay
  rw [Bool.and_eq_true] at htest
  obtain ⟨hrun, hl, hun, hx, hn⟩ := of_decide_eq_true htest.1
  obtain ⟨t, ht, hpid⟩ := (Option.any_eq_true _ _).mp htest.2
  have h3 : Run smallLink (fun _ _ c _ => ForkOrExit c) s :=
    .playFrom (by decide) (by simp [ForkOrExit]) hs
  have hfree : AllFree s := h3.allFree fun _ _ c _ hc arg1 arg2 he => by
    rw [he] at hc
    exact hc
  have hwrap := h3.starved (fun _ _ => trivial) hfree (by decide) hrun hl hun hx
    (by rw [hn]; decide) 2147483645
  have hmin : int32 (s.nextpid + (2147483645 : Nat)) = -2147483648 := by
    rw [hn]
    decide
  rw [hmin] at hwrap
  exact ⟨t, hwrap.play (by simp [ForkOrExit]) ht, of_decide_eq_true hpid⟩

/-! ## `kill` -/

/-- The slots that are not in use have identifier 0 and are not killed. -/
def Blank (s : Sys) : Prop :=
  ∀ p, (s.proc p).state = .UNUSED → (s.proc p).pid = 0 ∧ (s.proc p).killed = false

lemma Blank.shrunk (h : Blank s) (hs : Shrunk s t) : Blank t := by
  intro p hp
  rcases hs p with h1 | h1
  · rw [h1.pid, h1.killed]
    exact h p (h1.state.mp hp)
  · exact ⟨h1.pid, h1.killed⟩

lemma Blank.moved (h : Blank s) (hs : Moved s t) : Blank t := by
  rcases hs with ⟨hs, _⟩ | ⟨np, hs⟩
  · exact h.shrunk hs
  · intro p hp
    by_cases hpn : p = np
    · rw [hpn, hs.state] at hp
      cases hp
    · have h1 := hs.others p hpn
      rw [h1.pid, h1.killed]
      exact h p (h1.state.mp hp)

lemma Blank.killed {pid res : Int} (h : Blank s) (hs : Killed pid res s t) (hpid : pid ≠ 0) :
    Blank t := by
  have hsame := hs.sameIds
  rcases hs with ⟨_, rfl⟩ | ⟨_, p, _, hp, rfl⟩
  · exact h
  · intro q hq
    have hun := (hsame q).2.mp hq
    by_cases hqp : q = p
    · subst hqp
      exact absurd (hp.symm.trans (h q hun).1) hpid
    · dsimp only
      rw [put_of_ne hqp]
      exact h q hun

lemma Run.blank (h : Run ld (fun _ _ c _ => c ≠ .kill 0) s) : Blank s := by
  induction h with
  | boot _ hboot =>
    obtain ⟨v, k, tf, r, rfl⟩ := boot_step.of_ok hboot
    intro p hp
    by_cases hp0 : p = 0
    · subst hp0
      simp [firstProc] at hp
    · dsimp only
      rw [put_of_ne hp0]
      exact ⟨rfl, rfl⟩
  | @call s t p c r _ _ hst hcall hc ih =>
    have hme : (s.proc p).state ≠ .UNUSED := by
      rw [hst]
      decide
    have hstep := (call_step hme).of_ok hcall
    by_cases hk : ∃ pid, c = .kill pid
    · obtain ⟨pid, rfl⟩ := hk
      exact ih.killed hstep fun hz => hc (by rw [hz])
    · exact ih.moved (hstep.moved hme fun pid he => hk ⟨pid, he⟩)
  | sched _ _ hp hst ih => exact ih.shrunk fun q => .inl (sched_sameId hp hst q)
  | write _ _ _ hrun ih =>
    obtain ⟨v, rfl⟩ := wp_onVm_any.of_ok hrun
    exact ih

/-- As long as nobody calls `kill(0)`: `kill` returns 0 only for a process that is there and
changes no other slot, and a child starts without being killed. -/
theorem kill_reaches_only_its_process (h : Run ld (fun _ _ c _ => c ≠ .kill 0) s)
    (hst : (s.proc me).state = .RUNNING) :
    (∀ pid r t, pid ≠ 0 → (call ld me (.kill pid)).run s = .ok (r, t) →
      (r = -1 ∧ t = s) ∨
        (r = 0 ∧ ∃ p < NPROC, (s.proc p).state ≠ .UNUSED ∧ (s.proc p).pid = pid ∧
          ∀ q, q ≠ p → t.proc q = s.proc q)) ∧
      ∀ r t, (call ld me .fork).run s = .ok (r, t) → ∀ p, (s.proc p).state = .UNUSED →
        (t.proc p).state = .RUNNABLE → (t.proc p).killed = false := by
  have hb := h.blank
  have hused : (s.proc me).state ≠ .UNUSED := by
    rw [hst]
    decide
  refine ⟨fun pid r t hpid hr => ?_, fun r t hr p hp hrun => ?_⟩
  · rcases (call_step hused).of_ok hr with ⟨h1, h2⟩ | ⟨h1, p, hp, he, rfl⟩
    · exact .inl ⟨h1, h2⟩
    · refine .inr ⟨h1, p, hp, fun hun => hpid (he.symm.trans (hb p hun).1), he, fun q hq => ?_⟩
      dsimp only
      rw [put_of_ne hq]
  · rcases ((call_step hused).of_ok hr).moved hused (by simp) with ⟨hs, _⟩ | ⟨np, hs⟩
    · rcases hs p with h1 | h1
      · rw [h1.killed, (hb p hp).2]
      · exact h1.killed
    · by_cases hpn : p = np
      · rw [hpn, hs.killed, ← hpn, (hb p hp).2]
      · rw [(hs.others p hpn).killed, (hb p hp).2]

theorem kill_reaches_only_its_process_child : ∃ s t,
    Run smallLink (fun _ _ c _ => c ≠ .kill 0) s ∧
      (call smallLink 0 (.kill 2)).run s = .ok (0, t) ∧
      ∃ p < NPROC, (s.proc p).state ≠ .UNUSED ∧ (s.proc p).pid = 2 ∧
        ∀ q, q ≠ p → t.proc q = s.proc q := by
  obtain ⟨s, hs, ht⟩ := exists_played (fun _ _ c _ => c ≠ .kill 0) [(0, .fork)]
    (fun s => decide ((s.proc 0).state = .RUNNING) &&
      (after smallLink 0 (.kill 2) s).any fun x : Int × Sys => decide (x.1 = 0)) (by simp) (by decide +kernel)
  rw [Bool.and_eq_true] at ht
  obtain ⟨⟨r, t⟩, hr, hzero⟩ := (Option.any_eq_true _ _).mp ht.2
  obtain rfl : r = 0 := of_decide_eq_true hzero
  have hk := (kill_reaches_only_its_process hs (of_decide_eq_true ht.1)).1 2 0 t (by decide)
    (run_of_after hr)
  refine ⟨s, t, hs, run_of_after hr, ?_⟩
  rcases hk with ⟨hc, _⟩ | ⟨_, hp⟩
  · cases hc
  · exact hp

/-- `kill(0)` finds an unused slot, and the next child is killed before it has run. -/
theorem kill_of_zero_marks_the_next_child : ∃ s t u, Run smallLink (fun _ _ c _ => ForkOrExit c) s ∧
    (s.proc 0).state = .RUNNING ∧
    (∀ p < NPROC, (s.proc p).state ≠ .UNUSED → (s.proc p).pid ≠ 0) ∧
    (call smallLink 0 (.kill 0)).run s = .ok (0, t) ∧
    (call smallLink 0 .fork).run t = .ok (3, u) ∧
    (u.proc 2).state = .RUNNABLE ∧ (u.proc 2).pid = 3 ∧ (u.proc 2).killed = true := by
  obtain ⟨s, hs, htest⟩ := exists_played (fun _ _ c _ => ForkOrExit c) [(0, .fork)]
    (fun s => decide ((s.proc 0).state = .RUNNING ∧
        ∀ p < NPROC, (s.proc p).state ≠ .UNUSED → (s.proc p).pid ≠ 0) &&
      (after smallLink 0 (.kill 0) s).any fun x : Int × Sys => decide (x.1 = 0) &&
        (after smallLink 0 .fork x.2).any fun y : Int × Sys => decide (y.1 = 3 ∧
          (y.2.proc 2).state = .RUNNABLE ∧ (y.2.proc 2).pid = 3 ∧ (y.2.proc 2).killed = true))
    (by simp [ForkOrExit]) (by decide +kernel)
  rw [Bool.and_eq_true] at htest
  obtain ⟨hst, hids⟩ := of_decide_eq_true htest.1
  obtain ⟨⟨r, t⟩, hr, h1⟩ := (Option.any_eq_true _ _).mp htest.2
  rw [Bool.and_eq_true] at h1
  obtain rfl : r = 0 := of_decide_eq_true h1.1
  obtain ⟨⟨r', u⟩, hr', h2⟩ := (Option.any_eq_true _ _).mp h1.2
  obtain ⟨h3, h4⟩ := of_decide_eq_true h2
  obtain rfl : r' = 3 := h3
  exact ⟨s, t, u, hs, hst, hids, run_of_after hr, run_of_after hr', h4⟩

end xv6.proc
