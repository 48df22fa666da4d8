-- The counter `running` and the threads that it is to count. `wait` does not count
-- the threads it reaps, and `mythread_join` counts every child that it reaps.
import Xv6.ProcRuns
import Xv6.TableSteps

open cells wp

namespace xv6.proc

open vm

variable {ld : Link} {s t : Sys} {me : Nat} {res : Int} {c : Call}

lemma dropThreads_same (is : List Nat) (s : Sys) : (dropThreads me is s).running = s.running ∧
    (dropThreads me is s).hist = s.hist := by
  induction is generalizing s with
  | nil => exact ⟨rfl, rfl⟩
  | cons i is ih => exact ih (dropThread me (s.threads i) s)

lemma Joined.same (h : Joined me s t) : t.running = s.running - 1 ∧ t.hist = s.hist := by
  unfold Joined at h
  split at h
  · obtain ⟨v, rfl⟩ := h
    exact dropThreads_same (List.range (s.currId - 1)) _
  · rw [h]
    exact ⟨rfl, rfl⟩

/-! ## The counter -/

/-- The pids of the threads that were created and not yet reaped. -/
def outstanding : List Event → List Int
  | [] => []
  | .create _ pid :: h => pid :: outstanding h
  | .reap pid :: h => (outstanding h).erase pid

/-- Each `mythread_join` is made when the first child that has exited is a thread that is not yet
reaped, and a `wait` when it is none. -/
def Counted (s : Sys) (me : Nat) : Call → Prop
  | .join => ∃ q ∈ firstZombie s me, (s.proc q).pid ∈ outstanding s.hist
  | .wait _ => ∀ q ∈ firstZombie s me, (s.proc q).pid ∉ outstanding s.hist
  | _ => True

instance : (c : Call) → Decidable (Counted s me c)
  | .join => inferInstanceAs
      (Decidable (∃ q ∈ firstZombie s me, (s.proc q).pid ∈ outstanding s.hist))
  | .wait _ => inferInstanceAs
      (Decidable (∀ q ∈ firstZombie s me, (s.proc q).pid ∉ outstanding s.hist))
  | .fork | .exec _ _ _ | .sbrk _ | .exit _ | .kill _ | .create _ _ => .isTrue trivial

/-- `wait` reaps the first child that has exited, if it writes no status. -/
lemma WaitedFor.hist_eq {q : Nat} (h : WaitedFor me 0 res s t) (hq : firstZombie s me = some q) :
    t.hist = .reap (s.proc q).pid :: s.hist := by
  rcases h with ⟨_, _, hnone⟩ | ⟨_, pp, _, _, hfirst, _, rfl⟩
  · have hz := List.find?_some hq
    have hmem := List.mem_range.mp (List.mem_of_find?_eq_some hq)
    rw [decide_eq_true_eq] at hz
    exact absurd hz.2 (hnone rfl q hmem hz.1)
  · rw [hfirst] at hq
    cases hq
    rfl

lemma WaitedFor.outstanding_eq {addr : Nat} (h : WaitedFor me addr res s t)
    (hq : ∀ q ∈ firstZombie s me, (s.proc q).pid ∉ outstanding s.hist) :
    outstanding t.hist = outstanding s.hist := by
  rcases h with ⟨_, ⟨_, rfl⟩, _⟩ | ⟨_, pp, _, _, hfirst, _, rfl⟩
  · rfl
  · exact List.erase_of_not_mem (hq pp hfirst)

lemma CallStep.counted (h : CallStep ld me res s t c) (hc : Counted s me c)
    (hs : s.running = (outstanding s.hist).length) :
    t.running = (outstanding t.hist).length := by
  by_cases hcreate : ∃ arg1 arg2, c = .create arg1 arg2
  · obtain ⟨_, _, rfl⟩ := hcreate
    rcases h with ⟨_, h, _⟩ | ⟨_, _, _, _, _, _, ⟨_, _, rfl⟩ | ⟨_, _, rfl⟩ | ⟨_, _, _, rfl⟩⟩
    · rw [h.same.1.running, h.same.2]
      exact hs
    · exact hs
    · exact hs
    · simp [outstanding, hs]
  by_cases hjoin : c = .join
  · subst hjoin
    obtain ⟨_, u, hw, hj⟩ := h
    obtain ⟨q, hq, hin⟩ := hc
    have hpos := List.length_pos_of_mem hin
    rw [hj.same.1, hj.same.2, (WaitedFor.same hw).1.running, hs, WaitedFor.hist_eq hw hq,
      outstanding, List.length_erase_of_mem hin]
    omega
  obtain ⟨hsame, hhist⟩ := h.same (fun a b hc => hcreate ⟨a, b, hc⟩) hjoin
  rw [hsame.running, hs]
  rcases hhist with hhist | ⟨addr, pid, rfl, _⟩
  · rw [hhist]
  · rw [WaitedFor.outstanding_eq h hc]

/-- In every run whose `mythread_join` calls reap threads and whose `wait` calls reap none, the
counter is the number of the threads that were created and not yet reaped. -/
theorem running_counts_the_threads (h : Run ld (fun s p c _ => Counted s p c) s) :
    s.running = (outstanding s.hist).length := by
  induction h with
  | boot _ hboot =>
    obtain ⟨_, _, _, _, rfl⟩ := boot_step.of_ok hboot
    rfl
  | call _ _ hst hcall hc ih =>
    exact ((call_step (by rw [hst]; decide)).of_ok hcall).counted hc ih
  | sched _ _ _ _ ih => exact ih
  | write _ _ _ hrun ih =>
    obtain ⟨_, rfl⟩ := wp_onVm_any.of_ok hrun
    exact ih

/-- Two threads, of which one exits and is joined, and a child that exits and is waited for. -/
def countedCalls : List (Nat × Call) :=
  [(0, .create 0 0), (0, .create 0 0), (0, .fork), (3, .exit 0), (0, .wait 0), (1, .exit 0),
    (0, .join)]

theorem running_counts_one_thread : ∃ s, Run smallLink (fun s p c _ => Counted s p c) s ∧
    s.joined = 1 ∧ s.running = 1 ∧ (outstanding s.hist).length = 1 := by
  obtain ⟨s, hs, ht⟩ := exists_playedIf (fun s p c _ => Counted s p c)
    (fun s p c _ => decide (Counted s p c)) countedCalls
    (fun s => decide (s.joined = 1 ∧ s.running = 1)) (fun _ _ _ _ h => of_decide_eq_true h)
    (by decide +kernel)
  obtain ⟨hjoined, hone⟩ := of_decide_eq_true ht
  have hlen := running_counts_the_threads hs
  exact ⟨s, hs, hjoined, hone, by omega⟩

/-- `mythread_join` reaps a child of `fork` and counts it. -/
theorem joined_child_makes_running_negative :
    ∃ s, Run smallLink (fun _ _ _ _ => True) s ∧ s.running = -1 ∧ outstanding s.hist = [] := by
  obtain ⟨s, hs, ht⟩ := exists_played (fun _ _ _ _ => True) [(0, .fork), (1, .exit 0), (0, .join)]
    (fun s => decide (s.running = -1 ∧ outstanding s.hist = [])) (by simp) (by decide +kernel)
  exact ⟨s, hs, of_decide_eq_true ht⟩

end xv6.proc
