-- Circular singly linked lists, as pointers make them: from the head the nodes
-- follow each other and the last one points to the head again. A loop along the
-- pointers that starts at any node comes by every node.
import Mathlib.Data.List.Chain
import Mathlib.Dynamics.PeriodicPts.Defs
import Mathlib.Tactic.Common

open List

namespace cyclic

variable {α : Type} {next : α → α} {h x y : α} {l : List α}

/-- From the head `h` the nodes are those of `l`, in this order, and then the head again. -/
def Cyclic (next : α → α) (h : α) (l : List α) : Prop :=
  (h :: (l ++ [h])).IsChain fun a b => next a = b

lemma iterate_of_isChain {i : Nat} (hc : (x :: l).IsChain fun a b => next a = b)
    (hi : (x :: l)[i]? = some y) : next^[i] x = y := by
  induction l generalizing x i with
  | nil =>
    cases i with
    | zero => simpa using hi
    | succ i => simp at hi
  | cons z l ih =>
    rw [isChain_cons_cons] at hc
    cases i with
    | zero => simpa using hi
    | succ i =>
      rw [Function.iterate_succ_apply, hc.1]
      exact ih hc.2 (by simpa using hi)

section

variable (hc : Cyclic next h l)
include hc

lemma Cyclic.period : Function.IsPeriodicPt next (l.length + 1) h := by
  apply iterate_of_isChain hc
  simp

lemma Cyclic.exists_iterate (hx : x ∈ h :: l) :
    ∃ i ≤ l.length, next^[i] h = x := by
  obtain ⟨i, hi⟩ := mem_iff_getElem?.mp hx
  have hlt : i < (h :: l).length := (List.getElem?_eq_some_iff.mp hi).1
  refine ⟨i, Nat.le_of_lt_succ hlt, iterate_of_isChain hc ?_⟩
  rw [← cons_append, getElem?_append_left hlt]
  exact hi

lemma Cyclic.next_mem (hx : x ∈ h :: l) : next x ∈ h :: l := by
  obtain ⟨i, hi, rfl⟩ := hc.exists_iterate hx
  rw [← Function.iterate_succ_apply' next i h]
  have hlt : i < (l ++ [h]).length := by
    rw [length_append, length_singleton]
    omega
  have hstep : next^[i + 1] h = (l ++ [h])[i] := by
    apply iterate_of_isChain hc
    simp
  rw [hstep, ← singleton_append, mem_append, or_comm, ← mem_append]
  exact getElem_mem hlt

lemma Cyclic.iterate_mem (hx : x ∈ h :: l) (k : Nat) :
    next^[k] x ∈ h :: l := by
  induction k with
  | zero => exact hx
  | succ k ih =>
    rw [Function.iterate_succ_apply']
    exact hc.next_mem ih

lemma Cyclic.period_of_mem (hx : x ∈ h :: l) :
    Function.IsPeriodicPt next (l.length + 1) x := by
  obtain ⟨i, _, rfl⟩ := hc.exists_iterate hx
  exact hc.period.apply_iterate i

lemma Cyclic.reach (hx : x ∈ h :: l) (hy : y ∈ h :: l) :
    ∃ k ≤ l.length, next^[k] x = y := by
  obtain ⟨i, hi, rfl⟩ := hc.exists_iterate hx
  obtain ⟨j, hj, rfl⟩ := hc.exists_iterate hy
  have hper := hc.period_of_mem hx
  refine ⟨(l.length + 1 - i + j) % (l.length + 1), ?_, ?_⟩
  · have := Nat.mod_lt (l.length + 1 - i + j) (Nat.add_one_pos l.length)
    omega
  · rw [hper.iterate_mod_apply, ← Function.iterate_add_apply]
    have : l.length + 1 - i + j + i = j + (l.length + 1) := by omega
    rw [this, Function.iterate_add_apply, hc.period.eq]

end

end cyclic
