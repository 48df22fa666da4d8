-- Lists that run through memory: each node holds the next one, and 0 ends the
-- list. What such a list needs of the memory is what its nodes hold.
import Mathlib.Data.List.Basic
import Mathlib.Tactic.Common

namespace linked

variable {next next' : Nat → Nat} {h x : Nat} {l l' : List Nat}

/-- From `h` the nodes are those of `l`, in this order. -/
def Chain (next : Nat → Nat) : Nat → List Nat → Prop
  | h, [] => h = 0
  | h, x :: l => h = x ∧ x ≠ 0 ∧ Chain next (next x) l

instance decidableChain (next : Nat → Nat) : ∀ h l, Decidable (Chain next h l)
  | h, [] => inferInstanceAs (Decidable (h = 0))
  | h, x :: l =>
    have := decidableChain next (next x) l
    inferInstanceAs (Decidable (h = x ∧ x ≠ 0 ∧ Chain next (next x) l))

lemma Chain.congr (hc : Chain next h l) (heq : ∀ x ∈ l, next' x = next x) : Chain next' h l := by
  induction l generalizing h with
  | nil => exact hc
  | cons x l ih =>
    obtain ⟨h1, h2, h3⟩ := hc
    refine ⟨h1, h2, ?_⟩
    rw [heq x List.mem_cons_self]
    exact ih h3 fun y hy => heq y (List.mem_cons_of_mem x hy)

lemma Chain.head_ne (hc : Chain next h l) (h0 : h ≠ 0) : ∃ l', l = h :: l' := by
  cases l with
  | nil => exact absurd hc h0
  | cons x l => exact ⟨l, by rw [hc.1]⟩

lemma Chain.nil_of_zero (hc : Chain next 0 l) : l = [] := by
  cases l with
  | nil => rfl
  | cons x l => exact absurd hc.1.symm hc.2.1

lemma Chain.unique {l' : List Nat} (hc : Chain next h l) (hc' : Chain next h l') : l = l' := by
  induction l generalizing h l' with
  | nil =>
    rw [show h = 0 from hc] at hc'
    exact hc'.nil_of_zero.symm
  | cons x l ih =>
    obtain ⟨hx, h0, hrest⟩ := hc
    rw [hx] at hc'
    obtain ⟨l', rfl⟩ := hc'.head_ne h0
    rw [ih hrest hc'.2.2]

end linked
