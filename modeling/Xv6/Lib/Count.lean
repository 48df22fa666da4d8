-- How often a value stands in a finite table, and how a change of one place
-- changes that number.
import Mathlib.Algebra.BigOperators.Group.Finset.Basic
import Mathlib.Algebra.BigOperators.Group.Finset.Piecewise
import Mathlib.Algebra.BigOperators.Group.Finset.Sigma

open Function

namespace count

variable {ι β : Type*} [DecidableEq β]

def occ (S : Finset ι) (f : ι → β) (b : β) : Nat := (S.filter fun i => f i = b).card

variable {S : Finset ι} {f : ι → β}

lemma occ_congr {f g : ι → β} (h : ∀ i ∈ S, f i = g i) (b : β) :
    occ S f b = occ S g b := by
  unfold occ
  congr 1
  apply Finset.filter_congr
  intro i hi
  rw [h i hi]

lemma occ_update [DecidableEq ι] {i : ι} (hi : i ∈ S) (v b : β) :
    occ S (update f i v) b + (if f i = b then 1 else 0) =
      occ S f b + (if v = b then 1 else 0) := by
  have key : ∀ g : ι → β, occ S g b =
      occ (S.erase i) g b + (if g i = b then 1 else 0) := by
    intro g
    unfold occ
    rw [← Finset.insert_erase hi, Finset.filter_insert]
    split
    · rw [Finset.card_insert_of_notMem (by simp), Finset.erase_insert (by simp)]
    · simp
  rw [key f, key (update f i v), update_self,
    occ_congr (g := f) (fun j hj => update_of_ne (Finset.ne_of_mem_erase hj) _ _)]
  omega

lemma occ_pos {b : β} : 0 < occ S f b ↔ ∃ i ∈ S, f i = b := by
  unfold occ
  rw [Finset.card_pos]
  constructor
  · rintro ⟨i, hi⟩
    exact ⟨i, Finset.mem_filter.mp hi⟩
  · rintro ⟨i, hi, hb⟩
    exact ⟨i, Finset.mem_filter.mpr ⟨hi, hb⟩⟩

lemma occ_eq_zero {b : β} : occ S f b = 0 ↔ ∀ i ∈ S, f i ≠ b := by
  rw [← Nat.le_zero, ← not_lt, occ_pos]
  simp

lemma occ_eq_sum (S : Finset ι) (f : ι → β) (b : β) :
    occ S f b = ∑ i ∈ S, if f i = b then 1 else 0 :=
  Finset.card_filter _ _

lemma occ_row {κ : Type*} [DecidableEq κ] {A : Finset κ} {B : Finset ι} {f g : κ × ι → β}
    {a : κ} (ha : a ∈ A) (h : ∀ x, x.1 ≠ a → g x = f x) (b : β) :
    occ (A ×ˢ B) g b + occ B (fun j => f (a, j)) b =
      occ (A ×ˢ B) f b + occ B (fun j => g (a, j)) b := by
  have key : ∀ e : κ × ι → β, occ (A ×ˢ B) e b =
      occ B (fun j => e (a, j)) b + ∑ x ∈ A.erase a, occ B (fun j => e (x, j)) b := by
    intro e
    simp only [occ_eq_sum]
    rw [Finset.sum_product, ← Finset.add_sum_erase _ _ ha]
  have hrest : ∑ x ∈ A.erase a, occ B (fun j => g (x, j)) b =
      ∑ x ∈ A.erase a, occ B (fun j => f (x, j)) b := by
    apply Finset.sum_congr rfl
    intro x hx
    exact occ_congr (fun j _ => h (x, j) (Finset.ne_of_mem_erase hx)) b
  rw [key g, key f, hrest]
  omega

lemma occ_range (n : Nat) (f : Nat → β) (b : β) :
    occ (Finset.range n) f b = ((List.range n).filter fun i => f i = b).length := rfl

end count
