-- The pointers that the processes of a table hold, each in a list of its own,
-- and how many of them there are to one thing.
import Mathlib.Algebra.Order.BigOperators.Group.Finset
import Mathlib.Data.List.Count

open Function List

namespace pointers

variable {α : Type} [DecidableEq α] {n p q : Nat} {f g : Nat → List α} {k : α}

def total (n : Nat) (f : Nat → List α) (k : α) : Nat := ∑ p ∈ Finset.range n, (f p).count k

lemma total_congr (h : ∀ p, f p = g p) (k : α) : total n f k = total n g k := by
  unfold total
  simp only [h]

lemma total_change (hp : p < n) (h : ∀ q, q ≠ p → g q = f q) (k : α) :
    total n g k + (f p).count k = total n f k + (g p).count k := by
  have hmem : p ∈ Finset.range n := Finset.mem_range.mpr hp
  have hrest : ∑ q ∈ (Finset.range n).erase p, (g q).count k =
      ∑ q ∈ (Finset.range n).erase p, (f q).count k := by
    apply Finset.sum_congr rfl
    intro q hq
    rw [h q (Finset.ne_of_mem_erase hq)]
  unfold total
  rw [← Finset.add_sum_erase _ _ hmem, ← Finset.add_sum_erase _ (fun p => (f p).count k) hmem, hrest]
  omega

lemma total_pos (hp : p < n) (hk : k ∈ f p) : 0 < total n f k :=
  Finset.sum_pos' (fun _ _ => Nat.zero_le _)
    ⟨p, Finset.mem_range.mpr hp, count_pos_iff.mpr hk⟩

lemma exists_pointer (h : 0 < total n f k) : ∃ p, k ∈ f p := by
  obtain ⟨p, -, hp⟩ := Finset.exists_ne_zero_of_sum_ne_zero (Nat.pos_iff_ne_zero.mp h)
  exact ⟨p, count_pos_iff.mp (Nat.pos_iff_ne_zero.mpr hp)⟩

lemma total_two (hp : p < n) (hq : q < n) (hpq : p ≠ q) (hk : k ∈ f p) (hk' : k ∈ f q) :
    2 ≤ total n f k := by
  have h1 := total_change hp (g := update f p [])
    (fun r hr => update_of_ne hr _ _) k
  have h2 : 0 < total n (update f p []) k :=
    total_pos hq (by rwa [update_of_ne (Ne.symm hpq)])
  have h3 := count_pos_iff.mpr hk
  rw [update_self, count_nil] at h1
  omega

lemma total_cons (hp : p < n) (hg : g p = k :: f p) (h : ∀ q, q ≠ p → g q = f q) (j : α) :
    total n g j = total n f j + if j = k then 1 else 0 := by
  have hc := total_change hp h j
  rw [hg, count_cons] at hc
  grind

lemma total_erase (hp : p < n) (hk : k ∈ f p) (hg : g p = (f p).erase k)
    (h : ∀ q, q ≠ p → g q = f q) (j : α) : total n g j = total n f j - if j = k then 1 else 0 := by
  have hc := total_change hp h j
  have hpos := count_pos_iff.mpr hk
  rw [hg, count_erase] at hc
  grind

lemma count_le_total (hp : p < n) (f : Nat → List α) (k : α) : (f p).count k ≤ total n f k := by
  have h := total_change hp (f := f) (g := update f p [])
    (fun r hr => update_of_ne hr _ _) k
  rw [update_self, count_nil] at h
  omega

end pointers
