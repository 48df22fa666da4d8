-- What the hardware finds when it walks a page table.
import Xv6.Tables

open cells linked wp

namespace xv6.vm

variable {ld : Link} {use : Nat → Use} {l : List Nat} {v : Vm} {mem : Nat → Nat → Nat}
  {r x i j n : Nat} {T : Tab}

/-! ## The walk -/

/-- The table that entry `i` of a table names, or 0. -/
def lower (mem : Nat → Nat → Nat) (x i : Nat) : Nat :=
  if i < NPTE ∧ mem x i &&& PTE_V ≠ 0 then PTE2PA (mem x i) else 0

/-- The page at a place of the page table with root `r`, or 0. -/
def pageAt (mem : Nat → Nat → Nat) (r : Nat) : Place → Nat
  | .root => r
  | .mid i => lower mem r i
  | .low i j => if lower mem r i = 0 then 0 else lower mem (lower mem r i) j

/-- The entry of page number `n`, or 0. -/
def entry (mem : Nat → Nat → Nat) (r n : Nat) : Nat :=
  if pageAt mem r (.low (n / 2 ^ 18) (n / 2 ^ 9 % 512)) = 0 then 0
  else mem (pageAt mem r (.low (n / 2 ^ 18) (n / 2 ^ 9 % 512))) (n % 512)

lemma lower_dir (hi : i < NPTE) (hx : mem x i = dir n) (hn : n % PGSIZE = 0) :
    lower mem x i = n := by
  unfold lower
  rw [hx]
  by_cases h0 : n = 0
  · rw [h0, dir_zero, if_neg (by simp)]
  · obtain ⟨h1, _, h3⟩ := dir_valid h0 hn
    rw [if_pos ⟨hi, h1⟩, h3]

lemma lower_none (hi : ¬ i < NPTE) : lower mem x i = 0 := if_neg fun hc => hi hc.1

lemma Table.pageAt_eq (ht : Table use mem r T) (h : Heap ld use l v) (pl : Place) :
    pageAt mem r pl = T.at r pl := by
  have hal : ∀ pl, T.at r pl % PGSIZE = 0 := by
    intro pl
    by_cases h0 : T.at r pl = 0
    · rw [h0]
      rfl
    · exact (h.page _ (by rw [ht.use_at pl h0]; simp)).1
  have hmid : ∀ i, lower mem r i = T.mid i := by
    intro i
    by_cases hi : i < NPTE
    · exact lower_dir hi (ht.words .root ht.root_ne i hi) (hal (.mid i))
    · rw [lower_none hi]
      by_contra hc
      exact hi (ht.mid_lt i (Ne.symm hc))
  cases pl with
  | root => rfl
  | mid i => exact hmid i
  | low i j =>
    show (if lower mem r i = 0 then 0 else lower mem (lower mem r i) j) = T.low i j
    rw [hmid i]
    by_cases h0 : T.mid i = 0
    · rw [if_pos h0]
      by_contra hc
      exact (ht.low_mid i j (Ne.symm hc)).1 h0
    · rw [if_neg h0]
      by_cases hj : j < NPTE
      · exact lower_dir hj (ht.words (.mid i) h0 j hj) (hal (.low i j))
      · rw [lower_none hj]
        by_contra hc
        exact hj (ht.low_mid i j (Ne.symm hc)).2

lemma Table.entry_eq (ht : Table use mem r T) (h : Heap ld use l v) (n : Nat) :
    entry mem r n = T.pte n := by
  unfold entry
  rw [ht.pageAt_eq h]
  show (if T.low (n / 2 ^ 18) (n / 2 ^ 9 % 512) = 0 then 0
    else mem (T.low (n / 2 ^ 18) (n / 2 ^ 9 % 512)) (n % 512)) = T.pte n
  by_cases h0 : T.low (n / 2 ^ 18) (n / 2 ^ 9 % 512) = 0
  · rw [if_pos h0]
    by_contra hc
    exact (ht.pte_low n (Ne.symm hc)).2 h0
  · rw [if_neg h0]
    have hw := ht.words (.low (n / 2 ^ 18) (n / 2 ^ 9 % 512)) h0 (n % 512) (Nat.mod_lt _ (by decide))
    refine hw.trans (congrArg T.pte ?_)
    omega

end xv6.vm
