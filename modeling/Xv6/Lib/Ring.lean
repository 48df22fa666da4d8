-- Rings between two free-running counters of a fixed width. The counters only
-- ever count up and wrap around; a cell of the ring is found by the remainder
-- of a counter, so the number of cells has to divide the range of the counters.
import Mathlib.Data.BitVec
import Mathlib.Tactic.Ring
import Xv6.Lib.Cells

open cells

namespace ring

variable {α : Type} {w N n k : Nat} {d : Nat → α} {l mid u : BitVec w} {a : α}

/-! ## Counters -/

def span (l u : BitVec w) : Nat := (u - l).toNat

@[simp] lemma span_self (l : BitVec w) : span l l = 0 := by
  simp [span]

lemma span_eq_zero : span l u = 0 ↔ l = u := by
  constructor
  · intro h
    have hz : u - l = 0 := BitVec.eq_of_toNat_eq (by simpa [span] using h)
    exact (sub_eq_zero.mp hz).symm
  · intro h
    simp [h]

lemma span_pos : 0 < span l u ↔ l ≠ u := by
  rw [Nat.pos_iff_ne_zero, ne_eq, span_eq_zero]

lemma span_lt : span l u < 2 ^ w := BitVec.isLt _

lemma span_succ (h : span l u + 1 < 2 ^ w) : span l (u + 1) = span l u + 1 := by
  unfold span at *
  have hw : (1 : BitVec w).toNat = 1 := by simpa using Nat.mod_eq_of_lt (by omega : 1 < 2 ^ w)
  rw [show u + 1 - l = u - l + 1 by ring, BitVec.toNat_add, hw, Nat.mod_eq_of_lt h]

lemma add_span (l u : BitVec w) : l + BitVec.ofNat w (span l u) = u := by
  unfold span
  rw [BitVec.ofNat_toNat, BitVec.setWidth_eq]
  ring

lemma span_tail (h : l ≠ u) : span (l + 1) u + 1 = span l u := by
  have hlt : span (l + 1) u + 1 < 2 ^ w ∨ span (l + 1) u + 1 = 2 ^ w := by
    have := span_lt (l := l + 1) (u := u)
    omega
  rcases hlt with hlt | heq
  · have hs := span_succ (l := l + 1) (u := u) hlt
    rw [← hs]
    unfold span
    congr 1
    ring
  · -- the counter `l + 1` would be one ahead of `u`
    exfalso
    apply h
    have hadd := add_span (l + 1) u
    have hpred : BitVec.ofNat w (span (l + 1) u) = -1 := by
      apply eq_neg_of_add_eq_zero_left
      apply BitVec.eq_of_toNat_eq
      have : BitVec.ofNat w (span (l + 1) u) + 1 = BitVec.ofNat w (span (l + 1) u + 1) := by
        rw [BitVec.ofNat_add]
        rfl
      rw [this, heq, BitVec.toNat_ofNat, Nat.mod_self]
      rfl
    rw [hpred] at hadd
    rw [← hadd]
    ring

lemma span_init (h : l ≠ u) : span l (u - 1) + 1 = span l u := by
  rw [← span_tail h]
  unfold span
  congr 2
  ring

lemma span_split (h : span l mid ≤ span l u) : span l mid + span mid u = span l u := by
  have hd : u - mid = BitVec.ofNat w (span l u - span l mid) := by
    have h1 := add_span l u
    have h2 := add_span l mid
    rw [show span l u = span l mid + (span l u - span l mid) by omega, BitVec.ofNat_add,
      ← add_assoc, h2] at h1
    rw [← eq_sub_of_add_eq' h1]
  have hlt := span_lt (l := l) (u := u)
  unfold span at *
  rw [hd, BitVec.toNat_ofNat, Nat.mod_eq_of_lt (by omega)]
  omega

/-! ## The cells between two counters -/

/-- The `n` cells from the counter `l` on. -/
def window (N : Nat) (d : Nat → α) (l : BitVec w) : Nat → List α
  | 0 => []
  | n + 1 => d (l.toNat % N) :: window N d (l + 1) n

def contents (N : Nat) (d : Nat → α) (l u : BitVec w) : List α :=
  window N d l (span l u)

@[simp] lemma length_window : (window N d l n).length = n := by
  induction n generalizing l with
  | zero => rfl
  | succ n ih => simp [window, ih]

@[simp] lemma length_contents : (contents N d l u).length = span l u := length_window

@[simp] lemma contents_self (l : BitVec w) : contents N d l l = [] := by
  simp [contents, window]

lemma window_append (m n : Nat) : window N d l (m + n) =
    window N d l m ++ window N d (l + BitVec.ofNat w m) n := by
  induction m generalizing l with
  | zero => simp [window]
  | succ m ih =>
    rw [show m + 1 + n = m + n + 1 by omega]
    simp only [window, List.cons_append, ih]
    congr 3
    rw [show m + 1 = 1 + m by omega, BitVec.ofNat_add, ← add_assoc]
    rfl

lemma index_ne (hN : N ∣ 2 ^ w) (hn : n < N) (hk : k < n) :
    (l + BitVec.ofNat w k).toNat % N ≠ (l + BitVec.ofNat w n).toNat % N := by
  intro h
  simp only [BitVec.toNat_add, BitVec.toNat_ofNat, Nat.add_mod_mod, Nat.mod_mod_of_dvd _ hN] at h
  have hmod : k ≡ n [MOD N] := Nat.ModEq.add_left_cancel' l.toNat h
  have := hmod.eq_of_lt_of_lt (by omega) hn
  omega

lemma window_put (hN : N ∣ 2 ^ w) (h : n < N) :
    window N (put d ((l + BitVec.ofNat w n).toNat % N) a) l n = window N d l n := by
  have hcell : ∀ m k, k + m = n →
      window N (put d ((l + BitVec.ofNat w n).toNat % N) a) (l + BitVec.ofNat w k) m =
        window N d (l + BitVec.ofNat w k) m := by
    intro m
    induction m with
    | zero => simp [window]
    | succ m ih =>
      intro k hk
      have hnext : l + BitVec.ofNat w k + 1 = l + BitVec.ofNat w (k + 1) := by
        rw [BitVec.ofNat_add, ← add_assoc]
        rfl
      simp only [window]
      rw [put_of_ne (index_ne hN h (by omega)), hnext, ih (k + 1) (by omega)]
  simpa using hcell n 0 (by omega)

/-! ## Adding and taking entries -/

lemma contents_put (hN : N ∣ 2 ^ w) (h : span l u < N) :
    contents N (put d (u.toNat % N) a) l u = contents N d l u := by
  have hput := window_put (d := d) (l := l) (a := a) hN h
  rw [add_span] at hput
  exact hput

lemma contents_push (hN : N ∣ 2 ^ w) (h : span l u < N) (hw : span l u + 1 < 2 ^ w) :
    contents N (put d (u.toNat % N) a) l (u + 1) = contents N d l u ++ [a] := by
  have hput : window N (put d (u.toNat % N) a) l (span l u) = window N d l (span l u) :=
    contents_put hN h
  unfold contents
  rw [span_succ hw, window_append, add_span, hput]
  simp [window]

lemma contents_pop (h : l ≠ u) :
    contents N d l u = d (l.toNat % N) :: contents N d (l + 1) u := by
  unfold contents
  rw [← span_tail h]
  rfl

lemma contents_unpush (h : l ≠ u) :
    contents N d l u = contents N d l (u - 1) ++ [d ((u - 1).toNat % N)] := by
  unfold contents
  rw [← span_init h, window_append, add_span]
  rfl

lemma contents_split (h : span l mid ≤ span l u) :
    contents N d l u = contents N d l mid ++ contents N d mid u := by
  unfold contents
  rw [← span_split h, window_append, add_span]

end ring
