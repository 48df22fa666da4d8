-- `memmove` of the kernel and of the user library. The two choose the direction
-- of the copy by different tests, and both copy as if all bytes moved at once.
import Mathlib.Data.BitVec
import Xv6.Lib.Cells

open cells

namespace xv6

abbrev Memory := BitVec 64 → UInt8

variable {m : Memory} {d s : BitVec 64} {n : Nat}

/-! ## The two functions -/

/-- The loop `*d++ = *s++`. -/
def copyUp (m : Memory) (d s : BitVec 64) : Nat → Memory
  | 0 => m
  | n + 1 => copyUp (put m d (m s)) (d + 1) (s + 1) n

/-- The loop `*--d = *--s`. -/
def copyDown (m : Memory) (d s : BitVec 64) : Nat → Memory
  | 0 => m
  | n + 1 => copyDown (put m (d - 1) (m (s - 1))) (d - 1) (s - 1) n

def string.memmove (m : Memory) (dst src : BitVec 64) (n : Nat) : Memory :=
  if n = 0 then m
  else if src < dst ∧ src + BitVec.ofNat 64 n > dst then
    copyDown m (dst + BitVec.ofNat 64 n) (src + BitVec.ofNat 64 n) n
  else copyUp m dst src n

-- a negative `n` ends both loops at once
def ulib.memmove (m : Memory) (vdst vsrc : BitVec 64) (n : Int) : Memory :=
  if vsrc > vdst then copyUp m vdst vsrc n.toNat
  else copyDown m (vdst + BitVec.ofInt 64 n) (vsrc + BitVec.ofInt 64 n) n.toNat

/-! ## All bytes at once -/

/-- The memory after `n` bytes move from `src` to `dst` at once. -/
def moved (m : Memory) (dst src : BitVec 64) (n : Nat) : Memory := fun a =>
  if (a - dst).toNat < n then m (src + (a - dst)) else m a

lemma copyUp_eq (hn : n ≤ 2 ^ 64)
    (h : ∀ i j, i < j → j < n → d + BitVec.ofNat 64 i ≠ s + BitVec.ofNat 64 j) :
    copyUp m d s n = moved m d s n := by
  induction n generalizing m d s with
  | zero => rfl
  | succ n ih =>
    have hnext : ∀ i j, i < j → j < n →
        d + 1 + BitVec.ofNat 64 i ≠ s + 1 + BitVec.ofNat 64 j := by
      intro i j hij hj
      have := h (i + 1) (j + 1) (by omega) (by omega)
      bv_omega
    rw [copyUp, ih (by omega) hnext]
    funext a
    unfold moved
    by_cases ha : a = d
    · have hlast : ¬ (a - (d + 1)).toNat < n := by bv_omega
      rw [if_neg hlast, if_pos (by simp [ha]), ha, put_self]
      simp
    · have hiff : (a - (d + 1)).toNat < n ↔ (a - d).toNat < n + 1 := by bv_omega
      simp only [hiff, put_of_ne ha]
      split
      · have hread := h 0 (a - d).toNat (by bv_omega) ‹_›
        rw [put_of_ne (by bv_omega), show s + 1 + (a - (d + 1)) = s + (a - d) by bv_omega]
      · rfl

lemma copyDown_eq (hn : n ≤ 2 ^ 64)
    (h : ∀ i j, i < j → j < n → d + BitVec.ofNat 64 j ≠ s + BitVec.ofNat 64 i) :
    copyDown m (d + BitVec.ofNat 64 n) (s + BitVec.ofNat 64 n) n = moved m d s n := by
  induction n generalizing m with
  | zero => rfl
  | succ n ih =>
    have hend : ∀ x : BitVec 64, x + BitVec.ofNat 64 (n + 1) - 1 = x + BitVec.ofNat 64 n := by
      intro x
      bv_omega
    rw [copyDown, hend, hend, ih (by omega) fun i j hij hj => h i j hij (by omega)]
    funext a
    unfold moved
    by_cases ha : a = d + BitVec.ofNat 64 n
    · rw [ha, put_self, if_neg (by bv_omega), if_pos (by bv_omega)]
      congr 1
      bv_omega
    · have hiff : (a - d).toNat < n ↔ (a - d).toNat < n + 1 := by bv_omega
      simp only [hiff, put_of_ne ha]
      split
      · have hread := h (a - d).toNat n (by bv_omega) (by omega)
        rw [put_of_ne (by bv_omega)]
      · rfl

/-- Both functions move the bytes at once, whatever the two ranges share. -/
theorem memmove_moves_at_once (m : Memory) (dst src : BitVec 64) (n : Nat) (hn : n < 2 ^ 31)
    (hsrc : src.toNat + n ≤ 2 ^ 64) (hdst : dst.toNat + n ≤ 2 ^ 64) :
    string.memmove m dst src n = moved m dst src n ∧
      ulib.memmove m dst src n = moved m dst src n := by
  have hle : n ≤ 2 ^ 64 := by omega
  constructor
  · unfold string.memmove
    split
    · subst n
      rfl
    · split
      · exact copyDown_eq hle fun i j hij hj => by bv_omega
      · exact copyUp_eq hle fun i j hij hj => by bv_omega
  · unfold ulib.memmove
    rw [BitVec.ofInt_natCast, Int.toNat_natCast]
    split
    · exact copyUp_eq hle fun i j hij hj => by bv_omega
    · exact copyDown_eq hle fun i j hij hj => by bv_omega

theorem memmove_moves_one_up : string.memmove (fun a => UInt8.ofNat a.toNat) 11 10 3 12 = 11 ∧
    ulib.memmove (fun a => UInt8.ofNat a.toNat) 11 10 3 12 = 11 := by
  obtain ⟨hk, hu⟩ := memmove_moves_at_once (fun a => UInt8.ofNat a.toNat) 11 10 3 (by decide)
    (by decide) (by decide)
  have hu' : ulib.memmove (fun a => UInt8.ofNat a.toNat) 11 10 3 = _ := hu
  rw [hk, hu']
  decide

end xv6
