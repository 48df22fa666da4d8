-- Bytes by address, and the little-endian words that stand in them. A word
-- that is written is read back, and every word beside it stays as it was.
import Mathlib.Data.Nat.Bits
import Mathlib.Tactic.Ring
import Mathlib.Tactic.Linarith

namespace bytes

abbrev Bytes := Nat → UInt8

/-- The word of `n` bytes at address `a`, low byte first. -/
def getLE : Nat → Bytes → Nat → Nat
  | 0, _, _ => 0
  | n + 1, m, a => (m a).toNat + 256 * getLE n m (a + 1)

/-- The bytes after the low `n` bytes of `v` are written at address `a`. -/
def putLE (n : Nat) (m : Bytes) (a v : Nat) : Bytes := fun b =>
  if a ≤ b ∧ b < a + n then UInt8.ofNat (v / 256 ^ (b - a)) else m b

/-- The bytes after `n` bytes of `src` from address `s` on are copied to address `a`. -/
def copy (m : Bytes) (a : Nat) (src : Bytes) (s n : Nat) : Bytes := fun b =>
  if a ≤ b ∧ b < a + n then src (s + (b - a)) else m b

/-! ## Words -/

variable {a b n : Nat}

lemma getLE_congr {m m' : Bytes}
    (h : ∀ b, a ≤ b → b < a + n → m b = m' b) : getLE n m a = getLE n m' a := by
  induction n generalizing a with
  | zero => rfl
  | succ n ih =>
    simp only [getLE]
    rw [h a (by omega) (by omega), ih (fun b h1 h2 => h b (by omega) (by omega))]

lemma getLE_of_bytes {m : Bytes} {a v : Nat}
    (h : ∀ i < n, m (a + i) = UInt8.ofNat (v / 256 ^ i)) : getLE n m a = v % 256 ^ n := by
  induction n generalizing a v with
  | zero => simp [getLE, Nat.mod_one]
  | succ n ih =>
    have h0 : (m a).toNat = v % 256 := by
      have := h 0 (by omega)
      simp only [Nat.add_zero, Nat.pow_zero, Nat.div_one] at this
      rw [this]
      simp
    have hrest : getLE n m (a + 1) = v / 256 % 256 ^ n := by
      apply ih
      intro i hi
      rw [Nat.add_right_comm a 1 i, Nat.add_assoc, h (i + 1) (by omega), Nat.div_div_eq_div_mul,
        Nat.pow_succ']
    simp only [getLE]
    rw [h0, hrest, Nat.pow_succ', Nat.mod_mul]

lemma getLE_lt (n : Nat) (m : Bytes) (a : Nat) : getLE n m a < 256 ^ n := by
  induction n generalizing a with
  | zero => simp [getLE]
  | succ n ih =>
    have h0 := (m a).toNat_lt
    have h1 := ih (a + 1)
    simp only [getLE]
    rw [Nat.pow_succ']
    omega

lemma getLE_putLE_same (n : Nat) (m : Bytes) (a v : Nat) :
    getLE n (putLE n m a v) a = v % 256 ^ n := by
  apply getLE_of_bytes
  intro i hi
  unfold putLE
  rw [if_pos (by omega), Nat.add_sub_cancel_left]

lemma getLE_putLE_of_lt (m : Bytes) (a : Nat) {v : Nat} (h : v < 256 ^ n) :
    getLE n (putLE n m a v) a = v := by
  rw [getLE_putLE_same, Nat.mod_eq_of_lt h]

lemma getLE_putLE_of_disjoint {n k : Nat} (m : Bytes) (v : Nat)
    (h : b + k ≤ a ∨ a + n ≤ b) : getLE k (putLE n m a v) b = getLE k m b := by
  apply getLE_congr
  intro c h1 h2
  unfold putLE
  rw [if_neg (by omega)]

lemma putLE_of_outside (m : Bytes) (v : Nat) (h : b < a ∨ a + n ≤ b) :
    putLE n m a v b = m b := by
  unfold putLE
  rw [if_neg (by omega)]

/-! ## Runs of bytes -/

lemma copy_of_outside (m : Bytes) (src : Bytes) (s : Nat)
    (h : b < a ∨ a + n ≤ b) : copy m a src s n b = m b := by
  unfold copy
  rw [if_neg (by omega)]

end bytes
