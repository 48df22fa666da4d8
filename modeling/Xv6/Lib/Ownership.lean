-- Blocks and the places that refer to them. A map marks the blocks in use:
-- those below a bound, and each block that a place refers to, once.
import Mathlib.Logic.Function.Basic
import Mathlib.Tactic.Common

open Function

namespace ownership

variable {P : Type*} {low size : Nat} {used used' : Nat → Bool} {ref ref' : P → Nat}

/-- `used` marks exactly the blocks below `low` and the blocks that places refer to, and no
block has two references. A place that holds 0 refers to no block. -/
structure Exact (low size : Nat) (used : Nat → Bool) (ref : P → Nat) : Prop where
  low_pos : 0 < low
  range : ∀ p, ref p ≠ 0 → low ≤ ref p ∧ ref p < size
  inj : ∀ p q, ref p ≠ 0 → ref p = ref q → p = q
  bits : ∀ b, b < size → (used b = true ↔ b < low ∨ ∃ p, ref p = b)

namespace Exact

section

variable (h : Exact low size used ref)
include h

lemma used_of_ref {p : P} (hp : ref p ≠ 0) :
    used (ref p) = true :=
  (h.bits _ (h.range p hp).2).mpr (.inr ⟨p, rfl⟩)

lemma low_le_of_unused {b : Nat} (hb : b < size)
    (hu : used b = false) : low ≤ b := by
  by_contra hlt
  have := (h.bits b hb).mpr (.inl (by omega))
  rw [hu] at this
  cases this

lemma ref_ne_of_unused {b : Nat} (hb : b < size)
    (hu : used b = false) (p : P) : ref p ≠ b := by
  intro hp
  have := (h.bits b hb).mpr (.inr ⟨p, hp⟩)
  rw [hu] at this
  cases this

lemma take [DecidableEq P] {p : P} {b : Nat} (hp : ref p = 0)
    (hb : b < size) (hu : used b = false) :
    Exact low size (update used b true) (update ref p b) := by
  have hlow := h.low_le_of_unused hb hu
  have hnot := h.ref_ne_of_unused hb hu
  refine ⟨h.low_pos, ?_, ?_, ?_⟩
  · intro q hq
    by_cases hqp : q = p
    · subst hqp
      rw [update_self]
      exact ⟨hlow, hb⟩
    · rw [update_of_ne hqp] at hq ⊢
      exact h.range q hq
  · intro q r hq hqr
    by_cases hqp : q = p <;> by_cases hrp : r = p
    · rw [hqp, hrp]
    · subst hqp
      rw [update_self, update_of_ne hrp] at hqr
      exact absurd hqr.symm (hnot r)
    · subst hrp
      rw [update_self, update_of_ne hqp] at hqr
      exact absurd hqr (hnot q)
    · rw [update_of_ne hqp] at hq hqr
      rw [update_of_ne hrp] at hqr
      exact h.inj q r hq hqr
  · intro c hc
    by_cases hcb : c = b
    · subst hcb
      rw [update_self]
      exact iff_of_true rfl (.inr ⟨p, update_self ..⟩)
    · rw [update_of_ne hcb, h.bits c hc]
      constructor
      · rintro (hlt | ⟨q, hq⟩)
        · exact .inl hlt
        · by_cases hqp : q = p
          · subst hqp
            left
            have := h.low_pos
            omega
          · exact .inr ⟨q, by rw [update_of_ne hqp]; exact hq⟩
      · rintro (hlt | ⟨q, hq⟩)
        · exact .inl hlt
        · by_cases hqp : q = p
          · subst hqp
            rw [update_self] at hq
            exact absurd hq.symm hcb
          · rw [update_of_ne hqp] at hq
            exact .inr ⟨q, hq⟩

lemma release (S : P → Prop) (hS : ∀ p, S p → ref' p = 0)
    (hrest : ∀ p, ¬ S p → ref' p = ref p)
    (hused : ∀ b, used' b = true ↔ used b = true ∧ ¬ ∃ p, S p ∧ ref p ≠ 0 ∧ ref p = b) :
    Exact low size used' ref' := by
  have hof : ∀ p, ref' p ≠ 0 → ¬ S p ∧ ref' p = ref p := by
    intro p hp
    have hn : ¬ S p := fun hs => hp (hS p hs)
    exact ⟨hn, hrest p hn⟩
  refine ⟨h.low_pos, ?_, ?_, ?_⟩
  · intro p hp
    obtain ⟨_, he⟩ := hof p hp
    rw [he] at hp ⊢
    exact h.range p hp
  · intro p q hp hpq
    obtain ⟨_, he⟩ := hof p hp
    obtain ⟨_, he'⟩ := hof q (hpq ▸ hp)
    rw [he, he'] at hpq
    exact h.inj p q (he ▸ hp) hpq
  · intro b hb
    rw [hused b, h.bits b hb]
    constructor
    · rintro ⟨hlt | ⟨p, rfl⟩, hno⟩
      · exact .inl hlt
      · by_cases h0 : ref p = 0
        · left
          have := h.low_pos
          omega
        · have hn : ¬ S p := fun hs => hno ⟨p, hs, h0, rfl⟩
          exact .inr ⟨p, hrest p hn⟩
    · rintro (hlt | ⟨p, rfl⟩)
      · refine ⟨.inl hlt, ?_⟩
        rintro ⟨p, _, h0, rfl⟩
        have := (h.range p h0).1
        omega
      · by_cases h0 : ref' p = 0
        · rw [h0]
          refine ⟨.inl h.low_pos, ?_⟩
          rintro ⟨q, _, hq0, hq⟩
          exact hq0 hq
        · obtain ⟨hn, he⟩ := hof p h0
          refine ⟨.inr ⟨p, he.symm⟩, ?_⟩
          rintro ⟨q, hs, hq0, hq⟩
          rw [he] at hq
          exact hn (h.inj q p hq0 hq ▸ hs)

end

end Exact

end ownership
