-- Machines that act step by step. An act of a machine gives its next state, or
-- an error when it cannot be taken; a run takes acts that each meet a condition
-- where they are taken.
import Mathlib.Tactic.Common

namespace machine

variable {σ α ε : Type} {exec : σ → α → Except ε σ} {C : σ → α → Prop} {s₀ s t : σ} {a : α}

/-- The states reached from `s₀` by acts that meet the condition `C`. -/
inductive Run (exec : σ → α → Except ε σ) (C : σ → α → Prop) (s₀ : σ) : σ → Prop where
  | start : Run exec C s₀ s₀
  | act {s t : σ} {a : α} : Run exec C s₀ s → C s a → exec s a = .ok t → Run exec C s₀ t

lemma Run.invariant {I : σ → Prop} (h : Run exec C s₀ s) (h0 : I s₀)
    (hact : ∀ s a t, I s → C s a → exec s a = .ok t → I t) : I s := by
  induction h with
  | start => exact h0
  | act _ hC he ih => exact hact _ _ _ ih hC he

/-- The acts of a list, one after the other, as long as each passes a check. -/
def play (exec : σ → α → Except ε σ) (ok : σ → α → Bool) : List α → σ → Option σ
  | [], s => some s
  | a :: l, s =>
    if ok s a then
      match exec s a with
      | .ok t => play exec ok l t
      | .error _ => none
    else none

lemma Run.play {l : List α} {ok : σ → α → Bool} (h : Run exec C s₀ s)
    (hok : ∀ s a, ok s a = true → C s a) (hp : play exec ok l s = some t) : Run exec C s₀ t := by
  induction l generalizing s with
  | nil =>
    simp only [machine.play, Option.some.injEq] at hp
    rw [← hp]
    exact h
  | cons a l ih =>
    unfold machine.play at hp
    split at hp
    · rename_i hC
      split at hp
      · rename_i u he
        exact ih (h.act (hok s a hC) he) hp
      · cases hp
    · cases hp

lemma exists_played (exec : σ → α → Except ε σ) (C : σ → α → Prop) (s₀ : σ) (l : List α)
    (ok : σ → α → Bool) (test : σ → Bool) (hok : ∀ s a, ok s a = true → C s a)
    (h : (play exec ok l s₀).any test = true) : ∃ s, Run exec C s₀ s ∧ test s = true := by
  rw [Option.any_eq_true] at h
  obtain ⟨s, hs, ht⟩ := h
  exact ⟨s, Run.start.play hok hs, ht⟩

end machine
