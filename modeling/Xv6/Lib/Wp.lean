-- Programs with a state and errors, and what holds after them. `Wp m Q E s`
-- says that `m` started in `s` returns with `Q`, or stops with an error in `E`.
import Mathlib.Tactic.Common

namespace wp

variable {σ ε α β : Type}

/-- From `s` the program returns with `Q`, or stops with an error in `E`. -/
def Wp (m : StateT σ (Except ε) α) (Q : α → σ → Prop) (E : ε → Prop) (s : σ) : Prop :=
  match m.run s with
  | .ok (a, t) => Q a t
  | .error e => E e

variable {m : StateT σ (Except ε) α} {f : α → StateT σ (Except ε) β} {Q R : α → σ → Prop}
  {Q' : β → σ → Prop} {E E' : ε → Prop} {s t : σ}

lemma Wp.imp (h : Wp m R E s) (hQ : ∀ a t, R a t → Q a t) : Wp m Q E s := by
  unfold Wp at *
  split
  · rename_i heq
    rw [heq] at h
    exact hQ _ _ h
  · rename_i heq
    rw [heq] at h
    exact h

lemma Wp.errors (h : Wp m Q E s) (hE : ∀ e, E e → E' e) : Wp m Q E' s := by
  unfold Wp at *
  split
  · rename_i heq
    rw [heq] at h
    exact h
  · rename_i heq
    rw [heq] at h
    exact hE _ h

lemma Wp.and (h : Wp m Q E s) (h' : Wp m R E' s) : Wp m (fun a t => Q a t ∧ R a t) E s := by
  unfold Wp at *
  split
  · rename_i heq
    rw [heq] at h h'
    exact ⟨h, h'⟩
  · rename_i heq
    rw [heq] at h
    exact h

/-! ## The rules of the programs -/

@[simp] lemma wp_pure (a : α) : Wp (pure a) Q E s ↔ Q a s := Iff.rfl

@[simp] lemma wp_throw (e : ε) : Wp (throw e) Q E s ↔ E e := Iff.rfl

lemma wp_bind : Wp (m >>= f) Q' E s ↔ Wp m (fun a t => Wp (f a) Q' E t) E s := by
  unfold Wp
  rw [StateT.run_bind]
  rcases m.run s with e | ⟨a, t⟩
  · exact Iff.rfl
  · exact Iff.rfl

lemma Wp.bind (h : Wp m R E s) (hf : ∀ a t, R a t → Wp (f a) Q' E t) : Wp (m >>= f) Q' E s :=
  wp_bind.mpr (h.imp hf)

@[simp] lemma wp_get {Q : σ → σ → Prop} : Wp get Q E s ↔ Q s s := Iff.rfl

@[simp] lemma wp_get_bind (f : σ → StateT σ (Except ε) β) :
    Wp (get >>= f) Q' E s ↔ Wp (f s) Q' E s := Iff.rfl

@[simp] lemma wp_set {Q : PUnit → σ → Prop} : Wp (set t) Q E s ↔ Q ⟨⟩ t := Iff.rfl

@[simp] lemma wp_modify {Q : PUnit → σ → Prop} (g : σ → σ) :
    Wp (modify g) Q E s ↔ Q ⟨⟩ (g s) := Iff.rfl

@[simp] lemma wp_set_bind (f : PUnit → StateT σ (Except ε) β) :
    Wp (set t >>= f) Q' E s ↔ Wp (f ⟨⟩) Q' E t := Iff.rfl

@[simp] lemma wp_modify_bind (g : σ → σ) (f : PUnit → StateT σ (Except ε) β) :
    Wp (modify g >>= f) Q' E s ↔ Wp (f ⟨⟩) Q' E (g s) := Iff.rfl

@[simp] lemma wp_pure_bind (a : α) : Wp (pure a >>= f) Q' E s ↔ Wp (f a) Q' E s := Iff.rfl

lemma wp_ite {c : Prop} [Decidable c] {m n : StateT σ (Except ε) α} (h : c → Wp m Q E s)
    (h' : ¬ c → Wp n Q E s) : Wp (if c then m else n) Q E s := by
  split
  · exact h ‹_›
  · exact h' ‹_›

-- an application of a rule must not evaluate the program
attribute [irreducible] Wp

/-! ## From a program to its runs -/

lemma Wp.of_ok {a : α} (h : Wp m Q E s) (hr : m.run s = .ok (a, t)) : Q a t := by
  unfold Wp at h
  rw [hr] at h
  exact h

lemma Wp.of_error {e : ε} (h : Wp m Q E s) (hr : m.run s = .error e) : E e := by
  unfold Wp at h
  rw [hr] at h
  exact h

lemma Wp.run (h : Wp m Q E s) : Wp m (fun a t => Q a t ∧ m.run s = .ok (a, t)) E s := by
  unfold Wp at *
  split
  · rename_i heq
    rw [heq] at h
    exact ⟨h, heq⟩
  · rename_i heq
    rw [heq] at h
    exact h

lemma wp_any : Wp m (fun _ _ => True) (fun _ => True) s := by
  unfold Wp
  split
  · trivial
  · trivial

lemma Wp.exists_ok (h : Wp m Q (fun _ => False) s) : ∃ a t, m.run s = .ok (a, t) ∧ Q a t := by
  unfold Wp at h
  split at h
  · exact ⟨_, _, ‹_›, h⟩
  · exact h.elim

/-- Tests what a run returns. -/
def returns [DecidableEq α] (m : StateT σ (Except ε) α) (a : α) (s : σ) : Bool :=
  match m.run s with
  | .ok (b, _) => b = a
  | .error _ => false

lemma exists_of_returns [DecidableEq α] {a : α} (h : returns m a s = true) :
    ∃ t, m.run s = .ok (a, t) := by
  unfold returns at h
  split at h
  · rename_i b t hr
    rw [of_decide_eq_true h] at hr
    exact ⟨t, hr⟩
  · cases h

end wp
