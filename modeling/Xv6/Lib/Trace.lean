-- Programs that note what they do. A program with a trace has the state of a
-- plain program and the events so far. Without the events it is the plain
-- program, and what holds after it holds after the plain one.
import Xv6.Lib.Wp

open wp

namespace trace

variable {σ ε β α γ : Type}

abbrev Traced (σ ε β : Type) := StateT (σ × List β) (Except ε)

/-- The plain program, which notes nothing. -/
def quiet (m : StateT σ (Except ε) α) : Traced σ ε β α :=
  fun x => (m.run x.1).map fun r => (r.1, (r.2, x.2))

def note (e : β) : Traced σ ε β Unit := modify fun x => (x.1, x.2 ++ [e])

/-- Without its trace the program is `m`. -/
def Erases (m' : Traced σ ε β α) (m : StateT σ (Except ε) α) : Prop :=
  ∀ s l, (m'.run (s, l)).map (fun r => (r.1, r.2.1)) = m.run s

variable {m : StateT σ (Except ε) α} {m' : Traced σ ε β α} {f : α → StateT σ (Except ε) γ}
  {f' : α → Traced σ ε β γ} {Q : α → σ × List β → Prop} {E : ε → Prop} {s : σ} {l : List β}

/-! ## The rules -/

@[simp] lemma wp_quiet : Wp (quiet m) Q E (s, l) ↔ Wp m (fun a t => Q a (t, l)) E s := by
  unfold Wp quiet
  simp only [StateT.run]
  rcases m s with e | ⟨a, t⟩
  · exact Iff.rfl
  · exact Iff.rfl

@[simp] lemma wp_quiet_bind {Q : γ → σ × List β → Prop} :
    Wp (quiet m >>= f') Q E (s, l) ↔ Wp m (fun a t => Wp (f' a) Q E (t, l)) E s := by
  rw [wp_bind, wp_quiet]

@[simp] lemma wp_note (e : β) {Q : Unit → σ × List β → Prop} :
    Wp (note e) Q E (s, l) ↔ Q () (s, l ++ [e]) := wp_modify _

@[simp] lemma wp_note_bind (e : β) (f' : Unit → Traced σ ε β γ) {Q : γ → σ × List β → Prop} :
    Wp (note e >>= f') Q E (s, l) ↔ Wp (f' ()) Q E (s, l ++ [e]) := wp_modify_bind _ _

/-! ## Without the trace -/

lemma erases_quiet (m : StateT σ (Except ε) α) : Erases (quiet (β := β) m) m := by
  intro s l
  unfold quiet
  simp only [StateT.run]
  rcases m s with e | ⟨a, t⟩
  · rfl
  · rfl

lemma erases_pure (a : α) : Erases (pure a : Traced σ ε β α) (pure a) := fun _ _ => rfl

lemma erases_throw (e : ε) : Erases (throw e : Traced σ ε β α) (throw e) := fun _ _ => rfl

lemma Erases.bind (h : Erases m' m) (hf : ∀ a, Erases (f' a) (f a)) :
    Erases (m' >>= f') (m >>= f) := by
  intro s l
  have hs := h s l
  simp only [StateT.run_bind]
  rw [← hs]
  rcases m'.run (s, l) with e | ⟨a, t, l'⟩
  · rfl
  · exact hf a t l'

lemma Erases.note_bind (e : β) {f' : Unit → Traced σ ε β α} (h : Erases (f' ()) m) :
    Erases (note e >>= f') m := fun s l => h s (l ++ [e])

lemma Erases.ite {c : Prop} [Decidable c] {n' : Traced σ ε β α} {n : StateT σ (Except ε) α}
    (h : Erases m' m) (hn : Erases n' n) :
    Erases (if c then m' else n') (if c then m else n) := by
  split
  · exact h
  · exact hn

lemma Erases.wp (h : Erases m' m) (hw : Wp m' Q E (s, l)) :
    Wp m (fun a t => ∃ l', Q a (t, l')) E s := by
  have hs := h s l
  unfold Wp at *
  rw [← hs]
  rcases hr : m'.run (s, l) with e | ⟨a, t, l'⟩
  · rw [hr] at hw
    exact hw
  · rw [hr] at hw
    exact ⟨l', hw⟩

end trace
