-- A redo log on a disk of blocks. A header block names home blocks, and the
-- log blocks behind it hold their new contents. `recovered` is what the disk
-- holds after the log is installed: each write of the protocol keeps it,
-- except the one header write that commits.
import Mathlib.Data.List.Nodup
import Mathlib.Data.List.Zip
import Mathlib.Logic.Function.Basic

open Function List

namespace redo_log

variable {α : Type*}

/-! ## Writes in order -/

/-- The disk after the writes, the first of the list first. -/
def applyW : List (Nat × α) → (Nat → α) → Nat → α
  | [], d => d
  | w :: ws, d => applyW ws (update d w.1 w.2)

lemma applyW_append (ws vs : List (Nat × α)) (d : Nat → α) :
    applyW (ws ++ vs) d = applyW vs (applyW ws d) := by
  induction ws generalizing d with
  | nil => rfl
  | cons w ws ih => simp only [cons_append, applyW, ih]

lemma applyW_snoc (ws : List (Nat × α)) (b : Nat) (v : α) (d : Nat → α) :
    applyW (ws ++ [(b, v)]) d = update (applyW ws d) b v := by
  rw [applyW_append]
  rfl

lemma applyW_of_not_mem {ws : List (Nat × α)} {b : Nat} (d : Nat → α)
    (h : b ∉ ws.map Prod.fst) : applyW ws d b = d b := by
  induction ws generalizing d with
  | nil => rfl
  | cons w ws ih =>
    simp only [map_cons, mem_cons, not_or] at h
    simp only [applyW]
    rw [ih _ h.2, update_of_ne h.1]

/-! ## What the log holds -/

/-- The contents of block `b` once the log blocks behind block `start` are copied to the
home blocks `bs`. -/
def installed (start : Nat) (bs : List Nat) (d : Nat → α) (b : Nat) : α :=
  if b ∈ bs then d (start + 1 + bs.idxOf b) else d b

/-- The contents of block `b` after recovery, with `head` the reading of a header block. -/
def recovered (head : α → List Nat) (start : Nat) (d : Nat → α) : Nat → α :=
  installed start (head (d start)) d

def Home (start size b : Nat) : Prop := b < start ∨ start + size ≤ b

lemma Home.ne_of_log {start size b i : Nat} (h : Home start size b) (hi : i < size) :
    b ≠ start + i := by
  unfold Home at h
  omega

lemma installed_nil (start : Nat) (d : Nat → α) : installed start [] d = d := by
  funext b
  simp [installed]

lemma recovered_of_clean {head : α → List Nat} {start : Nat} {d : Nat → α}
    (h : head (d start) = []) : recovered head start d = d := by
  unfold recovered
  rw [h, installed_nil]

lemma recovered_install {head : α → List Nat} {start size : Nat} {d : Nat → α} {bs : List Nat}
    {k x : Nat} (hh : head (d start) = bs) (hlen : bs.length < size)
    (hx : bs[k]? = some x) (hhome : Home start size x) :
    recovered head start (update d x (d (start + 1 + k))) = recovered head start d := by
  funext b
  have hx0 : start ≠ x := by have := hhome.ne_of_log (i := 0) (by omega); omega
  obtain ⟨hk, hget⟩ := List.getElem?_eq_some_iff.mp hx
  have hmem : x ∈ bs := by rw [← hget]; exact getElem_mem hk
  unfold recovered installed
  rw [update_of_ne hx0, hh]
  by_cases hb : b ∈ bs
  · have hlt := idxOf_lt_length_of_mem hb
    have hne : start + 1 + bs.idxOf b ≠ x := by
      have := hhome.ne_of_log (i := 1 + bs.idxOf b) (by omega)
      omega
    rw [if_pos hb, if_pos hb, update_of_ne hne]
  · have hne : b ≠ x := by
      rintro rfl
      exact hb hmem
    rw [if_neg hb, if_neg hb, update_of_ne hne]

lemma recovered_erase {head : α → List Nat} {start size : Nat} {d : Nat → α} {h : α}
    {bs : List Nat} {b : Nat} (hh : head (d start) = bs) (hclean : head h = [])
    (hsize : 0 < size)
    (hdone : ∀ x ∈ bs, d x = d (start + 1 + bs.idxOf x)) (hb : Home start size b) :
    recovered head start (update d start h) b = recovered head start d b := by
  have hne : b ≠ start := by have := hb.ne_of_log (i := 0) hsize; omega
  rw [recovered_of_clean (by rw [update_self]; exact hclean), update_of_ne hne]
  unfold recovered installed
  rw [hh]
  split
  · exact hdone b ‹_›
  · rfl

end redo_log
