-- Functions as arrays of cells, one of which is written. Unlike
-- `Function.update`, which casts along an equation, a write can be evaluated
-- with any index.
import Mathlib.Logic.Basic
import Mathlib.Tactic.Common

namespace cells

variable {α β : Type} [DecidableEq α] {f : α → β} {a b : α} {x y : β}

def put (f : α → β) (a : α) (x : β) : α → β := fun b => if b = a then x else f b

@[simp] lemma put_self (f : α → β) (a : α) (x : β) : put f a x a = x := if_pos rfl

@[simp] lemma put_of_ne (h : b ≠ a) (f : α → β) (x : β) : put f a x b = f b := if_neg h

lemma put_apply (f : α → β) (a : α) (x : β) (b : α) :
    put f a x b = if b = a then x else f b := rfl

@[simp] lemma put_put (f : α → β) (a : α) (x y : β) : put (put f a x) a y = put f a y := by
  funext b
  by_cases h : b = a
  · rw [h, put_self, put_self]
  · rw [put_of_ne h, put_of_ne h, put_of_ne h]

lemma put_eq_self (h : f a = x) : put f a x = f := by
  funext b
  by_cases hb : b = a
  · rw [hb, put_self, h]
  · rw [put_of_ne hb]

lemma read_put {γ : Type} {g : β → γ} (h : g x = g (f a)) (b : α) :
    g (put f a x b) = g (f b) := by
  by_cases hb : b = a
  · rw [hb, put_self, h]
  · rw [put_of_ne hb]

lemma put_comm (h : a ≠ b) (f : α → β) (x y : β) :
    put (put f a x) b y = put (put f b y) a x := by
  funext c
  by_cases hb : c = b
  · rw [hb, put_self, put_of_ne (Ne.symm h), put_self]
  · by_cases ha : c = a
    · rw [ha, put_of_ne h, put_self, put_self]
    · rw [put_of_ne hb, put_of_ne ha, put_of_ne ha, put_of_ne hb]

end cells
