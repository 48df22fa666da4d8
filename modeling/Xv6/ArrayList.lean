-- The array list of `arraylist.c`. It holds the values appended to it, in an
-- array that doubles when it is full; `al_get_at` does not test for a negative
-- position.
import Xv6.Proc

open List

namespace xv6.arraylist

open proc (int32)

def DEF_ARRAY_LIST_CAPACITY : Int := 4

/-- A `struct arraylist`, with the array that `list` points to. -/
structure ArrayList where
  size : Int
  capacity : Int
  list : List Int

/-- The array that `malloc` returns, with whatever was in that memory. -/
def malloc (junk : Nat → Int) (nbytes : Int) : List Int :=
  (List.range ((nbytes % 2 ^ 32).toNat / 4)).map junk

-- an access outside of the array has no result
def load (list : List Int) (i : Int) : Option Int := if 0 ≤ i then list[i.toNat]? else none

def store (list : List Int) (i val : Int) : Option (List Int) :=
  if 0 ≤ i ∧ i < list.length then some (list.set i.toNat val) else none

def al_new (junk : Nat → Int) : ArrayList where
  size := 0
  capacity := DEF_ARRAY_LIST_CAPACITY
  list := malloc junk (DEF_ARRAY_LIST_CAPACITY * 4)

def al_get_at (al : ArrayList) (pos : Int) : Option Int :=
  if pos ≥ al.size then some (int32 0xffffffff) else load al.list pos

/-- The loop of `al_resize`, for `n` more elements. -/
def copyLoop (list : List Int) : Nat → Int → List Int → Option (List Int)
  | 0, _, newList => some newList
  | n + 1, i, newList => do
    let x ← load list i
    copyLoop list n (i + 1) (← store newList i x)

def al_resize (junk : Nat → Int) (al : ArrayList) : Option ArrayList := do
  let newCap := int32 (2 * al.capacity)
  let newList ← copyLoop al.list al.size.toNat 0 (malloc junk (newCap * 4))
  return { al with list := newList, capacity := newCap }

def al_append (junk : Nat → Int) (al : ArrayList) (val : Int) : Option ArrayList := do
  let al ← if al.size = al.capacity then al_resize junk al else some al
  return { al with list := ← store al.list al.size val, size := al.size + 1 }

/-- The lists after the values are appended, as long as the capacities are below `2 ^ 29`. -/
inductive Appended : ArrayList → List Int → Prop where
  | new (junk : Nat → Int) : Appended (al_new junk) []
  | append {al al' : ArrayList} {vals : List Int} {val : Int} {junk : Nat → Int} :
    Appended al vals → al_append junk al val = some al' → al'.capacity < 2 ^ 29 →
    Appended al' (vals ++ [val])

variable {al al' : ArrayList} {list newList vals : List Int} {junk : Nat → Int} {n i k : Nat}

lemma copyLoop_spec (hlist : i + n ≤ list.length) (hnew : i + n ≤ newList.length)
    (h : ∀ j < i, newList[j]? = list[j]?) : ∃ r, copyLoop list n i newList = some r ∧
      r.length = newList.length ∧ ∀ j < i + n, r[j]? = list[j]? := by
  induction n generalizing i newList with
  | zero => exact ⟨newList, rfl, rfl, h⟩
  | succ n ih =>
    have hget : list[i]? = some list[i] := getElem?_eq_getElem (by omega)
    have hnext : ∀ j < i + 1, (newList.set i list[i])[j]? = list[j]? := by
      intro j hj
      rw [getElem?_set]
      split
      · rename_i hij
        rw [if_pos (by omega), ← hij, hget]
      · exact h j (by omega)
    obtain ⟨r, hr, hlen, hall⟩ := ih (by omega) (by rw [length_set]; omega) hnext
    refine ⟨r, ?_, by rw [hlen, length_set], fun j hj => hall j (by omega)⟩
    have hi : (i : Int) < newList.length := by omega
    simp only [copyLoop, load, store, Int.natCast_nonneg, if_true, Int.toNat_natCast, hget, hi,
      and_self, Option.bind_eq_bind, Option.bind_some]
    exact hr

def doubled (k : Nat) : Nat := 4 * 2 ^ k

lemma doubled_succ (k : Nat) : doubled (k + 1) = 2 * doubled k := by
  unfold doubled
  rw [Nat.pow_succ]
  omega

/-- The array has the size after `k` resizes, and holds the values. -/
structure Holds (al : ArrayList) (vals : List Int) (k : Nat) : Prop where
  size : al.size = vals.length
  capacity : al.capacity = doubled k
  length : al.list.length = doubled k
  fits : vals.length ≤ doubled k
  values : ∀ j < vals.length, al.list[j]? = vals[j]?

lemma length_malloc : (malloc junk (↑n * 4)).length = 4 * n % 2 ^ 32 / 4 := by
  simp only [malloc, length_map, length_range]
  omega

lemma Holds.resize (h : Holds al vals k) (hsmall : al.capacity < 2 ^ 29) (junk : Nat → Int) :
    ∃ al', al_resize junk al = some al' ∧ Holds al' vals (k + 1) := by
  obtain ⟨hsize, hcap, hlen, hfits, hvals⟩ := h
  have hpow := doubled_succ k
  have hnew : int32 (2 * al.capacity) = ↑(doubled (k + 1)) := by
    unfold int32
    omega
  have hroom : (malloc junk (↑(doubled (k + 1)) * 4)).length = doubled (k + 1) := by
    rw [length_malloc]
    omega
  have hsz : al.size.toNat = vals.length := by omega
  obtain ⟨r, hr, hrlen, hrvals⟩ := @copyLoop_spec al.list
    (malloc junk (↑(doubled (k + 1)) * 4)) vals.length 0 (by omega) (by omega) (by simp)
  refine ⟨{ al with list := r, capacity := ↑(doubled (k + 1)) }, ?_, hsize, rfl, ?_, ?_, ?_⟩
  · simp only [al_resize, hnew, hsz]
    rw [show (0 : Int) = ((0 : Nat) : Int) from rfl, hr]
    rfl
  · exact hrlen.trans hroom
  · omega
  · intro j hj
    rw [hrvals j (by omega), hvals j hj]

lemma Holds.store (h : Holds al vals k) (hlt : vals.length < doubled k) (val : Int) :
    ∃ list, store al.list al.size val = some list ∧
      Holds { al with list, size := al.size + 1 } (vals ++ [val]) k := by
  obtain ⟨hsize, hcap, hlen, hfits, hvals⟩ := h
  have hin : (0 : Int) ≤ al.size ∧ al.size < al.list.length := by omega
  have hsz : al.size.toNat = vals.length := by omega
  refine ⟨_, if_pos hin, by simp [hsize], hcap, by simp [hlen], by simp; omega, fun j hj => ?_⟩
  rw [hsz, getElem?_set, getElem?_append]
  simp only [length_append, length_singleton] at hj
  split
  · rename_i hj'
    rw [if_pos (by omega), if_neg (by omega)]
    simp [← hj']
  · rw [if_pos (by omega)]
    exact hvals j (by omega)

lemma Holds.append (h : Holds al vals k) (hleast : ∀ k', vals.length ≤ doubled k' → k ≤ k')
    (hsmall : al.capacity < 2 ^ 29) (junk : Nat → Int) (val : Int) :
    ∃ al' k', al_append junk al val = some al' ∧ Holds al' (vals ++ [val]) k' ∧
      ∀ k'', (vals ++ [val]).length ≤ doubled k'' → k' ≤ k'' := by
  have hsize := h.size
  have hcap := h.capacity
  unfold al_append
  by_cases hfull : al.size = al.capacity
  · obtain ⟨al₁, hal₁, h₁⟩ := h.resize hsmall junk
    have hlt : vals.length < doubled (k + 1) := by
      have hpos := Nat.two_pow_pos k
      unfold doubled at *
      omega
    obtain ⟨list, hlist, h₂⟩ := h₁.store hlt val
    refine ⟨_, k + 1, ?_, h₂, fun k'' hk => ?_⟩
    · rw [if_pos hfull, hal₁]
      simp only [Option.bind_eq_bind, Option.bind_some, hlist]
      rfl
    · by_contra hlt
      have hle : 2 ^ k'' ≤ 2 ^ k := Nat.pow_le_pow_right (by decide) (by omega)
      unfold doubled at *
      simp only [length_append, length_singleton] at hk
      omega
  · have hfits := h.fits
    obtain ⟨list, hlist, h₁⟩ := h.store (by omega) val
    refine ⟨_, k, ?_, h₁, fun k'' hk => hleast k'' ?_⟩
    · rw [if_neg hfull]
      simp only [Option.bind_eq_bind, Option.bind_some, hlist]
      rfl
    · simp only [length_append, length_singleton] at hk
      omega

lemma Appended.holds (h : Appended al vals) : al.capacity < 2 ^ 29 ∧
    ∃ k, Holds al vals k ∧ ∀ k', vals.length ≤ doubled k' → k ≤ k' := by
  induction h with
  | new junk => exact ⟨(by decide : (4 : Int) < 2 ^ 29), 0, ⟨rfl, rfl, rfl, by simp, by simp⟩, fun _ _ => Nat.zero_le _⟩
  | @append al al' vals val junk _ hrun hsmall ih =>
    obtain ⟨hsmall', k, hk, hleast⟩ := ih
    obtain ⟨al₁, k₁, hrun₁, hk₁, hleast₁⟩ := hk.append hleast hsmall' junk val
    cases hrun.symm.trans hrun₁
    exact ⟨hsmall, k₁, hk₁, hleast₁⟩

/-- The list is the sequence of the values, whose positions from 0 on `al_get_at` answers. A
negative one it reads outside of the array. -/
theorem al_get_at_reads_the_value_iff (h : Appended al vals) (pos : Int) :
    al.size = vals.length ∧
    (∃ k, al.size ≤ al.capacity ∧ al.capacity = doubled k ∧ al.list.length = doubled k ∧
      ∀ k', vals.length ≤ doubled k' → k ≤ k') ∧
    (∀ junk val, ∃ al', al_append junk al val = some al') ∧
    (al_get_at al pos =
      (if 0 ≤ pos ∧ pos < al.size then vals[pos.toNat]? else some (int32 0xffffffff)) ↔
      0 ≤ pos) := by
  obtain ⟨hsmall, k, hk, hleast⟩ := h.holds
  have hsize := hk.size
  have hcap := hk.capacity
  have hfits := hk.fits
  refine ⟨hsize, ⟨k, by omega, hcap, hk.length, hleast⟩, fun junk val => ?_, ?_⟩
  · obtain ⟨al', _, hrun, _⟩ := hk.append hleast hsmall junk val
    exact ⟨al', hrun⟩
  · unfold al_get_at load
    by_cases hpos : 0 ≤ pos
    · by_cases hlt : pos < al.size
      · rw [if_neg (by omega), if_pos hpos, if_pos ⟨hpos, hlt⟩]
        exact iff_of_true (hk.values pos.toNat (by omega)) hpos
      · rw [if_pos (by omega), if_neg (by omega)]
        exact iff_of_true rfl hpos
    · rw [if_neg (by omega), if_neg hpos, if_neg (by omega)]
      exact iff_of_false (by simp) hpos

theorem al_get_at_reads_the_first_value : ∃ al, Appended al [7] ∧ al_get_at al 0 = some 7 := by
  have h : Appended _ [7] := @Appended.append _ _ [] 7 (fun _ => 0) (.new fun _ => 0) rfl (by decide)
  exact ⟨_, h, ((al_get_at_reads_the_value_iff h 0).2.2.2).mpr (by decide)⟩

/-- Position -1 of an empty list is read before the array. -/
theorem al_get_at_reads_before_the_array : Appended (al_new fun _ => 0) [] ∧
    al_get_at (al_new fun _ => 0) (-1) ≠ some (int32 0xffffffff) :=
  ⟨.new _, by decide⟩

end xv6.arraylist
