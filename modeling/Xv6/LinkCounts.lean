-- The links of an inode: the entries that name it, and for a directory the
-- entries of its own that name directories. How each step of the tree changes
-- their number.
import Xv6.Lib.Count
import Xv6.TreeSteps

open count Function

namespace xv6.fs

variable {n d m i j : Nat} {T T' : Tree} {name : Name} {e : Option (Nat × Name)}

/-! ## Counting entries -/

def MAXENT : Nat := MAXFILE * BSIZE / DIRENT

/-- The entries of `n` inodes. -/
@[irreducible] def entSet (n : Nat) : Finset (Nat × Nat) := Finset.range n ×ˢ Finset.range MAXENT

lemma mem_entSet : (d, m) ∈ entSet n ↔ d < n ∧ m < MAXENT := by
  unfold entSet
  generalize MAXENT = k
  simp

@[irreducible] def placeSet : Finset Nat := Finset.range MAXENT

lemma mem_placeSet : m ∈ placeSet ↔ m < MAXENT := by
  unfold placeSet
  rw [Finset.mem_range]

/-- The inode that an entry names, unless it is "." or "..". -/
def proper (e : Option (Nat × Name)) : Option Nat :=
  match e with
  | some (i, name) => if name = dot ∨ name = dotdot then none else some i
  | none => none

@[simp] lemma proper_none : proper none = none := rfl

@[simp] lemma proper_dot : proper (some (i, dot)) = none := by simp [proper]

@[simp] lemma proper_dotdot : proper (some (i, dotdot)) = none := by simp [proper]

lemma proper_some (h1 : name ≠ dot) (h2 : name ≠ dotdot) : proper (some (i, name)) = some i := by
  simp [proper, h1, h2]

lemma proper_eq_some : proper e = some i ↔ ∃ name, e = some (i, name) ∧ name ≠ dot ∧
    name ≠ dotdot := by
  constructor
  · intro h
    rcases e with _ | ⟨j, name⟩
    · cases h
    · unfold proper at h
      dsimp only at h
      split at h
      · cases h
      · rename_i hn
        rw [not_or] at hn
        cases h
        exact ⟨name, rfl, hn⟩
  · rintro ⟨name, rfl, h1, h2⟩
    exact proper_some h1 h2

/-- How many entries other than "." and ".." name inode `i`. -/
def naming (n : Nat) (T : Tree) (i : Nat) : Nat :=
  occ (entSet n) (fun x => proper (T.ent x.1 x.2)) (some i)

/-- The entry names a directory, and is neither "." nor "..". -/
def namesDir (T : Tree) (e : Option (Nat × Name)) : Bool :=
  match proper e with
  | some j => T.type j = .dir
  | none => false

def subdirs (T : Tree) (d : Nat) : Nat := occ placeSet (fun m => namesDir T (T.ent d m)) true

/-- The links that inode `i` should have. -/
def links (n : Nat) (T : Tree) (i : Nat) : Nat :=
  naming n T i + subdirs T i + if i = ROOTINO then 1 else 0

lemma namesDir_iff : namesDir T e = true ↔ ∃ j, proper e = some j ∧ T.type j = .dir := by
  unfold namesDir
  split
  · rename_i j hj
    rw [hj]
    simp
  · rename_i hj
    rw [hj]
    simp

/-! ## Changes of one entry -/

lemma setEnt_ent (d' m' : Nat) :
    (T.setEnt d m e).ent d' m' = if d' = d ∧ m' = m then e else T.ent d' m' := by
  unfold Tree.setEnt
  dsimp only
  by_cases hd : d' = d
  · subst hd
    rw [update_self]
    by_cases hm : m' = m
    · subst hm
      simp
    · simp [hm]
  · simp [hd]

lemma naming_setEnt (hd : d < n) (hm : m < MAXENT) (i : Nat) :
    naming n (T.setEnt d m e) i + (if proper (T.ent d m) = some i then 1 else 0) =
      naming n T i + (if proper e = some i then 1 else 0) := by
  have hupd : (fun x : Nat × Nat => proper ((T.setEnt d m e).ent x.1 x.2)) =
      update (fun x : Nat × Nat => proper (T.ent x.1 x.2)) (d, m) (proper e) := by
    funext x
    by_cases hx : x = (d, m)
    · subst hx
      simp [setEnt_ent]
    · rw [update_of_ne hx, setEnt_ent, if_neg]
      rintro ⟨h1, h2⟩
      exact hx (Prod.ext h1 h2)
  unfold naming
  rw [hupd]
  exact occ_update (f := fun x : Nat × Nat => proper (T.ent x.1 x.2)) (mem_entSet.mpr ⟨hd, hm⟩)
    (proper e) (some i)

lemma subdirs_setEnt_self (hm : m < MAXENT) :
    subdirs (T.setEnt d m e) d + (if namesDir T (T.ent d m) = true then 1 else 0) =
      subdirs T d + (if namesDir T e = true then 1 else 0) := by
  have hupd : (fun x => namesDir (T.setEnt d m e) ((T.setEnt d m e).ent d x)) =
      update (fun x => namesDir T (T.ent d x)) m (namesDir T e) := by
    funext x
    by_cases hx : x = m
    · subst hx
      rw [update_self, setEnt_ent, if_pos ⟨rfl, rfl⟩]
      rfl
    · rw [update_of_ne hx, setEnt_ent, if_neg fun h => hx h.2]
      rfl
  unfold subdirs
  rw [hupd]
  exact occ_update (f := fun x => namesDir T (T.ent d x)) (mem_placeSet.mpr hm) (namesDir T e) true

lemma subdirs_setEnt_ne (hj : j ≠ d) : subdirs (T.setEnt d m e) j = subdirs T j := by
  unfold subdirs
  congr 1
  funext x
  rw [setEnt_ent, if_neg fun h => hj h.1]
  rfl

lemma naming_congr (h : ∀ d m, proper (T'.ent d m) = proper (T.ent d m)) (i : Nat) :
    naming n T' i = naming n T i :=
  occ_congr (fun x _ => h x.1 x.2) _

lemma subdirs_congr (h : ∀ m, namesDir T' (T'.ent d m) = namesDir T (T.ent d m)) :
    subdirs T' d = subdirs T d :=
  occ_congr (fun m _ => h m) _

lemma naming_le (h : ∀ d m, proper (T'.ent d m) = some i → proper (T.ent d m) = some i) :
    naming n T' i ≤ naming n T i :=
  Finset.card_le_card (Finset.monotone_filter_right _ fun x _ => h x.1 x.2)

lemma subdirs_le (h : ∀ m, namesDir T' (T'.ent d m) = true → namesDir T (T.ent d m) = true) :
    subdirs T' d ≤ subdirs T d :=
  Finset.card_le_card (Finset.monotone_filter_right _ fun m _ => h m)

lemma naming_pos : 0 < naming n T i ↔
    ∃ d m, d < n ∧ m < MAXENT ∧ proper (T.ent d m) = some i := by
  unfold naming
  rw [occ_pos]
  constructor
  · rintro ⟨⟨d, m⟩, hx, h⟩
    obtain ⟨hd, hm⟩ := mem_entSet.mp hx
    exact ⟨d, m, hd, hm, h⟩
  · rintro ⟨d, m, hd, hm, h⟩
    exact ⟨(d, m), mem_entSet.mpr ⟨hd, hm⟩, h⟩

lemma subdirs_pos : 0 < subdirs T d ↔ ∃ m < MAXENT, namesDir T (T.ent d m) = true := by
  unfold subdirs
  rw [occ_pos]
  constructor
  · rintro ⟨m, hm, h⟩
    exact ⟨m, mem_placeSet.mp hm, h⟩
  · rintro ⟨m, hm, h⟩
    exact ⟨m, mem_placeSet.mpr hm, h⟩

/-! ## Steps of the tree -/

lemma counts_add (hd : d < n) (hm : m < MAXENT) (he : T.ent d m = none) (h1 : name ≠ dot)
    (h2 : name ≠ dotdot) (j : Nat) :
    naming n (T.setEnt d m (some (i, name))) j = naming n T j + (if j = i then 1 else 0) ∧
      subdirs (T.setEnt d m (some (i, name))) j =
        subdirs T j + (if j = d ∧ T.type i = .dir then 1 else 0) := by
  constructor
  · have := naming_setEnt (T := T) (e := some (i, name)) hd hm j
    rw [he, proper_none, proper_some h1 h2, if_neg (by simp)] at this
    rw [← Nat.add_zero (naming n _ j), this]
    congr 1
    simp [eq_comm]
  · by_cases hj : j = d
    · subst hj
      have := subdirs_setEnt_self (T := T) (d := j) (e := some (i, name)) hm
      have hiff : (namesDir T (some (i, name)) = true) = (T.type i = .dir) := by
        rw [namesDir_iff, proper_some h1 h2]
        simp
      rw [he, if_neg (by simp [namesDir]), Nat.add_zero] at this
      rw [this]
      simp only [hiff, true_and]
    · rw [subdirs_setEnt_ne hj, if_neg fun h => hj h.1, Nat.add_zero]

lemma counts_remove (hd : d < n) (hm : m < MAXENT) (he : T.ent d m = some (i, name))
    (h1 : name ≠ dot) (h2 : name ≠ dotdot) (j : Nat) :
    naming n (T.setEnt d m none) j + (if j = i then 1 else 0) = naming n T j ∧
      subdirs (T.setEnt d m none) j + (if j = d ∧ T.type i = .dir then 1 else 0) =
        subdirs T j := by
  constructor
  · have := naming_setEnt (T := T) (e := none) hd hm j
    rw [he, proper_none, proper_some h1 h2, if_neg (c := none = some j) (by simp)] at this
    rw [Nat.add_zero] at this
    rw [← this]
    congr 1
    simp [eq_comm]
  · by_cases hj : j = d
    · subst hj
      have := subdirs_setEnt_self (T := T) (d := j) (e := none) hm
      have hiff : (namesDir T (some (i, name)) = true) = (T.type i = .dir) := by
        rw [namesDir_iff, proper_some h1 h2]
        simp
      rw [he, if_neg (c := namesDir T none = true) (by simp [namesDir]), Nat.add_zero] at this
      rw [← this]
      simp only [hiff, true_and]
    · rw [subdirs_setEnt_ne hj, if_neg fun h => hj h.1, Nat.add_zero]

lemma counts_new (hnone : ∀ m, T.ent i m = none)
    (hno : ∀ d m, proper (T.ent d m) ≠ some i)
    (htype : ∀ j, j ≠ i → T'.type j = T.type j) (hent : ∀ j, j ≠ i → T'.ent j = T.ent j)
    (hself : ∀ m, proper (T'.ent i m) = none) (j : Nat) :
    naming n T' j = naming n T j ∧ subdirs T' j = subdirs T j := by
  have hproper : ∀ d m, proper (T'.ent d m) = proper (T.ent d m) := by
    intro d m
    by_cases hd : d = i
    · subst hd
      rw [hself, hnone, proper_none]
    · rw [hent d hd]
  refine ⟨naming_congr hproper j, subdirs_congr fun m => ?_⟩
  rw [Bool.eq_iff_iff, namesDir_iff, namesDir_iff, hproper]
  refine exists_congr fun k => and_congr_right fun hk => ?_
  rw [htype k]
  rintro rfl
  exact hno j m hk

end xv6.fs
