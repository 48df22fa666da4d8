-- The directory tree that the disk holds: which inodes are in use, their link
-- counts, and the entries of the directories. Each change that the inode layer
-- makes to the disk is one change of the tree, or none.
import Xv6.Directory

open bytes ownership wp Function

namespace xv6.fs

/-! ## Trees -/

/-- The inodes by number. A free inode has no links and no entries; entry `m` of a
directory is the number and the name that it holds. -/
@[ext] structure Tree where
  type : Nat → FileType
  nlink : Nat → Int
  ent : Nat → Nat → Option (Nat × Name)

def Tree.setNlink (t : Tree) (i : Nat) (n : Int) : Tree :=
  { t with nlink := update t.nlink i n }

def Tree.setEnt (t : Tree) (d m : Nat) (e : Option (Nat × Name)) : Tree :=
  { t with ent := update t.ent d (update (t.ent d) m e) }

/-- Inode `i` starts anew with the type, without links and entries. -/
def Tree.alloc (t : Tree) (i : Nat) (type : FileType) : Tree where
  type := update t.type i type
  nlink := update t.nlink i 0
  ent := update t.ent i fun _ => none

def Tree.free (t : Tree) (i : Nat) : Tree := t.alloc i .free

/-- The tree on the disk. -/
def tree (s : Fs) : Tree where
  type := fun i => (s.dinode i).type
  nlink := fun i => if (s.dinode i).type = .free then 0 else (s.dinode i).nlink
  ent := fun d m =>
    if (s.dinode d).type = .dir ∧ DIRENT * m + DIRENT ≤ (s.dinode d).size ∧
        (entryAt s d m).inum ≠ 0 then
      some ((entryAt s d m).inum, (entryAt s d m).name)
    else
      none

variable {sb : Superblock} {s t : Fs} {k : Nat}

attribute [local simp] Tree.alloc Tree.setNlink Tree.free

/-! ## Files that do not change -/

/-- Inode `j` is the same in `t` as in `s`, with the bytes of its file. -/
structure SameFile (j : Nat) (s t : Fs) : Prop where
  dinode : t.dinode j = s.dinode j
  bytes : (s.dinode j).type ≠ .free → ∀ x < (s.dinode j).size, byteAt t j x = byteAt s j x

variable {i j : Nat}

lemma SameFile.entryAt (h : SameFile j s t) (ht : (s.dinode j).type ≠ .free) {m : Nat}
    (hm : DIRENT * m + DIRENT ≤ (s.dinode j).size) : entryAt t j m = entryAt s j m := by
  unfold fs.entryAt
  congr 1
  exact bytesOf_congr fun x _ hx => h.bytes ht x (by omega)

lemma SameFile.ent (h : SameFile j s t) : (tree t).ent j = (tree s).ent j := by
  funext m
  simp only [tree, h.dinode]
  by_cases hd : (s.dinode j).type = .dir ∧ DIRENT * m + DIRENT ≤ (s.dinode j).size
  · rw [h.entryAt (by rw [hd.1]; decide) hd.2]
  · have hno : ∀ P : Prop, ¬ ((s.dinode j).type = .dir ∧
        DIRENT * m + DIRENT ≤ (s.dinode j).size ∧ P) := fun P hp => hd ⟨hp.1, hp.2.1⟩
    rw [if_neg (hno _), if_neg (hno _)]

lemma tree_eq_of_others {T : Tree} (h : ∀ j, j ≠ i → SameFile j s t)
    (hT : ∀ j, j ≠ i → T.type j = (tree s).type j ∧ T.nlink j = (tree s).nlink j ∧
      T.ent j = (tree s).ent j)
    (hi : (tree t).type i = T.type i ∧ (tree t).nlink i = T.nlink i ∧ (tree t).ent i = T.ent i) :
    tree t = T := by
  ext1
  · funext j
    by_cases hj : j = i
    · rw [hj]
      exact hi.1
    · rw [(hT j hj).1]
      exact congrArg Dinode.type (h j hj).dinode
  · funext j
    by_cases hj : j = i
    · rw [hj]
      exact hi.2.1
    · rw [(hT j hj).2.1]
      simp only [tree, (h j hj).dinode]
  · funext j
    by_cases hj : j = i
    · rw [hj]
      exact hi.2.2
    · rw [(hT j hj).2.2]
      exact (h j hj).ent

lemma tree_lookup (h : Lookup s t) : tree t = tree s := by
  have hfile : ∀ j, SameFile j s t := by
    intro j
    refine ⟨by rw [h.dinode], fun _ x _ => ?_⟩
    unfold byteAt blockOf
    rw [h.refAt, h.data]
  apply tree_eq_of_others (i := 0) (fun j _ => hfile j) (fun j _ => ⟨rfl, rfl, rfl⟩)
  refine ⟨?_, ?_, (hfile 0).ent⟩
  · simp only [tree, h.dinode]
  · simp only [tree, h.dinode]

lemma sameFile_of_data (hd : t.dinode j = s.dinode j) (hdata : t.data = s.data) :
    SameFile j s t := by
  refine ⟨hd, fun _ x _ => ?_⟩
  unfold byteAt blockOf refAt
  rw [hd, hdata]

lemma tree_freed (h : Freed i s t) : tree t = (tree s).free i := by
  obtain ⟨d, hd, hdin⟩ := h.dinode
  apply tree_eq_of_others (i := i)
  · intro j hj
    exact sameFile_of_data (by rw [hdin, update_of_ne hj]) h.data
  · intro j hj
    simp [hj]
  · refine ⟨?_, ?_, ?_⟩
    · simp [tree, hdin, hd]
    · simp [tree, hdin, hd]
    · funext m
      simp [tree, hdin, hd]

lemma tree_created {type : FileType} (h : Created type i s t) :
    tree t = (tree s).alloc i type := by
  apply tree_eq_of_others (i := i)
  · intro j hj
    exact sameFile_of_data (by rw [h.dinode, update_of_ne hj]) h.data
  · intro j hj
    simp [hj]
  · refine ⟨?_, ?_, ?_⟩
    · simp [tree, h.dinode, newInode]
    · simp [tree, h.dinode, newInode]
    · funext m
      simp [tree, h.dinode, newInode, DIRENT]

lemma tree_setMeta (hs : Synced s k) (ht : (s.itable k).type ≠ .free) (major minor nlink : Int) :
    tree (setMeta k major minor nlink s) = (tree s).setNlink (s.itable k).inum nlink := by
  have hbyte : ∀ j x, byteAt (setMeta k major minor nlink s) j x = byteAt s j x := by
    intro j x
    unfold byteAt blockOf
    rw [refAt_setMeta hs]
    rfl
  have htd : (s.dinode (s.itable k).inum).type ≠ .free := by
    rw [← hs.type]
    exact ht
  apply tree_eq_of_others (i := (s.itable k).inum)
  · intro j hj
    exact ⟨by rw [setMeta_dinode, update_of_ne hj], fun _ x _ => hbyte j x⟩
  · intro j hj
    simp [hj]
  · refine ⟨?_, ?_, ?_⟩
    · simp [tree, setMeta_dinode, hs.type]
    · simp [tree, setMeta_dinode, ht]
    · funext m
      have hent : entryAt (setMeta k major minor nlink s) (s.itable k).inum m =
          entryAt s (s.itable k).inum m := by
        unfold entryAt
        congr 1
        exact bytesOf_congr fun x _ _ => hbyte _ x
      simp [tree, setMeta_dinode, hs.type, hs.size, hent]

/-! ## Writing -/

lemma Wrote.sameFile (h : Owned sb s) (hw : Wrote k s t) (hj : j ≠ (s.itable k).inum) :
    SameFile j s t := by
  refine ⟨by rw [hw.dinode, update_of_ne hj], ?_⟩
  intro hfree x hx
  have hne : blockOf s j (x / BSIZE) ≠ 0 := by
    apply h.holes j hfree
    have := Nat.div_mul_le_self x BSIZE
    omega
  obtain ⟨h1, h2⟩ := hw.files (j, placeOf (x / BSIZE)) hj hne
  unfold byteAt
  unfold blockOf at hne ⊢
  rw [h1, h2 (placeOf_ne _)]

lemma Wrote.self_dinode (hw : Wrote k s t) :
    ∃ addrs size, t.dinode (s.itable k).inum = { (s.itable k).toDinode with addrs, size } ∧
      (t.itable k).size = size := by
  obtain ⟨addrs, size, hself⟩ := hw.self
  refine ⟨addrs, size, ?_, by rw [hself]⟩
  rw [hw.dinode, update_self, hself]

lemma tree_wrote (h : Owned sb s) (hs : Synced s k) (hdir : (s.itable k).type ≠ .dir)
    (hw : Wrote k s t) : tree t = tree s := by
  obtain ⟨addrs, size, hself, _⟩ := hw.self_dinode
  have hd : (s.dinode (s.itable k).inum).type ≠ .dir := by
    rw [← hs.type]
    exact hdir
  apply tree_eq_of_others (i := (s.itable k).inum) (fun j hj => hw.sameFile h hj)
    (fun j _ => ⟨rfl, rfl, rfl⟩)
  refine ⟨?_, ?_, ?_⟩
  · simp [tree, hself, hs.type]
  · simp only [tree, hself, hs.type]
    rw [show (s.itable k).nlink = _ from congrArg Dinode.nlink hs]
  · funext m
    simp [tree, hself, hdir, hd]

lemma tree_sameEntries (h : Owned sb s) (hs : Synced s k) (hw : Wrote k s t)
    (he : SameEntries k s t) : tree t = tree s := by
  obtain ⟨addrs, size, hself, hsize⟩ := hw.self_dinode
  have hsz : size = (s.itable k).size := hsize.symm.trans he.1
  apply tree_eq_of_others (i := (s.itable k).inum) (fun j hj => hw.sameFile h hj)
    (fun j _ => ⟨rfl, rfl, rfl⟩)
  refine ⟨?_, ?_, ?_⟩
  · simp [tree, hself, hs.type]
  · simp only [tree, hself, hs.type]
    rw [show (s.itable k).nlink = _ from congrArg Dinode.nlink hs]
  · funext m
    simp only [tree, hself, ← hs.type, ← hs.size, hsz]
    by_cases hm : DIRENT * m + DIRENT ≤ (s.itable k).size
    · rw [he.entryAt hm]
    · simp [hm]

/-- An entry as the tree has it. -/
def Dirent.toEnt (de : Dirent) : Option (Nat × Name) :=
  if de.inum = 0 then none else some (de.inum, de.name)

lemma tree_setEntry (h : Owned sb s) (hs : Synced s k) (hdir : (s.itable k).type = .dir)
    (hw : Wrote k s t) {m : Nat} {de : Dirent} (hm : DIRENT * m ≤ (s.itable k).size)
    (he : SetEntry k m de s t) :
    tree t = (tree s).setEnt (s.itable k).inum m de.toEnt := by
  have hD : DIRENT = 16 := rfl
  obtain ⟨addrs, size, hself, hsize⟩ := hw.self_dinode
  have hsz : size = max (s.itable k).size (DIRENT * m + DIRENT) := hsize.symm.trans he.size
  apply tree_eq_of_others (i := (s.itable k).inum) (fun j hj => hw.sameFile h hj)
  · intro j hj
    simp [Tree.setEnt, hj]
  · refine ⟨?_, ?_, ?_⟩
    · simp [tree, Tree.setEnt, hself, hs.type]
    · simp only [tree, Tree.setEnt, hself, hs.type]
      rw [show (s.itable k).nlink = _ from congrArg Dinode.nlink hs]
    · funext x
      simp only [tree, Tree.setEnt, update_self, hself, hdir, ← hs.type, ← hs.size]
      by_cases hx : x = m
      · subst hx
        rw [update_self, he.entry]
        have hfits : DIRENT * x + DIRENT ≤ size := by omega
        unfold Dirent.toEnt
        by_cases h0 : de.inum = 0
        · simp [h0]
        · simp [h0, hfits]
      · rw [update_of_ne hx]
        by_cases hfits : DIRENT * x + DIRENT ≤ size
        · have hold : DIRENT * x + DIRENT ≤ (s.itable k).size := by
            rw [hsz] at hfits
            simp only [hD] at hm hfits ⊢
            omega
          rw [he.others x hx (by rw [hsize]; exact hfits)]
          simp [hfits, hold]
        · have hold : ¬ DIRENT * x + DIRENT ≤ (s.itable k).size := by omega
          simp [hfits, hold]

lemma tree_truncated (hs : Synced s k) (hdir : (s.itable k).type ≠ .dir) (ht : Truncated k s t) :
    tree t = tree s := by
  obtain ⟨addrs, _, hit⟩ := ht.itable
  have hself : t.dinode (s.itable k).inum = { (s.itable k).toDinode with addrs, size := 0 } := by
    rw [ht.dinode, update_self, hit, update_self]
  have hd : (s.dinode (s.itable k).inum).type ≠ .dir := by
    rw [← hs.type]
    exact hdir
  apply tree_eq_of_others (i := (s.itable k).inum)
  · intro j hj
    exact sameFile_of_data (by rw [ht.dinode, update_of_ne hj]) ht.data
  · exact fun j _ => ⟨rfl, rfl, rfl⟩
  · refine ⟨?_, ?_, ?_⟩
    · simp [tree, hself, hs.type]
    · simp only [tree, hself, hs.type]
      rw [show (s.itable k).nlink = _ from congrArg Dinode.nlink hs]
    · funext m
      simp [tree, hself, hdir, hd]

/-! ## Contents -/

/-- An inode in use stays in use, with the bytes of its file. -/
def KeptFile (j : Nat) (s t : Fs) : Prop :=
  (s.dinode j).type ≠ .free → (t.dinode j).type = (s.dinode j).type ∧
    (t.dinode j).size = (s.dinode j).size ∧
    ∀ x < (s.dinode j).size, byteAt t j x = byteAt s j x

lemma KeptFile.trans {u : Fs} (h : KeptFile j s t) (h' : KeptFile j t u) :
    KeptFile j s u := by
  intro hj
  obtain ⟨h1, h2, h3⟩ := h hj
  obtain ⟨h1', h2', h3'⟩ := h' (by rw [h1]; exact hj)
  refine ⟨h1'.trans h1, h2'.trans h2, fun x hx => ?_⟩
  rw [h3' x (by rw [h2]; exact hx), h3 x hx]

lemma SameFile.kept (h : SameFile j s t) : KeptFile j s t := by
  intro hj
  rw [h.dinode]
  exact ⟨rfl, rfl, h.bytes hj⟩

lemma Lookup.kept (h : Lookup s t) (j : Nat) : KeptFile j s t :=
  (sameFile_of_data (by rw [h.dinode]) h.data).kept

lemma Freed.kept (h : Freed i s t) (hj : j ≠ i) : KeptFile j s t := by
  obtain ⟨d, _, hd⟩ := h.dinode
  exact (sameFile_of_data (by rw [hd, update_of_ne hj]) h.data).kept

lemma Created.kept {type : FileType} (h : Created type i s t) (hj : j ≠ i) :
    KeptFile j s t :=
  (sameFile_of_data (by rw [h.dinode, update_of_ne hj]) h.data).kept

lemma kept_setMeta (hs : Synced s k) (major minor nlink : Int) (j : Nat) :
    KeptFile j s (setMeta k major minor nlink s) := by
  intro _
  have hbyte : ∀ x, byteAt (setMeta k major minor nlink s) j x = byteAt s j x := by
    intro x
    unfold byteAt blockOf
    rw [refAt_setMeta hs]
    rfl
  rw [setMeta_dinode]
  by_cases hj : j = (s.itable k).inum
  · subst hj
    rw [update_self]
    exact ⟨hs.type, hs.size, fun x _ => hbyte x⟩
  · rw [update_of_ne hj]
    exact ⟨rfl, rfl, fun x _ => hbyte x⟩

lemma SameEntries.kept (he : SameEntries k s t) (h : Owned sb s) (hs : Synced s k)
    (hw : Wrote k s t) (j : Nat) : KeptFile j s t := by
  by_cases hj : j = (s.itable k).inum
  · subst hj
    intro _
    obtain ⟨addrs, size, hself, hsize⟩ := hw.self_dinode
    have hsz : size = (s.itable k).size := hsize.symm.trans he.1
    rw [hself]
    refine ⟨hs.type, hsz.trans hs.size, fun x hx => he.2 x ?_⟩
    rw [hs.size]
    exact hx
  · exact (hw.sameFile h hj).kept

def Unchanged (s t : Fs) : Prop := tree t = tree s ∧ ∀ j, KeptFile j s t

lemma Lookup.unchanged (h : Lookup s t) : Unchanged s t := ⟨tree_lookup h, h.kept⟩

lemma Unchanged.trans {u : Fs} (h : Unchanged s t) (h' : Unchanged t u) : Unchanged s u :=
  ⟨h'.1.trans h.1, fun j => (h.2 j).trans (h'.2 j)⟩

end xv6.fs
