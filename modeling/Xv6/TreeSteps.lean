-- What a system call may do to the directory tree, and the pieces of the calls
-- that change it.
import Xv6.Names

open bytes ownership wp Function List

namespace xv6.fs

variable {sb : Superblock} {s t u : Fs} {r : Nat → Nat} {ts : List Nat} {k dp : Nat}
  {E : Stop → Prop} {xs xs' : List Nat} {T T' : Tree}

/-! ## Steps of the tree -/

/-- The last reference to inode `i` went: an inode without links is free then. -/
def Dropped (i : Nat) (T T' : Tree) : Prop :=
  T' = T ∨ T.type i ≠ .free ∧ T.nlink i = 0 ∧ T' = T.free i

/-- Entry `m` of directory `d`, which names `i`, is gone. A directory `i` takes a link of `d`
with it. -/
def Tree.clearEnt (T : Tree) (d m i : Nat) : Tree :=
  let T1 := T.setEnt d m none
  if T1.type i = .dir then T1.setNlink d (short (T1.nlink d - 1)) else T1

/-- The entry is gone, and the link that `i` had by it. -/
def Tree.unlinked (T : Tree) (d m i : Nat) : Tree :=
  (T.clearEnt d m i).setNlink i (short ((T.clearEnt d m i).nlink i - 1))

/-- The new directory `i`, with its entries for itself and for `d`. -/
def Tree.newDir (T : Tree) (d i : Nat) : Tree :=
  (((T.alloc i .dir).setNlink i 1).setEnt i 0 (some (i, dot))).setEnt i 1 (some (d, dotdot))

/-- The changes of the tree that one system call makes. -/
inductive TreeStep (n : Nat) : Tree → Tree → Prop
  | same (T : Tree) : TreeStep n T T
  | drop {T T' : Tree} (i : Nat) : Dropped i T T' → TreeStep n T T'
  | link {T : Tree} {d m i : Nat} {name : Name} : T.type d = .dir → T.ent d m = none →
      T.Lacks d name → T.type i ≠ .free → T.type i ≠ .dir →
      TreeStep n T ((T.setNlink i (short (T.nlink i + 1))).setEnt d m (some (i, name)))
  | create {T : Tree} {d m i : Nat} {name : Name} {type : FileType} : T.type d = .dir →
      T.ent d m = none → T.Lacks d name → T.type i = .free → 0 < i → i < n →
      type = .file ∨ type = .device →
      TreeStep n T (((T.alloc i type).setNlink i 1).setEnt d m (some (i, name)))
  | mkdir {T : Tree} {d m i : Nat} {name : Name} : T.type d = .dir → T.ent d m = none →
      T.Lacks d name → T.type i = .free → 0 < i → i < n →
      TreeStep n T (((T.newDir d i).setEnt d m (some (i, name))).setNlink d
        (short (T.nlink d + 1)))
  | unlink {T T' T'' : Tree} {d m i : Nat} {name : Name} : T.type d = .dir →
      T.ent d m = some (i, name) → name ≠ dot → name ≠ dotdot → T.type i ≠ .free →
      1 ≤ T.nlink i → (T.type i = .dir → ∀ x, 2 ≤ x → T.ent i x = none) →
      Dropped d (T.unlinked d m i) T' → Dropped i T' T'' → TreeStep n T T''

/-! ## A call in the middle of its changes -/

/-- The tree is `T`; only the inodes `xs` may have neither links nor holders. -/
structure Busy (r : Nat → Nat) (xs : List Nat) (T : Tree) (s : Fs) : Prop where
  tree_eq : tree s = T
  held : HeldOK r xs s
  slots : SlotsOK s

lemma Sound.busy (h : Sound r s) : Busy r [] (tree s) s := ⟨rfl, h.held, h.slots⟩

lemma Busy.sound (h : Busy r [] T s) (hc : T.Closed) (hroot : T.type ROOTINO ≠ .free) :
    Sound r s :=
  ⟨by rw [h.tree_eq]; exact hc, h.held, by rw [h.tree_eq]; exact hroot, h.slots⟩

lemma Busy.change (h : Busy r xs T s) (hb : Base sb r ts s) (hb' : Base sb r ts t)
    (hst : Steady r ts s t) (htree : tree t = T') (htype : T'.type = T.type)
    (hxs : ∀ x ∈ xs, x ∈ xs')
    (hn : ∀ i, T'.nlink i ≠ T.nlink i → (T'.nlink i ≠ 0 ∨ i ∈ xs') ∧
      ∃ k, Held r ts k ∧ (s.itable k).inum = i ∧ (s.itable k).valid = true) :
    Busy r xs' T' t := by
  refine ⟨htree, ?_, ?_⟩
  · intro i hi h0
    rw [htree] at hi h0
    by_cases hsame : T'.nlink i = T.nlink i
    · rw [htype] at hi
      rw [hsame] at h0
      rw [← h.tree_eq] at hi h0
      rcases h.held i hi h0 with ⟨k, hk, hr, hki⟩ | hx
      · exact .inl ⟨k, hk, hr, (hst k ⟨hk, .inl hr⟩).1.trans hki⟩
      · exact .inr (hxs i hx)
    · exact .inr ((hn i hsame).1.resolve_left fun hne => hne h0)
  · intro j hj hpos
    have hheld := hb'.held_of_ref hj hpos
    have hold := h.slots.of_held hb hheld (hst j hheld)
    rw [h.tree_eq] at hold
    rw [htree]
    refine ⟨by rw [htype]; exact hold.1, fun hf => ?_⟩
    by_cases hsame : T'.nlink (t.itable j).inum = T.nlink (t.itable j).inum
    · rw [hsame]
      exact hold.2 hf
    · obtain ⟨_, k, hk, hki, hv⟩ := hn _ hsame
      rw [(hst j hheld).1] at hki
      have := hb.distinct k hk.1 j hj (hk.ref_pos hb) (hheld.ref_pos hb) hki
      subst this
      rw [(hst k hk).2 hv] at hf
      cases hf

lemma Busy.setNlink (h : Busy r xs T s) (hb : Base sb r ts s) (hk : Held r ts k)
    (hv : (s.itable k).valid = true) (major minor n : Int) :
    Busy r ((s.itable k).inum :: xs) (T.setNlink (s.itable k).inum n) (setMeta k major minor n s) ∧
      (n ≠ 0 → Busy r xs (T.setNlink (s.itable k).inum n) (setMeta k major minor n s)) := by
  obtain ⟨hs, ht⟩ := hb.synced k hk.1 (hk.ref_pos hb) hv
  obtain ⟨hb', hst⟩ := hb.setMeta hk hv major minor n
  have htree : tree (setMeta k major minor n s) = T.setNlink (s.itable k).inum n := by
    rw [tree_setMeta hs ht, h.tree_eq]
  have hself : ∀ i, (T.setNlink (s.itable k).inum n).nlink i ≠ T.nlink i →
      i = (s.itable k).inum := by
    intro i hi
    by_contra hne
    exact hi (by simp [Tree.setNlink, hne])
  constructor
  · refine h.change hb hb' hst htree rfl (fun x hx => mem_cons_of_mem _ hx) ?_
    intro i hi
    rw [hself i hi]
    exact ⟨.inr mem_cons_self, k, hk, rfl, hv⟩
  · intro hn
    refine h.change hb hb' hst htree rfl (fun _ hx => hx) ?_
    intro i hi
    rw [hself i hi]
    exact ⟨.inl (by simpa [Tree.setNlink] using hn), k, hk, rfl, hv⟩

lemma Freed.nlink_of_last {i : Nat} (hf : Freed i s t) (hn : (s.dinode i).nlink = 0) :
    (tree s).type i ≠ .free ∧ (tree s).nlink i = 0 := by
  refine ⟨hf.was, ?_⟩
  simp [tree, hn]

section

variable (h : Busy r xs T s) (hb : Base sb r (k :: ts) s) (hb' : Base sb r ts t)
  (hst : Steady r ts s t)
  (hcase : Lookup s t ∧ ¬ Last r ts k s ∨ Last r ts k s ∧ Freed (s.itable k).inum s t)
include h hb hb' hst hcase

lemma Busy.iput
    (hkts : k ∉ ts) (hxs : ∀ x ∈ xs, x ≠ (s.itable k).inum → x ∈ xs') :
    ∃ T', Dropped (s.itable k).inum T T' ∧ Busy r xs' T' t := by
  have hk := hb.temps k mem_cons_self
  have hpos := (held_temp hb mem_cons_self).ref_pos hb
  rcases hcase with ⟨hl, hnot⟩ | ⟨hlast, hf⟩
  · have htree := tree_lookup hl
    refine ⟨T, .inl rfl, htree.trans h.tree_eq, ?_, h.slots.put hb hb' htree hst⟩
    intro i hi hn
    rcases h.held.step htree hst i hi hn with hheld | hx
    · exact .inl hheld
    by_cases hik : i = (s.itable k).inum
    · -- without links the inode is read, so only a holder keeps `iput` from freeing it
      rw [htree] at hn
      have hv : (s.itable k).valid = true := by
        by_contra hne
        refine (h.slots k hk hpos).2 (by simpa using hne) ?_
        rw [← hik]
        exact hn
      obtain ⟨hs, ht⟩ := hb.synced k hk hpos hv
      have hn' : (s.dinode (s.itable k).inum).nlink = 0 := by
        rw [hik] at hn
        simpa [tree, ← hs.type, ht] using hn
      have hr : 0 < r k := by
        by_contra hr0
        exact hnot ⟨by omega, hkts, hv, hn'⟩
      exact .inl ⟨k, hk, hr, by rw [hik]; exact (hst k ⟨hk, .inl hr⟩).1⟩
    · exact .inr (hxs i hx hik)
  · obtain ⟨h1, h2⟩ := hf.nlink_of_last hlast.2.2.2
    have htree := tree_freed hf
    have hne : ∀ j, Held r ts j → (t.itable j).inum ≠ (s.itable k).inum := by
      intro j hj he
      rw [(hst j hj).1] at he
      have hjpos := (hj.mono fun x hx => mem_cons_of_mem _ hx).ref_pos hb
      have := hb.distinct j hj.1 k hk hjpos hpos he
      subst this
      rcases hj.2 with hr | hm
      · have := hlast.1
        omega
      · exact hkts hm
    refine ⟨T.free (s.itable k).inum, .inr ⟨by rw [← h.tree_eq]; exact h1,
      by rw [← h.tree_eq]; exact h2, rfl⟩, by rw [htree, h.tree_eq], ?_, ?_⟩
    · intro i hi hn
      rw [htree] at hi hn
      have hik : i ≠ (s.itable k).inum := by
        rintro rfl
        simp [Tree.free, Tree.alloc] at hi
      simp only [Tree.free, Tree.alloc, update_of_ne hik] at hi hn
      rcases h.held i hi hn with ⟨j, hj, hr, hji⟩ | hx
      · exact .inl ⟨j, hj, hr, (hst j ⟨hj, .inl hr⟩).1.trans hji⟩
      · exact .inr (hxs i hx hik)
    · intro j hj hjpos
      have hheld := hb'.held_of_ref hj hjpos
      have hok := h.slots.of_held hb (hheld.mono fun x hx => mem_cons_of_mem _ hx)
        (hst j hheld)
      rw [htree]
      unfold SlotOK Tree.free Tree.alloc
      dsimp only
      rw [update_of_ne (hne j hheld), update_of_ne (hne j hheld)]
      exact hok

lemma Busy.iput_again
    (hkts : k ∈ ts) : Busy r xs T t := by
  rcases hcase with ⟨hl, _⟩ | ⟨hlast, _⟩
  · have htree := tree_lookup hl
    exact ⟨htree.trans h.tree_eq, h.held.step htree hst, h.slots.put hb hb' htree hst⟩
  · exact absurd hkts hlast.2.1

lemma Busy.iput_quiet
    (hx : (s.itable k).inum ∉ xs) : Busy r xs T t := by
  rcases hcase with ⟨hl, _⟩ | ⟨hlast, _⟩
  · have htree := tree_lookup hl
    exact ⟨htree.trans h.tree_eq, h.held.step htree hst, h.slots.put hb hb' htree hst⟩
  · exact absurd hlast (h.held.not_last hb hx)

end

/-! ## `dirlink` and the tree -/

def SameTables (s t : Fs) : Prop := t.ftable = s.ftable ∧ t.proc = s.proc

lemma SameTables.trans (h : SameTables s t) (h' : SameTables t u) : SameTables s u :=
  ⟨h'.1.trans h.1, h'.2.trans h.2⟩

lemma Moved.tables (h : Moved r ts s t) : SameTables s t := ⟨h.ftable, h.proc⟩

lemma tables_of_put
    (hcase : Lookup s t ∧ ¬ Last r ts k s ∨ Last r ts k s ∧ Freed (s.itable k).inum s t) :
    SameTables s t := by
  rcases hcase with ⟨hl, _⟩ | ⟨_, hf⟩
  · exact ⟨hl.ftable, hl.proc⟩
  · exact ⟨hf.ftable, hf.proc⟩

lemma Base.ent_none (h : Base sb r ts s) (hk : Held r ts dp) (hv : (s.itable dp).valid = true)
    {m : Nat} (hm : DIRENT * m = (s.itable dp).size ∨ DIRENT * m + DIRENT ≤ (s.itable dp).size ∧
      (entryAt s (s.itable dp).inum m).inum = 0) :
    (tree s).ent (s.itable dp).inum m = none := by
  obtain ⟨hs, _⟩ := h.synced dp hk.1 (hk.ref_pos h) hv
  have hD : 0 < DIRENT := by decide
  simp only [tree, ← hs.size]
  rw [if_neg]
  rintro ⟨_, h1, h2⟩
  rcases hm with hm | ⟨_, h0⟩
  · omega
  · exact h2 h0

lemma Sound.setEnt (h : Sound r s) (hb : Base sb r ts s) (hb' : Base sb r ts t)
    (hst : Steady r ts s t) {d m i : Nat} {name : Name}
    (htree : tree t = (tree s).setEnt d m (some (i, name))) (hi : (tree s).type i ≠ .free) :
    Sound r t := by
  have hbusy : Busy r [] ((tree s).setEnt d m (some (i, name))) t :=
    h.busy.change hb hb' hst htree rfl (fun _ hx => hx) fun i hne => absurd rfl hne
  refine hbusy.sound ?_ h.root
  intro d' m' e he
  simp only [Tree.setEnt] at he ⊢
  by_cases hd : d' = d
  · subst hd
    rw [update_self] at he
    by_cases hm : m' = m
    · subst hm
      rw [update_self, Option.some.injEq] at he
      rw [← he]
      exact hi
    · rw [update_of_ne hm] at he
      exact h.closed _ _ _ he
  · rw [update_of_ne hd] at he
    exact h.closed _ _ _ he

/-- The entry that `dirlink` makes in the directory of `dp`. -/
structure Linked (r : Nat → Nat) (dp m inum : Nat) (name : Name) (s t : Fs) : Prop where
  free : (tree s).ent (s.itable dp).inum m = none
  lacks : (tree s).Lacks (s.itable dp).inum name
  place : DIRENT * m ≤ (s.itable dp).size
  types : ∀ j, (t.itable j).type = (s.itable j).type
  kept : ∀ j, j ≠ (s.itable dp).inum → KeptFile j s t
  size : inum < 65536 → (t.itable dp).size = max (s.itable dp).size (DIRENT * m + DIRENT)
  tree_eq : 0 < inum → inum < 65536 →
    tree t = (tree s).setEnt (s.itable dp).inum m (some (inum, name))
  sound : 0 < inum → inum < 65536 → Sound r s → (tree s).type inum ≠ .free → Sound r t

lemma wp_dirlink_tree (h : Base sb r ts s) (hk : Held r ts dp)
    (hv : (s.itable dp).valid = true) (hdir : (s.itable dp).type = .dir) (hE : Tolerates E)
    {name : Name} (hname : GoodName name) (inum : Nat) :
    Wp (dirlink sb dp name inum) (fun x t => Base sb r ts t ∧ Steady r ts s t ∧ SameTables s t ∧
      (x = -1 ∧ (Sound r s → Unchanged s t ∧ Sound r t) ∨
        x = 0 ∧ ∃ m, Linked r dp m inum name s t)) E s := by
  obtain ⟨hs, _⟩ := h.synced dp hk.1 (hk.ref_pos h) hv
  refine (wp_dirlink h hk hv (fun hne => absurd hdir hne) (.inr (hE _ (by decide)))
    (hE _ (by decide)) (.inr (hE _ (by decide))) hname inum).imp ?_
  rintro x t ⟨hb, hst, ⟨rfl, k, m, u, hfits, hn, hbu, hl, hsu, hg, hut, hcase⟩ | ⟨hno, hw, hx⟩⟩
  · refine ⟨hb, hst, SameTables.trans ⟨hl.ftable, hl.proc⟩ (tables_of_put hcase),
      Or.inl ⟨rfl, ?_⟩⟩
    intro hsound
    have hent := h.ent_of_names hk hv hdir hfits hn
    have hu : Sound r u := by
      refine hsound.step h hbu (tree_lookup hl) hsu ?_
      intro j hj hjt
      rcases mem_cons.mp hj with rfl | hj
      · exact hsound.got h (hbu.temps _ mem_cons_self) (hsound.closed _ _ _ hent) hg
      · exact absurd hj hjt
    have hbusy := hu.busy.iput_quiet hbu hb hut hcase (by simp)
    have hlast := hg.not_last h (hbu.temps k mem_cons_self)
    have hput : Lookup u t := (hcase.resolve_right fun hf => hlast hf.1).1
    exact ⟨(hl.trans hput).unchanged, hbusy.sound hu.closed hu.root⟩
  · refine ⟨hb, hst, ⟨hw.ftable, hw.proc⟩, ?_⟩
    rcases hx with ⟨rfl, m, hset, hm⟩ | ⟨rfl, hsame⟩
    · have hle : DIRENT * m ≤ (s.itable dp).size := by
        rcases hm with hm | ⟨hm, _⟩
        · omega
        · omega
      have htree : 0 < inum → inum < 65536 →
          tree t = (tree s).setEnt (s.itable dp).inum m (some (inum, name)) := by
        intro h0 h1
        rw [tree_setEntry h.owned hs hdir hw hle (hset h1)]
        simp [Dirent.toEnt, Nat.ne_of_gt h0]
      have htypes : ∀ j, (t.itable j).type = (s.itable j).type := by
        intro j
        by_cases hj : j = dp
        · obtain ⟨addrs, size, hself⟩ := hw.self
          rw [hj, hself]
        · rw [hw.others j hj]
      exact .inr ⟨rfl, m, h.ent_none hk hv hm, h.lacks hk hv hno, hle, htypes,
        fun j hj => (hw.sameFile h.owned hj).kept, fun h1 => (hset h1).size, htree,
        fun h0 h1 hsound hi => hsound.setEnt h hb hst (htree h0 h1) hi⟩
    · refine .inl ⟨rfl, fun hsound => ?_⟩
      have htree := tree_sameEntries h.owned hs hw hsame
      exact ⟨⟨htree, hsame.kept h.owned hs hw⟩, hsound.step h hb htree hst fun j hj hjt => absurd hj hjt⟩

end xv6.fs
