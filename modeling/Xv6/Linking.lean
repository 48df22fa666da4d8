-- The system calls that change the directory tree: `link`, `unlink`, and the
-- `create` behind `open`, `mkdir` and `mknod`. Each call makes one step of the
-- tree, and gives back the entries of the inode table that it took.
import Xv6.TreeSteps

open bytes ownership wp List

namespace xv6.fs

variable {sb : Superblock} {s t u : Fs} {r : Nat → Nat} {ts : List Nat} {k ip dp p : Nat}
  {E : Stop → Prop}

/-! ## Calls -/

/-- A sound tree with link counts that a C `short` holds, and numbers that an entry holds. -/
structure Sane (r : Nat → Nat) (s : Fs) : Prop extends Sound r s where
  nonneg : ∀ i, 0 ≤ (tree s).nlink i
  le : ∀ i, (tree s).nlink i ≤ 32767
  small : ∀ i, (tree s).type i ≠ .free → 0 < i ∧ i < 65536

/-- One step of the tree, after which every inode without links has a holder. -/
structure Outcome (n : Nat) (r : Nat → Nat) (s t : Fs) : Prop where
  step : TreeStep n (tree s) (tree t)
  held : HeldOK r [] t
  slots : SlotsOK t

/-- A call that leaves the files and the processes as they are has returned. -/
structure Done (sb : Superblock) (r : Nat → Nat) (s t : Fs) : Prop where
  base : Base sb r [] t
  steady : Steady r [] s t
  tables : SameTables s t
  outcome : Sane r s → Outcome sb.ninodes r s t

lemma outcome_of_same {n : Nat} (h : Busy r [] (tree s) t) : Outcome n r s t :=
  ⟨by rw [h.tree_eq]; exact .same _, h.held, h.slots⟩

lemma done_of_moved (hb : Base sb r [] t) (h : Moved r ts s t) : Done sb r s t := by
  refine ⟨hb, h.steady.mono (by simp), h.tables, fun hs => outcome_of_same ?_⟩
  obtain ⟨hl, ht⟩ := h.quiet hs.toSound
  rw [← tree_lookup hl]
  exact ht.busy

lemma unchanged_of_moved (h : Moved r ts s t) (hs : Sane r s) : Unchanged s t :=
  (h.quiet hs.toSound).1.unchanged

lemma short_of_le {x : Int} (h1 : -32768 ≤ x) (h2 : x ≤ 32767) : short x = x := by
  unfold short
  omega

lemma short_succ_ne {x : Int} (h1 : 0 ≤ x) (h2 : x ≤ 32767) : short (x + 1) ≠ 0 := by
  unfold short
  omega

lemma short_succ_pred {x : Int} (h1 : 0 ≤ x) (h2 : x ≤ 32767) :
    short (short (x + 1) - 1) = x := by
  unfold short
  omega

@[simp] lemma wp_setNlink_bind {α : Type} (k : Nat) (g : Inode → Int) (m : Unit → M α)
    {Q : α → Fs → Prop} :
    Wp (modifyInode k (fun x => { x with nlink := g x }) >>= fun _ => iupdate k >>= m) Q E s ↔
      Wp (m ()) Q E
        (setMeta k (s.itable k).major (s.itable k).minor (g (s.itable k)) s) := by
  rw [wp_modifyInode_bind, wp_iupdate_bind]
  exact Iff.rfl

lemma Base.nlink_eq (h : Base sb r ts s) (hk : Held r ts k) (hv : (s.itable k).valid = true) :
    (s.itable k).nlink = (tree s).nlink (s.itable k).inum := by
  obtain ⟨hs, ht⟩ := h.synced k hk.1 (hk.ref_pos h) hv
  rw [show (s.itable k).nlink = _ from congrArg Dinode.nlink hs]
  simp [tree, ← hs.type, ht]

lemma sameTables_setMeta (k : Nat) (major minor nlink : Int) (s : Fs) :
    SameTables s (setMeta k major minor nlink s) := ⟨rfl, rfl⟩

lemma Tree.setNlink_setNlink (T : Tree) (i : Nat) (a b : Int) :
    (T.setNlink i a).setNlink i b = T.setNlink i b := by
  simp [Tree.setNlink]

lemma Tree.setNlink_self (T : Tree) (i : Nat) : T.setNlink i (T.nlink i) = T := by
  simp [Tree.setNlink]

lemma Sound.restored (h : Sound r s) (hst : Steady r [] s t) {xs : List Nat}
    (hb : Busy r xs (tree s) t) : Busy r [] (tree s) t :=
  ⟨hb.tree_eq, h.held.step hb.tree_eq hst, hb.slots⟩

/-! ## `sys_link` -/

lemma wp_linkBad (h : Base sb r [ip] t) (hm : Mode r t E) (hst : Steady r [] s t)
    (htab : SameTables s t)
    (hback : Sane r s → Sound r t ∧ tree t = (tree s).setNlink (t.itable ip).inum
      (short ((tree s).nlink (t.itable ip).inum + 1)) ∧ ∀ j, KeptFile j s t) :
    Wp (linkBad ip) (fun _ u => Done sb r s u ∧ (Sane r s → Unchanged s u)) E t := by
  have hnil : ∀ x ∈ ([] : List Nat), x ∈ [ip] := by simp
  refine (wp_ilock_moved h (held_temp h mem_cons_self) hm).bind ?_
  rintro _ t1 ⟨h1, mv1, _, hv1, _⟩
  have hheld := held_temp h1 mem_cons_self
  rw [wp_setNlink_bind]
  obtain ⟨h2, hst2⟩ := h1.setMeta hheld hv1 (t1.itable ip).major (t1.itable ip).minor
    (short ((t1.itable ip).nlink - 1))
  refine (wp_iunlockput h2).bind ?_
  rintro _ t2 ⟨h3, hst3, hcase⟩
  rw [wp_pure]
  have hst2' := (hst.trans (mv1.steady.mono hnil)).trans (hst2.mono hnil)
  suffices hrest : Sane r s → Busy r [] (tree s) t2 ∧ ∀ j, KeptFile j s t2 from
    ⟨⟨h3, hst2'.trans hst3, htab.trans ((mv1.tables.trans (sameTables_setMeta ..)).trans
      (tables_of_put hcase)), fun hs => outcome_of_same (hrest hs).1⟩,
      fun hs => ⟨(hrest hs).1.tree_eq, (hrest hs).2⟩⟩
  intro hs
  obtain ⟨hsound, htree, hkept⟩ := hback hs
  obtain ⟨hl, hsound1⟩ := mv1.quiet hsound
  have hinum : (t1.itable ip).inum = (t.itable ip).inum :=
    (mv1.steady ip (held_temp h mem_cons_self)).1
  have hbusy := (hsound1.busy.setNlink h1 hheld hv1 (t1.itable ip).major (t1.itable ip).minor
    (short ((t1.itable ip).nlink - 1))).1
  have hcount : ((tree t1).setNlink (t1.itable ip).inum (short ((t1.itable ip).nlink - 1))) =
      tree s := by
    rw [h1.nlink_eq hheld hv1, tree_lookup hl, htree, hinum, Tree.setNlink_setNlink]
    conv_lhs => rw [show ((tree s).setNlink (t.itable ip).inum
      (short ((tree s).nlink (t.itable ip).inum + 1))).nlink (t.itable ip).inum =
      short ((tree s).nlink (t.itable ip).inum + 1) by simp [Tree.setNlink]]
    rw [short_succ_pred (hs.nonneg _) (hs.le _), Tree.setNlink_self]
  rw [hcount] at hbusy
  have hstill := hs.toSound.restored hst2' hbusy
  refine ⟨hstill.iput_quiet h2 h3 hst3 hcase (by simp), fun j => ?_⟩
  have hput := (hcase.resolve_right fun hf => hstill.held.not_last h2 (by simp) hf.1).1
  obtain ⟨hsync, _⟩ := h1.synced ip hheld.1 (hheld.ref_pos h1) hv1
  exact (((hkept j).trans (hl.kept j)).trans (kept_setMeta hsync _ _ _ j)).trans (hput.kept j)

/-- The second part of `sys_link`, from a state `t` in which the count is up. -/
lemma wp_linkEntry (h : Base sb r [ip] t) (hm : Sane r s ∨ E (.panic "ilock: no type"))
    (hE : Tolerates E) (hcwd : ∀ k, (t.proc p).cwd = some k → Held r [ip] k)
    (hst : Steady r [] s t) (htab : SameTables s t)
    (hback : Sane r s → Sound r t ∧ tree t = (tree s).setNlink (t.itable ip).inum
      (short ((tree s).nlink (t.itable ip).inum + 1)) ∧
      (tree s).type (t.itable ip).inum ≠ .free ∧ (tree s).type (t.itable ip).inum ≠ .dir ∧
      ∀ j, KeptFile j s t)
    (new : List UInt8) :
    Wp (linkEntry sb p ip new) (fun x u => Done sb r s u ∧
      (x = -1 → Sane r s → Unchanged s u)) E t := by
  have hnil : ∀ ts : List Nat, ∀ x ∈ ([] : List Nat), x ∈ ts := by simp
  have hheld := held_temp h mem_cons_self
  have hmode : Mode r t E := hm.imp (fun hs => (hback hs).1) id
  refine (wp_namex hE true new h hmode hcwd).bind ?_
  rintro o t1 ⟨mv1, hfound⟩
  have hi1 : (t1.itable ip).inum = (t.itable ip).inum := (mv1.steady ip hheld).1
  rcases o with _ | ⟨dp, name⟩
  · refine (wp_linkBad hfound (hmode.moved mv1) (hst.trans (mv1.steady.mono (hnil _)))
      (htab.trans mv1.tables) ?_).imp fun _ u hd => ⟨hd.1, fun _ => hd.2⟩
    intro hs
    obtain ⟨hsound, htree, _, _, hkept⟩ := hback hs
    obtain ⟨hl, hsound1⟩ := mv1.quiet hsound
    exact ⟨hsound1, by rw [tree_lookup hl, htree, hi1], fun j => (hkept j).trans (hl.kept j)⟩
  obtain ⟨h1, hpar⟩ := hfound
  obtain ⟨hvd, hdir, hname⟩ := hpar rfl
  refine (wp_ilock_moved h1 (held_temp h1 mem_cons_self) (hmode.moved mv1)).bind ?_
  rintro _ t2 ⟨h2, mv2, _, hv2, hread⟩
  have hd2 := held_temp h2 mem_cons_self
  have hip2 : Held r [dp, ip] ip := held_temp h2 (by simp)
  have hi2 : (t2.itable ip).inum = (t.itable ip).inum := (mv2.steady ip hip2).1.trans hi1
  have mv02 : Moved r [ip] t t2 := mv1.trans (mv2.mono (by simp))
  have hsame : Sane r s → Sound r t2 ∧ tree t2 = tree t ∧ ∀ j, KeptFile j t t2 := by
    intro hs
    obtain ⟨hl, hsound⟩ := mv02.quiet (hback hs).1
    exact ⟨hsound, tree_lookup hl, hl.kept⟩
  have hdir2 : (t2.itable dp).type = .dir := by
    rw [hread hvd]
    exact hdir
  rw [wp_get_bind]
  refine (wp_dirlink_tree h2 hd2 hv2 hdir2 hE hname (t2.itable ip).inum).bind ?_
  rintro x t3 ⟨h3, hst3, htab3, ⟨rfl, hfail⟩ | ⟨rfl, m, hlinked⟩⟩
  · rw [if_pos (by decide)]
    refine (wp_iunlockput h3).bind ?_
    rintro _ t4 ⟨h4, hst4, hcase⟩
    have hst04 : Steady r [ip] t t4 :=
      (mv02.steady.trans (hst3.mono (by simp))).trans hst4
    have hi4 : (t4.itable ip).inum = (t.itable ip).inum := (hst04 ip hheld).1
    have hkeep : Sane r s → Sound r t4 ∧ tree t4 = tree t ∧ ∀ j, KeptFile j t t4 := by
      intro hs
      obtain ⟨hsound2, htree2, hkept2⟩ := hsame hs
      obtain ⟨⟨htree3, hkept3⟩, hsound3⟩ := hfail hsound2
      have hbusy := hsound3.busy.iput_quiet h3 h4 hst4 hcase (by simp)
      have hput := (hcase.resolve_right fun hf => hsound3.held.not_last h3 (by simp) hf.1).1
      exact ⟨hbusy.sound hsound3.closed hsound3.root, by rw [hbusy.tree_eq, htree3, htree2],
        fun j => ((hkept2 j).trans (hkept3 j)).trans (hput.kept j)⟩
    refine (wp_linkBad h4 (hm.imp (fun hs => (hkeep hs).1) id) (hst.trans (hst04.mono (hnil _)))
      (htab.trans ((mv02.tables.trans htab3).trans (tables_of_put hcase))) ?_).imp
        fun _ u hd => ⟨hd.1, fun _ => hd.2⟩
    intro hs
    obtain ⟨hsound, htree, hkept⟩ := hkeep hs
    obtain ⟨_, hup, _, _, hkept0⟩ := hback hs
    exact ⟨hsound, by rw [htree, hup, hi4], fun j => (hkept0 j).trans (hkept j)⟩
  · rw [if_neg (by decide)]
    refine (wp_iunlockput h3).bind ?_
    rintro _ t4 ⟨h4, hst4, hcase4⟩
    refine (wp_iput h4).bind ?_
    rintro _ t5 ⟨h5, hst5, hcase5⟩
    rw [wp_pure]
    have hst05 : Steady r [] t t5 := (mv02.steady.mono (hnil _)).trans
      ((hst3.mono (hnil _)).trans ((hst4.mono (hnil _)).trans hst5))
    refine ⟨⟨h5, hst.trans hst05, ((htab.trans (mv02.tables.trans htab3)).trans
      (tables_of_put hcase4)).trans (tables_of_put hcase5), fun hs => ?_⟩, fun h0 => by cases h0⟩
    obtain ⟨_, htree, htype, hndir, _⟩ := hback hs
    obtain ⟨hsound2, htree2, _⟩ := hsame hs
    have hsmall := hs.small _ htype
    rw [← hi2] at hsmall htype hndir
    have htype2 : (tree t2).type (t2.itable ip).inum ≠ .free := by
      rw [htree2, htree]
      exact htype
    have hsound3 := hlinked.sound hsmall.1 hsmall.2 hsound2 htype2
    have hbusy := (hsound3.busy.iput_quiet h3 h4 hst4 hcase4 (by simp)).iput_quiet h4 h5 hst5
      hcase5 (by simp)
    refine ⟨?_, hbusy.held, hbusy.slots⟩
    have hd : (tree t2).type (t2.itable dp).inum = .dir := by
      rw [← h2.type_eq hd2 hv2]
      exact hdir2
    have hfree := hlinked.free
    have hlacks := hlinked.lacks
    rw [hbusy.tree_eq, hlinked.tree_eq hsmall.1 hsmall.2]
    rw [htree2, htree, ← hi2] at hd hfree hlacks ⊢
    exact .link hd hfree hlacks htype hndir

lemma wp_sys_link (h : Base sb r [] s) (hm : Sane r s ∨ E (.panic "ilock: no type"))
    (hE : Tolerates E) (hcwd : ∀ k, (s.proc p).cwd = some k → Held r [] k)
    (old new : List UInt8) :
    Wp (sys_link sb p old new) (fun x t => Done sb r s t ∧
      (x = -1 → Sane r s → Unchanged s t)) E s := by
  have hnil : ∀ k : Nat, ∀ x ∈ ([] : List Nat), x ∈ [k] := by simp
  have hm0 : Mode r s E := hm.imp Sane.toSound id
  refine (wp_namei hE old h hm0 hcwd).bind ?_
  rintro o s1 ⟨mv1, hfound⟩
  rcases o with _ | ip
  · rw [wp_pure]
    exact ⟨done_of_moved hfound mv1, fun _ => unchanged_of_moved mv1⟩
  refine (wp_ilock_moved hfound (held_temp hfound mem_cons_self) (hm0.moved mv1)).bind ?_
  rintro _ s2 ⟨h2, mv2, _, hv2, _⟩
  have mv12 : Moved r [] s s2 := mv1.trans (mv2.mono (hnil ip))
  have hheld2 := held_temp h2 mem_cons_self
  rw [wp_get_bind]
  apply wp_ite <;> intro hdir
  · refine (wp_iunlockput_moved h2).bind ?_
    rintro _ t ⟨hb, mv⟩
    rw [wp_pure]
    exact ⟨done_of_moved hb (mv12.trans mv), fun _ => unchanged_of_moved (mv12.trans mv)⟩
  rw [wp_setNlink_bind]
  obtain ⟨h3, hst3⟩ := h2.setMeta hheld2 hv2 (s2.itable ip).major (s2.itable ip).minor
    (short ((s2.itable ip).nlink + 1))
  have hheld3 := held_temp h3 mem_cons_self
  have hback : Sane r s → Sound r (setMeta ip (s2.itable ip).major (s2.itable ip).minor
        (short ((s2.itable ip).nlink + 1)) s2) ∧
      tree (setMeta ip (s2.itable ip).major (s2.itable ip).minor
        (short ((s2.itable ip).nlink + 1)) s2) = (tree s).setNlink (s2.itable ip).inum
          (short ((tree s).nlink (s2.itable ip).inum + 1)) ∧
      (tree s).type (s2.itable ip).inum ≠ .free ∧ (tree s).type (s2.itable ip).inum ≠ .dir ∧
      ∀ j, KeptFile j s (setMeta ip (s2.itable ip).major (s2.itable ip).minor
        (short ((s2.itable ip).nlink + 1)) s2) := by
    intro hs
    obtain ⟨hl, hsound⟩ := mv12.quiet hs.toSound
    have htree := tree_lookup hl
    have hn : (s2.itable ip).nlink = (tree s).nlink (s2.itable ip).inum := by
      rw [h2.nlink_eq hheld2 hv2, htree]
    have hne : short ((s2.itable ip).nlink + 1) ≠ 0 := by
      rw [hn]
      exact short_succ_ne (hs.nonneg _) (hs.le _)
    have hbusy := (hsound.busy.setNlink h2 hheld2 hv2 (s2.itable ip).major (s2.itable ip).minor
      (short ((s2.itable ip).nlink + 1))).2 hne
    have htype := h2.type_eq hheld2 hv2
    rw [htree] at htype
    obtain ⟨hsync, _⟩ := h2.synced ip hheld2.1 (hheld2.ref_pos h2) hv2
    refine ⟨hbusy.sound hsound.closed hsound.root, ?_, ?_, by rw [← htype]; exact hdir,
      fun j => (hl.kept j).trans (kept_setMeta hsync _ _ _ j)⟩
    · rw [hbusy.tree_eq, htree, hn]
    · rw [← htree]
      exact (hsound.slots ip hheld2.1 (hheld2.ref_pos h2)).1
  generalize hs3 : setMeta ip (s2.itable ip).major (s2.itable ip).minor
    (short ((s2.itable ip).nlink + 1)) s2 = s3 at *
  have htab3 : SameTables s s3 := by
    rw [← hs3]
    exact mv12.tables.trans (sameTables_setMeta ..)
  have hst03 : Steady r [] s s3 := mv12.steady.trans (hst3.mono (hnil ip))
  have hi3 : (s3.itable ip).inum = (s2.itable ip).inum := (hst3 ip hheld2).1
  refine (wp_iunlock h3 hheld3).bind ?_
  rintro _ _ rfl
  refine wp_linkEntry h3 hm hE ?_ hst03 htab3 ?_ new
  · intro k hk
    rw [htab3.2] at hk
    exact (hcwd k hk).mono (hnil ip)
  · rw [hi3]
    exact hback

/-! ## `sys_unlink` -/

lemma Busy.mono {xs xs' : List Nat} {T : Tree} (h : Busy r xs T s) (hxs : ∀ x ∈ xs, x ∈ xs') :
    Busy r xs' T s :=
  ⟨h.tree_eq, fun i hi hn => (h.held i hi hn).imp id (hxs i), h.slots⟩

lemma wp_unlinkParent (h : Base sb r ts s) (hd : Held r ts dp) (hi : Held r ts ip)
    (hvd : (s.itable dp).valid = true) (hvi : (s.itable ip).valid = true) :
    Wp (unlinkParent dp ip) (fun _ t => Base sb r ts t ∧ Steady r ts s t ∧ SameTables s t ∧
      ∀ T, Busy r [] T s → Busy r [(s.itable dp).inum]
        (if T.type (s.itable ip).inum = .dir then
          T.setNlink (s.itable dp).inum (short (T.nlink (s.itable dp).inum - 1)) else T) t) E s := by
  unfold unlinkParent
  rw [wp_get_bind]
  apply wp_ite <;> intro hdir
  · obtain ⟨hb, hst⟩ := h.setMeta hd hvd (s.itable dp).major (s.itable dp).minor
      (short ((s.itable dp).nlink - 1))
    rw [wp_modifyInode_bind, wp_iupdate]
    refine ⟨hb, hst, sameTables_setMeta .., fun T hT => ?_⟩
    have hdir' : T.type (s.itable ip).inum = .dir := by
      rw [← hT.tree_eq, ← h.type_eq hi hvi]
      exact hdir
    rw [if_pos hdir', ← hT.tree_eq, ← h.nlink_eq hd hvd, hT.tree_eq]
    exact (hT.setNlink h hd hvd _ _ _).1
  · rw [wp_pure]
    refine ⟨h, Steady.refl r ts s, ⟨rfl, rfl⟩, fun T hT => ?_⟩
    have hdir' : ¬ T.type (s.itable ip).inum = .dir := by
      rw [← hT.tree_eq, ← h.type_eq hi hvi]
      exact hdir
    rw [if_neg hdir']
    exact hT.mono (by simp)

lemma wp_clearEntry (h : Base sb r ts s) (hk : Held r ts dp) (hv : (s.itable dp).valid = true)
    (hdir : (s.itable dp).type = .dir) (m : Nat) :
    Wp (writei sb dp (fun _ => some 0) (DIRENT * m) DIRENT) (fun x t => x = DIRENT →
      Base sb r ts t ∧ Steady r ts s t ∧ SameTables s t ∧
        ∀ T, Busy r [] T s → Busy r [] (T.setEnt (s.itable dp).inum m none) t) E s := by
  obtain ⟨hs, _⟩ := h.synced dp hk.1 (hk.ref_pos h) hv
  refine (wp_writeEntry h hk hv (fun _ _ => rfl) m).imp ?_
  rintro x t ⟨hb, hst, hw, ⟨_, hle, hset⟩ | ⟨hne, _⟩⟩ hx
  · refine ⟨hb, hst, ⟨hw.ftable, hw.proc⟩, fun T hT => ?_⟩
    refine hT.change h hb hst ?_ rfl (fun _ hx => hx) fun i hi => absurd rfl hi
    rw [tree_setEntry h.owned hs hdir hw hle hset, hT.tree_eq]
    congr 1
  · exact absurd hx hne

lemma Dropped.setNlink_comm {d i : Nat} (hne : d ≠ i) {T T' : Tree} (h : Dropped d T T')
    (n : Int) : T'.nlink i = T.nlink i ∧ Dropped d (T.setNlink i n) (T'.setNlink i n) := by
  rcases h with rfl | ⟨h1, h2, rfl⟩
  · exact ⟨rfl, .inl rfl⟩
  · refine ⟨by simp [Tree.free, Tree.alloc, hne.symm], .inr ⟨h1, ?_, ?_⟩⟩
    · simpa [Tree.setNlink, hne] using h2
    · simp [Tree.setNlink, Tree.free, Tree.alloc, Function.update_comm hne]

lemma wp_unlinkEntry (h : Base sb r [ip, dp] t) (hE : Tolerates E)
    (hvd : (t.itable dp).valid = true) (hvi : (t.itable ip).valid = true)
    (hdir : (t.itable dp).type = .dir) (hst : Steady r [] s t) (htab : SameTables s t)
    (hsame : Sane r s → Sound r t ∧ tree t = tree s) {m : Nat} {name : Name}
    (hent : (tree t).ent (t.itable dp).inum m = some ((t.itable ip).inum, name))
    (hn1 : name ≠ dot) (hn2 : name ≠ dotdot) (hlinks : 1 ≤ (t.itable ip).nlink)
    (hempty : (t.itable ip).type = .dir → ∀ x, 2 ≤ x → (tree t).ent (t.itable ip).inum x = none) :
    Wp (unlinkEntry sb dp ip (DIRENT * m)) (fun x u => Done sb r s u ∧
      (x = -1 → Sane r s → Unchanged s u)) E t := by
  have hd := held_temp h (show dp ∈ [ip, dp] by simp)
  have hi := held_temp h (show ip ∈ [ip, dp] by simp)
  refine (wp_clearEntry h hd hvd hdir m).bind ?_
  rintro x t1 hclear
  refine wp_ite (fun hx => ?_) (fun _ => (wp_throw _).mpr (hE _ (by decide)))
  obtain ⟨h1, hst1, htab1, hbusy1⟩ := hclear hx
  refine (wp_unlinkParent h1 hd hi ((hst1 dp hd).2 hvd) ((hst1 ip hi).2 hvi)).bind ?_
  rintro _ t2 ⟨h2, hst2, htab2, hbusy2⟩
  have hst02 := hst1.trans hst2
  have h2' : Base sb r [dp, ip] t2 := h2.perm (List.Perm.swap dp ip [])
  refine (wp_iunlockput h2').bind ?_
  rintro _ t3 ⟨h3, hst3, hcase3⟩
  have hi3 : Held r [ip] ip := held_temp h3 mem_cons_self
  have hinum3 : (t3.itable ip).inum = (t.itable ip).inum :=
    (hst3 ip hi3).1.trans (hst02 ip hi).1
  have hv3 : (t3.itable ip).valid = true := (hst3 ip hi3).2 ((hst02 ip hi).2 hvi)
  rw [wp_setNlink_bind]
  obtain ⟨h4, hst4⟩ := h3.setMeta hi3 hv3 (t3.itable ip).major (t3.itable ip).minor
    (short ((t3.itable ip).nlink - 1))
  refine (wp_iunlockput h4).bind ?_
  rintro _ t5 ⟨h5, hst5, hcase5⟩
  rw [wp_pure]
  have hst05 : Steady r [] t t5 := (hst02.mono (by simp)).trans
    ((hst3.mono (by simp)).trans ((hst4.mono (by simp)).trans hst5))
  refine ⟨⟨h5, hst.trans hst05, ((htab.trans (htab1.trans htab2)).trans
    (tables_of_put hcase3)).trans ((sameTables_setMeta ..).trans (tables_of_put hcase5)),
    fun hs => ?_⟩, fun h0 => by cases h0⟩
  obtain ⟨hsound, htree⟩ := hsame hs
  have hb2 : Busy r [(t.itable dp).inum]
      ((tree t).clearEnt (t.itable dp).inum m (t.itable ip).inum) t2 := by
    have hb := hbusy2 _ (hbusy1 _ hsound.busy)
    rw [(hst1 dp hd).1, (hst1 ip hi).1] at hb
    exact hb
  -- the directory is put first; when it is the inode itself it stays, and is dropped at the end
  obtain ⟨T', xs, hdrop, hxs, hb3⟩ : ∃ T' xs,
      (T' = (tree t).clearEnt (t.itable dp).inum m (t.itable ip).inum ∨
        (t.itable dp).inum ≠ (t.itable ip).inum ∧ Dropped (t.itable dp).inum
          ((tree t).clearEnt (t.itable dp).inum m (t.itable ip).inum) T') ∧
      (∀ x ∈ xs, x = (t.itable ip).inum) ∧ Busy r xs T' t3 := by
    by_cases hdi : dp = ip
    · subst hdi
      exact ⟨_, [(t.itable dp).inum], .inl rfl, by simp,
        hb2.iput_again h2' h3 hst3 hcase3 (by simp)⟩
    · obtain ⟨T', h1, h2⟩ : ∃ T', Dropped _ _ T' ∧ Busy r [] T' t3 :=
        hb2.iput h2' h3 hst3 hcase3 (by simpa using hdi) (by
          intro x hx hne
          rw [(hst02 dp hd).1] at hne
          exact absurd (mem_singleton.mp hx) hne)
      rw [(hst02 dp hd).1] at h1
      refine ⟨T', [], .inr ⟨fun he => hdi ?_, h1⟩, by simp, h2⟩
      exact h.distinct dp hd.1 ip hi.1 (hd.ref_pos h) (hi.ref_pos h) he
  have hb4 := (hb3.setNlink h3 hi3 hv3 (t3.itable ip).major (t3.itable ip).minor
    (short ((t3.itable ip).nlink - 1))).1
  obtain ⟨T'', hdrop', hb5⟩ : ∃ T'', Dropped _ _ T'' ∧ Busy r [] T'' t5 :=
    hb4.iput h4 h5 hst5 hcase5 (by simp) (by
      intro x hx hne
      rw [(hst4 ip hi3).1, hinum3] at hne
      rcases mem_cons.mp hx with rfl | hx
      · exact absurd hinum3 hne
      · exact absurd (hxs x hx) hne)
  rw [(hst4 ip hi3).1, h3.nlink_eq hi3 hv3, hb3.tree_eq, hinum3] at hdrop'
  refine ⟨?_, hb5.held, hb5.slots⟩
  have htype : (tree t).type (t.itable ip).inum ≠ .free :=
    (hsound.slots ip hi.1 (hi.ref_pos h)).1
  have hmid : Dropped (t.itable dp).inum
      ((tree t).unlinked (t.itable dp).inum m (t.itable ip).inum)
      (T'.setNlink (t.itable ip).inum (short (T'.nlink (t.itable ip).inum - 1))) := by
    rcases hdrop with rfl | ⟨hne, hdrop⟩
    · exact .inl rfl
    · obtain ⟨hcount, hcomm⟩ := hdrop.setNlink_comm hne (short (T'.nlink (t.itable ip).inum - 1))
      unfold Tree.unlinked
      rw [← hcount]
      exact hcomm
  rw [h.type_eq hd hvd] at hdir
  rw [h.type_eq hi hvi] at hempty
  rw [h.nlink_eq hi hvi] at hlinks
  rw [hb5.tree_eq]
  rw [htree] at hdir hempty hlinks hent htype hmid
  exact .unlink hdir hent hn1 hn2 htype hlinks hempty hmid hdrop'

lemma Base.empty (h : Base sb r ts s) (hk : Held r ts ip) (hv : (s.itable ip).valid = true)
    (hzero : ∀ m, 2 ≤ m → DIRENT * m < (s.itable ip).size →
      (entryAt s (s.itable ip).inum m).inum = 0) :
    ∀ m, 2 ≤ m → (tree s).ent (s.itable ip).inum m = none := by
  obtain ⟨hs, _⟩ := h.synced ip hk.1 (hk.ref_pos h) hv
  have hD : 0 < DIRENT := by decide
  intro m hm
  simp only [tree, ← hs.size]
  rw [if_neg]
  rintro ⟨_, h1, h2⟩
  exact h2 (hzero m hm (by omega))

lemma wp_sys_unlink (h : Base sb r [] s) (hm : Mode r s E) (hE : Tolerates E)
    (hcwd : ∀ k, (s.proc p).cwd = some k → Held r [] k) (path : List UInt8) :
    Wp (sys_unlink sb p path) (fun x t => Done sb r s t ∧
      (x = -1 → Sane r s → Unchanged s t)) E s := by
  have hnil : ∀ ts : List Nat, ∀ x ∈ ([] : List Nat), x ∈ ts := by simp
  refine (wp_namex hE true path h hm hcwd).bind ?_
  rintro o s1 ⟨mv1, hfound⟩
  rcases o with _ | ⟨dp, name⟩
  · rw [wp_pure]
    exact ⟨done_of_moved hfound mv1, fun _ => unchanged_of_moved mv1⟩
  obtain ⟨h1, hpar⟩ := hfound
  obtain ⟨hvd, hdir, hname⟩ := hpar rfl
  have hd := held_temp h1 mem_cons_self
  refine (wp_ilock_moved h1 hd (hm.moved mv1)).bind ?_
  rintro _ s2 ⟨_, _, _, _, hread⟩
  obtain rfl := hread hvd
  apply wp_ite <;> intro hdots
  · refine (wp_iunlockput_moved h1).bind ?_
    rintro _ t ⟨hb, mv⟩
    rw [wp_pure]
    exact ⟨done_of_moved hb (mv1.trans mv), fun _ => unchanged_of_moved (mv1.trans mv)⟩
  refine (wp_dirlookup_tree h1 hd hvd hdir hE name).bind ?_
  rintro o s3 (⟨rfl, rfl, _⟩ | ⟨ip, m, rfl, _, hent, h3, hl3, mv3⟩)
  · refine (wp_iunlockput_moved h1).bind ?_
    rintro _ t ⟨hb, mv⟩
    rw [wp_pure]
    exact ⟨done_of_moved hb (mv1.trans mv), fun _ => unchanged_of_moved (mv1.trans mv)⟩
  have mv13 : Moved r [] s s3 := mv1.trans (mv3.mono (hnil _))
  refine (wp_ilock_moved h3 (held_temp h3 mem_cons_self) (hm.moved mv13)).bind ?_
  rintro _ s4 ⟨h4, mv4, hl4, hvi, _⟩
  have mv14 : Moved r [] s s4 := mv13.trans (mv4.mono (hnil _))
  have hi4 := held_temp h4 (show ip ∈ [ip, dp] by simp)
  have hd4 := held_temp h4 (show dp ∈ [ip, dp] by simp)
  have hsd : Steady r [dp] s2 s4 := mv3.steady.trans (mv4.steady.mono (by simp))
  have hvd4 : (s4.itable dp).valid = true := (hsd dp hd).2 hvd
  have htree : tree s4 = tree s2 := tree_lookup (hl3.trans hl4)
  have hdir4 : (s4.itable dp).type = .dir := by
    rw [h4.type_eq hd4 hvd4, htree, (hsd dp hd).1, ← h1.type_eq hd hvd]
    exact hdir
  have hent4 : (tree s4).ent (s4.itable dp).inum m = some ((s4.itable ip).inum, name) := by
    rw [htree, (hsd dp hd).1, (mv4.steady ip (held_temp h3 (by simp))).1]
    exact hent
  have hsame : Sane r s → Sound r s4 ∧ tree s4 = tree s := by
    intro hs
    obtain ⟨hl, hsound⟩ := mv14.quiet hs.toSound
    exact ⟨hsound, tree_lookup hl⟩
  have hn1 : name ≠ dot := fun he => hdots (.inl (by simp [namecmp, he]))
  have hn2 : name ≠ dotdot := fun he => hdots (.inr (by simp [namecmp, he]))
  rw [wp_get_bind]
  refine wp_ite (fun _ => (wp_throw _).mpr (hE _ (by decide))) (fun hlinks => ?_)
  apply wp_ite <;> intro hfile
  · refine (wp_isdirempty h4 hi4 hvi (hE _ (by decide))).bind ?_
    rintro empty _ ⟨rfl, hzero⟩
    apply wp_ite <;> intro hne
    · refine (wp_iunlockput_moved h4).bind ?_
      rintro _ s5 ⟨h5, mv5⟩
      refine (wp_iunlockput_moved h5).bind ?_
      rintro _ t ⟨hb, mv⟩
      rw [wp_pure]
      have mv' := mv14.trans ((mv5.mono (hnil _)).trans mv)
      exact ⟨done_of_moved hb mv', fun _ => unchanged_of_moved mv'⟩
    · refine wp_unlinkEntry h4 hE hvd4 hvi hdir4 mv14.steady mv14.tables hsame hent4 hn1 hn2
        (by omega) ?_
      exact fun _ => h4.empty hi4 hvi (hzero (by simpa using hne))
  · exact wp_unlinkEntry h4 hE hvd4 hvi hdir4 mv14.steady mv14.tables hsame hent4 hn1 hn2 (by omega)
      fun hd => absurd hd hfile

end xv6.fs
