-- `create`: a new inode gets its entries and its name, or is freed again when
-- the disk is full.
import Xv6.Linking

open bytes ownership wp Function List

namespace xv6.fs

variable {sb : Superblock} {s t u : Fs} {r : Nat → Nat} {ts : List Nat} {k ip dp p : Nat}
  {E : Stop → Prop} {type : FileType}

attribute [local simp] Tree.setNlink Tree.alloc Tree.setEnt Tree.free

/-! ## The new inode -/

lemma Sound.fresh (h : Sound r s) (hb : Base sb r ts s) (hb' : Base sb r (ip :: ts) t)
    (hst : Steady r ts s t) (hwas : (tree s).type (t.itable ip).inum = .free)
    (htype : type ≠ .free)
    (htree : tree t = ((tree s).alloc (t.itable ip).inum type).setNlink (t.itable ip).inum 1) :
    Sound r t ∧ r ip = 0 ∧ ip ∉ ts := by
  have hother : ∀ j, Held r ts j → (t.itable j).inum ≠ (t.itable ip).inum := by
    intro j hj he
    refine (h.slots j hj.1 (hj.ref_pos hb)).1 ?_
    rw [← (hst j hj).1, he]
    exact hwas
  have hnot : ¬ Held r ts ip := fun hj => hother ip hj rfl
  have hip := hb'.temps ip mem_cons_self
  have hbusy : Busy r [] (((tree s).alloc (t.itable ip).inum type).setNlink
      (t.itable ip).inum 1) t := by
    refine ⟨htree, ?_, ?_⟩
    · intro j hj hn
      rw [htree] at hj hn
      by_cases hji : j = (t.itable ip).inum
      · subst hji
        simp at hn
      · simp only [Tree.setNlink, Tree.alloc, update_of_ne hji] at hj hn
        rcases h.held j hj hn with ⟨k, hk, hr, hki⟩ | hx
        · exact .inl ⟨k, hk, hr, (hst k ⟨hk, .inl hr⟩).1.trans hki⟩
        · exact .inr hx
    · intro j hj hpos
      rw [htree]
      by_cases hjip : j = ip
      · subst hjip
        constructor
        · simpa using htype
        · simp
      · have hheld : Held r ts j := by
          obtain ⟨_, hr | hm⟩ := hb'.held_of_ref hj hpos
          · exact ⟨hj, .inl hr⟩
          · exact ⟨hj, .inr ((mem_cons.mp hm).resolve_left hjip)⟩
        have hok := h.slots.of_held hb hheld (hst j hheld)
        unfold SlotOK Tree.setNlink Tree.alloc
        dsimp only
        rw [update_of_ne (hother j hheld), update_of_ne (hother j hheld),
          update_of_ne (hother j hheld)]
        exact hok
  refine ⟨hbusy.sound ?_ ?_, ?_, ?_⟩
  · intro d m e he
    have hent : (tree s).ent d m = some e := by
      by_cases hd : d = (t.itable ip).inum
      · subst hd
        simp at he
      · simpa [hd] using he
    have hne : e.1 ≠ (t.itable ip).inum := by
      intro he'
      apply h.closed _ _ _ hent
      rw [he']
      exact hwas
    simpa [hne] using h.closed _ _ _ hent
  · have hne : ROOTINO ≠ (t.itable ip).inum := by
      intro he
      apply h.root
      rw [he]
      exact hwas
    simpa [hne] using h.root
  · by_contra hr
    exact hnot ⟨hip, .inl (by omega)⟩
  · exact fun hm => hnot ⟨hip, .inr hm⟩

/-- The call has made inode `ip` and works on it: without that inode the tree is the old one. -/
structure Making (r : Nat → Nat) (dp ip : Nat) (s t : Fs) : Prop where
  sound : Sound r t
  unheld : r ip = 0
  ne : ip ≠ dp
  old : (tree t).free (t.itable ip).inum = tree s
  kept : ∀ j, j ≠ (t.itable ip).inum → KeptFile j s t
  was : (s.dinode (t.itable ip).inum).type = .free

lemma Tree.free_setNlink (T : Tree) (i : Nat) (n : Int) : (T.setNlink i n).free i = T.free i := by
  simp

lemma Tree.free_setEnt (T : Tree) (i m : Nat) (e : Option (Nat × Name)) :
    (T.setEnt i m e).free i = T.free i := by
  simp

lemma Tree.free_alloc (T : Tree) (i : Nat) (type : FileType) :
    (T.alloc i type).free i = T.free i := by
  simp

lemma tree_free_self {i : Nat} (h : (tree s).type i = .free) : (tree s).free i = tree s := by
  ext1
  · funext j
    by_cases hj : j = i
    · subst hj
      simp [h]
    · simp [hj]
  · funext j
    by_cases hj : j = i
    · subst hj
      simp only [Tree.free, Tree.alloc, update_self]
      simpa [tree] using fun hne => absurd h hne
    · simp [hj]
  · funext j m
    by_cases hj : j = i
    · subst hj
      have hno : ¬ (s.dinode j).type = .dir := by
        rw [show (s.dinode j).type = .free from h]
        decide
      simp [tree, hno]
    · simp [hj]

lemma wp_createFail (h : Base sb r [ip, dp] t) (hvi : (t.itable ip).valid = true)
    (hst : Steady r [] s t) (htab : SameTables s t) (hmk : Sane r s → Making r dp ip s t) :
    Wp (createFail dp ip) (fun o u => o = none ∧ Done sb r s u ∧
      (Sane r s → Unchanged s u)) E t := by
  have hi := held_temp h (show ip ∈ [ip, dp] by simp)
  unfold createFail
  rw [wp_setNlink_bind]
  obtain ⟨h1, hst1⟩ := h.setMeta hi hvi (t.itable ip).major (t.itable ip).minor 0
  refine (wp_iunlockput h1).bind ?_
  rintro _ t2 ⟨h2, hst2, hcase2⟩
  refine (wp_iunlockput h2).bind ?_
  rintro _ t3 ⟨h3, hst3, hcase3⟩
  rw [wp_pure]
  have hst03 : Steady r [] t t3 := (hst1.mono (by simp)).trans ((hst2.mono (by simp)).trans hst3)
  suffices hrest : Sane r s → Busy r [] (tree s) t3 ∧ ∀ j, KeptFile j s t3 from
    ⟨rfl, ⟨h3, hst.trans hst03, (htab.trans ((sameTables_setMeta ..).trans
      (tables_of_put hcase2))).trans (tables_of_put hcase3),
      fun hs => outcome_of_same (hrest hs).1⟩, fun hs => ⟨(hrest hs).1.tree_eq, (hrest hs).2⟩⟩
  intro hs
  obtain ⟨hsound, hr0, hne, hold, hkept, hwas⟩ := hmk hs
  have hkept1 : ∀ j, KeptFile j t (setMeta ip (t.itable ip).major (t.itable ip).minor 0 t) :=
    kept_setMeta (h.synced ip hi.1 (hi.ref_pos h) hvi).1 _ _ _
  have hbusy1 := (hsound.busy.setNlink h hi hvi (t.itable ip).major (t.itable ip).minor 0).1
  have hinum := (hst1 ip hi).1
  have hv1 := (hst1 ip hi).2 hvi
  generalize setMeta ip (t.itable ip).major (t.itable ip).minor 0 t = t1 at *
  have hlast : Last r [dp] ip t1 := by
    refine ⟨hr0, by simpa using hne, hv1, ?_⟩
    obtain ⟨hs1, ht1⟩ := h1.synced ip hi.1 (hi.ref_pos h1) hv1
    have hn := h1.nlink_eq hi hv1
    rw [hbusy1.tree_eq, hinum] at hn
    rw [← show (t1.itable ip).nlink = _ from congrArg Dinode.nlink hs1, hn]
    simp
  rcases hcase2 with ⟨_, hnot⟩ | ⟨_, hfreed⟩
  · exact absurd hlast hnot
  · obtain ⟨T', _, hbusy2⟩ : ∃ T', Dropped _ _ T' ∧ Busy r [] T' t2 :=
      hbusy1.iput h1 h2 hst2 (.inr ⟨hlast, hfreed⟩) (by simpa using hne) (by
        intro x hx hx'
        rw [hinum] at hx'
        exact absurd (mem_singleton.mp hx) hx')
    have hT' : T' = tree s := by
      rw [← hbusy2.tree_eq, tree_freed hfreed, hbusy1.tree_eq, hinum, Tree.free_setNlink, hold]
    rw [hT'] at hbusy2
    refine ⟨hbusy2.iput_quiet h2 h3 hst3 hcase3 (by simp), fun j hj => ?_⟩
    have hput := (hcase3.resolve_right fun hf => hbusy2.held.not_last h2 (by simp) hf.1).1
    have hji : j ≠ (t.itable ip).inum := by
      rintro rfl
      exact hj hwas
    have hj1 : j ≠ (t1.itable ip).inum := by
      rw [hinum]
      exact hji
    exact ((((hkept j hji).trans (hkept1 j)).trans (hfreed.kept hj1)).trans (hput.kept j)) hj

/-! ## The entries -/

/-- What `create` returns: an inode that the call holds, locked and read. -/
def Gave (sb : Superblock) (r : Nat → Nat) (s : Fs) (o : Option Nat) (t : Fs) : Prop :=
  match o with
  | none => Done sb r s t ∧ (Sane r s → Unchanged s t)
  | some ip => Base sb r [ip] t ∧ (t.itable ip).valid = true ∧ Steady r [] s t ∧
      SameTables s t ∧ (Sane r s → Outcome sb.ninodes r s t ∧ (Unchanged s t ∨ tree t ≠ tree s))

lemma Making.same (h : Making r dp ip s t) {j : Nat} (hj : j ≠ (t.itable ip).inum) :
    (tree t).type j = (tree s).type j ∧ (tree t).nlink j = (tree s).nlink j ∧
      (tree t).ent j = (tree s).ent j := by
  rw [← h.old]
  simp [hj]

/-- The tree after the new inode has its entry in the parent. -/
def Tree.linked (T : Tree) (type : FileType) (d m i : Nat) (name : Name) (n : Int) : Tree :=
  if type = .dir then (T.setEnt d m (some (i, name))).setNlink d n
  else T.setEnt d m (some (i, name))

lemma linked_ent (T : Tree) (type : FileType) (d m i : Nat) (name : Name) (n : Int) :
    (T.linked type d m i name n).ent d m = some (i, name) := by
  unfold Tree.linked
  split
  · simp
  · simp

lemma Making.step (h : Making r dp ip s t) (hsound : Sound r u)
    (hi : (u.itable ip).inum = (t.itable ip).inum)
    (htree : (tree u).free (t.itable ip).inum = (tree t).free (t.itable ip).inum)
    (hkept : ∀ j, j ≠ (t.itable ip).inum → KeptFile j t u) :
    Making r dp ip s u := by
  refine ⟨hsound, h.unheld, h.ne, by rw [hi, htree, h.old], fun j hj => ?_, by rw [hi]; exact h.was⟩
  rw [hi] at hj
  exact (h.kept j hj).trans (hkept j hj)

lemma wp_createLink (h : Base sb r [ip, dp] t) (hE : Tolerates E)
    (hvi : (t.itable ip).valid = true) (hvd : (t.itable dp).valid = true)
    (hdir : (t.itable dp).type = .dir) {name : Name} (hname : GoodName name)
    (hst : Steady r [] s t) (htab : SameTables s t)
    (hsmall : 0 < (t.itable ip).inum ∧ (t.itable ip).inum < 65536)
    (hmk : Sane r s → Making r dp ip s t)
    (hstep : Sane r s → ∀ m, (tree s).ent (t.itable dp).inum m = none →
      (tree s).Lacks (t.itable dp).inum name → TreeStep sb.ninodes (tree s)
        ((tree t).linked type (t.itable dp).inum m (t.itable ip).inum name
          (short ((tree s).nlink (t.itable dp).inum + 1)))) :
    Wp (createLink sb dp ip name type) (fun o u => Gave sb r s o u ∧
      ∀ k, o = some k → k = ip ∧ Steady r [ip] t u ∧
        (Sane r s → (tree u).type = (tree t).type)) E t := by
  have hi := held_temp h (show ip ∈ [ip, dp] by simp)
  have hd := held_temp h (show dp ∈ [ip, dp] by simp)
  unfold createLink
  rw [wp_get_bind]
  refine (wp_dirlink_tree h hd hvd hdir hE hname (t.itable ip).inum).bind ?_
  rintro x t1 ⟨h1, hst1, htab1, ⟨rfl, hfail⟩ | ⟨rfl, m, hlinked⟩⟩
  · rw [if_pos (by decide)]
    refine (wp_createFail h1 ((hst1 ip hi).2 hvi) (hst.trans (hst1.mono (by simp)))
      (htab.trans htab1) ?_).imp ?_
    · intro hs
      obtain ⟨⟨htree, hkept⟩, hsound1⟩ := hfail (hmk hs).sound
      exact (hmk hs).step hsound1 (hst1 ip hi).1 (by rw [htree]) fun j _ => hkept j
    · rintro o u ⟨rfl, hdone⟩
      exact ⟨hdone, by simp⟩
  · rw [if_neg (by decide)]
    have htree1 := hlinked.tree_eq hsmall.1 hsmall.2
    have hsound1 : Sane r s → Sound r t1 := by
      intro hs
      exact hlinked.sound hsmall.1 hsmall.2 (hmk hs).sound
        ((hmk hs).sound.slots ip hi.1 (hi.ref_pos h)).1
    have hold : Sane r s → (tree t).nlink (t.itable dp).inum = (tree s).nlink (t.itable dp).inum ∧
        (tree t).ent (t.itable dp).inum = (tree s).ent (t.itable dp).inum := by
      intro hs
      refine ((hmk hs).same fun he => (hmk hs).ne ?_).2
      exact (h.distinct dp hd.1 ip hi.1 (hd.ref_pos h) (hi.ref_pos h) he).symm
    have hsteps : Sane r s → TreeStep sb.ninodes (tree s)
        ((tree t).linked type (t.itable dp).inum m (t.itable ip).inum name
          (short ((tree s).nlink (t.itable dp).inum + 1))) := by
      intro hs
      refine hstep hs m ?_ ?_
      · rw [← (hold hs).2]
        exact hlinked.free
      · intro x j
        rw [← (hold hs).2]
        exact hlinked.lacks x j
    have hend : ∀ t2, Base sb r [ip, dp] t2 → Steady r [ip, dp] t t2 → SameTables s t2 →
        (Sane r s → Busy r [] ((tree t).linked type (t.itable dp).inum m (t.itable ip).inum name
          (short ((tree s).nlink (t.itable dp).inum + 1))) t2) →
        Wp (do iunlockput dp; return some ip) (fun o u => Gave sb r s o u ∧
          ∀ k, o = some k → k = ip ∧ Steady r [ip] t u ∧
            (Sane r s → (tree u).type = (tree t).type)) E t2 := by
      intro t2 h2 hst2 htab2 hbusy
      have h2' : Base sb r [dp, ip] t2 := h2.perm (List.Perm.swap dp ip [])
      refine (wp_iunlockput h2').bind ?_
      rintro _ t3 ⟨h3, hst3, hcase⟩
      have hst03 : Steady r [ip] t t3 := (hst2.mono (by simp)).trans hst3
      have hb := fun hs => (hbusy hs).iput_quiet h2' h3 hst3 hcase (by simp)
      rw [wp_pure]
      refine ⟨⟨h3, (hst03 ip (held_temp h3 mem_cons_self)).2 hvi,
        hst.trans (hst03.mono (by simp)), htab2.trans (tables_of_put hcase),
        fun hs => ⟨⟨?_, (hb hs).held, (hb hs).slots⟩, .inr ?_⟩⟩, ?_⟩
      · rw [(hb hs).tree_eq]
        exact hsteps hs
      · -- the parent has a new entry
        intro he
        have hm := hlinked.free
        rw [(hold hs).2, ← he, (hb hs).tree_eq, linked_ent] at hm
        cases hm
      · rintro k hk
        cases hk
        refine ⟨rfl, hst03, fun hs => ?_⟩
        rw [(hb hs).tree_eq]
        unfold Tree.linked
        split
        · rfl
        · rfl
    apply wp_ite <;> intro htype
    · have hd1 := (hst1 dp hd).1
      have hvd1 := (hst1 dp hd).2 hvd
      rw [wp_setNlink_bind]
      obtain ⟨h2, hst2⟩ := h1.setMeta hd hvd1 (t1.itable dp).major (t1.itable dp).minor
        (short ((t1.itable dp).nlink + 1))
      refine hend _ h2 (hst1.trans hst2) ((htab.trans htab1).trans (sameTables_setMeta ..)) ?_
      intro hs
      have hn : (t1.itable dp).nlink = (tree s).nlink (t.itable dp).inum := by
        rw [h1.nlink_eq hd hvd1, htree1, hd1]
        exact (hold hs).1
      have hb := ((hsound1 hs).busy.setNlink h1 hd hvd1 (t1.itable dp).major
        (t1.itable dp).minor (short ((t1.itable dp).nlink + 1))).2 (by
          rw [hn]
          exact short_succ_ne (hs.nonneg _) (hs.le _))
      unfold Tree.linked
      rw [if_pos htype, ← htree1, ← hn]
      rw [hd1] at hb
      exact hb
    · refine hend _ h1 hst1 (htab.trans htab1) ?_
      intro hs
      unfold Tree.linked
      rw [if_neg htype, ← htree1]
      exact (hsound1 hs).busy

lemma goodName_dot : GoodName dot := ⟨by decide, by decide⟩

lemma goodName_dotdot : GoodName dotdot := ⟨by decide, by decide⟩

lemma wp_createDir (h : Base sb r [ip, dp] t) (hE : Tolerates E)
    (hvi : (t.itable ip).valid = true) (hvd : (t.itable dp).valid = true)
    (hdi : (t.itable ip).type = .dir) (hsize : (t.itable ip).size = 0)
    (hdir : (t.itable dp).type = .dir) {name : Name} (hname : GoodName name)
    (hst : Steady r [] s t) (htab : SameTables s t)
    (hsmall : 0 < (t.itable ip).inum ∧ (t.itable ip).inum < 65536)
    (hmk : Sane r s → Making r dp ip s t)
    (hstep : Sane r s → ∀ m, (tree s).ent (t.itable dp).inum m = none →
      (tree s).Lacks (t.itable dp).inum name → TreeStep sb.ninodes (tree s)
        ((((tree t).setEnt (t.itable ip).inum 0 (some ((t.itable ip).inum, dot))).setEnt
          (t.itable ip).inum 1 (some ((t.itable dp).inum, dotdot))).linked .dir
            (t.itable dp).inum m (t.itable ip).inum name
            (short ((tree s).nlink (t.itable dp).inum + 1)))) :
    Wp (createDir sb dp ip name) (fun o u => Gave sb r s o u ∧
      ∀ k, o = some k → k = ip ∧ Steady r [ip] t u) E t := by
  have hD : DIRENT = 16 := rfl
  have hi := held_temp h (show ip ∈ [ip, dp] by simp)
  have hd := held_temp h (show dp ∈ [ip, dp] by simp)
  unfold createDir
  rw [wp_get_bind]
  refine (wp_dirlink_tree h hi hvi hdi hE goodName_dot (t.itable ip).inum).bind ?_
  rintro x t1 ⟨h1, hst1, htab1, ⟨rfl, hfail⟩ | ⟨rfl, m, hlinked⟩⟩
  · rw [if_pos (by decide)]
    refine (wp_createFail h1 ((hst1 ip hi).2 hvi) (hst.trans (hst1.mono (by simp)))
      (htab.trans htab1) ?_).imp ?_
    · intro hs
      obtain ⟨⟨htree, hkept⟩, hsound⟩ := hfail (hmk hs).sound
      exact (hmk hs).step hsound (hst1 ip hi).1 (by rw [htree]) fun j _ => hkept j
    · rintro o u ⟨rfl, hdone⟩
      exact ⟨hdone, by simp⟩
  rw [if_neg (by decide)]
  obtain rfl : m = 0 := by
    have := hlinked.place
    rw [hsize, hD] at this
    omega
  have htree1 := hlinked.tree_eq hsmall.1 hsmall.2
  have hi1 := (hst1 ip hi).1
  have hvi1 := (hst1 ip hi).2 hvi
  have hdi1 : (t1.itable ip).type = .dir := (hlinked.types ip).trans hdi
  have hsize1 : (t1.itable ip).size = DIRENT := by
    rw [hlinked.size hsmall.2, hsize]
    rfl
  have hmk1 : Sane r s → Making r dp ip s t1 := by
    intro hs
    refine (hmk hs).step ?_ hi1 (by rw [htree1, Tree.free_setEnt]) hlinked.kept
    exact hlinked.sound hsmall.1 hsmall.2 (hmk hs).sound
      ((hmk hs).sound.slots ip hi.1 (hi.ref_pos h)).1
  refine (wp_dirlink_tree h1 hi hvi1 hdi1 hE goodName_dotdot (t.itable dp).inum).bind ?_
  rintro x t2 ⟨h2, hst2, htab2, ⟨rfl, hfail⟩ | ⟨rfl, m, hlinked2⟩⟩
  · rw [if_pos (by decide)]
    refine (wp_createFail h2 ((hst2 ip hi).2 hvi1)
      (hst.trans ((hst1.trans hst2).mono (by simp))) (htab.trans (htab1.trans htab2)) ?_).imp ?_
    · intro hs
      obtain ⟨⟨htree, hkept⟩, hsound⟩ := hfail (hmk1 hs).sound
      exact (hmk1 hs).step hsound (hst2 ip hi).1 (by rw [htree]) fun j _ => hkept j
    · rintro o u ⟨rfl, hdone⟩
      exact ⟨hdone, by simp⟩
  rw [if_neg (by decide)]
  obtain rfl : m = 1 := by
    have hplace := hlinked2.place
    rw [hsize1, hD] at hplace
    have hfree := hlinked2.free
    rw [htree1, hi1] at hfree
    have : m ≠ 0 := by
      rintro rfl
      simp at hfree
    omega
  have hst02 := hst1.trans hst2
  have hdirT : (tree t1).type (t.itable dp).inum = .dir := by
    rw [htree1, ← hdir, h.type_eq hd hvd]
    rfl
  have hsmalld : Sane r s → 0 < (t.itable dp).inum ∧ (t.itable dp).inum < 65536 := by
    intro hs
    apply hs.small
    rw [← ((hmk hs).same fun he => (hmk hs).ne
      (h.distinct dp hd.1 ip hi.1 (hd.ref_pos h) (hi.ref_pos h) he).symm).1]
    rw [← h.type_eq hd hvd, hdir]
    decide
  have htree2 : Sane r s → tree t2 = ((tree t).setEnt (t.itable ip).inum 0
      (some ((t.itable ip).inum, dot))).setEnt (t.itable ip).inum 1
        (some ((t.itable dp).inum, dotdot)) := by
    intro hs
    rw [hlinked2.tree_eq (hsmalld hs).1 (hsmalld hs).2, htree1, hi1]
  have hvd2 := (hst02 dp hd).2 hvd
  have hvi2 := (hst02 ip hi).2 hvi
  refine (wp_createLink h2 hE hvi2 hvd2 ?_ hname (hst.trans (hst02.mono (by simp)))
    (htab.trans (htab1.trans htab2)) ?_ ?_ ?_).imp ?_
  · exact (hlinked2.types dp).trans ((hlinked.types dp).trans hdir)
  · rw [(hst02 ip hi).1]
    exact hsmall
  · intro hs
    refine (hmk1 hs).step ?_ (hst2 ip hi).1 ?_ hlinked2.kept
    · exact hlinked2.sound (hsmalld hs).1 (hsmalld hs).2 (hmk1 hs).sound (by rw [hdirT]; decide)
    · rw [hlinked2.tree_eq (hsmalld hs).1 (hsmalld hs).2, Tree.free_setEnt]
  · intro hs
    rw [(hst02 ip hi).1, (hst02 dp hd).1, htree2 hs]
    exact hstep hs
  · rintro o u ⟨hgave, hk⟩
    exact ⟨hgave, fun k hok => ⟨(hk k hok).1, (hst02.mono (by simp)).trans (hk k hok).2.1⟩⟩

/-! ## `create` -/

lemma gave_of_moved (hb : Base sb r [ip] t) (hv : (t.itable ip).valid = true)
    (h : Moved r ts s t) : Gave sb r s (some ip) t := by
  refine ⟨hb, hv, h.steady.mono (by simp), h.tables,
    fun hs => ⟨outcome_of_same ?_, .inl (unchanged_of_moved h hs)⟩⟩
  obtain ⟨hl, ht⟩ := h.quiet hs.toSound
  rw [← tree_lookup hl]
  exact ht.busy

/-- What `create` gives for a file: no directory, and a new inode is a file. -/
def GivesFile (s t : Fs) (k : Nat) : Prop :=
  (tree t).type (t.itable k).inum ≠ .dir ∧
    (tree t ≠ tree s → (tree t).type (t.itable k).inum = .file)

lemma wp_createFound (h : Base sb r [ip, dp] t) (hm : Mode r t E) (mv : Moved r [] s t) :
    Wp (do
      iunlockput dp
      ilock ip
      let u ← get
      if type = .file ∧ ((u.itable ip).type = .file ∨ (u.itable ip).type = .device) then
        return some ip
      else do
        iunlockput ip
        return none) (fun o u => Gave sb r s o u ∧
          ∀ k, o = some k → type = .file → Sane r s → GivesFile s u k) E t := by
  have h' : Base sb r [dp, ip] t := h.perm (List.Perm.swap dp ip [])
  refine (wp_iunlockput_moved h').bind ?_
  rintro _ t1 ⟨h1, mv1⟩
  have hi := held_temp h1 mem_cons_self
  refine (wp_ilock_moved h1 hi (hm.moved mv1)).bind ?_
  rintro _ t2 ⟨h2, mv2, _, hv2, _⟩
  have mv02 : Moved r [] s t2 :=
    mv.trans ((mv1.mono (by simp)).trans (mv2.mono (by simp)))
  rw [wp_get_bind]
  apply wp_ite <;> intro hc
  · rw [wp_pure]
    refine ⟨gave_of_moved h2 hv2 mv02, ?_⟩
    rintro k hk _ hs
    cases hk
    refine ⟨?_, fun hne => absurd (unchanged_of_moved mv02 hs).1 hne⟩
    rw [← h2.type_eq hi hv2]
    rcases hc.2 with hf | hf
    · rw [hf]
      decide
    · rw [hf]
      decide
  · refine (wp_iunlockput_moved h2).bind ?_
    rintro _ t3 ⟨h3, mv3⟩
    rw [wp_pure]
    exact ⟨⟨done_of_moved h3 (mv02.trans mv3), unchanged_of_moved (mv02.trans mv3)⟩, by simp⟩

/-- The new inode `ip` is set up in `u` and gets its entries. -/
lemma wp_createNew (h : Base sb r [dp] t) (hE : Tolerates E) (hsb : sb.ninodes ≤ 65536)
    (htype : type = .dir ∨ type = .file ∨ type = .device) (major minor : Int)
    (hvd : (t.itable dp).valid = true) (hdir : (t.itable dp).type = .dir) {name : Name}
    (hname : GoodName name) (mv : Moved r [] s t) (hu : Base sb r [ip, dp] u)
    (hst : Steady r [dp] t u) (hnew : Created type (u.itable ip).inum t u)
    (hpos : 0 < (u.itable ip).inum) (hlt : (u.itable ip).inum < sb.ninodes) :
    Wp (do
      ilock ip
      modifyInode ip fun x => { x with major := short major, minor := short minor, nlink := 1 }
      iupdate ip
      if type = .dir then createDir sb dp ip name else createLink sb dp ip name type)
      (fun o t => Gave sb r s o t ∧
        ∀ k, o = some k → type = .file → Sane r s → GivesFile s t k) E u := by
  have htfree : type ≠ .free := by
    rcases htype with rfl | rfl | rfl <;> decide
  have hi := held_temp hu (show ip ∈ [ip, dp] by simp)
  have hd := held_temp hu (show dp ∈ [ip, dp] by simp)
  have hd0 := held_temp h (show dp ∈ [dp] by simp)
  have hdin : u.dinode (u.itable ip).inum = newInode type := by
    rw [hnew.dinode, update_self]
  refine (wp_ilock hu hi fun hf => absurd hf (by rw [hdin]; exact htfree)).bind ?_
  rintro _ u1 ⟨h1, hl1, hst1, hv1, _⟩
  have hi1 := (hst1 ip hi).1
  obtain ⟨hs1, ht1⟩ := h1.synced ip hi.1 (hi.ref_pos h1) hv1
  have hself : (u1.itable ip).toDinode = newInode type := by
    rw [show (u1.itable ip).toDinode = _ from hs1, hl1.dinode, hi1, hdin]
  obtain ⟨h2, hst2⟩ := h1.setMeta hi hv1 (short major) (short minor) 1
  have htree2 : tree (setMeta ip (short major) (short minor) 1 u1) =
      ((tree t).alloc (u.itable ip).inum type).setNlink (u.itable ip).inum 1 := by
    rw [tree_setMeta hs1 ht1, tree_lookup hl1, tree_created hnew, hi1]
  have hslot2 : (setMeta ip (short major) (short minor) 1 u1).itable ip =
      { u1.itable ip with major := short major, minor := short minor, nlink := 1 } := by
    simp [setMeta]
  rw [wp_modifyInode_bind, wp_iupdate_bind]
  change Wp (if type = .dir then createDir sb dp ip name else createLink sb dp ip name type) _ E
    (setMeta ip (short major) (short minor) 1 u1)
  have htab2 : SameTables s (setMeta ip (short major) (short minor) 1 u1) :=
    mv.tables.trans (SameTables.trans ⟨hnew.ftable, hnew.proc⟩ (SameTables.trans
      ⟨hl1.ftable, hl1.proc⟩ (sameTables_setMeta ..)))
  have hsize2 : ((setMeta ip (short major) (short minor) 1 u1).itable ip).size = 0 ∧
      ((setMeta ip (short major) (short minor) 1 u1).itable ip).type = type := by
    rw [hslot2]
    exact ⟨congrArg Dinode.size hself, congrArg Dinode.type hself⟩
  have hkept2 : ∀ j, KeptFile j u (setMeta ip (short major) (short minor) 1 u1) :=
    fun j => (hl1.kept j).trans (kept_setMeta hs1 _ _ _ j)
  generalize setMeta ip (short major) (short minor) 1 u1 = u2 at *
  have hst02 : Steady r [ip, dp] u u2 := hst1.trans hst2
  have hstd : Steady r [dp] t u2 := hst.trans (hst02.mono (by simp))
  have hi2 : (u2.itable ip).inum = (u.itable ip).inum := (hst02 ip hi).1
  have hd2 : (u2.itable dp).inum = (t.itable dp).inum := (hstd dp hd0).1
  have hvi2 : (u2.itable ip).valid = true := (hst2 ip hi).2 hv1
  have hvd2 : (u2.itable dp).valid = true := (hstd dp hd0).2 hvd
  have hdirT : (tree t).type (t.itable dp).inum = .dir := by
    rw [← h.type_eq hd0 hvd]
    exact hdir
  have hwas : (tree t).type (u.itable ip).inum = .free := hnew.was
  have hdi : (t.itable dp).inum ≠ (u.itable ip).inum := by
    intro he
    rw [he, hwas] at hdirT
    cases hdirT
  have hdir2 : (u2.itable dp).type = .dir := by
    rw [h2.type_eq hd hvd2, htree2, hd2]
    simpa [hdi] using hdirT
  have hsmall : 0 < (u2.itable ip).inum ∧ (u2.itable ip).inum < 65536 := by
    omega
  have hmk : Sane r s → Making r dp ip s u2 := by
    intro hs
    obtain ⟨hl, hsound⟩ := mv.quiet hs.toSound
    obtain ⟨h1, h2, h3⟩ := hsound.fresh h h2 hstd (by rw [hi2]; exact hwas) htfree
      (by rw [hi2]; exact htree2)
    refine ⟨h1, h2, by simpa using h3, ?_, ?_, ?_⟩
    · rw [hi2, htree2, Tree.free_setNlink, Tree.free_alloc, tree_free_self hwas, tree_lookup hl]
    · intro j hj
      rw [hi2] at hj
      exact ((hl.kept j).trans (hnew.kept hj)).trans (hkept2 j)
    · rw [hi2, ← hl.dinode]
      exact hnew.was
  have hst2' : Steady r [] s u2 := mv.steady.trans (hstd.mono (by simp))
  have hsame : Sane r s → tree t = tree s := fun hs => tree_lookup (mv.quiet hs.toSound).1
  refine wp_ite (fun hd => ?_) (fun hnd => ?_)
  · subst hd
    refine (wp_createDir h2 hE hvi2 hvd2 hsize2.2 hsize2.1 hdir2 hname hst2' htab2 hsmall hmk
      ?_).imp ?_
    · intro hs m hm hl
      rw [hd2] at hm hl ⊢
      rw [hi2, htree2, hsame hs]
      rw [hsame hs] at hdirT hwas
      exact .mkdir hdirT hm hl hwas hpos hlt
    · rintro o v ⟨hgave, _⟩
      exact ⟨hgave, fun _ _ hf => by cases hf⟩
  · refine (wp_createLink h2 hE hvi2 hvd2 hdir2 hname hst2' htab2 hsmall hmk ?_).imp ?_
    · intro hs m hm hl
      rw [hd2] at hm hl ⊢
      rw [hi2, htree2, hsame hs]
      rw [hsame hs] at hdirT hwas
      unfold Tree.linked
      rw [if_neg hnd]
      exact .create hdirT hm hl hwas hpos hlt (htype.resolve_left hnd)
    · rintro o v ⟨hgave, hk⟩
      refine ⟨hgave, ?_⟩
      rintro k rfl rfl hs
      obtain ⟨rfl, hst3, htypes⟩ := hk k rfl
      have hfile : (tree v).type (v.itable k).inum = .file := by
        rw [htypes hs, (hst3 k (held_temp hgave.1 mem_cons_self)).1, hi2, htree2]
        simp
      exact ⟨by rw [hfile]; decide, fun _ => hfile⟩

lemma wp_create (h : Base sb r [] s) (hm : Mode r s E) (hE : Tolerates E)
    (hcwd : ∀ k, (s.proc p).cwd = some k → Held r [] k) (hsb : sb.ninodes ≤ 65536)
    (path : List UInt8) (htype : type = .dir ∨ type = .file ∨ type = .device)
    (major minor : Int) :
    Wp (create sb p path type major minor) (fun o t => Gave sb r s o t ∧
      ∀ k, o = some k → type = .file → Sane r s → GivesFile s t k) E s := by
  have hnil : ∀ ts : List Nat, ∀ x ∈ ([] : List Nat), x ∈ ts := by simp
  refine (wp_namex hE true path h hm hcwd).bind ?_
  rintro o s1 ⟨mv1, hfound⟩
  rcases o with _ | ⟨dp, name⟩
  · rw [wp_pure]
    exact ⟨⟨done_of_moved hfound mv1, unchanged_of_moved mv1⟩, by simp⟩
  obtain ⟨h1, hpar⟩ := hfound
  obtain ⟨hvd, hdir, hname⟩ := hpar rfl
  have hd := held_temp h1 mem_cons_self
  refine (wp_ilock_moved h1 hd (hm.moved mv1)).bind ?_
  rintro _ s1' ⟨_, _, _, _, hread⟩
  rw [hread hvd]
  clear hread
  refine (wp_dirlookup_tree h1 hd hvd hdir hE name).bind ?_
  rintro o s2 (⟨rfl, h12, _⟩ | ⟨ip, m, rfl, _, _, h2, _, mv2⟩)
  · rw [h12]
    refine (wp_ialloc h1 (hE _ (by decide)) type).bind ?_
    rintro o s3 (⟨rfl, rfl⟩ | ⟨ip, rfl, h3, hst3, hnew, hpos, hlt⟩)
    · refine (wp_iunlockput_moved h1).bind ?_
      rintro _ t ⟨hb, mv⟩
      rw [wp_pure]
      exact ⟨⟨done_of_moved hb (mv1.trans mv), unchanged_of_moved (mv1.trans mv)⟩, by simp⟩
    · exact wp_createNew h1 hE hsb htype major minor hvd hdir hname mv1 h3 hst3 hnew hpos hlt
  · have mv12 : Moved r [] s s2 := mv1.trans (mv2.mono (hnil _))
    exact wp_createFound h2 (hm.moved mv12) mv12

end xv6.fs
