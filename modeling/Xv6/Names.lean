-- Path lookup. In a sound tree it reads the disk and changes nothing but the
-- inode table, and every inode it locks is in use.
import Xv6.Tree

open bytes ownership wp List

namespace xv6.fs

variable {sb : Superblock} {s t u : Fs} {r : Nat → Nat} {ts ts' : List Nat} {k ip dp : Nat}
  {E : Stop → Prop}

/-! ## Sound trees -/

def Tree.Closed (t : Tree) : Prop := ∀ d m e, t.ent d m = some e → t.type e.1 ≠ .free

/-- An inode without links is held by a file or a process, or it is one of `xs`. -/
def HeldOK (r : Nat → Nat) (xs : List Nat) (s : Fs) : Prop :=
  ∀ i, (tree s).type i ≠ .free → (tree s).nlink i = 0 →
    (∃ k < NINODE, 0 < r k ∧ (s.itable k).inum = i) ∨ i ∈ xs

/-- Inode `i` is in use, and has links unless it is read. -/
def SlotOK (i : Nat) (valid : Bool) (t : Tree) : Prop :=
  t.type i ≠ .free ∧ (valid = false → t.nlink i ≠ 0)

/-- The entries of the inode table in use hold inodes in use. -/
def SlotsOK (s : Fs) : Prop :=
  ∀ k < NINODE, 0 < (s.itable k).ref → SlotOK (s.itable k).inum (s.itable k).valid (tree s)

/-- What path lookup relies on. -/
structure Sound (r : Nat → Nat) (s : Fs) : Prop where
  closed : (tree s).Closed
  held : HeldOK r [] s
  root : (tree s).type ROOTINO ≠ .free
  slots : SlotsOK s

lemma Base.held_of_ref (h : Base sb r ts s) (hk : k < NINODE) (hpos : 0 < (s.itable k).ref) :
    Held r ts k := by
  refine ⟨hk, ?_⟩
  rw [h.refs k hk] at hpos
  by_cases hr : 0 < r k
  · exact .inl hr
  · exact .inr (count_pos_iff.mp (by omega))

lemma HeldOK.step {xs : List Nat} (h : HeldOK r xs s) (htree : tree t = tree s)
    (hst : Steady r ts s t) : HeldOK r xs t := by
  intro i hi hn
  rw [htree] at hi hn
  rcases h i hi hn with ⟨k, hk, hr, hki⟩ | hx
  · exact .inl ⟨k, hk, hr, (hst k ⟨hk, .inl hr⟩).1.trans hki⟩
  · exact .inr hx

lemma SlotsOK.of_held (h : SlotsOK s) (hb : Base sb r ts s) (hk : Held r ts k)
    (hst : (t.itable k).inum = (s.itable k).inum ∧
      ((s.itable k).valid = true → (t.itable k).valid = true)) :
    SlotOK (t.itable k).inum (t.itable k).valid (tree s) := by
  obtain ⟨h1, h2⟩ := h k hk.1 (hk.ref_pos hb)
  obtain ⟨hi, hv⟩ := hst
  rw [hi]
  refine ⟨h1, fun hf => h2 ?_⟩
  by_contra hne
  rw [hv (by simpa using hne)] at hf
  cases hf

lemma SlotsOK.step (h : SlotsOK s) (hb : Base sb r ts s) (hb' : Base sb r ts' t)
    (htree : tree t = tree s) (hst : Steady r ts s t)
    (hnew : ∀ k ∈ ts', k ∉ ts → SlotOK (t.itable k).inum (t.itable k).valid (tree s)) :
    SlotsOK t := by
  intro k hk hpos
  rw [htree]
  rcases (hb'.held_of_ref hk hpos).2 with hr | hm
  · exact h.of_held hb ⟨hk, .inl hr⟩ (hst k ⟨hk, .inl hr⟩)
  · by_cases hkt : k ∈ ts
    · exact h.of_held hb ⟨hk, .inr hkt⟩ (hst k ⟨hk, .inr hkt⟩)
    · exact hnew k hm hkt

lemma SlotsOK.put (h : SlotsOK s) (hb : Base sb r (k :: ts) s) (hb' : Base sb r ts t)
    (htree : tree t = tree s) (hst : Steady r ts s t) : SlotsOK t := by
  intro j hj hpos
  have hheld := hb'.held_of_ref hj hpos
  rw [htree]
  exact h.of_held hb (hheld.mono fun x hx => mem_cons_of_mem _ hx) (hst j hheld)

lemma Sound.step (h : Sound r s) (hb : Base sb r ts s) (hb' : Base sb r ts' t)
    (htree : tree t = tree s) (hst : Steady r ts s t)
    (hnew : ∀ k ∈ ts', k ∉ ts → SlotOK (t.itable k).inum (t.itable k).valid (tree s)) :
    Sound r t :=
  ⟨by rw [htree]; exact h.closed, h.held.step htree hst, by rw [htree]; exact h.root,
    h.slots.step hb hb' htree hst hnew⟩

lemma Sound.got (h : Sound r s) (hb : Base sb r ts s) {i : Nat} (hk : k < NINODE)
    (hi : (tree s).type i ≠ .free) (hg : Got i k s t) :
    SlotOK (t.itable k).inum (t.itable k).valid (tree s) := by
  obtain ⟨hki, ⟨hpos, hsi, hv⟩ | ⟨_, hno⟩⟩ := hg
  · rw [hki, hv, ← hsi]
    exact h.slots k hk hpos
  · rw [hki]
    refine ⟨hi, fun _ hn => ?_⟩
    rcases h.held i hi hn with ⟨j, hj, hr, hji⟩ | hx
    · refine hno j hj ?_ hji
      rw [hb.refs j hj]
      omega
    · cases hx

lemma HeldOK.not_last {xs : List Nat} (h : HeldOK r xs s) (hb : Base sb r (k :: ts) s)
    (hx : (s.itable k).inum ∉ xs) : ¬ Last r ts k s := by
  rintro ⟨hr0, _, hv, hn⟩
  have hk := hb.temps k mem_cons_self
  have hpos := (held_temp hb mem_cons_self).ref_pos hb
  obtain ⟨hs, ht⟩ := hb.synced k hk hpos hv
  have htd : (s.dinode (s.itable k).inum).type ≠ .free := by
    rw [← hs.type]
    exact ht
  obtain ⟨j, hj, hrj, hji⟩ := (h (s.itable k).inum htd (by simp [tree, hn])).resolve_right hx
  have hjpos : 0 < (s.itable j).ref := by
    rw [hb.refs j hj]
    omega
  have := hb.distinct j hj k hk hjpos hpos hji
  subst this
  omega

/-- What a path lookup does to the kernel. -/
structure Moved (r : Nat → Nat) (ts : List Nat) (s t : Fs) : Prop where
  steady : Steady r ts s t
  ftable : t.ftable = s.ftable
  proc : t.proc = s.proc
  quiet : Sound r s → Lookup s t ∧ Sound r t

lemma Moved.refl (r : Nat → Nat) (ts : List Nat) (s : Fs) : Moved r ts s s :=
  ⟨Steady.refl r ts s, rfl, rfl, fun h => ⟨Lookup.refl s, h⟩⟩

lemma Moved.trans (h : Moved r ts s t) (h' : Moved r ts t u) : Moved r ts s u := by
  refine ⟨h.steady.trans h'.steady, h'.ftable.trans h.ftable, h'.proc.trans h.proc, ?_⟩
  intro hs
  obtain ⟨hl, ht⟩ := h.quiet hs
  obtain ⟨hl', hu⟩ := h'.quiet ht
  exact ⟨hl.trans hl', hu⟩

lemma Moved.mono (h : Moved r ts' s t) (hts : ∀ k ∈ ts, k ∈ ts') : Moved r ts s t :=
  ⟨h.steady.mono hts, h.ftable, h.proc, h.quiet⟩

lemma moved_of_lookup (hb : Base sb r ts s) (hb' : Base sb r ts' t) (hl : Lookup s t)
    (hst : Steady r ts s t)
    (hnew : Sound r s → ∀ k ∈ ts', k ∉ ts →
      SlotOK (t.itable k).inum (t.itable k).valid (tree s)) :
    Moved r ts s t :=
  ⟨hst, hl.ftable, hl.proc, fun h => ⟨hl, h.step hb hb' (tree_lookup hl) hst (hnew h)⟩⟩

def guarded : List Stop := .panic "freeing free block" :: .panic "ilock: no type" :: fileStops

def Tolerates (E : Stop → Prop) : Prop := ∀ e, e ∉ guarded → E e

/-- Either the tree is sound, or a lookup may find a free inode. -/
def Mode (r : Nat → Nat) (s : Fs) (E : Stop → Prop) : Prop :=
  Sound r s ∨ E (.panic "ilock: no type")

lemma Mode.moved (h : Mode r s E) (hm : Moved r ts s t) : Mode r t E :=
  h.imp (fun hs => (hm.quiet hs).2) id

/-! ## The functions -/

lemma wp_iget_moved (h : Base sb r ts s) (hE : Tolerates E) {i : Nat}
    (hi : Sound r s → (tree s).type i ≠ .free) :
    Wp (iget i) (fun k t => Base sb r (k :: ts) t ∧ Moved r ts s t ∧ (t.itable k).inum = i) E s := by
  refine (wp_iget h (hE _ (by decide)) i).imp ?_
  rintro k t ⟨hb, hl, hst, hk, hg⟩
  refine ⟨hb, moved_of_lookup h hb hl hst ?_, hg.1⟩
  intro hs j hj hjt
  rcases mem_cons.mp hj with rfl | hj
  · exact hs.got h hk (hi hs) hg
  · exact absurd hj hjt

lemma wp_idup_moved (h : Base sb r ts s) (hk : Held r ts k) :
    Wp (idup k) (fun k' t => k' = k ∧ Base sb r (k :: ts) t ∧ Moved r ts s t ∧
      (t.itable k).inum = (s.itable k).inum) E s := by
  refine (wp_idup h hk).imp ?_
  rintro k' t ⟨rfl, hb, hl, hst, hi⟩
  refine ⟨rfl, hb, moved_of_lookup h hb hl hst ?_, hi⟩
  intro hs j hj hjt
  rcases mem_cons.mp hj with rfl | hj
  · exact hs.slots.of_held h hk (hst j hk)
  · exact absurd hj hjt

lemma wp_ilock_moved (h : Base sb r ts s) (hk : Held r ts k) (hm : Mode r s E) :
    Wp (ilock k) (fun _ t => Base sb r ts t ∧ Moved r ts s t ∧ Lookup s t ∧
      (t.itable k).valid = true ∧ ((s.itable k).valid = true → t = s)) E s := by
  refine (wp_ilock h hk ?_).imp ?_
  · intro hfree
    rcases hm with hs | he
    · exact absurd hfree (hs.slots k hk.1 (hk.ref_pos h)).1
    · exact he
  · rintro _ t ⟨hb, hl, hst, hv, hsame⟩
    exact ⟨hb, moved_of_lookup h hb hl hst fun _ j hj hjt => absurd hj hjt, hl, hv, hsame⟩

lemma wp_iput_moved (h : Base sb r (k :: ts) s) :
    Wp (iput k) (fun _ t => Base sb r ts t ∧ Moved r ts s t) E s := by
  refine (wp_iput h).imp ?_
  rintro _ t ⟨hb, hst, hcase⟩
  refine ⟨hb, hst, ?_, ?_, ?_⟩
  · rcases hcase with ⟨hl, _⟩ | ⟨_, hf⟩
    · exact hl.ftable
    · exact hf.ftable
  · rcases hcase with ⟨hl, _⟩ | ⟨_, hf⟩
    · exact hl.proc
    · exact hf.proc
  · intro hs
    rcases hcase with ⟨hl, _⟩ | ⟨hlast, _⟩
    · have htree := tree_lookup hl
      exact ⟨hl, by rw [htree]; exact hs.closed, hs.held.step htree hst,
        by rw [htree]; exact hs.root, hs.slots.put h hb htree hst⟩
    · exact absurd hlast (hs.held.not_last h (by simp))

lemma wp_iunlockput_moved (h : Base sb r (k :: ts) s) :
    Wp (iunlockput k) (fun _ t => Base sb r ts t ∧ Moved r ts s t) E s := by
  refine (wp_iunlock h (held_temp h mem_cons_self)).bind ?_
  rintro _ t rfl
  exact wp_iput_moved h

lemma Base.type_eq (h : Base sb r ts s) (hk : Held r ts k) (hv : (s.itable k).valid = true) :
    (s.itable k).type = (tree s).type (s.itable k).inum :=
  (h.synced k hk.1 (hk.ref_pos h) hv).1.type

lemma Base.ent_of_names (h : Base sb r ts s) (hk : Held r ts dp)
    (hv : (s.itable dp).valid = true) (hdir : (s.itable dp).type = .dir) {name : Name} {m : Nat}
    (hfits : DIRENT * m + DIRENT ≤ (s.itable dp).size) (hn : Names s (s.itable dp).inum name m) :
    (tree s).ent (s.itable dp).inum m = some ((entryAt s (s.itable dp).inum m).inum, name) := by
  obtain ⟨hs, _⟩ := h.synced dp hk.1 (hk.ref_pos h) hv
  rw [hs.size] at hfits
  have htd : (s.dinode (s.itable dp).inum).type = .dir := by
    rw [← hs.type]
    exact hdir
  simp [tree, htd, hfits, hn.1, hn.2]

def Tree.Lacks (t : Tree) (d : Nat) (name : Name) : Prop := ∀ m j, t.ent d m ≠ some (j, name)

lemma Base.lacks (h : Base sb r ts s) (hk : Held r ts dp) (hv : (s.itable dp).valid = true)
    {name : Name} (hno : ∀ m, DIRENT * m < (s.itable dp).size →
      DIRENT * m + DIRENT ≤ (s.itable dp).size ∧ ¬ Names s (s.itable dp).inum name m) :
    (tree s).Lacks (s.itable dp).inum name := by
  obtain ⟨hs, _⟩ := h.synced dp hk.1 (hk.ref_pos h) hv
  intro m j hm
  simp only [tree, ← hs.size] at hm
  split at hm
  · rename_i hc
    obtain ⟨_, hfits, h0⟩ := hc
    simp only [Option.some.injEq, Prod.mk.injEq] at hm
    have hD : 0 < DIRENT := by decide
    exact (hno m (by omega)).2 ⟨h0, hm.2⟩
  · cases hm

lemma wp_dirlookup_tree (h : Base sb r ts s) (hk : Held r ts dp)
    (hv : (s.itable dp).valid = true) (hdir : (s.itable dp).type = .dir) (hE : Tolerates E)
    (name : Name) :
    Wp (dirlookup sb dp name) (fun o t =>
      (o = none ∧ t = s ∧ (tree s).Lacks (s.itable dp).inum name) ∨
      ∃ k m, o = some (k, DIRENT * m) ∧ DIRENT * m + DIRENT ≤ (s.itable dp).size ∧
        (tree s).ent (s.itable dp).inum m = some ((t.itable k).inum, name) ∧
        Base sb r (k :: ts) t ∧ Lookup s t ∧ Moved r ts s t) E s := by
  refine (wp_dirlookup h hk hv (fun hne => absurd hdir hne) (.inr (hE _ (by decide)))
    (hE _ (by decide)) name).imp ?_
  rintro o t (⟨ho, rfl, hno⟩ | ⟨k, m, ho, hfits, hn, hb, hl, hst, hi⟩)
  · exact .inl ⟨ho, rfl, h.lacks hk hv hno⟩
  · have hent := h.ent_of_names hk hv hdir hfits hn
    refine .inr ⟨k, m, ho, hfits, ?_, hb, hl, ?_⟩
    · rw [hent, hi.1]
    · refine moved_of_lookup h hb hl hst ?_
      intro hs j hj hjt
      rcases mem_cons.mp hj with rfl | hj
      · exact hs.got h (hb.temps _ mem_cons_self) (hs.closed _ _ _ hent) hi
      · exact absurd hj hjt

/-! ## Paths -/

lemma skipelem_good {path rest : List UInt8} {name : Name}
    (h : skipelem path = some (rest, name)) : GoodName name := by
  unfold skipelem at h
  dsimp only at h
  split at h
  · cases h
  · simp only [Option.some.injEq, Prod.mk.injEq] at h
    obtain ⟨_, rfl⟩ := h
    refine ⟨by simp, ?_⟩
    intro h0
    have := mem_takeWhile_imp (mem_of_mem_take h0)
    simp at this

lemma elementsFrom_good (fuel : Nat) (path : List UInt8) :
    ∀ name ∈ elementsFrom fuel path, GoodName name := by
  induction fuel generalizing path with
  | zero => simp [elementsFrom]
  | succ fuel ih =>
    intro name hname
    unfold elementsFrom at hname
    split at hname
    · cases hname
    · rename_i rest first hskip
      rcases mem_cons.mp hname with rfl | hname
      · exact skipelem_good hskip
      · exact ih rest name hname

/-- What a path lookup returns: an inode that the call holds. For the parent of a path it is
a directory that is read, with the last element. -/
def Found (sb : Superblock) (r : Nat → Nat) (ts : List Nat) (parent : Bool)
    (o : Option (Nat × Name)) (t : Fs) : Prop :=
  match o with
  | none => Base sb r ts t
  | some (k, name) => Base sb r (k :: ts) t ∧ (parent = true →
      (t.itable k).valid = true ∧ (t.itable k).type = .dir ∧ GoodName name)

lemma wp_namexLoop (hE : Tolerates E) (parent : Bool) (names : List Name)
    (hgood : ∀ name ∈ names, GoodName name) (h : Base sb r (ip :: ts) s) (hm : Mode r s E) :
    Wp (namexLoop sb parent ip names) (fun o t => Moved r ts s t ∧ Found sb r ts parent o t) E s := by
  induction names generalizing ip s with
  | nil =>
    apply wp_ite <;> intro hp
    · refine (wp_iput_moved h).bind ?_
      rintro _ t ⟨hb, hmv⟩
      rw [wp_pure]
      exact ⟨hmv, hb⟩
    · rw [wp_pure]
      exact ⟨Moved.refl r ts s, h, fun hpt => absurd hpt hp⟩
  | cons name rest ih =>
    have hkeep : ∀ x ∈ ts, x ∈ ip :: ts := fun x hx => mem_cons_of_mem _ hx
    refine (wp_ilock_moved h (held_temp h mem_cons_self) hm).bind ?_
    rintro _ s1 ⟨h1, mv1, _, hv, _⟩
    have hheld := held_temp h1 mem_cons_self
    rw [wp_get_bind]
    apply wp_ite <;> intro hdir
    · refine (wp_iunlockput_moved h1).bind ?_
      rintro _ t ⟨hb, hmv⟩
      rw [wp_pure]
      exact ⟨(mv1.mono hkeep).trans hmv, hb⟩
    · have hdir : (s1.itable ip).type = .dir := by simpa using hdir
      apply wp_ite <;> intro _
      · refine (wp_iunlock h1 hheld).bind ?_
        rintro _ t rfl
        rw [wp_pure]
        exact ⟨mv1.mono hkeep, h1, fun _ => ⟨hv, hdir, hgood name mem_cons_self⟩⟩
      · refine (wp_dirlookup_tree h1 hheld hv hdir hE name).bind ?_
        rintro o s2 (⟨rfl, rfl, _⟩ | ⟨k, m, rfl, _, _, h2, _, mv2⟩)
        · refine (wp_iunlockput_moved h1).bind ?_
          rintro _ t ⟨hb, hmv⟩
          rw [wp_pure]
          exact ⟨(mv1.mono hkeep).trans hmv, hb⟩
        · have h2' : Base sb r (ip :: k :: ts) s2 := h2.perm (List.Perm.swap ip k ts)
          refine (wp_iunlockput_moved h2').bind ?_
          rintro _ s3 ⟨h3, mv3⟩
          have mv : Moved r ts s s3 := ((mv1.trans mv2).mono hkeep).trans
            (mv3.mono fun x hx => mem_cons_of_mem _ hx)
          refine (ih (fun n hn => hgood n (mem_cons_of_mem _ hn)) h3 (hm.moved mv)).imp ?_
          rintro o t ⟨mv4, hfound⟩
          exact ⟨mv.trans mv4, hfound⟩

lemma wp_namex (hE : Tolerates E) (parent : Bool) (path : List UInt8) {p : Nat}
    (h : Base sb r ts s) (hm : Mode r s E)
    (hcwd : ∀ k, (s.proc p).cwd = some k → Held r ts k) :
    Wp (namex sb p path parent) (fun o t => Moved r ts s t ∧ Found sb r ts parent o t) E s := by
  have hgood : ∀ name ∈ elements path, GoodName name := elementsFrom_good _ _
  apply wp_ite <;> intro _
  · refine (wp_iget_moved h hE fun hs => hs.root).bind ?_
    rintro k s1 ⟨h1, mv1, _⟩
    refine (wp_namexLoop hE parent _ hgood h1 (hm.moved mv1)).imp ?_
    rintro o t ⟨mv2, hfound⟩
    exact ⟨mv1.trans mv2, hfound⟩
  · rw [wp_get_bind]
    split
    · rw [wp_throw]
      exact hE _ (by decide)
    · rename_i cwd hc
      refine (wp_idup_moved h (hcwd cwd hc)).bind ?_
      rintro k s1 ⟨rfl, h1, mv1, _⟩
      refine (wp_namexLoop hE parent _ hgood h1 (hm.moved mv1)).imp ?_
      rintro o t ⟨mv2, hfound⟩
      exact ⟨mv1.trans mv2, hfound⟩

lemma wp_namei (hE : Tolerates E) (path : List UInt8) {p : Nat} (h : Base sb r ts s)
    (hm : Mode r s E) (hcwd : ∀ k, (s.proc p).cwd = some k → Held r ts k) :
    Wp (namei sb p path) (fun o t => Moved r ts s t ∧
      match o with
      | none => Base sb r ts t
      | some k => Base sb r (k :: ts) t) E s := by
  refine (wp_namex hE false path h hm hcwd).bind ?_
  rintro o t ⟨mv, hfound⟩
  rw [wp_pure]
  rcases o with _ | ⟨k, name⟩
  · exact ⟨mv, hfound⟩
  · exact ⟨mv, hfound.1⟩

end xv6.fs
