-- A directory is a finite map from names to inode numbers: `dirlink` adds to the
-- map, clearing an entry takes from it, and `dirlookup` reads it.
import Xv6.Lib.Machine
import Xv6.RawNames
import Xv6.RootImage

open bytes wp machine xv6.fs Function List

namespace xv6.raw

variable {sb : Superblock} {r : Nat → Nat} {ts : List Nat} {dp d k : Nat} {s t u : Fs}
  {E : Stop → Prop}

/-! ## Runs on one directory -/

inductive DirCall where
  | link (name : Bytes) (inum : Nat)
  | clear (name : Bytes)

def DirCall.name : DirCall → Name
  | .link name _ => cname name
  | .clear name => cname name

/-- A file system, and the map that the successful calls on the directory make. -/
structure DirState where
  fs : Fs
  map : Name → Option Nat

/-- One call on the directory of entry `dp` of the inode table. -/
def dirExec (sb : Superblock) (dp : Nat) (s : DirState) : DirCall → Except Stop DirState
  | .link name inum =>
    match (dirlink sb dp name inum).run s.fs with
    | .error e => .error e
    | .ok (x, t) =>
      .ok ⟨t, if x = 0 then update s.map (cname name) (some inum) else s.map⟩
  | .clear name =>
    match (clear sb dp name).run s.fs with
    | .error e => .error e
    | .ok (x, t) => .ok ⟨t, if x = 0 then update s.map (cname name) none else s.map⟩

def Linkable : DirCall → Prop
  | .link _ inum => 0 < inum ∧ inum < 65536
  | .clear _ => True

instance (c : DirCall) : Decidable (Linkable c) := by
  cases c
  all_goals unfold Linkable
  all_goals infer_instance

/-! ## Directories and maps -/

/-- No two entries in use have the same name. -/
def Unique (ent : Nat → Option (Nat × Name)) : Prop :=
  ∀ m m' j j' name, ent m = some (j, name) → ent m' = some (j', name) → m = m'

/-- The map says of each name what the entry of the name says. -/
def Shows (map : Name → Option Nat) (ent : Nat → Option (Nat × Name)) : Prop :=
  ∀ name j, map name = some j ↔ ∃ m, ent m = some (j, name)

/-- What the entries of directory `d` say about a name. -/
def contents (s : Fs) (d : Nat) (name : Name) : Option Nat :=
  (List.range ((s.dinode d).size / DIRENT)).findSome? fun m =>
    ((tree s).ent d m).bind fun e => if e.2 = name then some e.1 else none

lemma ent_fits {m : Nat} {e : Nat × Name} (h : (tree s).ent d m = some e) :
    DIRENT * m + DIRENT ≤ (s.dinode d).size := by
  simp only [tree] at h
  split at h
  · rename_i hc
    exact hc.2.1
  · cases h

lemma contents_shows (h : Unique ((tree s).ent d)) :
    Shows (contents s d) ((tree s).ent d) := by
  intro name j
  have hsome : ∀ m j, (((tree s).ent d m).bind fun e => if e.2 = name then some e.1 else none) =
      some j ↔ (tree s).ent d m = some (j, name) := by
    intro m j
    rcases (tree s).ent d m with _ | ⟨j', name'⟩
    · simp
    · simp only [Option.bind_some, Option.some.injEq, Prod.mk.injEq]
      grind -ring -linarith
  constructor
  · intro hc
    obtain ⟨m, _, hm⟩ := exists_of_findSome?_eq_some hc
    exact ⟨m, (hsome m j).mp hm⟩
  · rintro ⟨m, hm⟩
    have hlt : m < (s.dinode d).size / DIRENT := by
      have hfits := ent_fits hm
      simp only [DIRENT] at hfits ⊢
      omega
    have hfound : (contents s d name).isSome := by
      unfold contents
      rw [findSome?_isSome_iff]
      refine ⟨m, mem_range.mpr hlt, ?_⟩
      rw [(hsome m j).mpr hm]
      rfl
    obtain ⟨j', hj'⟩ := Option.isSome_iff_exists.mp hfound
    obtain ⟨m', _, hm'⟩ := exists_of_findSome?_eq_some hj'
    rw [hsome] at hm'
    obtain rfl := h _ _ _ _ _ hm hm'
    rw [hm] at hm'
    rw [hj', (Prod.mk.inj (Option.some.inj hm')).1]

/-! ## What one call does -/

/-- Entry `dp` of the inode table is the directory `d`, read from the disk. -/
structure Dir (sb : Superblock) (r : Nat → Nat) (ts : List Nat) (dp d : Nat) (s : Fs) : Prop where
  base : Base sb r ts s
  held : Held r ts dp
  valid : (s.itable dp).valid = true
  inum : (s.itable dp).inum = d
  type : (tree s).type d = .dir

lemma Dir.synced (h : Dir sb r ts dp d s) : Synced s dp :=
  (h.base.synced dp h.held.1 (h.held.ref_pos h.base) h.valid).1

lemma Dir.dir (h : Dir sb r ts dp d s) : (s.itable dp).type = .dir := by
  rw [h.synced.type, h.inum]
  exact h.type

lemma Dir.steady (h : Dir sb r ts dp d s) (hb : Base sb r ts t) (hst : Steady r ts s t)
    (htype : (tree t).type d = .dir) : Dir sb r ts dp d t := by
  obtain ⟨h1, h2⟩ := hst dp h.held
  exact ⟨hb, h.held, h2 h.valid, h1.trans h.inum, htype⟩

lemma Dir.tree_setEnt (h : Dir sb r ts dp d s) (hb : Base sb r ts t) (hst : Steady r ts s t)
    {m : Nat} {e : Option (Nat × Name)} (ht : tree t = (tree s).setEnt d m e) :
    Dir sb r ts dp d t := by
  refine h.steady hb hst ?_
  rw [ht]
  exact h.type

/-- The panics of a lookup: no entry of the inode table is free, or the directory ends in a part
of an entry. -/
def Stuck (dp : Nat) (s : Fs) (e : Stop) : Prop :=
  e = .panic "iget: no inodes" ∨
    ¬ DIRENT ∣ (s.itable dp).size ∧ (e = .panic "dirlookup read" ∨ e = .panic "dirlink read")

lemma whole_or_stuck (hE : ∀ e, Stuck dp s e → E e) {e : Stop}
    (he : e = .panic "dirlookup read" ∨ e = .panic "dirlink read") :
    DIRENT ∣ (s.itable dp).size ∨ E e := by
  by_cases hd : DIRENT ∣ (s.itable dp).size
  · exact .inl hd
  · exact .inr (hE e (.inr ⟨hd, he⟩))

lemma Dir.wp_dirlookup (h : Dir sb r ts dp d s) (hE : ∀ e, Stuck dp s e → E e) (name : Bytes) :
    Wp (raw.dirlookup sb dp name) (fun o t =>
      (o = none ∧ t = s ∧ (tree s).Lacks d (cname name)) ∨
      ∃ k m j, o = some (k, DIRENT * m) ∧ (tree s).ent d m = some (j, cname name) ∧
        (t.itable k).inum = j ∧ Lookup s t ∧ Steady r ts s t ∧ Dir sb r (k :: ts) dp d t ∧
        ¬ Last r ts k t) E s := by
  rw [dirlookup_eq]
  refine (fs.wp_dirlookup h.base h.held h.valid (fun hne => absurd h.dir hne)
    (whole_or_stuck hE (.inl rfl)) (hE _ (.inl rfl)) (cname name)).imp ?_
  rintro o t (⟨ho, ht, hno⟩ | ⟨k, m, ho, hfits, hn, hb, hl, hst, hg⟩)
  · refine .inl ⟨ho, ht, ?_⟩
    rw [← h.inum]
    exact h.base.lacks h.held h.valid hno
  · have hent := h.base.ent_of_names h.held h.valid h.dir hfits hn
    have hk := hb.temps k mem_cons_self
    obtain ⟨h1, h2⟩ := hst dp h.held
    have hheld : Held r (k :: ts) dp := h.held.mono fun _ => mem_cons_of_mem k
    rw [h.inum] at hent hg
    refine .inr ⟨k, m, _, ho, hent, hg.1, hl, hst,
      ⟨hb, hheld, h2 h.valid, h1.trans h.inum, ?_⟩, hg.not_last h.base hk⟩
    rw [tree_lookup hl]
    exact h.type

lemma Dir.wp_dirlink (h : Dir sb r ts dp d s) (hE : ∀ e, Stuck dp s e → E e) (name : Bytes)
    {inum : Nat} (h0 : 0 < inum) (h1 : inum < 65536) :
    Wp (raw.dirlink sb dp name inum) (fun x t => Dir sb r ts dp d t ∧
      (x = -1 ∧ (∃ m j, (tree s).ent d m = some (j, cname name)) ∧ Lookup s t ∨
        (tree s).Lacks d (cname name) ∧ (x = -1 ∧ tree t = tree s ∨
          x = 0 ∧ ∃ m, (tree s).ent d m = none ∧
            tree t = (tree s).setEnt d m (some (inum, cname name))))) E s := by
  rw [dirlink_eq]
  refine (fs.wp_dirlink h.base h.held h.valid (fun hne => absurd h.dir hne)
    (whole_or_stuck hE (.inl rfl)) (hE _ (.inl rfl)) (whole_or_stuck hE (.inr rfl))
    (goodName_cname name) inum).imp ?_
  rintro x t ⟨hb, hst, ⟨rfl, k, m, u, hfits, hn, hbu, hl, _, hg, _, hput⟩ | ⟨hno, hw, hx⟩⟩
  · have hent := h.base.ent_of_names h.held h.valid h.dir hfits hn
    rw [h.inum] at hent
    have hlast := hg.not_last h.base (hbu.temps k mem_cons_self)
    have hlt := hl.trans (hput.resolve_right fun hf => hlast hf.1).1
    refine ⟨h.steady hb hst ?_, .inl ⟨rfl, ⟨m, _, hent⟩, hlt⟩⟩
    rw [tree_lookup hlt]
    exact h.type
  · have hlacks := h.base.lacks h.held h.valid hno
    rw [h.inum] at hlacks
    rcases hx with ⟨rfl, m, hset, hm⟩ | ⟨rfl, hsame⟩
    · have hle : DIRENT * m ≤ (s.itable dp).size := by omega
      have hnone := h.base.ent_none h.held h.valid hm
      have htree := tree_setEntry h.base.owned h.synced h.dir hw hle (hset h1)
      rw [h.inum] at hnone htree
      have htree : tree t = (tree s).setEnt d m (some (inum, cname name)) := by
        rw [htree]
        simp [Dirent.toEnt, Nat.ne_of_gt h0]
      exact ⟨h.tree_setEnt hb hst htree, .inr ⟨hlacks, .inr ⟨rfl, m, hnone, htree⟩⟩⟩
    · have htree := tree_sameEntries h.base.owned h.synced hw hsame
      refine ⟨h.steady hb hst ?_, .inr ⟨hlacks, .inl ⟨rfl, htree⟩⟩⟩
      rw [htree]
      exact h.type

lemma Dir.last_of_wrote (h : Dir sb r (k :: ts) dp d s) (hheld : Held r ts dp)
    (hw : Wrote dp s t) (hlast : Last r ts k t) : Last r ts k s := by
  obtain ⟨hr0, hts, hv, hn⟩ := hlast
  have hne : k ≠ dp := by
    rintro rfl
    rcases hheld.2 with h0 | h0
    · omega
    · exact hts h0
  have hk := held_temp h.base mem_cons_self
  have hinum : (s.itable k).inum ≠ (s.itable dp).inum := fun he => hne
    (h.base.distinct k hk.1 dp h.held.1 (hk.ref_pos h.base) (h.held.ref_pos h.base) he)
  rw [hw.others k hne] at hv hn
  rw [hw.dinode, update_of_ne hinum] at hn
  exact ⟨hr0, hts, hv, hn⟩

lemma Dir.wp_clear (h : Dir sb r ts dp d s) (hE : ∀ e, E e) (name : Bytes) :
    Wp (clear sb dp name) (fun x t => Dir sb r ts dp d t ∧
      (x = -1 ∧ t = s ∧ (tree s).Lacks d (cname name) ∨
        x = 0 ∧ ∃ m j, (tree s).ent d m = some (j, cname name) ∧
          tree t = (tree s).setEnt d m none)) E s := by
  refine (h.wp_dirlookup (fun e _ => hE e) name).bind ?_
  rintro o u (⟨rfl, rfl, hno⟩ | ⟨k, m, j, rfl, hent, _, hl, hst, hu, hlast⟩)
  · rw [wp_pure]
    exact ⟨h, .inl ⟨rfl, rfl, hno⟩⟩
  · refine (wp_writeEntry hu.base hu.held hu.valid (fun _ _ => rfl) m).bind ?_
    rintro x v ⟨hbv, hsv, hw, ⟨hx, hle, hset⟩ | ⟨hx, _⟩⟩
    · rw [if_pos hx]
      have hlast' : ¬ Last r ts k v := fun hv => hlast (hu.last_of_wrote h.held hw hv)
      refine (wp_iput hbv).bind ?_
      rintro _ t ⟨hb, hst', hput⟩
      rw [wp_pure]
      have hlt := (hput.resolve_right fun hf => hlast' hf.1).1
      have hsv' : Steady r ts u v := hsv.mono fun _ => mem_cons_of_mem k
      have htree : tree t = (tree s).setEnt d m none := by
        rw [tree_lookup hlt, tree_setEntry hu.base.owned hu.synced hu.dir hw hle hset, hu.inum,
          tree_lookup hl]
        rfl
      exact ⟨h.tree_setEnt hb (hst.trans (hsv'.trans hst')) htree, .inr ⟨rfl, m, j, hent, htree⟩⟩
    · rw [if_neg hx, wp_throw]
      exact hE _

/-! ## The map -/

variable {ent : Nat → Option (Nat × Name)} {map : Name → Option Nat} {m j : Nat} {name : Name}

lemma Unique.add (h : Unique ent) (hno : ∀ m j, ent m ≠ some (j, name)) :
    Unique (update ent m (some (j, name))) := by
  intro m₁ m₂ j₁ j₂ n h₁ h₂
  grind -ring -linarith [Unique]

lemma Unique.remove (h : Unique ent) : Unique (update ent m none) := by
  intro m₁ m₂ j₁ j₂ n h₁ h₂
  grind -ring -linarith [Unique]

lemma Shows.add (h : Shows map ent) (hnone : ent m = none)
    (hno : ∀ m j, ent m ≠ some (j, name)) :
    Shows (update map name (some j)) (update ent m (some (j, name))) := by
  intro n i
  simp only [update_apply]
  by_cases hn : n = name
  · subst hn
    rw [if_pos rfl]
    constructor
    · intro hi
      exact ⟨m, by simp_all⟩
    · rintro ⟨x, hx⟩
      grind -ring -linarith
  · rw [if_neg hn, h]
    constructor
    · rintro ⟨x, hx⟩
      exact ⟨x, by grind -ring -linarith⟩
    · rintro ⟨x, hx⟩
      exact ⟨x, by grind -ring -linarith⟩

lemma Shows.remove (h : Shows map ent) (hu : Unique ent) (hm : ent m = some (j, name)) :
    Shows (update map name none) (update ent m none) := by
  intro n i
  simp only [update_apply]
  by_cases hn : n = name
  · subst hn
    simp only [if_true]
    constructor
    · intro hi
      cases hi
    · rintro ⟨x, hx⟩
      grind -ring -linarith [Unique]
  · rw [if_neg hn, h]
    constructor
    · rintro ⟨x, hx⟩
      exact ⟨x, by grind -ring -linarith⟩
    · rintro ⟨x, hx⟩
      exact ⟨x, by grind -ring -linarith⟩

/-- The map stands for the directory. -/
structure Stands (sb : Superblock) (r : Nat → Nat) (ts : List Nat) (dp d : Nat) (s : DirState) :
    Prop where
  dir : Dir sb r ts dp d s.fs
  unique : Unique ((tree s.fs).ent d)
  shows : Shows s.map ((tree s.fs).ent d)

/-- Entries of other names are as they were. -/
def Others (name : Name) (ent ent' : Nat → Option (Nat × Name)) : Prop :=
  ∀ m j n, n ≠ name → (ent' m = some (j, n) ↔ ent m = some (j, n))

lemma Others.set {e : Option (Nat × Name)} (hold : ∀ x, ent m = some x → x.2 = name)
    (hnew : ∀ x, e = some x → x.2 = name) : Others name ent (update ent m e) := by
  intro m' j' n hn
  rw [update_apply]
  split
  · rename_i hm
    rw [hm]
    exact iff_of_false (fun he => hn (hnew _ he)) (fun he => hn (hold _ he))
  · rfl

lemma Stands.same {s : DirState} (h : Stands sb r ts dp d s) (hd : Dir sb r ts dp d t)
    (htree : tree t = tree s.fs) : Stands sb r ts dp d ⟨t, s.map⟩ ∧
      Others name ((tree s.fs).ent d) ((tree t).ent d) := by
  rw [htree]
  refine ⟨⟨hd, ?_, ?_⟩, fun _ _ _ _ => Iff.rfl⟩
  · simp only [htree]
    exact h.unique
  · simp only [htree]
    exact h.shows

lemma ent_setEnt (T : Tree) (d m : Nat) (e : Option (Nat × Name)) :
    (T.setEnt d m e).ent d = update (T.ent d) m e := by
  simp [Tree.setEnt]

lemma Stands.exec {s t : DirState} {c : DirCall} (h : Stands sb r ts dp d s) (hc : Linkable c)
    (he : dirExec sb dp s c = .ok t) :
    Stands sb r ts dp d t ∧ Others c.name ((tree s.fs).ent d) ((tree t.fs).ent d) := by
  rcases c with ⟨name, inum⟩ | name
  · have hw := h.dir.wp_dirlink (E := fun _ => True) (fun _ _ => trivial) name hc.1 hc.2
    simp only [dirExec] at he
    split at he
    · cases he
    · rename_i x u hrun
      obtain rfl := Except.ok.inj he
      obtain ⟨hd, ⟨rfl, _, hl⟩ | ⟨hno, ⟨rfl, htree⟩ | ⟨rfl, m, hnone, htree⟩⟩⟩ := hw.of_ok hrun
      · exact h.same hd (tree_lookup hl)
      · exact h.same hd htree
      · have hent : (tree u).ent d =
            update ((tree s.fs).ent d) m (some (inum, cname name)) := by
          rw [htree, ent_setEnt]
        refine ⟨⟨hd, ?_, ?_⟩, ?_⟩
        · simp only [hent]
          exact h.unique.add hno
        · simp only [hent]
          exact h.shows.add hnone hno
        · simp only [hent]
          exact Others.set (by simp [hnone]) (by rintro _ ⟨⟩; rfl)
  · have hw := h.dir.wp_clear (E := fun _ => True) (fun _ => trivial) name
    simp only [dirExec] at he
    split at he
    · cases he
    · rename_i x u hrun
      obtain rfl := Except.ok.inj he
      obtain ⟨hd, ⟨rfl, rfl, hno⟩ | ⟨rfl, m, j, hm, htree⟩⟩ := hw.of_ok hrun
      · exact h.same hd rfl
      · have hent : (tree u).ent d = update ((tree s.fs).ent d) m none := by
          rw [htree, ent_setEnt]
        refine ⟨⟨hd, ?_, ?_⟩, ?_⟩
        · simp only [hent]
          exact h.unique.remove
        · simp only [hent]
          exact h.shows.remove h.unique hm
        · simp only [hent]
          exact Others.set (by rw [hm]; rintro _ ⟨⟩; rfl) (by simp)

/-- Calls of `dirlink` and clearings of entries on a directory whose names differ: the names
still differ; `dirlookup` gives the inode of the last successful `dirlink` of the name that was
not cleared, with the offset of the entry, or nothing; `dirlink` of a name that is there gives -1
and leaves the disk as it was; and no call changes the entries of other names. -/
theorem directory_refines_map {s₀ : Fs} {s : DirState} (h : Dir sb r ts dp d s₀)
    (hu : Unique ((tree s₀).ent d))
    (hr : Run (dirExec sb dp) (fun _ => Linkable) ⟨s₀, contents s₀ d⟩ s) :
    Unique ((tree s.fs).ent d) ∧
    (∀ name, Wp (dirlookup sb dp name) (fun o t => Lookup s.fs t ∧
      match s.map (cname name) with
      | none => o = none
      | some j => ∃ k m, o = some (k, DIRENT * m) ∧ (t.itable k).inum = j ∧
          (tree s.fs).ent d m = some (j, cname name)) (Stuck dp s.fs) s.fs) ∧
    (∀ name inum, s.map (cname name) ≠ none → 0 < inum → inum < 65536 →
      Wp (dirlink sb dp name inum) (fun x t => x = -1 ∧ Lookup s.fs t) (Stuck dp s.fs) s.fs) ∧
    ∀ c t, Linkable c → dirExec sb dp s c = .ok t →
      Others c.name ((tree s.fs).ent d) ((tree t.fs).ent d) := by
  have hs : Stands sb r ts dp d s := hr.invariant (I := Stands sb r ts dp d)
    ⟨h, hu, contents_shows hu⟩ fun _ _ _ hs hc he => (hs.exec hc he).1
  refine ⟨hs.unique, fun name => ?_, fun name inum hj h0 h1 => ?_,
    fun c t hc he => (hs.exec hc he).2⟩
  · refine (hs.dir.wp_dirlookup (fun _ he => he) name).imp ?_
    rintro o t (⟨ho, rfl, hno⟩ | ⟨k, m, j, ho, hm, hk, hl, _⟩)
    · refine ⟨Lookup.refl _, ?_⟩
      split
      · exact ho
      · rename_i j hj
        obtain ⟨m, hm⟩ := (hs.shows _ _).mp hj
        exact absurd hm (hno m j)
    · rw [(hs.shows (cname name) j).mpr ⟨m, hm⟩]
      exact ⟨hl, k, m, ho, hk, hm⟩
  · obtain ⟨j, hj⟩ := Option.ne_none_iff_exists'.mp hj
    obtain ⟨m, hm⟩ := (hs.shows _ _).mp hj
    refine (hs.dir.wp_dirlink (fun _ he => he) name h0 h1).imp ?_
    rintro x t ⟨_, ⟨hx, _, hl⟩ | ⟨hno, _⟩⟩
    · exact ⟨hx, hl⟩
    · exact absurd hm (hno m j)

/-! ## The root directory of the smallest image -/

lemma dir_openedRoot :
    Dir rootSb (holders openedRoot.ftable openedRoot.proc) [] 0 ROOTINO openedRoot := by
  have hk : Kernel rootSb openedRoot :=
    Run.kernel wellFormed_rootImage (.next (.boot booted_ok) allowed_openRoot openedRoot_ok)
  refine ⟨hk.base, ⟨by decide, .inl (by decide +kernel)⟩, by rfl, by rfl, ?_⟩
  rw [tree_openedRoot, type_rootImage, if_pos rfl]

lemma unique_openedRoot : Unique ((tree openedRoot).ent ROOTINO) := by
  intro m m' j j' name h h'
  rw [tree_openedRoot, ent_rootImage] at h h'
  have hne : dot ≠ dotdot := by decide
  grind -ring -linarith

def longName (n : Nat) : Bytes := fun i => if i < n then 97 + UInt8.ofNat i else 0

/-- A name of more than DIRSIZ bytes is linked, found present under another longer name, cleared
under it and linked again. -/
theorem directory_refines_map_root : ∃ s, Run (dirExec rootSb 0) (fun _ => Linkable)
    ⟨openedRoot, contents openedRoot ROOTINO⟩ s ∧ s.map (cname (longName 16)) = some 9 ∧
      Unique ((tree s.fs).ent ROOTINO) := by
  obtain ⟨s, hrun, htest⟩ := exists_played (dirExec rootSb 0) (fun _ => Linkable)
    ⟨openedRoot, contents openedRoot ROOTINO⟩
    [.link (longName 16) 7, .link (longName 20) 8, .clear (longName 20), .link (longName 20) 9]
    (fun _ c => decide (Linkable c)) (fun s => s.map (cname (longName 16)) = some 9)
    (fun _ _ h => of_decide_eq_true h) (by decide +kernel)
  exact ⟨s, hrun, by simpa using htest,
    (directory_refines_map dir_openedRoot unique_openedRoot hrun).1⟩

end xv6.raw
