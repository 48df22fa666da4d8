-- Directory trees in which no inode has fewer links than are counted for it.
-- Every step keeps this, as long as no directory is freed that the ".." of
-- another still names, and no link count overflows.
import Xv6.LinkCounts
import Xv6.Linking

open count ownership Function

namespace xv6.fs

variable {n d m i j : Nat} {T T' T'' : Tree} {name : Name} {F G : Nat → Prop}

attribute [local simp] Tree.setNlink Tree.alloc Tree.setEnt Tree.newDir

/-! ## Good trees -/

/-- What holds of the tree of every disk. -/
structure Treelike (T : Tree) : Prop where
  dirs : ∀ d m, T.ent d m ≠ none → T.type d = .dir
  bound : ∀ d m, T.ent d m ≠ none → m < MAXENT
  free : ∀ i, T.type i = .free → T.nlink i = 0

lemma treelike_tree {sb : Superblock} {s : Fs} (h : Owned sb s) : Treelike (tree s) := by
  have hent : ∀ d m, (tree s).ent d m ≠ none → (s.dinode d).type = .dir ∧
      DIRENT * m + DIRENT ≤ (s.dinode d).size := by
    intro d m hne
    by_contra hc
    apply hne
    simp only [tree]
    rw [if_neg fun hp => hc ⟨hp.1, hp.2.1⟩]
  refine ⟨fun d m hne => (hent d m hne).1, fun d m hne => ?_, fun i hi => ?_⟩
  · obtain ⟨hd, hm⟩ := hent d m hne
    have hsize := h.sizes d (by rw [hd]; decide)
    have hmax : MAXFILE * BSIZE = DIRENT * MAXENT := by decide
    have hD : 0 < DIRENT := by decide
    rw [hmax] at hsize
    have : DIRENT * (m + 1) ≤ DIRENT * MAXENT := by
      rw [Nat.mul_succ]
      omega
    exact Nat.le_of_mul_le_mul_left this hD
  · have hfree : (s.dinode i).type = .free := hi
    simp [tree, hfree]

/-- The first two entries of a directory are "." and "..", the others name inodes in use,
and no inode in use has fewer links than are counted. -/
structure Good (n : Nat) (T : Tree) : Prop extends Treelike T where
  range : ∀ i, T.type i ≠ .free → 0 < i ∧ i < n
  root : T.type ROOTINO = .dir
  dots : ∀ d, T.type d = .dir → T.ent d 0 = some (d, dot) ∧
    ∃ p, T.ent d 1 = some (p, dotdot) ∧ T.type p = .dir
  names : ∀ d m i name, 2 ≤ m → T.ent d m = some (i, name) →
    name ≠ dot ∧ name ≠ dotdot ∧ T.type i ≠ .free
  slack : ∀ i, T.type i ≠ .free → (links n T i : Int) ≤ T.nlink i
  le : ∀ i, T.nlink i ≤ 32767

lemma Good.nonneg (h : Good n T) (i : Nat) : 0 ≤ T.nlink i := by
  by_cases hi : T.type i = .free
  · rw [h.free i hi]
  · have := h.slack i hi
    omega

lemma Good.closed (h : Good n T) : T.Closed := by
  intro d m e he
  have hd := h.dirs d m (by rw [he]; simp)
  obtain ⟨h0, p, h1, hp⟩ := h.dots d hd
  obtain ⟨i, name⟩ := e
  have hm : m = 0 ∨ m = 1 ∨ 2 ≤ m := by omega
  rcases hm with rfl | rfl | hm
  · rw [h0] at he
    cases he
    rw [hd]
    decide
  · rw [h1] at he
    cases he
    rw [hp]
    decide
  · exact (h.names d m i name hm he).2.2

lemma Good.two_le (h : Good n T) (he : T.ent d m = some (i, name)) (h1 : name ≠ dot)
    (h2 : name ≠ dotdot) : 2 ≤ m := by
  obtain ⟨e0, p, e1, _⟩ := h.dots d (h.dirs d m (by rw [he]; simp))
  by_contra hlt
  have hm : m = 0 ∨ m = 1 := by omega
  rcases hm with rfl | rfl
  · rw [e0] at he
    cases he
    exact h1 rfl
  · rw [e1] at he
    cases he
    exact h2 rfl

lemma Good.two_le_of_none (h : Good n T) (hd : T.type d = .dir) (he : T.ent d m = none) :
    2 ≤ m := by
  obtain ⟨e0, p, e1, _⟩ := h.dots d hd
  by_contra hlt
  have hm : m = 0 ∨ m = 1 := by omega
  rcases hm with rfl | rfl
  · rw [e0] at he
    cases he
  · rw [e1] at he
    cases he

lemma Good.name_ne (h : Good n T) (hd : T.type d = .dir) (hl : T.Lacks d name) :
    name ≠ dot ∧ name ≠ dotdot := by
  obtain ⟨e0, p, e1, _⟩ := h.dots d hd
  refine ⟨?_, ?_⟩
  · rintro rfl
    exact hl 0 d e0
  · rintro rfl
    exact hl 1 p e1

lemma Good.naming_pos (h : Good n T) (he : T.ent d m = some (i, name)) (h1 : name ≠ dot)
    (h2 : name ≠ dotdot) : 0 < naming n T i := by
  have hne : T.ent d m ≠ none := by
    rw [he]
    simp
  have hd := h.range d (by rw [h.dirs d m hne]; decide)
  exact fs.naming_pos.mpr ⟨d, m, hd.2, h.bound d m hne, by rw [he]; exact proper_some h1 h2⟩

/-! ## Freeing -/

/-- The inodes of `F` had no links and are free now; the others are as they were. -/
structure Frees (F : Nat → Prop) (T T' : Tree) : Prop where
  was : ∀ j, F j → T.type j ≠ .free ∧ T.nlink j = 0
  gone : ∀ j, F j → T'.type j = .free ∧ T'.nlink j = 0 ∧ ∀ m, T'.ent j m = none
  rest : ∀ j, ¬ F j → T'.type j = T.type j ∧ T'.nlink j = T.nlink j ∧ T'.ent j = T.ent j

lemma Frees.refl (T : Tree) : Frees (fun _ => False) T T :=
  ⟨fun _ h => h.elim, fun _ h => h.elim, fun _ _ => ⟨rfl, rfl, rfl⟩⟩

lemma Dropped.frees (h : Dropped i T T') : ∃ F, Frees F T T' ∧ ∀ j, F j → j = i := by
  rcases h with rfl | ⟨h1, h2, rfl⟩
  · exact ⟨_, Frees.refl _, fun _ h => h.elim⟩
  · refine ⟨fun j => j = i, ⟨?_, ?_, ?_⟩, fun _ h => h⟩
    · rintro j rfl
      exact ⟨h1, h2⟩
    · rintro j rfl
      simp [Tree.free]
    · intro j hj
      simp [Tree.free, hj]

lemma Frees.trans (h : Frees F T T') (h' : Frees G T' T'') :
    Frees (fun j => F j ∨ G j) T T'' := by
  have hno : ∀ j, G j → ¬ F j := by
    intro j hg hf
    exact (h'.was j hg).1 (h.gone j hf).1
  refine ⟨?_, ?_, ?_⟩
  · rintro j (hf | hg)
    · exact h.was j hf
    · obtain ⟨h1, h2, _⟩ := h.rest j (hno j hg)
      rw [← h1, ← h2]
      exact h'.was j hg
  · rintro j (hf | hg)
    · have hng : ¬ G j := fun hg => hno j hg hf
      obtain ⟨h1, h2, h3⟩ := h'.rest j hng
      obtain ⟨e1, e2, e3⟩ := h.gone j hf
      exact ⟨h1.trans e1, h2.trans e2, fun m => by rw [h3]; exact e3 m⟩
    · exact h'.gone j hg
  · intro j hj
    rw [not_or] at hj
    obtain ⟨h1, h2, h3⟩ := h.rest j hj.1
    obtain ⟨e1, e2, e3⟩ := h'.rest j hj.2
    exact ⟨e1.trans h1, e2.trans h2, e3.trans h3⟩

lemma Frees.treelike (h : Frees F T T') (ht : Treelike T) : Treelike T' := by
  have hent : ∀ d m, T'.ent d m ≠ none → ¬ F d ∧ T.ent d m ≠ none := by
    intro d m hne
    have hF : ¬ F d := fun hF => hne ((h.gone d hF).2.2 m)
    rw [(h.rest d hF).2.2] at hne
    exact ⟨hF, hne⟩
  refine ⟨fun d m hne => ?_, fun d m hne => ht.bound d m (hent d m hne).2, fun i hi => ?_⟩
  · rw [(h.rest d (hent d m hne).1).1]
    exact ht.dirs d m (hent d m hne).2
  · by_cases hF : F i
    · exact (h.gone i hF).2.1
    · obtain ⟨h1, h2, _⟩ := h.rest i hF
      rw [h2]
      exact ht.free i (by rw [← h1]; exact hi)

lemma Good.frees (h : Good n T) (hf : Frees F T T')
    (hdots : ∀ c d, F d → T.type d = .dir → ¬ F c → T.type c = .dir →
      T.ent c 1 ≠ some (d, dotdot)) : Good n T' := by
  have hlinks : ∀ j, F j → links n T j = 0 := by
    intro j hF
    obtain ⟨h1, h2⟩ := hf.was j hF
    have := h.slack j h1
    omega
  have hused : ∀ j, T'.type j ≠ .free → ¬ F j := fun j hj hF => hj (hf.gone j hF).1
  have hkeep : ∀ d m e, T'.ent d m = some e → ¬ F d ∧ T.ent d m = some e := by
    intro d m e he
    have hF : ¬ F d := fun hF => by
      rw [(hf.gone d hF).2.2 m] at he
      cases he
    rw [(hf.rest d hF).2.2] at he
    exact ⟨hF, he⟩
  refine ⟨hf.treelike h.toTreelike, ?_, ?_, ?_, ?_, ?_, ?_⟩
  · intro i hi
    rw [(hf.rest i (hused i hi)).1] at hi
    exact h.range i hi
  · have hroot : ¬ F ROOTINO := by
      intro hF
      have := hlinks _ hF
      simp [links] at this
    rw [(hf.rest _ hroot).1]
    exact h.root
  · intro d hd
    have hF : ¬ F d := hused d (by rw [hd]; decide)
    obtain ⟨h1, _, h3⟩ := hf.rest d hF
    rw [h1] at hd
    obtain ⟨e0, p, e1, hp⟩ := h.dots d hd
    have hFp : ¬ F p := fun hFp => hdots d p hFp hp hF hd e1
    rw [h3]
    exact ⟨e0, p, e1, by rw [(hf.rest p hFp).1]; exact hp⟩
  · intro d m i name hm he
    obtain ⟨_, he⟩ := hkeep d m _ he
    obtain ⟨h1, h2, h3⟩ := h.names d m i name hm he
    have hF : ¬ F i := by
      intro hF
      have h0 := hlinks i hF
      have hpos := h.naming_pos he h1 h2
      unfold links at h0
      omega
    exact ⟨h1, h2, by rw [(hf.rest i hF).1]; exact h3⟩
  · intro i hi
    obtain ⟨h1, h2, _⟩ := hf.rest i (hused i hi)
    rw [h1] at hi
    rw [h2]
    refine le_trans ?_ (h.slack i hi)
    have hn : naming n T' i ≤ naming n T i := by
      refine naming_le fun d m hp => ?_
      obtain ⟨name, he, _⟩ := proper_eq_some.mp hp
      rw [← (hkeep d m _ he).2.trans he.symm] at hp
      exact hp
    have hs : subdirs T' i ≤ subdirs T i := by
      refine subdirs_le fun m hp => ?_
      obtain ⟨j, hp, hj⟩ := namesDir_iff.mp hp
      obtain ⟨name, he, _⟩ := proper_eq_some.mp hp
      refine namesDir_iff.mpr ⟨j, ?_, ?_⟩
      · rw [← (hkeep i m _ he).2.trans he.symm] at hp
        exact hp
      · rw [← (hf.rest j (hused j (by rw [hj]; decide))).1]
        exact hj
    unfold links
    omega
  · intro i
    by_cases hF : F i
    · rw [(hf.gone i hF).2.1]
      decide
    · rw [(hf.rest i hF).2.1]
      exact h.le i

/-! ## The edits -/

def NoOverflow (T : Tree) : Prop := ∀ i, 0 ≤ T.nlink i

lemma short_succ {x : Int} (h1 : 0 ≤ x) (h2 : x ≤ 32767) (h3 : 0 ≤ short (x + 1)) :
    short (x + 1) = x + 1 := by
  unfold short at *
  omega

lemma short_pred {x : Int} (h1 : 1 ≤ x) (h2 : x ≤ 32767) : short (x - 1) = x - 1 := by
  unfold short
  omega

lemma short_le (x : Int) : short x ≤ 32767 := by
  unfold short
  omega

lemma counts_link (hd : d < n) (hm : m < MAXENT) (he : T.ent d m = none) (h1 : name ≠ dot)
    (h2 : name ≠ dotdot) (hdir : T.type i ≠ .dir) (x : Int) (j : Nat) :
    naming n ((T.setNlink i x).setEnt d m (some (i, name))) j =
        naming n T j + (if j = i then 1 else 0) ∧
      subdirs ((T.setNlink i x).setEnt d m (some (i, name))) j = subdirs T j := by
  obtain ⟨e1, e2⟩ := counts_add (T := T.setNlink i x) hd hm he h1 h2 j
  refine ⟨e1, e2.trans ?_⟩
  rw [if_neg fun hc => hdir hc.2, Nat.add_zero]
  rfl

lemma Good.link (h : Good n T) (hd : T.type d = .dir) (he : T.ent d m = none)
    (hl : T.Lacks d name) (hi : T.type i ≠ .free) (hdir : T.type i ≠ .dir)
    (ht : Treelike ((T.setNlink i (short (T.nlink i + 1))).setEnt d m (some (i, name))))
    (hover : NoOverflow ((T.setNlink i (short (T.nlink i + 1))).setEnt d m (some (i, name)))) :
    Good n ((T.setNlink i (short (T.nlink i + 1))).setEnt d m (some (i, name))) := by
  have hm2 := h.two_le_of_none hd he
  obtain ⟨hn1, hn2⟩ := h.name_ne hd hl
  have hdn := (h.range d (by rw [hd]; decide)).2
  have hm : m < MAXENT := ht.bound d m (by simp)
  have hcount := counts_link hdn hm he hn1 hn2 hdir (short (T.nlink i + 1))
  have hnlink : short (T.nlink i + 1) = T.nlink i + 1 := by
    refine short_succ (h.nonneg i) (h.le i) ?_
    have := hover i
    simpa using this
  refine ⟨ht, h.range, h.root, ?_, ?_, ?_, ?_⟩
  · intro c hc
    obtain ⟨e0, p, e1, hp⟩ := h.dots c hc
    refine ⟨?_, p, ?_, hp⟩
    · rw [setEnt_ent, if_neg (by omega)]
      exact e0
    · rw [setEnt_ent, if_neg (by omega)]
      exact e1
  · intro c x j nm hx hj
    rw [setEnt_ent] at hj
    split at hj
    · cases hj
      exact ⟨hn1, hn2, hi⟩
    · exact h.names c x j nm hx hj
  · intro j hj
    obtain ⟨h1, h2⟩ := hcount j
    have hs := h.slack j hj
    unfold links at hs ⊢
    rw [h1, h2]
    by_cases hji : j = i
    · subst hji
      simp only [Tree.setEnt, Tree.setNlink, update_self, if_true]
      omega
    · simp only [Tree.setEnt, Tree.setNlink, update_of_ne hji, hji, if_false]
      omega
  · intro j
    by_cases hji : j = i
    · subst hji
      simp only [Tree.setEnt, Tree.setNlink, update_self]
      exact short_le _
    · simp only [Tree.setEnt, Tree.setNlink, update_of_ne hji]
      exact h.le j

lemma Good.unnamed (h : Good n T) (hi : T.type i = .free) :
    (∀ m, T.ent i m = none) ∧ ∀ d m, proper (T.ent d m) ≠ some i := by
  refine ⟨fun m => ?_, fun d m hp => ?_⟩
  · by_contra hne
    have := h.dirs i m hne
    rw [hi] at this
    cases this
  · obtain ⟨name, he, _⟩ := proper_eq_some.mp hp
    exact h.closed d m _ he hi

/-- The tree with the new inode `i`, which has one link but no entry that names it. -/
structure NewIn (d i : Nat) (T T0 : Tree) : Prop where
  type : ∀ j, j ≠ i → T0.type j = T.type j
  nlink : ∀ j, j ≠ i → T0.nlink j = T.nlink j
  ent : ∀ j, j ≠ i → T0.ent j = T.ent j
  used : T0.type i ≠ .free
  one : T0.nlink i = 1
  dots : (T0.type i = .dir → T0.ent i 0 = some (i, dot) ∧ T0.ent i 1 = some (d, dotdot)) ∧
    ∀ m, 2 ≤ m → T0.ent i m = none
  self : ∀ m, proper (T0.ent i m) = none

lemma newIn_file {type : FileType} (ht : type = .file ∨ type = .device) (d i : Nat) (T : Tree) :
    NewIn d i T ((T.alloc i type).setNlink i 1) := by
  refine ⟨?_, ?_, ?_, ?_, ?_, ⟨?_, ?_⟩, ?_⟩
  · intro j hj
    simp [hj]
  · intro j hj
    simp [hj]
  · intro j hj
    simp [hj]
  · rcases ht with rfl | rfl <;> simp
  · simp
  · rcases ht with rfl | rfl <;> simp
  · simp
  · simp

lemma newIn_dir (d i : Nat) (T : Tree) : NewIn d i T (T.newDir d i) := by
  have hent : ∀ j m, (T.newDir d i).ent j m = if j = i ∧ m = 1 then some (d, dotdot) else
      if j = i ∧ m = 0 then some (i, dot) else if j = i then none else T.ent j m := by
    intro j m
    unfold Tree.newDir
    rw [setEnt_ent, setEnt_ent]
    by_cases hj : j = i
    · subst hj
      simp
    · simp [hj]
  refine ⟨?_, ?_, ?_, ?_, ?_, ⟨fun _ => ?_, ?_⟩, ?_⟩
  · intro j hj
    simp [hj]
  · intro j hj
    simp [hj]
  · intro j hj
    funext m
    simp [hj]
  · simp
  · simp
  · simp
  · intro m hm
    rw [hent, if_neg (by omega), if_neg (by omega), if_pos rfl]
  · intro m
    rw [hent]
    split
    · simp
    · split
      · simp
      · simp

lemma Good.links_free (h : Good n T) (hi : T.type i = .free) :
    naming n T i = 0 ∧ subdirs T i = 0 := by
  obtain ⟨hnone, hno⟩ := h.unnamed hi
  refine ⟨?_, ?_⟩
  · by_contra hne
    obtain ⟨d, m, _, _, hp⟩ := fs.naming_pos.mp (Nat.pos_of_ne_zero hne)
    exact hno d m hp
  · by_contra hne
    obtain ⟨m, _, hp⟩ := subdirs_pos.mp (Nat.pos_of_ne_zero hne)
    rw [hnone m] at hp
    simp [namesDir] at hp

lemma Good.links_file (h : Good n T) (hi : T.type i ≠ .dir) : links n T i = naming n T i := by
  have hsub : subdirs T i = 0 := by
    by_contra hne
    obtain ⟨m, _, hp⟩ := subdirs_pos.mp (Nat.pos_of_ne_zero hne)
    obtain ⟨j, hj, _⟩ := namesDir_iff.mp hp
    obtain ⟨name, he, _⟩ := proper_eq_some.mp hj
    exact hi (h.dirs i m (by rw [he]; simp))
  have hroot : i ≠ ROOTINO := by
    rintro rfl
    exact hi h.root
  unfold links
  rw [hsub, if_neg hroot]
  rfl

lemma counts_made {T0 : Tree} (h : Good n T) (hnew : NewIn d i T T0) (hi : T.type i = .free)
    (hd : T.type d = .dir) (he : T.ent d m = none) (hm : m < MAXENT) (hn1 : name ≠ dot)
    (hn2 : name ≠ dotdot) (v : Int) (j : Nat) :
    naming n ((T0.setEnt d m (some (i, name))).setNlink d v) j =
        naming n T j + (if j = i then 1 else 0) ∧
      subdirs ((T0.setEnt d m (some (i, name))).setNlink d v) j =
        subdirs T j + (if j = d ∧ T0.type i = .dir then 1 else 0) := by
  have hdi : d ≠ i := by
    rintro rfl
    rw [hi] at hd
    cases hd
  obtain ⟨hnone, hno⟩ := h.unnamed hi
  obtain ⟨h1, h2⟩ := counts_new (n := n) hnone hno hnew.type hnew.ent hnew.self j
  obtain ⟨h3, h4⟩ := counts_add (T := T0) (h.range d (by rw [hd]; decide)).2 hm
    (by rw [hnew.ent d hdi]; exact he) hn1 hn2 j
  exact ⟨h3.trans (by rw [h1]), h4.trans (by rw [h2])⟩

lemma Good.made {T0 : Tree} (h : Good n T) (hnew : NewIn d i T T0) (hd : T.type d = .dir)
    (he : T.ent d m = none) (hl : T.Lacks d name) (hi : T.type i = .free) (h0 : 0 < i)
    (hin : i < n) {v : Int} (hv : v = T.nlink d + if T0.type i = .dir then 1 else 0)
    (hle : v ≤ 32767) (ht : Treelike ((T0.setEnt d m (some (i, name))).setNlink d v)) :
    Good n ((T0.setEnt d m (some (i, name))).setNlink d v) := by
  have hdi : d ≠ i := by
    rintro rfl
    rw [hi] at hd
    cases hd
  have hne : ∀ j, T.type j ≠ .free → j ≠ i := by
    rintro j hj rfl
    exact hj hi
  have hm2 := h.two_le_of_none hd he
  obtain ⟨hn1, hn2⟩ := h.name_ne hd hl
  have hm : m < MAXENT := ht.bound d m (by simp)
  have hent : ∀ c x, ((T0.setEnt d m (some (i, name))).setNlink d v).ent c x =
      if c = d ∧ x = m then some (i, name) else T0.ent c x := fun c x => setEnt_ent c x
  have htype : ((T0.setEnt d m (some (i, name))).setNlink d v).type = T0.type := rfl
  refine ⟨ht, ?_, ?_, ?_, ?_, ?_, ?_⟩
  · intro j hj
    by_cases hji : j = i
    · subst hji
      exact ⟨h0, hin⟩
    · rw [htype, hnew.type j hji] at hj
      exact h.range j hj
  · rw [htype, hnew.type _ (hne _ (by rw [h.root]; decide))]
    exact h.root
  · intro c hc
    rw [htype] at hc ⊢
    rw [hent, hent, if_neg (by omega), if_neg (by omega)]
    by_cases hci : c = i
    · subst hci
      obtain ⟨e0, e1⟩ := hnew.dots.1 hc
      exact ⟨e0, d, e1, by rw [hnew.type d hdi]; exact hd⟩
    · rw [hnew.type c hci] at hc
      obtain ⟨e0, p, e1, hp⟩ := h.dots c hc
      rw [hnew.ent c hci]
      exact ⟨e0, p, e1, by rw [hnew.type p (hne p (by rw [hp]; decide))]; exact hp⟩
  · intro c x j nm hx hj
    rw [hent] at hj
    rw [htype]
    split at hj
    · cases hj
      exact ⟨hn1, hn2, hnew.used⟩
    · by_cases hci : c = i
      · subst hci
        rw [hnew.dots.2 x hx] at hj
        cases hj
      · rw [hnew.ent c hci] at hj
        obtain ⟨e1, e2, e3⟩ := h.names c x j nm hx hj
        exact ⟨e1, e2, by rw [hnew.type j (hne j e3)]; exact e3⟩
  · intro j hj
    obtain ⟨h1, h2⟩ := counts_made h hnew hi hd he hm hn1 hn2 v j
    unfold links
    rw [h1, h2]
    by_cases hji : j = i
    · subst hji
      obtain ⟨z1, z2⟩ := h.links_free hi
      have hroot : j ≠ ROOTINO := fun hr => by
        rw [hr, h.root] at hi
        cases hi
      have hone : ((T0.setEnt d m (some (j, name))).setNlink d v).nlink j = 1 := by
        simp only [Tree.setNlink, Tree.setEnt, update_of_ne (Ne.symm hdi)]
        exact hnew.one
      rw [hone, z1, z2, if_pos rfl, if_neg fun hc => hdi hc.1.symm, if_neg hroot]
      decide
    · rw [htype, hnew.type j hji] at hj
      have hs := h.slack j hj
      unfold links at hs
      rw [if_neg hji]
      by_cases hjd : j = d
      · subst hjd
        simp only [Tree.setNlink, update_self, hv, true_and]
        split <;> split at hs <;> split <;> push_cast at hs ⊢ <;> omega
      · rw [if_neg fun hc => hjd hc.1]
        simp only [Tree.setNlink, Tree.setEnt, update_of_ne hjd]
        rw [hnew.nlink j hji]
        exact_mod_cast hs
  · intro j
    by_cases hjd : j = d
    · subst hjd
      simpa using hle
    · simp only [Tree.setNlink, Tree.setEnt, update_of_ne hjd]
      by_cases hji : j = i
      · subst hji
        rw [hnew.one]
        decide
      · rw [hnew.nlink j hji]
        exact h.le j

lemma unlinked_type (T : Tree) (d m i : Nat) : (T.unlinked d m i).type = T.type := by
  unfold Tree.unlinked Tree.clearEnt
  dsimp only
  split
  · rfl
  · rfl

lemma unlinked_ent (T : Tree) (d m i : Nat) :
    (T.unlinked d m i).ent = (T.setEnt d m none).ent := by
  unfold Tree.unlinked Tree.clearEnt
  dsimp only
  split
  · rfl
  · rfl

lemma unlinked_nlink (hdi : d ≠ i) (j : Nat) : (T.unlinked d m i).nlink j =
    if j = i then short (T.nlink i - 1)
    else if j = d ∧ T.type i = .dir then short (T.nlink d - 1) else T.nlink j := by
  have htype : (T.setEnt d m none).type i = T.type i := rfl
  unfold Tree.unlinked Tree.clearEnt
  dsimp only
  rw [htype]
  by_cases hi : T.type i = .dir
  · simp only [hi, if_true, and_true]
    by_cases hj : j = i
    · subst hj
      simp [Ne.symm hdi]
    · by_cases hjd : j = d
      · subst hjd
        simp [hj]
      · simp [hj, hjd]
  · simp only [hi, if_false, and_false]
    by_cases hj : j = i
    · subst hj
      simp
    · simp [hj]

lemma counts_unlinked (hd : d < n) (hm : m < MAXENT) (he : T.ent d m = some (i, name))
    (h1 : name ≠ dot) (h2 : name ≠ dotdot) (j : Nat) :
    naming n (T.unlinked d m i) j + (if j = i then 1 else 0) = naming n T j ∧
      subdirs (T.unlinked d m i) j + (if j = d ∧ T.type i = .dir then 1 else 0) =
        subdirs T j := by
  obtain ⟨e1, e2⟩ := counts_remove hd hm he h1 h2 j
  have hn : naming n (T.unlinked d m i) j = naming n (T.setEnt d m none) j := by
    unfold naming
    rw [unlinked_ent]
  have hs : subdirs (T.unlinked d m i) j = subdirs (T.setEnt d m none) j := by
    unfold subdirs namesDir
    rw [unlinked_ent, unlinked_type]
    rfl
  rw [hn, hs]
  exact ⟨e1, e2⟩

section

variable (h : Good n T) (hd : T.type d = .dir) (he : T.ent d m = some (i, name)) (h1 : name ≠ dot)
  (h2 : name ≠ dotdot)
include h hd he h1 h2

lemma Good.unlink_ne
    (hempty : T.type i = .dir → ∀ x, 2 ≤ x → T.ent i x = none) : d ≠ i := by
  rintro rfl
  rw [hempty hd m (h.two_le he h1 h2)] at he
  cases he

lemma Good.unlinked (hi : T.type i ≠ .free) (hlink : 1 ≤ T.nlink i)
    (hempty : T.type i = .dir → ∀ x, 2 ≤ x → T.ent i x = none) : Good n (T.unlinked d m i) := by
  have hdi := h.unlink_ne hd he h1 h2 hempty
  have hm2 := h.two_le he h1 h2
  have hm := h.bound d m (by rw [he]; simp)
  have hdn := (h.range d (by rw [hd]; decide)).2
  have hcount := fun j => counts_unlinked hdn hm he h1 h2 j
  have hent : ∀ c x, (T.unlinked d m i).ent c x = if c = d ∧ x = m then none else T.ent c x := by
    intro c x
    rw [unlinked_ent, setEnt_ent]
  have hsub : ∀ c x e, (T.unlinked d m i).ent c x = some e → T.ent c x = some e := by
    intro c x e hx
    rw [hent] at hx
    split at hx
    · cases hx
    · exact hx
  have hdlink : T.type i = .dir → short (T.nlink d - 1) = T.nlink d - 1 := by
    intro hdir
    have hs := h.slack d (by rw [hd]; decide)
    have hc := (hcount d).2
    rw [if_pos ⟨rfl, hdir⟩] at hc
    unfold links at hs
    exact short_pred (by omega) (h.le d)
  have hilink := short_pred hlink (h.le i)
  refine ⟨⟨?_, ?_, ?_⟩, ?_, ?_, ?_, ?_, ?_, ?_⟩
  · intro c x hne
    obtain ⟨e, hx⟩ := Option.ne_none_iff_exists'.mp hne
    rw [unlinked_type]
    exact h.dirs c x (by rw [hsub c x e hx]; simp)
  · intro c x hne
    obtain ⟨e, hx⟩ := Option.ne_none_iff_exists'.mp hne
    exact h.bound c x (by rw [hsub c x e hx]; simp)
  · intro j hj
    rw [unlinked_type] at hj
    rw [unlinked_nlink hdi, if_neg, if_neg, h.free j hj]
    · rintro ⟨rfl, _⟩
      rw [hj] at hd
      cases hd
    · rintro rfl
      exact hi hj
  · rw [unlinked_type]
    exact h.range
  · rw [unlinked_type]
    exact h.root
  · intro c hc
    rw [unlinked_type] at hc ⊢
    rw [hent, hent, if_neg (by omega), if_neg (by omega)]
    exact h.dots c hc
  · intro c x j nm hx hj
    rw [unlinked_type]
    exact h.names c x j nm hx (hsub c x _ hj)
  · intro j hj
    rw [unlinked_type] at hj
    have hs := h.slack j hj
    obtain ⟨c1, c2⟩ := hcount j
    rw [unlinked_nlink hdi]
    unfold links at hs ⊢
    by_cases hji : j = i
    · subst hji
      rw [if_pos rfl] at c1
      rw [if_neg fun hc => hdi hc.1.symm] at c2
      rw [if_pos rfl, hilink]
      push_cast at hs ⊢
      omega
    · rw [if_neg hji] at c1
      rw [if_neg hji]
      by_cases hjd : j = d ∧ T.type i = .dir
      · rw [if_pos hjd] at c2
        rw [if_pos hjd, hdlink hjd.2]
        rw [hjd.1] at hs c1 c2 ⊢
        push_cast at hs ⊢
        omega
      · rw [if_neg hjd] at c2
        rw [if_neg hjd]
        push_cast at hs ⊢
        omega
  · intro j
    rw [unlinked_nlink hdi]
    split
    · exact short_le _
    · split
      · exact short_le _
      · exact h.le j

end

/-! ## Steps -/

/-- No directory that the step freed is the ".." of a directory that is still in use. -/
def KeepsParents (T T' : Tree) : Prop :=
  ∀ c d, T.type d = .dir → T'.type d = .free → T'.type c = .dir → T'.ent c 1 ≠ some (d, dotdot)

lemma keeps_frees {T1 : Tree} (hused : ∀ j, T1.type j = .dir → T.type j = .dir)
    (hf : Frees F T1 T')
    (hk : KeepsParents T T') : ∀ c d, F d → T1.type d = .dir → ¬ F c → T1.type c = .dir →
      T1.ent c 1 ≠ some (d, dotdot) := by
  intro c d hd hdir hc hcdir he
  obtain ⟨h1, _, h3⟩ := hf.rest c hc
  refine hk c d (hused d hdir) (hf.gone d hd).1 (by rw [h1]; exact hcdir) ?_
  rw [h3]
  exact he

lemma created_same (m : Nat) (name : Name) (type : FileType) (hd : T.type d = .dir)
    (hi : T.type i = .free) :
    (((T.alloc i type).setNlink i 1).setEnt d m (some (i, name))).setNlink d (T.nlink d) =
      ((T.alloc i type).setNlink i 1).setEnt d m (some (i, name)) := by
  have hdi : d ≠ i := by
    rintro rfl
    rw [hi] at hd
    cases hd
  have hself : ((T.alloc i type).setNlink i 1).nlink d = T.nlink d := by
    simp [hdi]
  rw [← hself]
  exact Tree.setNlink_self (((T.alloc i type).setNlink i 1).setEnt d m (some (i, name))) d

lemma Good.step (h : Good n T) (hs : TreeStep n T T') (ht : Treelike T')
    (hk : KeepsParents T T') (hover : NoOverflow T') : Good n T' := by
  cases hs with
  | same => exact h
  | drop i hd =>
    obtain ⟨F, hf, _⟩ := hd.frees
    exact h.frees hf (keeps_frees (fun _ hj => hj) hf hk)
  | link hd he hl hi hdir => exact h.link hd he hl hi hdir ht hover
  | @create d m i name type hd he hl hi h0 hin htype =>
    have hnd : type ≠ .dir := by
      rcases htype with rfl | rfl <;> decide
    rw [← created_same m name type hd hi] at ht ⊢
    refine h.made (newIn_file htype d i T) hd he hl hi h0 hin ?_ (h.le d) ht
    simp [hnd]
  | @mkdir d m i name hd he hl hi h0 hin =>
    have hshort : short (T.nlink d + 1) = T.nlink d + 1 := by
      refine short_succ (h.nonneg d) (h.le d) ?_
      have := hover d
      simpa using this
    refine h.made (newIn_dir d i T) hd he hl hi h0 hin ?_ (short_le _) ht
    rw [hshort]
    simp
  | @unlink _ T1 d m i name hd he h1 h2 hi hlink hempty hdrop hdrop' =>
    obtain ⟨F, hf, _⟩ := hdrop.frees
    obtain ⟨G, hg, _⟩ := hdrop'.frees
    have hgood := h.unlinked hd he h1 h2 hi hlink hempty
    refine hgood.frees (hf.trans hg) (keeps_frees (fun j hj => ?_) (hf.trans hg) hk)
    rw [unlinked_type] at hj
    exact hj

end xv6.fs
