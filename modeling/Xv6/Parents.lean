-- The ".." of a directory names the directory that has it as an entry. A step
-- keeps this, and frees no directory that some ".." names, when it begins with
-- links to every directory in use.
import Xv6.ExactLinks

open count ownership Function

namespace xv6.fs

variable {n d m i j c : Nat} {T T' : Tree} {name : Name} {F : Nat → Prop}

/-- The root is its own parent, and every other directory that has links is an entry of its
parent. -/
structure Parented (T : Tree) : Prop where
  root : T.ent ROOTINO 1 = some (ROOTINO, dotdot)
  entry : ∀ c d, T.type c = .dir → T.ent c 1 = some (d, dotdot) → c = ROOTINO ∨ T.nlink c = 0 ∨
    ∃ m name, 2 ≤ m ∧ T.ent d m = some (c, name)

/-- No directory in use has been removed. -/
def AllLinked (T : Tree) : Prop := ∀ d, T.type d = .dir → T.nlink d ≠ 0

section

variable (h : Parented T) (hl : AllLinked T)
include h hl

lemma Parented.of_linked (hc : T.type c = .dir) (he : T.ent c 1 = some (d, dotdot)) :
    c = ROOTINO ∨ ∃ m name, 2 ≤ m ∧ T.ent d m = some (c, name) := by
  rcases h.entry c d hc he with h1 | h1 | h1
  · exact .inl h1
  · exact absurd h1 (hl c hc)
  · exact .inr h1

/-- The directories and their entries are kept, and a new one is an entry of its parent. -/
lemma Parented.grow
    (hold : ∀ d m e, T.ent d m = some e → T'.ent d m = some e)
    (hnew : ∀ c d, T'.type c = .dir → T'.ent c 1 = some (d, dotdot) →
      (T.type c = .dir ∧ T.ent c 1 = some (d, dotdot)) ∨
        ∃ m name, 2 ≤ m ∧ T'.ent d m = some (c, name)) : Parented T' := by
  refine ⟨hold _ _ _ h.root, fun c d hc he => ?_⟩
  rcases hnew c d hc he with ⟨h1, h2⟩ | h1
  · rcases h.of_linked hl h1 h2 with h3 | ⟨m, name, hm, h3⟩
    · exact .inl h3
    · exact .inr (.inr ⟨m, name, hm, hold _ _ _ h3⟩)
  · exact .inr (.inr h1)

/-- A directory that is made, or a file, becomes an entry of directory `d`. -/
lemma Parented.made {T0 : Tree} {v : Int} (hg : Good n T) (hnew : NewIn d i T T0)
    (hd : T.type d = .dir) (he : T.ent d m = none) (hi : T.type i = .free) :
    Parented ((T0.setEnt d m (some (i, name))).setNlink d v) := by
  have hdi : d ≠ i := by
    rintro rfl
    rw [hi] at hd
    cases hd
  have hent : ∀ c x, ((T0.setEnt d m (some (i, name))).setNlink d v).ent c x =
      if c = d ∧ x = m then some (i, name) else T0.ent c x := fun c x => setEnt_ent c x
  have hm2 := hg.two_le_of_none hd he
  have hfree : ∀ x e, T.ent i x ≠ some e := by
    intro x e hx
    have := hg.dirs i x (by rw [hx]; simp)
    rw [hi] at this
    cases this
  refine h.grow hl (fun c x e hx => ?_) fun c p hc hp => ?_
  · have hci : c ≠ i := by
      rintro rfl
      exact hfree x e hx
    rw [hent, if_neg, hnew.ent c hci, hx]
    rintro ⟨rfl, rfl⟩
    rw [he] at hx
    cases hx
  · have hc' : T0.type c = .dir := hc
    rw [hent, if_neg (by omega)] at hp
    by_cases hci : c = i
    · subst hci
      rw [(hnew.dots.1 hc').2] at hp
      cases hp
      exact .inr ⟨m, name, hm2, by rw [hent, if_pos ⟨rfl, rfl⟩]⟩
    · rw [hnew.type c hci] at hc'
      rw [hnew.ent c hci] at hp
      exact .inl ⟨hc', hp⟩

end

/-! ## Unlinking -/

/-- The entry in place `m` of directory `d` is one that `unlink` removes. -/
structure Unlinks (T : Tree) (d m i : Nat) (name : Name) : Prop where
  dir : T.type d = .dir
  ent : T.ent d m = some (i, name)
  dot : name ≠ dot
  dotdot : name ≠ dotdot
  used : T.type i ≠ .free
  link : 1 ≤ T.nlink i
  empty : T.type i = .dir → ∀ x, 2 ≤ x → T.ent i x = none

lemma Unlinks.exactly (hu : Unlinks T d m i name) (hx : Exactly n T) :
    Exactly n (T.unlinked d m i) :=
  hx.unlinked hu.dir hu.ent hu.dot hu.dotdot hu.used hu.link hu.empty

lemma Unlinks.naming_pos (hu : Unlinks T d m i name) (hx : Exactly n T) : 0 < naming n T i :=
  hx.toGood.naming_pos hu.ent hu.dot hu.dotdot

lemma unlinked_entry (T : Tree) (d m i c x : Nat) : (T.unlinked d m i).ent c x =
    if c = d ∧ x = m then none else T.ent c x := by
  rw [unlinked_ent, setEnt_ent]

/-- A directory that has lost its entry has no links left. -/
lemma Unlinks.nlink_dir (hu : Unlinks T d m i name) (hx : Exactly n T) (hdir : T.type i = .dir) :
    (T.unlinked d m i).nlink i = 0 := by
  have hdn := (hx.range d (by rw [hu.dir]; decide)).2
  obtain ⟨hname, _⟩ := counts_unlinked hdn (hx.bound d m (by rw [hu.ent]; simp)) hu.ent hu.dot
    hu.dotdot i
  rw [if_pos rfl] at hname
  have hzero : naming n (T.unlinked d m i) i = 0 := by
    have := hx.once i hdir
    omega
  by_contra hne
  rcases (hu.exactly hx).named (by rw [unlinked_type]; exact hdir) hne with hroot | hpos
  · have := hx.rootless
    rw [← hroot] at this
    omega
  · omega

/-- What is left of a directory in use is as it was, but for the entry. -/
lemma unlinked_kept (hf : Frees F (T.unlinked d m i) T') (hc : T'.type c = .dir) (hp : T'.ent c 1 = some (j, dotdot)) :
    ¬ F c ∧ T.type c = .dir ∧ T.ent c 1 = some (j, dotdot) := by
  have hFc : ¬ F c := fun hc' => by
    rw [(hf.gone c hc').1] at hc
    cases hc
  obtain ⟨r1, _, r3⟩ := hf.rest c hFc
  rw [r1, unlinked_type] at hc
  rw [r3, unlinked_entry] at hp
  split at hp
  · cases hp
  · exact ⟨hFc, hc, hp⟩

section

variable (hx : Exactly n T) (h : Parented T) (hl : AllLinked T) (hu : Unlinks T d m i name)
include hx h hl hu

/-- The directory of the entry still has its own links. -/
lemma unlinked_linked : (T.unlinked d m i).nlink d ≠ 0 := by
  have hU := hu.exactly hx
  have hdi := hx.toGood.unlink_ne hu.dir hu.ent hu.dot hu.dotdot hu.empty
  have hexact := hU.exact d (by rw [unlinked_type, hu.dir]; decide)
  unfold links at hexact
  obtain ⟨_, p, hp, _⟩ := hx.dots d hu.dir
  rcases h.of_linked hl hu.dir hp with hroot | ⟨x, nm, hx2, hent⟩
  · rw [if_pos hroot] at hexact
    omega
  · obtain ⟨n1, n2, _⟩ := hx.names p x d nm hx2 hent
    have hkept : (T.unlinked d m i).ent p x = some (d, nm) := by
      rw [unlinked_entry, if_neg]
      · exact hent
      · rintro ⟨rfl, rfl⟩
        rw [hu.ent] at hent
        cases hent
        exact hdi rfl
    have := hU.toGood.naming_pos hkept n1 n2
    omega

variable (hf : Frees F (T.unlinked d m i) T') (hF : ∀ j, F j → j = d ∨ j = i)
include hf hF

lemma unlinked_frees (hj : F j) : j = i := by
  rcases hF j hj with rfl | rfl
  · exact absurd (hf.was j hj).2 (unlinked_linked hx h hl hu)
  · rfl

lemma unlink_keepsParents : KeepsParents T T' := by
  intro c p hp hfree hc hent
  have hFp : F p := by
    by_contra hno
    rw [(hf.rest p hno).1, unlinked_type, hp] at hfree
    cases hfree
  obtain rfl := unlinked_frees hx h hl hu hf hF hFp
  obtain ⟨_, hc', hent'⟩ := unlinked_kept hf hc hent
  rcases h.of_linked hl hc' hent' with rfl | ⟨x, nm, hx2, hentry⟩
  · rw [h.root] at hent'
    cases hent'
    have := hu.naming_pos hx
    have := hx.rootless
    omega
  · rw [hu.empty hp x hx2] at hentry
    cases hentry

lemma Parented.unlink : Parented T' := by
  have hm2 := hx.toGood.two_le hu.ent hu.dot hu.dotdot
  have hroot : ¬ F ROOTINO := by
    intro hc
    have hir := unlinked_frees hx h hl hu hf hF hc
    have := hu.naming_pos hx
    rw [← hir] at this
    have := hx.rootless
    omega
  refine ⟨?_, fun c p hc hp => ?_⟩
  · rw [(hf.rest _ hroot).2.2, unlinked_entry, if_neg (by omega), h.root]
  obtain ⟨hFc, hc', hp'⟩ := unlinked_kept hf hc hp
  by_cases hci : c = i
  · subst hci
    refine .inr (.inl ?_)
    rw [(hf.rest c hFc).2.1]
    exact hu.nlink_dir hx hc'
  · rcases h.of_linked hl hc' hp' with h3 | ⟨x, nm, hx2, h3⟩
    · exact .inl h3
    · have hFp : ¬ F p := by
        intro hc2
        have hpi := unlinked_frees hx h hl hu hf hF hc2
        have hpdir := hx.dirs p x (by rw [h3]; simp)
        rw [hpi] at hpdir h3
        rw [hu.empty hpdir x hx2] at h3
        cases h3
      refine .inr (.inr ⟨x, nm, hx2, ?_⟩)
      rw [(hf.rest p hFp).2.2, unlinked_entry, if_neg]
      · exact h3
      · rintro ⟨rfl, rfl⟩
        rw [hu.ent] at h3
        cases h3
        exact hci rfl

end

/-! ## Steps -/

lemma AllLinked.drop (hl : AllLinked T) (hf : Frees F T T') (hp : T.type d = .dir) : ¬ F d :=
  fun hF => hl d hp (hf.was d hF).2

/-- A step from a tree without removed directories frees none that a ".." names. -/
lemma Parented.step (hx : Exactly n T) (h : Parented T) (hl : AllLinked T)
    (hs : TreeStep n T T') : KeepsParents T T' ∧ Parented T' := by
  have hkeep : ∀ {T' : Tree}, (∀ d, T.type d = .dir → T'.type d = .dir) → KeepsParents T T' := by
    intro T' hdir c p hp hfree
    rw [hdir p hp] at hfree
    cases hfree
  cases hs with
  | same => exact ⟨hkeep fun _ => id, h⟩
  | drop i hd =>
    obtain ⟨F, hf, _⟩ := hd.frees
    have hdir : ∀ d, T.type d = .dir → ¬ F d := fun d hd => hl.drop hf hd
    refine ⟨hkeep fun d hd => by rw [(hf.rest d (hdir d hd)).1, hd], ?_⟩
    refine h.grow hl (fun d m e he => ?_) fun c d hc he => .inl ?_
    · rw [(hf.rest d (hdir d (hx.dirs d m (by rw [he]; simp)))).2.2, he]
    · have hF : ¬ F c := fun hF => by
        rw [(hf.gone c hF).1] at hc
        cases hc
      obtain ⟨r1, _, r3⟩ := hf.rest c hF
      rw [r1] at hc
      rw [r3] at he
      exact ⟨hc, he⟩
  | @link d m i name hd he _ _ hdir =>
    have hm2 := hx.toGood.two_le_of_none hd he
    have hent : ∀ c x, ((T.setNlink i (short (T.nlink i + 1))).setEnt d m (some (i, name))).ent c x =
        if c = d ∧ x = m then some (i, name) else T.ent c x := fun c x => setEnt_ent c x
    refine ⟨hkeep fun _ => id, h.grow hl (fun c x e hxe => ?_) fun c p hc hp => .inl ?_⟩
    · rw [hent, if_neg, hxe]
      rintro ⟨rfl, rfl⟩
      rw [he] at hxe
      cases hxe
    · rw [hent, if_neg (by omega)] at hp
      exact ⟨hc, hp⟩
  | @create d m i name type hd he _ hi _ _ htype =>
    rw [← created_same m name type hd hi]
    refine ⟨hkeep fun c hc => ?_, h.made hl hx.toGood (newIn_file htype d i T) hd he hi⟩
    have hci : c ≠ i := by
      rintro rfl
      rw [hi] at hc
      cases hc
    exact ((newIn_file htype d i T).type c hci).trans hc
  | @mkdir d m i name hd he _ hi _ _ =>
    refine ⟨hkeep fun c hc => ?_, h.made hl hx.toGood (newIn_dir d i T) hd he hi⟩
    have hci : c ≠ i := by
      rintro rfl
      rw [hi] at hc
      cases hc
    exact ((newIn_dir d i T).type c hci).trans hc
  | @unlink _ T1 d m i name hd he h1 h2 hi hlink hempty hdrop hdrop' =>
    obtain ⟨F, hf, hFd⟩ := hdrop.frees
    obtain ⟨G, hg, hGi⟩ := hdrop'.frees
    have hfg := hf.trans hg
    have hF : ∀ j, F j ∨ G j → j = d ∨ j = i := fun j hj => hj.imp (hFd j) (hGi j)
    have hu : Unlinks T d m i name := ⟨hd, he, h1, h2, hi, hlink, hempty⟩
    exact ⟨unlink_keepsParents hx h hl hu hfg hF, h.unlink hx hl hu hfg hF⟩

end xv6.fs
