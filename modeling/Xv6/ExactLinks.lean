-- Directory trees in which the links are exact. A step keeps this when it adds
-- entries only to directories that have links themselves.
import Xv6.TreeLaws

open count ownership Function

namespace xv6.fs

variable {n d m i j : Nat} {T T' : Tree} {name : Name} {F G : Nat → Prop}

/-! ## Exact trees -/

/-- The inodes that paths from the root lead to. -/
inductive Reach (T : Tree) : Nat → Prop
  | root : Reach T ROOTINO
  | entry {d m i : Nat} {name : Name} : Reach T d → T.ent d m = some (i, name) → name ≠ dot →
      name ≠ dotdot → Reach T i

/-- Every link is counted, a directory has one name, and one that lost it is empty. -/
structure Exactly (n : Nat) (T : Tree) : Prop extends Good n T where
  exact : ∀ i, T.type i ≠ .free → T.nlink i = links n T i
  once : ∀ d, T.type d = .dir → naming n T d ≤ 1
  rootless : naming n T ROOTINO = 0
  empty : ∀ d, T.type d = .dir → d ≠ ROOTINO → naming n T d = 0 → ∀ m, proper (T.ent d m) = none
  reach : ∀ d, T.type d = .dir → d = ROOTINO ∨ 0 < naming n T d → Reach T d

lemma Exactly.named (h : Exactly n T) (hd : T.type d = .dir) (hn : T.nlink d ≠ 0) :
    d = ROOTINO ∨ 0 < naming n T d := by
  by_contra hc
  rw [not_or] at hc
  obtain ⟨hroot, hzero⟩ := hc
  have hz : naming n T d = 0 := by omega
  have hempty := h.empty d hd hroot hz
  have hsub : subdirs T d = 0 := by
    by_contra hne
    obtain ⟨m, _, hp⟩ := subdirs_pos.mp (Nat.pos_of_ne_zero hne)
    obtain ⟨j, hj, _⟩ := namesDir_iff.mp hp
    rw [hempty m] at hj
    cases hj
  apply hn
  rw [h.exact d (by rw [hd]; decide)]
  unfold links
  rw [hz, hsub, if_neg hroot]
  rfl

lemma Exactly.reach_of_links (h : Exactly n T) (hi : T.type i ≠ .free) (hn : T.nlink i ≠ 0) :
    Reach T i := by
  by_cases hdir : T.type i = .dir
  · exact h.reach i hdir (h.named hdir hn)
  · have hpos : 0 < naming n T i := by
      by_contra hz
      apply hn
      rw [h.exact i hi, h.links_file hdir]
      omega
    obtain ⟨d, m, _, _, hp⟩ := fs.naming_pos.mp hpos
    obtain ⟨name, he, h1, h2⟩ := proper_eq_some.mp hp
    have hd := h.dirs d m (by rw [he]; simp)
    refine .entry (h.reach d hd ?_) he h1 h2
    by_contra hc
    rw [not_or] at hc
    have := h.empty d hd hc.1 (by omega) m
    rw [hp] at this
    cases this

/-! ## Freeing -/

lemma Exactly.frees (h : Exactly n T) (hf : Frees F T T') (hg : Good n T') : Exactly n T' := by
  have hlinks : ∀ j, F j → naming n T j = 0 ∧ j ≠ ROOTINO := by
    intro j hF
    obtain ⟨h1, h2⟩ := hf.was j hF
    have hz := h.exact j h1
    rw [h2] at hz
    unfold links at hz
    refine ⟨by omega, ?_⟩
    rintro rfl
    rw [if_pos rfl] at hz
    omega
  have hbare : ∀ j, F j → ∀ m, proper (T.ent j m) = none := by
    intro j hF m
    by_cases hdir : T.type j = .dir
    · exact h.empty j hdir (hlinks j hF).2 (hlinks j hF).1 m
    · have : T.ent j m = none := by
        by_contra hne
        exact hdir (h.dirs j m hne)
      rw [this, proper_none]
  have hproper : ∀ d m, proper (T'.ent d m) = proper (T.ent d m) := by
    intro d m
    by_cases hF : F d
    · rw [(hf.gone d hF).2.2 m, hbare d hF m, proper_none]
    · rw [(hf.rest d hF).2.2]
  have hnamed : ∀ d m j, proper (T.ent d m) = some j → ¬ F j := by
    intro d m j hp hF
    obtain ⟨name, he, h1, h2⟩ := proper_eq_some.mp hp
    have := h.naming_pos he h1 h2
    have := (hlinks j hF).1
    omega
  have hnaming : ∀ j, naming n T' j = naming n T j := naming_congr hproper
  have hsubdirs : ∀ d, subdirs T' d = subdirs T d := by
    intro d
    refine subdirs_congr fun m => ?_
    rw [Bool.eq_iff_iff, namesDir_iff, namesDir_iff, hproper]
    refine exists_congr fun j => and_congr_right fun hj => ?_
    rw [(hf.rest j (hnamed d m j hj)).1]
  have hused : ∀ j, T'.type j ≠ .free → ¬ F j := fun j hj hF => hj (hf.gone j hF).1
  refine ⟨hg, ?_, ?_, ?_, ?_, ?_⟩
  · intro i hi
    obtain ⟨h1, h2, _⟩ := hf.rest i (hused i hi)
    rw [h1] at hi
    unfold links
    rw [h2, hnaming, hsubdirs]
    exact h.exact i hi
  · intro d hd
    rw [(hf.rest d (hused d (by rw [hd]; decide))).1] at hd
    rw [hnaming]
    exact h.once d hd
  · rw [hnaming]
    exact h.rootless
  · intro d hd hroot hz m
    rw [(hf.rest d (hused d (by rw [hd]; decide))).1] at hd
    rw [hnaming] at hz
    rw [hproper]
    exact h.empty d hd hroot hz m
  · intro d hd hc
    rw [(hf.rest d (hused d (by rw [hd]; decide))).1] at hd
    rw [hnaming] at hc
    -- no inode that was freed lies on a path, for it had no entries to go on by
    have hpath : ∀ c, Reach T c → Reach T' c := by
      intro c hreach
      induction hreach with
      | root => exact .root
      | @entry d m i name _ he h1 h2 ih =>
        have hF : ¬ F d := by
          intro hF
          have := hbare d hF m
          rw [he, proper_some h1 h2] at this
          cases this
        exact .entry ih (by rw [(hf.rest d hF).2.2]; exact he) h1 h2
    exact hpath d (h.reach d hd hc)

/-! ## Edits -/

/-- Entries are added only to directories that have links. -/
def OnlyLinked (T T' : Tree) : Prop :=
  ∀ d m, T.type d = .dir → T.ent d m = none → T'.ent d m ≠ none → T.nlink d ≠ 0

lemma Reach.mono (h : Reach T i) (hent : ∀ d m e, T.ent d m = some e → T'.ent d m = some e) :
    Reach T' i := by
  induction h with
  | root => exact .root
  | entry _ he h1 h2 ih => exact .entry ih (hent _ _ _ he) h1 h2

lemma Exactly.link (h : Exactly n T) (hd : T.type d = .dir) (he : T.ent d m = none)
    (hl : T.Lacks d name) (hdir : T.type i ≠ .dir)
    (hg : Good n ((T.setNlink i (short (T.nlink i + 1))).setEnt d m (some (i, name))))
    (hfew : T.nlink i < 32767) (hnl : T.nlink d ≠ 0) :
    Exactly n ((T.setNlink i (short (T.nlink i + 1))).setEnt d m (some (i, name))) := by
  obtain ⟨hn1, hn2⟩ := h.name_ne hd hl
  have hdn := (h.range d (by rw [hd]; decide)).2
  have hm : m < MAXENT := hg.bound d m (by simp [setEnt_ent])
  have hshort : short (T.nlink i + 1) = T.nlink i + 1 :=
    short_of_le (by have := h.nonneg i; omega) (by omega)
  have hcount := counts_link hdn hm he hn1 hn2 hdir (short (T.nlink i + 1))
  have hne : ∀ c, T.type c = .dir → c ≠ i := by
    rintro c hc rfl
    exact hdir hc
  have hname : ∀ c, T.type c = .dir → naming n ((T.setNlink i (short (T.nlink i + 1))).setEnt d m
      (some (i, name))) c = naming n T c := by
    intro c hc
    rw [(hcount c).1, if_neg (hne c hc), Nat.add_zero]
  refine ⟨hg, ?_, ?_, ?_, ?_, ?_⟩
  · intro j hj
    obtain ⟨h1, h2⟩ := hcount j
    have hx := h.exact j hj
    unfold links at hx ⊢
    rw [h1, h2]
    by_cases hji : j = i
    · subst hji
      simp only [Tree.setEnt, Tree.setNlink, update_self, if_true]
      rw [hshort, hx]
      push_cast
      omega
    · simp only [Tree.setEnt, Tree.setNlink, update_of_ne hji, hji, if_false]
      exact hx
  · intro c hc
    rw [hname c hc]
    exact h.once c hc
  · rw [hname _ h.root]
    exact h.rootless
  · intro c hc hroot hz x
    rw [hname c hc] at hz
    rw [setEnt_ent]
    split
    · rename_i hcd
      rw [hcd.1] at hz hroot
      rcases h.named hd hnl with hr | hpos
      · exact absurd hr hroot
      · omega
    · exact h.empty c hc hroot hz x
  · intro c hc hr
    rw [hname c hc] at hr
    refine (h.reach c hc hr).mono fun d' m' e he' => ?_
    rw [setEnt_ent, if_neg]
    · exact he'
    · rintro ⟨rfl, rfl⟩
      rw [he] at he'
      cases he'

lemma Exactly.made {T0 : Tree} (h : Exactly n T) (hnew : NewIn d i T T0) (hd : T.type d = .dir)
    (he : T.ent d m = none) (hl : T.Lacks d name) (hi : T.type i = .free) {v : Int}
    (hv : v = T.nlink d + if T0.type i = .dir then 1 else 0) (hnl : T.nlink d ≠ 0)
    (hg : Good n ((T0.setEnt d m (some (i, name))).setNlink d v)) :
    Exactly n ((T0.setEnt d m (some (i, name))).setNlink d v) := by
  have hdi : d ≠ i := by
    rintro rfl
    rw [hi] at hd
    cases hd
  obtain ⟨hn1, hn2⟩ := h.name_ne hd hl
  obtain ⟨z1, z2⟩ := h.links_free hi
  obtain ⟨hnone, _⟩ := h.unnamed hi
  have hroot : ROOTINO ≠ i := fun hr => by
    rw [← hr, h.root] at hi
    cases hi
  have hent : ∀ c x, ((T0.setEnt d m (some (i, name))).setNlink d v).ent c x =
      if c = d ∧ x = m then some (i, name) else T0.ent c x := fun c x => setEnt_ent c x
  have hm : m < MAXENT := hg.bound d m (by rw [hent, if_pos ⟨rfl, rfl⟩]; simp)
  have hcount := counts_made h.toGood hnew hi hd he hm hn1 hn2 v
  have hname : ∀ c, c ≠ i →
      naming n ((T0.setEnt d m (some (i, name))).setNlink d v) c = naming n T c := by
    intro c hc
    rw [(hcount c).1, if_neg hc, Nat.add_zero]
  have hold : ∀ c, c ≠ i → ((T0.setEnt d m (some (i, name))).setNlink d v).type c = .dir →
      T.type c = .dir := fun c hc ht => (hnew.type c hc).symm.trans ht
  have hpath : ∀ c, Reach T c → Reach ((T0.setEnt d m (some (i, name))).setNlink d v) c := by
    intro c hr
    refine hr.mono fun c x e hx => ?_
    rw [hent, if_neg, hnew.ent]
    · exact hx
    · rintro rfl
      rw [hnone] at hx
      cases hx
    · rintro ⟨rfl, rfl⟩
      rw [he] at hx
      cases hx
  refine ⟨hg, ?_, ?_, ?_, ?_, ?_⟩
  · intro j hj
    obtain ⟨h1, h2⟩ := hcount j
    unfold links
    rw [h1, h2]
    by_cases hji : j = i
    · subst hji
      have hone : ((T0.setEnt d m (some (j, name))).setNlink d v).nlink j = 1 := by
        simp only [Tree.setNlink, Tree.setEnt, update_of_ne (Ne.symm hdi)]
        exact hnew.one
      rw [hone, z1, z2, if_pos rfl, if_neg fun hc => hdi hc.1.symm, if_neg (Ne.symm hroot)]
      rfl
    · have hx := h.exact j (by rw [← hnew.type j hji]; exact hj)
      unfold links at hx
      rw [if_neg hji]
      by_cases hjd : j = d
      · subst hjd
        simp only [Tree.setNlink, update_self, hv, true_and]
        rw [hx]
        push_cast
        split <;> split <;> omega
      · rw [if_neg fun hc => hjd hc.1]
        simp only [Tree.setNlink, Tree.setEnt, update_of_ne hjd]
        rw [hnew.nlink j hji, hx]
        push_cast
        omega
  · intro c hc
    by_cases hci : c = i
    · subst hci
      rw [(hcount c).1, z1, if_pos rfl]
    · rw [hname c hci]
      exact h.once c (hold c hci hc)
  · rw [hname _ hroot]
    exact h.rootless
  · intro c hc hr hz x
    have hci : c ≠ i := by
      rintro rfl
      rw [(hcount c).1, if_pos rfl] at hz
      omega
    rw [hname c hci] at hz
    have hcd : c ≠ d := by
      rintro rfl
      rcases h.named hd hnl with h1 | h1
      · exact hr h1
      · omega
    rw [hent, if_neg fun hx => hcd hx.1, hnew.ent c hci]
    exact h.empty c (hold c hci hc) hr hz x
  · intro c hc hr
    by_cases hci : c = i
    · subst hci
      refine .entry (m := m) (hpath d (h.reach d hd (h.named hd hnl))) ?_ hn1 hn2
      rw [hent, if_pos ⟨rfl, rfl⟩]
    · rw [hname c hci] at hr
      exact hpath c (h.reach c (hold c hci hc) hr)

lemma Exactly.unlinked (h : Exactly n T) (hd : T.type d = .dir)
    (he : T.ent d m = some (i, name)) (h1 : name ≠ dot) (h2 : name ≠ dotdot)
    (hi : T.type i ≠ .free) (hlink : 1 ≤ T.nlink i)
    (hempty : T.type i = .dir → ∀ x, 2 ≤ x → T.ent i x = none) : Exactly n (T.unlinked d m i) := by
  have hdi := h.unlink_ne hd he h1 h2 hempty
  have hm := h.bound d m (by rw [he]; simp)
  have hdn := (h.range d (by rw [hd]; decide)).2
  have hcount := fun j => counts_unlinked hdn hm he h1 h2 j
  have hent : ∀ c x, (T.unlinked d m i).ent c x = if c = d ∧ x = m then none else T.ent c x := by
    intro c x
    rw [unlinked_ent, setEnt_ent]
  have hbare : T.type i = .dir → ∀ x, proper (T.ent i x) = none := by
    intro hdir x
    obtain ⟨e0, p, e1, _⟩ := h.dots i hdir
    have hx : x = 0 ∨ x = 1 ∨ 2 ≤ x := by omega
    rcases hx with rfl | rfl | hx
    · rw [e0, proper_dot]
    · rw [e1, proper_dotdot]
    · rw [hempty hdir x hx, proper_none]
  refine ⟨h.toGood.unlinked hd he h1 h2 hi hlink hempty, ?_, ?_, ?_, ?_, ?_⟩
  · intro j hj
    rw [unlinked_type] at hj
    have hx := h.exact j hj
    obtain ⟨c1, c2⟩ := hcount j
    rw [unlinked_nlink hdi]
    unfold links at hx ⊢
    by_cases hji : j = i
    · subst hji
      rw [if_pos rfl] at c1
      rw [if_neg fun hc => hdi hc.1.symm] at c2
      rw [if_pos rfl, short_pred hlink (h.le j)]
      push_cast at hx ⊢
      omega
    · rw [if_neg hji] at c1
      rw [if_neg hji]
      by_cases hjd : j = d ∧ T.type i = .dir
      · rw [if_pos hjd] at c2
        rw [if_pos hjd]
        rw [hjd.1] at hx c1 c2 ⊢
        rw [short_pred (by omega) (h.le d)]
        push_cast at hx ⊢
        omega
      · rw [if_neg hjd] at c2
        rw [if_neg hjd]
        push_cast at hx ⊢
        omega
  · intro c hc
    rw [unlinked_type] at hc
    have := h.once c hc
    have := (hcount c).1
    omega
  · have := h.rootless
    have := (hcount ROOTINO).1
    omega
  · intro c hc hr hz x
    rw [unlinked_type] at hc
    rw [hent]
    split
    · exact proper_none
    · by_cases hci : c = i
      · subst hci
        exact hbare hc x
      · have := (hcount c).1
        rw [if_neg hci] at this
        exact h.empty c hc hr (by omega) x
  · intro c hc hr
    rw [unlinked_type] at hc
    have hci : c ≠ i := by
      rintro rfl
      have hone := h.once c hc
      have hc1 := (hcount c).1
      rw [if_pos rfl] at hc1
      rcases hr with rfl | hr
      · have := h.rootless
        omega
      · omega
    -- a path that goes on from `i` would go through an entry of an empty directory
    have hpath : ∀ c, Reach T c → c ≠ i → Reach (T.unlinked d m i) c := by
      intro c hreach
      induction hreach with
      | root => exact fun _ => .root
      | @entry c x j nm _ hx n1 n2 ih =>
        intro hji
        have hci : c ≠ i := by
          rintro rfl
          have := hbare (h.dirs c x (by rw [hx]; simp)) x
          rw [hx, proper_some n1 n2] at this
          cases this
        refine .entry (m := x) (ih hci) ?_ n1 n2
        rw [hent, if_neg]
        · exact hx
        · rintro ⟨rfl, rfl⟩
          rw [he] at hx
          cases hx
          exact hji rfl
    refine hpath c (h.reach c hc ?_) hci
    have := (hcount c).1
    omega

/-! ## Steps -/

def FewLinks (T : Tree) : Prop := ∀ i, T.type i ≠ .dir → T.nlink i < 32767

lemma subdirs_le_max (T : Tree) (d : Nat) : subdirs T d ≤ MAXENT := by
  have hcard : placeSet.card = MAXENT := by
    unfold placeSet
    exact Finset.card_range _
  rw [← hcard]
  exact Finset.card_filter_le _ _

lemma Exactly.dir_nlink_le (h : Exactly n T) (hd : T.type d = .dir) : T.nlink d < 32767 := by
  have hx := h.exact d (by rw [hd]; decide)
  have h1 := h.once d hd
  have h2 := subdirs_le_max T d
  have h3 : MAXENT = 17152 := rfl
  unfold links at hx
  split at hx <;> omega

lemma Exactly.nlink_lt (h : Exactly n T) (hfew : FewLinks T) (i : Nat) : T.nlink i < 32767 := by
  by_cases hd : T.type i = .dir
  · exact h.dir_nlink_le hd
  · exact hfew i hd

lemma Exactly.short_succ (h : Exactly n T) (hfew : FewLinks T) (i : Nat) :
    short (T.nlink i + 1) = T.nlink i + 1 := by
  have h1 := h.nonneg i
  have h2 := h.nlink_lt hfew i
  exact short_of_le (by omega) (by omega)

lemma Exactly.noOverflow (h : Exactly n T) (hs : TreeStep n T T') (hfew : FewLinks T) :
    NoOverflow T' := by
  have hzero := h.nonneg
  cases hs with
  | same => exact hzero
  | drop i hd =>
    obtain ⟨F, hf, _⟩ := hd.frees
    intro j
    by_cases hF : F j
    · rw [(hf.gone j hF).2.1]
    · rw [(hf.rest j hF).2.1]
      exact hzero j
  | @link d m i name hd he hl hi hdir =>
    intro j
    have := h.short_succ hfew i
    have := hzero i
    by_cases hj : j = i
    · subst hj
      simp only [Tree.setEnt, Tree.setNlink, update_self]
      omega
    · simp only [Tree.setEnt, Tree.setNlink, update_of_ne hj]
      exact hzero j
  | @create d m i name type hd he hl hi h0 hin htype =>
    intro j
    have hnew := newIn_file htype d i T
    show 0 ≤ ((T.alloc i type).setNlink i 1).nlink j
    by_cases hj : j = i
    · rw [hj, hnew.one]
      decide
    · rw [hnew.nlink j hj]
      exact hzero j
  | @mkdir d m i name hd he hl hi h0 hin =>
    intro j
    have hnew := newIn_dir d i T
    have := h.short_succ hfew d
    have := hzero d
    by_cases hjd : j = d
    · subst hjd
      simp only [Tree.setNlink, update_self]
      omega
    · simp only [Tree.setNlink, Tree.setEnt, update_of_ne hjd]
      by_cases hj : j = i
      · subst hj
        rw [hnew.one]
        decide
      · rw [hnew.nlink j hj]
        exact hzero j
  | @unlink _ T1 d m i name hd he h1 h2 hi hlink hempty hdrop hdrop' =>
    obtain ⟨F, hf, _⟩ := hdrop.frees
    obtain ⟨G, hg, _⟩ := hdrop'.frees
    have hgood := h.toGood.unlinked hd he h1 h2 hi hlink hempty
    have hfg := hf.trans hg
    intro j
    by_cases hF : F j ∨ G j
    · rw [(hfg.gone j hF).2.1]
    · rw [(hfg.rest j hF).2.1]
      exact hgood.nonneg j

lemma Exactly.step (h : Exactly n T) (hs : TreeStep n T T') (ht : Treelike T')
    (hk : KeepsParents T T') (ho : OnlyLinked T T') (hfew : FewLinks T) : Exactly n T' := by
  have hg : Good n T' := h.toGood.step hs ht hk (h.noOverflow hs hfew)
  cases hs with
  | same => exact h
  | drop i hd =>
    obtain ⟨F, hf, _⟩ := hd.frees
    exact h.frees hf hg
  | @link d m i name hd he hl hi hdir =>
    refine h.link hd he hl hdir hg (h.nlink_lt hfew i) (ho d m hd he ?_)
    rw [setEnt_ent, if_pos ⟨rfl, rfl⟩]
    simp
  | @create d m i name type hd he hl hi h0 hin htype =>
    have hnd : type ≠ .dir := by
      rcases htype with rfl | rfl <;> decide
    have hnl : T.nlink d ≠ 0 := by
      refine ho d m hd he ?_
      rw [setEnt_ent, if_pos ⟨rfl, rfl⟩]
      simp
    rw [← created_same m name type hd hi] at hg ⊢
    refine h.made (newIn_file htype d i T) hd he hl hi ?_ hnl hg
    simp [Tree.setNlink, Tree.alloc, hnd]
  | @mkdir d m i name hd he hl hi h0 hin =>
    have hnl : T.nlink d ≠ 0 := by
      refine ho d m hd he ?_
      have : ((((T.newDir d i).setEnt d m (some (i, name))).setNlink d
          (short (T.nlink d + 1))).ent d m) = some (i, name) := by
        refine (setEnt_ent d m).trans (if_pos ⟨rfl, rfl⟩)
      rw [this]
      simp
    refine h.made (newIn_dir d i T) hd he hl hi ?_ hnl hg
    rw [h.short_succ hfew d]
    simp [Tree.newDir, Tree.setEnt, Tree.setNlink, Tree.alloc]
  | @unlink _ T1 d m i name hd he h1 h2 hi hlink hempty hdrop hdrop' =>
    obtain ⟨F, hf, _⟩ := hdrop.frees
    obtain ⟨G, hg', _⟩ := hdrop'.frees
    exact (h.unlinked hd he h1 h2 hi hlink hempty).frees (hf.trans hg') hg

end xv6.fs
