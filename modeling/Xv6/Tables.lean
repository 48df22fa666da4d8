-- Page tables in memory: the pages of the three levels and the entries of the
-- last one. `walk` finds the place of an entry, and adds the pages it lacks.
import Xv6.Pages

open cells linked wp

namespace xv6.vm

/-! ## Words of entries -/

section words

variable {pa f m w va : Nat}

lemma PTE2PA_eq (w : Nat) : PTE2PA w = w / 1024 * PGSIZE := by
  unfold PTE2PA PGSIZE
  rw [Nat.shiftRight_eq_div_pow, Nat.shiftLeft_eq]

lemma PTE_FLAGS_eq (w : Nat) : PTE_FLAGS w = w % 1024 :=
  Nat.and_two_pow_sub_one_eq_mod w 10

lemma PA2PTE_or (hf : f < 1024) :
    PA2PTE pa ||| f = pa / PGSIZE * 1024 + f := by
  unfold PA2PTE PGSIZE
  rw [← Nat.shiftLeft_add_eq_or_of_lt (i := 10) hf, Nat.shiftRight_eq_div_pow, Nat.shiftLeft_eq]

lemma PTE2PA_or (hpa : pa % PGSIZE = 0) (hf : f < 1024) : PTE2PA (PA2PTE pa ||| f) = pa := by
  rw [PTE2PA_eq, PA2PTE_or hf]
  have hP : PGSIZE = 4096 := rfl
  rw [hP] at hpa ⊢
  omega

lemma PTE_FLAGS_or (hf : f < 1024) :
    PTE_FLAGS (PA2PTE pa ||| f) = f := by
  rw [PTE_FLAGS_eq, PA2PTE_or hf]
  omega

lemma and_eq_flags (hm : m < 1024) (w : Nat) : w &&& m = PTE_FLAGS w &&& m := by
  have hle : w &&& m < 1024 := lt_of_le_of_lt Nat.and_le_right hm
  have hmod := Nat.and_mod_two_pow (a := w) (b := m) (n := 10)
  rw [Nat.mod_eq_of_lt (b := 2 ^ 10) hle, Nat.mod_eq_of_lt (a := m) (b := 2 ^ 10) hm] at hmod
  rw [hmod, PTE_FLAGS_eq]

lemma PTE_FLAGS_lt (w : Nat) : PTE_FLAGS w < 1024 := by
  rw [PTE_FLAGS_eq]
  omega

lemma PX_eq (level va : Nat) : PX level va = va / 2 ^ (12 + 9 * level) % 512 := by
  unfold PX
  rw [Nat.shiftRight_eq_div_pow]
  exact Nat.and_two_pow_sub_one_eq_mod _ 9

lemma PX_page (h : va < 2 ^ 39) : PX 2 va = va / PGSIZE / 2 ^ 18 ∧
    PX 1 va = va / PGSIZE / 2 ^ 9 % 512 ∧ PX 0 va = va / PGSIZE % 512 := by
  simp only [PX_eq, PGSIZE]
  omega

def dir (p : Nat) : Nat := if p = 0 then 0 else PA2PTE p ||| PTE_V

@[simp] lemma dir_zero : dir 0 = 0 := rfl

lemma dir_valid (h0 : pa ≠ 0) (hpa : pa % PGSIZE = 0) :
    dir pa &&& PTE_V ≠ 0 ∧ dir pa &&& (PTE_R ||| PTE_W ||| PTE_X) = 0 ∧ PTE2PA (dir pa) = pa := by
  unfold dir
  rw [if_neg h0]
  refine ⟨?_, ?_, PTE2PA_or hpa (by decide)⟩
  · rw [and_eq_flags (by decide), PTE_FLAGS_or (by decide)]
    decide
  · rw [and_eq_flags (by decide), PTE_FLAGS_or (by decide)]
    decide

def Leaf (w : Nat) : Prop := w &&& PTE_V ≠ 0 ∧ w &&& PTE_R ≠ 0

lemma Leaf.ne_zero (h : Leaf w) : w ≠ 0 := by
  rintro rfl
  exact h.1 (Nat.zero_and _)

lemma Leaf.flags_ne (h : Leaf w) : PTE_FLAGS w ≠ PTE_V := by
  intro he
  apply h.2
  rw [and_eq_flags (by decide), he]
  decide

end words

/-! ## The tables -/

/-- A page table: the page of each table of the second and the third level (0 for none), and the
entry of each page number. -/
structure Tab where
  mid : Nat → Nat
  low : Nat → Nat → Nat
  pte : Nat → Nat

/-- The page at a place. -/
def Tab.at (T : Tab) (r : Nat) : Place → Nat
  | .root => r
  | .mid i => T.mid i
  | .low i j => T.low i j

/-- The words of the page at a place. -/
def Tab.word (T : Tab) : Place → Nat → Nat
  | .root, i => dir (T.mid i)
  | .mid i, j => dir (T.low i j)
  | .low i j, k => T.pte ((i * 512 + j) * 512 + k)

/-- In memory the table with root `r` is `T`, and its pages are those that are used for it. -/
structure Table (use : Nat → Use) (mem : Nat → Nat → Nat) (r : Nat) (T : Tab) : Prop where
  use_at : ∀ pl, T.at r pl ≠ 0 → use (T.at r pl) = .table r pl
  at_use : ∀ x pl, use x = .table r pl → x ≠ 0 ∧ T.at r pl = x
  root_ne : r ≠ 0
  words : ∀ pl, T.at r pl ≠ 0 → ∀ k < NPTE, mem (T.at r pl) k = T.word pl k
  mid_lt : ∀ i, T.mid i ≠ 0 → i < NPTE
  low_mid : ∀ i j, T.low i j ≠ 0 → T.mid i ≠ 0 ∧ j < NPTE
  pte_low : ∀ n, T.pte n ≠ 0 → n < 2 ^ 27 ∧ T.low (n / 2 ^ 18) (n / 2 ^ 9 % 512) ≠ 0

variable {ld : Link} {use use' : Nat → Use} {l l' : List Nat} {v v' : Vm} {r x i j k n : Nat}
  {u : Use} {mem mem' : Nat → Nat → Nat} {T T' : Tab} {pl pl' : Place} {E : Stop → Prop}

lemma Table.at_inj {o o' : Place} (h : Table use mem r T) (h0 : T.at r o ≠ 0)
    (he : T.at r o' = T.at r o) : o' = o := by
  have h1 := h.use_at o h0
  have h2 := h.use_at o' (by rw [he]; exact h0)
  rw [he, h1] at h2
  cases h2
  rfl

lemma Table.congr (h : Table use mem r T)
    (huse : ∀ x pl, use' x = .table r pl ↔ use x = .table r pl)
    (hmem : ∀ x pl, use x = .table r pl → mem' x = mem x) : Table use' mem' r T := by
  refine ⟨fun pl hpl => (huse _ _).mpr (h.use_at pl hpl), fun x pl hx => h.at_use x pl
    ((huse x pl).mp hx), h.root_ne, fun pl h0 k hk => ?_, h.mid_lt, h.low_mid, h.pte_low⟩
  rw [hmem _ pl (h.use_at pl h0)]
  exact h.words pl h0 k hk

lemma index_split (hj : j < 512) (hk : k < 512) :
    ((i * 512 + j) * 512 + k) / 2 ^ 18 = i ∧ ((i * 512 + j) * 512 + k) / 2 ^ 9 % 512 = j ∧
      ((i * 512 + j) * 512 + k) % 512 = k := by
  omega

lemma index_join (n : Nat) : (n / 2 ^ 18 * 512 + n / 2 ^ 9 % 512) * 512 + n % 512 = n := by
  omega

section

variable (h : Table use mem r T)
include h

lemma Table.pte_word (hlow : T.low (n / 2 ^ 18) (n / 2 ^ 9 % 512) ≠ 0) :
    mem (T.low (n / 2 ^ 18) (n / 2 ^ 9 % 512)) (n % 512) = T.pte n := by
  have hk : n % 512 < NPTE := Nat.mod_lt _ (by decide)
  refine (h.words (.low _ _) hlow _ hk).trans ?_
  show T.pte _ = _
  rw [index_join]

lemma Table.add {o o' : Place} (hfree : T.at r o' = 0) (hpl : T.at r o ≠ 0)
    (hx : use x = .free) (hx0 : x ≠ 0)
    (hat : ∀ q, T'.at r q = if q = o' then x else T.at r q)
    (hnew : ∀ k < NPTE, T'.word o' k = 0)
    (hword : ∀ q, T.at r q ≠ 0 → ∀ k' < NPTE,
      T'.word q k' = if q = o ∧ k' = k then dir x else T.word q k')
    (hzero : mem' x = fun _ => 0) (hparent : mem' (T.at r o) = put (mem (T.at r o)) k (dir x))
    (hrest : ∀ y, y ≠ x → y ≠ T.at r o → mem' y = mem y)
    (hmid : ∀ i, T'.mid i ≠ 0 → i < NPTE) (hlow : ∀ i j, T'.low i j ≠ 0 → T'.mid i ≠ 0 ∧ j < NPTE)
    (hpte : ∀ n, T'.pte n ≠ 0 → n < 2 ^ 27 ∧ T'.low (n / 2 ^ 18) (n / 2 ^ 9 % 512) ≠ 0) :
    Table (put use x (.table r o')) mem' r T' := by
  have hne : ∀ q, T.at r q ≠ 0 → T.at r q ≠ x := by
    rintro q h0 rfl
    rw [h.use_at q h0] at hx
    cases hx
  have hold : ∀ q, T'.at r q ≠ 0 → q ≠ o' → T.at r q ≠ 0 := by
    intro q h0 hq
    rw [hat, if_neg hq] at h0
    exact h0
  refine ⟨?_, ?_, h.root_ne, ?_, hmid, hlow, hpte⟩
  · intro q h0
    by_cases hq : q = o'
    · rw [hat, if_pos hq, put_self, hq]
    · have h1 := hold q h0 hq
      rw [hat, if_neg hq, put_of_ne (hne q h1)]
      exact h.use_at q h1
  · intro y q hy
    by_cases hyx : y = x
    · rw [hyx, put_self] at hy
      cases hy
      rw [hat, if_pos rfl, hyx]
      exact ⟨hx0, rfl⟩
    · rw [put_of_ne hyx] at hy
      obtain ⟨h1, h2⟩ := h.at_use y q hy
      refine ⟨h1, ?_⟩
      rw [hat, if_neg, h2]
      rintro rfl
      exact h1 (h2.symm.trans hfree)
  · intro q h0 k' hk'
    by_cases hq : q = o'
    · rw [hat, if_pos hq, hzero, hq, hnew k' hk']
    · have h1 := hold q h0 hq
      rw [hat, if_neg hq, hword q h1 k' hk']
      by_cases hqp : q = o
      · rw [hqp, hparent]
        by_cases hkk : k' = k
        · rw [hkk, put_self, if_pos ⟨rfl, rfl⟩]
        · rw [put_of_ne hkk, if_neg fun hc => hkk hc.2]
          exact h.words o hpl k' hk'
      · have hqne : T.at r q ≠ T.at r o := fun he => hqp (h.at_inj hpl he)
        rw [hrest _ (hne q h1) hqne, if_neg fun hc => hqp hc.1]
        exact h.words q h1 k' hk'

lemma Table.addMid (hi : i < NPTE) (hmid : T.mid i = 0)
    (hx : use x = .free) (hx0 : x ≠ 0) (hzero : mem' x = fun _ => 0)
    (hroot : mem' r = put (mem r) i (dir x)) (hrest : ∀ y, y ≠ x → y ≠ r → mem' y = mem y) :
    Table (put use x (.table r (.mid i))) mem' r { T with mid := put T.mid i x } := by
  have hlow0 : ∀ j, T.low i j = 0 := by
    intro j
    by_contra h0
    exact (h.low_mid i j h0).1 hmid
  refine h.add (o := .root) (k := i) hmid h.root_ne hx hx0 ?_ ?_ ?_ hzero hroot hrest ?_ ?_
    h.pte_low
  · rintro (_ | i' | ⟨i', j'⟩)
    · rfl
    · by_cases hi' : i' = i
      · subst hi'
        simp [Tab.at]
      · simp [Tab.at, hi']
    · rfl
  · intro k _
    show dir (T.low i k) = 0
    rw [hlow0, dir_zero]
  · rintro (_ | i' | ⟨i', j'⟩) _ k _
    · by_cases hk : k = i
      · subst hk
        simp [Tab.word]
      · simp [Tab.word, hk]
    · simp [Tab.word]
    · simp [Tab.word]
  · intro i' h0
    by_cases hi' : i' = i
    · rw [hi']
      exact hi
    · dsimp only at h0
      rw [put_of_ne hi'] at h0
      exact h.mid_lt i' h0
  · intro i' j' h0
    obtain ⟨h1, h2⟩ := h.low_mid i' j' h0
    refine ⟨?_, h2⟩
    dsimp only
    rw [put_of_ne]
    · exact h1
    · rintro rfl
      exact h1 hmid

lemma Table.addLow (hj : j < NPTE) (hmid : T.mid i ≠ 0)
    (hlow : T.low i j = 0) (hx : use x = .free) (hx0 : x ≠ 0) (hzero : mem' x = fun _ => 0)
    (hparent : mem' (T.mid i) = put (mem (T.mid i)) j (dir x))
    (hrest : ∀ y, y ≠ x → y ≠ T.mid i → mem' y = mem y) :
    Table (put use x (.table r (.low i j))) mem' r
      { T with low := put T.low i (put (T.low i) j x) } := by
  have hi := h.mid_lt i hmid
  have hpte0 : ∀ k < NPTE, T.pte ((i * 512 + j) * 512 + k) = 0 := by
    intro k hk
    by_contra h0
    obtain ⟨h1, h2, _⟩ := index_split (i := i) hj hk
    have := (h.pte_low _ h0).2
    rw [h1, h2] at this
    exact this hlow
  have hput : ∀ i' j', put T.low i (put (T.low i) j x) i' j' =
      if i' = i ∧ j' = j then x else T.low i' j' := by
    intro i' j'
    by_cases hi' : i' = i
    · subst hi'
      by_cases hj' : j' = j
      · subst hj'
        simp
      · simp [hj']
    · simp [hi']
  refine h.add (o := .mid i) (k := j) hlow hmid hx hx0 ?_ ?_ ?_ hzero hparent hrest h.mid_lt ?_ ?_
  · rintro (_ | i' | ⟨i', j'⟩)
    · rfl
    · rfl
    · simp only [Tab.at, hput, Place.low.injEq]
  · exact hpte0
  · rintro (_ | i' | ⟨i', j'⟩) _ k _
    · simp [Tab.word]
    · simp only [Tab.word, hput, Place.mid.injEq]
      split
      · rfl
      · rfl
    · simp [Tab.word]
  · intro i' j' h0
    dsimp only at h0
    rw [hput] at h0
    split at h0
    · rename_i hc
      rw [hc.1, hc.2]
      exact ⟨hmid, hj⟩
    · exact h.low_mid i' j' h0
  · intro n h0
    obtain ⟨h1, h2⟩ := h.pte_low n h0
    refine ⟨h1, ?_⟩
    dsimp only
    rw [hput]
    split
    · exact hx0
    · exact h2

lemma Table.setPte {m : Nat → Nat → Nat} (hn : n < 2 ^ 27)
    (hlow : T.low (n / 2 ^ 18) (n / 2 ^ 9 % 512) ≠ 0) (w : Nat)
    (hmem : m (T.low (n / 2 ^ 18) (n / 2 ^ 9 % 512)) =
      put (mem (T.low (n / 2 ^ 18) (n / 2 ^ 9 % 512))) (n % 512) w)
    (hrest : ∀ y, y ≠ T.low (n / 2 ^ 18) (n / 2 ^ 9 % 512) → m y = mem y) :
    Table use m r { T with pte := put T.pte n w } := by
  refine ⟨?_, ?_, h.root_ne, ?_, h.mid_lt, h.low_mid, ?_⟩
  · rintro (_ | i' | ⟨i', j'⟩) h0
    · exact h.use_at .root h0
    · exact h.use_at (.mid i') h0
    · exact h.use_at (.low i' j') h0
  · rintro y (_ | i' | ⟨i', j'⟩) hy
    · exact h.at_use y .root hy
    · exact h.at_use y (.mid i') hy
    · exact h.at_use y (.low i' j') hy
  · have hother : ∀ q, T.at r q ≠ 0 → q ≠ .low (n / 2 ^ 18) (n / 2 ^ 9 % 512) →
        ∀ k < NPTE, m (T.at r q) k = T.word q k := by
      intro q h0 hq k hk
      rw [hrest]
      · exact h.words q h0 k hk
      · intro he
        exact hq (h.at_inj (o := .low (n / 2 ^ 18) (n / 2 ^ 9 % 512)) hlow he)
    rintro (_ | i' | ⟨i', j'⟩) h0 k hk
    · exact hother .root h0 (by simp) k hk
    · exact hother (.mid i') h0 (by simp) k hk
    · by_cases hq : i' = n / 2 ^ 18 ∧ j' = n / 2 ^ 9 % 512
      · obtain ⟨rfl, rfl⟩ := hq
        show m (T.low _ _) k = put T.pte n w _
        rw [hmem]
        by_cases hkn : k = n % 512
        · rw [hkn, put_self, index_join, put_self]
        · rw [put_of_ne hkn, put_of_ne]
          · exact h.words (.low _ _) h0 k hk
          · intro he
            have hk512 : k < 512 := hk
            omega
      · refine (hother (.low i' j') h0 (by simp [Place.low.injEq]; tauto) k hk).trans ?_
        show T.pte _ = put T.pte n w _
        rw [put_of_ne]
        rintro rfl
        have hj512 : j' < 512 := (h.low_mid i' j' h0).2
        obtain ⟨h1, h2, _⟩ := index_split (i := i') hj512 (show k < 512 from hk)
        exact hq ⟨h1.symm, h2.symm⟩
  · intro m h0
    by_cases hm : m = n
    · rw [hm]
      exact ⟨hn, hlow⟩
    · dsimp only at h0
      rw [put_of_ne hm] at h0
      exact h.pte_low m h0

end

/-! ## `walk` -/

/-- The table with root `r` took pages that were free, and nothing else changed. -/
structure Ext (r : Nat) (use use' : Nat → Use) (mem mem' : Nat → Nat → Nat) : Prop where
  keep : ∀ x, use x ≠ .free → use' x = use x
  fresh : ∀ x, use x = .free → use' x = .free ∨ ∃ pl, use' x = .table r pl
  same : ∀ x, use x ≠ .free → (∀ pl, use x ≠ .table r pl) → mem' x = mem x

lemma Ext.refl (r : Nat) (use : Nat → Use) (mem : Nat → Nat → Nat) : Ext r use use mem mem :=
  ⟨fun _ _ => rfl, fun _ h => .inl h, fun _ _ _ => rfl⟩

lemma Ext.trans {use'' : Nat → Use} {mem'' : Nat → Nat → Nat} (h : Ext r use use' mem mem')
    (h' : Ext r use' use'' mem' mem'') : Ext r use use'' mem mem'' := by
  refine ⟨fun x hx => ?_, fun x hx => ?_, fun x hx ht => ?_⟩
  · have h1 := h.keep x hx
    exact (h'.keep x (by rw [h1]; exact hx)).trans h1
  · rcases h.fresh x hx with h1 | ⟨pl, h1⟩
    · exact h'.fresh x h1
    · exact .inr ⟨pl, (h'.keep x (by rw [h1]; simp)).trans h1⟩
  · have h1 := h.keep x hx
    exact (h'.same x (by rw [h1]; exact hx) (by rw [h1]; exact ht)).trans (h.same x hx ht)

lemma ext_put (hx : use x = .free) {P : Nat} {pl' : Place} (hP : use P = .table r pl')
    (hrest : ∀ y, y ≠ x → y ≠ P → mem' y = mem y) :
    Ext r use (put use x (.table r pl)) mem mem' := by
  refine ⟨fun y hy => put_of_ne ?_ .., fun y hy => ?_, fun y hy ht => hrest y ?_ ?_⟩
  · rintro rfl
    exact hy hx
  · by_cases hyx : y = x
    · rw [hyx, put_self]
      exact .inr ⟨pl, rfl⟩
    · rw [put_of_ne hyx]
      exact .inl hy
  · rintro rfl
    exact hy hx
  · rintro rfl
    exact ht pl' hP

lemma wp_walkLevel_some {P c : Nat} {alloc : Bool} (hP : inRam P = true) (hw : v.mem P i = dir c)
    (hc : c ≠ 0) (hal : c % PGSIZE = 0) :
    Wp (walkLevel P i alloc) (fun o v' => o = some c ∧ v' = v) E v := by
  obtain ⟨h1, _, h2⟩ := dir_valid hc hal
  unfold walkLevel
  rw [wp_load_bind hP, hw, if_pos h1, wp_pure, h2]
  exact ⟨rfl, rfl⟩

lemma wp_walkLevel_none {P : Nat} (hP : inRam P = true) (hw : v.mem P i = 0) :
    Wp (walkLevel P i false) (fun o v' => o = none ∧ v' = v) E v := by
  unfold walkLevel
  rw [wp_load_bind hP, hw, if_neg (by simp), if_pos rfl, wp_pure]
  exact ⟨rfl, rfl⟩

lemma wp_walkLevel_alloc {P : Nat} (h : Heap ld use l v) (hP : IsPage ld P)
    (hfree : use P ≠ .free) (hw : v.mem P i = 0) :
    Wp (walkLevel P i true) (fun o v' => (o = none ∧ l = [] ∧ v' = v) ∨
      ∃ x l', l = x :: l' ∧ o = some x ∧ use x = .free ∧ IsPage ld x ∧ (v'.mem x = fun _ => 0) ∧
        v'.mem P = put (v.mem P) i (dir x) ∧ (∀ y, y ≠ x → y ≠ P → v'.mem y = v.mem y) ∧
        ∀ u, u ≠ .free → Heap ld (put use x u) l' v') E v := by
  unfold walkLevel
  rw [wp_load_bind hP.inRam, hw, if_neg (by simp), if_neg (by simp)]
  refine (wp_kalloc h).bind ?_
  rintro x v1 (⟨rfl, hl, rfl⟩ | ⟨l', hl, hx, hpage, hmem, hheap⟩)
  · rw [if_pos rfl, wp_pure]
    exact .inl ⟨rfl, hl, rfl⟩
  · rw [if_neg hpage.ne_zero, wp_memset_bind hpage.inRam, wp_store_bind hP.inRam, wp_pure]
    have hPx : P ≠ x := by
      rintro rfl
      exact hfree hx
    refine .inr ⟨x, l', hl, rfl, hx, hpage, ?_, ?_, ?_, fun u hu => ?_⟩
    · rw [putPage_of_ne (Ne.symm hPx), putPage_self]
    · rw [putPage_self, putPage_of_ne hPx, hmem P hPx]
      unfold dir
      rw [if_neg hpage.ne_zero]
    · intro y hy hyP
      rw [putPage_of_ne hyP, putPage_of_ne hy, hmem y hy]
    · have hheap' := (hheap u hu).putPage (x := x) (by rw [put_self]; exact hu)
        (fun _ => 0 * 0x0101010101010101)
      exact hheap'.putPage (by rw [put_of_ne hPx]; exact hfree) _

lemma Table.page {o : Place} (ht : Table use mem r T) (h : Heap ld use l v) (h0 : T.at r o ≠ 0) :
    IsPage ld (T.at r o) :=
  h.page _ (by rw [ht.use_at o h0]; simp)

lemma Table.not_free {o : Place} (ht : Table use mem r T)
    (h0 : T.at r o ≠ 0) : use (T.at r o) ≠ .free := by
  rw [ht.use_at o h0]
  simp

lemma wp_walk_find {va : Nat} (h : Heap ld use l v) (ht : Table use v.mem r T)
    (hva : va < MAXVA) :
    Wp (walk r va false) (fun o v' => v' = v ∧
      o = if T.low (va / PGSIZE / 2 ^ 18) (va / PGSIZE / 2 ^ 9 % 512) = 0 then none
        else some (T.low (va / PGSIZE / 2 ^ 18) (va / PGSIZE / 2 ^ 9 % 512), va / PGSIZE % 512))
      E v := by
  have hva' : va < 2 ^ 38 := hva
  obtain ⟨p2, p1, p0⟩ := PX_page (show va < 2 ^ 39 by omega)
  have hi : va / PGSIZE / 2 ^ 18 < NPTE := by
    unfold PGSIZE NPTE
    omega
  have hj : va / PGSIZE / 2 ^ 9 % 512 < NPTE := Nat.mod_lt _ (by decide)
  unfold walk
  rw [if_neg (by omega), p2, p1, p0]
  generalize va / PGSIZE / 2 ^ 18 = i at *
  generalize va / PGSIZE / 2 ^ 9 % 512 = j at *
  have hroot := (ht.page (o := .root) h ht.root_ne).inRam
  have hrw : v.mem r i = dir (T.mid i) := ht.words .root ht.root_ne i hi
  by_cases hmid : T.mid i = 0
  · have hlow : T.low i j = 0 := by
      by_contra h0
      exact (ht.low_mid i j h0).1 hmid
    rw [hmid, dir_zero] at hrw
    refine (wp_walkLevel_none hroot hrw).bind ?_
    rintro o v1 ⟨rfl, rfl⟩
    rw [wp_pure, if_pos hlow]
    exact ⟨rfl, rfl⟩
  · have hmpage := ht.page (o := .mid i) h hmid
    refine (wp_walkLevel_some hroot hrw hmid hmpage.1).bind ?_
    rintro o v1 ⟨rfl, rfl⟩
    have hmw : v1.mem (T.mid i) j = dir (T.low i j) := ht.words (.mid i) hmid j hj
    by_cases hlow : T.low i j = 0
    · rw [hlow, dir_zero] at hmw
      refine (wp_walkLevel_none hmpage.inRam hmw).bind ?_
      rintro o v2 ⟨rfl, rfl⟩
      rw [wp_pure, if_pos hlow]
      exact ⟨rfl, rfl⟩
    · have hlpage := ht.page (o := .low i j) h hlow
      refine (wp_walkLevel_some hmpage.inRam hmw hlow hlpage.1).bind ?_
      rintro o v2 ⟨rfl, rfl⟩
      rw [wp_pure, if_neg hlow]
      exact ⟨rfl, rfl⟩

/-- The table with root `r` is `T'` now: it took at most `n` pages from the free list, and other
pages are as before. -/
structure Grown (ld : Link) (r : Nat) (use : Nat → Use) (l : List Nat) (v : Vm) (n : Nat)
    (T' : Tab) (use' : Nat → Use) (l' : List Nat) (v' : Vm) : Prop where
  heap : Heap ld use' l' v'
  table : Table use' v'.mem r T'
  ext : Ext r use use' v.mem v'.mem
  took : ∃ k ≤ n, l' = l.drop k

lemma Grown.refl (h : Heap ld use l v) (ht : Table use v.mem r T) (n : Nat) :
    Grown ld r use l v n T use l v :=
  ⟨h, ht, .refl .., 0, Nat.zero_le n, rfl⟩

lemma Grown.trans {use'' : Nat → Use} {l'' : List Nat} {v'' : Vm} {T'' : Tab} {m : Nat}
    (h : Grown ld r use l v n T' use' l' v') (h' : Grown ld r use' l' v' m T'' use'' l'' v'') :
    Grown ld r use l v (n + m) T'' use'' l'' v'' := by
  obtain ⟨k, hk, rfl⟩ := h.took
  obtain ⟨k', hk', rfl⟩ := h'.took
  exact ⟨h'.heap, h'.table, h.ext.trans h'.ext, k + k', by omega, by rw [List.drop_drop]⟩

lemma Grown.mono {m : Nat} (h : Grown ld r use l v n T' use' l' v') (hn : n ≤ m) :
    Grown ld r use l v m T' use' l' v' := by
  obtain ⟨k, hk, hl⟩ := h.took
  exact ⟨h.heap, h.table, h.ext, k, by omega, hl⟩

section

variable (h : Heap ld use l v) (ht : Table use v.mem r T)
include h ht

lemma wp_walkLevel_mid (hi : i < NPTE) :
    Wp (walkLevel r i true) (fun o v' => ∃ use' l' T', Grown ld r use l v 1 T' use' l' v' ∧
      T'.pte = T.pte ∧ match o with
        | none => l' = [] ∧ T'.mid i = 0
        | some c => c = T'.mid i ∧ c ≠ 0) E v := by
  have hroot := ht.page (o := .root) h ht.root_ne
  have hrw : v.mem r i = dir (T.mid i) := ht.words .root ht.root_ne i hi
  by_cases hmid : T.mid i = 0
  · rw [hmid, dir_zero] at hrw
    refine (wp_walkLevel_alloc h hroot (ht.not_free (o := .root) ht.root_ne) hrw).imp ?_
    rintro o v' (⟨rfl, rfl, rfl⟩ | ⟨x, l', rfl, rfl, hx, hpage, hz, hp, hrest, hheap⟩)
    · exact ⟨use, [], T, .refl h ht 1, rfl, rfl, hmid⟩
    · refine ⟨_, l', _, ⟨hheap (.table r (.mid i)) (by simp),
        ht.addMid hi hmid hx hpage.ne_zero hz hp hrest, ext_put hx (ht.use_at .root ht.root_ne) hrest,
        1, le_rfl, rfl⟩, rfl, ?_, hpage.ne_zero⟩
      exact (put_self ..).symm
  · have hmpage := ht.page (o := .mid i) h hmid
    refine (wp_walkLevel_some hroot.inRam hrw hmid hmpage.1).imp ?_
    rintro o v' ⟨rfl, rfl⟩
    exact ⟨use, l, T, .refl h ht 1, rfl, rfl, hmid⟩

lemma wp_walkLevel_low (hj : j < NPTE)
    (hmid : T.mid i ≠ 0) :
    Wp (walkLevel (T.mid i) j true) (fun o v' => ∃ use' l' T', Grown ld r use l v 1 T' use' l' v' ∧
      T'.pte = T.pte ∧ match o with
        | none => l' = [] ∧ T'.low i j = 0
        | some c => c = T'.low i j ∧ c ≠ 0) E v := by
  have hmpage := ht.page (o := .mid i) h hmid
  have hmw : v.mem (T.mid i) j = dir (T.low i j) := ht.words (.mid i) hmid j hj
  by_cases hlow : T.low i j = 0
  · rw [hlow, dir_zero] at hmw
    refine (wp_walkLevel_alloc h hmpage (ht.not_free (o := .mid i) hmid) hmw).imp ?_
    rintro o v' (⟨rfl, rfl, rfl⟩ | ⟨x, l', rfl, rfl, hx, hpage, hz, hp, hrest, hheap⟩)
    · exact ⟨use, [], T, .refl h ht 1, rfl, rfl, hlow⟩
    · refine ⟨_, l', _, ⟨hheap (.table r (.low i j)) (by simp),
        ht.addLow hj hmid hlow hx hpage.ne_zero hz hp hrest,
        ext_put hx (ht.use_at (.mid i) hmid) hrest, 1, le_rfl, rfl⟩, rfl, ?_, hpage.ne_zero⟩
      simp
  · have hlpage := ht.page (o := .low i j) h hlow
    refine (wp_walkLevel_some hmpage.inRam hmw hlow hlpage.1).imp ?_
    rintro o v' ⟨rfl, rfl⟩
    exact ⟨use, l, T, .refl h ht 1, rfl, rfl, hlow⟩

lemma wp_walk {va : Nat} (hva : va < MAXVA) :
    Wp (walk r va true) (fun o v' => ∃ use' l' T', Grown ld r use l v 2 T' use' l' v' ∧
      T'.pte = T.pte ∧ match o with
        | none => l' = [] ∧ T'.low (va / PGSIZE / 2 ^ 18) (va / PGSIZE / 2 ^ 9 % 512) = 0
        | some (p, k) => p = T'.low (va / PGSIZE / 2 ^ 18) (va / PGSIZE / 2 ^ 9 % 512) ∧ p ≠ 0 ∧
            k = va / PGSIZE % 512) E v := by
  have hva' : va < 2 ^ 38 := hva
  obtain ⟨p2, p1, p0⟩ := PX_page (show va < 2 ^ 39 by omega)
  have hi : va / PGSIZE / 2 ^ 18 < NPTE := by
    unfold PGSIZE NPTE
    omega
  have hj : va / PGSIZE / 2 ^ 9 % 512 < NPTE := Nat.mod_lt _ (by decide)
  unfold walk
  rw [if_neg (by omega), p2, p1, p0]
  refine (wp_walkLevel_mid h ht hi).bind ?_
  rintro (_ | c) v1 ⟨use1, l1, T1, g1, hpte1, hres1⟩
  · rw [wp_pure]
    refine ⟨use1, l1, T1, g1.mono (by omega), hpte1, hres1.1, ?_⟩
    by_contra h0
    exact (g1.table.low_mid _ _ h0).1 hres1.2
  · obtain ⟨rfl, hmid⟩ := hres1
    refine (wp_walkLevel_low g1.heap g1.table hj hmid).bind ?_
    rintro (_ | c) v2 ⟨use2, l2, T2, g2, hpte2, hres2⟩
    · rw [wp_pure]
      exact ⟨use2, l2, T2, g1.trans g2, hpte2.trans hpte1, hres2⟩
    · rw [wp_pure]
      exact ⟨use2, l2, T2, g1.trans g2, hpte2.trans hpte1, hres2.1, hres2.2, rfl⟩

end

/-! ## `mappages` -/

/-- The entries after the `n` pages from page `m` on are mapped to those from `pa` on. -/
def mapAt (pte : Nat → Nat) (m n pa perm : Nat) : Nat → Nat := fun k =>
  if m ≤ k ∧ k < m + n then PA2PTE (pa + (k - m) * PGSIZE) ||| perm ||| PTE_V else pte k

variable {pte : Nat → Nat} {m pa perm : Nat}

@[simp] lemma mapAt_zero : mapAt pte m 0 pa perm = pte := by
  funext k
  exact if_neg (by omega)

lemma mapAt_succ : mapAt (put pte m (PA2PTE pa ||| perm ||| PTE_V)) (m + 1) n (pa + PGSIZE) perm =
    mapAt pte m (n + 1) pa perm := by
  funext k
  unfold mapAt
  by_cases hk : k = m
  · rw [if_neg (by omega), if_pos (by omega), hk, put_self, Nat.sub_self, Nat.zero_mul, Nat.add_zero]
  · by_cases hin : m ≤ k ∧ k < m + (n + 1)
    · have hpa : pa + PGSIZE + (k - (m + 1)) * PGSIZE = pa + (k - m) * PGSIZE := by
        unfold PGSIZE
        omega
      rw [if_pos (by omega), if_pos hin, hpa]
    · rw [if_neg (by omega), if_neg hin, put_of_ne hk]

lemma mapAt_one : mapAt pte m 1 pa perm = put pte m (PA2PTE pa ||| perm ||| PTE_V) := by
  rw [← mapAt_succ, mapAt_zero]

lemma wp_mapRound {α : Type} {f : V α} {a : α} {Q : α → Vm → Prop} (h : Heap ld use l v)
    (ht : Table use v.mem r T) (hnone : (∀ e, E e) ∨ m < 2 ^ 26 ∧ T.pte m = 0)
    (hfail : ∀ use' l' T' v', Grown ld r use l v 2 T' use' l' v' → l' = [] → T'.pte = T.pte →
      T'.low (m / 2 ^ 18) (m / 2 ^ 9 % 512) = 0 → Q a v')
    (hok : ∀ use' l' T' v', Grown ld r use l v 2 T' use' l' v' → m < 2 ^ 26 →
      T'.pte = put T.pte m (PA2PTE pa ||| perm ||| PTE_V) → Wp f Q E v') :
    Wp (do
      let r ← walk r (m * PGSIZE) true
      match r with
      | none => return a
      | some (page, i) => do
        let pte ← load page i
        if pte &&& PTE_V ≠ 0 then
          throw (.panic "mappages: remap")
        else do
          store page i (PA2PTE pa ||| perm ||| PTE_V)
          f) Q E v := by
  have hdiv : m * PGSIZE / PGSIZE = m := Nat.mul_div_cancel m (by decide)
  by_cases hva : MAXVA ≤ m * PGSIZE
  · have hE : ∀ e, E e := by
      rcases hnone with hE | ⟨hm, _⟩
      · exact hE
      · unfold PGSIZE MAXVA at hva
        omega
    unfold walk
    rw [if_pos hva]
    exact wp_bind.mpr ((wp_throw _).mpr (hE _))
  · have hm : m < 2 ^ 26 := by
      unfold PGSIZE MAXVA at hva
      omega
    refine (wp_walk h ht (Nat.lt_of_not_le hva)).bind ?_
    rw [hdiv]
    rintro (_ | ⟨p, k⟩) v1 ⟨use1, l1, T1, g1, hpte1, hres1⟩
    · rw [wp_pure]
      exact hfail use1 l1 T1 v1 g1 hres1.1 hpte1 hres1.2
    · obtain ⟨hp, hp0, rfl⟩ := hres1
      rw [hp] at hp0
      have hpage := g1.table.page (o := .low _ _) g1.heap hp0
      have hw : v1.mem p (m % 512) = T.pte m := by
        rw [hp, ← hpte1]
        exact g1.table.pte_word hp0
      have hram : inRam p = true := by
        rw [hp]
        exact hpage.inRam
      rw [wp_load_bind hram, hw]
      split
      · rename_i hv
        rcases hnone with hE | ⟨_, h0⟩
        · exact (wp_throw _).mpr (hE _)
        · rw [h0, Nat.zero_and] at hv
          exact absurd rfl hv
      · rw [wp_store_bind hram]
        have hfree : use1 p ≠ .free := by
          rw [hp]
          exact g1.table.not_free (o := .low _ _) hp0
        refine hok use1 l1 _ _ ⟨g1.heap.putPage hfree _, g1.table.setPte (by omega) hp0
          (PA2PTE pa ||| perm ||| PTE_V) ?_ ?_, ?_, g1.took⟩ hm ?_
        · rw [← hp, putPage_self]
        · rw [← hp]
          exact fun y hy => putPage_of_ne hy _
        · refine g1.ext.trans ⟨fun _ _ => rfl, fun _ hx => .inl hx,
            fun y _ hy => putPage_of_ne ?_ _⟩
          rintro rfl
          rw [hp] at hy
          exact hy _ (g1.table.use_at (.low _ _) hp0)
        · show put T1.pte _ _ = _
          rw [hpte1]

lemma wp_mappagesLoop (h : Heap ld use l v) (ht : Table use v.mem r T)
    (hnone : ∀ k, m ≤ k → k ≤ m + n → (∀ e, E e) ∨ k < 2 ^ 26 ∧ T.pte k = 0) :
    Wp (mappagesLoop r perm n (m * PGSIZE) pa) (fun ok v' => ∃ use' l' T',
      Grown ld r use l v (2 * (n + 1)) T' use' l' v' ∧ match ok with
        | false => l' = [] ∧ ∃ k ≤ n, T'.pte = mapAt T.pte m k pa perm ∧
            T'.low ((m + k) / 2 ^ 18) ((m + k) / 2 ^ 9 % 512) = 0
        | true => m + n < 2 ^ 26 ∧ T'.pte = mapAt T.pte m (n + 1) pa perm) E v := by
  induction n generalizing m pa use l v T with
  | zero =>
    unfold mappagesLoop
    refine wp_mapRound h ht (hnone m le_rfl le_rfl) ?_ ?_
    · intro use1 l1 T1 v1 g1 hl hpte hlow
      exact ⟨use1, l1, T1, g1, hl, 0, le_rfl, by rw [hpte, mapAt_zero], hlow⟩
    · intro use1 l1 T1 v1 g1 hm hpte
      rw [wp_pure]
      exact ⟨use1, l1, T1, g1, hm, by rw [hpte, mapAt_one]⟩
  | succ n ih =>
    unfold mappagesLoop
    refine wp_mapRound h ht (hnone m le_rfl (by omega)) ?_ ?_
    · intro use1 l1 T1 v1 g1 hl hpte hlow
      exact ⟨use1, l1, T1, g1.mono (by omega), hl, 0, Nat.zero_le _, by rw [hpte, mapAt_zero], hlow⟩
    · intro use1 l1 T1 v1 g1 hm hpte
      have hnext : m * PGSIZE + PGSIZE = (m + 1) * PGSIZE := by rw [Nat.succ_mul]
      rw [hnext]
      refine (ih g1.heap g1.table fun k h1 h2 => ?_).imp ?_
      · rw [hpte, put_of_ne (by omega)]
        exact hnone k (by omega) (by omega)
      · rintro (_ | _) v2 ⟨use2, l2, T2, g2, hres⟩
        · obtain ⟨hl, k, hk, hT, hlow⟩ := hres
          refine ⟨use2, l2, T2, (g1.trans g2).mono (by omega), hl, k + 1, by omega, ?_, ?_⟩
          · rw [hT, hpte, mapAt_succ]
          · rw [show m + (k + 1) = m + 1 + k by omega]
            exact hlow
        · obtain ⟨hlt, hT⟩ := hres
          refine ⟨use2, l2, T2, (g1.trans g2).mono (by omega), by omega, ?_⟩
          rw [hT, hpte, mapAt_succ]

lemma mappages_one {va : Nat} (hva : va < MAXVA) (hal : va % PGSIZE = 0) :
    mappages r va PGSIZE pa perm = mappagesLoop r perm 0 (va / PGSIZE * PGSIZE) pa := by
  have hva' : va < 2 ^ 38 := hva
  have hP : PGSIZE = 4096 := rfl
  have hdown : PGROUNDDOWN va = va / PGSIZE * PGSIZE := rfl
  have hlast : PGROUNDDOWN (uint64 (va + PGSIZE - 1)) = va / PGSIZE * PGSIZE := by
    unfold PGROUNDDOWN uint64
    rw [hP] at hal ⊢
    omega
  unfold mappages
  rw [if_neg (by decide), hdown, hlast, mapRounds, if_pos le_rfl, Nat.sub_self, Nat.zero_div]

lemma wp_mappages {va : Nat} (h : Heap ld use l v) (ht : Table use v.mem r T)
    (hva : va < MAXVA) (hal : va % PGSIZE = 0) (hnone : T.pte (va / PGSIZE) = 0) :
    Wp (mappages r va PGSIZE pa perm) (fun ok v' => ∃ use' l' T',
      Grown ld r use l v 2 T' use' l' v' ∧ match ok with
        | false => l' = [] ∧ T'.pte = T.pte
        | true => T'.pte = put T.pte (va / PGSIZE) (PA2PTE pa ||| perm ||| PTE_V)) E v := by
  have hn : va / PGSIZE < 2 ^ 26 := by
    unfold MAXVA at hva
    unfold PGSIZE
    omega
  rw [mappages_one hva hal]
  refine (wp_mappagesLoop h ht fun k h1 h2 => ?_).imp ?_
  · obtain rfl : k = va / PGSIZE := by omega
    exact .inr ⟨hn, hnone⟩
  · rintro (_ | _) v1 ⟨use1, l1, T1, g1, hres⟩
    · obtain ⟨hl, k, hk, hT, _⟩ := hres
      obtain rfl : k = 0 := by omega
      exact ⟨use1, l1, T1, g1, hl, by rw [hT, mapAt_zero]⟩
    · exact ⟨use1, l1, T1, g1, by rw [hres.2, mapAt_one]⟩

end xv6.vm
