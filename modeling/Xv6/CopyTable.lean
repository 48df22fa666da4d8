-- `copytable` on any two page tables. When it succeeds, the new table maps below
-- the size what the old one maps, with the same flags. When it fails, it frees
-- the pages that it has mapped so far, which are pages of the old table.
import Xv6.CopySpace
import Xv6.FlatMap

open cells linked wp

namespace xv6.vm

variable {ld : Link} {use use' : Nat → Use} {l l' : List Nat} {v v' : Vm}
  {old new r k m n sz : Nat} {T T' To : Tab} {pl : Place}

/-! ## The loop -/

/-- The entries `src` of the `n` pages from page `k` on, where they are valid, and `dst`
elsewhere. -/
def overlay (src dst : Nat → Nat) (k n : Nat) : Nat → Nat := fun j =>
  if k ≤ j ∧ j < k + n ∧ src j &&& PTE_V ≠ 0 then src j else dst j

@[simp] lemma overlay_zero (src dst : Nat → Nat) (k : Nat) : overlay src dst k 0 = dst := by
  funext j
  exact if_neg (by omega)

lemma overlay_skip {src : Nat → Nat} (dst : Nat → Nat) (h : src k &&& PTE_V = 0) (n : Nat) :
    overlay src dst (k + 1) n = overlay src dst k (n + 1) := by
  funext j
  unfold overlay
  by_cases hj : j = k
  · rw [if_neg (by omega), if_neg (by rw [hj]; exact fun hc => hc.2.2 h)]
  · have hiff : (k + 1 ≤ j ∧ j < k + 1 + n ∧ src j &&& PTE_V ≠ 0) ↔
        (k ≤ j ∧ j < k + (n + 1) ∧ src j &&& PTE_V ≠ 0) := by
      constructor
      · exact fun hc => ⟨by omega, by omega, hc.2.2⟩
      · exact fun hc => ⟨by omega, by omega, hc.2.2⟩
    rw [if_congr hiff rfl rfl]

lemma overlay_put {src : Nat → Nat} (dst : Nat → Nat) (h : src k &&& PTE_V ≠ 0) (n : Nat) :
    overlay src (put dst k (src k)) (k + 1) n = overlay src dst k (n + 1) := by
  funext j
  unfold overlay
  by_cases hj : j = k
  · rw [if_neg (by omega), hj, put_self, if_pos ⟨le_rfl, by omega, h⟩]
  · have hiff : (k + 1 ≤ j ∧ j < k + 1 + n ∧ src j &&& PTE_V ≠ 0) ↔
        (k ≤ j ∧ j < k + (n + 1) ∧ src j &&& PTE_V ≠ 0) := by
      constructor
      · exact fun hc => ⟨by omega, by omega, hc.2.2⟩
      · exact fun hc => ⟨by omega, by omega, hc.2.2⟩
    rw [if_congr hiff rfl rfl, put_of_ne hj]

lemma wp_mappages_any {pa perm : Nat} (h : Heap ld use l v) (ht : Table use v.mem r T)
    (hk : k * PGSIZE < MAXVA) :
    Wp (mappages r (k * PGSIZE) PGSIZE pa perm) (fun ok v' => ∃ use' l' T',
      Grown ld r use l v 2 T' use' l' v' ∧ match ok with
        | false => l' = [] ∧ T'.pte = T.pte ∧ T'.low (k / 2 ^ 18) (k / 2 ^ 9 % 512) = 0
        | true => T'.pte = put T.pte k (PA2PTE pa ||| perm ||| PTE_V)) (fun _ => True) v := by
  have hdiv : k * PGSIZE / PGSIZE = k := Nat.mul_div_cancel k (by decide)
  rw [mappages_one hk (Nat.mul_mod_left ..), hdiv]
  refine (wp_mappagesLoop h ht fun _ _ _ => .inl fun _ => trivial).imp ?_
  rintro (_ | _) v1 ⟨use1, l1, T1, g1, hres⟩
  · obtain ⟨hl, i, hi, hT, hlow⟩ := hres
    obtain rfl : i = 0 := by omega
    exact ⟨use1, l1, T1, g1, hl, by rw [hT, mapAt_zero], hlow⟩
  · exact ⟨use1, l1, T1, g1, by rw [hres.2, mapAt_one]⟩

section

variable (h : Heap ld use l v) (hto : Table use v.mem old To)
include h hto

lemma wp_copyRound {Q : Bool → Vm → Prop}
    (hskip : k * PGSIZE < MAXVA → To.pte k &&& PTE_V = 0 →
      Wp (copytableLoop ld old new n ((k + 1) * PGSIZE)) Q (fun _ => True) v)
    (hmap : k * PGSIZE < MAXVA → To.pte k &&& PTE_V ≠ 0 → Wp (do
      let ok ← mappages new (k * PGSIZE) PGSIZE (PTE2PA (To.pte k)) (PTE_FLAGS (To.pte k))
      if ok = false then do
        uvmunmap ld new 0 k true
        return false
      else
        copytableLoop ld old new n ((k + 1) * PGSIZE)) Q (fun _ => True) v) :
    Wp (copytableLoop ld old new (n + 1) (k * PGSIZE)) Q (fun _ => True) v := by
  have hdiv : k * PGSIZE / PGSIZE = k := Nat.mul_div_cancel k (by decide)
  unfold copytableLoop
  by_cases hva : MAXVA ≤ k * PGSIZE
  · unfold walk
    rw [if_pos hva]
    exact wp_bind.mpr ((wp_throw _).mpr trivial)
  refine (wp_walk_find h hto (Nat.lt_of_not_le hva)).bind ?_
  rintro o v0 ⟨rfl, rfl⟩
  rw [hdiv]
  by_cases hlow : To.low (k / 2 ^ 18) (k / 2 ^ 9 % 512) = 0
  · rw [if_pos hlow]
    exact (wp_throw _).mpr trivial
  have hpage : IsPage ld (To.low (k / 2 ^ 18) (k / 2 ^ 9 % 512)) := hto.page (o := .low _ _) h hlow
  rw [if_neg hlow]
  rw [wp_load_bind hpage.inRam, hto.pte_word hlow,
    show k * PGSIZE + PGSIZE = (k + 1) * PGSIZE from (Nat.succ_mul ..).symm]
  exact wp_ite (hskip (Nat.lt_of_not_le hva)) (hmap (Nat.lt_of_not_le hva))

lemma wp_copytableLoop_any
    (ht : Table use v.mem new T)
    (hne : ∀ j, k ≤ j → j < k + n → To.pte j &&& PTE_V ≠ 0 → new ≠ old) :
    Wp (copytableLoop ld old new n (k * PGSIZE)) (fun ok v' => match ok with
      | true => ∃ use' l' T', Grown ld new use l v (2 * n) T' use' l' v' ∧
          T'.pte = overlay To.pte T.pte k n ∧ (∀ j, k ≤ j → j < k + n → j * PGSIZE < MAXVA) ∧
          (new = old → v' = v)
      | false => ∃ i < n, ∃ use1 T1 v1, Grown ld new use l v (2 * n) T1 use1 [] v1 ∧
          T1.pte = overlay To.pte T.pte k i ∧
          T1.low ((k + i) / 2 ^ 18) ((k + i) / 2 ^ 9 % 512) = 0 ∧
          (uvmunmap ld new 0 (k + i) true).run v1 = .ok ((), v')) (fun _ => True) v := by
  induction n generalizing k T use l v with
  | zero =>
    unfold copytableLoop
    rw [wp_pure]
    exact ⟨use, l, T, .refl h ht _, by rw [overlay_zero], by omega, fun _ => rfl⟩
  | succ n ih =>
    have hmax : k * PGSIZE < MAXVA → (∀ j, k + 1 ≤ j → j < k + 1 + n → j * PGSIZE < MAXVA) →
        ∀ j, k ≤ j → j < k + (n + 1) → j * PGSIZE < MAXVA := by
      intro h1 h2 j h3 h4
      by_cases hj : j = k
      · rw [hj]
        exact h1
      · exact h2 j (by omega) (by omega)
    refine wp_copyRound h hto (fun hva hinv => ?_) fun hva hval => ?_
    · refine (ih h hto ht fun j h1 h2 => hne j (by omega) (by omega)).imp ?_
      rintro (_ | _) v' hres
      · obtain ⟨i, hi, use1, T1, v1, g1, hpte, hlow, hrun⟩ := hres
        rw [overlay_skip _ hinv] at hpte
        rw [show k + 1 + i = k + (i + 1) by omega] at hlow hrun
        exact ⟨i + 1, by omega, use1, T1, v1, g1.mono (by omega), hpte, hlow, hrun⟩
      · obtain ⟨use', l', T', g, hpte, hle, hsame⟩ := hres
        rw [overlay_skip _ hinv] at hpte
        exact ⟨use', l', T', g.mono (by omega), hpte, hmax hva hle, hsame⟩
    · have hk := hne k le_rfl (by omega) hval
      refine (wp_mappages_any h ht hva).bind ?_
      rintro (_ | _) v1 ⟨use1, l1, T1, g1, hres1⟩
      · obtain ⟨rfl, hpte, hlow⟩ := hres1
        rw [if_pos rfl]
        refine wp_any.run.bind ?_
        rintro _ v2 ⟨_, hrun⟩
        rw [wp_pure]
        exact ⟨0, by omega, use1, T1, v1, g1.mono (by omega), by rw [hpte, overlay_zero], hlow, hrun⟩
      · dsimp only at hres1
        rw [if_neg (by simp)]
        rw [remapped hval] at hres1
        refine (ih g1.heap (hto.ext g1.ext hk) g1.table fun _ _ _ _ => hk).imp ?_
        rintro (_ | _) v' hres
        · obtain ⟨i, hi, use2, T2, v2, g2, hpte, hlow, hrun⟩ := hres
          rw [hres1, overlay_put _ hval] at hpte
          rw [show k + 1 + i = k + (i + 1) by omega] at hlow hrun
          exact ⟨i + 1, by omega, use2, T2, v2, (g1.trans g2).mono (by omega), hpte, hlow, hrun⟩
        · obtain ⟨use2, l2, T2, g2, hpte, hle, _⟩ := hres
          rw [hres1, overlay_put _ hval] at hpte
          exact ⟨use2, l2, T2, (g1.trans g2).mono (by omega), hpte, hmax hva hle,
            fun hc => absurd hc hk⟩

lemma wp_copytableLoop_skip {Q : Bool → Vm → Prop}
    (hinv : ∀ j, k ≤ j → j < k + m → To.pte j &&& PTE_V = 0)
    (hrest : Wp (copytableLoop ld old new n ((k + m) * PGSIZE)) Q (fun _ => True) v) :
    Wp (copytableLoop ld old new (m + n) (k * PGSIZE)) Q (fun _ => True) v := by
  induction m generalizing k with
  | zero =>
    rw [Nat.zero_add]
    exact hrest
  | succ m ih =>
    rw [show m + 1 + n = m + n + 1 by omega]
    refine wp_copyRound h hto (fun _ _ => ih (fun j h1 h2 => hinv j (by omega) (by omega)) ?_) ?_
    · rw [show k + 1 + m = k + (m + 1) by omega]
      exact hrest
    · exact fun _ hval => absurd (hinv k le_rfl (by omega)) hval

end

/-- `copytable` of `n` pages fails only on a free list of at most `2 * n` pages. -/
lemma copytable_short (h : Heap ld use l v) (hto : Table use v.mem old To)
    (htn : Table use v.mem new T) (hne : new ≠ old)
    (hrun : (copytable ld old new sz).run v = .ok (false, v')) : l.length ≤ 2 * pages sz := by
  have hrun' : (copytableLoop ld old new (pages sz) (0 * PGSIZE)).run v = .ok (false, v') := by
    rw [Nat.zero_mul]
    exact hrun
  obtain ⟨_, _, _, _, _, hg, _⟩ :=
    (wp_copytableLoop_any h hto htn fun _ _ _ _ => hne).of_ok hrun'
  obtain ⟨c, hc, hnil⟩ := hg.took
  have := List.drop_eq_nil_iff.mp hnil.symm
  omega

/-! ## What a table keeps when it grows -/

lemma Grown.at_eq (hg : Grown ld r use l v n T' use' l' v') (ht : Table use v.mem r T)
    (h0 : T.at r pl ≠ 0) : T'.at r pl = T.at r pl := by
  have hu := ht.use_at pl h0
  have hu' : use' (T.at r pl) = .table r pl := by
    rw [hg.ext.keep _ (by rw [hu]; simp), hu]
  exact (hg.table.at_use _ pl hu').2

lemma Grown.taken (hg : Grown ld r use l v n T' use' l' v') (h : Heap ld use l v)
    (ht : Table use v.mem r T) {x : Nat} (hx : x ∈ l) (hx' : x ∉ l') :
    ∃ pl, pl ≠ .root ∧ pageAt v'.mem r pl = x := by
  have hfree := (h.mem_iff x).mp hx
  rcases hg.ext.fresh x hfree with h1 | ⟨pl, h1⟩
  · exact absurd ((hg.heap.mem_iff x).mpr h1) hx'
  · have hat := (hg.table.at_use x pl h1).2
    refine ⟨pl, ?_, by rw [hg.table.pageAt_eq hg.heap, hat]⟩
    rintro rfl
    have hroot : use r = .table r .root := ht.use_at .root ht.root_ne
    have hxr : r = x := hat
    rw [hxr, hfree] at hroot
    cases hroot

lemma Grown.other_same (hg : Grown ld new use l v n T' use' l' v') (hne : new ≠ old)
    (h : Heap ld use l v) (hto : Table use v.mem old To) (h0 : pageAt v.mem old pl ≠ 0) :
    v'.mem (pageAt v.mem old pl) = v.mem (pageAt v.mem old pl) := by
  rw [hto.pageAt_eq h] at h0 ⊢
  have hu := hto.use_at pl h0
  refine hg.ext.same _ (by rw [hu]; simp) fun pl' hc => ?_
  rw [hu] at hc
  cases hc
  exact hne rfl

lemma lookup_run {va : Nat} (h : Heap ld use l v) (ht : Table use v.mem r T) (hva : va < MAXVA) :
    (lookup r va).run v = .ok (T.pte (va / PGSIZE), v) := by
  obtain ⟨_, _, hrun, rfl, rfl⟩ := (wp_lookup h ht hva (E := fun _ => False)).exists_ok
  exact hrun

/-! ## Success -/

/-- The new table maps below the size what the old one maps, and is else as before; the pages of
the old table are as before, and the free list lost pages for tables of lower levels only. -/
structure TableShared (old new sz : Nat) (l : List Nat) (v v' : Vm) : Prop where
  mapped : ∀ va < sz, ∃ w w', (lookup old va).run v = .ok (w, v) ∧
    (lookup new va).run v' = .ok (w', v') ∧ (w' &&& PTE_V ≠ 0 ↔ w &&& PTE_V ≠ 0) ∧
    (w &&& PTE_V ≠ 0 → PTE2PA w' = PTE2PA w ∧ PTE_FLAGS w' = PTE_FLAGS w)
  rest : ∀ va, pages sz * PGSIZE ≤ va → va < MAXVA →
    ∃ w, (lookup new va).run v = .ok (w, v) ∧ (lookup new va).run v' = .ok (w, v')
  source : ∀ pl, pageAt v.mem old pl ≠ 0 →
    v'.mem (pageAt v.mem old pl) = v.mem (pageAt v.mem old pl)
  taken : ∃ l', Chain (fun x => v'.mem x 0) v'.freelist l' ∧ (∃ k, l' = l.drop k) ∧
    ∀ x ∈ l, x ∉ l' → ∃ pl, pl ≠ .root ∧ pageAt v'.mem new pl = x

lemma lt_pages {va : Nat} (h : va < sz) : va / PGSIZE < pages sz := by
  unfold pages PGSIZE
  omega

/-- When `copytable` returns 0 the tables share the memory below `sz`, for any two tables of which
the new one maps nothing there. -/
theorem copytable_shares_the_mapped_pages (h : Heap ld use l v) (hto : Table use v.mem old To)
    (htn : Table use v.mem new T) (hnew : ∀ j < pages sz, entry v.mem new j &&& PTE_V = 0)
    (hrun : (copytable ld old new sz).run v = .ok (true, v')) :
    TableShared old new sz l v v' := by
  have hT : ∀ j < pages sz, T.pte j &&& PTE_V = 0 := by
    intro j hj
    rw [← htn.entry_eq h]
    exact hnew j hj
  have hne : ∀ j, 0 ≤ j → j < 0 + pages sz → To.pte j &&& PTE_V ≠ 0 → new ≠ old := by
    rintro j _ hj hval rfl
    rw [← hto.entry_eq h] at hval
    exact hval (hnew j (by omega))
  have hrun' : (copytableLoop ld old new (pages sz) (0 * PGSIZE)).run v = .ok (true, v') := by
    rw [Nat.zero_mul]
    exact hrun
  obtain ⟨use', l', T', hg, hpte, hmax, hsame⟩ := (wp_copytableLoop_any h hto htn hne).of_ok hrun'
  refine ⟨fun va hva => ?_, fun va hlow hva => ?_, fun pl h0 => ?_, l', hg.heap.chain, ?_, ?_⟩
  · have hj := lt_pages hva
    have hva' : va < MAXVA := by
      have := hmax (va / PGSIZE) (Nat.zero_le _) (by omega)
      unfold MAXVA PGSIZE at *
      omega
    refine ⟨_, _, lookup_run h hto hva', lookup_run hg.heap hg.table hva', ?_⟩
    rw [hpte]
    unfold overlay
    by_cases hval : To.pte (va / PGSIZE) &&& PTE_V = 0
    · rw [if_neg fun hc => hc.2.2 hval]
      exact ⟨iff_of_false (fun hc => hc (hT _ hj)) fun hc => hc hval, fun hc => absurd hval hc⟩
    · rw [if_pos ⟨Nat.zero_le _, by omega, hval⟩]
      exact ⟨Iff.rfl, fun _ => ⟨rfl, rfl⟩⟩
  · refine ⟨_, lookup_run h htn hva, ?_⟩
    rw [lookup_run hg.heap hg.table hva, hpte]
    unfold overlay
    have hge : pages sz ≤ va / PGSIZE := (Nat.le_div_iff_mul_le (by decide)).mpr hlow
    rw [if_neg (by omega)]
  · by_cases hn : new = old
    · rw [hsame hn]
    · exact hg.other_same hn h hto h0
  · obtain ⟨i, _, hi⟩ := hg.took
    exact ⟨i, hi⟩
  · exact fun x hx hx' => hg.taken h htn hx hx'

/-! ## The pages that a walk takes -/

/-- How many tables the walk to page number `k` still has to make. -/
def missingTables (mem : Nat → Nat → Nat) (r k : Nat) : Nat :=
  if pageAt mem r (.low (k / 2 ^ 18) (k / 2 ^ 9 % 512)) ≠ 0 then 0
  else if pageAt mem r (.mid (k / 2 ^ 18)) ≠ 0 then 1
  else 2

section

variable {E : Stop → Prop} {i j : Nat} (h : Heap ld use l v) (ht : Table use v.mem r T)
include h ht

lemma wp_walkLevel_mid_takes (hi : i < NPTE) :
    Wp (walkLevel r i true) (fun o v' => (o = none ∧ T.mid i = 0 ∧ l = []) ∨
      ∃ use' l' T', Heap ld use' l' v' ∧ Table use' v'.mem r T' ∧ o = some (T'.mid i) ∧
        T'.mid i ≠ 0 ∧ T'.low = T.low ∧ ((T.mid i ≠ 0 ∧ l' = l) ∨ (T.mid i = 0 ∧ ∃ x, l = x :: l')))
      E v := by
  have hroot := ht.page (o := .root) h ht.root_ne
  have hrw : v.mem r i = dir (T.mid i) := ht.words .root ht.root_ne i hi
  by_cases hmid : T.mid i = 0
  · rw [hmid, dir_zero] at hrw
    refine (wp_walkLevel_alloc h hroot (ht.not_free (o := .root) ht.root_ne) hrw).imp ?_
    rintro o v' (⟨rfl, rfl, rfl⟩ | ⟨x, l', rfl, rfl, hx, hpage, hz, hp, hrest, hheap⟩)
    · exact .inl ⟨rfl, hmid, rfl⟩
    · refine .inr ⟨_, l', _, hheap (.table r (.mid i)) (by simp),
        ht.addMid hi hmid hx hpage.ne_zero hz hp hrest, ?_, ?_, rfl, .inr ⟨hmid, x, rfl⟩⟩
      · dsimp only
        rw [put_self]
      · dsimp only
        rw [put_self]
        exact hpage.ne_zero
  · have hmpage := ht.page (o := .mid i) h hmid
    refine (wp_walkLevel_some hroot.inRam hrw hmid hmpage.1).imp ?_
    rintro o v' ⟨rfl, rfl⟩
    exact .inr ⟨use, l, T, h, ht, rfl, hmid, rfl, .inl ⟨hmid, rfl⟩⟩

lemma wp_walkLevel_low_takes (hj : j < NPTE) (hmid : T.mid i ≠ 0) :
    Wp (walkLevel (T.mid i) j true) (fun o _ => o = none ↔ T.low i j = 0 ∧ l = []) E v := by
  have hmpage := ht.page (o := .mid i) h hmid
  have hmw : v.mem (T.mid i) j = dir (T.low i j) := ht.words (.mid i) hmid j hj
  by_cases hlow : T.low i j = 0
  · rw [hlow, dir_zero] at hmw
    refine (wp_walkLevel_alloc h hmpage (ht.not_free (o := .mid i) hmid) hmw).imp ?_
    rintro o v' (⟨rfl, rfl, rfl⟩ | ⟨x, l', rfl, rfl, _⟩)
    · simp [hlow]
    · simp
  · have hlpage := ht.page (o := .low i j) h hlow
    refine (wp_walkLevel_some hmpage.inRam hmw hlow hlpage.1).imp ?_
    rintro o v' ⟨rfl, rfl⟩
    simp [hlow]

/-- A walk that makes tables fails exactly when the free list has fewer pages than it needs. -/
lemma wp_walk_takes {va : Nat} (hva : va < MAXVA) :
    Wp (walk r va true) (fun o _ => o = none ↔ l.length < missingTables v.mem r (va / PGSIZE))
      E v := by
  have hva' : va < 2 ^ 38 := hva
  obtain ⟨p2, p1, p0⟩ := PX_page (show va < 2 ^ 39 by omega)
  have hi : va / PGSIZE / 2 ^ 18 < NPTE := by
    unfold PGSIZE NPTE
    omega
  have hj : va / PGSIZE / 2 ^ 9 % 512 < NPTE := Nat.mod_lt _ (by decide)
  have hmissing : missingTables v.mem r (va / PGSIZE) =
      if T.low (va / PGSIZE / 2 ^ 18) (va / PGSIZE / 2 ^ 9 % 512) ≠ 0 then 0
      else if T.mid (va / PGSIZE / 2 ^ 18) ≠ 0 then 1 else 2 := by
    unfold missingTables
    rw [ht.pageAt_eq h, ht.pageAt_eq h]
    rfl
  unfold walk
  rw [if_neg (by omega), p2, p1, p0, hmissing]
  generalize va / PGSIZE / 2 ^ 18 = a at hi ⊢
  generalize va / PGSIZE / 2 ^ 9 % 512 = b at hj ⊢
  refine (wp_walkLevel_mid_takes h ht hi).bind ?_
  rintro o v1 (⟨rfl, hmid, rfl⟩ | ⟨use1, l1, T1, h1, ht1, rfl, hmid1, hlow1, hcase⟩)
  · have hlow : T.low a b = 0 := by
      by_contra h0
      exact (ht.low_mid _ _ h0).1 hmid
    dsimp only
    rw [wp_pure]
    simp [hlow, hmid]
  · refine (wp_walkLevel_low_takes h1 ht1 hj hmid1).bind ?_
    rw [hlow1]
    rintro (_ | c) v2 h2
    · obtain ⟨hlow, rfl⟩ := h2.mp rfl
      dsimp only
      rw [wp_pure]
      rcases hcase with ⟨hmid, rfl⟩ | ⟨hmid, x, rfl⟩
      · simp [hlow, hmid]
      · simp [hlow, hmid]
    · have hsome : ¬ (T.low a b = 0 ∧ l1 = []) :=
        fun hc => by cases h2.mpr hc
      dsimp only
      rw [wp_pure]
      refine iff_of_false (by simp) ?_
      by_cases hlow : T.low a b = 0
      · have hne : l1 ≠ [] := fun hc => hsome ⟨hlow, hc⟩
        have hpos := List.length_pos_of_ne_nil hne
        rcases hcase with ⟨hmid, rfl⟩ | ⟨hmid, x, rfl⟩
        · rw [if_neg (by simp [hlow]), if_pos hmid]
          omega
        · rw [if_neg (by simp [hlow]), if_neg (by simp [hmid]), List.length_cons]
          omega
      · rw [if_pos hlow]
        omega

lemma wp_mappages_takes {pa perm : Nat} (hk : k * PGSIZE < MAXVA) :
    Wp (mappages r (k * PGSIZE) PGSIZE pa perm) (fun ok _ =>
      ok = false ↔ l.length < missingTables v.mem r k) (fun _ => True) v := by
  have hdiv : k * PGSIZE / PGSIZE = k := Nat.mul_div_cancel k (by decide)
  have hwalk : Wp (walk r (k * PGSIZE) true) _ (fun _ => True) v := wp_walk_takes h ht hk
  rw [hdiv] at hwalk
  rw [mappages_one hk (Nat.mul_mod_left ..), hdiv]
  unfold mappagesLoop
  refine hwalk.bind ?_
  rintro (_ | ⟨page, i⟩) v1 h1
  · dsimp only
    rw [wp_pure]
    exact iff_of_true rfl (h1.mp rfl)
  · have hno : ¬ l.length < missingTables v.mem r k := fun hc => by cases h1.mpr hc
    refine wp_any.bind fun pte v2 _ => wp_ite (fun _ => (wp_throw _).mpr trivial) fun _ => ?_
    refine wp_any.bind fun _ v3 _ => ?_
    dsimp only
    rw [wp_pure]
    exact iff_of_false (by simp) hno

end

/-! ## Failure -/

/-- The free list is too short for the tables of the first page that the old table maps. -/
def FailsFirst (v : Vm) (old new sz : Nat) (l : List Nat) : Prop :=
  ∃ j < pages sz, (∀ i < j, entry v.mem old i &&& PTE_V = 0) ∧ entry v.mem old j &&& PTE_V ≠ 0 ∧
    l.length < missingTables v.mem new j

/-- The new table maps nothing below the size, the pages of the old table are as before, and no
page was put on the free list. -/
structure Unshared (old new sz : Nat) (l : List Nat) (v v' : Vm) : Prop where
  unmapped : ∀ va < sz, va < MAXVA → ∃ w, (lookup new va).run v' = .ok (w, v') ∧ w &&& PTE_V = 0
  source : ∀ pl, pageAt v.mem old pl ≠ 0 →
    v'.mem (pageAt v.mem old pl) = v.mem (pageAt v.mem old pl)
  kept : ∃ l', Chain (fun x => v'.mem x 0) v'.freelist l' ∧ ∀ x ∈ l', x ∈ l

lemma uvmunmap_unmapped (h : Heap ld use l v) (ht : Table use v.mem r T)
    (hT : k ≠ 0 → T.pte 0 &&& PTE_V = 0) :
    Wp (uvmunmap ld r 0 k true) (fun _ v' => v' = v) (fun _ => True) v := by
  unfold uvmunmap
  rw [if_neg (by simp)]
  cases hn : rounds 0 (uint64 (0 + k * PGSIZE)) with
  | zero =>
    unfold uvmunmapLoop
    rw [wp_pure]
  | succ n =>
    have hk : k ≠ 0 := by
      rintro rfl
      simp [rounds, uint64, PGSIZE] at hn
    have hstop : ¬ Mapped T 0 := fun hc => hc.2.1 (hT hk)
    have hw : Wp (uvmunmapLoop ld r true (n + 1) (0 * PGSIZE)) (fun _ v' => v' = v)
        (fun _ => True) v := wp_uvmunmapLoop_stop h ht hstop fun _ => trivial
    rw [Nat.zero_mul] at hw
    exact hw

lemma Grown.rollback {use1 : Nat → Use} {T1 : Tab} {v1 : Vm}
    (hg : Grown ld new use l v n T1 use1 l' v1) (hu : UserPages use To m)
    (hpte : ∀ j < m, T1.pte j = To.pte j) (hm : 0 < m)
    (hrun : (uvmunmap ld new 0 m true).run v1 = .ok ((), v')) :
    ∃ l2, Chain (fun x => v'.mem x 0) v'.freelist l2 ∧ PTE2PA (To.pte 0) ∈ l2 := by
  have hu1 : UserPages use1 T1 m :=
    hu.congr hpte fun y hy => (hg.ext.keep y (by rw [hy]; simp)).trans hy
  have hle := hu1.le hg.heap
  have hNP : NPAGES = 32768 := rfl
  have hw : Wp (uvmunmap ld new (0 * PGSIZE) m true) _ (fun _ => True) v1 :=
    wp_uvmunmap hg.heap hg.table (by omega) (fun j _ hj => hu1.leaf j (by omega))
      (fun _ j _ hj => hu1.user j (by omega)) fun _ i j _ hi _ hj => hu1.inj i j (by omega) (by omega)
  rw [Nat.zero_mul] at hw
  obtain ⟨use', l2, hs⟩ := hw.of_ok hrun
  refine ⟨l2, hs.heap.chain, (hs.heap.mem_iff _).mpr (hs.freed _ ⟨rfl, 0, le_rfl, by omega, ?_⟩)⟩
  rw [hpte 0 hm]

lemma pages_pos_of_failed (hrun : (copytable ld old new sz).run v = .ok (false, v')) :
    0 < pages sz := by
  by_contra hc
  have hzero : rounds 0 sz = 0 := Nat.eq_zero_of_not_pos hc
  unfold copytable at hrun
  rw [hzero] at hrun
  cases hrun

section

variable (h : Heap ld use l v) (hto : Table use v.mem old To) (htn : Table use v.mem new T)
  (hnew : ∀ j < pages sz, entry v.mem new j &&& PTE_V = 0)
  (hrun : (copytable ld old new sz).run v = .ok (false, v'))
include h hto htn hnew hrun

lemma FailsFirst.unshared (hfirst : FailsFirst v old new sz l) : Unshared old new sz l v v' := by
  obtain ⟨j, hj, hinv, hval, hshort⟩ := hfirst
  have hne : new ≠ old := by
    rintro rfl
    exact hval (hnew j hj)
  have hw : Wp (copytableLoop ld old new (pages sz) (0 * PGSIZE)) (fun ok v' => ok = false →
      Unshared old new sz l v v') (fun _ => True) v := by
    rw [show pages sz = j + (pages sz - j - 1 + 1) by omega]
    refine wp_copytableLoop_skip h hto (fun i _ hi => ?_) (wp_copyRound h hto (fun _ hc => ?_) ?_)
    · rw [← hto.entry_eq h]
      exact hinv i (by omega)
    · rw [← hto.entry_eq h, Nat.zero_add] at hc
      exact absurd hc hval
    · intro hva _
      rw [Nat.zero_add] at hva ⊢
      refine (wp_mappages_any h htn hva).run.bind ?_
      rintro ok v2 ⟨⟨use2, l2, T2, g2, hres⟩, hmap⟩
      obtain rfl : ok = false := ((wp_mappages_takes h htn hva).of_ok hmap).mpr hshort
      obtain ⟨rfl, hpte, _⟩ := hres
      rw [if_pos rfl]
      have hT2 : ∀ i < pages sz, T2.pte i &&& PTE_V = 0 := by
        intro i hi
        rw [hpte, ← htn.entry_eq h]
        exact hnew i hi
      refine (uvmunmap_unmapped g2.heap g2.table fun _ => hT2 0 (by omega)).bind ?_
      rintro _ _ rfl
      rw [wp_pure]
      refine fun _ => ⟨fun va hva' hmax => ?_, fun pl h0 => g2.other_same hne h hto h0, ?_⟩
      · exact ⟨_, lookup_run g2.heap g2.table hmax, hT2 _ (lt_pages hva')⟩
      · exact ⟨[], g2.heap.chain, by simp⟩
  have hrun' : (copytableLoop ld old new (pages sz) (0 * PGSIZE)).run v = .ok (false, v') := by
    rw [Nat.zero_mul]
    exact hrun
  exact hw.of_ok hrun' rfl

/-- When the first page of a process has been mapped, a failure frees it. -/
lemma failed_frees_first (hu : UserPages use To (pages sz))
    (hlong : missingTables v.mem new 0 ≤ l.length) :
    ∃ l', Chain (fun x => v'.mem x 0) v'.freelist l' ∧ PTE2PA (To.pte 0) ∈ l' := by
  have hpos := pages_pos_of_failed hrun
  have hval : To.pte 0 &&& PTE_V ≠ 0 := (hu.leaf 0 hpos).1
  have hne : new ≠ old := by
    rintro rfl
    rw [← hto.entry_eq h] at hval
    exact hval (hnew 0 hpos)
  have hw : Wp (copytableLoop ld old new (pages sz - 1 + 1) (0 * PGSIZE)) (fun ok v' => ok = false →
      ∃ l', Chain (fun x => v'.mem x 0) v'.freelist l' ∧ PTE2PA (To.pte 0) ∈ l')
      (fun _ => True) v := by
    refine wp_copyRound h hto (fun _ hc => absurd hc hval) fun hva _ => ?_
    refine (wp_mappages_any h htn hva).run.bind ?_
    rintro ok v1 ⟨⟨use1, l1, T1, g1, hres1⟩, hmap⟩
    have hok : ok = true := by
      have := (wp_mappages_takes h htn hva).of_ok hmap
      cases ok with
      | true => rfl
      | false => exact absurd (this.mp rfl) (by omega)
    subst hok
    dsimp only at hres1
    rw [remapped hval] at hres1
    rw [if_neg (by simp)]
    refine (wp_copytableLoop_any (n := pages sz - 1) g1.heap (hto.ext g1.ext hne) g1.table
      fun _ _ _ _ => hne).imp ?_
    rintro (_ | _) v2 h2 hok2
    · obtain ⟨i, hi, use2, T2, v3, g2, hpte, _, hun⟩ := h2
      rw [hres1, overlay_put _ hval] at hpte
      rw [show 0 + 1 + i = i + 1 by omega] at hun
      have hu' : UserPages use To (i + 1) := hu.mono (by omega)
      refine (g1.trans g2).rollback hu' (fun j hj => ?_) (by omega) hun
      rw [hpte]
      exact if_pos ⟨Nat.zero_le j, by omega, (hu.leaf j (by omega)).1⟩
    · cases hok2
  rw [show pages sz - 1 + 1 = pages sz by omega, Nat.zero_mul] at hw
  exact hw.of_ok hrun rfl

/-- When `copytable` returns -1 for lack of a table for the first page that it is to map, nothing is
mapped and nothing is freed. When the old table is that of a process, this is the only way in
which it returns -1 and frees nothing. -/
theorem copytable_leaves_nothing_iff_it_fails_first :
    (FailsFirst v old new sz l → Unshared old new sz l v v') ∧
    (UserPages use To (pages sz) → Unshared old new sz l v v' → FailsFirst v old new sz l) := by
  refine ⟨FailsFirst.unshared h hto htn hnew hrun, fun hu hun => ?_⟩
  obtain ⟨l1, hl1, hkept⟩ := hun.kept
  have hpos := pages_pos_of_failed hrun
  refine ⟨0, hpos, by simp, by rw [hto.entry_eq h]; exact (hu.leaf 0 hpos).1, ?_⟩
  by_contra hlong
  obtain ⟨l2, hl2, hmem⟩ := failed_frees_first h hto htn hnew hrun hu (by omega)
  rw [hl2.unique hl1] at hmem
  -- the page of the process would have been free before
  have hfree := (h.mem_iff _).mp (hkept _ hmem)
  rw [hu.user 0 hpos] at hfree
  cases hfree

end

/-! ## A memory with three tables -/

/-- The memory in which the pages of tables hold the words of those tables. -/
def layout (use : Nat → Use) (tabs : Nat → Tab) (x k : Nat) : Nat :=
  match use x with
  | .table r pl => (tabs r).word pl k
  | _ => 0

lemma layout_words {tabs : Nat → Tab} (huse : use ((tabs r).at r pl) = .table r pl) (k : Nat) :
    layout use tabs ((tabs r).at r pl) k = (tabs r).word pl k := by
  unfold layout
  rw [huse]

def pg (i : Nat) : Nat := KERNBASE + (2 + i) * PGSIZE

/-- A table for 513 pages of memory, which needs two tables of the third level; a table that has
one such table, with no entries; and a root alone. -/
def threeTabs (r : Nat) : Tab where
  mid := fun i => if i ≠ 0 then 0 else if r = pg 0 then pg 1 else if r = pg 4 then pg 5 else 0
  low := fun i j =>
    if i ≠ 0 then 0
    else if r = pg 0 then (if j = 0 then pg 2 else if j = 1 then pg 3 else 0)
    else if r = pg 4 ∧ j = 0 then pg 6 else 0
  pte := fun n => if r = pg 0 ∧ n < 513 then PA2PTE (pg (8 + n)) ||| 0x17 else 0

def threeUse (x : Nat) : Use :=
  if x = pg 0 then .table (pg 0) .root
  else if x = pg 1 then .table (pg 0) (.mid 0)
  else if x = pg 2 then .table (pg 0) (.low 0 0)
  else if x = pg 3 then .table (pg 0) (.low 0 1)
  else if x = pg 4 then .table (pg 4) .root
  else if x = pg 5 then .table (pg 4) (.mid 0)
  else if x = pg 6 then .table (pg 4) (.low 0 0)
  else if x = pg 7 then .table (pg 7) .root
  else if x % PGSIZE = 0 ∧ pg 8 ≤ x ∧ x < pg 521 then .user
  else .none

def threeVm : Vm where
  mem := layout threeUse threeTabs
  freelist := 0

lemma heap_three : Heap smallLink threeUse [] threeVm := by
  refine ⟨rfl, List.nodup_nil, fun x => ?_, fun x hx => ?_⟩
  · unfold threeUse
    split_ifs <;> simp
  · unfold threeUse at hx
    unfold IsPage
    split_ifs at hx with h1 h2 h3 h4 h5 h6 h7 h8 h9
    all_goals first | (subst x; decide) | skip
    · have hend : smallLink.kend ≤ pg 8 := by decide
      have htop : pg 521 ≤ PHYSTOP := by decide
      omega
    · exact absurd rfl hx

lemma pg_inj {i j : Nat} : pg i = pg j ↔ i = j := by
  unfold pg PGSIZE
  omega

lemma pg_ne_zero (i : Nat) : pg i ≠ 0 := by
  unfold pg KERNBASE
  omega

lemma threeUse_at (hr : r = pg 0 ∨ r = pg 4 ∨ r = pg 7) (h0 : (threeTabs r).at r pl ≠ 0) :
    threeUse ((threeTabs r).at r pl) = .table r pl := by
  cases pl with
  | root => rcases hr with rfl | rfl | rfl <;> simp [Tab.at, threeUse, pg_inj]
  | mid i =>
    simp only [Tab.at, threeTabs] at h0 ⊢
    split_ifs at h0 ⊢ <;> simp_all [threeUse, pg_inj]
  | low i j =>
    simp only [Tab.at, threeTabs] at h0 ⊢
    split_ifs at h0 ⊢ <;> simp_all [threeUse, pg_inj]

lemma threeUse_table (h : threeUse m = .table r pl) :
    (r = pg 0 ∨ r = pg 4 ∨ r = pg 7) ∧ m ≠ 0 ∧ (threeTabs r).at r pl = m := by
  unfold threeUse at h
  split_ifs at h <;> cases h <;> subst m <;> simp [Tab.at, threeTabs, pg_inj, pg_ne_zero]

lemma table_three (hr : r = pg 0 ∨ r = pg 4 ∨ r = pg 7) :
    Table threeUse threeVm.mem r (threeTabs r) := by
  refine ⟨fun pl h0 => threeUse_at hr h0, fun x pl hx => (threeUse_table hx).2, ?_, ?_, ?_, ?_, ?_⟩
  · rcases hr with rfl | rfl | rfl <;> exact pg_ne_zero _
  · exact fun pl h0 k _ => layout_words (threeUse_at hr h0) k
  · intro i hi
    simp only [threeTabs] at hi
    split_ifs at hi <;> simp_all [NPTE]
  · intro i j hij
    simp only [threeTabs] at hij ⊢
    split_ifs at hij ⊢ <;> simp_all [NPTE, pg_ne_zero]
  · intro n hn
    simp only [threeTabs] at hn ⊢
    have h513 : r = pg 0 ∧ n < 513 := by
      by_contra hc
      rw [if_neg hc] at hn
      exact hn rfl
    obtain ⟨rfl, hlt⟩ := h513
    refine ⟨by omega, ?_⟩
    rw [if_neg (by omega), if_pos rfl]
    split_ifs
    · exact pg_ne_zero 2
    · exact pg_ne_zero 3
    · omega

lemma userPages_three : UserPages threeUse (threeTabs (pg 0)) 513 := by
  have hpte : ∀ k < 513, (threeTabs (pg 0)).pte k = PA2PTE (pg (8 + k)) ||| 0x17 :=
    fun k hk => if_pos ⟨rfl, hk⟩
  have hal : ∀ k, pg k % PGSIZE = 0 := by
    intro k
    unfold pg KERNBASE PGSIZE
    omega
  have hpa : ∀ k < 513, PTE2PA ((threeTabs (pg 0)).pte k) = pg (8 + k) := by
    intro k hk
    rw [hpte k hk, PTE2PA_or (hal _) (by decide)]
  refine ⟨fun k hk => ?_, fun k hk => ?_, fun j k hj hk he => ?_⟩
  · rw [hpte k hk]
    unfold Leaf
    rw [and_eq_flags (by decide), and_eq_flags (m := PTE_R) (by decide), PTE_FLAGS_or (by decide)]
    decide
  · rw [hpa k hk]
    have hne : ∀ i < 8, pg (8 + k) ≠ pg i := by
      intro i hi hc
      rw [pg_inj] at hc
      omega
    have hrange : pg 8 ≤ pg (8 + k) ∧ pg (8 + k) < pg 521 := by
      unfold pg PGSIZE
      omega
    unfold threeUse
    simp [hne, hal, hrange]
  · rw [hpa j hj, hpa k hk, pg_inj] at he
    omega

lemma unmapped_three (hr : r = pg 4 ∨ r = pg 7) (j : Nat) :
    entry threeVm.mem r j &&& PTE_V = 0 := by
  rw [(table_three (.inr hr)).entry_eq heap_three]
  rcases hr with rfl | rfl <;> simp [threeTabs, pg_inj]

theorem copytable_shares_the_mapped_pages_two : ∃ v',
    (copytable smallLink (pg 0) (pg 4) 5000).run threeVm = .ok (true, v') ∧
      TableShared (pg 0) (pg 4) 5000 [] threeVm v' := by
  obtain ⟨v', hrun⟩ : ∃ v', (copytable smallLink (pg 0) (pg 4) 5000).run threeVm = .ok (true, v') :=
    exists_of_returns (by decide +kernel)
  exact ⟨v', hrun, copytable_shares_the_mapped_pages heap_three (table_three (.inl rfl))
    (table_three (.inr (.inl rfl))) (fun j _ => unmapped_three (.inl rfl) j) hrun⟩

/-- There is no page for the tables below the root of the third table. -/
theorem copytable_leaves_nothing_iff_it_fails_first_root : ∃ v',
    (copytable smallLink (pg 0) (pg 7) 5000).run threeVm = .ok (false, v') ∧
      FailsFirst threeVm (pg 0) (pg 7) 5000 [] ∧ Unshared (pg 0) (pg 7) 5000 [] threeVm v' := by
  obtain ⟨v', hrun⟩ : ∃ v', (copytable smallLink (pg 0) (pg 7) 5000).run threeVm = .ok (false, v') :=
    exists_of_returns (by decide +kernel)
  have hfirst : FailsFirst threeVm (pg 0) (pg 7) 5000 [] :=
    ⟨0, by decide, by simp, by decide +kernel, by decide +kernel⟩
  exact ⟨v', hrun, hfirst, (copytable_leaves_nothing_iff_it_fails_first heap_three
    (table_three (.inl rfl)) (table_three (.inr (.inr rfl))) (fun j _ => unmapped_three (.inr rfl) j)
    hrun).1 hfirst⟩

/-! ## A failure at the second table of the third level -/

lemma Grown.no_low {i j : Nat} (hg : Grown ld r use [] v n T' use' l' v') (h : Heap ld use [] v)
    (ht : Table use v.mem r T) (hlow : T.low i j = 0) : T'.low i j = 0 := by
  by_contra h0
  have hu' : use' (T'.low i j) = .table r (.low i j) := hg.table.use_at (.low i j) h0
  have hfree : use (T'.low i j) ≠ .free := by
    intro hc
    have := (h.mem_iff _).mpr hc
    simp at this
  rw [hg.ext.keep _ hfree] at hu'
  have hat : T.low i j = T'.low i j := (ht.at_use _ _ hu').2
  exact h0 (hat.symm.trans hlow)

/-- The second table can take the first 512 pages and not the next one. The pages that are mapped
by then are freed, and the first table still maps them. -/
theorem failed_copytable_frees_shared_pages :
    Heap smallLink threeUse [] threeVm ∧ Table threeUse threeVm.mem (pg 0) (threeTabs (pg 0)) ∧
    Table threeUse threeVm.mem (pg 4) (threeTabs (pg 4)) ∧
    (∀ j < 513, entry threeVm.mem (pg 4) j &&& PTE_V = 0) ∧
    ∃ v', (copytable smallLink (pg 0) (pg 4) (513 * PGSIZE)).run threeVm = .ok (false, v') ∧
      (threeTabs (pg 0)).pte 0 &&& PTE_V ≠ 0 ∧
      ∃ l', Chain (fun x => v'.mem x 0) v'.freelist l' ∧ PTE2PA ((threeTabs (pg 0)).pte 0) ∈ l' := by
  have hold : Table threeUse threeVm.mem (pg 0) (threeTabs (pg 0)) := table_three (.inl rfl)
  have hnew : Table threeUse threeVm.mem (pg 4) (threeTabs (pg 4)) := table_three (.inr (.inl rfl))
  have hne : pg 4 ≠ pg 0 := by simp [pg_inj]
  have hpages : pages (513 * PGSIZE) = 513 := by decide
  have hlow1 : (threeTabs (pg 4)).low 0 1 = 0 := by simp [threeTabs, pg_inj]
  have hlow0 : (threeTabs (pg 4)).at (pg 4) (.low 0 0) ≠ 0 := by
    simp [Tab.at, threeTabs, pg_inj, pg_ne_zero]
  -- no step panics, since the first table maps memory only
  have hruns : Wp (copytable smallLink (pg 0) (pg 4) (513 * PGSIZE)) _ (fun _ => False) threeVm :=
    wp_copytable hne heap_three hold hnew (fun j _ => by simp [threeTabs, pg_inj]) (by rw [hpages]; exact userPages_three)
  obtain ⟨ok, v', hrun, _, _, _, hres⟩ := hruns.exists_ok
  have hloop := (wp_copytableLoop_any (k := 0) heap_three hold hnew fun _ _ _ _ => hne).of_ok
    (by rw [Nat.zero_mul]; exact hrun)
  refine ⟨heap_three, hold, hnew, fun j _ => unmapped_three (.inl rfl) j, v', ?_⟩
  cases ok with
  | true =>
    obtain ⟨use', l', T', hg, hpte, _⟩ := hloop
    have h512 : T'.pte 512 ≠ 0 := by
      rw [hpte]
      decide +kernel
    exact absurd (hg.no_low heap_three hnew hlow1) (hg.table.pte_low 512 h512).2
  | false =>
    refine ⟨hrun, (userPages_three.leaf 0 (by decide)).1, ?_⟩
    obtain ⟨i, hi, use1, T1, v1, hg, hpte, hlow, hun⟩ := hloop
    have hi513 : i < 513 := hi
    -- the first 512 pages find their table
    have hi512 : i = 512 := by
      by_contra hc
      rw [show (0 + i) / 2 ^ 18 = 0 by omega, show (0 + i) / 2 ^ 9 % 512 = 0 by omega] at hlow
      exact hlow0 ((hg.at_eq hnew hlow0).symm.trans hlow)
    subst hi512
    rw [Nat.zero_add] at hun
    refine hg.rollback (userPages_three.mono (by decide)) (fun j hj => ?_) (by decide) hun
    rw [hpte]
    exact if_pos ⟨Nat.zero_le j, by omega, (userPages_three.leaf j (by omega)).1⟩

end xv6.vm
