-- The memory of a process is given to another one: `uvmcopy` copies the pages,
-- and `copytable` maps the same ones.
import Xv6.AddressSpace

open cells linked wp

namespace xv6.vm

variable {ld : Link} {use use' : Nat → Use} {l l' : List Nat} {v v' : Vm}
  {r ro x i j k m n sz : Nat} {mem mem' : Nat → Nat → Nat} {T T' To : Tab} {E : Stop → Prop}

/-! ## What a change leaves of another table -/

lemma Table.alloced (ht : Table use mem ro To) (ha : Alloced r use use' mem mem' T' m n)
    (hne : r ≠ ro) : Table use' mem' ro To := by
  have hfree : ∀ y pl, use y = .table ro pl → use y ≠ .free := by
    intro y pl hy
    rw [hy]
    simp
  refine ht.congr (fun y pl => ⟨fun hy => ?_, fun hy => ?_⟩) fun y pl hy => ?_
  · by_cases hyf : use y = .free
    · rcases ha.fresh y hyf with h1 | ⟨pl', h1⟩ | ⟨h1, _⟩
      · rw [h1] at hy
        cases hy
      · rw [h1] at hy
        cases hy
        exact absurd rfl hne
      · rw [h1] at hy
        cases hy
    · rw [← ha.keep y hyf]
      exact hy
  · rw [ha.keep y (hfree y pl hy)]
    exact hy
  · refine ha.same y (hfree y pl hy) fun pl' hc => ?_
    rw [hy] at hc
    cases hc
    exact hne rfl

lemma Table.ext (ht : Table use mem ro To) (he : Ext r use use' mem mem') (hne : r ≠ ro) :
    Table use' mem' ro To :=
  ht.alloced (he.alloced To 0 0) hne

lemma wp_unmapAll (h : Heap ld use l v) (ht : Table use v.mem r T) (hu : UserPages use T k) :
    Wp (do uvmunmap ld r 0 k true; return false)
      (fun ok v' => ok = false ∧ ∃ use' l', Undone ld r use v T 0 k (T.clear 0 k) use' l' v') E v := by
  have hk := hu.le h
  have hNP : NPAGES = 32768 := rfl
  have hun : Wp (uvmunmap ld r (0 * PGSIZE) k true) _ E v := wp_uvmunmap h ht (by omega)
    (fun j _ h2 => hu.leaf j (by omega)) (fun _ j _ h2 => hu.user j (by omega))
    (fun _ i j _ h2 _ h4 => hu.inj i j (by omega) (by omega))
  rw [Nat.zero_mul] at hun
  refine hun.bind ?_
  rintro _ v1 ⟨use1, l1, hs⟩
  rw [wp_pure]
  have hcov : ∀ x, use x = .free → ¬ Covers T 0 k x := by
    rintro x hx ⟨j, _, h2, rfl⟩
    rw [hu.user j (by omega)] at hx
    cases hx
  refine ⟨rfl, use1, l1, hs.heap, hs.table, rfl, fun x hx => hs.freed x ⟨rfl, hx⟩,
    fun x _ hx => hs.keep x fun hc => hx hc.2, fun x hx => .inl ?_,
    fun x h1 hx => hs.same x h1 fun hc => hx hc.2⟩
  rw [hs.keep x fun hc => hcov x hx hc.2, hx]

/-! ## `uvmcopy` -/

/-- The `n` pages from page `k` on are new, with the flags and the contents of those of `To`. -/
structure Copied (ld : Link) (r : Nat) (use : Nat → Use) (v : Vm) (To T : Tab) (k n : Nat)
    (T' : Tab) (use' : Nat → Use) (l' : List Nat) (v' : Vm) : Prop where
  heap : Heap ld use' l' v'
  table : Table use' v'.mem r T'
  user : UserPages use' T' (k + n)
  old : ∀ j, j < k ∨ k + n ≤ j → T'.pte j = T.pte j
  new : ∀ j, k ≤ j → j < k + n → ∃ x, IsPage ld x ∧ use x = .free ∧
    T'.pte j = PA2PTE x ||| PTE_FLAGS (To.pte j) ||| PTE_V ∧
    v'.mem x = v.mem (PTE2PA (To.pte j))
  alloced : Alloced r use use' v.mem v'.mem T' k n

lemma Leaf.flags_read {w : Nat} (h : Leaf w) : PTE_FLAGS w &&& PTE_R ≠ 0 := by
  rw [← and_eq_flags (by decide)]
  exact h.2

lemma PTE2PA_mapped {pa perm : Nat} (hpa : pa % PGSIZE = 0) (hp : perm < 1024) :
    PTE2PA (PA2PTE pa ||| perm ||| PTE_V) = pa := by
  rw [Nat.or_assoc, PTE2PA_or hpa]
  exact Nat.or_lt_two_pow (n := 10) hp (by decide)

section

variable (hne : r ≠ ro) (h : Heap ld use l v) (hto : Table use v.mem ro To)
  (ht : Table use v.mem r T)
include hne h hto ht

lemma wp_uvmcopyLoop (hu : UserPages use T k)
    (h0 : ∀ j, k ≤ j → j < TOPPAGE → T.pte j = 0) (hso : UserPages use To (k + n)) :
    Wp (uvmcopyLoop ld ro r n (k * PGSIZE)) (fun ok v' => ∃ use' l' T',
      if ok = true then Copied ld r use v To T k n T' use' l' v'
      else Undone ld r use v T 0 k T' use' l' v') E v := by
  induction n generalizing k T use l v with
  | zero =>
    unfold uvmcopyLoop
    rw [wp_pure]
    refine ⟨use, l, T, ?_⟩
    rw [if_pos rfl]
    exact ⟨h, ht, hu, fun _ _ => rfl, fun j h1 h2 => by omega, (Ext.refl ..).alloced ..⟩
  | succ n ih =>
    have hle := hu.le h
    have hNP : NPAGES = 32768 := rfl
    have hTOP : TOPPAGE = 67108862 := rfl
    have hdiv : k * PGSIZE / PGSIZE = k := Nat.mul_div_cancel k (by decide)
    have hva : k * PGSIZE < MAXVA := by
      unfold PGSIZE MAXVA
      omega
    have hleaf := hso.leaf k (by omega)
    have hsrc := hso.user k (by omega)
    have hspage := h.page _ (show use (PTE2PA (To.pte k)) ≠ .none by rw [hsrc]; simp)
    obtain ⟨_, hlow⟩ := hto.pte_low k hleaf.ne_zero
    have hlpage : IsPage ld (To.low (k / 2 ^ 18) (k / 2 ^ 9 % 512)) := hto.page (o := .low _ _) h hlow
    refine (wp_walk_find h hto hva).bind ?_
    rintro o v0 ⟨rfl, rfl⟩
    rw [hdiv, if_neg hlow]
    rw [wp_load_bind hlpage.inRam, hto.pte_word hlow, if_neg hleaf.1]
    refine (wp_kalloc h).bind ?_
    rintro x v1 (⟨rfl, rfl, rfl⟩ | ⟨l1, rfl, hx, hpage, hmem1, hheap1⟩)
    · rw [if_pos rfl]
      refine (wp_unmapAll h ht hu).imp ?_
      rintro ok v2 ⟨rfl, use2, l2, hun⟩
      refine ⟨use2, l2, T.clear 0 k, ?_⟩
      rw [if_neg (by simp)]
      exact hun
    · have hsx : PTE2PA (To.pte k) ≠ x := by
        intro he
        rw [he, hx] at hsrc
        cases hsrc
      rw [if_neg hpage.ne_zero, wp_memmove_bind hpage.inRam hspage.inRam, hmem1 _ hsx]
      have hdata2 : (v1.putPage x (v0.mem (PTE2PA (To.pte k)))).mem x = v0.mem (PTE2PA (To.pte k)) :=
        putPage_self _
      obtain ⟨hheap2, hmem2, htab2⟩ := ht.newPage hx hmem1 hheap1 (v0.mem (PTE2PA (To.pte k)))
      generalize v1.putPage x (v0.mem (PTE2PA (To.pte k))) = v2 at *
      have hto2 : Table (put use x .user) v2.mem ro To := by
        refine hto.reuse ?_ (by simp) hmem2
        rw [hx]
        simp
      have hk0 : T.pte k = 0 := h0 k le_rfl (by omega)
      have hperm := PTE_FLAGS_lt (To.pte k)
      refine (wp_mappages hheap2 htab2 hva (Nat.mul_mod_left ..) (by rw [hdiv]; exact hk0)).bind ?_
      rintro (_ | _) v3 ⟨use3, l3, T3, g3, hres3⟩
      · obtain ⟨rfl, hpte3⟩ := hres3
        rw [if_pos rfl]
        refine (g3.wp_kfree hu hx hpage hmem2 hpte3).bind ?_
        rintro _ v4 ⟨hheap4, htab4, hu4, hext4⟩
        refine (wp_unmapAll hheap4 htab4 hu4).imp ?_
        rintro ok v5 ⟨rfl, use5, l5, hun⟩
        refine ⟨use5, l5, T3.clear 0 k, ?_⟩
        rw [if_neg (by simp)]
        exact hun.after hu (Nat.zero_le k) hext4 hpte3
      · rw [if_neg (by simp), show k * PGSIZE + PGSIZE = (k + 1) * PGSIZE from (Nat.succ_mul ..).symm]
        dsimp only at hres3
        rw [hdiv] at hres3
        have hw : PTE2PA (PA2PTE x ||| PTE_FLAGS (To.pte k) ||| PTE_V) = x :=
          PTE2PA_mapped hpage.1 hperm
        have huser3 : ∀ y, use y = .user ∨ y = x → use3 y = .user := by
          rintro y (hy | rfl)
          · have hyx : y ≠ x := by
              rintro rfl
              rw [hx] at hy
              cases hy
            rw [g3.ext.keep y (by rw [put_of_ne hyx, hy]; simp), put_of_ne hyx, hy]
          · rw [g3.ext.keep y (by rw [put_self]; simp), put_self]
        have hu3 : UserPages use3 T3 (k + 1) :=
          hu.snoc hres3 (leaf_mapped hperm hleaf.flags_read) hw hx huser3
        have hso3 : UserPages use3 To (k + 1 + n) := by
          rw [show k + 1 + n = k + (n + 1) by omega]
          exact hso.congr (fun _ _ => rfl) fun y hy => huser3 y (.inl hy)
        -- the pages of the other process are not touched
        have hsrc3 : ∀ j < k + (n + 1), v3.mem (PTE2PA (To.pte j)) = v0.mem (PTE2PA (To.pte j)) := by
          intro j hj
          have hju := hso.user j hj
          have hjx : PTE2PA (To.pte j) ≠ x := by
            intro he
            rw [he, hx] at hju
            cases hju
          rw [g3.ext.same _ (by rw [put_of_ne hjx, hju]; simp) (by rw [put_of_ne hjx, hju]; simp),
            hmem2 _ hjx]
        refine (ih g3.heap (hto2.ext g3.ext hne) g3.table hu3 ?_ hso3).imp ?_
        · intro j h1 h2
          rw [hres3, put_of_ne (by omega)]
          exact h0 j (by omega) h2
        · rintro ok v4 ⟨use4, l4, T4, hres4⟩
          refine ⟨use4, l4, T4, ?_⟩
          by_cases hok : ok = true
          · rw [if_pos hok] at hres4 ⊢
            have hk4 : T4.pte k = PA2PTE x ||| PTE_FLAGS (To.pte k) ||| PTE_V := by
              rw [hres4.old k (.inl (by omega)), hres3, put_self]
            refine ⟨hres4.heap, hres4.table,
              by rw [show k + (n + 1) = k + 1 + n by omega]; exact hres4.user, ?_, ?_,
              hres4.alloced.step hx g3.ext hmem2 (by rw [hk4, hw])⟩
            · intro j hj
              rw [hres4.old j (by omega), hres3, put_of_ne (by omega)]
            · intro j h1 h2
              by_cases hjk : j = k
              · subst hjk
                refine ⟨x, hpage, hx, hk4, ?_⟩
                have hx3 := huser3 x (.inr rfl)
                rw [hres4.alloced.same x (by rw [hx3]; simp) (by rw [hx3]; simp),
                  g3.ext.same x (by rw [put_self]; simp) (by rw [put_self]; simp), hdata2]
              · obtain ⟨y, hy, hfree, hpte, hdata⟩ := hres4.new j (by omega) (by omega)
                refine ⟨y, hy, ?_, hpte, by rw [hdata, hsrc3 j (by omega)]⟩
                by_contra hyf
                by_cases hyx : y = x
                · rw [hyx, huser3 x (.inr rfl)] at hfree
                  cases hfree
                · rw [g3.ext.keep y (by rw [put_of_ne hyx]; exact hyf), put_of_ne hyx] at hfree
                  exact hyf hfree
          · rw [if_neg hok] at hres4 ⊢
            exact hres4.step hu (Nat.zero_le k) hx g3.ext hmem2 hres3 hw hk0

lemma wp_uvmcopy (h0 : ∀ j, j < TOPPAGE → T.pte j = 0)
    (hso : UserPages use To (pages sz)) :
    Wp (uvmcopy ld ro r sz) (fun ok v' => ∃ use' l' T',
      if ok = true then Copied ld r use v To T 0 (pages sz) T' use' l' v'
      else SameMap ld r use v T T' use' l' v') E v := by
  have hrounds : rounds 0 sz = pages sz := by
    unfold rounds pages
    rfl
  have hzero : UserPages use T 0 := ⟨by simp, by simp, by simp⟩
  unfold uvmcopy
  rw [hrounds]
  have hloop := wp_uvmcopyLoop (E := E) (n := pages sz) (k := 0) hne h hto ht hzero
    (fun j _ hj => h0 j hj) (by rw [Nat.zero_add]; exact hso)
  rw [Nat.zero_mul] at hloop
  refine hloop.imp ?_
  rintro ok v' ⟨use', l', T', hres⟩
  refine ⟨use', l', T', ?_⟩
  by_cases hok : ok = true
  · rw [if_pos hok] at hres ⊢
    exact hres
  · rw [if_neg hok] at hres ⊢
    exact hres.sameMap

end

/-! ## `copytable` -/

lemma or_one_of_odd (hx : x &&& 1 ≠ 0) : x ||| 1 = x := by
  have hodd : x % 2 = 1 := by
    rw [Nat.and_one_is_mod] at hx
    omega
  apply Nat.eq_of_testBit_eq
  intro i
  rw [Nat.testBit_or]
  rcases i with _ | i
  · simp [hodd]
  · simp [Nat.testBit_succ]

lemma remapped {w : Nat} (hw : w &&& PTE_V ≠ 0) : PA2PTE (PTE2PA w) ||| PTE_FLAGS w ||| PTE_V = w := by
  have hodd : PTE_FLAGS w ||| PTE_V = PTE_FLAGS w := by
    apply or_one_of_odd
    rw [← and_eq_flags (by decide)]
    exact hw
  rw [Nat.or_assoc, hodd, PA2PTE_or (PTE_FLAGS_lt w), PTE2PA_eq, PTE_FLAGS_eq,
    Nat.mul_div_cancel _ (by decide)]
  omega

section

variable (hne : r ≠ ro) (h : Heap ld use l v) (hto : Table use v.mem ro To)
  (ht : Table use v.mem r T)
include hne h hto ht

lemma wp_copytableLoop (hcopy : ∀ j < k, T.pte j = To.pte j)
    (h0 : ∀ j, k ≤ j → j < TOPPAGE → T.pte j = 0) (hso : UserPages use To (k + n)) :
    Wp (copytableLoop ld ro r n (k * PGSIZE)) (fun ok v' => ∃ use' l' T',
      if ok = true then Grown ld r use l v (2 * n) T' use' l' v' ∧
        (∀ j < k + n, T'.pte j = To.pte j) ∧ ∀ j, k + n ≤ j → T'.pte j = T.pte j
      else ∃ T1 m, k ≤ m ∧ m < k + n ∧ (∀ j < m, T1.pte j = To.pte j) ∧
        Undone ld r use v T1 0 m T' use' l' v') E v := by
  induction n generalizing k T use l v with
  | zero =>
    unfold copytableLoop
    rw [wp_pure]
    refine ⟨use, l, T, ?_⟩
    rw [if_pos rfl]
    exact ⟨.refl h ht _, hcopy, fun _ _ => rfl⟩
  | succ n ih =>
    have hle := hso.le h
    have hNP : NPAGES = 32768 := rfl
    have hTOP : TOPPAGE = 67108862 := rfl
    have hdiv : k * PGSIZE / PGSIZE = k := Nat.mul_div_cancel k (by decide)
    have hva : k * PGSIZE < MAXVA := by
      unfold PGSIZE MAXVA
      omega
    have hleaf := hso.leaf k (by omega)
    obtain ⟨_, hlow⟩ := hto.pte_low k hleaf.ne_zero
    have hlpage : IsPage ld (To.low (k / 2 ^ 18) (k / 2 ^ 9 % 512)) := hto.page (o := .low _ _) h hlow
    refine (wp_walk_find h hto hva).bind ?_
    rintro o v0 ⟨rfl, rfl⟩
    rw [hdiv, if_neg hlow]
    rw [wp_load_bind hlpage.inRam, hto.pte_word hlow, if_neg hleaf.1]
    have hk0 : T.pte k = 0 := h0 k le_rfl (by omega)
    refine (wp_mappages h ht hva (Nat.mul_mod_left ..) (by rw [hdiv]; exact hk0)).bind ?_
    rintro (_ | _) v1 ⟨use1, l1, T1, g1, hres1⟩
    · obtain ⟨rfl, hpte1⟩ := hres1
      rw [if_pos rfl]
      have hcopy1 : ∀ j < k, T1.pte j = To.pte j := by
        intro j hj
        rw [hpte1, hcopy j hj]
      have hu1 : UserPages use1 T1 k :=
        (hso.mono (by omega)).congr hcopy1 fun y hy => (g1.ext.keep y (by rw [hy]; simp)).trans hy
      refine (wp_unmapAll g1.heap g1.table hu1).imp ?_
      rintro ok v2 ⟨rfl, use2, l2, hun⟩
      refine ⟨use2, l2, T1.clear 0 k, ?_⟩
      rw [if_neg (by simp)]
      have hu : UserPages use T1 k := (hso.mono (by omega)).congr hcopy1 fun _ => id
      exact ⟨T1, k, le_rfl, by omega, hcopy1, hun.after hu (Nat.zero_le k) g1.ext rfl⟩
    · rw [if_neg (by simp), show k * PGSIZE + PGSIZE = (k + 1) * PGSIZE from (Nat.succ_mul ..).symm]
      dsimp only at hres1
      rw [hdiv, remapped hleaf.1] at hres1
      have hcopy1 : ∀ j < k + 1, T1.pte j = To.pte j := by
        intro j hj
        rw [hres1]
        by_cases hjk : j = k
        · rw [hjk, put_self]
        · rw [put_of_ne hjk, hcopy j (by omega)]
      have hso1 : UserPages use1 To (k + 1 + n) := by
        rw [show k + 1 + n = k + (n + 1) by omega]
        exact hso.congr (fun _ _ => rfl) fun y hy => (g1.ext.keep y (by rw [hy]; simp)).trans hy
      refine (ih g1.heap (hto.ext g1.ext hne) g1.table hcopy1 ?_ hso1).imp ?_
      · intro j h1 h2
        rw [hres1, put_of_ne (by omega)]
        exact h0 j (by omega) h2
      · rintro ok v2 ⟨use2, l2, T2, hres2⟩
        refine ⟨use2, l2, T2, ?_⟩
        by_cases hok : ok = true
        · rw [if_pos hok] at hres2 ⊢
          obtain ⟨g2, h1, h2⟩ := hres2
          refine ⟨(g1.trans g2).mono (by omega), fun j hj => h1 j (by omega), fun j hj => ?_⟩
          rw [h2 j (by omega), hres1, put_of_ne (by omega)]
        · rw [if_neg hok] at hres2 ⊢
          obtain ⟨T3, m, h1, h2, h3, hun⟩ := hres2
          have hu : UserPages use T3 m := (hso.mono (by omega)).congr h3 fun _ => id
          exact ⟨T3, m, by omega, by omega, h3, hun.after hu (Nat.zero_le m) g1.ext rfl⟩

lemma wp_copytable (h0 : ∀ j, j < TOPPAGE → T.pte j = 0)
    (hso : UserPages use To (pages sz)) :
    Wp (copytable ld ro r sz) (fun ok v' => ∃ use' l' T',
      if ok = true then Grown ld r use l v (2 * pages sz) T' use' l' v' ∧
        (∀ j < pages sz, T'.pte j = To.pte j) ∧ ∀ j, pages sz ≤ j → T'.pte j = T.pte j
      else ∃ T1 m, m < pages sz ∧ (∀ j < m, T1.pte j = To.pte j) ∧
        Undone ld r use v T1 0 m T' use' l' v') E v := by
  have hrounds : rounds 0 sz = pages sz := by
    unfold rounds pages
    rfl
  unfold copytable
  rw [hrounds]
  have hloop := wp_copytableLoop (E := E) (n := pages sz) (k := 0) hne h hto ht (by simp)
    (fun j _ hj => h0 j hj) (by rw [Nat.zero_add]; exact hso)
  rw [Nat.zero_mul] at hloop
  refine hloop.imp ?_
  rintro ok v' ⟨use', l', T', hres⟩
  refine ⟨use', l', T', ?_⟩
  rw [Nat.zero_add] at hres
  by_cases hok : ok = true
  · rw [if_pos hok] at hres ⊢
    exact hres
  · rw [if_neg hok] at hres ⊢
    obtain ⟨T1, m, _, h2, h3, hun⟩ := hres
    exact ⟨T1, m, h2, h3, hun⟩

end

end xv6.vm
