-- The memory of a process grows and shrinks: `uvmunmap`, `uvmdealloc` and
-- `uvmalloc`. What fails half-way is taken back.
import Xv6.Tables

open cells linked wp List

namespace xv6.vm

variable {ld : Link} {use use' : Nat → Use} {l l' : List Nat} {v v' : Vm} {r x i j k m n : Nat}
  {mem mem' : Nat → Nat → Nat} {T T' : Tab} {E : Stop → Prop} {do_free : Bool} {S : Nat → Prop}

/-! ## Unmapping -/

def Covers (T : Tab) (m n x : Nat) : Prop := ∃ k, m ≤ k ∧ k < m + n ∧ PTE2PA (T.pte k) = x

/-- The pages in `S` went to the free list, the table with root `r` is `T'`, and other pages are
as before. -/
structure Shrunk (ld : Link) (r : Nat) (use : Nat → Use) (v : Vm) (S : Nat → Prop) (T' : Tab)
    (use' : Nat → Use) (l' : List Nat) (v' : Vm) : Prop where
  heap : Heap ld use' l' v'
  table : Table use' v'.mem r T'
  freed : ∀ x, S x → use' x = .free
  keep : ∀ x, ¬ S x → use' x = use x
  same : ∀ x, use x ≠ .free → ¬ S x → (∀ pl, use x ≠ .table r pl) → v'.mem x = v.mem x

/-- The entries of the `n` pages from page `m` on are cleared. -/
def Tab.clear (T : Tab) (m n : Nat) : Tab :=
  { T with pte := fun k => if m ≤ k ∧ k < m + n then 0 else T.pte k }

lemma clear_zero (T : Tab) (m : Nat) : T.clear m 0 = T := by
  unfold Tab.clear
  have : (fun k => if m ≤ k ∧ k < m + 0 then 0 else T.pte k) = T.pte := by
    funext k
    rw [if_neg (by omega)]
  rw [this]

lemma clear_succ (T : Tab) (m n : Nat) :
    ({ T with pte := put T.pte m 0 } : Tab).clear (m + 1) n = T.clear m (n + 1) := by
  unfold Tab.clear
  congr 1
  funext k
  dsimp only
  by_cases hk : k = m
  · subst hk
    rw [put_self, if_neg (by omega), if_pos (by omega)]
  · rw [put_of_ne hk]
    by_cases hc : m ≤ k ∧ k < m + (n + 1)
    · rw [if_pos (by omega), if_pos hc]
    · rw [if_neg (by omega), if_neg hc]

/-- The entry of the page passes the checks of `uvmunmap`. -/
def Mapped (T : Tab) (m : Nat) : Prop :=
  m < 2 ^ 26 ∧ T.pte m &&& PTE_V ≠ 0 ∧ PTE_FLAGS (T.pte m) ≠ PTE_V

lemma valid_ne_zero {w : Nat} (h : w &&& PTE_V ≠ 0) : w ≠ 0 := by
  rintro rfl
  exact h (Nat.zero_and _)

lemma Leaf.mapped (h : Leaf (T.pte m)) (hm : m < 2 ^ 26) : Mapped T m := ⟨hm, h.1, h.flags_ne⟩

lemma wp_uvmunmapLoop_stop {Q : Unit → Vm → Prop} (h : Heap ld use l v)
    (ht : Table use v.mem r T) (hm : ¬ Mapped T m) (hE : ∀ e, E e) :
    Wp (uvmunmapLoop ld r do_free (n + 1) (m * PGSIZE)) Q E v := by
  have hdiv : m * PGSIZE / PGSIZE = m := Nat.mul_div_cancel m (by decide)
  unfold uvmunmapLoop
  by_cases hva : MAXVA ≤ m * PGSIZE
  · unfold walk
    rw [if_pos hva]
    exact wp_bind.mpr ((wp_throw _).mpr (hE _))
  · have hm26 : m < 2 ^ 26 := by
      unfold PGSIZE MAXVA at hva
      omega
    refine (wp_walk_find h ht (Nat.lt_of_not_le hva)).bind ?_
    rintro o v1 ⟨rfl, rfl⟩
    rw [hdiv]
    by_cases hlow : T.low (m / 2 ^ 18) (m / 2 ^ 9 % 512) = 0
    · rw [if_pos hlow]
      exact (wp_throw _).mpr (hE _)
    · rw [if_neg hlow]
      have hpage : IsPage ld (T.low (m / 2 ^ 18) (m / 2 ^ 9 % 512)) := ht.page (o := .low _ _) h hlow
      rw [wp_load_bind hpage.inRam, ht.pte_word hlow]
      split
      · exact (wp_throw _).mpr (hE _)
      · rename_i hv
        split
        · exact (wp_throw _).mpr (hE _)
        · rename_i hf
          exact absurd ⟨hm26, hv, hf⟩ hm

/-- The loop clears its entries. Where one of them may not be a leaf, or lie behind the last
address, every error has to be expected. -/
lemma wp_uvmunmapLoop (h : Heap ld use l v) (ht : Table use v.mem r T)
    (hleaf : ∀ k, m ≤ k → k < m + n → (∀ e, E e) ∨ k < 2 ^ 26 ∧ Leaf (T.pte k))
    (huser : do_free = true → ∀ k, m ≤ k → k < m + n → use (PTE2PA (T.pte k)) = .user)
    (hinj : do_free = true → ∀ j k, m ≤ j → j < m + n → m ≤ k → k < m + n →
      PTE2PA (T.pte j) = PTE2PA (T.pte k) → j = k) :
    Wp (uvmunmapLoop ld r do_free n (m * PGSIZE)) (fun _ v' => ∃ use' l',
      Shrunk ld r use v (fun x => do_free = true ∧ Covers T m n x) (T.clear m n) use' l' v') E v := by
  induction n generalizing m T use l v with
  | zero =>
    unfold uvmunmapLoop
    rw [wp_pure]
    refine ⟨use, l, h, by rw [clear_zero]; exact ht, ?_, fun _ _ => rfl, fun _ _ _ _ => rfl⟩
    rintro x ⟨_, k, h1, h2, _⟩
    omega
  | succ n ih =>
    have hP : 0 < PGSIZE := by decide
    have hdiv : m * PGSIZE / PGSIZE = m := Nat.mul_div_cancel m hP
    by_cases hpass : Mapped T m
    swap
    · refine wp_uvmunmapLoop_stop h ht hpass ?_
      rcases hleaf m le_rfl (by omega) with hE | hl
      · exact hE
      · exact absurd (hl.2.mapped hl.1) hpass
    obtain ⟨hm26, hvalid, hflags⟩ := hpass
    have hva : m * PGSIZE < MAXVA := by
      unfold PGSIZE MAXVA
      omega
    obtain ⟨hm27, hlow⟩ := ht.pte_low m (valid_ne_zero hvalid)
    refine (wp_walk_find h ht hva).bind ?_
    rintro o v1 ⟨rfl, rfl⟩
    rw [hdiv, if_neg hlow]
    have hpage : IsPage ld (T.low (m / 2 ^ 18) (m / 2 ^ 9 % 512)) := ht.page (o := .low _ _) h hlow
    rw [wp_load_bind hpage.inRam, ht.pte_word hlow, if_neg hvalid, if_neg hflags]
    have hnext : m * PGSIZE + PGSIZE = (m + 1) * PGSIZE := by
      rw [Nat.succ_mul]
    -- the state after the page is freed, or left alone
    have hmid : Wp (if do_free = true then kfree ld (PTE2PA (T.pte m)) else pure ())
        (fun _ v2 => ∃ use2 l2, Heap ld use2 l2 v2 ∧ Table use2 v2.mem r T ∧
          (∀ y, y ≠ PTE2PA (T.pte m) ∨ do_free = false → use2 y = use y ∧ v2.mem y = v1.mem y) ∧
          (do_free = true → use2 (PTE2PA (T.pte m)) = .free)) E v1 := by
      by_cases hfree : do_free = true
      · have hu := huser hfree m le_rfl (by omega)
        have hxpage := h.page (PTE2PA (T.pte m)) (by rw [hu]; simp)
        rw [if_pos hfree]
        refine (wp_kfree h hxpage (by rw [hu]; simp)).imp ?_
        rintro _ v2 ⟨hh, hmem⟩
        refine ⟨_, _, hh, ht.congr (fun y pl => ?_) (fun y pl hy => hmem y ?_), ?_, ?_⟩
        · by_cases hyx : y = PTE2PA (T.pte m)
          · rw [hyx, put_self, hu]
            simp
          · rw [put_of_ne hyx]
        · rintro rfl
          rw [hu] at hy
          cases hy
        · intro y hy
          have hne := hy.resolve_right (by rw [hfree]; simp)
          exact ⟨put_of_ne hne .., hmem y hne⟩
        · exact fun _ => put_self ..
      · rw [if_neg hfree, wp_pure]
        exact ⟨use, l, h, ht, fun y _ => ⟨rfl, rfl⟩, fun hc => absurd hc hfree⟩
    refine hmid.bind ?_
    rintro _ v2 ⟨use2, l2, hheap2, htab2, hrest2, hfreed2⟩
    have hnot2 : use2 (T.low (m / 2 ^ 18) (m / 2 ^ 9 % 512)) ≠ .free :=
      htab2.not_free (o := .low _ _) hlow
    rw [wp_store_bind hpage.inRam, hnext]
    have htab3 := htab2.setPte (m := (v2.putPage (T.low (m / 2 ^ 18) (m / 2 ^ 9 % 512))
      (put (v2.mem (T.low (m / 2 ^ 18) (m / 2 ^ 9 % 512))) (m % 512) 0)).mem) hm27 hlow 0
      (putPage_self _) (fun y hy => putPage_of_ne hy _)
    have hother : ∀ k, m + 1 ≤ k → put T.pte m 0 k = T.pte k := by
      intro k hk
      exact put_of_ne (by omega) ..
    refine (ih (hheap2.putPage hnot2 _) htab3 ?_ ?_ ?_).imp ?_
    · intro k h1 h2
      dsimp only
      rw [hother k h1]
      exact hleaf k (by omega) (by omega)
    · intro hfree k h1 h2
      dsimp only
      rw [hother k h1]
      have hu := huser hfree k (by omega) (by omega)
      rw [(hrest2 _ (.inl ?_)).1, hu]
      intro he
      have := hinj hfree k m (by omega) (by omega) le_rfl (by omega) he
      omega
    · intro hfree j k h1 h2 h3 h4 he
      dsimp only at he
      rw [hother j h1, hother k h3] at he
      exact hinj hfree j k (by omega) (by omega) (by omega) (by omega) he
    · rintro _ v3 ⟨use3, l3, hs⟩
      have hcov : ∀ y, (do_free = true ∧ Covers T m (n + 1) y) ↔
          (do_free = true ∧ y = PTE2PA (T.pte m)) ∨
            (do_free = true ∧ Covers { T with pte := put T.pte m 0 } (m + 1) n y) := by
        intro y
        constructor
        · rintro ⟨hfree, k, h1, h2, rfl⟩
          by_cases hk : k = m
          · rw [hk]
            exact .inl ⟨hfree, rfl⟩
          · refine .inr ⟨hfree, k, by omega, by omega, ?_⟩
            dsimp only
            rw [hother k (by omega)]
        · rintro (⟨hfree, rfl⟩ | ⟨hfree, k, h1, h2, rfl⟩)
          · exact ⟨hfree, m, le_rfl, by omega, rfl⟩
          · refine ⟨hfree, k, by omega, by omega, ?_⟩
            dsimp only
            rw [hother k h1]
      refine ⟨use3, l3, hs.heap, by rw [← clear_succ]; exact hs.table, ?_, ?_, ?_⟩
      · intro y hy
        rcases (hcov y).mp hy with ⟨hfree, rfl⟩ | hc
        · by_cases hc : do_free = true ∧
            Covers { T with pte := put T.pte m 0 } (m + 1) n (PTE2PA (T.pte m))
          · exact hs.freed _ hc
          · rw [hs.keep _ hc]
            exact hfreed2 hfree
        · exact hs.freed y hc
      · intro y hy
        rw [hcov, not_or] at hy
        rw [hs.keep y hy.2]
        refine (hrest2 y ?_).1
        by_cases hfree : do_free = true
        · exact .inl fun he => hy.1 ⟨hfree, he⟩
        · exact .inr (by simpa using hfree)
      · intro y hyf hy htb
        rw [hcov, not_or] at hy
        have hne : y ≠ PTE2PA (T.pte m) ∨ do_free = false := by
          by_cases hfree : do_free = true
          · exact .inl fun he => hy.1 ⟨hfree, he⟩
          · exact .inr (by simpa using hfree)
        obtain ⟨h1, h2⟩ := hrest2 y hne
        rw [hs.same y (by rw [h1]; exact hyf) hy.2 (by rw [h1]; exact htb), putPage_of_ne, h2]
        rintro rfl
        exact htb _ (ht.use_at (.low _ _) hlow)

lemma rounds_mul (m n : Nat) : rounds (m * PGSIZE) ((m + n) * PGSIZE) = n := by
  unfold rounds PGSIZE
  omega

lemma wp_uvmunmap (h : Heap ld use l v) (ht : Table use v.mem r T) (hm : m + n ≤ 2 ^ 26)
    (hleaf : ∀ k, m ≤ k → k < m + n → Leaf (T.pte k))
    (huser : do_free = true → ∀ k, m ≤ k → k < m + n → use (PTE2PA (T.pte k)) = .user)
    (hinj : do_free = true → ∀ j k, m ≤ j → j < m + n → m ≤ k → k < m + n →
      PTE2PA (T.pte j) = PTE2PA (T.pte k) → j = k) :
    Wp (uvmunmap ld r (m * PGSIZE) n do_free) (fun _ v' => ∃ use' l',
      Shrunk ld r use v (fun x => do_free = true ∧ Covers T m n x) (T.clear m n) use' l' v') E v := by
  have hwrap : uint64 (m * PGSIZE + n * PGSIZE) = (m + n) * PGSIZE := by
    unfold uint64 PGSIZE
    omega
  unfold uvmunmap
  rw [if_neg (by rw [Nat.mul_mod_left]; simp), hwrap, rounds_mul]
  refine wp_uvmunmapLoop h ht (fun k h1 h2 => .inr ⟨by omega, hleaf k h1 h2⟩) huser hinj

/-! ## The memory of a process -/

def pages (sz : Nat) : Nat := (sz + PGSIZE - 1) / PGSIZE

lemma PGROUNDUP_eq {sz : Nat} (h : sz < 2 ^ 63) : PGROUNDUP sz = pages sz * PGSIZE := by
  unfold PGROUNDUP pages uint64 PGSIZE
  omega

/-- The first `n` pages of the table are memory of a process, each of them once. -/
structure UserPages (use : Nat → Use) (T : Tab) (n : Nat) : Prop where
  leaf : ∀ k < n, Leaf (T.pte k)
  user : ∀ k < n, use (PTE2PA (T.pte k)) = .user
  inj : ∀ j k, j < n → k < n → PTE2PA (T.pte j) = PTE2PA (T.pte k) → j = k

def NPAGES : Nat := (PHYSTOP - KERNBASE) / PGSIZE

lemma le_of_pages {f : Nat → Nat} (hpage : ∀ k < n, IsPage ld (f k))
    (hinj : ∀ j k, j < n → k < n → f j = f k → j = k) : n ≤ NPAGES := by
  have hcard := Finset.card_le_card_of_injOn (s := Finset.range n) (t := Finset.range NPAGES)
    (fun k => (f k - KERNBASE) / PGSIZE) ?_ ?_
  · rwa [Finset.card_range, Finset.card_range] at hcard
  · intro k hk
    obtain ⟨h1, h2, h3⟩ := hpage k (Finset.mem_range.mp hk)
    have h4 := ld.inside
    have h5 : NPAGES = 32768 := rfl
    have h6 : KERNBASE = 2147483648 := rfl
    have h7 : PHYSTOP = 2281701376 := rfl
    have h8 : PGSIZE = 4096 := rfl
    rw [Finset.mem_coe, Finset.mem_range, h5]
    dsimp only
    rw [h8] at h1 h4 ⊢
    rw [h6] at h4 ⊢
    omega
  · intro j hj k hk he
    obtain ⟨j1, j2, j3⟩ := hpage j (Finset.mem_range.mp hj)
    obtain ⟨k1, k2, k3⟩ := hpage k (Finset.mem_range.mp hk)
    refine hinj j k (Finset.mem_range.mp hj) (Finset.mem_range.mp hk) ?_
    have h4 := ld.inside
    have h6 : KERNBASE = 2147483648 := rfl
    have h8 : PGSIZE = 4096 := rfl
    dsimp only at he
    rw [h8] at j1 k1 h4 he
    rw [h6] at h4 he
    omega

lemma UserPages.le (hu : UserPages use T n) (h : Heap ld use l v) : n ≤ NPAGES :=
  le_of_pages (fun k hk => h.page _ (by rw [hu.user k hk]; simp)) hu.inj

lemma UserPages.mono (hu : UserPages use T n) (hm : m ≤ n) : UserPages use T m :=
  ⟨fun k hk => hu.leaf k (by omega), fun k hk => hu.user k (by omega),
    fun j k hj hk => hu.inj j k (by omega) (by omega)⟩

lemma UserPages.congr (hu : UserPages use T n) (hpte : ∀ k < n, T'.pte k = T.pte k)
    (huse : ∀ x, use x = .user → use' x = .user) : UserPages use' T' n := by
  refine ⟨fun k hk => ?_, fun k hk => ?_, fun j k hj hk he => ?_⟩
  · rw [hpte k hk]
    exact hu.leaf k hk
  · rw [hpte k hk]
    exact huse _ (hu.user k hk)
  · rw [hpte j hj, hpte k hk] at he
    exact hu.inj j k hj hk he

lemma wp_uvmdealloc {oldsz newsz : Nat} (h : Heap ld use l v) (ht : Table use v.mem r T)
    (hu : UserPages use T (pages oldsz)) (hold : oldsz < 2 ^ 38) :
    Wp (uvmdealloc ld r oldsz newsz) (fun sz v' => sz = min oldsz newsz ∧ ∃ use' l',
      Shrunk ld r use v (Covers T (pages newsz) (pages oldsz - pages newsz))
        (T.clear (pages newsz) (pages oldsz - pages newsz)) use' l' v') E v := by
  have hnone : ∀ m, ¬ ∃ x, Covers T m 0 x := by
    rintro m ⟨x, k, h1, h2, _⟩
    omega
  have hsame : pages oldsz - pages newsz = 0 → ∃ use' l',
      Shrunk ld r use v (Covers T (pages newsz) (pages oldsz - pages newsz))
        (T.clear (pages newsz) (pages oldsz - pages newsz)) use' l' v := by
    intro h0
    rw [h0]
    refine ⟨use, l, h, by rw [clear_zero]; exact ht, fun x hx => absurd ⟨x, hx⟩ (hnone _),
      fun _ _ => rfl, fun _ _ _ _ => rfl⟩
  unfold uvmdealloc
  by_cases hle : oldsz ≤ newsz
  · rw [if_pos hle, wp_pure]
    refine ⟨by omega, hsame ?_⟩
    unfold pages PGSIZE
    omega
  · rw [if_neg hle, PGROUNDUP_eq (by omega), PGROUNDUP_eq (by omega)]
    have hmin : newsz = min oldsz newsz := by omega
    by_cases hlt : pages newsz * PGSIZE < pages oldsz * PGSIZE
    · rw [if_pos hlt]
      have hpg : pages newsz < pages oldsz := Nat.lt_of_mul_lt_mul_right hlt
      have hbound : pages oldsz ≤ 2 ^ 26 := by
        unfold pages PGSIZE
        omega
      have hcount : intOf ((pages oldsz * PGSIZE - pages newsz * PGSIZE) / PGSIZE) =
          pages oldsz - pages newsz := by
        rw [← Nat.sub_mul, Nat.mul_div_cancel _ (by decide)]
        unfold intOf
        rw [if_pos (by omega)]
        omega
      rw [hcount]
      refine (wp_uvmunmap h ht (by omega) ?_ ?_ ?_).bind ?_
      · exact fun k _ h2 => hu.leaf k (by omega)
      · exact fun _ k _ h2 => hu.user k (by omega)
      · exact fun _ j k _ h2 _ h4 => hu.inj j k (by omega) (by omega)
      · rintro _ v1 ⟨use1, l1, hs⟩
        rw [wp_pure]
        refine ⟨hmin, use1, l1, hs.heap, hs.table, fun x hx => hs.freed x ⟨rfl, hx⟩,
          fun x hx => hs.keep x fun hc => hx hc.2, fun x h1 hx => hs.same x h1 fun hc => hx hc.2⟩
    · rw [if_neg hlt, wp_pure_bind, wp_pure]
      have hpg : pages oldsz ≤ pages newsz :=
        Nat.le_of_mul_le_mul_right (Nat.le_of_not_lt hlt) (by decide)
      exact ⟨hmin, hsame (by omega)⟩

/-! ## Growing -/

/-- The table with root `r` took free pages for itself, and for the `n` pages from page `m` on. -/
structure Alloced (r : Nat) (use use' : Nat → Use) (mem mem' : Nat → Nat → Nat) (T' : Tab)
    (m n : Nat) : Prop where
  keep : ∀ x, use x ≠ .free → use' x = use x
  fresh : ∀ x, use x = .free → use' x = .free ∨ (∃ pl, use' x = .table r pl) ∨
    (use' x = .user ∧ Covers T' m n x)
  same : ∀ x, use x ≠ .free → (∀ pl, use x ≠ .table r pl) → mem' x = mem x

lemma Ext.alloced (h : Ext r use use' mem mem') (T' : Tab) (m n : Nat) :
    Alloced r use use' mem mem' T' m n :=
  ⟨h.keep, fun x hx => (h.fresh x hx).imp id Or.inl, h.same⟩

def TOPPAGE : Nat := 2 ^ 26 - 2

/-- What is left when `uvmalloc` fails at page `k`: the pages from page `m` on are taken back. -/
structure Undone (ld : Link) (r : Nat) (use : Nat → Use) (v : Vm) (T : Tab) (m k : Nat)
    (T' : Tab) (use' : Nat → Use) (l' : List Nat) (v' : Vm) : Prop where
  heap : Heap ld use' l' v'
  table : Table use' v'.mem r T'
  pte : T'.pte = (T.clear m (k - m)).pte
  freed : ∀ x, Covers T m (k - m) x → use' x = .free
  keep : ∀ x, use x ≠ .free → ¬ Covers T m (k - m) x → use' x = use x
  fresh : ∀ x, use x = .free → use' x = .free ∨ ∃ pl, use' x = .table r pl
  same : ∀ x, use x ≠ .free → ¬ Covers T m (k - m) x → (∀ pl, use x ≠ .table r pl) →
    v'.mem x = v.mem x

lemma wp_takeBack (h : Heap ld use l v) (ht : Table use v.mem r T) (hu : UserPages use T k)
    (hmk : m ≤ k) :
    Wp (do let _ ← uvmdealloc ld r (k * PGSIZE) (m * PGSIZE); return false)
      (fun ok v' => ok = false ∧ ∃ use' l', Undone ld r use v T m k (T.clear m (k - m)) use' l' v')
      E v := by
  have hk := hu.le h
  have hkp : NPAGES = 32768 := rfl
  have hpages : ∀ n, n ≤ k → pages (n * PGSIZE) = n := by
    intro n _
    unfold pages PGSIZE
    omega
  have hlt : k * PGSIZE < 2 ^ 38 := by
    unfold PGSIZE
    omega
  have hde : Wp (uvmdealloc ld r (k * PGSIZE) (m * PGSIZE)) _ E v :=
    wp_uvmdealloc h ht (by rw [hpages k le_rfl]; exact hu) hlt
  rw [hpages k le_rfl, hpages m hmk] at hde
  refine hde.bind ?_
  rintro _ v1 ⟨_, use1, l1, hs⟩
  rw [wp_pure]
  have hcov : ∀ x, use x = .free → ¬ Covers T m (k - m) x := by
    rintro x hx ⟨j, h1, h2, rfl⟩
    rw [hu.user j (by omega)] at hx
    cases hx
  exact ⟨rfl, use1, l1, hs.heap, hs.table, rfl, hs.freed, fun x _ hx => hs.keep x hx,
    fun x hx => .inl ((hs.keep x (hcov x hx)).trans hx), hs.same⟩

variable {use1 : Nat → Use} {xperm : Nat}

lemma perm_flags (hx : xperm < 1024) : PTE_R ||| PTE_U ||| xperm < 1024 :=
  Nat.or_lt_two_pow (n := 10) (by decide) hx

def userPte (x xperm : Nat) : Nat := PA2PTE x ||| (PTE_R ||| PTE_U ||| xperm) ||| PTE_V

lemma userPte_flags (hx : xperm < 1024) :
    PTE_FLAGS (userPte x xperm) = PTE_R ||| PTE_U ||| xperm ||| PTE_V := by
  unfold userPte
  rw [Nat.or_assoc (PA2PTE x), PTE_FLAGS_or]
  exact Nat.or_lt_two_pow (n := 10) (perm_flags hx) (by decide)

lemma PTE2PA_userPte (hx : xperm < 1024) (hal : x % PGSIZE = 0) :
    PTE2PA (userPte x xperm) = x := by
  unfold userPte
  rw [Nat.or_assoc (PA2PTE x), PTE2PA_or hal]
  exact Nat.or_lt_two_pow (n := 10) (perm_flags hx) (by decide)

lemma or_bit_ne_zero (a b c d : Nat) (hb : b &&& d ≠ 0) : (a ||| b ||| c) &&& d ≠ 0 := by
  intro h0
  apply hb
  have h1 : (a ||| b ||| c) &&& d = (a &&& d) ||| (b &&& d) ||| (c &&& d) := by
    rw [Nat.and_or_distrib_right, Nat.and_or_distrib_right]
  rw [h1, Nat.or_eq_zero_iff, Nat.or_eq_zero_iff] at h0
  exact h0.1.2

lemma leaf_userPte (hx : xperm < 1024) :
    Leaf (userPte x xperm) ∧ userPte x xperm &&& PTE_U ≠ 0 := by
  have hflags := userPte_flags (x := x) hx
  refine ⟨⟨?_, ?_⟩, ?_⟩
  · rw [and_eq_flags (by decide), hflags]
    have := or_bit_ne_zero (PTE_R ||| PTE_U ||| xperm) PTE_V 0 PTE_V (by decide)
    simpa using this
  · rw [and_eq_flags (by decide), hflags]
    have := or_bit_ne_zero 0 PTE_R (PTE_U ||| xperm ||| PTE_V) PTE_R (by decide)
    simpa [Nat.or_assoc] using this
  · rw [and_eq_flags (by decide), hflags]
    have := or_bit_ne_zero PTE_R PTE_U (xperm ||| PTE_V) PTE_U (by decide)
    simpa [Nat.or_assoc] using this

lemma Table.putPage (ht : Table use v.mem r T) (hx : ∀ pl, use x ≠ .table r pl) (f : Nat → Nat) :
    Table use (v.putPage x f).mem r T :=
  ht.congr (fun _ _ => Iff.rfl) fun y pl hy => putPage_of_ne (fun he : y = x => hx pl (he ▸ hy)) f

lemma Table.reuse {u : Use} (ht : Table use mem r T) (hx : ∀ pl, use x ≠ .table r pl)
    (hu : ∀ pl, u ≠ .table r pl) (hmem : ∀ y, y ≠ x → mem' y = mem y) :
    Table (put use x u) mem' r T := by
  have hne : ∀ y pl, use y = .table r pl → y ≠ x := by
    rintro y pl hy rfl
    exact hx pl hy
  refine ht.congr (fun y pl => ?_) fun y pl hy => hmem y (hne y pl hy)
  by_cases hyx : y = x
  · rw [hyx, put_self]
    exact iff_of_false (hu pl) (hx pl)
  · rw [put_of_ne hyx]

/-- The page that `kalloc` gave is memory of the process from here on. -/
lemma Table.newPage {l1 : List Nat} {v1 : Vm} (ht : Table use v.mem r T) (hx : use x = .free)
    (hmem : ∀ y, y ≠ x → v1.mem y = v.mem y)
    (hheap : ∀ u, u ≠ .free → Heap ld (put use x u) l1 v1) (f : Nat → Nat) :
    Heap ld (put use x .user) l1 (v1.putPage x f) ∧
      (∀ y, y ≠ x → (v1.putPage x f).mem y = v.mem y) ∧
      Table (put use x .user) (v1.putPage x f).mem r T := by
  have hmem' : ∀ y, y ≠ x → (v1.putPage x f).mem y = v.mem y := by
    intro y hy
    rw [putPage_of_ne hy, hmem y hy]
  exact ⟨(hheap .user (by simp)).putPage (by rw [put_self]; simp) f, hmem',
    ht.reuse (by rw [hx]; simp) (by simp) hmem'⟩

lemma UserPages.snoc (hu : UserPages use T k) (hpte : T'.pte = put T.pte k w)
    (hw : Leaf w) (hx : PTE2PA w = x) (hfree : use x = .free)
    (huse : ∀ y, use y = .user ∨ y = x → use' y = .user) : UserPages use' T' (k + 1) := by
  have hold : ∀ j < k, T'.pte j = T.pte j := by
    intro j hj
    rw [hpte, put_of_ne (by omega)]
  have hnew : T'.pte k = w := by
    rw [hpte, put_self]
  have hne : ∀ j < k, PTE2PA (T.pte j) ≠ x := by
    intro j hj he
    have := hu.user j hj
    rw [he, hfree] at this
    cases this
  refine ⟨fun j hj => ?_, fun j hj => ?_, fun i j hi hj he => ?_⟩
  · by_cases hjk : j = k
    · rw [hjk, hnew]
      exact hw
    · rw [hold j (by omega)]
      exact hu.leaf j (by omega)
  · by_cases hjk : j = k
    · rw [hjk, hnew, hx]
      exact huse x (.inr rfl)
    · rw [hold j (by omega)]
      exact huse _ (.inl (hu.user j (by omega)))
  · by_cases hik : i = k
    · by_cases hjk : j = k
      · rw [hik, hjk]
      · rw [hik, hnew, hold j (by omega), hx] at he
        exact absurd he.symm (hne j (by omega))
    · by_cases hjk : j = k
      · rw [hjk, hnew, hold i (by omega), hx] at he
        exact absurd he (hne i (by omega))
      · rw [hold i (by omega), hold j (by omega)] at he
        exact hu.inj i j (by omega) (by omega) he

lemma Ext.giveBack {u : Use} {mem1 mem2 : Nat → Nat → Nat} (hx : use x = .free)
    (h : Ext r (put use x u) use' mem1 mem2)
    (hmem1 : ∀ y, y ≠ x → mem1 y = mem y) (hmem2 : ∀ y, y ≠ x → mem' y = mem2 y) :
    Ext r use (put use' x .free) mem mem' := by
  have hne : ∀ y, use y ≠ .free → y ≠ x := by
    rintro y hy rfl
    exact hy hx
  refine ⟨fun y hy => ?_, fun y hy => ?_, fun y hy ht => ?_⟩
  · have := h.keep y (by rw [put_of_ne (hne y hy)]; exact hy)
    rw [put_of_ne (hne y hy)] at this ⊢
    exact this
  · by_cases hyx : y = x
    · rw [hyx, put_self]
      exact .inl rfl
    · have := h.fresh y (by rw [put_of_ne hyx]; exact hy)
      rwa [put_of_ne hyx]
  · have hyx := hne y hy
    have := h.same y (by rw [put_of_ne hyx]; exact hy) (by rw [put_of_ne hyx]; exact ht)
    rw [hmem2 y hyx, this, hmem1 y hyx]

lemma Undone.after {v1 : Vm} {T1 : Tab} (hu : UserPages use T k) (hmk : m ≤ k)
    (hext : Ext r use use1 v.mem v1.mem) (hpte : T1.pte = T.pte)
    (h : Undone ld r use1 v1 T1 m k T' use' l' v') : Undone ld r use v T m k T' use' l' v' := by
  have hcov : ∀ x, Covers T1 m (k - m) x ↔ Covers T m (k - m) x := by
    intro x
    unfold Covers
    rw [hpte]
  have huser : ∀ x, Covers T m (k - m) x → use x = .user := by
    rintro x ⟨j, h1, h2, rfl⟩
    exact hu.user j (by omega)
  refine ⟨h.heap, h.table, ?_, fun x hx => h.freed x ((hcov x).mpr hx), ?_, ?_, ?_⟩
  · rw [h.pte]
    unfold Tab.clear
    rw [hpte]
  · intro x hx hc
    have h1 := hext.keep x hx
    rw [h.keep x (by rw [h1]; exact hx) fun hc' => hc ((hcov x).mp hc'), h1]
  · intro x hx
    have hc : ¬ Covers T1 m (k - m) x := by
      rw [hcov]
      intro hc
      rw [huser x hc] at hx
      cases hx
    rcases hext.fresh x hx with h1 | ⟨pl, h1⟩
    · exact h.fresh x h1
    · exact .inr ⟨pl, (h.keep x (by rw [h1]; simp) hc).trans h1⟩
  · intro x hx hc ht
    have h1 := hext.keep x hx
    rw [h.same x (by rw [h1]; exact hx) (fun hc' => hc ((hcov x).mp hc')) (by rw [h1]; exact ht),
      hext.same x hx ht]

lemma Undone.step {v1 : Vm} {T1 : Tab} (hu : UserPages use T k) (hmk : m ≤ k)
    (hx : use x = .free) (hext : Ext r (put use x .user) use1 mem v1.mem)
    (hmem : ∀ y, y ≠ x → mem y = v.mem y) (hpte : T1.pte = put T.pte k w) (hw : PTE2PA w = x)
    (h0 : T.pte k = 0) (h : Undone ld r use1 v1 T1 m (k + 1) T' use' l' v') :
    Undone ld r use v T m k T' use' l' v' := by
  have hcov : ∀ y, Covers T1 m (k + 1 - m) y ↔ y = x ∨ Covers T m (k - m) y := by
    intro y
    unfold Covers
    rw [hpte]
    constructor
    · rintro ⟨j, h1, h2, rfl⟩
      by_cases hjk : j = k
      · rw [hjk, put_self]
        exact .inl hw
      · rw [put_of_ne hjk]
        exact .inr ⟨j, h1, by omega, rfl⟩
    · rintro (rfl | ⟨j, h1, h2, rfl⟩)
      · exact ⟨k, hmk, by omega, by rw [put_self, hw]⟩
      · exact ⟨j, h1, by omega, by rw [put_of_ne (by omega)]⟩
  have hne : ∀ y, use y ≠ .free → y ≠ x := by
    rintro y hy rfl
    exact hy hx
  refine ⟨h.heap, h.table, ?_, fun y hy => h.freed y ((hcov y).mpr (.inr hy)), ?_, ?_, ?_⟩
  · rw [h.pte]
    unfold Tab.clear
    rw [hpte]
    funext j
    dsimp only
    by_cases hjk : j = k
    · subst hjk
      rw [if_pos (by omega), if_neg (by omega), h0]
    · rw [put_of_ne hjk]
      by_cases hc : m ≤ j ∧ j < m + (k - m)
      · rw [if_pos (by omega), if_pos hc]
      · rw [if_neg (by omega), if_neg hc]
  · intro y hy hc
    have h1 := hext.keep y (by rw [put_of_ne (hne y hy)]; exact hy)
    rw [put_of_ne (hne y hy)] at h1
    rw [h.keep y (by rw [h1]; exact hy) fun hc' => ((hcov y).mp hc').elim (hne y hy) hc, h1]
  · intro y hy
    by_cases hyx : y = x
    · exact .inl (h.freed y ((hcov y).mpr (.inl hyx)))
    · have hc : ¬ Covers T1 m (k + 1 - m) y := by
        rw [hcov]
        rintro (hc | ⟨j, h1, h2, rfl⟩)
        · exact hyx hc
        · rw [hu.user j (by omega)] at hy
          cases hy
      rcases hext.fresh y (by rw [put_of_ne hyx]; exact hy) with h1 | ⟨pl, h1⟩
      · exact h.fresh y h1
      · exact .inr ⟨pl, (h.keep y (by rw [h1]; simp) hc).trans h1⟩
  · intro y hy hc ht
    have hyx := hne y hy
    have h1 := hext.keep y (by rw [put_of_ne hyx]; exact hy)
    rw [put_of_ne hyx] at h1
    rw [h.same y (by rw [h1]; exact hy) (fun hc' => ((hcov y).mp hc').elim hyx hc)
        (by rw [h1]; exact ht),
      hext.same y (by rw [put_of_ne hyx]; exact hy) (by rw [put_of_ne hyx]; exact ht), hmem y hyx]

lemma Alloced.step {mem1 mem2 : Nat → Nat → Nat} (hx : use x = .free)
    (hext : Ext r (put use x .user) use1 mem1 mem2) (hmem : ∀ y, y ≠ x → mem1 y = mem y)
    (hk : PTE2PA (T'.pte k) = x) (h : Alloced r use1 use' mem2 mem' T' (k + 1) n) :
    Alloced r use use' mem mem' T' k (n + 1) := by
  have hne : ∀ y, use y ≠ .free → y ≠ x := by
    rintro y hy rfl
    exact hy hx
  refine ⟨fun y hy => ?_, fun y hy => ?_, fun y hy ht => ?_⟩
  · have h1 := hext.keep y (by rw [put_of_ne (hne y hy)]; exact hy)
    rw [put_of_ne (hne y hy)] at h1
    rw [h.keep y (by rw [h1]; exact hy), h1]
  · by_cases hyx : y = x
    · have h1 := hext.keep y (by rw [hyx, put_self]; simp)
      rw [hyx, put_self] at h1
      rw [hyx, h.keep x (by rw [h1]; simp), h1]
      exact .inr (.inr ⟨rfl, k, le_rfl, by omega, hk⟩)
    · rcases hext.fresh y (by rw [put_of_ne hyx]; exact hy) with h1 | ⟨pl, h1⟩
      · rcases h.fresh y h1 with h2 | h2 | ⟨h2, j, h3, h4, h5⟩
        · exact .inl h2
        · exact .inr (.inl h2)
        · exact .inr (.inr ⟨h2, j, by omega, by omega, h5⟩)
      · exact .inr (.inl ⟨pl, (h.keep y (by rw [h1]; simp)).trans h1⟩)
  · have hyx := hne y hy
    have h1 := hext.keep y (by rw [put_of_ne hyx]; exact hy)
    rw [put_of_ne hyx] at h1
    rw [h.same y (by rw [h1]; exact hy) (by rw [h1]; exact ht),
      hext.same y (by rw [put_of_ne hyx]; exact hy) (by rw [put_of_ne hyx]; exact ht), hmem y hyx]

lemma Alloced.free_of_free (h : Alloced r use use' mem mem' T m n) (hx : use' x = .free) :
    use x = .free := by
  by_contra hc
  exact hc ((h.keep x hc).symm.trans hx)

lemma Alloced.trans {use'' : Nat → Use} {mem'' : Nat → Nat → Nat}
    (h : Alloced r use use' mem mem' T k m) (h' : Alloced r use' use'' mem' mem'' T' (k + m) n)
    (hpte : ∀ j, k ≤ j → j < k + m → T'.pte j = T.pte j) :
    Alloced r use use'' mem mem'' T' k (m + n) := by
  refine ⟨fun x hx => ?_, fun x hx => ?_, fun x hx ht => ?_⟩
  · have h1 := h.keep x hx
    rw [h'.keep x (by rw [h1]; exact hx), h1]
  · rcases h.fresh x hx with h1 | ⟨pl, h1⟩ | ⟨h1, j, h2, h3, h4⟩
    · rcases h'.fresh x h1 with h2 | h2 | ⟨h2, j, h3, h4, h5⟩
      · exact .inl h2
      · exact .inr (.inl h2)
      · exact .inr (.inr ⟨h2, j, by omega, by omega, h5⟩)
    · exact .inr (.inl ⟨pl, (h'.keep x (by rw [h1]; simp)).trans h1⟩)
    · refine .inr (.inr ⟨(h'.keep x (by rw [h1]; simp)).trans h1, j, h2, by omega, ?_⟩)
      rw [hpte j h2 h3, h4]
  · have h1 := h.keep x hx
    rw [h'.same x (by rw [h1]; exact hx) (by rw [h1]; exact ht), h.same x hx ht]

/-- The pages from page `k` on are new ones, with the entries that `uvmalloc` writes. -/
structure NewPages (ld : Link) (use : Nat → Use) (T T' : Tab) (xperm k n : Nat) : Prop where
  old : ∀ j, j < k ∨ k + n ≤ j → T'.pte j = T.pte j
  new : ∀ j, k ≤ j → j < k + n → ∃ x, IsPage ld x ∧ use x = .free ∧ T'.pte j = userPte x xperm

/-- The memory of the table with root `r` has `n` more pages from page `k` on. -/
structure Extended (ld : Link) (r : Nat) (use : Nat → Use) (l : List Nat) (v : Vm) (T : Tab)
    (xperm k n : Nat) (T' : Tab) (use' : Nat → Use) (l' : List Nat) (v' : Vm) : Prop where
  heap : Heap ld use' l' v'
  table : Table use' v'.mem r T'
  user : UserPages use' T' (k + n)
  new : NewPages ld use T T' xperm k n
  alloced : Alloced r use use' v.mem v'.mem T' k n
  took : ∃ c ≤ 3 * n, l' = l.drop c

lemma Extended.refl (h : Heap ld use l v) (ht : Table use v.mem r T) (hu : UserPages use T k)
    (xperm : Nat) : Extended ld r use l v T xperm k 0 T use l v :=
  ⟨h, ht, hu, ⟨fun _ _ => rfl, fun j h1 h2 => by omega⟩, (Ext.refl ..).alloced .., 0, le_rfl, rfl⟩

lemma Extended.one {xperm : Nat} {l1 : List Nat} {v1 : Vm} (hperm : xperm < 1024)
    (hu : UserPages use T k) (hx : use x = .free) (hpage : IsPage ld x)
    (hmem : ∀ y, y ≠ x → v1.mem y = v.mem y)
    (g : Grown ld r (put use x .user) l1 v1 2 T' use' l' v')
    (hpte : T'.pte = put T.pte k (userPte x xperm)) :
    Extended ld r use (x :: l1) v T xperm k 1 T' use' l' v' := by
  have hw : PTE2PA (userPte x xperm) = x := PTE2PA_userPte hperm hpage.1
  have hk : T'.pte k = userPte x xperm := by rw [hpte, put_self]
  obtain ⟨c, hc, hl'⟩ := g.took
  refine ⟨g.heap, g.table, ?_, ⟨fun j hj => ?_, fun j h1 h2 => ?_⟩, ?_, 1 + c, by omega, ?_⟩
  · refine hu.snoc hpte (leaf_userPte hperm).1 hw hx ?_
    rintro y (hy | rfl)
    · have hyx : y ≠ x := by
        rintro rfl
        rw [hx] at hy
        cases hy
      rw [g.ext.keep y (by rw [put_of_ne hyx, hy]; simp), put_of_ne hyx, hy]
    · rw [g.ext.keep y (by rw [put_self]; simp), put_self]
  · rw [hpte, put_of_ne (by omega)]
  · rw [show j = k by omega, hk]
    exact ⟨x, hpage, hx, rfl⟩
  · exact ((Ext.refl ..).alloced T' (k + 1) 0).step hx g.ext hmem (by rw [hk, hw])
  · rw [hl', Nat.add_comm 1, drop_succ_cons]

lemma Extended.trans {use'' : Nat → Use} {l'' : List Nat} {v'' : Vm} {T'' : Tab}
    (h : Extended ld r use l v T xperm k m T' use' l' v')
    (h' : Extended ld r use' l' v' T' xperm (k + m) n T'' use'' l'' v'') :
    Extended ld r use l v T xperm k (m + n) T'' use'' l'' v'' := by
  obtain ⟨c, hc, rfl⟩ := h.took
  obtain ⟨c', hc', rfl⟩ := h'.took
  refine ⟨h'.heap, h'.table, by rw [← Nat.add_assoc]; exact h'.user, ⟨fun j hj => ?_, fun j h1 h2 => ?_⟩,
    h.alloced.trans h'.alloced fun j _ h2 => h'.new.old j (.inl h2), c + c', by omega,
    drop_drop ..⟩
  · rw [h'.new.old j (by omega), h.new.old j (by omega)]
  · by_cases hj : j < k + m
    · rw [h'.new.old j (.inl hj)]
      exact h.new.new j h1 hj
    · obtain ⟨x, hx, hfree, hpte⟩ := h'.new.new j (by omega) (by omega)
      exact ⟨x, hx, h.alloced.free_of_free hfree, hpte⟩

lemma Grown.wp_kfree {w : Vm} {T' : Tab} (g : Grown ld r (put use x .user) l w n T' use' l' v')
    (hu : UserPages use T k) (hx : use x = .free) (hpage : IsPage ld x)
    (hmem : ∀ y, y ≠ x → w.mem y = v.mem y) (hpte : T'.pte = T.pte) :
    Wp (kfree ld x) (fun _ w' => Heap ld (put use' x .free) (x :: l') w' ∧
      Table (put use' x .free) w'.mem r T' ∧ UserPages (put use' x .free) T' k ∧
      Ext r use (put use' x .free) v.mem w'.mem) E v' := by
  have hx' : use' x = .user := by
    rw [g.ext.keep x (by rw [put_self]; simp), put_self]
  refine (vm.wp_kfree g.heap hpage (by rw [hx']; simp)).imp ?_
  rintro _ w' ⟨hheap, hmem'⟩
  have hext := g.ext.giveBack hx hmem hmem'
  exact ⟨hheap, g.table.reuse (by rw [hx']; simp) (by simp) hmem',
    hu.congr (fun j _ => by rw [hpte]) fun y hy => (hext.keep y (by rw [hy]; simp)).trans hy, hext⟩

lemma wp_uvmallocLoop (hperm : xperm < 1024) (h : Heap ld use l v)
    (ht : Table use v.mem r T) (hu : UserPages use T k) (hmk : m ≤ k)
    (h0 : ∀ j, k ≤ j → j < TOPPAGE → T.pte j = 0) :
    Wp (uvmallocLoop ld r (m * PGSIZE) xperm n (k * PGSIZE)) (fun ok v' => ∃ use' l' T',
      if ok = true then Extended ld r use l v T xperm k n T' use' l' v'
      else l.length ≤ 3 * n ∧ Undone ld r use v T m k T' use' l' v') E v := by
  induction n generalizing k T use l v with
  | zero =>
    unfold uvmallocLoop
    rw [wp_pure]
    refine ⟨use, l, T, ?_⟩
    rw [if_pos rfl]
    exact .refl h ht hu xperm
  | succ n ih =>
    have hle := hu.le h
    have hNP : NPAGES = 32768 := rfl
    have hTOP : TOPPAGE = 67108862 := rfl
    refine (wp_kalloc h).bind ?_
    rintro x v1 (⟨rfl, rfl, rfl⟩ | ⟨l1, rfl, hx, hpage, hmem1, hheap1⟩)
    · rw [if_pos rfl]
      refine (wp_takeBack h ht hu hmk).imp ?_
      rintro ok v2 ⟨rfl, use2, l2, hun⟩
      refine ⟨use2, l2, T.clear m (k - m), ?_⟩
      rw [if_neg (by simp)]
      exact ⟨by simp, hun⟩
    · rw [if_neg hpage.ne_zero, wp_memset_bind hpage.inRam]
      obtain ⟨hheap2, hmem2, htab2⟩ := ht.newPage hx hmem1 hheap1 fun _ => 0 * 0x0101010101010101
      generalize v1.putPage x (fun _ => 0 * 0x0101010101010101) = v2 at *
      have hdiv : k * PGSIZE / PGSIZE = k := Nat.mul_div_cancel k (by decide)
      have hva : k * PGSIZE < MAXVA := by
        unfold PGSIZE MAXVA
        omega
      have hk0 : T.pte k = 0 := h0 k le_rfl (by omega)
      refine (wp_mappages hheap2 htab2 hva
        (Nat.mul_mod_left ..) (by rw [hdiv]; exact hk0)).bind ?_
      rintro (_ | _) v3 ⟨use3, l3, T3, g3, hres3⟩
      · obtain ⟨rfl, hpte3⟩ := hres3
        rw [if_pos rfl]
        refine (g3.wp_kfree hu hx hpage hmem2 hpte3).bind ?_
        rintro _ v4 ⟨hheap4, htab4, hu4, hext4⟩
        refine (wp_takeBack hheap4 htab4 hu4 hmk).imp ?_
        rintro ok v5 ⟨rfl, use5, l5, hun⟩
        refine ⟨use5, l5, T3.clear m (k - m), ?_⟩
        rw [if_neg (by simp)]
        obtain ⟨c, hc, hdrop⟩ := g3.took
        have hlen := congrArg List.length hdrop
        rw [length_nil, length_drop] at hlen
        exact ⟨by rw [length_cons]; omega, hun.after hu hmk hext4 hpte3⟩
      · rw [if_neg (by simp), show k * PGSIZE + PGSIZE = (k + 1) * PGSIZE from (Nat.succ_mul ..).symm]
        dsimp only at hres3
        rw [hdiv] at hres3
        have hone := Extended.one (v := v) hperm hu hx hpage hmem2 g3 hres3
        refine (ih g3.heap g3.table hone.user (by omega) ?_).imp ?_
        · intro j h1 h2
          rw [hres3, put_of_ne (by omega)]
          exact h0 j (by omega) h2
        · rintro ok v4 ⟨use4, l4, T4, hres4⟩
          refine ⟨use4, l4, T4, ?_⟩
          by_cases hok : ok = true
          · rw [if_pos hok] at hres4 ⊢
            rw [Nat.add_comm n 1]
            exact hone.trans hres4
          · rw [if_neg hok] at hres4 ⊢
            obtain ⟨c, hc, rfl⟩ := g3.took
            refine ⟨?_, hres4.2.step hu hmk hx g3.ext hmem2 hres3 (PTE2PA_userPte hperm hpage.1) hk0⟩
            have := hres4.1
            rw [length_drop] at this
            rw [length_cons]
            omega

/-- The table with root `r` may have taken pages, but it maps what it did before. -/
structure SameMap (ld : Link) (r : Nat) (use : Nat → Use) (v : Vm) (T T' : Tab)
    (use' : Nat → Use) (l' : List Nat) (v' : Vm) : Prop where
  heap : Heap ld use' l' v'
  table : Table use' v'.mem r T'
  ext : Ext r use use' v.mem v'.mem
  pte : T'.pte = T.pte

lemma Undone.sameMap (h : Undone ld r use v T k k T' use' l' v') :
    SameMap ld r use v T T' use' l' v' := by
  have hcov : ∀ x, ¬ Covers T k (k - k) x := by
    rintro x ⟨j, h1, h2, _⟩
    omega
  refine ⟨h.heap, h.table, ⟨fun x hx => h.keep x hx (hcov x), h.fresh,
    fun x hx => h.same x hx (hcov x)⟩, ?_⟩
  rw [h.pte, Nat.sub_self, clear_zero]

lemma wp_uvmalloc {oldsz newsz xperm : Nat} (hperm : xperm < 1024) (h : Heap ld use l v)
    (ht : Table use v.mem r T) (hu : UserPages use T (pages oldsz)) (hold : oldsz < 2 ^ 38)
    (h0 : ∀ j, pages oldsz ≤ j → j < TOPPAGE → T.pte j = 0) :
    Wp (uvmalloc ld r oldsz newsz xperm) (fun sz v' => ∃ use' l' T',
      (sz = 0 ∧ SameMap ld r use v T T' use' l' v' ∧
        (newsz ≠ 0 → l.length ≤ 3 * (pages newsz - pages oldsz))) ∨
      (sz = max oldsz newsz ∧ sz ≠ 0 ∧
        Extended ld r use l v T xperm (pages oldsz) (pages sz - pages oldsz) T' use' l' v')) E v := by
  unfold uvmalloc
  by_cases hlt : newsz < oldsz
  · rw [if_pos hlt, wp_pure]
    refine ⟨use, l, T, .inr ⟨by omega, by omega, ?_⟩⟩
    rw [Nat.sub_self]
    exact .refl h ht hu xperm
  · have hrounds : rounds (pages oldsz * PGSIZE) newsz = pages newsz - pages oldsz := by
      unfold rounds pages PGSIZE
      omega
    rw [if_neg hlt, PGROUNDUP_eq (by omega)]
    dsimp only
    rw [hrounds]
    refine (wp_uvmallocLoop hperm h ht hu le_rfl h0).bind ?_
    rintro ok v1 ⟨use1, l1, T1, hres⟩
    rw [wp_pure]
    refine ⟨use1, l1, T1, ?_⟩
    by_cases hok : ok = true
    · rw [if_pos hok] at hres
      rw [if_pos hok]
      by_cases hz : newsz = 0
      · -- both sizes are 0, and the caller takes the result for a failure
        have hp : pages newsz - pages oldsz = 0 := by
          unfold pages PGSIZE
          omega
        rw [hp] at hres
        refine .inl ⟨hz, ⟨hres.heap, hres.table, ⟨hres.alloced.keep, ?_, hres.alloced.same⟩, ?_⟩,
          fun hc => absurd hz hc⟩
        · intro x hx
          rcases hres.alloced.fresh x hx with h1 | h1 | ⟨_, j, h1, h2, _⟩
          · exact .inl h1
          · exact .inr h1
          · omega
        · funext j
          exact hres.new.old j (by omega)
      · exact .inr ⟨by omega, hz, hres⟩
    · rw [if_neg hok] at hres
      rw [if_neg hok]
      exact .inl ⟨rfl, hres.2.sameMap, fun _ => hres.1⟩

end xv6.vm
