-- The address space of a process: its memory from address 0 on, the trapframe
-- and the trampoline. `proc_pagetable` makes an empty one, and
-- `proc_freepagetable` takes one down.
import Xv6.FreeTables
import Xv6.Proc

open cells linked wp List

namespace xv6.vm

variable {ld : Link} {use use' use0 : Nat → Use} {l l' : List Nat} {v v' : Vm}
  {r x i j k m n tf sz : Nat} {mem mem' mem0 : Nat → Nat → Nat} {T T' : Tab} {E : Stop → Prop}

/-! ## Taking down -/

lemma Shrunk.toFreed {S : Nat → Prop} (h : Shrunk ld r use v S T' use' l' v') :
    Freed ld use v S (fun x => ∃ pl, use x = .table r pl) use' l' v' :=
  ⟨h.heap, h.freed, h.keep, fun x h1 h2 h3 => h.same x h1 h2 fun pl hpl => h3 ⟨pl, hpl⟩⟩

lemma wp_uvmfree (h : Heap ld use l v) (ht : Table use v.mem r T)
    (hu : UserPages use T (pages sz)) (hsz : sz < 2 ^ 38) (h0 : ∀ k, pages sz ≤ k → T.pte k = 0) :
    Wp (uvmfree ld r sz) (fun _ v' => ∃ use' l', Freed ld use v
      (fun x => Covers T 0 (pages sz) x ∨ ∃ pl, use x = .table r pl) (fun _ => False) use' l' v')
      E v := by
  have hpages : PGROUNDUP sz / PGSIZE = pages sz := by
    rw [PGROUNDUP_eq (by omega)]
    exact Nat.mul_div_cancel _ (by decide)
  have hle : pages sz ≤ 2 ^ 26 := by
    unfold pages PGSIZE
    omega
  -- nothing is mapped once the memory is freed
  have hunmap : Wp (if 0 < sz then uvmunmap ld r 0 (PGROUNDUP sz / PGSIZE) true else pure ())
      (fun _ v1 => ∃ use1 l1, Shrunk ld r use v (Covers T 0 (pages sz))
        (T.clear 0 (pages sz)) use1 l1 v1) E v := by
    by_cases hpos : 0 < sz
    · rw [if_pos hpos, hpages]
      have hun : Wp (uvmunmap ld r (0 * PGSIZE) (pages sz) true) _ E v := wp_uvmunmap h ht (by omega)
        (fun k _ h2 => hu.leaf k (by omega)) (fun _ k _ h2 => hu.user k (by omega))
        (fun _ j k _ h2 _ h4 => hu.inj j k (by omega) (by omega))
      rw [Nat.zero_mul] at hun
      refine hun.imp ?_
      rintro _ v1 ⟨use1, l1, hs⟩
      exact ⟨use1, l1, hs.heap, hs.table, fun x hx => hs.freed x ⟨rfl, hx⟩,
        fun x hx => hs.keep x fun hc => hx hc.2, fun x h1 hx => hs.same x h1 fun hc => hx hc.2⟩
    · have hz : pages sz = 0 := by
        unfold pages PGSIZE
        omega
      rw [if_neg hpos, wp_pure, hz, clear_zero]
      refine ⟨use, l, h, ht, ?_, fun _ _ => rfl, fun _ _ _ _ => rfl⟩
      rintro x ⟨k, h1, h2, _⟩
      omega
  refine hunmap.bind ?_
  rintro _ v1 ⟨use1, l1, hs⟩
  have hclear : ∀ k, (T.clear 0 (pages sz)).pte k = 0 := by
    intro k
    unfold Tab.clear
    dsimp only
    by_cases hk : k < pages sz
    · rw [if_pos (by omega)]
    · rw [if_neg (by omega), h0 k (by omega)]
  refine (wp_freewalk hs.heap hs.table hclear).imp ?_
  rintro _ v2 ⟨use2, l2, hf⟩
  have hcov : ∀ x, Covers T 0 (pages sz) x → ∀ pl, use x ≠ .table r pl := by
    rintro x ⟨k, h1, h2, rfl⟩ pl
    rw [hu.user k (by omega)]
    simp
  have htab : ∀ x pl, use1 x = .table r pl ↔ use x = .table r pl := by
    intro x pl
    by_cases hc : Covers T 0 (pages sz) x
    · rw [hs.freed x hc]
      exact iff_of_false (by simp) (hcov x hc pl)
    · rw [hs.keep x hc]
  have hf' : Freed ld use1 v1 (fun x => ∃ pl, use x = .table r pl)
      (fun x => ∃ pl, use x = .table r pl) use2 l2 v2 :=
    hf.congr (fun x => by simp only [htab]) fun x hx => hx.elim
  exact ⟨use2, l2, (hs.toFreed.trans hf').congr (fun _ => Iff.rfl) fun x hx => .inr (.inr hx)⟩

/-! ## The map of a process -/

/-- What the page table of a process maps: `n` pages of memory, the trapframe `tf` and the
trampoline. -/
structure Map (ld : Link) (tf n : Nat) (T : Tab) : Prop where
  leaf : ∀ k < n, Leaf (T.pte k)
  page : ∀ k < n, IsPage ld (PTE2PA (T.pte k))
  inj : ∀ j k, j < n → k < n → PTE2PA (T.pte j) = PTE2PA (T.pte k) → j = k
  frame : T.pte TOPPAGE = PA2PTE tf ||| (PTE_R ||| PTE_W) ||| PTE_V
  trampoline : T.pte (TOPPAGE + 1) = PA2PTE ld.trampoline ||| (PTE_R ||| PTE_X) ||| PTE_V
  none : ∀ k, n ≤ k → k ≠ TOPPAGE → k ≠ TOPPAGE + 1 → T.pte k = 0

lemma Map.le (h : Map ld tf n T) : n ≤ NPAGES := le_of_pages h.page h.inj

lemma Map.userPages (h : Map ld tf n T) (hu : ∀ k < n, use (PTE2PA (T.pte k)) = .user) :
    UserPages use T n :=
  ⟨h.leaf, hu, h.inj⟩

lemma Map.extend {xperm : Nat} (h : Map ld tf n T)
    (he : Extended ld r use l v T xperm n m T' use' l' v') : Map ld tf (n + m) T' := by
  have hle := he.user.le he.heap
  have hNP : NPAGES = 32768 := rfl
  have hTOP : TOPPAGE = 67108862 := rfl
  refine ⟨he.user.leaf, fun k hk => ?_, he.user.inj, ?_, ?_, ?_⟩
  · exact he.heap.page _ (by rw [he.user.user k hk]; simp)
  · rw [he.new.old _ (by omega), h.frame]
  · rw [he.new.old _ (by omega), h.trampoline]
  · intro k hk h1 h2
    rw [he.new.old k (by omega), h.none k (by omega) h1 h2]

lemma leaf_mapped {pa perm : Nat} (hp : perm < 1024) (hr : perm &&& PTE_R ≠ 0) :
    Leaf (PA2PTE pa ||| perm ||| PTE_V) := by
  have hflags : PTE_FLAGS (PA2PTE pa ||| perm ||| PTE_V) = perm ||| PTE_V := by
    rw [Nat.or_assoc, PTE_FLAGS_or]
    exact Nat.or_lt_two_pow (n := 10) hp (by decide)
  refine ⟨?_, ?_⟩
  · rw [and_eq_flags (by decide), hflags]
    simpa using or_bit_ne_zero perm PTE_V 0 PTE_V (by decide)
  · rw [and_eq_flags (by decide), hflags]
    simpa using or_bit_ne_zero 0 perm PTE_V PTE_R hr

lemma TRAMPOLINE_eq : TRAMPOLINE = (TOPPAGE + 1) * PGSIZE := by decide

lemma TRAPFRAME_eq : TRAPFRAME = TOPPAGE * PGSIZE := by decide

lemma wp_unmapOne (h : Heap ld use l v) (ht : Table use v.mem r T) (hm : m + 1 ≤ 2 ^ 26)
    (hleaf : Leaf (T.pte m)) :
    Wp (uvmunmap ld r (m * PGSIZE) 1 false) (fun _ v' => ∃ l', Heap ld use l' v' ∧
      Table use v'.mem r (T.clear m 1) ∧
      ∀ x, use x ≠ .free → (∀ pl, use x ≠ .table r pl) → v'.mem x = v.mem x) E v := by
  refine (wp_uvmunmap h ht hm ?_ (by simp) (by simp)).imp ?_
  · intro k h1 h2
    rw [show k = m by omega]
    exact hleaf
  · rintro _ v' ⟨use', l', hs⟩
    have huse : use' = use := funext fun x => hs.keep x (by simp)
    have hheap := hs.heap
    have htab := hs.table
    rw [huse] at hheap htab
    exact ⟨l', hheap, htab, fun x h1 h2 => hs.same x h1 (by simp) h2⟩

lemma wp_proc_freepagetable (h : Heap ld use l v) (ht : Table use v.mem r T)
    (hm : Map ld tf (pages sz) T) (hu : ∀ k < pages sz, use (PTE2PA (T.pte k)) = .user) :
    Wp (proc.proc_freepagetable ld r sz) (fun _ v' => ∃ use' l', Freed ld use v
      (fun x => Covers T 0 (pages sz) x ∨ ∃ pl, use x = .table r pl) (fun _ => False) use' l' v')
      E v := by
  have hle := hm.le
  have hNP : NPAGES = 32768 := rfl
  have hTOP : TOPPAGE = 67108862 := rfl
  have hsz : sz < 2 ^ 38 := by
    unfold pages PGSIZE at hle
    omega
  unfold proc.proc_freepagetable
  rw [TRAMPOLINE_eq, TRAPFRAME_eq]
  refine (wp_unmapOne h ht (by omega) ?_).bind ?_
  · rw [hm.trampoline]
    exact leaf_mapped (by decide) (by decide)
  rintro _ v1 ⟨l1, hheap1, htab1, hsame1⟩
  refine (wp_unmapOne hheap1 htab1 (by omega) ?_).bind ?_
  · unfold Tab.clear
    dsimp only
    rw [if_neg (by omega), hm.frame]
    exact leaf_mapped (by decide) (by decide)
  rintro _ v2 ⟨l2, hheap2, htab2, hsame2⟩
  have hlow : ∀ k < pages sz, ((T.clear (TOPPAGE + 1) 1).clear TOPPAGE 1).pte k = T.pte k := by
    intro k hk
    unfold Tab.clear
    dsimp only
    rw [if_neg (by omega), if_neg (by omega)]
  have hu2 : UserPages use ((T.clear (TOPPAGE + 1) 1).clear TOPPAGE 1) (pages sz) :=
    (hm.userPages hu).congr hlow fun _ => id
  refine (wp_uvmfree hheap2 htab2 hu2 hsz ?_).imp ?_
  · intro k hk
    unfold Tab.clear
    dsimp only
    by_cases h1 : k = TOPPAGE
    · rw [if_pos (by omega)]
    · by_cases h2 : k = TOPPAGE + 1
      · rw [if_neg (by omega), if_pos (by omega)]
      · rw [if_neg (by omega), if_neg (by omega), hm.none k hk h1 h2]
  · rintro _ v3 ⟨use3, l3, hf⟩
    have hcov : ∀ x, Covers ((T.clear (TOPPAGE + 1) 1).clear TOPPAGE 1) 0 (pages sz) x ↔
        Covers T 0 (pages sz) x := by
      intro x
      constructor
      · rintro ⟨k, h1, h2, rfl⟩
        exact ⟨k, h1, h2, by rw [hlow k (by omega)]⟩
      · rintro ⟨k, h1, h2, rfl⟩
        exact ⟨k, h1, h2, by rw [hlow k (by omega)]⟩
    refine ⟨use3, l3, hf.heap, fun x hx => hf.freed x ?_, fun x hx => hf.keep x ?_,
      fun x h1 h2 h3 => ?_⟩
    · rwa [hcov]
    · rwa [hcov]
    · have hnt : ∀ pl, use x ≠ .table r pl := fun pl hpl => h2 (.inr ⟨pl, hpl⟩)
      rw [hf.same x h1 (by rwa [hcov]) h3, hsame2 x h1 hnt, hsame1 x h1 hnt]

/-! ## Building -/

def Rooted (use : Nat → Use) : Prop := ∀ x r pl, use x = .table r pl → use r = .table r .root

/-- The page table with root `r` and the memory it maps are built from free pages; apart from
that the uses are `use0` and the memory is `mem0`. -/
structure Built (ld : Link) (use0 : Nat → Use) (mem0 : Nat → Nat → Nat) (r tf n : Nat)
    (T : Tab) (use : Nat → Use) (l : List Nat) (v : Vm) : Prop where
  heap : Heap ld use l v
  table : Table use v.mem r T
  map : Map ld tf n T
  user : ∀ k < n, use (PTE2PA (T.pte k)) = .user
  alloced : Alloced r use0 use mem0 v.mem T 0 n
  unused : ∀ x pl, use0 x ≠ .table r pl

lemma Alloced.undo (h : Alloced r use0 use mem0 v.mem T 0 n) (hun : ∀ x pl, use0 x ≠ .table r pl)
    (hnew : ∀ k < n, use0 (PTE2PA (T.pte k)) = .free)
    (hf : Freed ld use v (fun x => Covers T 0 n x ∨ ∃ pl, use x = .table r pl) (fun _ => False)
      use' l' v') :
    Heap ld use0 l' v' ∧ ∀ x, use0 x ≠ .free → v'.mem x = mem0 x := by
  have hold : ∀ x, use0 x ≠ .free → ¬ (Covers T 0 n x ∨ ∃ pl, use x = .table r pl) := by
    rintro x hx (⟨k, _, hk, rfl⟩ | ⟨pl, hpl⟩)
    · exact hx (hnew k (by omega))
    · rw [h.keep x hx] at hpl
      exact hun x pl hpl
  have huse : use' = use0 := by
    funext x
    by_cases hx : use0 x = .free
    · rw [hx]
      by_cases hc : Covers T 0 n x ∨ ∃ pl, use x = .table r pl
      · exact hf.freed x hc
      · rw [hf.keep x hc]
        rcases h.fresh x hx with h1 | h1 | ⟨_, h1⟩
        · exact h1
        · exact absurd (.inr h1) hc
        · exact absurd (.inl h1) hc
    · rw [hf.keep x (hold x hx), h.keep x hx]
  refine ⟨huse ▸ hf.heap, fun x hx => ?_⟩
  rw [hf.same x (by rw [h.keep x hx]; exact hx) (hold x hx) not_false, h.same x hx (hun x)]

lemma Ext.ofRoot {mem1 : Nat → Nat → Nat} (h : Ext r (put use r (.table r .root)) use' mem1 mem')
    (hr : use r = .free) (hmem : ∀ x, x ≠ r → mem1 x = mem x) : Ext r use use' mem mem' := by
  have hne : ∀ x, use x ≠ .free → x ≠ r := by
    rintro x hx rfl
    exact hx hr
  refine ⟨fun x hx => ?_, fun x hx => ?_, fun x hx ht => ?_⟩
  · have := h.keep x (by rw [put_of_ne (hne x hx)]; exact hx)
    rwa [put_of_ne (hne x hx)] at this
  · by_cases hxr : x = r
    · refine .inr ⟨.root, ?_⟩
      rw [hxr, h.keep r (by rw [put_self]; simp), put_self]
    · exact h.fresh x (by rw [put_of_ne hxr]; exact hx)
  · have hxr := hne x hx
    rw [h.same x (by rw [put_of_ne hxr]; exact hx) (by rw [put_of_ne hxr]; exact ht), hmem x hxr]

def Tab.empty : Tab where
  mid := fun _ => 0
  low := fun _ _ => 0
  pte := fun _ => 0

lemma table_empty (hr : r ≠ 0) (huse : ∀ x pl, use x = .table r pl ↔ x = r ∧ pl = .root)
    (hmem : mem r = fun _ => 0) : Table use mem r Tab.empty := by
  have hat : ∀ pl, Tab.empty.at r pl ≠ 0 → pl = .root := by
    rintro (_ | i | ⟨i, j⟩) h0
    · rfl
    · exact absurd rfl h0
    · exact absurd rfl h0
  refine ⟨?_, ?_, hr, ?_, ?_, ?_, ?_⟩
  · intro pl h0
    obtain rfl := hat pl h0
    exact (huse r .root).mpr ⟨rfl, rfl⟩
  · intro x pl hx
    obtain ⟨rfl, rfl⟩ := (huse x pl).mp hx
    exact ⟨hr, rfl⟩
  · intro pl h0 k _
    obtain rfl := hat pl h0
    show mem r k = 0
    rw [hmem]
  · exact fun i h0 => absurd rfl h0
  · exact fun i j h0 => absurd rfl h0
  · exact fun n h0 => absurd rfl h0

lemma wp_uvmcreate (h : Heap ld use l v) (hroot : Rooted use) :
    Wp uvmcreate (fun r v' => (r = 0 ∧ l = [] ∧ v' = v) ∨ (r ≠ 0 ∧ use r = .free ∧
      Grown ld r (put use r (.table r .root)) l.tail v' 0 Tab.empty (put use r (.table r .root))
        l.tail v' ∧ l ≠ [] ∧ ∀ x, x ≠ r → v'.mem x = v.mem x)) E v := by
  refine (wp_kalloc h).bind ?_
  rintro r v1 (⟨rfl, rfl, rfl⟩ | ⟨l1, rfl, hr, hpage, hmem, hheap⟩)
  · rw [if_pos rfl, wp_pure]
    exact .inl ⟨rfl, rfl, rfl⟩
  · rw [if_neg hpage.ne_zero, wp_memset_bind hpage.inRam, wp_pure]
    have hheap1 := (hheap (.table r .root) (by simp)).putPage (x := r) (by rw [put_self]; simp)
      (fun _ => 0 * 0x0101010101010101)
    refine .inr ⟨hpage.ne_zero, hr, .refl hheap1 ?_ 0, by simp, fun x hx => ?_⟩
    · refine table_empty hpage.ne_zero (fun x pl => ?_) ?_
      · by_cases hx : x = r
        · rw [hx, put_self]
          simp
          exact eq_comm
        · rw [put_of_ne hx]
          refine iff_of_false ?_ fun hc => hx hc.1
          intro hc
          rw [hroot x r pl hc] at hr
          cases hr
      · rw [putPage_self]
    · rw [putPage_of_ne hx, hmem x hx]

lemma wp_uvmfree_undo (h : Heap ld use l v) (ht : Table use v.mem r T) (h0 : ∀ k, T.pte k = 0)
    (he : Ext r use0 use mem0 v.mem) (hun : ∀ x pl, use0 x ≠ .table r pl) :
    Wp (uvmfree ld r 0) (fun _ v' => ∃ l', Heap ld use0 l' v' ∧
      ∀ x, use0 x ≠ .free → v'.mem x = mem0 x) E v := by
  have hnil : pages 0 = 0 := by decide
  refine Wp.imp (wp_uvmfree h ht ?_ (by omega) fun k _ => h0 k) ?_
  · rw [hnil]
    exact ⟨by simp, by simp, by simp⟩
  · rintro _ v' ⟨use', l', hf⟩
    rw [hnil] at hf
    exact ⟨l', (he.alloced T 0 0).undo hun (by simp) hf⟩

lemma wp_proc_pagetable (h : Heap ld use l v) (hroot : Rooted use) (tf : Nat) :
    Wp (proc.proc_pagetable ld tf) (fun r v' =>
      (r = 0 ∧ l.length ≤ 5 ∧ ∃ l', Heap ld use l' v' ∧ ∀ x, use x ≠ .free → v'.mem x = v.mem x) ∨
      (r ≠ 0 ∧ use r = .free ∧ ∃ T' use' l', Built ld use v.mem r tf 0 T' use' l' v' ∧
        ∃ c ≤ 5, l' = l.drop c)) E v := by
  have hTOP : TOPPAGE = 67108862 := rfl
  have hdiv : ∀ n, n * PGSIZE / PGSIZE = n := fun n => Nat.mul_div_cancel n (by decide)
  refine (wp_uvmcreate h hroot).bind ?_
  rintro r v1 (⟨rfl, rfl, rfl⟩ | ⟨hr0, hr, g1, hl, hmem1⟩)
  · rw [if_pos rfl, wp_pure]
    exact .inl ⟨rfl, by simp, [], h, fun _ _ => rfl⟩
  have hun : ∀ x pl, use x ≠ .table r pl := by
    intro x pl hx
    rw [hroot x r pl hx] at hr
    cases hr
  rw [if_neg hr0, TRAMPOLINE_eq, TRAPFRAME_eq]
  refine (wp_mappages g1.heap g1.table (by decide) (Nat.mul_mod_left ..) rfl).bind ?_
  rintro (_ | _) v2 ⟨use2, l2, T2, g2, hres2⟩
  · obtain ⟨rfl, hpte2⟩ := hres2
    rw [if_pos rfl]
    refine (wp_uvmfree_undo g2.heap g2.table (fun k => by rw [hpte2]; rfl)
      (g2.ext.ofRoot hr hmem1) hun).bind ?_
    rintro _ v3 ⟨l3, hheap3, hmem3⟩
    rw [wp_pure]
    refine .inl ⟨rfl, ?_, l3, hheap3, hmem3⟩
    obtain ⟨c, hc, hdrop⟩ := g2.took
    have hlen := congrArg List.length hdrop
    rw [length_nil, length_drop, length_tail] at hlen
    omega
  · dsimp only at hres2
    rw [hdiv] at hres2
    rw [if_neg (by simp)]
    have htop : T2.pte TOPPAGE = 0 := by
      rw [hres2, put_of_ne (by omega)]
      rfl
    refine (wp_mappages g2.heap g2.table (by decide) (Nat.mul_mod_left ..)
      (by rw [hdiv]; exact htop)).bind ?_
    rintro (_ | _) v3 ⟨use3, l3, T3, g3, hres3⟩
    · obtain ⟨rfl, hpte3⟩ := hres3
      rw [if_pos rfl]
      refine (wp_unmapOne g3.heap g3.table (by omega) ?_).bind ?_
      · rw [hpte3, hres2, put_self]
        exact leaf_mapped (by decide) (by decide)
      rintro _ v4 ⟨l4, hheap4, htab4, hmem4⟩
      have hext3 : Ext r use use3 v.mem v3.mem := (g2.trans g3).ext.ofRoot hr hmem1
      have hext4 : Ext r use use3 v.mem v4.mem := by
        refine ⟨hext3.keep, hext3.fresh, fun x hx hxt => ?_⟩
        have hkeep := hext3.keep x hx
        rw [hmem4 x (by rw [hkeep]; exact hx) (by rw [hkeep]; exact hxt), hext3.same x hx hxt]
      refine (wp_uvmfree_undo hheap4 htab4 ?_ hext4 hun).bind ?_
      · intro k
        unfold Tab.clear
        dsimp only
        rw [hpte3, hres2]
        by_cases hk : k = TOPPAGE + 1
        · rw [if_pos (by omega)]
        · rw [if_neg (by omega), put_of_ne hk]
          rfl
      rintro _ v5 ⟨l5, hheap5, hmem5⟩
      rw [wp_pure]
      refine .inl ⟨rfl, ?_, l5, hheap5, hmem5⟩
      obtain ⟨c, hc, hdrop⟩ := (g2.trans g3).took
      have hlen := congrArg List.length hdrop
      rw [length_nil, length_drop, length_tail] at hlen
      omega
    · dsimp only at hres3
      rw [hdiv] at hres3
      rw [if_neg (by simp), wp_pure]
      have g := g2.trans g3
      refine .inr ⟨hr0, hr, T3, use3, l3, ⟨g.heap, g.table, ⟨by simp, by simp, by simp, ?_, ?_, ?_⟩,
        by simp, (g.ext.ofRoot hr hmem1).alloced T3 0 0, hun⟩, ?_⟩
      · rw [hres3, put_self]
      · rw [hres3, put_of_ne (by omega), hres2, put_self]
      · intro k _ h1 h2
        rw [hres3, put_of_ne h1, hres2, put_of_ne h2]
        rfl
      · obtain ⟨c, hc, rfl⟩ := g.took
        refine ⟨1 + c, by omega, ?_⟩
        rw [← drop_one, drop_drop]

end xv6.vm
