-- The kernel reaches into the memory of a process: `walkaddr` finds a page by
-- its address, and `copyout` only writes pages that the process can use.
import Xv6.AddressSpace

open cells linked wp

namespace xv6.vm

variable {ld : Link} {use : Nat → Use} {l : List Nat} {v v' v'' : Vm} {r x k n tf va : Nat}
  {T : Tab} {E : Stop → Prop} {S : Nat → Prop}

/-! ## Writes to some pages -/

/-- Only pages in `S` were written. -/
structure Touched (S : Nat → Prop) (v v' : Vm) : Prop where
  freelist : v'.freelist = v.freelist
  same : ∀ x, ¬ S x → v'.mem x = v.mem x

lemma Touched.refl (S : Nat → Prop) (v : Vm) : Touched S v v := ⟨rfl, fun _ _ => rfl⟩

lemma Touched.trans (h : Touched S v v') (h' : Touched S v' v'') : Touched S v v'' :=
  ⟨h'.freelist.trans h.freelist, fun x hx => (h'.same x hx).trans (h.same x hx)⟩

lemma touched_putPage (hx : S x) (v : Vm) (f : Nat → Nat) : Touched S v (v.putPage x f) := by
  refine ⟨rfl, fun y hy => putPage_of_ne ?_ f⟩
  rintro rfl
  exact hy hx

lemma Heap.touched (h : Heap ld use l v) (ht : Touched S v v') (hS : ∀ x, S x → use x ≠ .free) :
    Heap ld use l v' :=
  h.congr ht.freelist fun x hx => by rw [ht.same x fun hs => hS x hs hx]

lemma Table.touched (h : Table use v.mem r T) (ht : Touched S v v')
    (hS : ∀ x, S x → ∀ pl, use x ≠ .table r pl) : Table use v'.mem r T :=
  h.congr (fun _ _ => Iff.rfl) fun x pl hx => ht.same x fun hs => hS x hs pl hx

/-! ## `walkaddr` and `copyout` -/

lemma wp_walkaddr (h : Heap ld use l v) (ht : Table use v.mem r T) (va : Nat) :
    Wp (walkaddr r va) (fun pa v' => v' = v ∧
      pa = if va < MAXVA ∧ T.pte (va / PGSIZE) &&& PTE_V ≠ 0 ∧ T.pte (va / PGSIZE) &&& PTE_U ≠ 0
        then PTE2PA (T.pte (va / PGSIZE)) else 0) E v := by
  unfold walkaddr
  by_cases hva : MAXVA ≤ va
  · rw [if_pos hva, wp_pure, if_neg (by omega)]
    exact ⟨rfl, rfl⟩
  rw [if_neg hva]
  refine (wp_walk_find h ht (by omega)).bind ?_
  rintro o v1 ⟨rfl, rfl⟩
  by_cases hlow : T.low (va / PGSIZE / 2 ^ 18) (va / PGSIZE / 2 ^ 9 % 512) = 0
  · have hpte : T.pte (va / PGSIZE) = 0 := by
      by_contra h0
      exact (ht.pte_low _ h0).2 hlow
    rw [if_pos hlow]
    rw [wp_pure, hpte, if_neg (by simp)]
    exact ⟨rfl, rfl⟩
  · have hpage : IsPage ld (T.low (va / PGSIZE / 2 ^ 18) (va / PGSIZE / 2 ^ 9 % 512)) :=
      ht.page (o := .low _ _) h hlow
    rw [if_neg hlow]
    rw [wp_load_bind hpage.inRam, ht.pte_word hlow]
    by_cases hV : T.pte (va / PGSIZE) &&& PTE_V = 0
    · rw [if_pos hV, wp_pure, if_neg (by tauto)]
      exact ⟨rfl, rfl⟩
    · by_cases hU : T.pte (va / PGSIZE) &&& PTE_U = 0
      · rw [if_neg hV, if_pos hU, wp_pure, if_neg (by tauto)]
        exact ⟨rfl, rfl⟩
      · rw [if_neg hV, if_neg hU, wp_pure, if_pos ⟨by omega, hV, hU⟩]
        exact ⟨rfl, rfl⟩

lemma Map.user_lt (hm : Map ld tf n T) (hU : T.pte k &&& PTE_U ≠ 0) : k < n := by
  by_contra hk
  have hframe : ∀ pa, (PA2PTE pa ||| (PTE_R ||| PTE_W) ||| PTE_V) &&& PTE_U = 0 := by
    intro pa
    rw [and_eq_flags (by decide), Nat.or_assoc, PTE_FLAGS_or (by decide)]
    decide
  have htramp : ∀ pa, (PA2PTE pa ||| (PTE_R ||| PTE_X) ||| PTE_V) &&& PTE_U = 0 := by
    intro pa
    rw [and_eq_flags (by decide), Nat.or_assoc, PTE_FLAGS_or (by decide)]
    decide
  by_cases h1 : k = TOPPAGE
  · rw [h1, hm.frame] at hU
    exact hU (hframe _)
  · by_cases h2 : k = TOPPAGE + 1
    · rw [h2, hm.trampoline] at hU
      exact hU (htramp _)
    · rw [hm.none k (by omega) h1 h2, Nat.zero_and] at hU
      exact hU rfl

section

variable (h : Heap ld use l v) (ht : Table use v.mem r T) (hm : Map ld tf n T)
  (hu : ∀ k < n, use (PTE2PA (T.pte k)) = .user)
include h ht hm hu

lemma wp_copyoutLoop (fuel va : Nat) (src : List UInt8) :
    Wp (copyoutLoop r fuel va src) (fun _ v' => Touched (Covers T 0 n) v v') E v := by
  have hcov : ∀ x, Covers T 0 n x → use x = .user := by
    rintro x ⟨k, _, h2, rfl⟩
    exact hu k (by omega)
  induction fuel generalizing v va src with
  | zero =>
    unfold copyoutLoop
    rw [wp_pure]
    exact .refl ..
  | succ fuel ih =>
    apply wp_ite <;> intro _
    · rw [wp_pure]
      exact .refl ..
    refine (wp_walkaddr h ht _).bind ?_
    rintro pa v1 ⟨rfl, hpa⟩
    apply wp_ite <;> intro hne
    · rw [wp_pure]
      exact .refl ..
    · have hc : PGROUNDDOWN va < MAXVA ∧ T.pte (PGROUNDDOWN va / PGSIZE) &&& PTE_V ≠ 0 ∧
          T.pte (PGROUNDDOWN va / PGSIZE) &&& PTE_U ≠ 0 := by
        by_contra hc
        rw [if_neg hc] at hpa
        exact hne hpa
      rw [if_pos hc] at hpa
      have hlt := hm.user_lt hc.2.2
      have hcpa : Covers T 0 n pa := ⟨_, Nat.zero_le _, by omega, hpa.symm⟩
      have hpage : IsPage ld pa := h.page pa (by rw [hcov pa hcpa]; simp)
      rw [wp_bind, wp_poke hpage.inRam]
      have htouch := touched_putPage hcpa v1
        (patch (v1.mem pa) (va - PGROUNDDOWN va)
          (src.take (min (PGSIZE - (va - PGROUNDDOWN va)) src.length)))
      refine (ih (h.touched htouch fun x hx => ?_) (ht.touched htouch fun x hx => ?_) _ _).imp ?_
      · rw [hcov x hx]
        simp
      · rw [hcov x hx]
        simp
      · exact fun _ v2 h2 => htouch.trans h2

lemma wp_copyout (va : Nat) (src : List UInt8) :
    Wp (copyout r va src) (fun _ v' => Touched (Covers T 0 n) v v') E v :=
  wp_copyoutLoop h ht hm hu _ va src

end

/-! ## `uvmclear` -/

def clearUser (w : Nat) : Nat := w &&& (2 ^ 64 - 1 - PTE_U)

lemma Leaf.clearUser {w : Nat} (h : Leaf w) : Leaf (clearUser w) := by
  unfold vm.clearUser
  refine ⟨?_, ?_⟩
  · rw [Nat.and_assoc]
    exact h.1
  · rw [Nat.and_assoc]
    exact h.2

lemma clearUser_and_user (w : Nat) : clearUser w &&& PTE_U = 0 := by
  unfold clearUser
  rw [Nat.and_assoc]
  exact Nat.and_zero w

lemma PTE2PA_clearUser {w : Nat} (h : w < 2 ^ 64) : PTE2PA (clearUser w) = PTE2PA w := by
  unfold PTE2PA clearUser
  rw [Nat.shiftRight_and_distrib, show (2 ^ 64 - 1 - PTE_U) >>> 10 = 2 ^ 54 - 1 by decide,
    Nat.and_two_pow_sub_one_eq_mod, Nat.mod_eq_of_lt]
  rw [Nat.shiftRight_eq_div_pow]
  omega

lemma wp_uvmclear (h : Heap ld use l v) (ht : Table use v.mem r T)
    (hpte : (∀ e, E e) ∨ va < MAXVA ∧ T.pte (va / PGSIZE) ≠ 0) :
    Wp (uvmclear r va) (fun _ v' => va < MAXVA ∧ Heap ld use l v' ∧
      Table use v'.mem r { T with pte := put T.pte (va / PGSIZE) (clearUser (T.pte (va / PGSIZE))) } ∧
      ∀ x, (∀ pl, use x ≠ .table r pl) → v'.mem x = v.mem x) E v := by
  unfold uvmclear
  by_cases hva : MAXVA ≤ va
  · have hE : ∀ e, E e := hpte.resolve_right fun hc => absurd hc.1 (Nat.not_lt.mpr hva)
    unfold walk
    rw [if_pos hva]
    exact wp_bind.mpr ((wp_throw _).mpr (hE _))
  · have hlt : va / PGSIZE < 2 ^ 27 := by
      unfold MAXVA at hva
      unfold PGSIZE
      omega
    refine (wp_walk_find h ht (Nat.lt_of_not_le hva)).bind ?_
    rintro o v1 ⟨rfl, rfl⟩
    by_cases hlow : T.low (va / PGSIZE / 2 ^ 18) (va / PGSIZE / 2 ^ 9 % 512) = 0
    · have hE : ∀ e, E e := hpte.resolve_right fun hc => (ht.pte_low _ hc.2).2 hlow
      rw [if_pos hlow]
      exact (wp_throw _).mpr (hE _)
    · have hpage : IsPage ld (T.low (va / PGSIZE / 2 ^ 18) (va / PGSIZE / 2 ^ 9 % 512)) :=
        ht.page (o := .low _ _) h hlow
      have huse : use (T.low (va / PGSIZE / 2 ^ 18) (va / PGSIZE / 2 ^ 9 % 512)) =
          .table r (.low _ _) := ht.use_at (.low _ _) hlow
      rw [if_neg hlow]
      rw [wp_load_bind hpage.inRam, ht.pte_word hlow, wp_store hpage.inRam]
      refine ⟨Nat.lt_of_not_le hva, h.putPage (by rw [huse]; simp) _, ?_,
        fun x hx => putPage_of_ne ?_ _⟩
      · exact ht.setPte hlt hlow _ (putPage_self _) fun y hy => putPage_of_ne hy _
      · rintro rfl
        exact hx _ huse

end xv6.vm
