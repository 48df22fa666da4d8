-- The boot: the free list is made, the kernel takes its pages, and the first
-- process gets an address space with one page of code.
import Xv6.ProcCalls

open cells linked wp List

namespace xv6.proc

open vm

variable {ld : Link} {use use' : Nat → Use} {l l' : List Nat} {tab : Nat → Tab} {v v' : Vm}
  {r k n x : Nat} {T T' : Tab} {s t : Sys} {E : Stop → Prop}

/-! ## The free list -/

lemma isPage_iff (ld : Link) (y : Nat) :
    IsPage ld y ↔ ∃ j < pagesAtBoot ld, PGROUNDUP ld.kend + j * PGSIZE = y := by
  have hbelow := ld.below
  have hP : PHYSTOP = 2281701376 := rfl
  have hG : PGSIZE = 4096 := rfl
  have hge : ld.kend ≤ pages ld.kend * PGSIZE ∧ pages ld.kend * PGSIZE < ld.kend + PGSIZE := by
    unfold pages
    rw [hG]
    omega
  unfold IsPage pagesAtBoot
  rw [PGROUNDUP_eq (show ld.kend < _ by omega)]
  generalize pages ld.kend = k at hge
  rw [hG] at hge ⊢
  constructor
  · rintro ⟨h1, h2, h3⟩
    exact ⟨(y - k * 4096) / 4096, by omega, by omega⟩
  · rintro ⟨j, h1, rfl⟩
    exact ⟨by omega, by omega, by omega⟩

lemma wp_kinit {mem : Nat → Nat → Nat} :
    Wp (kinit ld) (fun _ v' => ∃ use l, Heap ld use l v' ∧ l.length = pagesAtBoot ld ∧
      (∀ y, IsPage ld y → use y = .free) ∧ ∀ y, ¬ IsPage ld y → use y = .none) E
      { mem := mem, freelist := 0 } := by
  refine (wp_freerangeLoop (heap_empty ld mem) fun j hj => ⟨(isPage_iff ld _).mpr ⟨j, hj, rfl⟩, rfl⟩).imp ?_
  rintro _ v' ⟨use', l', hheap, hlen, hfree, _⟩
  refine ⟨use', l', hheap, by rw [hlen]; exact Nat.zero_add _, fun y hy => ?_, fun y hy => ?_⟩
  · obtain ⟨j, hj, rfl⟩ := (isPage_iff ld y).mp hy
    exact hfree j hj
  · by_contra hc
    exact hy (hheap.page y hc)

/-! ## The pages of the kernel -/

/-- The memory before there is a process: a page is free, or the kernel has it. -/
structure Fresh (ld : Link) (use : Nat → Use) (l : List Nat) (s : Sys) : Prop where
  heap : Heap ld use l s.vm
  known : ∀ y, IsPage ld y → use y ≠ .none
  kinds : ∀ y, use y = .none ∨ use y = .free ∨ use y = .kernel
  kernel : ∀ y, use y = .kernel ↔ y ∈ s.kernel
  slots : s.proc = fun _ => Proc.zero

lemma Fresh.inv (h : Fresh ld use l s) : Inv ld use l (fun _ => Tab.empty) s.vm s.proc := by
  rw [h.slots]
  refine ⟨h.heap, fun y r pl hy => ?_, fun p _ => rfl, fun p _ => rfl, fun p hp => absurd rfl hp,
    fun p q hp => absurd rfl hp, fun p q _ hp => absurd rfl hp.1⟩
  have := h.kinds y
  rw [hy] at this
  simp at this

lemma Fresh.noLeak (h : Fresh ld use l s) :
    NoLeak ld s.kernel use (fun _ => Tab.empty) s.proc := by
  have hno : ∀ y u, use y = u → u = .none ∨ u = .free ∨ u = .kernel := by
    rintro y u rfl
    exact h.kinds y
  rw [h.slots]
  refine ⟨h.known, fun y hy => ?_, h.kernel, fun y r pl hy => ?_, fun y p hy => ?_, fun y hy => ?_,
    fun p _ => rfl⟩
  · simpa using hno y _ hy
  · simpa using hno y _ hy
  · simpa using hno y _ hy
  · simpa using hno y _ hy

lemma wp_takePages (h : Fresh ld use l s) (hE : l.length < n → E (.panic "kalloc")) :
    Wp (takePages n) (fun _ t => ∃ use', Fresh ld use' (l.drop n) t ∧ ∃ v K,
      t = { s with vm := v, kernel := K }) E s := by
  induction n generalizing s use l with
  | zero =>
    unfold takePages
    rw [wp_pure]
    exact ⟨use, h, s.vm, s.kernel, rfl⟩
  | succ n ih =>
    unfold takePages
    rw [wp_bind, wp_onVm]
    refine (wp_kalloc h.heap).imp ?_
    rintro x v1 (⟨rfl, rfl, rfl⟩ | ⟨l1, rfl, hx, hpage, _, hheap⟩)
    · rw [if_pos rfl, wp_throw]
      exact hE (by simp)
    · rw [if_neg hpage.ne_zero, wp_modify_bind]
      have h1 : Fresh ld (put use x .kernel) l1 { s with vm := v1, kernel := x :: s.kernel } := by
        refine ⟨hheap .kernel (by simp), fun y hy => ?_, fun y => ?_, fun y => ?_, h.slots⟩
        · by_cases hyx : y = x
          · rw [hyx, put_self]
            simp
          · rw [put_of_ne hyx]
            exact h.known y hy
        · by_cases hyx : y = x
          · rw [hyx, put_self]
            simp
          · rw [put_of_ne hyx]
            exact h.kinds y
        · rw [mem_cons]
          by_cases hyx : y = x
          · rw [hyx, put_self]
            simp
          · rw [put_of_ne hyx, h.kernel y]
            exact ⟨.inr, fun hc => hc.resolve_left hyx⟩
      refine (ih h1 fun hlt => hE (by rw [length_cons]; omega)).imp ?_
      rintro _ t ⟨use2, h2, v2, K, rfl⟩
      rw [drop_succ_cons]
      exact ⟨use2, h2, v2, K, rfl⟩

/-! ## The first process -/

lemma Extended.putPage {xperm : Nat}
    (h : Extended ld r use l v T xperm k n T' use' l' v') (hx : use x = .free)
    (hx' : use' x = .user) (f : Nat → Nat) :
    Extended ld r use l v T xperm k n T' use' l' (v'.putPage x f) := by
  refine ⟨h.heap.putPage (by rw [hx']; simp) f, h.table.putPage (by rw [hx']; simp) f, h.user, h.new,
    ⟨h.alloced.keep, h.alloced.fresh, fun y hy ht => ?_⟩, h.took⟩
  rw [putPage_of_ne, h.alloced.same y hy ht]
  rintro rfl
  exact hy hx

lemma wp_uvmfirst {src : List UInt8} (h : Heap ld use l v) (ht : Table use v.mem r T)
    (h0 : T.pte 0 = 0) (hlen : 4 ≤ l.length)
    (hE : PGSIZE ≤ src.length → E (.panic "uvmfirst: more than a page")) :
    Wp (uvmfirst r src) (fun _ v' => ∃ T' use' l',
      Extended ld r use l v T (PTE_W ||| PTE_X) 0 1 T' use' l' v') E v := by
  refine wp_ite (fun hs => (wp_throw _).mpr (hE hs)) (fun _ => ?_)
  refine (wp_kalloc h).bind ?_
  rintro x v1 (⟨rfl, rfl, rfl⟩ | ⟨l1, rfl, hx, hpage, hmem1, hheap1⟩)
  · exact absurd hlen (by simp)
  rw [wp_memset_bind hpage.inRam]
  obtain ⟨hheap2, hmem2, htab2⟩ := ht.newPage hx hmem1 hheap1 fun _ => 0 * 0x0101010101010101
  generalize v1.putPage x (fun _ => 0 * 0x0101010101010101) = v2 at *
  refine (wp_mappages hheap2 htab2 (by decide) (by decide) h0).bind ?_
  rintro (_ | _) v3 ⟨use3, l3, T3, g3, hres3⟩
  · -- more pages were left than the tables can take
    obtain ⟨c, hc, hdrop⟩ := g3.took
    have hl := congrArg List.length hdrop
    rw [hres3.1, length_drop] at hl
    rw [length_cons] at hlen
    rw [length_nil] at hl
    omega
  · have hnone : UserPages use T 0 := ⟨by simp, by simp, by simp⟩
    have hone := Extended.one (v := v) (by decide : PTE_W ||| PTE_X < 1024) hnone hx hpage hmem2 g3
      hres3
    rw [wp_poke hpage.inRam]
    refine ⟨T3, use3, l3, Extended.putPage hone hx ?_ _⟩
    rw [g3.ext.keep x (by rw [put_self]; simp), put_self]

/-- The first process after the boot. -/
def firstProc (pid : Int) (tf r : Nat) : Proc :=
  { Proc.zero with
    state := .RUNNABLE
    pid := pid
    sz := PGSIZE
    pagetable := r
    trapframe := tf
    name := [105, 110, 105, 116, 99, 111, 100, 101] }

/-- The state after the boot: one process, in the slot that `initproc` names, and all other
pages that are not the kernel's are free. -/
structure Booted (ld : Link) (s : Sys) : Prop where
  lt : s.initproc < NPROC
  slots : ∃ tf r, s.proc = put (fun _ => Proc.zero) s.initproc (firstProc 1 tf r)
  pid : s.nextpid = 2
  globals : s.globals = { (start s.vm.mem).globals with initproc := s.initproc, kernel := s.kernel }
  inv : ∃ use l tab, Inv ld use l tab s.vm s.proc ∧ NoLeak ld s.kernel use tab s.proc

lemma wp_userinit {initcode : List UInt8} (hE : LockStops E) (h : Fresh ld use l s)
    (hlen : 10 ≤ l.length)
    (hcode : PGSIZE ≤ initcode.length → E (.panic "uvmfirst: more than a page")) :
    Wp (userinit ld initcode) (fun _ t => ∃ p tf r, p < NPROC ∧
      t.globals = { s.globals with initproc := p } ∧ t.nextpid = int32 (s.nextpid + 1) ∧
      t.proc = put s.proc p (firstProc s.nextpid tf r) ∧ ∃ use' l' tab',
        Inv ld use' l' tab' t.vm t.proc ∧ NoLeak ld t.kernel use' tab' t.proc ∧
        ∃ c ≤ 9, l' = l.drop c) E s := by
  have hI := h.inv
  refine (wp_allocproc hE hI).bind ?_
  rintro (_ | p) t1 ⟨hg1, h1⟩
  · obtain ⟨_, _, hno, _⟩ := h1
    rcases hno with hno | hno
    · omega
    · refine absurd ?_ (hno 0 (by decide))
      rw [h.slots]
      rfl
  obtain ⟨hlt, hun, hpid1, tf, r, _, _, hproc1, T1, use1, l1, hI1, he1, c, hc, rfl⟩ := h1
  have hzero : s.proc p = Proc.zero := by rw [h.slots]
  have hp1 : t1.proc p = (Proc.zero).taken s.nextpid tf r := by
    rw [hproc1, put_self, hzero]
  have hL1 : NoLeak ld s.kernel use1 (put (fun _ => Tab.empty) p T1) t1.proc := by
    rw [hproc1]
    exact h.noLeak.effect he1 not_false fun hc => by cases hc
  have hused : Holds (t1.proc p) := by
    rw [hp1]
    exact .of_used rfl
  have hsz0 : pages (t1.proc p).sz = 0 := by
    rw [hp1]
    show pages 0 = 0
    decide
  have hs1 := hI1.active p hused.1
  rw [wp_modify_bind, wp_get_bind, wp_bind, wp_onVm]
  refine (wp_uvmfirst hI1.heap hs1.table ?_ ?_ hcode).imp ?_
  · exact hs1.map.none 0 (by omega) (by decide) (by decide)
  · rw [length_drop]
    omega
  rintro _ v2 ⟨T2, use2, l2, hex⟩
  rw [← hsz0] at hex
  have hpsz : pages PGSIZE = pages (t1.proc p).sz + 1 := by
    rw [hsz0]
    decide
  obtain ⟨hI2, he2⟩ := hI1.extended (by decide) hused hex hpsz
  have hL2 := hL1.effect he2 not_false fun hc => absurd hc hused.1
  obtain ⟨c2, hc2, hl2⟩ := hex.took
  rw [wp_modifyProc_bind]
  generalize hproc2 : put t1.proc p { t1.proc p with sz := PGSIZE } = proc2 at *
  have hp2 : proc2 p = { (Proc.zero).taken s.nextpid tf r with sz := PGSIZE } := by
    rw [← hproc2, put_self, hp1]
  have hne2 : (proc2 p).state ≠ .UNUSED := by
    rw [hp2]
    simp [Proc.taken]
  rw [wp_bind, wp_onVm]
  refine (wp_storeFrame hI2 hne2 (by rw [hp2, hp1])).imp ?_
  rintro _ v3 ⟨hI3, _⟩
  rw [wp_bind, wp_onVm]
  refine (wp_storeFrame hI3 hne2 (by rw [hp2, hp1])).imp ?_
  rintro _ v4 ⟨hI4, _⟩
  rw [wp_modifyProc_bind, wp_modifyProc_bind]
  refine (wp_release hE _).imp ?_
  rintro _ t ⟨lock, noff, rfl⟩
  simp only [put_put, put_self, hp2]
  have hfirst : (firstProc s.nextpid tf r).state ≠ .UNUSED := by simp [firstProc]
  have hlast : put proc2 p (firstProc s.nextpid tf r) =
      put s.proc p (firstProc s.nextpid tf r) := by
    rw [← hproc2, put_put, hproc1, put_put]
  have hI5 := hI4.setProc (p := p) (z := firstProc s.nextpid tf r) hfirst hne2 (by rw [hp2]; rfl)
    (by rw [hp2]; rfl) (by rw [hp2]; rfl) (fun _ => by rw [hp2]; exact .of_used rfl)
    (fun _ _ => by rw [hp2]; rfl)
  have hL5 := hL2.setProc (p := p) (z := firstProc s.nextpid tf r) hfirst (by rw [hp2]; rfl)
    (by rw [hp2]; rfl) (by rw [hp2]; rfl)
  rw [hlast] at hI5 hL5
  refine ⟨p, tf, r, hlt, congrArg (fun g : Globals => { g with initproc := p }) hg1, hpid1, hlast,
    use2, l2, put (put (fun _ => Tab.empty) p T1) p T2, ?_, ?_, c + c2, by omega,
    by rw [hl2, drop_drop]⟩
  · show Inv ld use2 l2 _ v4 (put proc2 p (firstProc s.nextpid tf r))
    rw [hlast]
    exact hI5
  · show NoLeak ld t1.kernel use2 _ (put proc2 p (firstProc s.nextpid tf r))
    rw [hlast, kernel_eq hg1]
    exact hL5

lemma wp_boot {mem : Nat → Nat → Nat} {kpages : Nat} {initcode : List UInt8} (hE : LockStops E)
    (hroom : kpages + 10 ≤ pagesAtBoot ld)
    (hcode : PGSIZE ≤ initcode.length → E (.panic "uvmfirst: more than a page")) :
    Wp (boot ld kpages initcode) (fun _ s => Booted ld s) E (start mem) := by
  unfold boot
  rw [wp_bind, wp_onVm]
  refine Wp.imp wp_kinit ?_
  rintro _ v1 ⟨use1, l1, hheap1, hlen1, hfree1, hnone1⟩
  have hfresh1 : Fresh ld use1 l1 { start mem with vm := v1 } := by
    refine ⟨hheap1, fun y hy => ?_, fun y => ?_, fun y => ?_, rfl⟩
    · rw [hfree1 y hy]
      simp
    · by_cases hy : IsPage ld y
      · exact .inr (.inl (hfree1 y hy))
      · exact .inl (hnone1 y hy)
    · by_cases hy : IsPage ld y
      · rw [hfree1 y hy]
        exact iff_of_false (by simp) not_mem_nil
      · rw [hnone1 y hy]
        exact iff_of_false (by simp) not_mem_nil
  refine (wp_takePages hfresh1 fun hlt => by omega).bind ?_
  rintro _ _ ⟨use2, hfresh2, v2, K, rfl⟩
  refine (wp_userinit hE hfresh2 (by rw [length_drop]; omega) hcode).imp ?_
  rintro _ t ⟨p, tf, r, hlt, hg, hpid, hproc, use3, l3, tab3, hI3, hL3, _⟩
  have hinit : t.initproc = p := congrArg Globals.initproc hg
  have hker : t.kernel = K := congrArg Globals.kernel hg
  refine ⟨by rw [hinit]; exact hlt, ⟨tf, r, by rw [hinit]; exact hproc⟩, hpid, ?_, use3, l3, tab3, hI3,
    hL3⟩
  rw [hg, hinit, hker]
  rfl

end xv6.proc
