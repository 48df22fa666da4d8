-- The stack of a new thread. It is a page of its own when the size of the
-- creator is a multiple of the page size; the stack pointer is the size plus a
-- page, so otherwise the stack reaches into the memory of the creator.
import Xv6.FreePages

open cells linked wp

namespace xv6.proc

open vm

variable {ld : Link} {use use' : Nat → Use} {l l' : List Nat} {tab tab' : Nat → Tab}
  {me np p q x n : Nat} {s t : Sys}

/-! ## Stacks -/

def stackPointer (s : Sys) (p : Nat) : Nat := s.vm.mem (s.proc p).trapframe SP

/-- The page below the stack pointer of process `p` is memory that it can write, in pages that no
other process maps. -/
structure OwnStack (s : Sys) (p : Nat) : Prop where
  aligned : stackPointer s p % 16 = 0
  room : PGSIZE ≤ stackPointer s p
  writable : ∀ va, stackPointer s p - PGSIZE ≤ va → va < stackPointer s p →
    ∀ fl ∈ [PTE_V, PTE_W, PTE_U], entry s.vm.mem (s.proc p).pagetable (va / PGSIZE) &&& fl ≠ 0
  unshared : ∀ va, stackPointer s p - PGSIZE ≤ va → va < stackPointer s p →
    ∀ q, q ≠ p → (s.proc q).state ≠ .UNUSED → ∀ n, ¬ MapsAt s q n (pageOf s p (va / PGSIZE))

/-- The table of every thread that has exited maps pages that are not free. -/
def ExitedThreadsKeep (s : Sys) : Prop :=
  ∀ l, FreeList s l → ∀ q < NPROC, (s.proc q).state = .ZOMBIE → ∀ n y, MapsAt s q n y → y ∉ l

lemma Inv.unshared (hI : Inv ld use' l' tab' t.vm t.proc) (hq : (t.proc q).state ≠ .UNUSED)
    (hx : use' x = .user) (hmaps : ¬ Maps (t.proc q) (tab' q) x) : ¬ MapsAt t q n x := by
  intro hm
  rcases hI.mapsAt hq hm with ⟨_, h⟩ | ⟨_, h⟩ | ⟨_, h⟩
  · exact hmaps h
  · rw [h, (hI.active q hq).frame] at hx
    cases hx
  · have hpage := hI.heap.page x (by rw [hx]; simp)
    rw [h] at hpage
    exact trampoline_not_page ld hpage

lemma Inv.free_not_maps (hI : Inv ld use l tab s.vm s.proc) (hgone : ExitedThreadsKeep s)
    (hq : (s.proc q).state ≠ .UNUSED) (hx : use x = .free) : ¬ Maps (s.proc q) (tab q) x := by
  intro hm
  have hs := hI.active q hq
  by_cases hh : Holds (s.proc q)
  · rw [hs.user hh x hm] at hx
    cases hx
  · have hzombie : (s.proc q).state = .ZOMBIE := by
      by_contra hz
      exact hh ⟨hq, fun hc => hz hc.1⟩
    have hlt : q < NPROC := by
      by_contra hge
      exact hq (hI.slots q (Nat.le_of_not_lt hge))
    obtain ⟨j, _, hj, hpte⟩ := hm
    have hat : MapsAt s q j x := by
      unfold MapsAt pageOf
      rw [hI.entry_eq hq]
      exact ⟨(hs.map.leaf j (by omega)).1, hpte⟩
    exact hgone l hI.heap.chain q hlt hzombie j x hat ((hI.heap.mem_iff x).mpr hx)

lemma stack_flags (x : Nat) :
    ∀ fl ∈ [PTE_V, PTE_W, PTE_U], userPte x (PTE_W ||| PTE_R) &&& fl ≠ 0 := by
  intro fl hfl
  have hlt : fl < 1024 := by
    revert fl
    decide
  rw [and_eq_flags hlt, userPte_flags (by decide)]
  revert fl
  decide

/-- What a successful `mythread_create` of process `me` has made of slot `np`: the stack pointer is a
page above the memory of the creator, which is shared, and page `x` is new. -/
structure Stacked (ld : Link) (use : Nat → Use) (tab : Nat → Tab) (me np x : Nat)
    (use' : Nat → Use) (l' : List Nat) (tab' : Nat → Tab) (s t : Sys) : Prop where
  ne : np ≠ me
  unused : (s.proc np).state = .UNUSED
  state : (t.proc np).state = .RUNNABLE
  size : (t.proc np).sz = (s.proc me).sz + PGSIZE
  creator : t.proc me = creator s me
  others : ∀ q, q ≠ np → q ≠ me → t.proc q = s.proc q
  sp : stackPointer t np = (s.proc me).sz + PGSIZE
  tabs : ∀ q, q ≠ np → tab' q = tab q
  shared : ∀ j < pages (s.proc me).sz, (tab' np).pte j = (tab me).pte j
  page : IsPage ld x
  free : use x = .free
  pte : (tab' np).pte (pages (s.proc me).sz) = userPte x (PTE_W ||| PTE_R)
  inv : Inv ld use' l' tab' t.vm t.proc

lemma Inv.stacked {arg1 : Int} {arg2 : Nat} (hI : Inv ld use l tab s.vm s.proc)
    (hst : (s.proc me).state = .RUNNING)
    (hrun : (call ld me (.create arg1 arg2)).run s = .ok (0, t)) :
    ∃ np x use' l' tab', Stacked ld use tab me np x use' l' tab' s t := by
  have hE : LockStops fun _ => True := ⟨trivial, trivial, trivial, trivial, trivial⟩
  rcases (wp_mythread_create hE hI hst).of_ok hrun with hfail | hfail | hok
  · cases hfail.1
  · cases hfail.1
  obtain ⟨_, np, tf, r, hcr, hsp, use', l', tab', ⟨⟨htab, x, hx, hfree, hpte⟩, hshared⟩, hI', _⟩ := hok
  have hne : np ≠ me := by
    rintro rfl
    have := hcr.unused
    rw [hst] at this
    cases this
  have hnp : t.proc np = threadSlot s me np tf r := by
    rw [hcr.slots, put_self]
  refine ⟨np, x, use', l', tab', ⟨hne, hcr.unused, by rw [hnp]; rfl, by rw [hnp]; rfl, ?_,
    fun q h1 h2 => ?_, ?_, htab, hshared, hx, hfree, hpte, hI'⟩⟩
  · rw [hcr.slots, put_of_ne (Ne.symm hne), put_self]
  · rw [hcr.slots, put_of_ne h1, put_of_ne h2]
  · unfold stackPointer
    rw [hnp]
    exact hsp

section

variable {use' : Nat → Use} {l' : List Nat} {tab' : Nat → Tab}
  (h : Stacked ld use tab me np x use' l' tab' s t)
include h

lemma Stacked.used : (t.proc np).state ≠ .UNUSED := by
  rw [h.state]
  decide

lemma Stacked.user : use' x = .user := by
  refine (h.inv.active np h.used).user (Holds.of_alive ⟨h.used, by rw [h.state]; decide⟩) x ?_
  rw [h.inv.maps_iff h.used]
  refine ⟨pages (s.proc me).sz, ?_, ?_⟩
  · rw [h.size]
    unfold pages PGSIZE
    omega
  · unfold pageOf
    rw [h.inv.entry_eq h.used, h.pte, PTE2PA_userPte (by decide) h.page.1]

lemma Stacked.not_maps (hI : Inv ld use l tab s.vm s.proc) (hst : (s.proc me).state = .RUNNING)
    (hgone : ExitedThreadsKeep s) (hqn : q ≠ np) (hq : (t.proc q).state ≠ .UNUSED) :
    ¬ Maps (t.proc q) (tab' q) x := by
  rw [h.tabs q hqn]
  -- the creator and the other processes keep their sizes
  by_cases hqm : q = me
  · rw [hqm, h.creator]
    exact hI.free_not_maps hgone (by rw [hst]; decide) h.free
  · rw [h.others q hqn hqm] at hq ⊢
    exact hI.free_not_maps hgone hq h.free

/-- The pages below a stack of a creator of whole pages are new. -/
lemma Stacked.ownStack (hI : Inv ld use l tab s.vm s.proc) (hst : (s.proc me).state = .RUNNING)
    (hgone : ExitedThreadsKeep s) (hal : (s.proc me).sz % PGSIZE = 0) : OwnStack t np := by
  have hP : PGSIZE = 4096 := rfl
  have hpage : ∀ va, stackPointer t np - PGSIZE ≤ va → va < stackPointer t np →
      va / PGSIZE = pages (s.proc me).sz := by
    intro va h1 h2
    rw [h.sp] at h1 h2
    unfold pages
    rw [hP] at hal h1 h2 ⊢
    omega
  have hentry : entry t.vm.mem (t.proc np).pagetable (pages (s.proc me).sz) =
      userPte x (PTE_W ||| PTE_R) := by
    rw [h.inv.entry_eq h.used, h.pte]
  have hpa : pageOf t np (pages (s.proc me).sz) = x := by
    unfold pageOf
    rw [hentry, PTE2PA_userPte (by decide) h.page.1]
  refine ⟨?_, ?_, fun va h1 h2 => ?_, fun va h1 h2 q hqn hq n => ?_⟩
  · rw [h.sp]
    rw [hP] at hal ⊢
    omega
  · rw [h.sp]
    omega
  · rw [hpage va h1 h2, hentry]
    exact stack_flags x
  · rw [hpage va h1 h2, hpa]
    exact h.inv.unshared hq h.user (h.not_maps hI hst hgone hqn hq)

/-- Below any other stack lies a page of the creator. -/
lemma Stacked.aligned (hI : Inv ld use l tab s.vm s.proc) (hst : (s.proc me).state = .RUNNING)
    (hown : OwnStack t np) : (s.proc me).sz % PGSIZE = 0 := by
  by_contra hal
  have hP : PGSIZE = 4096 := rfl
  have hj : (s.proc me).sz / PGSIZE < pages (s.proc me).sz := by
    unfold pages
    rw [hP] at hal ⊢
    omega
  have hme : (t.proc me).state ≠ .UNUSED := by
    rw [h.creator]
    change (s.proc me).state ≠ .UNUSED
    rw [hst]
    decide
  have hentry : ∀ p, (t.proc p).state ≠ .UNUSED → p = np ∨ p = me →
      entry t.vm.mem (t.proc p).pagetable ((s.proc me).sz / PGSIZE) =
        (tab me).pte ((s.proc me).sz / PGSIZE) := by
    rintro p hp (rfl | rfl)
    · rw [h.inv.entry_eq hp, h.shared _ hj]
    · rw [h.inv.entry_eq hp, h.tabs _ (Ne.symm h.ne)]
  refine hown.unshared (s.proc me).sz (by rw [h.sp]; omega) (by rw [h.sp]; omega) me (Ne.symm h.ne)
    hme ((s.proc me).sz / PGSIZE) ⟨?_, ?_⟩
  · rw [hentry me hme (.inr rfl)]
    exact ((hI.active me (by rw [hst]; decide)).map.leaf _ hj).1
  · unfold pageOf
    rw [hentry me hme (.inr rfl), hentry np h.used (.inl rfl)]

end

end xv6.proc
