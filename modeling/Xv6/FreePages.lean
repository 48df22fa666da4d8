-- The free list and the processes: a page on the free list is mapped by no live
-- process, and a page that is not on it is in use by one.
import Xv6.ProcRuns
import Xv6.TableSteps

open cells linked wp

namespace xv6.proc

open vm

variable {ld : Link} {use : Nat → Use} {l : List Nat} {tab : Nat → Tab} {p y n : Nat} {s : Sys}

/-! ## Free pages are not mapped -/

def FreeList (s : Sys) (l : List Nat) : Prop := Chain (fun x => s.vm.mem x 0) s.vm.freelist l

/-- Process `p` maps page `y` at page number `n`. -/
def MapsAt (s : Sys) (p n y : Nat) : Prop :=
  entry s.vm.mem (s.proc p).pagetable n &&& PTE_V ≠ 0 ∧ pageOf s p n = y

instance : Decidable (MapsAt s p n y) := inferInstanceAs (Decidable (_ ∧ _))

/-- The free list holds a page at most once, and no page that a live process maps. -/
def FreeUnmapped (s : Sys) : Prop :=
  ∃ l, FreeList s l ∧ l.Nodup ∧ ∀ p, Alive (s.proc p).state → ∀ n y, MapsAt s p n y → y ∉ l

lemma Inv.mapsAt (hI : Inv ld use l tab s.vm s.proc) (hp : (s.proc p).state ≠ .UNUSED)
    (h : MapsAt s p n y) :
    (n < pages (s.proc p).sz ∧ Maps (s.proc p) (tab p) y) ∨
      (n = TOPPAGE ∧ y = (s.proc p).trapframe) ∨ (n = TOPPAGE + 1 ∧ y = ld.trampoline) := by
  obtain ⟨hv, hy⟩ := h
  have hs := hI.active p hp
  by_cases hn : n < pages (s.proc p).sz
  · exact .inl ⟨hn, (hI.maps_iff hp y).mpr ⟨n, hn, hy⟩⟩
  unfold pageOf at hy
  rw [hI.entry_eq hp] at hv hy
  by_cases h1 : n = TOPPAGE
  · rw [h1, hs.map.frame, PTE2PA_mapped (hI.frame_page hp).1 (by decide)] at hy
    exact .inr (.inl ⟨h1, hy.symm⟩)
  by_cases h2 : n = TOPPAGE + 1
  · rw [h2, hs.map.trampoline, PTE2PA_mapped ld.aligned (by decide)] at hy
    exact .inr (.inr ⟨h2, hy.symm⟩)
  · rw [hs.map.none n (by omega) h1 h2] at hv
    exact absurd (Nat.zero_and _) hv

lemma trampoline_not_page (ld : Link) : ¬ IsPage ld ld.trampoline := by
  rintro ⟨_, h2, _⟩
  have h3 := ld.inside.2
  have h4 : PGSIZE = 4096 := rfl
  omega

lemma Inv.not_free (hI : Inv ld use l tab s.vm s.proc) (hp : Holds (s.proc p))
    (h : MapsAt s p n y) : use y ≠ .free := by
  rcases hI.mapsAt hp.1 h with ⟨_, hm⟩ | ⟨_, rfl⟩ | ⟨_, rfl⟩
  · rw [(hI.active p hp.1).user hp y hm]
    simp
  · rw [(hI.active p hp.1).frame]
    simp
  · intro hc
    exact trampoline_not_page ld (hI.heap.page _ (by rw [hc]; simp))

/-! ## The calls that are made with care -/

/-- Another live process has the page at page number `j` of process `p` in its memory. -/
def Shares (s : Sys) (p j : Nat) : Prop :=
  ∃ q < NPROC, q ≠ p ∧ Alive (s.proc q).state ∧ ∃ i < pages (s.proc q).sz, pageOf s q i = pageOf s p j

instance (j : Nat) : Decidable (Shares s p j) := by
  unfold Shares
  infer_instance

/-- The first `k` pages of a list, or all of it. -/
def pagesFrom (next : Nat → Nat) : Nat → Nat → List Nat
  | 0, _ => []
  | k + 1, x => if x = 0 then [] else x :: pagesFrom next k (next x)

/-- The pages that a `mythread_create` of process `p` can need at most: 6 for the slot, 2 for each
page that is shared, and 3 for the stack. -/
def createPages (s : Sys) (p : Nat) : Nat := 9 + 2 * pages (s.proc p).sz

/-- There are more free pages than `mythread_create` of process `p` can need. -/
def Roomy (s : Sys) (p : Nat) : Prop :=
  createPages s p < (pagesFrom (fun x => s.vm.mem x 0) (createPages s p + 1) s.vm.freelist).length

/-- Process `p` may make the call in state `s`: it gives back no page by `sbrk` that another live
process has, nor has such a page at all in `exec`; `mythread_create` finds pages enough, or no slot;
and the last `mythread_join` clears no slot that is in use, but for the one that its `wait` frees. -/
def Careful (s : Sys) (p : Nat) : Call → Prop
  | .sbrk n => n < 0 → ∀ j < pages (s.proc p).sz, pages (newSize s p n) ≤ j → ¬ Shares s p j
  | .exec _ _ _ => ∀ j < pages (s.proc p).sz, ¬ Shares s p j
  | .create _ _ => Roomy s p ∨ ∀ q < NPROC, (s.proc q).state ≠ .UNUSED
  | .join => s.running = 1 → ∀ i < s.currId - 1,
      (s.proc (s.threads i)).state = .UNUSED ∨ firstZombie s p = some (s.threads i)
  | _ => True

instance (c : Call) : Decidable (Careful s p c) := by
  cases c
  all_goals unfold Careful Roomy
  all_goals infer_instance

lemma pagesFrom_eq {next : Nat → Nat} {x : Nat} (h : Chain next x l) (k : Nat) :
    pagesFrom next k x = l.take k := by
  induction k generalizing x l with
  | zero => rw [pagesFrom, List.take_zero]
  | succ k ih =>
    unfold pagesFrom
    by_cases hx : x = 0
    · rw [hx] at h
      rw [if_pos hx, h.nil_of_zero, List.take_nil]
    · obtain ⟨l', rfl⟩ := h.head_ne hx
      rw [if_neg hx, ih h.2.2, List.take_succ_cons]

lemma Roomy.lt (h : Roomy s p) (hl : FreeList s l) : createPages s p < l.length := by
  unfold Roomy at h
  rw [pagesFrom_eq hl, List.length_take] at h
  omega

lemma Inv.shares (hI : Inv ld use l tab s.vm s.proc) {j : Nat} (h : SharedPage s p j) :
    Shares s p j := by
  obtain ⟨q, i, hqp, hq, hi, he⟩ := h
  refine ⟨q, ?_, hqp, hq, i, hi, he⟩
  by_contra hc
  exact hq.1 (hI.slots q (by omega))

/-- A `mythread_create` with pages enough does not fail once it has taken a slot. -/
lemma Inv.create_keeps (hI : Inv ld use l tab s.vm s.proc) (hp : (s.proc p).state = .RUNNING)
    (hroom : createPages s p < l.length) : CreateSafe ld s p ∧ ∀ arg1 arg2 t, TakesSlot ld s p →
      (mythread_create ld p arg1 arg2).run s ≠ .ok (-1, t) := by
  have hE : LockStops fun _ => True := ⟨trivial, trivial, trivial, trivial, trivial⟩
  unfold createPages at hroom
  refine ⟨fun np t hrun => ?_, fun arg1 arg2 t htk hrun => ?_⟩
  · obtain ⟨_, _, _, h⟩ := (wp_createBegin hE hI hp).of_ok hrun
    rw [if_neg (by simp)] at h
    have := h.1
    omega
  · obtain ⟨np, ok, u, hbegin⟩ := htk
    rcases (wp_mythread_create hE hI hp).of_ok hrun with ⟨_, hno⟩ | ⟨_, ⟨_, hshort⟩, _⟩ | ⟨h, _⟩
    · -- a slot was taken
      obtain ⟨_, _, htaken, _⟩ := (wp_createBegin hE hI hp).of_ok hbegin
      rcases hno.short with hshort | hfull
      · omega
      · exact hfull np htaken.lt htaken.unused
    · omega
    · cases h

lemma Inv.no_slot (hI : Inv ld use l tab s.vm s.proc) (hp : (s.proc p).state = .RUNNING)
    (hfull : ∀ q < NPROC, (s.proc q).state ≠ .UNUSED) : ¬ TakesSlot ld s p := by
  have hE : LockStops fun _ => True := ⟨trivial, trivial, trivial, trivial, trivial⟩
  rintro ⟨np, ok, u, hbegin⟩
  obtain ⟨_, _, htaken, _⟩ := (wp_createBegin hE hI hp).of_ok hbegin
  exact hfull np htaken.lt htaken.unused

lemma WaitedFor.state {addr : Nat} {res : Int} {q : Nat} {t : Sys} (h : WaitedFor p addr res s t)
    (hq : (s.proc q).state = .UNUSED ∨ firstZombie s p = some q) (haddr : addr = 0) :
    (t.proc q).state = .UNUSED := by
  rcases h with ⟨_, ⟨v, rfl⟩, hnone⟩ | ⟨v, pp, _, _, hfirst, _, rfl⟩
  · rcases hq with hq | hq
    · exact hq
    · have hz := List.find?_some hq
      have hmem := List.mem_range.mp (List.mem_of_find?_eq_some hq)
      rw [decide_eq_true_eq] at hz
      exact absurd hz.2 (hnone haddr q hmem hz.1)
  · dsimp only
    by_cases hpp : q = pp
    · rw [hpp, put_self]
      rfl
    · rw [put_of_ne hpp]
      refine hq.resolve_right fun hc => hpp ?_
      rw [hfirst] at hc
      exact (Option.some_inj.mp hc).symm

/-- The slots that the last `mythread_join` clears are unused once its `wait` is done. -/
lemma Careful.cleared {res : Int} {u : Sys} (h : Careful s p .join) (hw : WaitedFor p 0 res s u)
    (hone : u.running = 1) : ∀ i < u.currId - 1, (u.proc (u.threads i)).state = .UNUSED := by
  intro i hi
  have hsame := (WaitedFor.same hw).1
  have hthr : u.threads = s.threads := by
    rcases hw with ⟨_, ⟨_, rfl⟩, _⟩ | ⟨_, _, _, _, _, _, rfl⟩
    · rfl
    · rfl
  rw [hsame.running] at hone
  rw [hsame.currId] at hi
  rw [hthr]
  exact WaitedFor.state hw (h hone i hi) rfl

lemma careful_memSafe :
    Ensures ld (fun s p c _ => Careful s p c) fun s p c _ => MemSafe ld s p c := by
  intro use l tab s p c r t hI hp hrun h
  cases c with
  | sbrk n => exact fun hn j h1 h2 hs => h hn j h2 h1 (hI.shares hs)
  | exec path file uargv => exact fun _ j hj hs => h j hj (hI.shares hs)
  | create arg1 arg2 =>
    rcases h with h | h
    · exact (hI.create_keeps hp (h.lt hI.heap.chain)).1
    · exact fun np u hbegin => hI.no_slot hp h ⟨np, false, u, hbegin⟩
  | join =>
    exact fun res u hwait => Careful.cleared h ((wait_step (tolerates_all _)).of_ok hwait)
  | fork => trivial
  | exit status => trivial
  | wait addr => trivial
  | kill pid => trivial

/-- A thread takes a page and gives it back, exits and is joined, and then its creator gives back
its memory. -/
def threadedCalls : List (Nat × Call) :=
  [(0, .create 0 0), (1, .sbrk 4096), (1, .sbrk (-4096)), (0, .fork), (1, .exit 0), (0, .join),
    (0, .sbrk (-4096))]

def shrunkCalls : List (Nat × Call) := [(0, .create 0 0), (1, .sbrk (-8192))]

/-- Page `y` is the trapframe of process `p`, or part of its page table, or mapped by it. -/
def Reaches (s : Sys) (p y : Nat) : Prop :=
  y = (s.proc p).trapframe ∨ (∃ pl, pageAt s.vm.mem (s.proc p).pagetable pl = y) ∨
    ∃ n, MapsAt s p n y

/-- The kernel has had page `y` since the boot, or a process reaches it. -/
def InUse (s : Sys) (y : Nat) : Prop :=
  y ∈ s.kernel ∨ ∃ p < NPROC, (s.proc p).state ≠ .UNUSED ∧ Reaches s p y

/-- Every page is free or in use; and when no process waits to be reaped, the free pages and
those in use add up to all there are. -/
def Conserved (ld : Link) (s : Sys) : Prop :=
  ∃ l, FreeList s l ∧ (∀ y, IsPage ld y → y ∈ l ∨ InUse s y) ∧
    ((∀ p, (s.proc p).state ≠ .ZOMBIE) →
      l.length + { y | IsPage ld y ∧ InUse s y }.ncard = pagesAtBoot ld)

lemma Inv.slot_lt (hI : Inv ld use l tab s.vm s.proc) (hp : (s.proc p).state ≠ .UNUSED) :
    p < NPROC := by
  by_contra hc
  exact hp (hI.slots p (by omega))

lemma NoLeak.free_or_inUse {K : List Nat} (h : NoLeak ld K use tab s.proc) (hK : s.kernel = K)
    (hI : Inv ld use l tab s.vm s.proc) (hy : IsPage ld y) (hl : y ∉ l) : InUse s y := by
  cases hu : use y with
  | none => exact absurd hu (h.known y hy)
  | free => exact absurd ((hI.heap.mem_iff y).mpr hu) hl
  | arg => exact absurd hu (h.arg y)
  | kernel => exact .inl (by rw [hK]; exact (h.kernel y).mp hu)
  | table r pl =>
    obtain ⟨p, hp, rfl⟩ := h.table y r pl hu
    refine .inr ⟨p, hI.slot_lt hp, hp, .inr (.inl ⟨pl, ?_⟩)⟩
    have ht := (hI.active p hp).table
    rw [ht.pageAt_eq hI.heap]
    exact (ht.at_use y pl hu).2
  | frame p =>
    obtain ⟨hp, htf⟩ := h.frame y p hu
    exact .inr ⟨p, hI.slot_lt hp, hp, .inl htf.symm⟩
  | user =>
    obtain ⟨p, hp, hm⟩ := h.user y hu
    obtain ⟨n, hn, hpage⟩ := (hI.maps_iff hp y).mp hm
    refine .inr ⟨p, hI.slot_lt hp, hp, .inr (.inr ⟨n, ?_, hpage⟩)⟩
    rw [hI.entry_eq hp]
    exact ((hI.active p hp).map.leaf n hn).1

lemma Inv.inUse_not_free {K : List Nat} (hI : Inv ld use l tab s.vm s.proc)
    (h : NoLeak ld K use tab s.proc) (hK : s.kernel = K) (hz : ∀ p, (s.proc p).state ≠ .ZOMBIE)
    (hy : IsPage ld y) (hin : InUse s y) : use y ≠ .free := by
  rcases hin with hk | ⟨p, _, hp, rfl | ⟨pl, hpl⟩ | ⟨n, hm⟩⟩
  · rw [hK] at hk
    rw [(h.kernel y).mpr hk]
    simp
  · rw [(hI.active p hp).frame]
    simp
  · have ht := (hI.active p hp).table
    rw [ht.pageAt_eq hI.heap] at hpl
    have hu := ht.use_at pl (by rw [hpl]; exact hy.ne_zero)
    rw [hpl] at hu
    rw [hu]
    simp
  · exact hI.not_free (.of_alive ⟨hp, hz p⟩) hm

lemma ncard_pages (ld : Link) : { y | IsPage ld y }.ncard = pagesAtBoot ld := by
  have himage : { y | IsPage ld y } =
      (((Finset.range (pagesAtBoot ld)).image fun j => PGROUNDUP ld.kend + j * PGSIZE) : Finset Nat) := by
    ext y
    simp [isPage_iff]
  rw [himage, Set.ncard_coe_finset, Finset.card_image_of_injective, Finset.card_range]
  intro i j hij
  simpa [PGSIZE] using hij

/-- The call reaps no thread: the child that a `wait` or a `mythread_join` finds is none. -/
def SparesThreads (s : Sys) (p : Nat) : Call → Prop
  | .wait _ => ∀ q ∈ firstZombie s p, (s.proc q).isthread = false
  | .join => ∀ q ∈ firstZombie s p, (s.proc q).isthread = false
  | _ => True

instance (c : Call) : Decidable (SparesThreads s p c) := by
  cases c
  all_goals unfold SparesThreads
  all_goals infer_instance

lemma WaitedFor.spares {addr : Nat} {res : Int} {t : Sys} (h : WaitedFor p addr res s t)
    (hz : ∀ q ∈ firstZombie s p, (s.proc q).isthread = false) : NoThreadFreed s t := by
  intro q hq hun
  rcases h with ⟨_, ⟨v, rfl⟩, _⟩ | ⟨v, pp, _, _, hfirst, _, rfl⟩
  · exact absurd hun hq
  · by_cases hpp : q = pp
    · rw [hpp]
      exact hz pp hfirst
    · dsimp only at hun
      rw [put_of_ne hpp] at hun
      exact absurd hun hq

lemma dropThreads_other {me q : Nat} (is : List Nat) (h : ∀ i ∈ is, s.threads i ≠ q) :
    (dropThreads me is s).proc q = s.proc q := by
  induction is generalizing s with
  | nil => rfl
  | cons i is ih =>
    refine (ih (s := dropThread me (s.threads i) s) fun j hj => ?_).trans ?_
    · exact h j (List.mem_cons_of_mem i hj)
    · exact put_of_ne (Ne.symm (h i List.mem_cons_self)) ..

lemma Joined.state_eq {me q : Nat} {t : Sys} (h : Joined me s t)
    (hq : s.running = 1 → ∀ i < s.currId - 1, s.threads i ≠ q) :
    (t.proc q).state = (s.proc q).state := by
  unfold Joined at h
  split at h
  · rename_i hone
    obtain ⟨v, rfl⟩ := h
    refine congrArg Proc.state (dropThreads_other _ fun i hi => ?_)
    exact hq hone i (List.mem_range.mp hi)
  · rw [h]

lemma spares_tight : Ensures ld (fun s p c _ => Careful s p c ∧ SparesThreads s p c) (Tight ld) := by
  intro use l tab s p c r t hI hp hrun h
  cases c with
  | wait addr =>
    exact WaitedFor.spares ((wait_step (tolerates_all _)).of_ok hrun) h.2
  | create arg1 arg2 =>
    rcases h.1 with h1 | h1
    · exact (hI.create_keeps hp (h1.lt hI.heap.chain)).2 arg1 arg2 t
    · exact fun htk => absurd htk (hI.no_slot hp h1)
  | join =>
    obtain ⟨_, u, hw, hj⟩ := mythread_join_step.of_ok hrun
    intro q hq hun
    by_cases hu : (u.proc q).state = .UNUSED
    · exact WaitedFor.spares hw h.2 q hq hu
    · rw [hj.state_eq fun hone i hi hc => hu ?_] at hun
      · exact absurd hun hu
      · rw [← hc]
        exact Careful.cleared h.1 hw hone i hi
  | fork => trivial
  | exec path file uargv => trivial
  | sbrk n => trivial
  | exit status => trivial
  | kill pid => trivial

/-- A thread takes a page and gives it back, and a child of its creator exits and is reaped. -/
def thriftyCalls : List (Nat × Call) :=
  [(0, .create 0 0), (1, .sbrk 4096), (1, .sbrk (-4096)), (0, .fork), (2, .exit 0), (0, .wait 0)]

/-- Page `y` is not part of the page table with root `r`, which does not map it. -/
def Untouched (mem : Nat → Nat → Nat) (r y : Nat) : Prop :=
  r ≠ y ∧ ∀ i < NPTE, lower mem r i = 0 ∨ (lower mem r i ≠ y ∧ ∀ j < NPTE,
    lower mem (lower mem r i) j = 0 ∨ (lower mem (lower mem r i) j ≠ y ∧ ∀ k < NPTE,
      PTE2PA (mem (lower mem (lower mem r i) j) k) ≠ y))

instance (mem : Nat → Nat → Nat) (r : Nat) : Decidable (Untouched mem r y) :=
  inferInstanceAs (Decidable (_ ∧ _))

lemma lower_lt {mem : Nat → Nat → Nat} {x i : Nat} (h : lower mem x i ≠ 0) : i < NPTE := by
  unfold lower at h
  split at h
  · rename_i hi
    exact hi.1
  · exact absurd rfl h

lemma pageAt_low {mem : Nat → Nat → Nat} {r i j : Nat} (h : pageAt mem r (.low i j) ≠ 0) :
    lower mem r i ≠ 0 ∧ pageAt mem r (.low i j) = lower mem (lower mem r i) j := by
  by_cases hmid : lower mem r i = 0
  · exact absurd (if_pos hmid) h
  · exact ⟨hmid, if_neg hmid⟩

lemma Untouched.low {mem : Nat → Nat → Nat} {r i j : Nat} (h : Untouched mem r y)
    (h0 : pageAt mem r (.low i j) ≠ 0) : pageAt mem r (.low i j) ≠ y ∧
      ∀ k < NPTE, PTE2PA (mem (pageAt mem r (.low i j)) k) ≠ y := by
  obtain ⟨hmid, hlow⟩ := pageAt_low h0
  rw [hlow] at h0 ⊢
  obtain ⟨_, hj⟩ := (h.2 i (lower_lt hmid)).resolve_left hmid
  exact (hj j (lower_lt h0)).resolve_left h0

lemma Untouched.not_reaches (h : Untouched s.vm.mem (s.proc p).pagetable y) (h0 : y ≠ 0)
    (htf : y ≠ (s.proc p).trapframe) : ¬ Reaches s p y := by
  rintro (h1 | ⟨pl, hpl⟩ | ⟨n, hv, hpage⟩)
  · exact htf h1
  · rw [← hpl] at h0
    cases pl with
    | root => exact h.1 hpl
    | mid i => exact ((h.2 i (lower_lt h0)).resolve_left h0).1 hpl
    | low i j => exact (h.low h0).1 hpl
  · unfold pageOf at hpage
    unfold entry at hv hpage
    split at hv
    · simp at hv
    · rename_i hlow
      rw [if_neg hlow] at hpage
      exact (h.low hlow).2 _ (Nat.mod_lt _ (by decide)) hpage

def reapedCalls : List (Nat × Call) := [(0, .create 0 0), (1, .exit 0), (0, .wait 0)]

end xv6.proc
