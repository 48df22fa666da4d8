-- The calls of processes: `fork`, `exit`, `wait`, `kill` and `sbrk`. Each of them
-- takes the process table from one state with the invariant to another.
import Xv6.CopySpace
import Xv6.ProcSlots
import Xv6.Walks

open cells linked wp List

namespace xv6.proc

open vm

variable {ld : Link} {use use' : Nat → Use} {l l' : List Nat} {tab : Nat → Tab} {v v' : Vm}
  {proc : Nat → Proc} {me p q r k n sz : Nat} {T T' : Tab} {s t : Sys} {E : Stop → Prop}

/-! ## Memory that grows -/

section

variable (hI : Inv ld use l tab v proc) (hh : Holds (proc p))
include hI hh

lemma Inv.grow
    (hheap : Heap ld use' l' v') (ht : Table use' v'.mem (proc p).pagetable T')
    (ha : Alloced (proc p).pagetable use use' v.mem v'.mem T' (pages (proc p).sz) n)
    (hm : Map ld (proc p).trapframe (pages (proc p).sz + n) T')
    (hu : ∀ j < pages (proc p).sz + n, use' (PTE2PA (T'.pte j)) = .user)
    (hold : ∀ j < pages (proc p).sz, T'.pte j = (tab p).pte j)
    (hnew : ∀ j, pages (proc p).sz ≤ j → j < pages (proc p).sz + n →
      use (PTE2PA (T'.pte j)) = .free)
    (hsz : pages sz = pages (proc p).sz + n) :
    Inv ld use' l' (put tab p T') v' (put proc p { proc p with sz := sz }) ∧
      Effect False p (proc p) (tab p) { proc p with sz := sz } T' use use' v.mem v'.mem := by
  have hs := hI.active p hh.1
  have hroot := hs.table.use_at .root hs.table.root_ne
  have hsplit : ∀ y, Maps { proc p with sz := sz } T' y →
      Maps (proc p) (tab p) y ∨ use y = .free := by
    rintro y ⟨j, _, h2, rfl⟩
    dsimp only at h2
    by_cases hj : j < pages (proc p).sz
    · exact .inl ⟨j, Nat.zero_le j, by omega, by rw [hold j hj]⟩
    · exact .inr (hnew j (by omega) (by omega))
  have he : Effect False p (proc p) (tab p) { proc p with sz := sz } T' use use' v.mem v'.mem := by
    intro y
    by_cases hy : use y = .free
    · rcases ha.fresh y hy with h1 | h1 | ⟨h1, j, h2, h3, h4⟩
      · exact .inr (.inr ⟨h1, .inl hy⟩)
      · exact .inr (.inl ⟨⟨hh.1, .inl h1⟩, .inl hy⟩)
      · refine .inr (.inl ⟨⟨hh.1, .inr (.inr ⟨h1, j, Nat.zero_le j, ?_, h4⟩)⟩, .inl hy⟩)
        dsimp only
        omega
    · have hkeep := ha.keep y hy
      by_cases ho : Owns p (proc p) (tab p) use y
      · refine .inr (.inl ⟨⟨hh.1, ?_⟩, .inr ⟨ho, hkeep⟩⟩)
        rw [hkeep]
        rcases ho.2 with h1 | h1 | ⟨h1, j, h2, h3, h4⟩
        · exact .inl h1
        · exact .inr (.inl h1)
        · refine .inr (.inr ⟨h1, j, h2, ?_, ?_⟩)
          · dsimp only
            omega
          · rw [hold j (by omega), h4]
      · exact .inl ⟨hkeep, fun hc => absurd hc ho,
          fun _ => ha.same y hy fun pl hc => ho ⟨hh.1, .inl ⟨pl, hc⟩⟩⟩
  refine ⟨hI.effect he hheap (fun _ => ?_) (fun _ => ?_) (fun hc => absurd hc hh.1) (.inr ?_) ?_ ?_ ?_,
    he⟩
  · by_contra hlt
    exact hh.1 (hI.slots p (by omega))
  · refine ⟨ht, ?_, ?_, ?_⟩
    · change Map ld (proc p).trapframe (pages sz) T'
      rw [hsz]
      exact hm
    · change use' (proc p).trapframe = _
      have hf := hs.frame
      rw [ha.keep _ (by rw [hf]; simp), hf]
    · rintro _ y ⟨j, _, h2, rfl⟩
      dsimp only at h2
      exact hu j (by omega)
  · rw [show (tab p).at (proc p).pagetable .root = (proc p).pagetable from rfl] at hroot
    exact ha.keep _ (by rw [hroot]; simp)
  · exact fun q hqp hq _ hc => hqp (hI.roots q p hq hh.1 hc)
  · intro q _ hq y hy
    have hqu := (hI.active q hq.1).user hq y hy
    rw [ha.keep y (by rw [hqu]; simp), hqu]
    simp
  · intro _ q hqp hq hf y hy hqy
    rcases hsplit y hy with h1 | h1
    · rcases hf with hf | hf
      · exact hI.apart p q (Ne.symm hqp) hh hq hf y h1 hqy
      · exact hI.apart q p hqp hq hh hf y hqy h1
    · rw [(hI.active q hq.1).user hq y hqy] at h1
      cases h1

lemma Inv.sameMap
    (hs : SameMap ld (proc p).pagetable use v (tab p) T' use' l' v') :
    Inv ld use' l' (put tab p T') v' proc ∧
      Effect False p (proc p) (tab p) (proc p) T' use use' v.mem v'.mem := by
  have hsl := hI.active p hh.1
  have hgrow := hI.grow (n := 0) hh hs.heap hs.table (hs.ext.alloced T' _ 0)
    (by rw [Nat.add_zero]
        exact ⟨by rw [hs.pte]; exact hsl.map.leaf, by rw [hs.pte]; exact hsl.map.page,
          by rw [hs.pte]; exact hsl.map.inj, by rw [hs.pte]; exact hsl.map.frame,
          by rw [hs.pte]; exact hsl.map.trampoline, by rw [hs.pte]; exact hsl.map.none⟩) ?_
    (fun j _ => by rw [hs.pte]) (fun j h1 h2 => by omega) rfl
  · rw [show { proc p with sz := (proc p).sz } = proc p from rfl, put_eq_self rfl] at hgrow
    exact hgrow
  · intro j hj
    have hu := hsl.user hh _ ⟨j, Nat.zero_le j, by omega, rfl⟩
    rw [hs.pte, hs.ext.keep _ (by rw [hu]; simp), hu]

lemma Inv.userPages :
    UserPages use (tab p) (pages (proc p).sz) := by
  have hs := hI.active p hh.1
  exact hs.map.userPages fun k hk => hs.user hh _ ⟨k, Nat.zero_le k, by omega, rfl⟩

lemma Inv.copied {To : Tab}
    (h0 : (proc p).sz = 0) (hsz : pages sz = n)
    (hc : Copied ld (proc p).pagetable use v To (tab p) 0 n T' use' l' v') :
    Inv ld use' l' (put tab p T') v' (put proc p { proc p with sz := sz }) ∧
      Effect False p (proc p) (tab p) { proc p with sz := sz } T' use use' v.mem v'.mem := by
  have hs := hI.active p hh.1
  have hz : pages (proc p).sz = 0 := by
    rw [h0]
    decide
  have hle := hc.user.le hc.heap
  have hNP : NPAGES = 32768 := rfl
  have hTOP : TOPPAGE = 67108862 := rfl
  refine hI.grow (n := n) hh hc.heap hc.table ?_ ?_ ?_ ?_ ?_ ?_
  · rw [hz]
    exact hc.alloced
  · rw [hz]
    refine ⟨hc.user.leaf, fun k hk => ?_, hc.user.inj, ?_, ?_, ?_⟩
    · exact hc.heap.page _ (by rw [hc.user.user k hk]; simp)
    · rw [hc.old _ (by omega), hs.map.frame]
    · rw [hc.old _ (by omega), hs.map.trampoline]
    · intro k hk h1 h2
      rw [hc.old k (by omega), hs.map.none k (by omega) h1 h2]
  · rw [hz]
    exact hc.user.user
  · rw [hz]
    exact fun j hj => by omega
  · rw [hz]
    intro j h1 h2
    obtain ⟨x, hx, hfree, hpte, _⟩ := hc.new j h1 h2
    rw [hpte, PTE2PA_mapped hx.1 (PTE_FLAGS_lt _)]
    exact hfree
  · rw [hz, hsz, Nat.zero_add]

end

/-! ## `fork` -/

/-- From `s` to `t` the invariant is kept, and no page is lost when `tight` holds. -/
def Stays (ld : Link) (tight : Prop) (use : Nat → Use) (tab : Nat → Tab) (s t : Sys) : Prop :=
  ∃ use' l' tab', Inv ld use' l' tab' t.vm t.proc ∧
    (tight → NoLeak ld s.kernel use tab s.proc → NoLeak ld t.kernel use' tab' t.proc)

lemma stays_notTaken {w : Prop} (hI : Inv ld use l tab s.vm s.proc) (hn : NotTaken s t)
    (hg : t.globals = s.globals) (hheap : Heap ld use l' t.vm)
    (hmem : ∀ y, use y ≠ .free → t.vm.mem y = s.vm.mem y) : Stays ld w use tab s t := by
  have hI1 := hI.congr hheap hmem
  refine ⟨use, l', tab, ?_, fun _ hL => ?_⟩
  · rcases hn with hn | ⟨p, hp, hn⟩
    · rw [hn]
      exact hI1
    · rw [hn]
      exact hI1.blank hp
  · rw [kernel_eq hg]
    rcases hn with hn | ⟨p, hp, hn⟩
    · rw [hn]
      exact hL
    · rw [hn]
      exact hL.blank hp

lemma Holds.of_used {x : Proc} (h : x.state = .USED) : Holds x := by
  refine ⟨?_, fun hc => ?_⟩
  · rw [h]
    simp
  · rw [h] at hc
    cases hc.1

section

variable (hI : Inv ld use l tab v proc) (hp : (proc p).state ≠ .UNUSED)
include hI hp

lemma Inv.putFrame
    (f : Nat → Nat) : Inv ld use l tab (v.putPage (proc p).trapframe f) proc := by
  refine hI.touched (touched_putPage (S := fun y => y = (proc p).trapframe) rfl v f) ?_
  rintro y rfl
  rw [(hI.active p hp).frame]
  simp

lemma wp_copyframe {dst src : Nat} (hq : (proc q).state ≠ .UNUSED)
    (hdst : dst = (proc p).trapframe) (hsrc : src = (proc q).trapframe) :
    Wp (copyframe dst src) (fun _ v' => Inv ld use l tab v' proc ∧
      v' = v.putPage dst fun i => if i < FRAMEWORDS then v.mem src i else v.mem dst i) E v := by
  subst hdst hsrc
  unfold copyframe setPage
  rw [wp_get_bind, if_pos (hI.frame_page hq).inRam, wp_get_bind, if_pos (hI.frame_page hp).inRam,
    wp_set]
  exact ⟨hI.putFrame hp _, rfl⟩

lemma wp_storeFrame {pa i w : Nat} (hpa : pa = (proc p).trapframe) :
    Wp (store pa i w) (fun _ v' => Inv ld use l tab v' proc ∧
      v' = v.putPage pa (put (v.mem pa) i w)) E v := by
  subst hpa
  rw [wp_store (hI.frame_page hp).inRam]
  exact ⟨hI.putFrame hp _, rfl⟩

end

/-- The slot of a new process, after `fork` of process `me`. -/
def Proc.forked (x : Proc) (pid : Int) (tf r : Nat) (me : Nat) (y : Proc) : Proc :=
  { x.taken pid tf r with sz := y.sz, name := y.name, parent := some me, state := .RUNNABLE }

/-- What `fork` of a process `x` leaves in the memory, for a child with trapframe `tf` and page
table `r`: a copy of every page in a page that was free, and of the trapframe with 0 in `a0`. What
was in use is as before. -/
structure ForkCopy (use : Nat → Use) (v v' : Vm) (x : Proc) (tf r : Nat) : Prop where
  page : ∀ j < pages x.sz, ∃ y, use y = .free ∧ y % PGSIZE = 0 ∧
    entry v'.mem r j = PA2PTE y ||| PTE_FLAGS (entry v.mem x.pagetable j) ||| PTE_V ∧
    v'.mem y = v.mem (PTE2PA (entry v.mem x.pagetable j))
  frame : ∀ i < FRAMEWORDS, v'.mem tf i = if i = A0 then 0 else v.mem x.trapframe i
  same : ∀ y, use y ≠ .free → v'.mem y = v.mem y

lemma Inv.forkCopy {use1 : Nat → Use} {v1 v2 : Vm} {x1 : Proc} {T1 : Tab} {np tf : Nat}
    {f : Nat → Nat}
    (hI : Inv ld use l tab v proc) (hh : Holds (proc me))
    (hun : (proc np).state = .UNUSED) (hr : use r = .free) (htf : use tf = .free)
    (he : Effect False np (proc np) (tab np) x1 T1 use use1 v.mem v1.mem)
    (hframe : use1 tf ≠ .free)
    (hc : Copied ld r use1 v1 (tab me) T 0 (pages (proc me).sz) T' use' l' v2)
    (hent : ∀ j, entry (v2.putPage tf f).mem r j = T'.pte j)
    (hf : ∀ i < FRAMEWORDS, f i = if i = A0 then 0 else v2.mem (proc me).trapframe i) :
    ForkCopy use v (v2.putPage tf f) (proc me) tf r := by
  have hs := hI.active me hh.1
  have hnot : ∀ y, ¬ Owns np (proc np) (tab np) use y := fun y ho => ho.1 hun
  -- what was in use is in the same use and holds the same
  have hkeep : ∀ y, use y ≠ .free → use1 y = use y ∧ v2.mem y = v.mem y := by
    intro y hy
    obtain ⟨h1, h2⟩ : use1 y = use y ∧ v1.mem y = v.mem y := he.other hy (hnot y)
    refine ⟨h1, ?_⟩
    rw [hc.alloced.same y (by rw [h1]; exact hy) fun pl hpl => ?_, h2]
    rw [h1] at hpl
    have hroot := hI.rooted y r pl hpl
    rw [hr] at hroot
    cases hroot
  have hfree : ∀ y, use1 y = .free → use y = .free := by
    intro y hy
    by_contra hne
    rw [(hkeep y hne).1] at hy
    exact hne hy
  have hetab : ∀ j, entry v.mem (proc me).pagetable j = (tab me).pte j :=
    hs.table.entry_eq hI.heap
  refine ⟨fun j hj => ?_, fun i hi => ?_, fun y hy => ?_⟩
  · obtain ⟨x, hx, hxf, hpte, hmem⟩ := hc.new j (Nat.zero_le j) (by omega)
    have hxtf : x ≠ tf := by
      rintro rfl
      exact hframe hxf
    refine ⟨x, hfree x hxf, hx.1, ?_, ?_⟩
    · rw [hent, hpte, hetab]
    · have huse := hs.user hh _ ⟨j, Nat.zero_le j, by omega, rfl⟩
      have hfr : use (PTE2PA ((tab me).pte j)) ≠ .free := by
        rw [huse]
        simp
      rw [putPage_of_ne hxtf, hmem, hetab]
      have hother : _ ∧ v1.mem (PTE2PA ((tab me).pte j)) = v.mem (PTE2PA ((tab me).pte j)) :=
        he.other hfr (hnot _)
      exact hother.2
  · rw [putPage_self, hf i hi]
    by_cases hi0 : i = A0
    · rw [if_pos hi0, if_pos hi0]
    · rw [if_neg hi0, if_neg hi0, (hkeep _ (by rw [hs.frame]; simp)).2]
  · have hytf : y ≠ tf := by
      rintro rfl
      exact hy htf
    rw [putPage_of_ne hytf, (hkeep y hy).2]

lemma wp_fork (hE : LockStops E) (hI : Inv ld use l tab s.vm s.proc) (hme : Holds (s.proc me)) :
    Wp (fork ld me) (fun res t => t.globals = s.globals ∧ Stays ld True use tab s t ∧
      ((res = -1 ∧ NotTaken s t ∧ (t.nextpid = s.nextpid ∨ t.nextpid = int32 (s.nextpid + 1))) ∨
        ∃ np tf r, np < NPROC ∧ (s.proc np).state = .UNUSED ∧ res = s.nextpid ∧
          t.nextpid = int32 (s.nextpid + 1) ∧
          t.proc = put s.proc np ((s.proc np).forked s.nextpid tf r me (s.proc me)) ∧
          ForkCopy use s.vm t.vm (s.proc me) tf r)) E s := by
  refine (wp_allocproc hE hI).bind ?_
  rintro (_ | np) t1 ⟨hg1, h1⟩
  · obtain ⟨hproc1, hpid1, _, l1, hheap1, hmem1⟩ := h1
    rw [wp_pure]
    refine ⟨hg1, ?_, .inl ⟨rfl, hproc1, hpid1⟩⟩
    exact stays_notTaken hI hproc1 hg1 hheap1 hmem1
  obtain ⟨hlt, hun, hpid1, tf, r, htffree, hrfree, hproc1, T1, use1, l1, hI1, he1, _⟩ := h1
  have hne : me ≠ np := by
    rintro rfl
    exact hme.1 hun
  have hpme : t1.proc me = s.proc me := by
    rw [hproc1, put_of_ne hne]
  have hpnp : t1.proc np = (s.proc np).taken s.nextpid tf r := by
    rw [hproc1, put_self]
  have hused : Holds (t1.proc np) := by
    rw [hpnp]
    exact .of_used rfl
  have hme1 : Holds (t1.proc me) := by
    rw [hpme]
    exact hme
  have hsz0 : (t1.proc np).sz = 0 := by
    rw [hpnp]
    show (s.proc np).sz = 0
    rw [show s.proc np = _ from hI.unused np hun]
    rfl
  have hL1 : NoLeak ld s.kernel use tab s.proc →
      NoLeak ld s.kernel use1 (put tab np T1) t1.proc := by
    intro hL
    rw [hproc1]
    exact hL.effect he1 not_false fun hc => by cases hc
  have htabme : put tab np T1 me = tab me := put_of_ne hne ..
  generalize htab1 : put tab np T1 = tab1 at *
  have hsnp := hI1.active np hused.1
  have hsme := hI1.active me hme1.1
  have hroots : (t1.proc np).pagetable ≠ (t1.proc me).pagetable :=
    fun hc => hne (hI1.roots np me hused.1 hme1.1 hc).symm
  rw [wp_get_bind, wp_bind, wp_onVm]
  refine (wp_uvmcopy hroots hI1.heap hsme.table hsnp.table ?_ (hI1.userPages hme1)).imp ?_
  · intro j hj
    refine hsnp.map.none j ?_ (by omega) (by omega)
    rw [hsz0]
    have : pages 0 = 0 := by decide
    omega
  rintro ok v2 ⟨use2, l2, T2, hres⟩
  by_cases hok : ok = true
  · rw [if_pos hok] at hres
    rw [if_neg (by simp [hok]), wp_modifyProc_bind]
    obtain ⟨hI2, he2⟩ := hI1.copied hused hsz0 rfl hres
    have hL2 := fun hL => (hL1 hL).effect he2 not_false fun hc => absurd hc hused.1
    generalize hproc2 : put t1.proc np { t1.proc np with sz := (t1.proc me).sz } = proc2 at *
    have hnp2 : proc2 np = { t1.proc np with sz := (t1.proc me).sz } := by
      rw [← hproc2, put_self]
    have hme2 : proc2 me = t1.proc me := by
      rw [← hproc2, put_of_ne hne]
    have hused2 : (proc2 np).state ≠ .UNUSED := by
      rw [hnp2]
      exact hused.1
    rw [wp_bind, wp_onVm]
    refine (wp_copyframe hI2 hused2 (by rw [hme2]; exact hme1.1) (by rw [hnp2]) (by rw [hme2])).imp ?_
    rintro _ v3 ⟨hI3, hv3⟩
    rw [wp_bind, wp_onVm]
    refine (wp_storeFrame hI3 hused2 (by rw [hnp2])).imp ?_
    rintro _ v4 ⟨hI4, hv4⟩
    have hcopy : ForkCopy use s.vm v4 (s.proc me) tf r := by
      have hs4 := (hI4.active np hused2).table
      rw [put_self, hnp2, hpnp] at hs4
      have hent := hs4.entry_eq hI4.heap
      rw [hpnp, hpme] at hv3
      rw [hpnp] at hv4
      rw [hv4, hv3, show ((s.proc np).taken s.nextpid tf r).trapframe = tf from rfl,
        putPage_putPage, putPage_self] at hent ⊢
      have hfr := hsnp.frame
      rw [hpnp] at hres hfr
      rw [hpme, htabme] at hres
      refine hI.forkCopy hme hun hrfree htffree he1 ?_ hres hent fun i hi => ?_
      · rw [show use1 tf = .frame np from hfr]
        simp
      · by_cases hi0 : i = A0
        · rw [hi0, put_self, if_pos rfl]
        · rw [put_of_ne hi0, if_neg hi0, if_pos hi]
    rw [wp_modifyProc_bind]
    refine wp_release_bind hE _ fun _ _ => wp_acquire_bind hE _ fun _ _ => ?_
    rw [wp_modifyProc_bind]
    refine wp_release_bind hE _ fun _ _ => wp_acquire_bind hE _ fun _ _ => ?_
    rw [wp_modifyProc_bind]
    refine wp_release_bind hE _ fun _ _ => ?_
    rw [wp_pure]
    simp only [put_put, put_self, hnp2, hpme]
    have hlast : put proc2 np { t1.proc np with
          sz := (s.proc me).sz
          name := (s.proc me).name
          parent := some me
          state := .RUNNABLE } =
        put s.proc np ((s.proc np).forked s.nextpid tf r me (s.proc me)) := by
      rw [← hproc2, put_put, hproc1, put_put, put_self]
      rfl
    have hrun : Holds ((s.proc np).forked s.nextpid tf r me (s.proc me)) :=
      ⟨by simp [Proc.forked], by simp [Proc.forked]⟩
    have heq : proc2 np = { (s.proc np).taken s.nextpid tf r with sz := (s.proc me).sz } := by
      rw [hnp2, hpnp, hpme]
    have hI5 := hI4.setProc (p := np) (z := (s.proc np).forked s.nextpid tf r me (s.proc me))
      hrun.1 hused2 (by rw [heq]; rfl) (by rw [heq]; rfl) (by rw [heq]; rfl)
      (fun _ => by rw [heq]; exact .of_used rfl) (fun _ hf => by rw [heq]; exact hf)
    have hset : put proc2 np ((s.proc np).forked s.nextpid tf r me (s.proc me)) =
        put s.proc np ((s.proc np).forked s.nextpid tf r me (s.proc me)) := by
      rw [← hproc2, put_put, hproc1, put_put]
    rw [hlast]
    refine ⟨hg1, ⟨use2, l2, put tab1 np T2, ?_,
      fun _ hL => ?_⟩, .inr ⟨np, tf, r, hlt, hun, ?_, hpid1, rfl, hcopy⟩⟩
    · rw [← hset]
      exact hI5
    · rw [← hset]
      show NoLeak ld t1.kernel _ _ _
      rw [kernel_eq hg1]
      exact (hL2 hL).setProc hrun.1 (by rw [heq]; rfl) (by rw [heq]; rfl) (by rw [heq]; rfl)
    · rw [hpnp]
      rfl
  · rw [if_neg hok] at hres
    rw [if_pos (by simpa using hok)]
    obtain ⟨hI2, he2⟩ := hI1.sameMap hused hres
    refine (wp_freeproc (s := { t1 with vm := v2 }) hI2).bind ?_
    rintro _ t3 ⟨hg3, hpid3, hproc3, use3, l3, hI3, he3⟩
    refine wp_release_bind hE _ fun lock noff => ?_
    rw [wp_pure]
    dsimp only at hproc3 hpid3 he3 ⊢
    have hback : NotTaken s t3 := by
      refine .inr ⟨np, hun, ?_⟩
      rw [hproc3, hpnp, hproc1, put_put]
      rfl
    refine ⟨?_, ⟨use3, l3, put tab1 np T2, hI3, fun _ hL => ?_⟩, .inl ⟨rfl, hback, by omega⟩⟩
    · exact hg3.trans hg1
    · have hflag := hL.flag np hun
      have hth : (t1.proc np).isthread = false := by
        rw [hpnp]
        exact hflag
      have hL2 := (hL1 hL).effect he2 not_false fun hc => absurd hc hused.1
      rw [put_eq_self (rfl : t1.proc np = t1.proc np)] at hL2
      have hL3 := hL2.effect he3 (by simp [hth]) fun _ => hth
      rw [put_eq_self rfl] at hL3
      rw [hproc3]
      show NoLeak ld t3.kernel _ _ _
      rw [kernel_eq hg3]
      show NoLeak ld t1.kernel _ _ _
      rw [kernel_eq hg1]
      exact hL3

/-! ## `exit` -/

lemma Inv.setFields {proc' : Nat → Proc} (hI : Inv ld use l tab v proc)
    (hsame : ∀ q, (proc' q).state = (proc q).state ∧ (proc' q).isthread = (proc q).isthread ∧
      (proc' q).sz = (proc q).sz ∧ (proc' q).pagetable = (proc q).pagetable ∧
      (proc' q).trapframe = (proc q).trapframe)
    (hun : ∀ q, (proc q).state = .UNUSED → proc' q = proc q) : Inv ld use l tab v proc' := by
  have hholds : ∀ q, Holds (proc' q) ↔ Holds (proc q) := by
    intro q
    unfold Holds
    rw [(hsame q).1, (hsame q).2.1]
  have hmaps : ∀ q y, Maps (proc' q) (tab q) y ↔ Maps (proc q) (tab q) y := by
    intro q y
    unfold Maps
    rw [(hsame q).2.2.1]
  refine ⟨hI.heap, hI.rooted, fun q hq => ?_, fun q hq => ?_, fun q hq => ?_,
    fun a b ha hb hab => ?_, fun a b hab ha hb hf y => ?_⟩
  · rw [(hsame q).1] at hq
    rw [hun q hq]
    exact hI.unused q hq
  · rw [(hsame q).1]
    exact hI.slots q hq
  · rw [(hsame q).1] at hq
    have hs := hI.active q hq
    obtain ⟨_, _, h3, h4, h5⟩ := hsame q
    exact ⟨by rw [h4]; exact hs.table, by rw [h5, h3]; exact hs.map, by rw [h5]; exact hs.frame,
      fun hh y hy => hs.user ((hholds q).mp hh) y ((hmaps q y).mp hy)⟩
  · rw [(hsame a).1] at ha
    rw [(hsame b).1] at hb
    rw [(hsame a).2.2.2.1, (hsame b).2.2.2.1] at hab
    exact hI.roots a b ha hb hab
  · rw [hmaps, hmaps]
    rw [hholds] at ha hb
    rw [(hsame a).2.1] at hf
    exact hI.apart a b hab ha hb hf y

lemma NoLeak.setFields {K : List Nat} {proc' : Nat → Proc} (h : NoLeak ld K use tab proc)
    (hsame : ∀ q, (proc' q).state = (proc q).state ∧ (proc' q).isthread = (proc q).isthread ∧
      (proc' q).sz = (proc q).sz ∧ (proc' q).pagetable = (proc q).pagetable ∧
      (proc' q).trapframe = (proc q).trapframe) : NoLeak ld K use tab proc' := by
  refine ⟨h.known, h.arg, h.kernel, fun y r pl hy => ?_, fun y q hy => ?_, fun y hy => ?_,
    fun q hq => ?_⟩
  · obtain ⟨q, h1, h2⟩ := h.table y r pl hy
    exact ⟨q, by rw [(hsame q).1]; exact h1, (hsame q).2.2.2.1.trans h2⟩
  · obtain ⟨h1, h2⟩ := h.frame y q hy
    exact ⟨by rw [(hsame q).1]; exact h1, (hsame q).2.2.2.2.trans h2⟩
  · obtain ⟨q, h1, h2⟩ := h.user y hy
    refine ⟨q, by rw [(hsame q).1]; exact h1, ?_⟩
    unfold Maps
    rw [(hsame q).2.2.1]
    exact h2
  · rw [(hsame q).1] at hq
    rw [(hsame q).2.1]
    exact h.flag q hq

/-- The slots after the children of `p` went to `init`. -/
def reparented (s : Sys) (p q : Nat) : Proc :=
  if q < NPROC ∧ (s.proc q).parent = some p then { s.proc q with parent := some s.initproc }
  else s.proc q

lemma reparented_same (s : Sys) (p q : Nat) :
    (reparented s p q).state = (s.proc q).state ∧
      (reparented s p q).isthread = (s.proc q).isthread ∧ (reparented s p q).sz = (s.proc q).sz ∧
      (reparented s p q).pagetable = (s.proc q).pagetable ∧
      (reparented s p q).trapframe = (s.proc q).trapframe := by
  unfold reparented
  split
  · exact ⟨rfl, rfl, rfl, rfl, rfl⟩
  · exact ⟨rfl, rfl, rfl, rfl, rfl⟩

/-- The slots after process `me` exited. -/
def exited (s : Sys) (me : Nat) (status : Int) : Nat → Proc :=
  put (reparented s me) me { reparented s me me with xstate := status, state := .ZOMBIE }

lemma wp_exit {status : Int} (hE : LockStops E) (hinit : E (.panic "init exiting"))
    (hI : Inv ld use l tab s.vm s.proc) (hme : Holds (s.proc me)) :
    Wp (exit me status) (fun _ t => t.globals = s.globals ∧ Stays ld True use tab s t ∧
      t.nextpid = s.nextpid ∧ t.proc = exited s me status ∧ me ≠ s.initproc) E s := by
  unfold exit
  rw [wp_get_bind]
  refine wp_ite (fun _ => (wp_throw _).mpr hinit) (fun hne => ?_)
  refine wp_acquire_bind hE _ fun _ _ => ?_
  unfold reparent
  rw [wp_modify_bind]
  refine wp_acquire_bind hE _ fun _ _ => ?_
  rw [wp_modifyProc_bind]
  refine wp_release_bind hE _ fun _ _ => ?_
  refine (wp_release hE _).imp ?_
  rintro _ t ⟨lock, noff, rfl⟩
  have hun : ∀ q, (s.proc q).state = .UNUSED → reparented s me q = s.proc q := by
    intro q hq
    unfold reparented
    rw [if_neg]
    rintro ⟨_, hpar⟩
    rw [show s.proc q = _ from hI.unused q hq] at hpar
    cases hpar
  have hI1 := hI.setFields (reparented_same s me) hun
  have hself := reparented_same s me me
  have hme1 : Holds (reparented s me me) := by
    unfold Holds at hme ⊢
    rw [hself.1, hself.2.1]
    exact hme
  refine ⟨rfl, ⟨use, l, tab, ?_, fun _ hL => ?_⟩, rfl, rfl, hne⟩
  · exact hI1.setProc (p := me) (by simp) hme1.1 rfl rfl rfl (fun _ => hme1) (fun _ hf => hf)
  · exact (hL.setFields (reparented_same s me)).setProc (by simp) rfl rfl rfl

/-! ## `wait` -/

lemma wp_copyout_inv {va : Nat} {src : List UInt8} (hI : Inv ld use l tab v proc)
    (hp : Holds (proc p)) :
    Wp (copyout (proc p).pagetable va src) (fun _ v' => Inv ld use l tab v' proc) E v := by
  have hs := hI.active p hp.1
  refine (wp_copyout hI.heap hs.table hs.map
    (fun k hk => hs.user hp _ ⟨k, Nat.zero_le k, by omega, rfl⟩) va src).imp ?_
  intro _ v' ht
  refine hI.touched ht fun y hy => ?_
  rw [hs.user hp y hy]
  simp

/-- No slot of a thread became unused. -/
def NoThreadFreed (s t : Sys) : Prop :=
  ∀ p, (s.proc p).state ≠ .UNUSED → (t.proc p).state = .UNUSED → (s.proc p).isthread = false

/-- What `wait` does: nothing, or it frees the slot of a child that has exited. -/
def Waited (s : Sys) (me : Nat) (res : Int) (t : Sys) : Prop :=
  (res = -1 ∧ t.proc = s.proc ∧ t.hist = s.hist) ∨
    ∃ pp, pp < NPROC ∧ (s.proc pp).parent = some me ∧ (s.proc pp).state = .ZOMBIE ∧
      res = (s.proc pp).pid ∧ t.proc = put s.proc pp (s.proc pp).freed ∧
      t.hist = .reap (s.proc pp).pid :: s.hist

section

variable (hE : LockStops E) (hI : Inv ld use l tab s.vm s.proc)
include hE hI

lemma wp_reap {pp : Nat} {pid : Int}
    (hz : (s.proc pp).state = .ZOMBIE) :
    Wp (do
      freeproc ld me pp
      modify fun s => { s with hist := .reap pid :: s.hist }
      release me (.proc pp)
      release me .wait_lock
      return (some pid, true)) (fun res t => t.globals = { s with hist := t.hist }.globals ∧
        Stays ld (NoThreadFreed s t) use tab s t ∧ t.nextpid = s.nextpid ∧ res = (some pid, true) ∧
        t.proc = put s.proc pp (s.proc pp).freed ∧ t.hist = .reap pid :: s.hist) E s := by
  refine (wp_freeproc hI).bind ?_
  rintro _ t ⟨hg, hpid, hproc, use', l', hI', he⟩
  rw [wp_modify_bind]
  refine wp_release_bind hE _ fun _ _ => wp_release_bind hE _ fun _ _ => ?_
  rw [wp_pure]
  have hg' : { t with hist := .reap pid :: t.hist }.globals =
      { s with hist := .reap pid :: t.hist }.globals :=
    congrArg (fun g : Globals => { g with hist := .reap pid :: t.hist }) hg
  refine ⟨hg', ⟨use', l', tab, hI', fun ht hL => ?_⟩,
    hpid, rfl, hproc, congrArg (fun g : Globals => .reap pid :: g.hist) hg⟩
  have hth : (s.proc pp).isthread = false := by
    refine ht pp (by rw [hz]; simp) ?_
    rw [hproc, put_self]
    rfl
  have hL' := hL.effect he (by simp [hth]) fun _ => hth
  rw [put_eq_self rfl] at hL'
  show NoLeak ld t.kernel _ _ t.proc
  rw [kernel_eq hg, hproc]
  exact hL'

lemma wp_waitScan {addr : Nat}
    (hme : Holds (s.proc me)) (pps : List Nat) (hpps : ∀ p ∈ pps, p < NPROC) (havekids : Bool) :
    Wp (waitScan ld me addr pps havekids) (fun res t => t.globals = { s with hist := t.hist }.globals ∧
      Stays ld (NoThreadFreed s t) use tab s t ∧ t.nextpid = s.nextpid ∧ match res.1 with
        | none => t.proc = s.proc ∧ t.hist = s.hist
        | some r => Waited s me r t) E s := by
  induction pps generalizing s havekids with
  | nil =>
    unfold waitScan
    rw [wp_pure]
    exact ⟨rfl, ⟨use, l, tab, hI, fun _ hL => hL⟩, rfl, rfl, rfl⟩
  | cons pp pps ih =>
    have hpp := hpps pp mem_cons_self
    have hrest : ∀ p ∈ pps, p < NPROC := fun p hp => hpps p (mem_cons_of_mem pp hp)
    unfold waitScan
    rw [wp_get_bind]
    refine wp_ite (fun hpar => ?_) (fun _ => ih hI hme hrest havekids)
    refine wp_acquire_bind hE _ fun lock noff => ?_
    apply wp_ite <;> intro hz
    · -- the status goes to the memory of the caller first
      have hcopy : Wp (if addr ≠ 0 then
            onVm (copyout (s.proc me).pagetable addr (intBytes (s.proc pp).xstate))
          else
            pure true) (fun _ t => ∃ v', t = { s with vm := v', lock := lock, noff := noff } ∧
              Inv ld use l tab v' s.proc) E { s with lock := lock, noff := noff } := by
        apply wp_ite <;> intro _
        · rw [wp_onVm]
          refine (wp_copyout_inv hI hme).imp ?_
          exact fun _ v' hI' => ⟨v', rfl, hI'⟩
        · rw [wp_pure]
          exact ⟨s.vm, rfl, hI⟩
      refine hcopy.bind ?_
      rintro ok _ ⟨v', rfl, hI'⟩
      apply wp_ite <;> intro _
      · refine wp_release_bind hE _ fun _ _ => wp_release_bind hE _ fun _ _ => ?_
        rw [wp_pure]
        exact ⟨rfl, ⟨use, l, tab, hI', fun _ hL => hL⟩, rfl,
          Or.inl ⟨rfl, rfl, rfl⟩⟩
      · refine (wp_reap (s := { s with vm := v', lock := lock, noff := noff }) hE hI' hz).imp ?_
        rintro res t ⟨hg, hst, hpid, rfl, hproc, hhist⟩
        exact ⟨hg, hst, hpid, .inr ⟨pp, hpp, hpar, hz, rfl, hproc, hhist⟩⟩
    · refine wp_release_bind hE _ fun lock' noff' => ?_
      exact ih (s := { s with lock := lock', noff := noff' }) hI hme hrest true

lemma wp_wait {addr : Nat}
    (hme : Holds (s.proc me)) :
    Wp (wait ld me addr) (fun res t => t.globals = { s with hist := t.hist }.globals ∧
      Stays ld (NoThreadFreed s t) use tab s t ∧ t.nextpid = s.nextpid ∧ Waited s me res t) E s := by
  refine wp_acquire_bind hE _ fun lock noff => ?_
  refine (wp_waitScan (s := { s with lock := lock, noff := noff }) hE hI hme _
    (fun p hp => mem_range.mp hp) false).bind ?_
  rintro ⟨_ | r, havekids⟩ t ⟨hg, hst, hpid, hres⟩
  · obtain ⟨hproc, hhist⟩ := hres
    apply wp_ite <;> intro _
    · refine wp_release_bind hE _ fun lock' noff' => ?_
      rw [wp_pure]
      exact ⟨hg, hst, hpid, .inl ⟨rfl, hproc, hhist⟩⟩
    · unfold killed
      simp only [bind_assoc]
      refine wp_acquire_bind hE _ fun _ _ => ?_
      rw [wp_get_bind]
      refine wp_release_bind hE _ fun _ _ => ?_
      rw [wp_pure_bind]
      apply wp_ite <;> intro _
      · refine wp_release_bind hE _ fun lock' noff' => ?_
        rw [wp_pure]
        exact ⟨hg, hst, hpid, .inl ⟨rfl, hproc, hhist⟩⟩
      · rw [wp_throw]
        exact hE.sleep
  · rw [wp_pure]
    exact ⟨hg, hst, hpid, hres⟩

end

/-! ## `kill` -/

/-- A slot after `kill`. -/
def Proc.kill (x : Proc) : Proc :=
  { x with killed := true, state := if x.state = .SLEEPING then .RUNNABLE else x.state }

lemma Inv.kill (hI : Inv ld use l tab v proc) (p : Nat) :
    Inv ld use l tab v (put proc p (proc p).kill) := by
  by_cases hp : (proc p).state = .UNUSED
  · refine hI.setUnused hp (by simp [Proc.kill, hp]) ?_
    have hb := hI.unused p hp
    unfold Proc.Blank at hb ⊢
    unfold Proc.kill
    rw [hb]
    rfl
  · have hst : (proc p).kill.state ≠ .UNUSED := by
      unfold Proc.kill
      split
      · simp
      · exact hp
    refine hI.setProc hst hp rfl rfl rfl (fun hh => ⟨hp, fun hc => hh.2 ⟨?_, hc.2⟩⟩) (fun _ hf => hf)
    simp [Proc.kill, hc.1]

lemma NoLeak.kill {K : List Nat} (h : NoLeak ld K use tab proc) (p : Nat) :
    NoLeak ld K use tab (put proc p (proc p).kill) := by
  by_cases hp : (proc p).state = .UNUSED
  · exact h.setUnused hp id
  · refine h.setProc ?_ rfl rfl rfl
    unfold Proc.kill
    split
    · simp
    · exact hp

lemma wp_killScan {pid : Int} (hE : LockStops E) (ps : List Nat) :
    Wp (killScan me pid ps) (fun _ t => t.globals = s.globals ∧ t.vm = s.vm ∧
      t.nextpid = s.nextpid ∧ (t.proc = s.proc ∨ ∃ p ∈ ps, (s.proc p).pid = pid ∧
        t.proc = put s.proc p (s.proc p).kill)) E s := by
  induction ps generalizing s with
  | nil =>
    unfold killScan
    rw [wp_pure]
    exact ⟨rfl, rfl, rfl, .inl rfl⟩
  | cons p ps ih =>
    refine wp_acquire_bind hE _ fun _ _ => ?_
    rw [wp_get_bind]
    apply wp_ite <;> intro hp
    · rw [wp_modifyProc_bind]
      refine wp_release_bind hE _ fun _ _ => ?_
      rw [wp_pure]
      exact ⟨rfl, rfl, rfl, .inr ⟨p, mem_cons_self, hp, rfl⟩⟩
    · refine wp_release_bind hE _ fun _ _ => ih.imp ?_
      rintro _ t ⟨h1, h2, h3, h4⟩
      refine ⟨h1, h2, h3, h4.imp id ?_⟩
      rintro ⟨q, hq, h5⟩
      exact ⟨q, mem_cons_of_mem p hq, h5⟩

lemma wp_kill {pid : Int} (hE : LockStops E) (hI : Inv ld use l tab s.vm s.proc) :
    Wp (kill me pid) (fun _ t => t.globals = s.globals ∧ Stays ld True use tab s t ∧
      t.nextpid = s.nextpid ∧ (t.proc = s.proc ∨ ∃ p < NPROC, (s.proc p).pid = pid ∧
        t.proc = put s.proc p (s.proc p).kill)) E s := by
  refine (wp_killScan hE _).imp ?_
  rintro _ t ⟨hg, hvm, hpid, hproc⟩
  refine ⟨hg, ⟨use, l, tab, ?_, fun _ hL => ?_⟩, hpid, hproc.imp id ?_⟩
  · rw [hvm]
    rcases hproc with h1 | ⟨p, _, _, h1⟩
    · rw [h1]
      exact hI
    · rw [h1]
      exact hI.kill p
  · rw [kernel_eq hg]
    rcases hproc with h1 | ⟨p, _, _, h1⟩
    · rw [h1]
      exact hL
    · rw [h1]
      exact hL.kill p
  · rintro ⟨p, hp, h1⟩
    exact ⟨p, mem_range.mp hp, h1⟩

/-! ## `sbrk` -/

/-- The memory of a process shrinks to `sz` bytes. No other process has the pages that go. -/
lemma Inv.shrink {m : Nat} (hI : Inv ld use l tab v proc) (hh : Holds (proc p))
    (hm : m ≤ pages (proc p).sz) (hsz : pages sz = m)
    (hs : Shrunk ld (proc p).pagetable use v (Covers (tab p) m (pages (proc p).sz - m))
      ((tab p).clear m (pages (proc p).sz - m)) use' l' v')
    (hcond : ∀ q, q ≠ p → Holds (proc q) → ∀ y, Covers (tab p) m (pages (proc p).sz - m) y →
      ¬ Maps (proc q) (tab q) y) :
    Inv ld use' l' (put tab p ((tab p).clear m (pages (proc p).sz - m))) v'
        (put proc p { proc p with sz := sz }) ∧
      Effect False p (proc p) (tab p) { proc p with sz := sz }
        ((tab p).clear m (pages (proc p).sz - m)) use use' v.mem v'.mem := by
  have hsl := hI.active p hh.1
  have hle := hsl.map.le
  have hNP : NPAGES = 32768 := rfl
  have hTOP : TOPPAGE = 67108862 := rfl
  have hlow : ∀ j < m, ((tab p).clear m (pages (proc p).sz - m)).pte j = (tab p).pte j := by
    intro j hj
    unfold Tab.clear
    dsimp only
    rw [if_neg (by omega)]
  have hhigh : ∀ j, pages (proc p).sz ≤ j →
      ((tab p).clear m (pages (proc p).sz - m)).pte j = (tab p).pte j := by
    intro j hj
    unfold Tab.clear
    dsimp only
    rw [if_neg (by omega)]
  have hcovuse : ∀ y, Covers (tab p) m (pages (proc p).sz - m) y →
      use y = .user ∧ Maps (proc p) (tab p) y := by
    rintro y ⟨j, h1, h2, rfl⟩
    have hmap : Maps (proc p) (tab p) (PTE2PA ((tab p).pte j)) :=
      ⟨j, Nat.zero_le j, by omega, rfl⟩
    exact ⟨hsl.user hh _ hmap, hmap⟩
  -- a page that stays is not one of those that go
  have hapart : ∀ j < m, ¬ Covers (tab p) m (pages (proc p).sz - m) (PTE2PA ((tab p).pte j)) := by
    rintro j hj ⟨i, h1, h2, he⟩
    have := hsl.map.inj i j (by omega) (by omega) he
    omega
  have hmaps : ∀ y, Maps { proc p with sz := sz } ((tab p).clear m (pages (proc p).sz - m)) y ↔
      ∃ j < m, PTE2PA ((tab p).pte j) = y := by
    intro y
    unfold Maps Covers
    rw [hsz, Nat.zero_add]
    constructor
    · rintro ⟨j, _, h2, h3⟩
      exact ⟨j, h2, by rw [← h3, hlow j h2]⟩
    · rintro ⟨j, h2, h3⟩
      exact ⟨j, Nat.zero_le j, h2, by rw [hlow j h2, h3]⟩
  have he : Effect False p (proc p) (tab p) { proc p with sz := sz }
      ((tab p).clear m (pages (proc p).sz - m)) use use' v.mem v'.mem := by
    intro y
    by_cases hc : Covers (tab p) m (pages (proc p).sz - m) y
    · exact .inr (.inr ⟨hs.freed y hc, .inr ⟨hh.1, .inr (.inr (hcovuse y hc))⟩⟩)
    · have hkeep := hs.keep y hc
      by_cases ho : Owns p (proc p) (tab p) use y
      · refine .inr (.inl ⟨⟨hh.1, ?_⟩, .inr ⟨ho, hkeep⟩⟩)
        rw [hkeep]
        rcases ho.2 with h1 | h1 | ⟨h1, j, h2, h3, h4⟩
        · exact .inl h1
        · exact .inr (.inl h1)
        · refine .inr (.inr ⟨h1, (hmaps y).mpr ⟨j, ?_, h4⟩⟩)
          by_contra hj
          exact hc ⟨j, by omega, by omega, h4⟩
      · exact .inl ⟨hkeep, fun h => absurd h ho, fun hf =>
          hs.same y hf hc fun pl hpl => ho ⟨hh.1, .inl ⟨pl, hpl⟩⟩⟩
  refine ⟨hI.effect he hs.heap (fun _ => ?_) (fun _ => ?_) (fun hc => absurd hc hh.1) (.inr ?_) ?_ ?_ ?_,
    he⟩
  · by_contra hlt
    exact hh.1 (hI.slots p (by omega))
  · refine ⟨hs.table, ?_, ?_, ?_⟩
    · change Map ld (proc p).trapframe (pages sz) _
      rw [hsz]
      refine ⟨fun j hj => ?_, fun j hj => ?_, fun i j hi hj hij => ?_, ?_, ?_, fun j hj h1 h2 => ?_⟩
      · rw [hlow j hj]
        exact hsl.map.leaf j (by omega)
      · rw [hlow j hj]
        exact hsl.map.page j (by omega)
      · rw [hlow i hi, hlow j hj] at hij
        exact hsl.map.inj i j (by omega) (by omega) hij
      · rw [hhigh _ (by omega)]
        exact hsl.map.frame
      · rw [hhigh _ (by omega)]
        exact hsl.map.trampoline
      · by_cases hj' : j < pages (proc p).sz
        · unfold Tab.clear
          dsimp only
          rw [if_pos (by omega)]
        · rw [hhigh j (by omega)]
          exact hsl.map.none j (by omega) h1 h2
    · change use' (proc p).trapframe = _
      rw [hs.keep, hsl.frame]
      intro hc
      have := (hcovuse _ hc).1
      rw [hsl.frame] at this
      cases this
    · intro _ y hy
      obtain ⟨j, hj, rfl⟩ := (hmaps y).mp hy
      rw [hs.keep _ (hapart j hj)]
      exact hsl.user hh _ ⟨j, Nat.zero_le j, by omega, rfl⟩
  · have hroot := hsl.table.use_at .root hsl.table.root_ne
    rw [show (tab p).at (proc p).pagetable .root = (proc p).pagetable from rfl] at hroot
    apply hs.keep
    intro hc
    have := (hcovuse _ hc).1
    rw [hroot] at this
    cases this
  · exact fun q hqp hq _ hc => hqp (hI.roots q p hq hh.1 hc)
  · intro q hqp hq y hy
    rw [hs.keep y fun hc => hcond q hqp hq y hc hy, (hI.active q hq.1).user hq y hy]
    simp
  · intro _ q hqp hq hf y hy hqy
    obtain ⟨j, hj, rfl⟩ := (hmaps y).mp hy
    have hmap : Maps (proc p) (tab p) (PTE2PA ((tab p).pte j)) := ⟨j, Nat.zero_le j, by omega, rfl⟩
    rcases hf with hf | hf
    · exact hI.apart p q (Ne.symm hqp) hh hq hf _ hmap hqy
    · exact hI.apart q p hqp hq hh hf _ hqy hmap

lemma Inv.size_lt (hI : Inv ld use l tab v proc) (hp : (proc p).state ≠ .UNUSED) :
    (proc p).sz < 2 ^ 38 := by
  have hle := (hI.active p hp).map.le
  have hNP : NPAGES = 32768 := rfl
  unfold pages PGSIZE at hle
  omega

lemma Inv.above (hI : Inv ld use l tab v proc) (hp : (proc p).state ≠ .UNUSED) :
    ∀ j, pages (proc p).sz ≤ j → j < TOPPAGE → (tab p).pte j = 0 :=
  fun j h1 h2 => (hI.active p hp).map.none j h1 (by omega) (by omega)

lemma Inv.extended {xperm : Nat} (hperm : xperm < 1024) (hI : Inv ld use l tab v proc)
    (hh : Holds (proc p))
    (he : Extended ld (proc p).pagetable use l v (tab p) xperm (pages (proc p).sz) n T' use' l' v')
    (hsz : pages sz = pages (proc p).sz + n) :
    Inv ld use' l' (put tab p T') v' (put proc p { proc p with sz := sz }) ∧
      Effect False p (proc p) (tab p) { proc p with sz := sz } T' use use' v.mem v'.mem := by
  refine hI.grow hh he.heap he.table he.alloced ((hI.active p hh.1).map.extend he) he.user.user
    (fun j hj => he.new.old j (.inl hj)) (fun j h1 h2 => ?_) hsz
  obtain ⟨x, hx, hfree, hpte⟩ := he.new.new j h1 h2
  rw [hpte, PTE2PA_userPte hperm hx.1]
  exact hfree

lemma wp_uvmalloc_inv {newsz xperm : Nat} (hperm : xperm < 1024)
    (hI : Inv ld use l tab v proc) (hh : Holds (proc p)) :
    Wp (uvmalloc ld (proc p).pagetable (proc p).sz newsz xperm) (fun sz v' =>
      ∃ use' l' T', Effect False p (proc p) (tab p)
          { proc p with sz := if sz = 0 then (proc p).sz else sz } T' use use' v.mem v'.mem ∧
        Inv ld use' l' (put tab p T') v'
          (put proc p { proc p with sz := if sz = 0 then (proc p).sz else sz }) ∧
        ((sz = 0 ∧ T'.pte = (tab p).pte ∧
            (newsz ≠ 0 → l.length ≤ 3 * (pages newsz - pages (proc p).sz))) ∨
          (sz = max (proc p).sz newsz ∧ sz ≠ 0 ∧
            NewPages ld use (tab p) T' xperm (pages (proc p).sz) (pages sz - pages (proc p).sz) ∧
            ∃ c ≤ 3 * (pages sz - pages (proc p).sz), l' = l.drop c))) E v := by
  have hs := hI.active p hh.1
  refine (wp_uvmalloc hperm hI.heap hs.table (hI.userPages hh) (hI.size_lt hh.1)
    (hI.above hh.1)).imp ?_
  rintro sz v' ⟨use', l', T', ⟨rfl, hsame, hlen⟩ | ⟨hmax, hpos, hex⟩⟩
  · obtain ⟨hI', he⟩ := hI.sameMap hh hsame
    rw [if_pos rfl, show { proc p with sz := (proc p).sz } = proc p from rfl, put_eq_self rfl]
    exact ⟨use', l', T', he, hI', .inl ⟨rfl, hsame.pte, hlen⟩⟩
  · have hle : pages (proc p).sz ≤ pages sz := by
      unfold pages PGSIZE
      omega
    rw [if_neg hpos]
    have hsz : pages sz = pages (proc p).sz + (pages sz - pages (proc p).sz) := by omega
    obtain ⟨hI', he⟩ := hI.extended hperm hh hex hsz
    exact ⟨use', l', T', he, hI', .inr ⟨hmax, hpos, hex.new, hex.took⟩⟩

/-- Shrinking to `newsz` bytes gives no page back that another process holds. -/
def ShrinkSafe (proc : Nat → Proc) (tab : Nat → Tab) (p newsz : Nat) : Prop :=
  ∀ q, q ≠ p → Holds (proc q) → ∀ y,
    Covers (tab p) (pages newsz) (pages (proc p).sz - pages newsz) y → ¬ Maps (proc q) (tab q) y

lemma wp_uvmdealloc_inv {newsz : Nat} (hI : Inv ld use l tab v proc) (hh : Holds (proc p))
    (hcond : ShrinkSafe proc tab p newsz) :
    Wp (uvmdealloc ld (proc p).pagetable (proc p).sz newsz) (fun sz v' =>
      sz = min (proc p).sz newsz ∧ ∃ use' l' T', Effect False p (proc p) (tab p)
          { proc p with sz := sz } T' use use' v.mem v'.mem ∧
        Inv ld use' l' (put tab p T') v' (put proc p { proc p with sz := sz }) ∧
        ∀ j < pages sz, T'.pte j = (tab p).pte j) E v := by
  have hs := hI.active p hh.1
  refine (wp_uvmdealloc hI.heap hs.table (hI.userPages hh) (hI.size_lt hh.1)).imp ?_
  rintro sz v' ⟨hmin, use', l', hsh⟩
  refine ⟨hmin, ?_⟩
  by_cases hle : (proc p).sz ≤ newsz
  · have hz : pages (proc p).sz - pages newsz = 0 := by
      unfold pages PGSIZE
      omega
    rw [hz, clear_zero] at hsh
    have hnone : ∀ y, ¬ Covers (tab p) (pages newsz) 0 y := by
      rintro y ⟨j, h1, h2, _⟩
      omega
    have hsame : SameMap ld (proc p).pagetable use v (tab p) (tab p) use' l' v' :=
      ⟨hsh.heap, hsh.table, ⟨fun y _ => hsh.keep y (hnone y),
        fun y hy => .inl ((hsh.keep y (hnone y)).trans hy), fun y h1 => hsh.same y h1 (hnone y)⟩, rfl⟩
    obtain ⟨hI', he⟩ := hI.sameMap hh hsame
    have hsz : sz = (proc p).sz := by omega
    rw [hsz, show { proc p with sz := (proc p).sz } = proc p from rfl, put_eq_self rfl]
    exact ⟨use', l', tab p, he, hI', fun _ _ => rfl⟩
  · have hsz : sz = newsz := by omega
    have hpm : pages newsz ≤ pages (proc p).sz := by
      unfold pages PGSIZE
      omega
    obtain ⟨hI', he⟩ := hI.shrink hh hpm rfl hsh hcond
    rw [hsz]
    refine ⟨use', l', _, he, hI', fun j hj => ?_⟩
    unfold Tab.clear
    dsimp only
    rw [if_neg (by omega)]

def newSize (s : Sys) (me : Nat) (n : Int) : Nat := uint64 ((s.proc me).sz + ofInt n)

lemma wp_growproc {n : Int} (hI : Inv ld use l tab s.vm s.proc) (hme : Holds (s.proc me))
    (hcond : n < 0 → ShrinkSafe s.proc tab me (newSize s me n)) :
    Wp (growproc ld me n) (fun res t => t.globals = s.globals ∧ Stays ld True use tab s t ∧
      t.nextpid = s.nextpid ∧ ((res = -1 ∧ t.proc = s.proc) ∨
        (res = 0 ∧ ∃ sz, t.proc = put s.proc me { s.proc me with sz := sz }))) E s := by
  unfold growproc
  rw [wp_get_bind]
  apply wp_ite <;> intro _
  · rw [wp_bind, wp_onVm]
    refine (wp_uvmalloc_inv (by decide) hI hme).imp ?_
    rintro sz v' ⟨use', l', T', he, hI', _⟩
    apply wp_ite <;> intro h0
    · rw [if_pos h0, show { s.proc me with sz := (s.proc me).sz } = s.proc me from rfl] at hI' he
      rw [put_eq_self (rfl : s.proc me = s.proc me)] at hI'
      rw [wp_pure]
      refine ⟨rfl, ⟨use', l', _, hI', fun _ hL => ?_⟩, rfl, .inl ⟨rfl, rfl⟩⟩
      have hL' := hL.effect he not_false fun hc => absurd hc hme.1
      rwa [put_eq_self (rfl : s.proc me = s.proc me)] at hL'
    · rw [if_neg h0] at hI' he
      rw [wp_modifyProc_bind, wp_pure]
      exact ⟨rfl, ⟨use', l', _, hI', fun _ hL => hL.effect he not_false fun hc => absurd hc hme.1⟩,
        rfl, .inr ⟨rfl, sz, rfl⟩⟩
  · apply wp_ite <;> intro hn
    · rw [wp_bind, wp_onVm]
      refine (wp_uvmdealloc_inv hI hme (hcond hn)).imp ?_
      rintro sz v' ⟨_, use', l', T', he, hI', _⟩
      rw [wp_modifyProc_bind, wp_pure]
      exact ⟨rfl, ⟨use', l', _, hI', fun _ hL => hL.effect he not_false fun hc => absurd hc hme.1⟩,
        rfl, .inr ⟨rfl, sz, rfl⟩⟩
    · rw [wp_pure]
      refine ⟨rfl, ⟨use, l, tab, hI, fun _ hL => hL⟩, rfl, .inr ⟨rfl, (s.proc me).sz, ?_⟩⟩
      exact (put_eq_self rfl).symm

lemma wp_sys_sbrk {n : Int} (hI : Inv ld use l tab s.vm s.proc) (hme : Holds (s.proc me))
    (hcond : n < 0 → ShrinkSafe s.proc tab me (newSize s me n)) :
    Wp (sys_sbrk ld me n) (fun _ t => t.globals = s.globals ∧ Stays ld True use tab s t ∧
      t.nextpid = s.nextpid ∧
      (t.proc = s.proc ∨ ∃ sz, t.proc = put s.proc me { s.proc me with sz := sz })) E s := by
  unfold sys_sbrk
  rw [wp_get_bind]
  refine (wp_growproc hI hme hcond).bind ?_
  rintro r t ⟨hg, hst, hpid, hproc⟩
  rw [wp_pure]
  exact ⟨hg, hst, hpid, hproc.imp And.right And.right⟩

end xv6.proc
