-- What `sbrk` and `fork` do with the memory of a process. `sbrk` moves the break
-- by its argument, but not below zero: then it does nothing and reports
-- success. `fork` gives the child a copy of the memory in pages of its own.
import Xv6.FileCalls
import Xv6.OpenFiles
import Xv6.FreePages
import Xv6.RootImage

open cells linked wp

namespace xv6.proc

open vm

variable {ld : Link} {use : Nat → Use} {l : List Nat} {tab : Nat → Tab} {s t : Sys}
  {me p q np j y : Nat} {n r : Int} {E : Stop → Prop}

def Sound (ld : Link) (s : Sys) : Prop := ∃ use l tab, Inv ld use l tab s.vm s.proc

lemma Run.sound (h : Run ld (fun s p c _ => MemSafe ld s p c) s) : Sound ld s := by
  obtain ⟨use, l, tab, hI, _⟩ := h.inv fun _ _ _ hc => hc
  exact ⟨use, l, tab, hI⟩

/-! ## `sbrk` -/

/-- What `sbrk(n)` of process `p` is to do when it returns `r`. -/
def MovesBreak (s t : Sys) (p : Nat) (n r : Int) : Prop :=
  (r ≠ -1 → r = (s.proc p).sz ∧ ((t.proc p).sz : Int) = (s.proc p).sz + n) ∧
  (r = -1 → (t.proc p).sz = (s.proc p).sz ∧
    ∀ k, entry t.vm.mem (s.proc p).pagetable k = entry s.vm.mem (s.proc p).pagetable k)

lemma wp_sys_sbrk_size (hI : Inv ld use l tab s.vm s.proc) (hh : Holds (s.proc me))
    (hn : -2 ^ 31 ≤ n ∧ n < 2 ^ 31) :
    Wp (sys_sbrk ld me n) (fun r t =>
      (r = -1 ∧ 0 < n ∧ (t.proc me).sz = (s.proc me).sz ∧
        ∀ k, entry t.vm.mem (s.proc me).pagetable k = entry s.vm.mem (s.proc me).pagetable k) ∨
      (r = (s.proc me).sz ∧ ((t.proc me).sz : Int) =
        if (s.proc me).sz + n < 0 then ((s.proc me).sz : Int) else (s.proc me).sz + n)) E s := by
  have hlt := hI.size_lt hh.1
  have hs := hI.active me hh.1
  unfold sys_sbrk growproc
  rw [wp_get_bind, wp_bind, wp_get_bind]
  apply wp_ite <;> intro hpos
  · have hnew : uint64 ((s.proc me).sz + ofInt n) = (s.proc me).sz + n.toNat := by
      unfold uint64 ofInt
      rw [Int.emod_eq_of_lt (by omega) (by omega)]
      omega
    rw [wp_bind, wp_onVm, hnew]
    refine (wp_uvmalloc_inv (by decide) hI hh).imp ?_
    rintro sz v' ⟨use', l', T', _, hI', hres⟩
    rcases hres with ⟨rfl, hpte, _⟩ | ⟨hmax, h0, _⟩
    · rw [if_pos rfl, wp_pure, wp_pure, if_pos (by decide)]
      refine .inl ⟨rfl, hpos, rfl, fun k => ?_⟩
      rw [if_pos rfl] at hI'
      have hact := hI'.active me (by rw [put_self]; exact hh.1)
      rw [put_self, put_self] at hact
      rw [hact.table.entry_eq hI'.heap, hs.table.entry_eq hI.heap, hpte]
    · rw [if_neg h0, wp_modifyProc_bind, wp_pure, wp_pure, if_neg (by decide)]
      refine .inr ⟨rfl, ?_⟩
      dsimp only
      rw [put_self, if_neg (by omega)]
      dsimp only
      omega
  · apply wp_ite <;> intro hneg
    · have hnew : uint64 ((s.proc me).sz + ofInt n) =
          if (s.proc me).sz + n < 0 then (2 ^ 64 + (s.proc me).sz + n).toNat
          else ((s.proc me).sz + n).toNat := by
        have hof : ofInt n = (2 ^ 64 + n).toNat := by
          unfold ofInt
          omega
        unfold uint64
        rw [hof]
        split
        · omega
        · omega
      rw [wp_bind, wp_onVm, hnew]
      refine (wp_uvmdealloc hI.heap hs.table (hI.userPages hh) hlt).imp ?_
      rintro sz v' ⟨hmin, _⟩
      rw [wp_modifyProc_bind, wp_pure, wp_pure, if_neg (by decide)]
      refine .inr ⟨rfl, ?_⟩
      dsimp only
      rw [put_self]
      dsimp only
      split at hmin
      · rw [if_pos ‹_›]
        omega
      · rw [if_neg ‹_›]
        omega
    · rw [wp_pure, wp_pure, if_neg (by decide)]
      refine .inr ⟨rfl, ?_⟩
      rw [if_neg (by omega)]
      omega

/-- In a state of a run whose calls free no memory that is shared, `sbrk(n)` moves the break exactly
if and only if the new size is not below zero. -/
theorem sbrk_moves_the_break_iff (h : Run ld (fun s p c _ => MemSafe ld s p c) s)
    (hp : (s.proc p).state = .RUNNING) (hn : -2 ^ 31 ≤ n ∧ n < 2 ^ 31) :
    (∃ r t, (sys_sbrk ld p n).run s = .ok (r, t) ∧ MovesBreak s t p n r) ↔
      0 ≤ (s.proc p).sz + n := by
  obtain ⟨use, l, tab, hI⟩ := h.sound
  obtain ⟨r, t, hrun, hres⟩ := (wp_sys_sbrk_size hI (.of_running hp) hn).exists_ok
  have hmoves : MovesBreak s t p n r ↔ 0 ≤ (s.proc p).sz + n := by
    unfold MovesBreak
    rcases hres with ⟨rfl, hpos, hsz, hent⟩ | ⟨rfl, hsz⟩
    · exact iff_of_true ⟨fun hc => absurd rfl hc, fun _ => ⟨hsz, hent⟩⟩ (by omega)
    · constructor
      · rintro ⟨h1, _⟩
        have h2 := (h1 (by omega)).2
        by_contra hc
        rw [if_pos (by omega)] at hsz
        omega
      · intro h0
        rw [if_neg (by omega)] at hsz
        exact ⟨fun _ => ⟨rfl, hsz⟩, fun hc => by omega⟩
  rw [← hmoves]
  constructor
  · rintro ⟨r', t', hrun', hm⟩
    rw [hrun] at hrun'
    cases hrun'
    exact hm
  · exact fun hm => ⟨r, t, hrun, hm⟩

lemma exists_parent : ∃ s, Run smallLink (fun s p c _ => MemSafe smallLink s p c) s ∧
    (s.proc 0).state = .RUNNING ∧ (s.proc 0).sz = PGSIZE := by
  obtain ⟨s, hs, htest⟩ := exists_played (fun s p c _ => MemSafe smallLink s p c) [(0, .fork)]
    (fun s => decide ((s.proc 0).state = .RUNNING ∧ (s.proc 0).sz = PGSIZE))
    (by simp [MemSafe]) (by decide +kernel)
  obtain ⟨h1, h2⟩ := of_decide_eq_true htest
  exact ⟨s, hs, h1, h2⟩

theorem sbrk_moves_the_break_of_the_first :
    ∃ s, Run smallLink (fun s p c _ => MemSafe smallLink s p c) s ∧
      ∃ r t, (sys_sbrk smallLink 0 (-1)).run s = .ok (r, t) ∧ MovesBreak s t 0 (-1) r := by
  obtain ⟨s, hs, hst, hsz⟩ := exists_parent
  exact ⟨s, hs, (sbrk_moves_the_break_iff hs hst (by decide)).mpr (by rw [hsz]; decide)⟩

/-- A process with one page gives back two: `sbrk` reports success and the size stays. -/
theorem sbrk_below_zero_does_nothing :
    ∃ s t, Run smallLink (fun s p c _ => MemSafe smallLink s p c) s ∧
      (s.proc 0).state = .RUNNING ∧ (s.proc 0).sz = 4096 ∧
      (sys_sbrk smallLink 0 (-8192)).run s = .ok (4096, t) ∧ (t.proc 0).sz = 4096 ∧
      ¬ MovesBreak s t 0 (-8192) 4096 := by
  obtain ⟨s, hs, hst, hsz⟩ := exists_parent
  have hno : ¬ 0 ≤ ((s.proc 0).sz : Int) + (-8192) := by
    rw [hsz]
    decide
  obtain ⟨use, l, tab, hI⟩ := hs.sound
  obtain ⟨r, t, hrun, hres⟩ :=
    (wp_sys_sbrk_size (n := -8192) hI (.of_running hst) (by decide)).exists_ok
  rcases hres with ⟨_, hpos, _⟩ | ⟨rfl, hsize⟩
  · exact absurd hpos (by decide)
  · rw [if_pos (by omega), hsz] at hsize
    rw [hsz] at hrun
    have hsz4 : (t.proc 0).sz = 4096 := by
      unfold PGSIZE at hsize
      omega
    refine ⟨s, t, hs, hst, hsz, hrun, hsz4, fun hm => ?_⟩
    have h1 := (hm.1 (by decide)).2
    rw [hsz4, hsz] at h1
    exact absurd h1 (by decide)

/-! ## `fork` -/

lemma Inv.entry_same (hI : Inv ld use l tab s.vm s.proc) (hq : (s.proc q).state ≠ .UNUSED)
    {v : Vm} (hsame : ∀ y, use y ≠ .free → v.mem y = s.vm.mem y) (k : Nat) :
    entry v.mem (s.proc q).pagetable k = entry s.vm.mem (s.proc q).pagetable k := by
  apply entry_congr
  intro x hx
  obtain ⟨pl, hpl⟩ := (hI.active q hq).table.visits hI.heap hx
  apply hsame
  rw [hpl]
  simp

/-- What `fork` of process `me` has made of slot `np`: every page of the memory is a copy, with
the same flags, in a page that was free and that no other slot maps that is in use and is not that
of an exited thread; the size and the
trapframe are those of the parent, but for 0 in `a0`; and the parent is as it was. -/
structure ForkedInto (s t : Sys) (me np : Nat) : Prop where
  unused : (s.proc np).state = .UNUSED
  size : (t.proc np).sz = (s.proc me).sz
  fresh : ∃ l, FreeList s l ∧ ∀ j < pages (s.proc me).sz, pageOf t np j ∈ l
  mapped : ∀ j < pages (s.proc me).sz, MapsAt t np j (pageOf t np j)
  own : ∀ j < pages (s.proc me).sz, ∀ q, q ≠ np → Holds (t.proc q) → ∀ k,
    ¬ MapsAt t q k (pageOf t np j)
  once : ∀ i j, i < pages (s.proc me).sz → j < pages (s.proc me).sz →
    pageOf t np i = pageOf t np j → i = j
  flags : ∀ j < pages (s.proc me).sz, PTE_FLAGS (entry t.vm.mem (t.proc np).pagetable j) =
    PTE_FLAGS (entry s.vm.mem (s.proc me).pagetable j)
  bytes : ∀ j < pages (s.proc me).sz, ∀ o < PGSIZE,
    byte (t.vm.mem (pageOf t np j)) o = byte (s.vm.mem (pageOf s me j)) o
  frame : ∀ i < FRAMEWORDS, t.vm.mem (t.proc np).trapframe i =
    if i = A0 then 0 else s.vm.mem (s.proc me).trapframe i
  parent : t.proc me = s.proc me
  parentMap : ∀ k, entry t.vm.mem (s.proc me).pagetable k = entry s.vm.mem (s.proc me).pagetable k
  parentPages : ∀ j < pages (s.proc me).sz, t.vm.mem (pageOf s me j) = s.vm.mem (pageOf s me j)

lemma fork_into {pid : Int} (hI : Inv ld use l tab s.vm s.proc) (hh : Holds (s.proc me))
    (hrun : (fork ld me).run s = .ok (pid, t)) (hpid : pid ≠ -1) :
    ∃ np, s.unused = some np ∧ ForkedInto s t me np ∧ (t.proc np).state = .RUNNABLE := by
  have hE : LockStops fun _ => True := ⟨trivial, trivial, trivial, trivial, trivial⟩
  obtain ⟨_, ⟨use', l', tab', hI', _⟩, hres⟩ := (wp_fork hE hI hh).of_ok hrun
  rcases hres with ⟨hc, _⟩ | ⟨np, tf, r, hlt, hun, _, _, hproc, hcopy⟩
  · exact absurd hc hpid
  have hne : me ≠ np := by
    rintro rfl
    exact hh.1 hun
  have hnp : t.proc np = (s.proc np).forked s.nextpid tf r me (s.proc me) := by
    rw [hproc, put_self]
  have hother : ∀ q, q ≠ np → t.proc q = s.proc q := fun q hq => by rw [hproc, put_of_ne hq]
  have hsz : (t.proc np).sz = (s.proc me).sz := by
    rw [hnp]
    rfl
  have hroot : (t.proc np).pagetable = r := by
    rw [hnp]
    rfl
  have hstate : (t.proc np).state = .RUNNABLE := by
    rw [hnp]
    rfl
  have hact : (t.proc np).state ≠ .UNUSED := by
    rw [hstate]
    simp
  have hs := hI.active me hh.1
  have hpage : ∀ j < pages (s.proc me).sz, use (pageOf t np j) = .free ∧
      entry t.vm.mem (t.proc np).pagetable j =
        PA2PTE (pageOf t np j) ||| PTE_FLAGS (entry s.vm.mem (s.proc me).pagetable j) ||| PTE_V ∧
      t.vm.mem (pageOf t np j) = s.vm.mem (pageOf s me j) := by
    intro j hj
    obtain ⟨y, hy, hal, hent, hmem⟩ := hcopy.page j hj
    rw [← hroot] at hent
    have hpa : pageOf t np j = y := by
      unfold pageOf
      rw [hent, PTE2PA_mapped hal (PTE_FLAGS_lt _)]
    rw [hpa]
    exact ⟨hy, hent, hmem⟩
  have hleaf : ∀ j < pages (s.proc me).sz, Leaf (entry s.vm.mem (s.proc me).pagetable j) := by
    intro j hj
    rw [hI.entry_eq hh.1]
    exact hs.map.leaf j hj
  have hflags : ∀ j < pages (s.proc me).sz, PTE_FLAGS (entry t.vm.mem (t.proc np).pagetable j) =
      PTE_FLAGS (entry s.vm.mem (s.proc me).pagetable j) := by
    intro j hj
    have hv := (hleaf j hj).1
    rw [and_eq_flags (by decide)] at hv
    rw [(hpage j hj).2.1, Nat.or_assoc,
      PTE_FLAGS_or (Nat.or_lt_two_pow (n := 10) (PTE_FLAGS_lt _) (by decide))]
    exact or_one_of_odd hv
  have hfirst : s.unused = some np := by
    have hforked := (fork_step (tolerates_all _) hh.1).of_ok hrun
    rcases hforked with ⟨hc, _⟩ | ⟨np', tf', r', v', hun', _, ht⟩
    · exact absurd hc hpid
    · by_cases hnn : np' = np
      · rw [← hnn]
        exact hun'
      · -- only one slot has changed
        exfalso
        have h1 : t.proc np = s.proc np := by
          rw [ht]
          exact put_of_ne (Ne.symm hnn) ..
        rw [h1] at hact
        exact hact hun
  refine ⟨np, hfirst, ⟨hun, hsz, ⟨l, hI.heap.chain, fun j hj => ?_⟩, fun j hj => ⟨?_, rfl⟩,
    fun j hj q hq ha k hm => ?_, fun i j hi hj he => ?_, fun j hj => ?_, fun j hj o _ => ?_,
    fun i hi => ?_, hother me hne, hI.entry_same hh.1 hcopy.same, fun j hj => ?_⟩, hstate⟩
  · exact (hI.heap.mem_iff _).mpr (hpage j hj).1
  · rw [and_eq_flags (by decide), hflags j hj, ← and_eq_flags (by decide)]
    exact (hleaf j hj).1
  · rw [hother q hq] at ha
    have hm' : MapsAt s q k (pageOf t np j) := by
      unfold MapsAt proc.pageOf at hm ⊢
      rw [hother q hq, hI.entry_same ha.1 hcopy.same] at hm
      exact hm
    exact hI.not_free ha hm' (hpage j hj).1
  · have hmap := (hI'.active np hact).map
    rw [hsz] at hmap
    unfold pageOf at he
    rw [hI'.entry_eq hact, hI'.entry_eq hact] at he
    exact hmap.inj i j hi hj he
  · exact hflags j hj
  · rw [(hpage j hj).2.2]
  · rw [hnp]
    exact hcopy.frame i hi
  · apply hcopy.same
    rw [show pageOf s me j = PTE2PA ((tab me).pte j) by unfold pageOf; rw [hI.entry_eq hh.1],
      hs.user hh _ ⟨j, Nat.zero_le j, by omega, rfl⟩]
    simp

lemma uvmcopy_undone {v : Vm} (hI : Inv ld use l tab s.vm s.proc) (hh : Holds (s.proc me))
    (hnp : (s.proc np).state ≠ .UNUSED) (hne : np ≠ me) (h0 : (s.proc np).sz = 0)
    (hrun : (uvmcopy ld (s.proc me).pagetable (s.proc np).pagetable (s.proc me).sz).run s.vm =
      .ok (false, v)) :
    (∀ a, ¬ Usable v.mem (s.proc np).pagetable a) ∧
    ∃ l', Chain (fun x => v.mem x 0) v.freelist l' ∧
      ∀ y ∈ l, y ∈ l' ∨ ∃ pl, pageAt v.mem (s.proc np).pagetable pl = y := by
  have hs := hI.active np hnp
  have hz : pages (s.proc np).sz = 0 := by
    rw [h0]
    decide
  have hmap := hs.map
  rw [hz] at hmap
  have hroots : (s.proc np).pagetable ≠ (s.proc me).pagetable :=
    fun hc => hne (hI.roots np me hnp hh.1 hc)
  obtain ⟨use', l', T', hres⟩ := (wp_uvmcopy (E := fun _ => True) hroots hI.heap
    (hI.active me hh.1).table hs.table
    (fun j hj => hmap.none j (Nat.zero_le j) (by omega) (by omega)) (hI.userPages hh)).of_ok hrun
  rw [if_neg (by simp)] at hres
  refine ⟨fun a ha => ?_, l', hres.heap.chain, fun y hy => ?_⟩
  · have hU := ha.2.2
    rw [hres.table.entry_eq hres.heap, hres.pte] at hU
    exact absurd (hmap.user_lt hU) (Nat.not_lt_zero _)
  · rcases hres.ext.fresh y ((hI.heap.mem_iff y).mp hy) with h1 | ⟨pl, h1⟩
    · exact .inl ((hres.heap.mem_iff y).mpr h1)
    · refine .inr ⟨pl, ?_⟩
      rw [hres.table.pageAt_eq hres.heap]
      exact (hres.table.at_use y pl h1).2

end xv6.proc

/-! ## The files of the child -/

namespace xv6.fs

variable {s : Fs}

lemma wp_forkFiles_proc (p : Nat) (fds : List Nat) :
    Wp (forkFiles p fds) (fun _ t => t.proc = s.proc) (fun _ => True) s := by
  induction fds generalizing s with
  | nil =>
    unfold forkFiles
    rw [wp_pure]
  | cons fd fds ih =>
    unfold forkFiles
    rw [wp_get_bind]
    cases (s.proc p).ofile fd with
    | none => exact ih
    | some f =>
      dsimp only
      unfold filedup modifyFile
      rw [bind_assoc, wp_get_bind]
      by_cases href : (s.ftable f).ref < 1
      · rw [if_pos href]
        exact wp_bind.mpr ((wp_throw _).mpr trivial)
      · rw [if_neg href, wp_modify_bind]
        exact ih.imp fun _ t ht => ht

lemma wp_fork_proc (p q : Nat) : Wp (fork p q) (fun _ t =>
    t.proc = Function.update s.proc q ((s.proc p).child (s.proc q))) (fun _ => True) s := by
  refine (wp_forkFiles_proc p _).bind ?_
  intro _ t ht
  rw [wp_get_bind, ht]
  cases (s.proc p).cwd with
  | none => exact (wp_throw _).mpr trivial
  | some cwd =>
    dsimp only
    unfold idup modifyInode modifyProc
    rw [bind_assoc, wp_modify_bind]
    rw [wp_pure_bind, wp_modify_bind, wp_pure]
    rw [ht]

end xv6.fs

namespace xv6.files

open vm

variable {ld : Link} {s t : Sys} {me np : Nat} {pid : Int}

lemma fork_shares (hI : proc.Sound ld s.kernel) (hp : proc.Holds (s.kernel.proc me))
    (hrun : (fork ld me).run s = .ok (pid, t)) (hpid : pid ≠ -1) :
    ∃ np, proc.ForkedInto s.kernel t.kernel me np ∧
      t.files.proc np = (s.files.proc me).child (s.files.proc np) := by
  obtain ⟨use, l, tab, hI⟩ := hI
  have hw : Wp (fork ld me) (fun pid t => pid ≠ -1 → ∃ np,
      proc.ForkedInto s.kernel t.kernel me np ∧
      t.files.proc np = (s.files.proc me).child (s.files.proc np)) (fun _ => True) s := by
    unfold fork
    rw [wp_get_bind, wp_bind, wp_onProc]
    refine (wp_any.run.imp fun r k hk => ?_)
    by_cases hr : r = -1
    · refine (wp_any (m := shareFiles me s.kernel.unused)).bind fun _ t _ => ?_
      rw [wp_pure]
      exact fun hc => absurd hr hc
    · obtain ⟨np, hun, hf, hst⟩ := proc.fork_into hI hp hk.2 hr
      unfold shareFiles
      rw [hun]
      rw [wp_bind, wp_get_bind, if_neg (by rw [hst]; simp), wp_bind, wp_onFs]
      refine (fs.wp_fork_proc me np).imp fun _ x hx => ?_
      rw [wp_pure, wp_pure]
      intro _
      refine ⟨np, hf, ?_⟩
      rw [hx, Function.update_self]
  exact hw.of_ok hrun hpid

/-- A file system of nothing but the directory of the first process. -/
def homeOnly : fs.Fs :=
  { fs.blank (fun _ => false) (fun _ => ⟨.free, 0, 0, 0, 0, fun _ => 0⟩) (fun _ _ => 0) with
    proc := fun _ => { cwd := some 0, ofile := fun _ => none } }

open proc (MapsAt pageOf)

/-- Process 0 makes a child and a thread; the thread gives its memory back, the page of process 0
among it; and the child has pages enough for a new process. -/
def lentCalls : List (Nat × proc.Call) :=
  [(0, .fork), (1, .sbrk 12288), (0, .create 0 0), (2, .sbrk (-8192)), (1, .sbrk (-12288))]

/-- A thread of process 0 exits, and process 0 gives back memory that the thread shared. -/
def exitedCalls : List (Nat × proc.Call) :=
  [(0, .sbrk 28672), (0, .create 0 0), (1, .exit 0), (0, .sbrk (-28672))]

/-- Process 0 opens the root and makes two threads. The second one and a child exit and are joined;
the last join frees the slot of the first thread, whose file nobody closes. -/
def leftOpenCalls : List (Nat × Call) :=
  [(0, .open_ [47] fs.O_RDONLY), (0, .create 0 0), (0, .create 0 0), (2, .exit 0), (0, .join),
    (0, .fork), (2, .exit 0), (0, .join), (0, .close 0)]

end xv6.files
