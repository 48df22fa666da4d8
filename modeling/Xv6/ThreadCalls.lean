-- The calls of threads: `mythread_create` shares the memory of its caller with
-- a new slot, and `mythread_join` waits and clears the table of threads.
import Xv6.CopyTable
import Xv6.ProcCalls

open cells linked wp List

namespace xv6.proc

open vm

variable {ld : Link} {use use' : Nat → Use} {l l' : List Nat} {tab : Nat → Tab} {v v' : Vm}
  {proc : Nat → Proc} {me np p q r n sz : Nat} {T' : Tab} {s t : Sys} {E : Stop → Prop}

/-! ## Shared memory -/

lemma Inv.share (hI : Inv ld use l tab v proc) (hp : Holds (proc p)) (h0 : (proc p).sz = 0)
    (hpth : (proc p).isthread = true) (hqp : q ≠ p) (hq : Holds (proc q))
    (hqth : (proc q).isthread = true) (hg : Grown ld (proc p).pagetable use l v n T' use' l' v')
    (hsame : ∀ j < pages (proc q).sz, T'.pte j = (tab q).pte j)
    (hrest : ∀ j, pages (proc q).sz ≤ j → T'.pte j = (tab p).pte j) :
    Inv ld use' l' (put tab p T') v' (put proc p { proc p with sz := (proc q).sz }) ∧
      Effect False p (proc p) (tab p) { proc p with sz := (proc q).sz } T' use use'
        v.mem v'.mem := by
  have hsp := hI.active p hp.1
  have hsq := hI.active q hq.1
  have hle := hsq.map.le
  have hNP : NPAGES = 32768 := rfl
  have hTOP : TOPPAGE = 67108862 := rfl
  have hz : pages (proc p).sz = 0 := by
    rw [h0]
    decide
  have hmaps : ∀ y, Maps { proc p with sz := (proc q).sz } T' y ↔ Maps (proc q) (tab q) y := by
    intro y
    unfold Maps Covers
    dsimp only
    constructor
    · rintro ⟨j, h1, h2, h3⟩
      exact ⟨j, h1, h2, by rw [← hsame j (by omega), h3]⟩
    · rintro ⟨j, h1, h2, h3⟩
      exact ⟨j, h1, h2, by rw [hsame j (by omega), h3]⟩
  have he : Effect False p (proc p) (tab p) { proc p with sz := (proc q).sz } T' use use'
      v.mem v'.mem := by
    intro y
    by_cases hy : use y = .free
    · rcases hg.ext.fresh y hy with h1 | h1
      · exact .inr (.inr ⟨h1, .inl hy⟩)
      · exact .inr (.inl ⟨⟨hp.1, .inl h1⟩, .inl hy⟩)
    · have hkeep := hg.ext.keep y hy
      by_cases ho : Owns p (proc p) (tab p) use y
      · refine .inr (.inl ⟨⟨hp.1, ?_⟩, .inr ⟨ho, hkeep⟩⟩)
        rw [hkeep]
        rcases ho.2 with h1 | h1 | ⟨_, j, _, h3, _⟩
        · exact .inl h1
        · exact .inr (.inl h1)
        · omega
      · exact .inl ⟨hkeep, fun hc => absurd hc ho,
          fun _ => hg.ext.same y hy fun pl hc => ho ⟨hp.1, .inl ⟨pl, hc⟩⟩⟩
  refine ⟨hI.effect he hg.heap (fun _ => ?_) (fun _ => ?_) (fun hc => absurd hc hp.1) (.inr ?_) ?_
    ?_ ?_, he⟩
  · by_contra hlt
    exact hp.1 (hI.slots p (by omega))
  · refine ⟨hg.table, ?_, ?_, fun _ y hy => ?_⟩
    · change Map ld (proc p).trapframe (pages (proc q).sz) T'
      refine ⟨fun j hj => ?_, fun j hj => ?_, fun i j hi hj => ?_, ?_, ?_, fun j hj h1 h2 => ?_⟩
      · rw [hsame j hj]
        exact hsq.map.leaf j hj
      · rw [hsame j hj]
        exact hsq.map.page j hj
      · rw [hsame i hi, hsame j hj]
        exact hsq.map.inj i j hi hj
      · rw [hrest _ (by omega), hsp.map.frame]
      · rw [hrest _ (by omega), hsp.map.trampoline]
      · rw [hrest j hj, hsp.map.none j (by omega) h1 h2]
    · change use' (proc p).trapframe = _
      have hf := hsp.frame
      rw [hg.ext.keep _ (by rw [hf]; simp), hf]
    · have hu := hsq.user hq y ((hmaps y).mp hy)
      rw [hg.ext.keep y (by rw [hu]; simp), hu]
  · have hroot := hsp.table.use_at .root hsp.table.root_ne
    rw [show (tab p).at (proc p).pagetable .root = (proc p).pagetable from rfl] at hroot
    exact hg.ext.keep _ (by rw [hroot]; simp)
  · exact fun a hap ha _ hc => hap (hI.roots a p ha hp.1 hc)
  · intro a _ ha y hy
    have hu := (hI.active a ha.1).user ha y hy
    rw [hg.ext.keep y (by rw [hu]; simp), hu]
    simp
  · intro _ a _ ha hf y hy hay
    -- the other process is not a thread, so it has no page of thread `q`
    have hath : (proc a).isthread = false := hf.resolve_left (by rw [hpth]; simp)
    have haq : a ≠ q := by
      rintro rfl
      rw [hqth] at hath
      cases hath
    exact hI.apart a q haq ha hq hath y hay ((hmaps y).mp hy)

/-! ## `mythread_create` -/

/-- The pid is among the families. -/
def Globals.registered (g : Globals) (pid : Int) : Bool :=
  (List.range MAX_FAMILIES).any fun i => g.families i = pid

/-- The families after `mythread_create` by the process with this pid. -/
def Globals.enter (g : Globals) (pid : Int) : Globals :=
  if g.registered pid = true then g
  else { g with families := put g.families g.currFid pid, currFid := g.currFid + 1 }

/-- The family of a process that calls `mythread_create`. -/
def familyOf (s : Sys) (me : Nat) : Int :=
  if s.globals.registered (s.proc me).pid = true then (s.proc me).fid else s.currFid

lemma wp_inBounds {α : Type} {Q : α → Sys → Prop} {f : Unit → K α} {i n : Nat} (hE : E .overrun)
    (h : i < n → Wp (f ()) Q E s) : Wp (inBounds i n >>= f) Q E s := by
  unfold inBounds
  by_cases hi : i < n
  · rw [if_pos hi, wp_pure_bind]
    exact h hi
  · rw [if_neg hi]
    exact wp_bind.mpr ((wp_throw _).mpr hE)

lemma wp_enterFamily (hE : E .overrun) :
    Wp (enterFamily me) (fun _ t => t.globals = s.globals.enter (s.proc me).pid ∧ t.vm = s.vm ∧
      t.nextpid = s.nextpid ∧ t.lock = s.lock ∧ t.noff = s.noff ∧ t.bare = s.bare ∧
      t.proc = put s.proc me { s.proc me with fid := familyOf s me }) E s := by
  unfold enterFamily Globals.enter familyOf
  rw [wp_get_bind]
  change Wp (if s.globals.registered (s.proc me).pid = true then _ else _) _ _ _
  by_cases h : s.globals.registered (s.proc me).pid = true
  · rw [if_pos h, if_pos h, if_pos h, wp_pure]
    exact ⟨rfl, rfl, rfl, rfl, rfl, rfl, (put_eq_self rfl).symm⟩
  · rw [if_neg h, if_neg h, if_neg h]
    refine wp_inBounds hE fun _ => ?_
    rw [wp_set_bind, wp_modifyProc]
    exact ⟨rfl, rfl, rfl, rfl, rfl, rfl, rfl⟩

-- the search through the families must not be evaluated
attribute [irreducible] Globals.registered

/-- The state once the caller of `mythread_create` is marked as a thread. -/
def marked (s : Sys) (me : Nat) : Sys :=
  { s with proc := put s.proc me { s.proc me with isthread := true } }

/-- The caller of `mythread_create`, in its family. -/
def creator (s : Sys) (me : Nat) : Proc :=
  { s.proc me with isthread := true, fid := familyOf s me }

/-- The slot of a new thread before it has memory. -/
def newThread (s : Sys) (me np tf r : Nat) : Proc :=
  { (s.proc np).taken s.nextpid tf r with isthread := true, fid := familyOf s me }

lemma Inv.marked (hI : Inv ld use l tab s.vm s.proc) (hme : (s.proc me).state = .RUNNING) :
    Inv ld use l tab (marked s me).vm (marked s me).proc :=
  hI.setProc (by simp [hme]) (by simp [hme]) rfl rfl rfl
    (fun _ => ⟨by simp [hme], by simp [hme]⟩) (fun _ hf => by cases hf)

lemma NoLeak.marked {K : List Nat} (h : NoLeak ld K use tab s.proc)
    (hme : (s.proc me).state = .RUNNING) : NoLeak ld K use tab (marked s me).proc :=
  h.setProc (by simp [hme]) rfl rfl rfl

/-- What `mythread_create` has done when it found no slot or no pages for one. -/
structure NoSlot (ld : Link) (use : Nat → Use) (l : List Nat) (me : Nat) (s t : Sys) : Prop where
  slots : NotTaken (marked s me) t
  globals : t.globals = s.globals
  pid : (t.nextpid = s.nextpid ∨ t.nextpid = int32 (s.nextpid + 1))
  short : l.length ≤ 6 ∨ ∀ p < NPROC, (s.proc p).state ≠ .UNUSED
  heap : ∃ l', Heap ld use l' t.vm
  same : ∀ y, use y ≠ .free → t.vm.mem y = s.vm.mem y

/-- What `mythread_create` has done to the slots and the families when it has taken slot `np`. -/
structure SlotTaken (use : Nat → Use) (me np tf r : Nat) (s t : Sys) : Prop where
  lt : np < NPROC
  unused : (s.proc np).state = .UNUSED
  free_frame : use tf = .free
  free_root : use r = .free
  globals : t.globals = s.globals.enter (s.proc me).pid
  pid : t.nextpid = int32 (s.nextpid + 1)
  slots : t.proc = put (put s.proc me (creator s me)) np (newThread s me np tf r)

/-- The page table of slot `np` is that of a thread with the memory of the caller. The size in the
slot is still 0. -/
def Sharing (ld : Link) (use : Nat → Use) (l : List Nat) (tab : Nat → Tab) (me np : Nat)
    (s t : Sys) : Prop :=
  ∃ use' l' tab', (∀ q, q ≠ np → tab' q = tab q) ∧
    (∀ j < pages (s.proc me).sz, (tab' np).pte j = (tab me).pte j) ∧
    Inv ld use' l' tab' t.vm (put t.proc np { t.proc np with sz := (s.proc me).sz }) ∧
    (∃ c ≤ 6 + 2 * pages (s.proc me).sz, l' = l.drop c) ∧
    (NoLeak ld s.kernel use tab s.proc → NoLeak ld t.kernel use' tab'
      (put t.proc np { t.proc np with sz := (s.proc me).sz }))

lemma enter_kernel (g : Globals) (pid : Int) : (g.enter pid).kernel = g.kernel := by
  unfold Globals.enter
  split
  · rfl
  · rfl

lemma familyOf_congr (hg : t.globals = s.globals) (hpid : (t.proc me).pid = (s.proc me).pid)
    (hfid : (t.proc me).fid = (s.proc me).fid) : familyOf t me = familyOf s me := by
  have hcur : t.currFid = s.currFid := congrArg Globals.currFid hg
  unfold familyOf
  rw [hg, hpid, hfid, hcur]

section family

variable {x y : Proc} {pid fid : Int} {tf : Nat}

lemma Inv.enrolled (hI : Inv ld use l tab v proc) (hne : np ≠ me)
    (hnp : proc np = x.taken pid tf r) (hme : proc me = { y with isthread := true })
    (hrun : y.state = .RUNNING) :
    Inv ld use l tab v (put (put proc np { x.taken pid tf r with isthread := true, fid := fid }) me
      { y with isthread := true, fid := fid }) := by
  have hI1 : Inv ld use l tab v
      (put proc np { x.taken pid tf r with isthread := true, fid := fid }) := by
    refine hI.setProc (by simp [Proc.taken]) ?_ ?_ ?_ ?_ (fun _ => ?_) (fun _ hf => by cases hf)
    all_goals rw [hnp]
    · simp [Proc.taken]
    · exact .of_used rfl
  refine hI1.setProc (by simp [hrun]) ?_ ?_ ?_ ?_ (fun _ => ?_) (fun _ hf => by cases hf)
  all_goals rw [put_of_ne (Ne.symm hne), hme]
  · simp [hrun]
  · exact ⟨by simp [hrun], by simp [hrun]⟩

lemma NoLeak.enrolled {K : List Nat} (h : NoLeak ld K use tab proc) (hne : np ≠ me)
    (hnp : proc np = x.taken pid tf r) (hme : proc me = { y with isthread := true })
    (hrun : y.state = .RUNNING) :
    NoLeak ld K use tab (put (put proc np { x.taken pid tf r with isthread := true, fid := fid }) me
      { y with isthread := true, fid := fid }) := by
  have h1 : NoLeak ld K use tab
      (put proc np { x.taken pid tf r with isthread := true, fid := fid }) := by
    refine h.setProc (by simp [Proc.taken]) ?_ ?_ ?_
    all_goals rw [hnp]
  refine h1.setProc (by simp [hrun]) ?_ ?_ ?_
  all_goals rw [put_of_ne (Ne.symm hne), hme]

end family

lemma wp_createBegin (hE : LockStops E) (hI : Inv ld use l tab s.vm s.proc)
    (hme : (s.proc me).state = .RUNNING) :
    Wp (createBegin ld me) (fun o t => match o with
      | none => NoSlot ld use l me s t
      | some (np, ok) => ∃ tf r, SlotTaken use me np tf r s t ∧
          if ok = true then Sharing ld use l tab me np s t
          else l.length ≤ 6 + 2 * pages (s.proc me).sz ∧
            ∃ use' l', Heap ld use' l' t.vm ∧ use' r = .table r .root ∧ use' tf = .frame np) E s := by
  have hI0 := hI.marked hme
  unfold createBegin
  rw [wp_modifyProc_bind]
  refine (wp_allocproc (s := marked s me) hE hI0).bind ?_
  rintro (_ | np) t1 ⟨hg1, h1⟩
  · obtain ⟨hproc1, hpid1, hshort, l1, hheap1, hmem1⟩ := h1
    rw [wp_pure]
    refine ⟨hproc1, hg1, hpid1, hshort.imp id fun h p hp => ?_, ⟨l1, hheap1⟩, hmem1⟩
    by_cases hpm : p = me
    · rw [hpm, hme]
      simp
    · have := h p hp
      unfold marked at this
      dsimp only at this
      rwa [put_of_ne hpm] at this
  obtain ⟨hlt, hun, hpid1, tf, r, htf, hr, hproc1, T1, use1, l1, hI1, he1, c, hc, rfl⟩ := h1
  have hne : np ≠ me := by
    rintro rfl
    simp [marked, hme] at hun
  have hnp0 : (marked s me).proc np = s.proc np := put_of_ne hne ..
  rw [hnp0] at hun hproc1 he1
  have hg1' : t1.globals = s.globals := hg1
  have hpid1' : t1.nextpid = int32 (s.nextpid + 1) := hpid1
  have hnp1 : t1.proc np = (s.proc np).taken s.nextpid tf r := by
    rw [hproc1, put_self]
    rfl
  have hme1 : t1.proc me = { s.proc me with isthread := true } := by
    rw [hproc1, put_of_ne (Ne.symm hne)]
    exact put_self ..
  have hother : ∀ q, q ≠ np → q ≠ me → t1.proc q = s.proc q := by
    intro q h1 h2
    rw [hproc1, put_of_ne h1]
    exact put_of_ne h2 ..
  rw [wp_modifyProc_bind]
  refine (wp_enterFamily hE.overrun).bind ?_
  rintro _ t2 ⟨hg2, hvm2, hpid2, _, _, _, hproc2⟩
  dsimp only at hg2 hvm2 hpid2 hproc2
  rw [put_of_ne (Ne.symm hne), hme1] at hg2 hproc2
  have hfam : familyOf { t1 with proc := put t1.proc np { t1.proc np with isthread := true } } me =
      familyOf s me := by
    refine familyOf_congr hg1' ?_ ?_
    · dsimp only
      rw [put_of_ne (Ne.symm hne), hme1]
    · dsimp only
      rw [put_of_ne (Ne.symm hne), hme1]
  rw [hfam] at hproc2
  rw [wp_get_bind, wp_modifyProc_bind]
  have hme2 : t2.proc me = creator s me := by
    rw [hproc2, put_self]
    rfl
  have hnp2 : t2.proc np = { (s.proc np).taken s.nextpid tf r with isthread := true } := by
    rw [hproc2, put_of_ne hne, put_self, hnp1]
  have hput : ∀ x y, put (put t1.proc np x) me y = put (put s.proc me y) np x := by
    intro x y
    rw [hproc1, put_put, put_comm hne]
    unfold marked
    rw [put_put]
  have hproc3 : put t2.proc np { t2.proc np with fid := (t2.proc me).fid } =
      put (put s.proc me (creator s me)) np (newThread s me np tf r) := by
    rw [hnp2, hme2, hproc2, hput, put_put]
    rfl
  have hI3 : Inv ld use1 (l.drop c) (put tab np T1) t1.vm
      (put (put s.proc me (creator s me)) np (newThread s me np tf r)) := by
    rw [← hput]
    exact hI1.enrolled hne hnp1 hme1 hme
  have hL3 : NoLeak ld s.kernel use tab s.proc → NoLeak ld s.kernel use1 (put tab np T1)
      (put (put s.proc me (creator s me)) np (newThread s me np tf r)) := by
    intro hL
    rw [← hput]
    refine NoLeak.enrolled ?_ hne hnp1 hme1 hme
    rw [hproc1]
    exact (hL.marked hme).effect (by rw [hnp0]; exact he1) not_false fun hc => by cases hc
  have hg3 : t2.globals = s.globals.enter (s.proc me).pid := by
    rw [hg2]
    change t1.globals.enter _ = _
    rw [hg1']
  have hk : t2.kernel = s.kernel := (congrArg Globals.kernel hg3).trans (enter_kernel ..)
  have htaken : ∀ v', SlotTaken use me np tf r s
      { t2 with
        vm := v'
        proc := put (put s.proc me (creator s me)) np (newThread s me np tf r) } := by
    intro v'
    exact ⟨hlt, hun, htf, hr, hg3, hpid2.trans hpid1', rfl⟩
  rw [wp_bind, wp_onVm]
  rw [hproc3, hvm2, hme2, hnp2]
  generalize hproc : put (put s.proc me (creator s me)) np (newThread s me np tf r) = proc3 at *
  have h3np : proc3 np = newThread s me np tf r := by rw [← hproc, put_self]
  have h3me : proc3 me = creator s me := by rw [← hproc, put_of_ne (Ne.symm hne), put_self]
  have hused : Holds (proc3 np) := by
    rw [h3np]
    exact .of_used rfl
  have hrun : Holds (proc3 me) := by
    rw [h3me]
    exact ⟨by simp [creator, hme], by simp [creator, hme]⟩
  have hsz0 : (proc3 np).sz = 0 := by
    rw [h3np]
    show (s.proc np).sz = 0
    rw [show s.proc np = _ from hI.unused np hun]
    rfl
  have hroots : (proc3 np).pagetable ≠ (proc3 me).pagetable :=
    fun hc => hne (hI3.roots np me hused.1 hrun.1 hc)
  have hsnp := hI3.active np hused.1
  have hcopy := wp_copytable (E := E) hroots hI3.heap (hI3.active me hrun.1).table hsnp.table ?_
    (hI3.userPages hrun)
  · rw [h3np, h3me] at hcopy
    refine hcopy.run.imp ?_
    rintro ok v4 ⟨⟨use4, l4, T4, hres⟩, hcopied⟩
    rw [wp_pure]
    refine ⟨tf, r, htaken v4, ?_⟩
    by_cases hok : ok = true
    · rw [if_pos hok] at hres ⊢
      obtain ⟨hgr, hsame, hrest⟩ := hres
      obtain ⟨hI4, he4⟩ := hI3.share (q := me) hused hsz0 (by rw [h3np]; rfl) (Ne.symm hne) hrun
        (by rw [h3me]; rfl) (by rw [h3np]; exact hgr) (by rw [h3me]; exact hsame)
        (by rw [h3me]; exact hrest)
      obtain ⟨c', hc', hl4⟩ := hgr.took
      refine ⟨use4, l4, put (put tab np T1) np T4, fun q hq => by rw [put_put, put_of_ne hq],
        fun j hj => ?_, ?_, ⟨c + c', ?_, by rw [hl4, drop_drop]⟩, fun hL => ?_⟩
      · rw [put_self, hsame j hj, put_of_ne (Ne.symm hne)]
      · rw [h3me] at hI4
        exact hI4
      · change c' ≤ 2 * pages (s.proc me).sz at hc'
        omega
      · have hL4 := (hL3 hL).effect he4 not_false fun hc => absurd hc hused.1
        rw [h3me] at hL4
        show NoLeak ld t2.kernel _ _ _
        rw [hk]
        exact hL4
    · rw [if_neg hok] at hres ⊢
      obtain ⟨T5, m, hm, hpte, hund⟩ := hres
      have hlen : (l.drop c).length ≤ 2 * pages (s.proc me).sz := by
        rw [h3np, h3me] at hroots
        have htme := (hI3.active me hrun.1).table
        have htnp := hsnp.table
        rw [h3me] at htme
        rw [h3np] at htnp
        rw [Bool.eq_false_of_not_eq_true hok] at hcopied
        exact copytable_short hI3.heap htme htnp hroots hcopied
      rw [length_drop] at hlen
      refine ⟨by omega, use4, l4, hund.heap, hund.table.use_at .root hund.table.root_ne, ?_⟩
      have hf := hsnp.frame
      rw [h3np] at hf
      change use1 tf = _ at hf
      rw [hund.keep tf (by rw [hf]; simp), hf]
      rintro ⟨j, _, h2, h3⟩
      rw [hpte j (by omega)] at h3
      have hu := (hI3.active me hrun.1).user hrun _ ⟨j, Nat.zero_le j, ?_, h3⟩
      · rw [hf] at hu
        cases hu
      · rw [h3me]
        omega
  · intro j hj
    refine hsnp.map.none j ?_ (by omega) (by omega)
    rw [hsz0]
    have : pages 0 = 0 := by decide
    omega

/-- The page of memory above the first `n` is a free page of before, and other slots have the
tables of before. -/
def StackPage (ld : Link) (use : Nat → Use) (tab tab' : Nat → Tab) (np n : Nat) : Prop :=
  (∀ q, q ≠ np → tab' q = tab q) ∧
    ∃ x, IsPage ld x ∧ use x = .free ∧ (tab' np).pte n = userPte x (PTE_W ||| PTE_R)

lemma wp_createStack {use0 : Nat → Use} {tab0 : Nat → Tab} {t0 : Sys}
    (hI : Inv ld use l tab s.vm (put s.proc np { s.proc np with sz := (s.proc me).sz }))
    (hnp : Holds (s.proc np))
    (hL : NoLeak ld t0.kernel use0 tab0 t0.proc → NoLeak ld s.kernel use tab
      (put s.proc np { s.proc np with sz := (s.proc me).sz })) :
    Wp (createStack ld me np) (fun sz t => ∃ v' use' l' tab', t = { s with vm := v' } ∧
      Inv ld use' l' tab' v' (put s.proc np
        { s.proc np with sz := if sz = 0 then (s.proc me).sz else sz }) ∧
      (NoLeak ld t0.kernel use0 tab0 t0.proc → NoLeak ld s.kernel use' tab' (put s.proc np
        { s.proc np with sz := if sz = 0 then (s.proc me).sz else sz })) ∧
      ((sz = 0 ∧ l.length ≤ 3) ∨ (sz = (s.proc me).sz + PGSIZE ∧ (∃ c ≤ 3, l' = l.drop c) ∧
        StackPage ld use tab tab' np (pages (s.proc me).sz) ∧
        ∀ j < pages (s.proc me).sz, (tab' np).pte j = (tab np).pte j))) E s := by
  have hnp' : Holds (put s.proc np { s.proc np with sz := (s.proc me).sz } np) := by
    rw [put_self]
    exact hnp
  have hlt := hI.size_lt hnp'.1
  rw [put_self] at hlt
  dsimp only at hlt
  have hnew : uint64 ((s.proc me).sz + PGSIZE) = (s.proc me).sz + PGSIZE := by
    unfold uint64 PGSIZE
    omega
  have hpages : pages ((s.proc me).sz + PGSIZE) = pages (s.proc me).sz + 1 := by
    unfold pages PGSIZE
    omega
  unfold createStack
  rw [wp_get_bind, wp_onVm, hnew]
  have hmalloc : Wp (uvmalloc ld _ _ ((s.proc me).sz + PGSIZE) (PTE_W ||| PTE_R)) _ E _ :=
    wp_uvmalloc_inv (by decide) hI hnp'
  rw [put_self] at hmalloc
  refine hmalloc.imp ?_
  rintro sz v' ⟨use', l', T', he, hI', hres⟩
  rw [put_put] at hI'
  have he' : Effect False np (put s.proc np { s.proc np with sz := (s.proc me).sz } np) (tab np)
      { s.proc np with sz := if sz = 0 then (s.proc me).sz else sz } T' use use' s.vm.mem v'.mem := by
    rw [put_self]
    exact he
  refine ⟨v', use', l', put tab np T', rfl, hI', fun h0 => ?_, ?_⟩
  · have hL' := (hL h0).effect he' not_false fun hc => absurd hc hnp.1
    rwa [put_put] at hL'
  · dsimp only at hres
    rcases hres with ⟨h1, _, h3⟩ | ⟨h1, _, hnew', c, hc, h4⟩
    · have := h3 (by unfold PGSIZE; omega)
      exact .inl ⟨h1, by omega⟩
    · have hmax : sz = (s.proc me).sz + PGSIZE := by omega
      rw [hmax, hpages] at hc hnew'
      refine .inr ⟨hmax, ⟨c, by omega, h4⟩, ⟨fun q hq => put_of_ne hq .., ?_⟩, fun j hj => ?_⟩
      · obtain ⟨x, hx, hfree, hpte⟩ := hnew'.new (pages (s.proc me).sz) le_rfl (by omega)
        exact ⟨x, hx, hfree, by rw [put_self]; exact hpte⟩
      · rw [put_self]
        exact hnew'.old j (.inl hj)

/-- The slot of a thread. -/
def threadSlot (s : Sys) (me np tf r : Nat) : Proc :=
  { newThread s me np tf r with
    sz := (s.proc me).sz + PGSIZE
    parent := some me
    state := .RUNNABLE }

/-- The tables of the threads, with a new one in slot `np`. -/
def Globals.addThread (g : Globals) (np : Nat) (creator created : Int) : Globals :=
  { g with
    threads := put g.threads g.currId np
    currId := g.currId + 1
    running := g.running + 1
    hist := .create creator created :: g.hist }

lemma wp_createFinish {newsize arg2 : Nat} {arg1 : Int} (hE : LockStops E) (hne : np ≠ me)
    (hI : Inv ld use l tab s.vm (put s.proc np { s.proc np with sz := newsize }))
    (hnp : (s.proc np).state = .USED) :
    Wp (createFinish me np newsize arg1 arg2) (fun _ t => t.nextpid = s.nextpid ∧
      t.globals = s.globals.addThread np (s.proc me).pid (s.proc np).pid ∧
      t.vm.mem (s.proc np).trapframe SP = newsize ∧
      t.proc = put s.proc np { s.proc np with
        sz := newsize
        parent := some me
        state := .RUNNABLE } ∧
      Inv ld use l tab t.vm t.proc) E s := by
  have hnp' : (put s.proc np { s.proc np with sz := newsize } np).state ≠ .UNUSED := by
    rw [put_self]
    simp [hnp]
  have htf : (put s.proc np { s.proc np with sz := newsize } np).trapframe =
      (s.proc np).trapframe := by
    rw [put_self]
  unfold createFinish
  rw [wp_modifyProc_bind, wp_get_bind]
  rw [wp_bind, wp_onVm, htf]
  refine (wp_storeFrame hI hnp' htf.symm).imp ?_
  rintro _ v1 ⟨hI1, h1⟩
  rw [wp_bind, wp_onVm]
  refine (wp_storeFrame hI1 hnp' htf.symm).imp ?_
  rintro _ v2 ⟨hI2, h2⟩
  rw [wp_bind, wp_onVm]
  refine (wp_storeFrame hI2 hnp' htf.symm).imp ?_
  rintro _ v3 ⟨hI3, h3⟩
  rw [wp_bind, wp_onVm]
  refine (wp_storeFrame hI3 hnp' htf.symm).imp ?_
  rintro _ v4 ⟨hI4, h4⟩
  refine wp_inBounds hE.overrun fun _ => ?_
  rw [wp_modify_bind]
  refine wp_release_bind hE _ fun _ _ => wp_acquire_bind hE _ fun _ _ => ?_
  rw [wp_modifyProc_bind]
  refine wp_release_bind hE _ fun _ _ => wp_acquire_bind hE _ fun _ _ => ?_
  rw [wp_modifyProc_bind]
  refine (wp_release hE _).imp ?_
  rintro _ t ⟨lock, noff, rfl⟩
  simp only [put_put, put_self, true_and]
  refine ⟨?_, ?_, ?_⟩
  · unfold Globals.addThread Sys.globals
    rw [put_of_ne (Ne.symm hne)]
  · rw [h4, putPage_self, put_of_ne (by decide), h3, putPage_self, put_of_ne (by decide), h2,
      putPage_self, put_of_ne (by decide), h1, putPage_self, put_self]
  · have hI5 := hI4.setProc (p := np) (z := { s.proc np with
      sz := newsize
      parent := some me
      state := .RUNNABLE }) (by simp) hnp' (by rw [put_self]) (by rw [put_self]) (by rw [put_self])
      (fun _ => by rw [put_self]; exact .of_used hnp) (fun _ hf => by rw [put_self]; exact hf)
    rwa [put_put] at hI5

/-- `mythread_create` does not fail while it copies the page table. -/
def CreateSafe (ld : Link) (s : Sys) (me : Nat) : Prop :=
  ∀ np t, (createBegin ld me).run s ≠ .ok (some (np, false), t)

/-- `mythread_create` takes a slot. -/
def TakesSlot (ld : Link) (s : Sys) (me : Nat) : Prop :=
  ∃ np ok t, (createBegin ld me).run s = .ok (some (np, ok), t)

/-- What `mythread_create` leaves when it fails with a slot taken: the page table of the slot is
lost. -/
structure SlotLost (ld : Link) (use : Nat → Use) (me np r : Nat) (s t : Sys) : Prop where
  lt : np < NPROC
  unused : (s.proc np).state = .UNUSED
  free_root : use r = .free
  globals : t.globals = s.globals.enter (s.proc me).pid
  pid : t.nextpid = int32 (s.nextpid + 1)
  slots : ∃ tf, t.proc = put (put s.proc me (creator s me)) np (newThread s me np tf r).freed
  lost : ∃ use' l', Heap ld use' l' t.vm ∧ use' r = .table r .root

/-- What `mythread_create` has done when it succeeds. -/
structure Created (me np tf r : Nat) (s t : Sys) : Prop where
  lt : np < NPROC
  unused : (s.proc np).state = .UNUSED
  globals : t.globals = (s.globals.enter (s.proc me).pid).addThread np (s.proc me).pid s.nextpid
  pid : t.nextpid = int32 (s.nextpid + 1)
  slots : t.proc = put (put s.proc me (creator s me)) np (threadSlot s me np tf r)

lemma wp_dropThread {tf : Nat} (h : SlotTaken use me np tf r s t) (hheap : Heap ld use' l' t.vm)
    (hr : use' r = .table r .root) (htf : use' tf = .frame np) :
    Wp (freeproc ld me np) (fun _ u => SlotLost ld use me np r s u ∧ u.proc = put t.proc np
        (newThread s me np tf r).freed ∧ ∃ l1, Heap ld (put use' tf .free) l1 u.vm ∧
      ∀ y, y ≠ tf → u.vm.mem y = t.vm.mem y) E t := by
  have htf0 : tf ≠ 0 := (hheap.page tf (by rw [htf]; simp)).ne_zero
  have hrtf : r ≠ tf := by
    rintro rfl
    rw [hr] at htf
    cases htf
  have hx : t.proc np = newThread s me np tf r := by
    rw [h.slots, put_self]
  refine (wp_freeproc_frame rfl hx hheap (.inr rfl) fun _ => htf).imp ?_
  rintro _ u ⟨hg, hpid, hproc, l1, hheap1, hmem1⟩
  change Heap ld (if tf = 0 then use' else put use' tf .free) l1 u.vm at hheap1
  rw [if_neg htf0] at hheap1
  refine ⟨⟨h.lt, h.unused, h.free_root, hg.trans h.globals, hpid.trans h.pid, ⟨tf, ?_⟩,
    ⟨_, l1, hheap1, ?_⟩⟩, hproc, l1, hheap1, fun y hy => hmem1 y (.inl hy)⟩
  · rw [hproc, h.slots, put_put]
  · rw [put_of_ne hrtf, hr]

lemma wp_mythread_create {arg1 : Int} {arg2 : Nat} (hE : LockStops E)
    (hI : Inv ld use l tab s.vm s.proc) (hme : (s.proc me).state = .RUNNING) :
    Wp (mythread_create ld me arg1 arg2) (fun res t =>
      (res = -1 ∧ NoSlot ld use l me s t) ∨
      (res = -1 ∧ (TakesSlot ld s me ∧ l.length ≤ 9 + 2 * pages (s.proc me).sz) ∧
        (∃ np r, SlotLost ld use me np r s t) ∧
        (CreateSafe ld s me → ∃ use' l' tab', Inv ld use' l' tab' t.vm t.proc)) ∨
      (res = 0 ∧ ∃ np tf r, Created me np tf r s t ∧ t.vm.mem tf SP = (s.proc me).sz + PGSIZE ∧
        ∃ use' l' tab', (StackPage ld use tab tab' np (pages (s.proc me).sz) ∧
          ∀ j < pages (s.proc me).sz, (tab' np).pte j = (tab me).pte j) ∧
        Inv ld use' l' tab' t.vm t.proc ∧ (∃ c ≤ 9 + 2 * pages (s.proc me).sz, l' = l.drop c) ∧
        (NoLeak ld s.kernel use tab s.proc → NoLeak ld t.kernel use' tab' t.proc))) E s := by
  refine (wp_createBegin hE hI hme).run.bind ?_
  rintro (_ | ⟨np, ok⟩) t ⟨h1, hrun⟩
  · dsimp only at h1 ⊢
    rw [wp_pure]
    exact .inl ⟨rfl, h1⟩
  obtain ⟨tf, r, htk, h1⟩ := h1
  have htakes : TakesSlot ld s me := ⟨np, ok, t, hrun⟩
  dsimp only
  have hne : np ≠ me := by
    rintro rfl
    have := htk.unused
    rw [hme] at this
    cases this
  have hnp : t.proc np = newThread s me np tf r := by
    rw [htk.slots, put_self]
  have hpme : t.proc me = creator s me := by
    rw [htk.slots, put_of_ne (Ne.symm hne), put_self]
  by_cases hok : ok = true
  · rw [if_pos hok] at h1
    rw [if_neg (by simp [hok])]
    obtain ⟨use1, l1, tab1, htab1, hshare1, hI1, ⟨c, hc, hl1⟩, hL1⟩ := h1
    have hsz : (t.proc me).sz = (s.proc me).sz := by
      rw [hpme]
      rfl
    rw [← hsz] at hI1 hL1
    refine (wp_createStack hI1 (by rw [hnp]; exact .of_used rfl) hL1).bind ?_
    rintro newsize _ ⟨v2, use2, l2, tab2, rfl, hI2, hL2, hres⟩
    rcases hres with ⟨rfl, hlen⟩ | ⟨hnew, ⟨c2, hc2, hl2⟩, ⟨htab2, x, hx, hfree, hpte⟩, hold⟩
    · -- the slot and its lock are left, and the thread has nothing but its page table
      rw [if_pos rfl] at hI2 ⊢
      have hnp2 : (put t.proc np { t.proc np with sz := (t.proc me).sz } np).state ≠ .UNUSED := by
        rw [put_self, hnp]
        simp [newThread, Proc.taken]
      have hs2 := hI2.active np hnp2
      have hroot := hs2.table.use_at .root hs2.table.root_ne
      have hfr := hs2.frame
      rw [put_self, hnp] at hfr hroot
      refine (wp_dropThread (t := { t with vm := v2 }) { htk with } hI2.heap hroot hfr).bind ?_
      rintro _ u ⟨hlost, hproc, l3, hheap3, hmem3⟩
      rw [wp_pure]
      rw [hl1, length_drop] at hlen
      refine .inr (.inl ⟨rfl, ⟨htakes, by omega⟩, ⟨np, r, hlost⟩, fun _ => ⟨put use2 tf .free, l3, tab2, ?_⟩⟩)
      have htf2 : (put t.proc np { t.proc np with sz := (t.proc me).sz } np).trapframe = tf := by
        rw [put_self, hnp]
        rfl
      have hI3 := (hI2.free_thread hnp2 (by rw [htf2]; exact hheap3)
        (by rw [htf2]; exact hmem3)).1
      rw [htf2, put_put, put_self] at hI3
      rw [hproc]
      rw [hnp] at hI3
      exact hI3
    · have hpos : newsize ≠ 0 := by
        rw [hnew]
        unfold PGSIZE
        omega
      rw [if_neg hpos] at hI2 hL2 ⊢
      refine (wp_createFinish (s := { t with vm := v2 }) hE hne hI2 (by rw [hnp]; rfl)).bind ?_
      rintro _ u ⟨hpid, hg, hsp, hproc, hI3⟩
      rw [wp_pure]
      dsimp only at hproc hg hpid hsp
      have hslot : u.proc = put (put s.proc me (creator s me)) np (threadSlot s me np tf r) := by
        rw [hproc, hnp, htk.slots, put_put, hnew, hsz]
        rfl
      have hg' : u.globals =
          (s.globals.enter (s.proc me).pid).addThread np (s.proc me).pid s.nextpid := by
        rw [hg, hpme, hnp]
        show t.globals.addThread _ _ _ = _
        rw [htk.globals]
        rfl
      have hsp' : u.vm.mem tf SP = (s.proc me).sz + PGSIZE := by
        rw [hnp] at hsp
        rw [← hsz, ← hnew]
        exact hsp
      -- the page of the stack was free before the slot was taken
      have hfree' : use x = .free := by
        have hmem : x ∈ l.drop c := hl1 ▸ (hI1.heap.mem_iff x).mpr hfree
        exact (hI.heap.mem_iff x).mp (mem_of_mem_drop hmem)
      rw [hsz] at hpte hold
      refine .inr (.inr ⟨rfl, np, tf, r, ⟨htk.lt, htk.unused, hg', hpid.trans htk.pid, hslot⟩,
        hsp', use2, l2, tab2, ⟨⟨fun q hq => (htab2 q hq).trans (htab1 q hq), x, hx, hfree', hpte⟩,
          fun j hj => (hold j hj).trans (hshare1 j hj)⟩, hI3, ⟨c + c2, by omega, by rw [hl2, hl1, drop_drop]⟩, fun hL => ?_⟩)
      have hL3 := (hL2 hL).setProc (p := np) (z := { t.proc np with
        sz := newsize
        parent := some me
        state := .RUNNABLE }) (by simp) (by rw [put_self]) (by rw [put_self]) (by rw [put_self])
      rw [put_put] at hL3
      have hk : u.kernel = t.kernel := congrArg Globals.kernel hg
      rw [hproc, hk]
      exact hL3
  · have hfalse : ok = false := by simpa using hok
    rw [if_neg hok] at h1
    rw [if_pos hfalse]
    obtain ⟨hlen, use1, l1, hheap1, hr1, htf1⟩ := h1
    refine (wp_dropThread htk hheap1 hr1 htf1).bind ?_
    rintro _ u ⟨hlost, _, _⟩
    refine wp_release_bind hE _ fun lock noff => ?_
    rw [wp_pure]
    refine .inr (.inl ⟨rfl, ⟨htakes, by omega⟩, ⟨np, r, hlost.lt, hlost.unused, hlost.free_root, hlost.globals,
      hlost.pid, hlost.slots, hlost.lost⟩, fun hsafe => ?_⟩)
    rw [hfalse] at hrun
    exact absurd hrun (hsafe np t)

/-! ## `mythread_join` -/

lemma wp_freeThreads (hI : Inv ld use l tab s.vm s.proc) (is : List Nat)
    (hun : ∀ i ∈ is, (s.proc (s.threads i)).state = .UNUSED) :
    Wp (freeThreads ld me is) (fun _ t => t.globals = s.globals ∧ t.nextpid = s.nextpid ∧
      (∀ p, (s.proc p).state = .UNUSED → (t.proc p).state = .UNUSED) ∧
      Stays ld True use tab s t) E s := by
  induction is generalizing s use l with
  | nil =>
    unfold freeThreads
    rw [wp_pure]
    exact ⟨rfl, rfl, fun _ => id, use, l, tab, hI, fun _ hL => hL⟩
  | cons i is ih =>
    have hi := hun i mem_cons_self
    have hb := hI.unused _ hi
    have hI1 : Inv ld use l tab s.vm (put s.proc (s.threads i)
        { s.proc (s.threads i) with isthread := false }) := by
      refine hI.setUnused hi hi ?_
      unfold Proc.Blank at hb ⊢
      rw [hb]
      rfl
    unfold freeThreads
    rw [wp_get_bind, wp_modifyProc_bind]
    refine (wp_freeproc (s := { s with
      proc := put s.proc (s.threads i) { s.proc (s.threads i) with isthread := false } }) hI1).bind ?_
    rintro _ t ⟨hg, hpid, hproc, use1, l1, hI2, he⟩
    dsimp only at hproc he hpid
    rw [put_self] at he
    rw [put_put, put_self] at hproc
    have hthr : t.threads = s.threads := congrArg Globals.threads hg
    have hstay : ∀ p, (s.proc p).state = .UNUSED → (t.proc p).state = .UNUSED := by
      intro p hp
      rw [hproc]
      by_cases hpi : p = s.threads i
      · rw [hpi, put_self]
        rfl
      · rw [put_of_ne hpi]
        exact hp
    refine (ih hI2 fun j hj => ?_).imp ?_
    · rw [hthr]
      exact hstay _ (hun j (mem_cons_of_mem i hj))
    · rintro _ u ⟨hgu, hpidu, hunu, use2, l2, tab2, hI3, hL3⟩
      refine ⟨hgu.trans hg, hpidu.trans hpid, fun p hp => hunu p (hstay p hp), use2, l2, tab2, hI3,
        fun _ hL => hL3 trivial ?_⟩
      have hL1 : NoLeak ld s.kernel use tab (put s.proc (s.threads i)
          { s.proc (s.threads i) with isthread := false }) :=
        hL.setUnused hi fun hc => by cases hc
      have hL2 := hL1.effect (p := s.threads i) (by rw [put_self]; exact he) (by simp) fun _ => rfl
      rw [put_put, put_eq_self (rfl : tab (s.threads i) = _), ← hproc] at hL2
      rw [show t.kernel = s.kernel from kernel_eq hg]
      exact hL2

/-- When `mythread_join` clears the table of threads, the slots in it are unused. -/
def JoinSafe (ld : Link) (s : Sys) (me : Nat) : Prop :=
  ∀ res t, (wait ld me 0).run s = .ok (res, t) → t.running = 1 →
    ∀ i < t.currId - 1, (t.proc (t.threads i)).state = .UNUSED

lemma wp_mythread_join (hE : LockStops E) (hI : Inv ld use l tab s.vm s.proc)
    (hme : Holds (s.proc me)) (hsafe : JoinSafe ld s me) :
    Wp (mythread_join ld me) (fun _ t => Stays ld (NoThreadFreed s t) use tab s t) E s := by
  refine (wp_wait hE hI hme).run.bind ?_
  rintro res u ⟨⟨hg, ⟨use1, l1, tab1, hI1, hL1⟩, _, _⟩, hrun⟩
  rw [wp_modify_bind, wp_get_bind]
  dsimp only
  by_cases h0 : u.running = 1
  · rw [if_pos (by omega), bind_assoc]
    refine (wp_freeThreads (s := { u with running := u.running - 1, joined := u.joined + 1 }) hI1 _
      fun i hi => ?_).bind ?_
    · exact hsafe res u hrun h0 i (mem_range.mp hi)
    rintro _ t ⟨_, _, hun, use2, l2, tab2, hI2, hL2⟩
    rw [wp_modify_bind, wp_pure]
    refine ⟨use2, l2, tab2, hI2, fun ht hL => hL2 trivial (hL1 (fun p h1 h2 => ?_) hL)⟩
    exact ht p h1 (hun p h2)
  · rw [if_neg (by omega), wp_pure_bind, wp_pure]
    exact ⟨use1, l1, tab1, hI1, hL1⟩

end xv6.proc
