-- A slot of the process table is taken and given back: `allocproc` and
-- `freeproc`.
import Xv6.ProcTable

open cells linked wp List

namespace xv6.proc

open vm

variable {ld : Link} {use use' : Nat → Use} {l l' : List Nat} {tab : Nat → Tab}
  {me p q r k : Nat} {T' : Tab} {s t : Sys} {E : Stop → Prop} {α : Type}

/-! ## Rules -/

variable {Q : α → Sys → Prop} {v v' : Vm} {x : Proc}

@[simp] lemma wp_onVm {m : V α} :
    Wp (onVm m) Q E s ↔ Wp m (fun a v => Q a { s with vm := v }) E s.vm := by
  unfold Wp
  rcases h : m.run s.vm with e | ⟨a, v⟩
  · have hrun : (onVm m).run s = .error e := by
      show onVm m s = _
      unfold onVm
      rw [h]
    rw [hrun]
  · have hrun : (onVm m).run s = .ok (a, { s with vm := v }) := by
      show onVm m s = _
      unfold onVm
      rw [h]
    rw [hrun]

@[simp] lemma wp_modifyProc {f : Proc → Proc} {Q : Unit → Sys → Prop} :
    Wp (modifyProc p f) Q E s ↔ Q () { s with proc := put s.proc p (f (s.proc p)) } :=
  wp_modify _

@[simp] lemma wp_modifyProc_bind {f : Proc → Proc} {m : Unit → K α} :
    Wp (modifyProc p f >>= m) Q E s ↔
      Wp (m ()) Q E { s with proc := put s.proc p (f (s.proc p)) } :=
  wp_modify_bind _ m

/-- The stops of the locks. -/
structure LockStops (E : Stop → Prop) : Prop where
  sleep : E .sleep
  acquire : E (.panic "acquire")
  release : E (.panic "release")
  pop_off : E (.panic "pop_off")
  overrun : E .overrun

def Locks (s t : Sys) : Prop := ∃ lock noff, t = { s with lock := lock, noff := noff }

section

variable (hE : LockStops E) (lk : Lock)
include hE lk

lemma wp_acquire :
    Wp (acquire me lk) (fun _ t => Locks s t) E s := by
  unfold acquire
  rw [wp_get_bind]
  split
  · rw [wp_set]
    exact ⟨_, _, rfl⟩
  · apply wp_ite <;> intro _
    · rw [wp_throw]
      exact hE.acquire
    · rw [wp_throw]
      exact hE.sleep

lemma wp_release :
    Wp (release me lk) (fun _ t => Locks s t) E s := by
  unfold release
  rw [wp_get_bind]
  apply wp_ite <;> intro _
  · apply wp_ite <;> intro _
    · rw [wp_throw]
      exact hE.pop_off
    · rw [wp_set]
      exact ⟨_, _, rfl⟩
  · rw [wp_throw]
    exact hE.release

lemma wp_acquire_bind {m : Unit → K α}
    (h : ∀ lock noff, Wp (m ()) Q E { s with lock := lock, noff := noff }) :
    Wp (acquire me lk >>= m) Q E s := by
  refine (wp_acquire hE lk).bind ?_
  rintro _ t ⟨lock, noff, rfl⟩
  exact h lock noff

lemma wp_release_bind {m : Unit → K α}
    (h : ∀ lock noff, Wp (m ()) Q E { s with lock := lock, noff := noff }) :
    Wp (release me lk >>= m) Q E s := by
  refine (wp_release hE lk).bind ?_
  rintro _ t ⟨lock, noff, rfl⟩
  exact h lock noff

end

/-- The tables of the threads, and what is recorded. -/
structure Globals where
  initproc : Nat
  families : Nat → Int
  currFid : Nat
  threads : Nat → Nat
  currId : Nat
  running : Int
  joined : Int
  kernel : List Nat
  hist : List Event

/-- What a call on slots leaves as it is. -/
def Sys.globals (s : Sys) : Globals where
  initproc := s.initproc
  families := s.families
  currFid := s.currFid
  threads := s.threads
  currId := s.currId
  running := s.running
  joined := s.joined
  kernel := s.kernel
  hist := s.hist

lemma kernel_eq (h : t.globals = s.globals) : t.kernel = s.kernel := congrArg Globals.kernel h

/-! ## `freeproc` -/

lemma Inv.unused_zero {proc : Nat → Proc} (hI : Inv ld use l tab v proc)
    (hp : (proc p).state = .UNUSED) : (proc p).trapframe = 0 ∧ (proc p).pagetable = 0 := by
  rw [show proc p = _ from hI.unused p hp]
  exact ⟨rfl, rfl⟩

lemma Inv.frame_page {proc : Nat → Proc} (hI : Inv ld use l tab v proc)
    (hp : (proc p).state ≠ .UNUSED) : IsPage ld (proc p).trapframe :=
  hI.heap.page _ (by rw [(hI.active p hp).frame]; simp)

lemma Inv.setUnused {proc : Nat → Proc} (hI : Inv ld use l tab v proc)
    (hp : (proc p).state = .UNUSED) (hx : x.state = .UNUSED) (hb : x.Blank) :
    Inv ld use l tab v (put proc p x) := by
  have he : Effect False p (proc p) (tab p) x (tab p) use use v.mem v.mem :=
    fun y => .inl ⟨rfl, fun ho => absurd hp ho.1, fun _ => rfl⟩
  have hinv := hI.effect he hI.heap (fun h => absurd hx h) (fun h => absurd hx h) (fun _ => hb)
    (.inr rfl) (fun q _ _ h => absurd hx h) ?_ (fun h => absurd hx h.1)
  · rwa [put_eq_self rfl] at hinv
  · intro q _ hh y hy
    rw [(hI.active q hh.1).user hh y hy]
    simp

lemma Inv.blank {proc : Nat → Proc} (hI : Inv ld use l tab v proc)
    (hp : (proc p).state = .UNUSED) : Inv ld use l tab v (put proc p (proc p).freed) :=
  hI.setUnused hp rfl rfl

lemma Inv.free_thread {proc : Nat → Proc} (hI : Inv ld use l tab v proc)
    (hp : (proc p).state ≠ .UNUSED)
    (hheap : Heap ld (put use (proc p).trapframe .free) l' v')
    (hmem : ∀ y, y ≠ (proc p).trapframe → v'.mem y = v.mem y) :
    Inv ld (put use (proc p).trapframe .free) l' tab v' (put proc p (proc p).freed) ∧
      Effect True p (proc p) (tab p) (proc p).freed (tab p) use (put use (proc p).trapframe .free)
        v.mem v'.mem := by
  have hs := hI.active p hp
  have he : Effect True p (proc p) (tab p) (proc p).freed (tab p) use
      (put use (proc p).trapframe .free) v.mem v'.mem := by
    intro y
    by_cases hy : y = (proc p).trapframe
    · refine .inr (.inr ⟨by rw [hy, put_self], .inr ⟨hp, .inr (.inl ⟨?_, hy.symm⟩)⟩⟩)
      rw [hy]
      exact hs.frame
    · exact .inl ⟨put_of_ne hy .., fun _ => trivial, fun _ => hmem y hy⟩
  have hinv := hI.effect he hheap (fun h => absurd rfl h) (fun h => absurd rfl h) (fun _ => rfl)
    (.inr ?_) (fun q _ _ h => absurd rfl h) ?_ (fun h => absurd rfl h.1)
  · rw [put_eq_self rfl] at hinv
    exact ⟨hinv, he⟩
  · apply put_of_ne
    intro hc
    have h1 := hs.table.use_at .root hs.table.root_ne
    rw [show (tab p).at (proc p).pagetable .root = (proc p).pagetable from rfl, hc, hs.frame] at h1
    cases h1
  · intro q _ hh y hy
    have hu := (hI.active q hh.1).user hh y hy
    rw [put_of_ne, hu]
    · simp
    · rintro rfl
      rw [hs.frame] at hu
      cases hu

lemma Inv.free_process {v v1 v' : Vm} {proc : Nat → Proc} (hI : Inv ld use l tab v proc)
    (hp : (proc p).state ≠ .UNUSED) (hth : (proc p).isthread = false)
    (hmem : ∀ y, y ≠ (proc p).trapframe → v1.mem y = v.mem y)
    (hf : Freed ld (put use (proc p).trapframe .free) v1
      (fun y => Covers (tab p) 0 (pages (proc p).sz) y ∨
        ∃ pl, put use (proc p).trapframe .free y = .table (proc p).pagetable pl) (fun _ => False)
      use' l' v') :
    Inv ld use' l' tab v' (put proc p (proc p).freed) ∧
      Effect False p (proc p) (tab p) (proc p).freed (tab p) use use' v.mem v'.mem := by
  have hs := hI.active p hp
  have hhold : Holds (proc p) := ⟨hp, fun hc => by rw [hth] at hc; exact absurd hc.2 (by simp)⟩
  have htab : ∀ y pl, put use (proc p).trapframe .free y = .table (proc p).pagetable pl ↔
      use y = .table (proc p).pagetable pl := by
    intro y pl
    by_cases hy : y = (proc p).trapframe
    · rw [hy, put_self, hs.frame]
      simp
    · rw [put_of_ne hy]
  have he : Effect False p (proc p) (tab p) (proc p).freed (tab p) use use' v.mem v'.mem := by
    intro y
    by_cases hc : Covers (tab p) 0 (pages (proc p).sz) y ∨
        ∃ pl, put use (proc p).trapframe .free y = .table (proc p).pagetable pl
    · refine .inr (.inr ⟨hf.freed y hc, .inr ⟨hp, ?_⟩⟩)
      rcases hc with hc | ⟨pl, hc⟩
      · exact .inr (.inr ⟨hs.user hhold y hc, hc⟩)
      · exact .inl ⟨pl, (htab y pl).mp hc⟩
    · by_cases hy : y = (proc p).trapframe
      · refine .inr (.inr ⟨?_, .inr ⟨hp, .inr (.inl ⟨?_, hy.symm⟩)⟩⟩)
        · rw [hf.keep y hc, hy, put_self]
        · rw [hy]
          exact hs.frame
      · refine .inl ⟨?_, ?_, fun hyf => ?_⟩
        · rw [hf.keep y hc, put_of_ne hy]
        · rintro ⟨_, ⟨pl, h1⟩ | ⟨_, h1⟩ | ⟨_, h1⟩⟩
          · exact hc (.inr ⟨pl, (htab y pl).mpr h1⟩)
          · exact hy h1.symm
          · exact hc (.inl h1)
        · rw [hf.same y (by rw [put_of_ne hy]; exact hyf) hc not_false, hmem y hy]
  have hinv := hI.effect he hf.heap (fun h => absurd rfl h) (fun h => absurd rfl h) (fun _ => rfl)
    (.inl ?_) (fun q _ _ h => absurd rfl h) ?_ (fun h => absurd rfl h.1)
  · rw [put_eq_self rfl] at hinv
    exact ⟨hinv, he⟩
  · intro y pl hy
    by_cases hc : Covers (tab p) 0 (pages (proc p).sz) y ∨
        ∃ pl, put use (proc p).trapframe .free y = .table (proc p).pagetable pl
    · rw [hf.freed y hc] at hy
      cases hy
    · rw [hf.keep y hc] at hy
      exact hc (.inr ⟨pl, hy⟩)
  · intro q hqp hh y hy
    have hu := (hI.active q hh.1).user hh y hy
    rw [hf.keep y, put_of_ne, hu]
    · simp
    · rintro rfl
      rw [hs.frame] at hu
      cases hu
    · rintro (hc | ⟨pl, hc⟩)
      · exact hI.apart p q (Ne.symm hqp) hhold hh hth y hc hy
      · rw [htab, hu] at hc
        cases hc

lemma wp_freeproc_body {Q : Unit → Sys → Prop}
    (h : ∀ u : Sys, u.vm = s.vm → u.proc = s.proc →
      u.globals = s.globals → u.nextpid = s.nextpid →
      Wp (do
        (if (u.proc p).trapframe ≠ 0 then onVm (kfree ld (u.proc p).trapframe) else return ())
        (if (u.proc p).pagetable ≠ 0 ∧ (u.proc p).isthread = false then
          onVm (proc_freepagetable ld (u.proc p).pagetable (u.proc p).sz)
        else
          return ())
        modifyProc p Proc.freed) Q E u) : Wp (freeproc ld me p) Q E s := by
  unfold freeproc
  rw [wp_modify_bind, wp_get_bind]
  by_cases hlock : s.lock (.proc p) = some me
  · rw [if_pos hlock]
    exact h s rfl rfl rfl rfl
  · rw [if_neg hlock]
    exact h _ rfl rfl rfl rfl

lemma wp_freeproc (hI : Inv ld use l tab s.vm s.proc) :
    Wp (freeproc ld me p) (fun _ t => t.globals = s.globals ∧ t.nextpid = s.nextpid ∧
      t.proc = put s.proc p (s.proc p).freed ∧ ∃ use' l', Inv ld use' l' tab t.vm t.proc ∧
        Effect ((s.proc p).isthread = true) p (s.proc p) (tab p) (s.proc p).freed (tab p) use use'
          s.vm.mem t.vm.mem) E s := by
  refine wp_freeproc_body fun u hvm hproc hg hpid => ?_
  rw [hproc]
  by_cases hp : (s.proc p).state = .UNUSED
  · obtain ⟨h1, h2⟩ := hI.unused_zero hp
    rw [h1, h2, if_neg (by simp), if_neg (by simp), wp_pure_bind, wp_pure_bind, wp_modifyProc, hproc]
    refine ⟨hg, hpid, rfl, use, l, ?_, fun y => .inl ⟨rfl, fun ho => absurd hp ho.1, fun _ => ?_⟩⟩
    · dsimp only
      rw [hvm]
      exact hI.blank hp
    · dsimp only
      rw [hvm]
  · have hs := hI.active p hp
    have hpage := hI.frame_page hp
    rw [if_pos hpage.ne_zero, wp_bind, wp_onVm, hvm]
    refine (wp_kfree hI.heap hpage (by rw [hs.frame]; simp)).imp ?_
    rintro _ v1 ⟨hheap1, hmem1⟩
    by_cases hth : (s.proc p).isthread = false
    · rw [if_pos ⟨hs.table.root_ne, hth⟩, wp_bind, wp_onVm]
      have hhold : Holds (s.proc p) := ⟨hp, fun hc => by rw [hth] at hc; exact absurd hc.2 (by simp)⟩
      have htab1 : Table (put use (s.proc p).trapframe .free) v1.mem (s.proc p).pagetable (tab p) :=
        hs.table.reuse (by rw [hs.frame]; simp) (by simp) hmem1
      refine (wp_proc_freepagetable hheap1 htab1 hs.map ?_).imp ?_
      · intro k hk
        have hku := hs.user hhold _ ⟨k, Nat.zero_le k, by omega, rfl⟩
        rw [put_of_ne, hku]
        intro hc
        rw [hc, hs.frame] at hku
        cases hku
      · rintro _ v2 ⟨use2, l2, hf⟩
        rw [wp_modifyProc]
        obtain ⟨hinv, he⟩ := hI.free_process hp hth hmem1 hf
        refine ⟨hg, hpid, by dsimp only; rw [hproc], use2, l2,
          by dsimp only; rw [hproc]; exact hinv, ?_⟩
        rw [hth]
        exact fun y => (he y).imp (fun h => ⟨h.1, fun ho => (h.2.1 ho).elim, h.2.2⟩) id
    · have hth' : (s.proc p).isthread = true := by simpa using hth
      rw [if_neg fun hc => hth hc.2, wp_pure_bind, wp_modifyProc]
      obtain ⟨hinv, he⟩ := hI.free_thread hp hheap1 hmem1
      refine ⟨hg, hpid, by dsimp only; rw [hproc], _, _,
        by dsimp only; rw [hproc]; exact hinv, ?_⟩
      exact fun y => (he y).imp (fun h => ⟨h.1, fun _ => hth', h.2.2⟩) id

/-! ## `allocproc` -/

lemma Inv.congr {proc : Nat → Proc} (hI : Inv ld use l tab v proc)
    (hheap : Heap ld use l' v') (hmem : ∀ y, use y ≠ .free → v'.mem y = v.mem y) :
    Inv ld use l' tab v' proc := by
  refine ⟨hheap, hI.rooted, hI.unused, hI.slots, fun p hp => ?_, hI.roots, hI.apart⟩
  have hs := hI.active p hp
  refine ⟨hs.table.congr (fun _ _ => Iff.rfl) fun y pl hy => hmem y ?_, hs.map, hs.frame, hs.user⟩
  rw [hy]
  simp

lemma NoLeak.setUnused {K : List Nat} {proc : Nat → Proc}
    (h : NoLeak ld K use tab proc) (hp : (proc p).state = .UNUSED)
    (hx : x.isthread = true → (proc p).isthread = true) : NoLeak ld K use tab (put proc p x) := by
  have hother : ∀ q, (proc q).state ≠ .UNUSED → put proc p x q = proc q := by
    intro q hq
    refine put_of_ne ?_ ..
    rintro rfl
    exact hq hp
  refine ⟨h.known, h.arg, h.kernel, fun y r pl hy => ?_, fun y q hy => ?_, fun y hy => ?_,
    fun q hq => ?_⟩
  · obtain ⟨q, h1, h2⟩ := h.table y r pl hy
    exact ⟨q, by rw [hother q h1]; exact ⟨h1, h2⟩⟩
  · obtain ⟨h1, h2⟩ := h.frame y q hy
    rw [hother q h1]
    exact ⟨h1, h2⟩
  · obtain ⟨q, h1, h2⟩ := h.user y hy
    exact ⟨q, by rw [hother q h1]; exact ⟨h1, h2⟩⟩
  · by_cases hqp : q = p
    · rw [hqp, put_self]
      have hf := h.flag p hp
      by_contra hc
      rw [hx (by simpa using hc)] at hf
      cases hf
    · rw [put_of_ne hqp] at hq ⊢
      exact h.flag q hq

lemma NoLeak.blank {K : List Nat} {proc : Nat → Proc} (h : NoLeak ld K use tab proc)
    (hp : (proc p).state = .UNUSED) : NoLeak ld K use tab (put proc p (proc p).freed) :=
  h.setUnused hp id

lemma wp_allocpid (hE : LockStops E) :
    Wp (allocpid me) (fun pid t => pid = s.nextpid ∧ ∃ lock noff,
      t = { s with nextpid := int32 (s.nextpid + 1), lock := lock, noff := noff }) E s := by
  refine wp_acquire_bind hE _ fun lock noff => ?_
  rw [wp_get_bind, wp_set_bind]
  refine wp_release_bind hE _ fun lock' noff' => ?_
  rw [wp_pure]
  exact ⟨rfl, lock', noff', rfl⟩

lemma wp_findUnused (hE : LockStops E) (ps : List Nat) :
    Wp (findUnused me ps) (fun o t => Locks s t ∧ match o with
      | none => ∀ p ∈ ps, (s.proc p).state ≠ .UNUSED
      | some p => p ∈ ps ∧ (s.proc p).state = .UNUSED) E s := by
  induction ps generalizing s with
  | nil =>
    unfold findUnused
    rw [wp_pure]
    exact ⟨⟨s.lock, s.noff, rfl⟩, by simp⟩
  | cons p ps ih =>
    refine wp_acquire_bind hE _ fun lock noff => ?_
    rw [wp_get_bind]
    apply wp_ite <;> intro hp
    · rw [wp_pure]
      exact ⟨⟨lock, noff, rfl⟩, mem_cons_self, hp⟩
    · refine wp_release_bind hE _ fun lock' noff' => ?_
      refine ih.imp ?_
      rintro o t ⟨⟨lock2, noff2, rfl⟩, ho⟩
      refine ⟨⟨lock2, noff2, rfl⟩, ?_⟩
      cases o with
      | none =>
        intro q hq
        rcases mem_cons.mp hq with rfl | hq
        · exact hp
        · exact ho q hq
      | some q => exact ⟨mem_cons_of_mem p ho.1, ho.2⟩

lemma wp_freeproc_frame (hvm : s.vm = v) (hx : s.proc p = x)
    (hheap : Heap ld use l v) (hpt : x.pagetable = 0 ∨ x.isthread = true)
    (htf : x.trapframe ≠ 0 → use x.trapframe = .frame p) :
    Wp (freeproc ld me p) (fun _ t => t.globals = s.globals ∧ t.nextpid = s.nextpid ∧
      t.proc = put s.proc p x.freed ∧ ∃ l',
        Heap ld (if x.trapframe = 0 then use else put use x.trapframe .free) l' t.vm ∧
        ∀ y, y ≠ x.trapframe ∨ x.trapframe = 0 → t.vm.mem y = v.mem y) E s := by
  refine wp_freeproc_body fun u hvm' hproc hg hpid => ?_
  have hno : ¬ (x.pagetable ≠ 0 ∧ x.isthread = false) := by
    rintro ⟨h1, h2⟩
    rcases hpt with hpt | hpt
    · exact h1 hpt
    · rw [h2] at hpt
      cases hpt
  rw [hproc, hx]
  by_cases h0 : x.trapframe = 0
  · rw [h0, if_neg (by simp), if_neg hno, wp_pure_bind, wp_pure_bind, wp_modifyProc, hproc,
      if_pos rfl, hx]
    rw [hvm', hvm]
    exact ⟨hg, hpid, rfl, l, hheap, fun _ _ => rfl⟩
  · have hu := htf h0
    rw [if_pos h0, if_neg hno, wp_bind, wp_onVm, hvm', hvm, if_neg h0]
    refine (wp_kfree hheap (hheap.page _ (by rw [hu]; simp)) (by rw [hu]; simp)).imp ?_
    rintro _ v1 ⟨hheap1, hmem1⟩
    rw [wp_pure_bind, wp_modifyProc]
    rw [hproc, hx]
    exact ⟨hg, hpid, rfl, _, hheap1,
      fun y hy => hmem1 y (hy.resolve_right h0)⟩

/-- A slot after `allocproc`. -/
def Proc.taken (x : Proc) (pid : Int) (tf r : Nat) : Proc :=
  { x with pid := pid, state := .USED, trapframe := tf, pagetable := r }

lemma Inv.take {v v1 v' : Vm} {proc : Nat → Proc} {tf : Nat}
    (hI : Inv ld use l tab v proc) (pid : Int) (hp : (proc p).state = .UNUSED) (hlt : p < NPROC)
    (htf : use tf = .free) (hmem : ∀ y, y ≠ tf → v1.mem y = v.mem y) (hr : use r = .free)
    (hrtf : r ≠ tf)
    (hb : Built ld (put use tf (.frame p)) v1.mem r tf 0 T' use' l' v') :
    Inv ld use' l' (put tab p T') v' (put proc p ((proc p).taken pid tf r)) ∧
      Effect False p (proc p) (tab p) ((proc p).taken pid tf r) T' use use' v.mem v'.mem := by
  have hsz : ((proc p).taken pid tf r).sz = 0 := by
    show (proc p).sz = 0
    rw [show proc p = _ from hI.unused p hp]
    rfl
  have hnone : ∀ y, ¬ Maps ((proc p).taken pid tf r) T' y := by
    rintro y ⟨k, _, h2, _⟩
    rw [hsz] at h2
    have h0 : pages 0 = 0 := by decide
    omega
  have hne : ∀ y, use y ≠ .free → y ≠ tf := by
    rintro y hy rfl
    exact hy htf
  have hkeep : ∀ y, use y ≠ .free → use' y = use y ∧ v'.mem y = v.mem y := by
    intro y hy
    have h1 := hb.alloced.keep y (by rw [put_of_ne (hne y hy)]; exact hy)
    have h2 := hb.alloced.same y (by rw [put_of_ne (hne y hy)]; exact hy) (hb.unused y)
    rw [put_of_ne (hne y hy)] at h1
    exact ⟨h1, h2.trans (hmem y (hne y hy))⟩
  have hframe : use' tf = .frame p := by
    rw [hb.alloced.keep tf (by rw [put_self]; simp), put_self]
  have he : Effect False p (proc p) (tab p) ((proc p).taken pid tf r) T' use use' v.mem v'.mem := by
    intro y
    have hx' : ((proc p).taken pid tf r).state ≠ .UNUSED := by simp [Proc.taken]
    by_cases hy : use y = .free
    · by_cases hytf : y = tf
      · refine .inr (.inl ⟨⟨hx', .inr (.inl ⟨?_, hytf.symm⟩)⟩, .inl hy⟩)
        rw [hytf]
        exact hframe
      · rcases hb.alloced.fresh y (by rw [put_of_ne hytf]; exact hy) with h1 | h1 | ⟨_, k, _, h2, _⟩
        · exact .inr (.inr ⟨h1, .inl hy⟩)
        · exact .inr (.inl ⟨⟨hx', .inl h1⟩, .inl hy⟩)
        · omega
    · exact .inl ⟨(hkeep y hy).1, fun ho => absurd hp ho.1, fun _ => (hkeep y hy).2⟩
  refine ⟨hI.effect he hb.heap (fun _ => hlt) (fun _ => ?_) (fun h => by cases h) (.inr ?_) ?_ ?_ ?_, he⟩
  · refine ⟨hb.table, ?_, hframe, fun _ y hy => absurd hy (hnone y)⟩
    rw [hsz]
    exact hb.map
  · rw [(hI.unused_zero hp).2]
    have hz : use 0 = .none := by
      by_contra hc
      exact (hI.heap.page 0 hc).ne_zero rfl
    exact (hkeep 0 (by rw [hz]; simp)).1
  · intro q _ hq _ hc
    have ht := (hI.active q hq).table
    have h1 := ht.use_at .root ht.root_ne
    rw [show (tab q).at (proc q).pagetable .root = (proc q).pagetable from rfl, hc] at h1
    change use r = _ at h1
    rw [hr] at h1
    cases h1
  · intro q _ hh y hy
    have hu := (hI.active q hh.1).user hh y hy
    rw [(hkeep y (by rw [hu]; simp)).1, hu]
    simp
  · exact fun _ q _ _ _ y hy => absurd hy (hnone y)

/-- No slot was taken; one that is unused may have been cleared. -/
def NotTaken (s t : Sys) : Prop :=
  t.proc = s.proc ∨ ∃ p, (s.proc p).state = .UNUSED ∧ t.proc = put s.proc p (s.proc p).freed

lemma wp_allocproc (hE : LockStops E) (hI : Inv ld use l tab s.vm s.proc) :
    Wp (allocproc ld me) (fun o t => t.globals = s.globals ∧ match o with
      | none => NotTaken s t ∧ (t.nextpid = s.nextpid ∨ t.nextpid = int32 (s.nextpid + 1)) ∧
          (l.length ≤ 6 ∨ ∀ p < NPROC, (s.proc p).state ≠ .UNUSED) ∧
          ∃ l', Heap ld use l' t.vm ∧ ∀ y, use y ≠ .free → t.vm.mem y = s.vm.mem y
      | some p => p < NPROC ∧ (s.proc p).state = .UNUSED ∧ t.nextpid = int32 (s.nextpid + 1) ∧
          ∃ tf r, use tf = .free ∧ use r = .free ∧
            t.proc = put s.proc p ((s.proc p).taken s.nextpid tf r) ∧
            ∃ T' use' l', Inv ld use' l' (put tab p T') t.vm t.proc ∧
              Effect False p (s.proc p) (tab p) ((s.proc p).taken s.nextpid tf r) T' use use'
                s.vm.mem t.vm.mem ∧ ∃ c ≤ 6, l' = l.drop c) E s := by
  refine (wp_findUnused hE _).bind ?_
  rintro (_ | p) _ ⟨⟨lock, noff, rfl⟩, hfind⟩
  · dsimp only
    rw [wp_pure]
    refine ⟨rfl, .inl rfl, .inl rfl, .inr fun p hp => ?_, l, hI.heap,
      fun _ _ => rfl⟩
    exact hfind p (mem_range.mpr hp)
  obtain ⟨hmem, hp⟩ := hfind
  have hlt := mem_range.mp hmem
  refine (wp_allocpid hE).bind ?_
  rintro _ _ ⟨rfl, lock1, noff1, rfl⟩
  rw [wp_modifyProc_bind, wp_bind, wp_onVm]
  refine (wp_kalloc hI.heap).imp ?_
  rintro tf v1 hk
  rw [wp_modifyProc_bind]
  dsimp only
  rw [put_put, put_self]
  rcases hk with ⟨rfl, rfl, rfl⟩ | ⟨l1, rfl, htf, hpage, hmem1, hheap1⟩
  · rw [if_pos rfl]
    refine (wp_freeproc_frame ?_ (put_self ..) hI.heap ?_ ?_).bind ?_
    · rfl
    · exact .inl (hI.unused_zero hp).2
    · exact fun h0 => absurd rfl h0
    rintro _ t ⟨hg, hpid, hproc, l', hheap', hmem'⟩
    refine wp_release_bind hE _ fun lock2 noff2 => ?_
    rw [wp_pure]
    dsimp only at hproc hheap' hmem' hpid ⊢
    rw [put_put] at hproc
    rw [if_pos rfl] at hheap'
    refine ⟨hg, .inr ⟨p, hp, hproc⟩, .inr hpid, .inl (by simp), l',
      hheap', fun y _ => hmem' y (.inr rfl)⟩
  · rw [if_neg hpage.ne_zero, wp_bind, wp_onVm]
    have hroot1 : Rooted (put use tf (.frame p)) := by
      intro y r pl hy
      have hy' : y ≠ tf := by
        rintro rfl
        rw [put_self] at hy
        cases hy
      rw [put_of_ne hy'] at hy
      have hr := hI.rooted y r pl hy
      rw [put_of_ne, hr]
      rintro rfl
      rw [htf] at hr
      cases hr
    refine (wp_proc_pagetable (hheap1 (.frame p) (by simp)) hroot1 tf).imp ?_
    rintro r v2 hpt
    rw [wp_modifyProc_bind]
    dsimp only
    rw [put_put, put_self]
    rcases hpt with ⟨rfl, hlen, l2, hheap2, hmem2⟩ | ⟨hr0, hr, T', use', l', hb, c, hc, rfl⟩
    · rw [if_pos rfl]
      refine (wp_freeproc_frame rfl (put_self ..) hheap2 (.inl rfl) fun _ => put_self ..).bind ?_
      rintro _ t ⟨hg, hpid, hproc, l', hheap', hmem'⟩
      refine wp_release_bind hE _ fun lock2 noff2 => ?_
      rw [wp_pure]
      dsimp only at hproc hheap' hmem' hpid ⊢
      rw [put_put] at hproc
      rw [if_neg hpage.ne_zero, put_put, put_eq_self htf] at hheap'
      refine ⟨hg, .inr ⟨p, hp, hproc⟩, .inr hpid,
        Or.inl (by rw [length_cons]; omega), l', hheap', fun y hy => ?_⟩
      have hytf : y ≠ tf := by
        rintro rfl
        exact hy htf
      rw [hmem' y (.inl hytf), hmem2 y (by rw [put_of_ne hytf]; exact hy), hmem1 y hytf]
    · rw [if_neg hr0, wp_pure]
      have hrtf : r ≠ tf := by
        rintro rfl
        rw [put_self] at hr
        cases hr
      rw [put_of_ne hrtf] at hr
      obtain ⟨hinv, he⟩ := hI.take s.nextpid hp hlt htf hmem1 hr hrtf hb
      refine ⟨rfl, hlt, hp, rfl, tf, r, htf, hr, rfl, T', use', _,
        hinv, he, 1 + c, by omega, ?_⟩
      rw [Nat.add_comm 1, drop_succ_cons]

end xv6.proc
