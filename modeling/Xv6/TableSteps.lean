-- What each call does to the slots, the tables of threads and the locks. None
-- of this depends on the memory, which is only named where it changed.
import Xv6.Boot
import Xv6.ThreadCalls
import Xv6.ExecCalls
import Xv6.VmStops

open cells wp List

namespace xv6.proc

open vm

variable {ld : Link} {me np p q : Nat} {s t : Sys} {E : Stop → Prop} {free : Prop} {α : Type}

/-! ## Stops -/

/-- The stops that are allowed: those of the memory, and those of the locks unless `free` holds. -/
structure Tolerates (E : Stop → Prop) (free : Prop) : Prop where
  vm : ∀ e, ¬ OtherStop e → E e
  lock : ¬ free → ∀ e, LockStop e → E e

lemma Tolerates.overrun (hE : Tolerates E free) : E .overrun :=
  hE.vm _ (by simp [OtherStop, LockStop, fileStops])

lemma tolerates_all (free : Prop) : Tolerates (fun _ => True) free :=
  ⟨fun _ _ => trivial, fun _ _ _ => trivial⟩

lemma wp_onVm_stops {m : V α} (hE : Tolerates E free) (hm : VmStops m) :
    Wp (onVm m) (fun _ t => ∃ v, t = { s with vm := v }) E s := by
  rw [wp_onVm]
  exact ((hm s.vm).imp fun _ v _ => ⟨v, rfl⟩).errors hE.vm

lemma wp_onVm_any {m : V α} :
    Wp (onVm m) (fun _ t => ∃ v, t = { s with vm := v }) (fun _ => True) s := by
  rw [wp_onVm]
  exact wp_any.imp fun _ v _ => ⟨v, rfl⟩

/-! ## Locks -/

def AllFree (s : Sys) : Prop := ∀ lk, s.lock lk = none

/-- The state with one lock more, or one less. -/
def Sys.locked (s : Sys) (me : Nat) (lk : Lock) : Sys :=
  { s with lock := put s.lock lk (some me), noff := put s.noff me (s.noff me + 1) }

def Sys.unlocked (s : Sys) (me : Nat) (lk : Lock) : Sys :=
  { s with lock := put s.lock lk none, noff := put s.noff me (s.noff me - 1) }

variable {addr : Nat} {c : Call} {lk : Lock} {res : Int}

lemma wp_acquire_exact {m : Unit → K α} {Q : α → Sys → Prop}
    (hE : ¬ free → ∀ e, LockStop e → E e) (hfree : free → s.lock lk = none)
    (h : s.lock lk = none → Wp (m ()) Q E (s.locked me lk)) :
    Wp (acquire me lk >>= m) Q E s := by
  rw [wp_bind]
  unfold acquire
  rw [wp_get_bind]
  split
  · rename_i hlk
    rw [wp_set]
    exact h hlk
  · rename_i q hlk
    have hn : ¬ free := by
      intro hf
      rw [hfree hf] at hlk
      cases hlk
    apply wp_ite <;> intro _
    · rw [wp_throw]
      exact hE hn _ (.inl rfl)
    · rw [wp_throw]
      exact hE hn _ trivial

lemma unlocked_eq (h : s.lock lk = none) (hl : t.lock = (s.locked me lk).lock)
    (hn : t.noff = (s.locked me lk).noff) :
    t.unlocked me lk = { t with lock := s.lock, noff := s.noff } := by
  unfold Sys.unlocked
  rw [hl, hn]
  unfold Sys.locked
  simp [put_eq_self, h]

lemma wp_release_last {Q : Unit → Sys → Prop} (h : s.lock lk = none)
    (hl : t.lock = (s.locked me lk).lock) (hn : t.noff = (s.locked me lk).noff)
    (hQ : Q () { t with lock := s.lock, noff := s.noff }) : Wp (release me lk) Q E t := by
  have hlk : t.lock lk = some me := by
    rw [hl]
    exact put_self ..
  have hoff : ¬ t.noff me < 1 := by
    rw [hn]
    simp [Sys.locked]
  unfold release
  rw [wp_get_bind, if_pos hlk, if_neg hoff, wp_set]
  rw [← unlocked_eq h hl hn] at hQ
  exact hQ

lemma wp_release_back {m : Unit → K α} {Q : α → Sys → Prop} (h : s.lock lk = none)
    (hl : t.lock = (s.locked me lk).lock) (hn : t.noff = (s.locked me lk).noff)
    (hm : Wp (m ()) Q E { t with lock := s.lock, noff := s.noff }) :
    Wp (release me lk >>= m) Q E t := by
  rw [wp_bind]
  exact wp_release_last h hl hn hm

/-! ## `allocproc` and `freeproc` -/

lemma findUnused_step (hE : ¬ free → ∀ e, LockStop e → E e) (ps : List Nat)
    (hfree : free → ∀ p, s.lock (.proc p) = none) :
    Wp (findUnused me ps) (fun o t => match o with
      | none => t = s ∧ ∀ p ∈ ps, (s.proc p).state ≠ .UNUSED
      | some p => (ps.find? fun p => (s.proc p).state = .UNUSED) = some p ∧
          s.lock (.proc p) = none ∧ t = s.locked me (.proc p)) E s := by
  induction ps with
  | nil =>
    unfold findUnused
    rw [wp_pure]
    exact ⟨rfl, by simp⟩
  | cons p ps ih =>
    refine wp_acquire_exact hE (fun hf => hfree hf p) fun hlk => ?_
    rw [wp_get_bind]
    apply wp_ite <;> intro hp
    · rw [wp_pure]
      have hp' : (s.proc p).state = .UNUSED := hp
      exact ⟨by simp [hp'], hlk, rfl⟩
    · refine wp_release_back hlk rfl rfl ?_
      refine ih.imp ?_
      rintro (_ | q) t ho
      · refine ⟨ho.1, fun q hq => ?_⟩
        rcases mem_cons.mp hq with rfl | hq
        · exact hp
        · exact ho.2 q hq
      · have hp' : (s.proc p).state ≠ .UNUSED := hp
        exact ⟨by simpa [hp'] using ho.1, ho.2⟩

lemma unused_some (h : s.unused = some p) : p < NPROC ∧ (s.proc p).state = .UNUSED := by
  have hp := find?_some h
  exact ⟨mem_range.mp (mem_of_find?_eq_some h), by simpa using hp⟩

lemma unused_congr (h : ∀ p, (t.proc p).state = (s.proc p).state) : t.unused = s.unused := by
  unfold Sys.unused
  simp only [h]

lemma allocpid_step (hE : ¬ free → ∀ e, LockStop e → E e) (hfree : free → s.lock .pid_lock = none) :
    Wp (allocpid me) (fun pid t => pid = s.nextpid ∧ t = { s with nextpid := int32 (s.nextpid + 1) }) E s := by
  refine wp_acquire_exact hE hfree fun hlk => ?_
  rw [wp_get_bind, wp_set_bind]
  refine wp_release_back hlk rfl rfl ?_
  rw [wp_pure]
  exact ⟨rfl, rfl⟩

/-- The slots on which `freeproc` ran without their lock. -/
def bareAfter (s : Sys) (me p : Nat) : List Nat :=
  if s.lock (.proc p) = some me then s.bare else p :: s.bare

lemma freeproc_step (hE : Tolerates E free) :
    Wp (freeproc ld me p) (fun _ t => ∃ v, t = { s with
      vm := v
      proc := put s.proc p (s.proc p).freed
      bare := bareAfter s me p }) E s := by
  have hmark : (if s.lock (.proc p) = some me then s else { s with bare := p :: s.bare }) =
      { s with bare := bareAfter s me p } := by
    unfold bareAfter
    split
    · rfl
    · rfl
  unfold freeproc
  rw [wp_modify_bind, hmark, wp_get_bind]
  have hframe : Wp (if (s.proc p).trapframe ≠ 0 then onVm (kfree ld (s.proc p).trapframe) else pure ())
      (fun _ t => ∃ v, t = { s with vm := v, bare := bareAfter s me p }) E
      { s with bare := bareAfter s me p } := by
    refine wp_ite (fun _ => (wp_onVm_stops hE (stops_kfree _)).imp ?_) (fun _ => ?_)
    · exact fun _ _ h => h
    · rw [wp_pure]
      exact ⟨s.vm, rfl⟩
  refine hframe.bind ?_
  rintro _ _ ⟨v, rfl⟩
  have htable : Wp (if (s.proc p).pagetable ≠ 0 ∧ (s.proc p).isthread = false then
        onVm (proc_freepagetable ld (s.proc p).pagetable (s.proc p).sz) else pure ())
      (fun _ t => ∃ v, t = { s with vm := v, bare := bareAfter s me p }) E
      { s with vm := v, bare := bareAfter s me p } := by
    refine wp_ite (fun _ => (wp_onVm_stops hE (stops_proc_freepagetable _ _)).imp ?_) (fun _ => ?_)
    · exact fun _ _ h => h
    · rw [wp_pure]
      exact ⟨v, rfl⟩
  refine htable.bind ?_
  rintro _ _ ⟨v', rfl⟩
  rw [wp_modifyProc]
  exact ⟨v', rfl⟩

lemma freeproc_step_held (hE : Tolerates E free) (hlk : s.lock (.proc p) = some me) :
    Wp (freeproc ld me p) (fun _ t => ∃ v, t = { s with
      vm := v
      proc := put s.proc p (s.proc p).freed }) E s := by
  refine (freeproc_step hE).imp ?_
  rintro _ t ⟨v, rfl⟩
  refine ⟨v, ?_⟩
  rw [show bareAfter s me p = s.bare from if_pos hlk]

/-- No slot was taken, or one that is unused was cleared on the way. -/
def NoneTaken (s t : Sys) : Prop :=
  t = s ∨ ∃ v p, p < NPROC ∧ (s.proc p).state = .UNUSED ∧ t = { s with
    vm := v
    proc := put s.proc p (s.proc p).freed
    nextpid := int32 (s.nextpid + 1) }

/-- Slot `p` was taken, and its lock. -/
def Taken (me p tf r : Nat) (s t : Sys) : Prop :=
  s.unused = some p ∧ s.lock (.proc p) = none ∧ ∃ v, t = { s.locked me (.proc p) with
    vm := v
    proc := put s.proc p ((s.proc p).taken s.nextpid tf r)
    nextpid := int32 (s.nextpid + 1) }

lemma allocproc_step (hE : Tolerates E free) (hfree : free → AllFree s) :
    Wp (allocproc ld me) (fun o t => match o with
      | none => NoneTaken s t
      | some p => ∃ tf r, Taken me p tf r s t) E s := by
  refine (findUnused_step hE.lock _ fun hf p => hfree hf _).bind ?_
  rintro (_ | p) t h
  · obtain ⟨rfl, _⟩ := h
    rw [wp_pure]
    exact .inl rfl
  obtain ⟨hfind, hlk, rfl⟩ := h
  obtain ⟨hlt, hun⟩ := unused_some hfind
  refine (allocpid_step hE.lock fun hf => ?_).bind ?_
  · have := hfree hf .pid_lock
    unfold Sys.locked
    dsimp only
    rwa [put_of_ne (by simp)]
  rintro _ _ ⟨rfl, rfl⟩
  rw [wp_modifyProc_bind]
  refine (wp_onVm_stops hE stops_kalloc).bind ?_
  rintro tf _ ⟨v1, rfl⟩
  rw [wp_modifyProc_bind]
  dsimp only
  rw [put_put, put_self]
  have hback : ∀ {x : Proc} {v : Vm}, x.freed = (s.proc p).freed →
      Wp (do freeproc ld me p; release me (.proc p); return none)
        (fun o t => match o with
          | none => NoneTaken s t
          | some p => ∃ tf r, Taken me p tf r s t) E
        { s.locked me (.proc p) with
          vm := v
          proc := put s.proc p x
          nextpid := int32 (s.nextpid + 1) } := by
    intro x v hx
    refine (freeproc_step_held hE (by simp [Sys.locked])).bind ?_
    rintro _ _ ⟨v2, rfl⟩
    refine wp_release_back hlk rfl rfl ?_
    rw [wp_pure]
    refine .inr ⟨v2, p, hlt, hun, ?_⟩
    dsimp only
    rw [put_put, put_self, hx]
    rfl
  apply wp_ite <;> intro h0
  · exact hback rfl
  · refine (wp_onVm_stops hE (stops_proc_pagetable _)).bind ?_
    rintro r _ ⟨v2, rfl⟩
    rw [wp_modifyProc_bind]
    dsimp only
    rw [put_put, put_self]
    apply wp_ite <;> intro _
    · exact hback rfl
    · rw [wp_pure]
      exact ⟨tf, r, hfind, hlk, v2, rfl⟩

/-! ## Processes -/

/-- What `fork` does. -/
def Forked (me : Nat) (res : Int) (s t : Sys) : Prop :=
  (res = -1 ∧ NoneTaken s t) ∨ ∃ np tf r v, s.unused = some np ∧ res = s.nextpid ∧ t = { s with
      vm := v
      proc := put s.proc np ((s.proc np).forked s.nextpid tf r me (s.proc me))
      nextpid := int32 (s.nextpid + 1) }

lemma fork_step (hE : Tolerates E False) (hme : (s.proc me).state ≠ .UNUSED) :
    Wp (fork ld me) (fun res t => Forked me res s t) E s := by
  refine (allocproc_step hE False.elim).bind ?_
  rintro (_ | np) t h
  · dsimp only
    rw [wp_pure]
    exact .inl ⟨rfl, h⟩
  obtain ⟨tf, r, hfind, hlk, v1, rfl⟩ := h
  obtain ⟨hlt, hun⟩ := unused_some hfind
  have hne : me ≠ np := by
    rintro rfl
    exact hme hun
  rw [wp_get_bind]
  dsimp only
  rw [put_of_ne hne, put_self]
  refine (wp_onVm_stops hE (stops_uvmcopyLoop _ _ _ _)).bind ?_
  rintro ok _ ⟨v2, rfl⟩
  apply wp_ite <;> intro _
  · refine (freeproc_step_held hE (by simp [Sys.locked])).bind ?_
    rintro _ _ ⟨v3, rfl⟩
    refine wp_release_back hlk rfl rfl ?_
    rw [wp_pure]
    refine .inl ⟨rfl, .inr ⟨v3, np, hlt, hun, ?_⟩⟩
    dsimp only
    rw [put_put, put_self]
    rfl
  · rw [wp_modifyProc_bind]
    refine (wp_onVm_stops hE (stops_copyframe _ _)).bind ?_
    rintro _ _ ⟨v3, rfl⟩
    refine (wp_onVm_stops hE (stops_store _ _ _)).bind ?_
    rintro _ _ ⟨v4, rfl⟩
    rw [wp_modifyProc_bind]
    refine wp_release_back hlk rfl rfl ?_
    refine wp_acquire_exact hE.lock False.elim fun hw => ?_
    rw [wp_modifyProc_bind]
    refine wp_release_back hw rfl rfl ?_
    refine wp_acquire_exact hE.lock False.elim fun hp => ?_
    rw [wp_modifyProc_bind]
    refine wp_release_back hp rfl rfl ?_
    rw [wp_pure]
    refine .inr ⟨np, tf, r, v4, hfind, rfl, ?_⟩
    simp only [put_put, put_self, Sys.locked]
    rfl

lemma exit_step {status : Int} (hE : Tolerates E free) (hfree : free → AllFree s) :
    Wp (exit me status) (fun _ t => me ≠ s.initproc ∧ t = { s with proc := exited s me status }) E
      s := by
  unfold exit
  rw [wp_get_bind]
  refine wp_ite (fun _ => (wp_throw _).mpr (hE.vm _ (by simp [OtherStop, LockStop, fileStops]))) (fun hne => ?_)
  refine wp_acquire_exact hE.lock (fun hf => hfree hf _) fun hw => ?_
  unfold reparent
  rw [wp_modify_bind]
  refine wp_acquire_exact hE.lock (fun hf => ?_) fun hp => ?_
  · have := hfree hf (.proc me)
    unfold Sys.locked
    dsimp only
    rwa [put_of_ne (by simp)]
  rw [wp_modifyProc_bind]
  -- the two locks go in the order in which they came
  have hp' : s.lock (.proc me) = none := by
    unfold Sys.locked at hp
    dsimp only at hp
    rwa [put_of_ne (by simp)] at hp
  have hw' : (s.locked me (.proc me)).lock .wait_lock = none := by
    unfold Sys.locked
    dsimp only
    rwa [put_of_ne (by simp)]
  refine wp_release_back hw' ?_ rfl ?_
  · exact put_comm (by simp) ..
  · refine wp_release_last hp' rfl rfl ?_
    exact ⟨hne, rfl⟩

/-- Slot `q` holds a child of process `me` that has exited. -/
def ZombieChild (s : Sys) (me q : Nat) : Prop :=
  (s.proc q).parent = some me ∧ (s.proc q).state = .ZOMBIE

instance (q : Nat) : Decidable (ZombieChild s me q) := inferInstanceAs (Decidable (_ ∧ _))

/-- The child that `wait` of process `me` reaps: the first one in the table that has exited. -/
def firstZombie (s : Sys) (me : Nat) : Option Nat :=
  (List.range NPROC).find? fun q => ZombieChild s me q

/-- What `wait` does. -/
def WaitedFor (me addr : Nat) (res : Int) (s t : Sys) : Prop :=
  (res = -1 ∧ (∃ v, t = { s with vm := v }) ∧ (addr = 0 → ∀ q < NPROC, (s.proc q).parent = some me →
      (s.proc q).state ≠ .ZOMBIE)) ∨
    ∃ v pp, pp < NPROC ∧ ZombieChild s me pp ∧ firstZombie s me = some pp ∧
      res = (s.proc pp).pid ∧ t = { s with
        vm := v
        proc := put s.proc pp (s.proc pp).freed
        hist := .reap (s.proc pp).pid :: s.hist }

/-- What the scan of `wait` over the slots `pps` finds. -/
def Scanned (me addr : Nat) (s u : Sys) (pps : List Nat) (o : Option Int) (t : Sys) : Prop :=
  match o with
  | none => t = u ∧ ∀ q ∈ pps, (s.proc q).parent = some me → (s.proc q).state ≠ .ZOMBIE
  | some r => (r = -1 ∧ addr ≠ 0 ∧ ∃ v, t = { s with vm := v }) ∨
      ∃ v pp, pp < NPROC ∧ ZombieChild s me pp ∧ (pps.find? fun q => ZombieChild s me q) = some pp ∧
        r = (s.proc pp).pid ∧ t = { s with
          vm := v
          proc := put s.proc pp (s.proc pp).freed
          hist := .reap (s.proc pp).pid :: s.hist }

lemma waitScan_step {u : Sys} (hE : Tolerates E free) (hw : s.lock .wait_lock = none)
    (hfree : free → AllFree s) (hu : u = s.locked me .wait_lock) (pps : List Nat)
    (hpps : ∀ p ∈ pps, p < NPROC) (havekids : Bool) :
    Wp (waitScan ld me addr pps havekids) (fun res t => Scanned me addr s u pps res.1 t) E u := by
  induction pps generalizing havekids with
  | nil =>
    unfold waitScan
    rw [wp_pure]
    exact ⟨rfl, by simp⟩
  | cons pp pps ih =>
    have hpp := hpps pp mem_cons_self
    have hrest : ∀ p ∈ pps, p < NPROC := fun p hp => hpps p (mem_cons_of_mem pp hp)
    have hskip : ∀ hk, (¬ (s.proc pp).parent = some me ∨ ¬ (s.proc pp).state = .ZOMBIE) →
        Wp (waitScan ld me addr pps hk) (fun res t => Scanned me addr s u (pp :: pps) res.1 t) E u := by
      intro hk hno
      refine (ih hrest hk).imp ?_
      rintro ⟨_ | r, _⟩ t h
      · refine ⟨h.1, fun q hq hpar => ?_⟩
        rcases mem_cons.mp hq with rfl | hq
        · exact hno.resolve_left fun hc => hc hpar
        · exact h.2 q hq hpar
      · have hnot : ¬ ZombieChild s me pp := fun hc => hno.elim (fun hn => hn hc.1) fun hn => hn hc.2
        rcases h with h | ⟨v, q, hq, hz, hfind, h⟩
        · exact .inl h
        · exact .inr ⟨v, q, hq, hz, by rw [find?_cons_of_neg (by simpa using hnot), hfind], h⟩
    have hsame : u.proc = s.proc := by
      rw [hu]
      rfl
    unfold waitScan
    rw [wp_get_bind, hsame]
    refine wp_ite (fun hpar => ?_) (fun hpar => hskip havekids (.inl hpar))
    refine wp_acquire_exact hE.lock (fun hf => ?_) fun hlk => ?_
    · rw [hu]
      unfold Sys.locked
      dsimp only
      rw [put_of_ne (by simp)]
      exact hfree hf _
    apply wp_ite <;> intro hz
    · have hcopy : Wp (if addr ≠ 0 then
            onVm (copyout (s.proc me).pagetable addr (intBytes (s.proc pp).xstate))
          else
            pure true) (fun ok t => (ok = false → addr ≠ 0) ∧
              ∃ v, t = { u.locked me (.proc pp) with vm := v }) E (u.locked me (.proc pp)) := by
        apply wp_ite <;> intro ha
        · refine (wp_onVm_stops hE (stops_copyoutLoop _ _ _ _)).imp ?_
          exact fun _ _ h => ⟨fun _ => ha, h⟩
        · rw [wp_pure]
          exact ⟨by simp, _, rfl⟩
      refine hcopy.bind ?_
      rintro ok _ ⟨haddr, v1, rfl⟩
      apply wp_ite <;> intro hok
      · refine wp_release_back hlk rfl rfl (wp_release_back hw ?_ ?_ ?_)
        · rw [hu]
        · rw [hu]
        · rw [wp_pure]
          refine .inl ⟨rfl, haddr hok, v1, ?_⟩
          rw [hu]
          rfl
      · refine (freeproc_step_held hE (by simp [Sys.locked])).bind ?_
        rintro _ _ ⟨v2, rfl⟩
        rw [wp_modify_bind]
        refine wp_release_back hlk rfl rfl (wp_release_back hw ?_ ?_ ?_)
        · rw [hu]
        · rw [hu]
        · rw [wp_pure]
          have hchild : ZombieChild s me pp := ⟨hpar, hz⟩
          refine .inr ⟨v2, pp, hpp, hchild, find?_cons_of_pos (by simpa using hchild), rfl, ?_⟩
          rw [hu]
          rfl
    · refine wp_release_back hlk rfl rfl ?_
      exact hskip true (.inr hz)

lemma wait_step (hE : Tolerates E (AllFree s ∧ ∃ q < NPROC, (s.proc q).parent = some me ∧
      (s.proc q).state = .ZOMBIE)) :
    Wp (wait ld me addr) (fun res t => WaitedFor me addr res s t) E s := by
  refine wp_acquire_exact hE.lock (fun hf => hf.1 _) fun hw => ?_
  refine (waitScan_step hE hw (fun hf => hf.1) rfl _ (fun p hp => mem_range.mp hp) false).bind ?_
  rintro ⟨_ | r, havekids⟩ t h
  · obtain ⟨rfl, hnone⟩ := h
    have hno : ∀ q < NPROC, (s.proc q).parent = some me → (s.proc q).state ≠ .ZOMBIE :=
      fun q hq => hnone q (mem_range.mpr hq)
    have hstop : ∀ e, LockStop e → E e := by
      refine hE.lock ?_
      rintro ⟨_, q, hq, h1, h2⟩
      exact hno q hq h1 h2
    apply wp_ite <;> intro _
    · refine wp_release_back hw rfl rfl ?_
      rw [wp_pure]
      exact .inl ⟨rfl, ⟨s.vm, rfl⟩, fun _ => hno⟩
    · unfold killed
      simp only [bind_assoc]
      refine wp_acquire_exact (fun _ => hstop) False.elim fun hlk => ?_
      rw [wp_get_bind]
      refine wp_release_back hlk rfl rfl ?_
      rw [wp_pure_bind]
      refine wp_ite (fun _ => ?_) (fun _ => (wp_throw _).mpr (hstop _ trivial))
      refine wp_release_back hw rfl rfl ?_
      rw [wp_pure]
      exact .inl ⟨rfl, ⟨s.vm, rfl⟩, fun _ => hno⟩
  · dsimp only
    rw [wp_pure]
    rcases h with ⟨h1, h2, h3⟩ | h
    · exact .inl ⟨h1, h3, fun h0 => absurd h0 h2⟩
    · exact .inr h

/-- What `kill` does. -/
def Killed (pid res : Int) (s t : Sys) : Prop :=
  (res = -1 ∧ t = s) ∨ (res = 0 ∧ ∃ p < NPROC, (s.proc p).pid = pid ∧
    t = { s with proc := put s.proc p (s.proc p).kill })

lemma killScan_step {pid : Int} (ps : List Nat) (hps : ∀ p ∈ ps, p < NPROC) :
    Wp (killScan me pid ps) (fun res t => Killed pid res s t) (fun _ => True) s := by
  have hE := tolerates_all False
  induction ps with
  | nil =>
    unfold killScan
    rw [wp_pure]
    exact .inl ⟨rfl, rfl⟩
  | cons p ps ih =>
    refine wp_acquire_exact hE.lock False.elim fun hlk => ?_
    rw [wp_get_bind]
    apply wp_ite <;> intro hp
    · rw [wp_modifyProc_bind]
      refine wp_release_back hlk rfl rfl ?_
      rw [wp_pure]
      exact .inr ⟨rfl, p, hps p mem_cons_self, hp, rfl⟩
    · refine wp_release_back hlk rfl rfl ?_
      exact ih fun q hq => hps q (mem_cons_of_mem p hq)

/-- Only the memory and the size of process `me` changed. -/
def Resized (me : Nat) (s t : Sys) : Prop :=
  ∃ v sz, t = { s with vm := v, proc := put s.proc me { s.proc me with sz := sz } }

lemma sys_sbrk_step {n : Int} :
    Wp (sys_sbrk ld me n) (fun _ t => Resized me s t) (fun _ => True) s := by
  have hsame : ∀ v, Resized me s { s with vm := v } := fun v => by
    refine ⟨v, (s.proc me).sz, ?_⟩
    rw [show { s.proc me with sz := (s.proc me).sz } = s.proc me from rfl, put_eq_self rfl]
  have hgrow : Wp (growproc ld me n) (fun _ t => Resized me s t) (fun _ => True) s := by
    unfold growproc
    rw [wp_get_bind]
    refine wp_ite (fun _ => ?_) (fun _ => wp_ite (fun _ => ?_) (fun _ => ?_))
    · refine wp_onVm_any.bind ?_
      rintro sz _ ⟨v, rfl⟩
      apply wp_ite <;> intro _
      · rw [wp_pure]
        exact hsame v
      · rw [wp_modifyProc_bind, wp_pure]
        exact ⟨v, sz, rfl⟩
    · refine wp_onVm_any.bind ?_
      rintro sz _ ⟨v, rfl⟩
      rw [wp_modifyProc_bind, wp_pure]
      exact ⟨v, sz, rfl⟩
    · rw [wp_pure]
      exact hsame s.vm
  unfold sys_sbrk
  rw [wp_get_bind]
  refine hgrow.bind fun r t h => ?_
  rw [wp_pure]
  exact h

/-- What `exec` does to the process. -/
def Execed (me : Nat) (s t : Sys) : Prop :=
  (∃ v, t = { s with vm := v }) ∨
    ∃ v name r sz, t = { s with vm := v, proc := put s.proc me ((s.proc me).loaded name r sz) }

lemma exec_step {path : List UInt8} {file : Option Prog} {argv : List (List UInt8)} :
    Wp (exec ld me path file argv) (fun _ t => Execed me s t) (fun _ => True) s := by
  have hbad : ∀ v r sz, Wp (execBad ld r sz) (fun _ t => Execed me s t) (fun _ => True)
      { s with vm := v } := by
    intro v r sz
    have hfree : Wp (if r ≠ 0 then onVm (proc_freepagetable ld r sz) else pure ())
        (fun _ t => ∃ v, t = { s with vm := v }) (fun _ => True) { s with vm := v } := by
      apply wp_ite <;> intro _
      · exact wp_onVm_any.imp fun _ _ h => h
      · rw [wp_pure]
        exact ⟨v, rfl⟩
    refine hfree.bind fun _ t h => ?_
    rw [wp_pure]
    exact .inl h
  unfold exec
  rcases file with _ | f
  · dsimp only
    rw [wp_pure]
    exact .inl ⟨s.vm, rfl⟩
  rw [wp_get_bind]
  refine wp_onVm_any.bind ?_
  rintro ⟨r, sz, ok⟩ _ ⟨v1, rfl⟩
  refine wp_ite (fun _ => hbad _ _ _) (fun _ => ?_)
  refine wp_onVm_any.bind ?_
  rintro ⟨sz2, _ | ⟨argc, sp⟩⟩ _ ⟨v2, rfl⟩
  · exact hbad _ _ _
  · dsimp only
    unfold execCommit
    rw [bind_assoc, wp_get_bind]
    simp only [bind_assoc]
    refine wp_onVm_any.bind ?_
    rintro _ _ ⟨v3, rfl⟩
    rw [wp_modifyProc_bind]
    refine wp_onVm_any.bind ?_
    rintro _ _ ⟨v4, rfl⟩
    refine wp_onVm_any.bind ?_
    rintro _ _ ⟨v5, rfl⟩
    refine wp_onVm_any.bind ?_
    rintro _ _ ⟨v6, rfl⟩
    rw [wp_pure]
    exact .inr ⟨v6, _, r, sz2, rfl⟩

lemma sys_exec_step {path : Option (List UInt8)} {file : Option Prog} {uargv : Nat → UArg} :
    Wp (sys_exec ld me path file uargv) (fun _ t => Execed me s t) (fun _ => True) s := by
  unfold sys_exec
  rcases path with _ | path
  · dsimp only
    rw [wp_pure]
    exact .inl ⟨s.vm, rfl⟩
  refine wp_onVm_any.bind ?_
  rintro ⟨ok, argv⟩ _ ⟨v1, rfl⟩
  apply wp_ite <;> intro _
  · refine wp_onVm_any.bind ?_
    rintro _ _ ⟨v2, rfl⟩
    rw [wp_pure]
    exact .inl ⟨v2, rfl⟩
  · refine exec_step.bind ?_
    intro ret t h
    refine wp_onVm_any.bind ?_
    rintro _ _ ⟨v2, rfl⟩
    rw [wp_pure]
    rcases h with ⟨v, rfl⟩ | ⟨v, name, r, sz, rfl⟩
    · exact .inl ⟨v2, rfl⟩
    · exact .inr ⟨v2, name, r, sz, rfl⟩

/-! ## Threads -/

/-- The state in which `mythread_create` holds slot `np`, with `x` in it. -/
def Sys.enrolled (s : Sys) (me np : Nat) (x : Proc) (v : Vm) : Sys :=
  { s with
    vm := v
    proc := put (put s.proc me (creator s me)) np x
    nextpid := int32 (s.nextpid + 1)
    families := (s.globals.enter (s.proc me).pid).families
    currFid := (s.globals.enter (s.proc me).pid).currFid }

lemma enterFamily_step (hE : E .overrun) :
    Wp (enterFamily me) (fun _ t => t = { s with
      proc := put s.proc me { s.proc me with fid := familyOf s me }
      families := (s.globals.enter (s.proc me).pid).families
      currFid := (s.globals.enter (s.proc me).pid).currFid }) E s := by
  unfold enterFamily Globals.enter familyOf
  rw [wp_get_bind]
  have hreg : ((List.range MAX_FAMILIES).any fun i => s.families i = (s.proc me).pid) =
      s.globals.registered (s.proc me).pid := by
    unfold Globals.registered
    rfl
  dsimp only
  rw [hreg]
  by_cases h : s.globals.registered (s.proc me).pid = true
  · rw [if_pos h, if_pos h, if_pos h, wp_pure]
    rw [show { s.proc me with fid := (s.proc me).fid } = s.proc me from rfl, put_eq_self rfl]
    rfl
  · rw [if_neg h, if_neg h, if_neg h]
    refine wp_inBounds hE fun _ => ?_
    rw [wp_set_bind, wp_modifyProc]
    rfl

lemma state_marked (p : Nat) : ((marked s me).proc p).state = (s.proc p).state := by
  unfold marked
  by_cases h : p = me
  · subst h
    simp
  · simp [put_of_ne h]

lemma unused_marked : (marked s me).unused = s.unused := unused_congr state_marked

lemma createBegin_step (hE : Tolerates E free) (hfree : free → AllFree s)
    (hme : (s.proc me).state ≠ .UNUSED) :
    Wp (createBegin ld me) (fun o t => match o with
      | none => NoneTaken (marked s me) t
      | some (np, _) => ∃ tf r v, s.unused = some np ∧ s.lock (.proc np) = none ∧
          t = (s.enrolled me np (newThread s me np tf r) v).locked me (.proc np)) E s := by
  unfold createBegin
  rw [wp_modifyProc_bind]
  refine (allocproc_step (s := marked s me) hE hfree).bind ?_
  rintro (_ | np) t h
  · dsimp only
    rw [wp_pure]
    exact h
  obtain ⟨tf, r, hfind, hlk, v1, rfl⟩ := h
  rw [unused_marked] at hfind
  have hne : np ≠ me := by
    rintro rfl
    exact hme (unused_some hfind).2
  have hnp : (marked s me).proc np = s.proc np := put_of_ne hne ..
  rw [hnp]
  rw [wp_modifyProc_bind]
  refine (enterFamily_step hE.overrun).bind ?_
  rintro _ t ht
  dsimp only at ht
  rw [put_put, put_self, put_of_ne (Ne.symm hne)] at ht
  have hme0 : (marked s me).proc me = { s.proc me with isthread := true } := put_self ..
  have hproc : put (put (marked s me).proc np
        { (s.proc np).taken s.nextpid tf r with isthread := true }) me (creator s me) =
      put (put s.proc me (creator s me)) np
        { (s.proc np).taken s.nextpid tf r with isthread := true } := by
    rw [put_comm hne]
    unfold marked
    rw [put_put]
  have hstate : t = (s.enrolled me np { (s.proc np).taken s.nextpid tf r with isthread := true }
      v1).locked me (.proc np) := by
    rw [ht, familyOf_congr (s := s)]
    · unfold Sys.enrolled Sys.locked
      rw [← hproc, hme0]
      rfl
    · rfl
    · dsimp only
      rw [put_of_ne (Ne.symm hne), hme0]
    · dsimp only
      rw [put_of_ne (Ne.symm hne), hme0]
  rw [wp_get_bind, wp_modifyProc_bind, hstate]
  refine (wp_onVm_stops hE (stops_copytableLoop _ _ _ _)).bind ?_
  rintro ok _ ⟨v2, rfl⟩
  rw [wp_pure]
  refine ⟨tf, r, v2, hfind, hlk, ?_⟩
  unfold Sys.enrolled Sys.locked
  dsimp only
  rw [put_put, put_self, put_of_ne (Ne.symm hne), put_self]
  rfl

/-- `mythread_create` has a slot and the shared memory, and no page for the stack. -/
def StackFails (ld : Link) (s : Sys) (me : Nat) : Prop :=
  ∃ np t u, (createBegin ld me).run s = .ok (some (np, true), t) ∧
    (createStack ld me np).run t = .ok (0, u)

/-- What `mythread_create` does. -/
def CreatedBy (ld : Link) (me : Nat) (res : Int) (s t : Sys) : Prop :=
  (res = -1 ∧ NoneTaken (marked s me) t ∧ ¬ StackFails ld s me) ∨
  (∃ np tf r v, s.unused = some np ∧ s.lock (.proc np) = none ∧
    ((res = -1 ∧ ¬ StackFails ld s me ∧ t = s.enrolled me np (newThread s me np tf r).freed v) ∨
      (res = -1 ∧ StackFails ld s me ∧
        t = (s.enrolled me np (newThread s me np tf r).freed v).locked me (.proc np)) ∨
      (res = 0 ∧ ¬ StackFails ld s me ∧ ∃ sz, t = { s.enrolled me np { newThread s me np tf r with
          sz := sz
          parent := some me
          state := .RUNNABLE } v with
        threads := put s.threads s.currId np
        currId := s.currId + 1
        running := s.running + 1
        hist := .create (s.proc me).pid s.nextpid :: s.hist })))

lemma createFinish_step {newsize arg2 : Nat} {arg1 : Int} {x : Proc} {v : Vm}
    (hE : Tolerates E free) (hfree : free → AllFree s) (hne : np ≠ me)
    (hlk : s.lock (.proc np) = none) :
    Wp (createFinish me np newsize arg1 arg2) (fun _ t => ∃ v, t =
      { s.enrolled me np { x with sz := newsize, parent := some me, state := .RUNNABLE } v with
        threads := put s.threads s.currId np
        currId := s.currId + 1
        running := s.running + 1
        hist := .create (s.proc me).pid x.pid :: s.hist }) E
      ((s.enrolled me np x v).locked me (.proc np)) := by
  unfold createFinish
  rw [wp_modifyProc_bind, wp_get_bind]
  refine (wp_onVm_stops hE (stops_store _ _ _)).bind ?_
  rintro _ _ ⟨v1, rfl⟩
  refine (wp_onVm_stops hE (stops_store _ _ _)).bind ?_
  rintro _ _ ⟨v2, rfl⟩
  refine (wp_onVm_stops hE (stops_store _ _ _)).bind ?_
  rintro _ _ ⟨v3, rfl⟩
  refine (wp_onVm_stops hE (stops_store _ _ _)).bind ?_
  rintro _ _ ⟨v4, rfl⟩
  refine wp_inBounds hE.overrun fun _ => ?_
  rw [wp_modify_bind]
  refine wp_release_back hlk rfl rfl ?_
  refine wp_acquire_exact hE.lock (fun hf => hfree hf _) fun hw => ?_
  rw [wp_modifyProc_bind]
  refine wp_release_back hw rfl rfl ?_
  refine wp_acquire_exact hE.lock (fun hf => hfree hf _) fun hp => ?_
  rw [wp_modifyProc_bind]
  refine wp_release_last hp rfl rfl ⟨v4, ?_⟩
  unfold Sys.enrolled Sys.locked creator
  simp only [put_put, put_self, put_of_ne (Ne.symm hne)]

lemma mythread_create_step {arg1 : Int} {arg2 : Nat} (hE : Tolerates E free)
    (hfree : free → AllFree s) (hme : (s.proc me).state ≠ .UNUSED) :
    Wp (mythread_create ld me arg1 arg2) (fun res t => CreatedBy ld me res s t) E s := by
  refine (createBegin_step hE hfree hme).run.bind ?_
  rintro (_ | ⟨np, ok⟩) t ⟨h, hrun⟩
  · dsimp only
    rw [wp_pure]
    refine .inl ⟨rfl, h, ?_⟩
    rintro ⟨np', t', u', h1, _⟩
    rw [hrun] at h1
    cases h1
  obtain ⟨tf, r, v, hfind, hlk, rfl⟩ := h
  have hne : np ≠ me := by
    rintro rfl
    exact hme (unused_some hfind).2
  apply wp_ite <;> intro hok
  · have hno : ¬ StackFails ld s me := by
      rintro ⟨np', t', u', h1, _⟩
      rw [hrun, hok] at h1
      cases h1
    refine (freeproc_step_held hE (by simp [Sys.locked])).bind ?_
    rintro _ _ ⟨v1, rfl⟩
    refine wp_release_back (s := s) hlk rfl rfl ?_
    rw [wp_pure]
    refine .inr ⟨np, tf, r, v1, hfind, hlk, .inl ⟨rfl, hno, ?_⟩⟩
    unfold Sys.enrolled Sys.locked
    dsimp only
    rw [put_put, put_self]
  · have hok' : ok = true := by simpa using hok
    have hstack : Wp (createStack ld me np) (fun _ t => ∃ v',
        t = (s.enrolled me np (newThread s me np tf r) v').locked me (.proc np)) E
        ((s.enrolled me np (newThread s me np tf r) v).locked me (.proc np)) := by
      unfold createStack
      rw [wp_get_bind]
      refine (wp_onVm_stops hE (stops_uvmalloc _ _ _ _)).imp ?_
      rintro _ _ ⟨v', rfl⟩
      exact ⟨v', rfl⟩
    refine hstack.run.bind ?_
    rintro newsize _ ⟨⟨v1, rfl⟩, hrun2⟩
    apply wp_ite <;> intro h0
    · refine (freeproc_step_held hE (by simp [Sys.locked])).bind ?_
      rintro _ _ ⟨v2, rfl⟩
      rw [wp_pure]
      rw [hok'] at hrun
      rw [h0] at hrun2
      refine .inr ⟨np, tf, r, v2, hfind, hlk, .inr (.inl ⟨rfl, ⟨np, _, _, hrun, hrun2⟩, ?_⟩)⟩
      unfold Sys.enrolled Sys.locked
      dsimp only
      rw [put_put, put_self]
    · have hno : ¬ StackFails ld s me := by
        rintro ⟨np', t', u', h1, h2⟩
        rw [hrun] at h1
        cases h1
        rw [hrun2] at h2
        cases h2
        exact h0 rfl
      refine (createFinish_step hE hfree hne hlk).bind ?_
      rintro _ _ ⟨v2, rfl⟩
      rw [wp_pure]
      exact .inr ⟨np, tf, r, v2, hfind, hlk, .inr (.inr ⟨rfl, hno, newsize, rfl⟩)⟩

/-- The slot of a thread is cleared by `mythread_join`. -/
def dropThread (me q : Nat) (s : Sys) : Sys :=
  { s with
    proc := put s.proc q { s.proc q with isthread := false }.freed
    bare := bareAfter s me q }

/-- The slots in the table of threads at the indices `is` are cleared. -/
def dropThreads (me : Nat) : List Nat → Sys → Sys
  | [], s => s
  | i :: is, s => dropThreads me is (dropThread me (s.threads i) s)

lemma freeThreads_step (is : List Nat) :
    Wp (freeThreads ld me is) (fun _ t => ∃ v, t = dropThreads me is { s with vm := v })
      (fun _ => True) s := by
  induction is generalizing s with
  | nil =>
    unfold freeThreads
    rw [wp_pure]
    exact ⟨s.vm, rfl⟩
  | cons i is ih =>
    unfold freeThreads
    rw [wp_get_bind, wp_modifyProc_bind]
    refine (freeproc_step (tolerates_all False)).bind ?_
    rintro _ _ ⟨v, rfl⟩
    refine ih.imp ?_
    rintro _ t ⟨v', rfl⟩
    refine ⟨v', congrArg (dropThreads me is) ?_⟩
    unfold dropThread
    dsimp only
    rw [put_put, put_self]
    rfl

/-- What `mythread_join` does after its `wait`. -/
def Joined (me : Nat) (s t : Sys) : Prop :=
  if s.running = 1 then
    ∃ v, t = { dropThreads me (List.range (s.currId - 1))
        { s with vm := v, running := s.running - 1, joined := s.joined + 1 } with
      currId := 0
      joined := 0
      currFid := 0 }
  else
    t = { s with running := s.running - 1, joined := s.joined + 1 }

lemma mythread_join_step :
    Wp (mythread_join ld me) (fun _ t => ∃ res u, WaitedFor me 0 res s u ∧ Joined me u t)
      (fun _ => True) s := by
  refine (wait_step (tolerates_all _)).bind ?_
  intro res u hu
  rw [wp_modify_bind, wp_get_bind]
  dsimp only
  by_cases h : u.running = 1
  · rw [if_pos (by omega), bind_assoc]
    refine (freeThreads_step _).bind ?_
    rintro _ t ⟨v, rfl⟩
    rw [wp_modify_bind, wp_pure]
    refine ⟨res, u, hu, ?_⟩
    unfold Joined
    rw [if_pos h]
    exact ⟨v, rfl⟩
  · rw [if_neg (by omega), wp_pure_bind, wp_pure]
    refine ⟨res, u, hu, ?_⟩
    unfold Joined
    rw [if_neg h]

/-! ## Calls -/

/-- What a call does. -/
def CallStep (ld : Link) (me : Nat) (res : Int) (s t : Sys) : Call → Prop
  | .fork => Forked me res s t
  | .exec _ _ _ => Execed me s t
  | .sbrk _ => Resized me s t
  | .exit status => me ≠ s.initproc ∧ t = { s with proc := exited s me status }
  | .wait addr => WaitedFor me addr res s t
  | .kill pid => Killed pid res s t
  | .create _ _ => CreatedBy ld me res s t
  | .join => ∃ r u, WaitedFor me 0 r s u ∧ Joined me u t

lemma call_step (hme : (s.proc me).state ≠ .UNUSED) :
    Wp (call ld me c) (fun res t => CallStep ld me res s t c) (fun _ => True) s := by
  cases c with
  | fork => exact fork_step (tolerates_all False) hme
  | exec path file uargv => exact sys_exec_step
  | sbrk n => exact sys_sbrk_step
  | exit status =>
    refine (exit_step (tolerates_all False) False.elim).bind fun _ t h => ?_
    rw [wp_pure]
    exact h
  | wait addr => exact wait_step (tolerates_all _)
  | kill pid => exact killScan_step _ fun p hp => mem_range.mp hp
  | create arg1 arg2 => exact mythread_create_step (tolerates_all False) False.elim hme
  | join => exact mythread_join_step

/-! ## Boot -/

lemma takePages_step (n : Nat) :
    Wp (takePages n) (fun _ t => ∃ v k, t = { s with vm := v, kernel := k }) (fun _ => True) s := by
  induction n generalizing s with
  | zero =>
    unfold takePages
    rw [wp_pure]
    exact ⟨s.vm, s.kernel, rfl⟩
  | succ n ih =>
    refine wp_onVm_any.bind ?_
    rintro page _ ⟨v, rfl⟩
    refine wp_ite (fun _ => (wp_throw _).mpr trivial) (fun _ => ?_)
    rw [wp_modify_bind]
    refine ih.imp ?_
    rintro _ _ ⟨v', k, rfl⟩
    exact ⟨v', k, rfl⟩

lemma userinit_step {initcode : List UInt8} (h : s.proc = fun _ => Proc.zero) :
    Wp (userinit ld initcode) (fun _ t => ∃ v tf r, t = { s with
      vm := v
      proc := put s.proc 0 (firstProc s.nextpid tf r)
      initproc := 0
      nextpid := int32 (s.nextpid + 1) }) (fun _ => True) s := by
  have hfirst : s.unused = some 0 := by
    unfold Sys.unused
    rw [h]
    decide
  refine (allocproc_step (tolerates_all False) False.elim).bind ?_
  rintro (_ | p) t ht
  · exact (wp_throw _).mpr trivial
  obtain ⟨tf, r, hun, hlk, v, rfl⟩ := ht
  rw [hfirst] at hun
  cases hun
  rw [wp_modify_bind, wp_get_bind]
  refine wp_onVm_any.bind ?_
  rintro _ _ ⟨v1, rfl⟩
  rw [wp_modifyProc_bind]
  refine wp_onVm_any.bind ?_
  rintro _ _ ⟨v2, rfl⟩
  refine wp_onVm_any.bind ?_
  rintro _ _ ⟨v3, rfl⟩
  rw [wp_modifyProc_bind, wp_modifyProc_bind]
  refine wp_release_last hlk rfl rfl ⟨v3, tf, r, ?_⟩
  simp only [put_put, put_self, Sys.locked, h]
  rfl

lemma boot_step {mem : Nat → Nat → Nat} {kpages : Nat} {initcode : List UInt8} :
    Wp (boot ld kpages initcode) (fun _ t => ∃ v k tf r, t = { start mem with
      vm := v
      kernel := k
      proc := put (fun _ => Proc.zero) 0 (firstProc 1 tf r)
      nextpid := 2 }) (fun _ => True) (start mem) := by
  refine wp_onVm_any.bind ?_
  rintro _ _ ⟨v, rfl⟩
  refine (takePages_step kpages).bind ?_
  rintro _ _ ⟨v1, k, rfl⟩
  refine (userinit_step rfl).imp ?_
  rintro _ _ ⟨v2, tf, r, rfl⟩
  exact ⟨v2, k, tf, r, rfl⟩

/-! ## Locks between calls -/

/-- The locks and what is counted of threads are the same. -/
structure SameTables (s t : Sys) : Prop where
  lock : t.lock = s.lock := by rfl
  noff : t.noff = s.noff := by rfl
  bare : t.bare = s.bare := by rfl
  running : t.running = s.running := by rfl
  currId : t.currId = s.currId := by rfl

lemma NoneTaken.same (h : NoneTaken s t) : SameTables s t ∧ t.hist = s.hist := by
  rcases h with rfl | ⟨_, _, _, _, rfl⟩
  · exact ⟨{}, rfl⟩
  · exact ⟨{}, rfl⟩

lemma WaitedFor.same (h : WaitedFor me addr res s t) :
    SameTables s t ∧ (t.hist = s.hist ∨ ∃ pid, t.hist = .reap pid :: s.hist) := by
  rcases h with ⟨_, ⟨_, rfl⟩, _⟩ | ⟨_, _, _, _, _, _, rfl⟩
  · exact ⟨{}, .inl rfl⟩
  · exact ⟨{}, .inr ⟨_, rfl⟩⟩

lemma dropThreads_lock (is : List Nat) (s : Sys) : (dropThreads me is s).lock = s.lock := by
  induction is generalizing s with
  | nil => rfl
  | cons i is ih => exact ih (dropThread me (s.threads i) s)

lemma Joined.lock_eq (h : Joined me s t) : t.lock = s.lock := by
  unfold Joined at h
  split at h
  · obtain ⟨v, rfl⟩ := h
    exact dropThreads_lock (List.range (s.currId - 1)) _
  · rw [h]

lemma CallStep.same (h : CallStep ld me res s t c)
    (hc : ∀ arg1 arg2, c ≠ .create arg1 arg2) (hj : c ≠ .join) : SameTables s t ∧
      (t.hist = s.hist ∨ ∃ addr pid, c = .wait addr ∧ t.hist = .reap pid :: s.hist) := by
  cases c with
  | fork =>
    rcases h with ⟨_, h⟩ | ⟨_, _, _, _, _, _, rfl⟩
    · exact ⟨h.same.1, .inl h.same.2⟩
    · exact ⟨{}, .inl rfl⟩
  | exec path file uargv =>
    rcases h with ⟨_, rfl⟩ | ⟨_, _, _, _, rfl⟩
    · exact ⟨{}, .inl rfl⟩
    · exact ⟨{}, .inl rfl⟩
  | sbrk n =>
    obtain ⟨_, _, rfl⟩ := h
    exact ⟨{}, .inl rfl⟩
  | exit status =>
    rw [h.2]
    exact ⟨{}, .inl rfl⟩
  | kill pid =>
    rcases h with ⟨_, rfl⟩ | ⟨_, _, _, _, rfl⟩
    · exact ⟨{}, .inl rfl⟩
    · exact ⟨{}, .inl rfl⟩
  | wait addr =>
    obtain ⟨hsame, hhist⟩ := WaitedFor.same h
    exact ⟨hsame, hhist.imp_right fun ⟨pid, hp⟩ => ⟨addr, pid, rfl, hp⟩⟩
  | create arg1 arg2 => exact absurd rfl (hc arg1 arg2)
  | join => exact absurd rfl hj

lemma CallStep.lock_eq (h : CallStep ld me res s t c)
    (hc : ∀ arg1 arg2, c ≠ .create arg1 arg2) : t.lock = s.lock := by
  by_cases hj : c = .join
  · subst hj
    obtain ⟨_, _, hw, hj⟩ := h
    exact hj.lock_eq.trans hw.same.1.lock
  · exact (h.same hc hj).1.lock

lemma Run.allFree {C : Sys → Nat → Call → Sys → Prop} (h : Run ld C s)
    (hC : ∀ s p c t, C s p c t → ∀ arg1 arg2, c ≠ .create arg1 arg2) : AllFree s := by
  induction h with
  | boot _ hboot =>
    obtain ⟨_, _, _, _, rfl⟩ := boot_step.of_ok hboot
    exact fun _ => rfl
  | call _ _ hst hcall hc ih =>
    have hstep := (call_step (by rw [hst]; decide)).of_ok hcall
    exact fun lk => by rw [hstep.lock_eq (hC _ _ _ _ hc), ih lk]
  | sched _ _ _ _ ih => exact ih
  | write _ _ _ hrun ih =>
    obtain ⟨_, rfl⟩ := wp_onVm_any.of_ok hrun
    exact ih

end xv6.proc
