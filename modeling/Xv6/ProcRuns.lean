-- Runs of processes and threads. As long as no call frees memory that another
-- live process shares, the invariant of the process table holds throughout.
import Xv6.Boot
import Xv6.ExecCalls
import Xv6.ThreadCalls

open cells linked wp

namespace xv6.proc

open vm

variable {ld : Link} {use use' : Nat → Use} {l l' : List Nat} {tab : Nat → Tab}
  {me p q : Nat} {s t : Sys} {E : Stop → Prop} {C : Sys → Nat → Call → Sys → Prop}

/-! ## The condition -/

def pageOf (s : Sys) (p n : Nat) : Nat := PTE2PA (entry s.vm.mem (s.proc p).pagetable n)

def Alive (st : procstate) : Prop := st ≠ .UNUSED ∧ st ≠ .ZOMBIE

instance (st : procstate) : Decidable (Alive st) := inferInstanceAs (Decidable (_ ∧ _))

/-- Another live process has the page at page number `j` of process `p` in its memory. -/
def SharedPage (s : Sys) (p j : Nat) : Prop :=
  ∃ q i, q ≠ p ∧ Alive (s.proc q).state ∧ i < pages (s.proc q).sz ∧ pageOf s q i = pageOf s p j

/-- The call frees no memory that is shared: `sbrk` and `exec` free pages of their caller alone,
`mythread_create` does not run out of pages for the page table, and `mythread_join` clears
slots that are unused. -/
def MemSafe (ld : Link) (s : Sys) (p : Nat) : Call → Prop
  | .sbrk n => n < 0 →
      ∀ j, pages (newSize s p n) ≤ j → j < pages (s.proc p).sz → ¬ SharedPage s p j
  | .exec path file uargv =>
      (∃ r t, (sys_exec ld p path file uargv).run s = .ok (r, t) ∧ r ≠ -1) →
      ∀ j < pages (s.proc p).sz, ¬ SharedPage s p j
  | .create _ _ => CreateSafe ld s p
  | .join => JoinSafe ld s p
  | _ => True

/-- The call loses no pages: a `wait` or `mythread_join` frees no slot of a thread, and a
`mythread_create` that fails has not taken a slot. -/
def Tight (ld : Link) (s : Sys) (p : Nat) (c : Call) (t : Sys) : Prop :=
  match c with
  | .wait _ => NoThreadFreed s t
  | .join => NoThreadFreed s t
  | .create arg1 arg2 => TakesSlot ld s p → (mythread_create ld p arg1 arg2).run s ≠ .ok (-1, t)
  | _ => True

/-- Where the invariant holds, a call that meets condition `C` also meets condition `D`. -/
def Ensures (ld : Link) (C D : Sys → Nat → Call → Sys → Prop) : Prop :=
  ∀ {use l tab s p c r t}, Inv ld use l tab s.vm s.proc → (s.proc p).state = .RUNNING →
    (call ld p c).run s = .ok (r, t) → C s p c t → D s p c t

/-! ## Steps -/

lemma Holds.of_running {x : Proc} (h : x.state = .RUNNING) : Holds x :=
  ⟨by rw [h]; simp, by rw [h]; simp⟩

lemma Holds.of_alive {x : Proc} (h : Alive x.state) : Holds x := ⟨h.1, fun hc => h.2 hc.1⟩

lemma Inv.entry_eq (hI : Inv ld use l tab s.vm s.proc) (hp : (s.proc p).state ≠ .UNUSED) (n : Nat) :
    entry s.vm.mem (s.proc p).pagetable n = (tab p).pte n :=
  (hI.active p hp).table.entry_eq hI.heap n

lemma Inv.maps_iff (hI : Inv ld use l tab s.vm s.proc) (hp : (s.proc p).state ≠ .UNUSED) (y : Nat) :
    Maps (s.proc p) (tab p) y ↔ ∃ j < pages (s.proc p).sz, pageOf s p j = y := by
  unfold Maps Covers pageOf
  constructor
  · rintro ⟨j, _, h2, h3⟩
    exact ⟨j, by omega, by rw [hI.entry_eq hp, h3]⟩
  · rintro ⟨j, h2, h3⟩
    exact ⟨j, Nat.zero_le j, by omega, by rw [← hI.entry_eq hp, h3]⟩

lemma Inv.not_maps (hI : Inv ld use l tab s.vm s.proc) (hp : Holds (s.proc p)) {j : Nat}
    (hj : j < pages (s.proc p).sz) (hns : ¬ SharedPage s p j) (hqp : q ≠ p) (hq : Holds (s.proc q)) :
    ¬ Maps (s.proc q) (tab q) (pageOf s p j) := by
  intro hm
  by_cases hz : (s.proc q).state = .ZOMBIE
  · -- a process that has exited shares nothing, unless it is a thread
    have hth : (s.proc q).isthread = false := by
      by_contra hc
      exact hq.2 ⟨hz, by simpa using hc⟩
    exact hI.apart q p hqp hq hp hth _ hm ((hI.maps_iff hp.1 _).mpr ⟨j, hj, rfl⟩)
  · obtain ⟨i, hi, he⟩ := (hI.maps_iff hq.1 _).mp hm
    exact hns ⟨q, i, hqp, ⟨hq.1, hz⟩, hi, he⟩

lemma wp_call {c : Call} (hE : LockStops E) (hinit : E (.panic "init exiting"))
    (hI : Inv ld use l tab s.vm s.proc) (hme : (s.proc me).state = .RUNNING)
    (hsafe : MemSafe ld s me c) :
    Wp (call ld me c) (fun _ t => Stays ld (Tight ld s me c t) use tab s t) E s := by
  have hh := Holds.of_running hme
  have hweak : ∀ {a b : Prop} {t : Sys}, (b → a) → Stays ld a use tab s t → Stays ld b use tab s t := by
    rintro a b t hab ⟨use', l', tab', h1, h2⟩
    exact ⟨use', l', tab', h1, fun hb => h2 (hab hb)⟩
  cases c with
  | fork => exact (wp_fork hE hI hh).imp fun _ t h => hweak (fun _ => trivial) h.2.1
  | exec path file uargv =>
    refine (wp_sys_exec hI hh).run.imp ?_
    rintro res t ⟨⟨hg, _, ⟨_, hproc, ⟨l', hI'⟩, _⟩ | ⟨hres, name, r, sz, _, hst⟩⟩, hrun⟩
    · refine ⟨use, l', tab, hI', fun _ hL => ?_⟩
      rw [kernel_eq hg, hproc]
      exact hL
    · refine hweak (fun _ => trivial) (hst ?_)
      intro q hqp hq y hy
      obtain ⟨j, hj, rfl⟩ := (hI.maps_iff hh.1 y).mp hy
      exact hI.not_maps hh hj (hsafe ⟨res, t, hrun, by omega⟩ j hj) hqp hq
  | sbrk n =>
    refine (wp_sys_sbrk hI hh fun hn q hqp hq y hy => ?_).imp fun _ t h => hweak (fun _ => trivial) h.2.1
    obtain ⟨j, h1, h2, rfl⟩ := hy
    have hj : j < pages (s.proc me).sz := by omega
    have hpage : PTE2PA ((tab me).pte j) = pageOf s me j := by
      unfold pageOf
      rw [hI.entry_eq hh.1]
    rw [hpage]
    exact hI.not_maps hh hj (hsafe hn j h1 hj) hqp hq
  | exit status =>
    refine (wp_exit hE hinit hI hh).bind ?_
    rintro _ t ⟨_, hst, _⟩
    rw [wp_pure]
    exact hweak (fun _ => trivial) hst
  | wait addr => exact (wp_wait hE hI hh).imp fun _ t h => hweak id h.2.1
  | kill pid => exact (wp_kill hE hI).imp fun _ t h => hweak (fun _ => trivial) h.2.1
  | create arg1 arg2 =>
    refine (wp_mythread_create hE hI hme).run.imp ?_
    rintro res t ⟨h | ⟨rfl, ⟨htk, _⟩, _, h⟩ | ⟨_, _, _, _, _, _, use', l', tab', _, hI', _, hL'⟩, hrun⟩
    · obtain ⟨_, hno⟩ := h
      obtain ⟨l', hheap⟩ := hno.heap
      refine hweak (a := True) (fun _ => trivial) ?_
      obtain ⟨use', l', tab', h1, h2⟩ := stays_notTaken (w := True) (s := marked s me)
        (hI.marked hme) hno.slots hno.globals hheap hno.same
      exact ⟨use', l', tab', h1, fun h hL => h2 h (hL.marked hme)⟩
    · obtain ⟨use', l', tab', hI'⟩ := h hsafe
      exact ⟨use', l', tab', hI', fun ht => absurd hrun (ht htk)⟩
    · exact ⟨use', l', tab', hI', fun _ => hL'⟩
  | join => exact wp_mythread_join hE hI hh hsafe

/-! ## Runs -/

lemma Inv.sched {st : procstate} (hI : Inv ld use l tab s.vm s.proc)
    (hp : Live (s.proc p).state) (hst : Live st) :
    Inv ld use l tab s.vm (put s.proc p { s.proc p with state := st }) := by
  have hne : ∀ {st}, Live st → st ≠ .UNUSED ∧ st ≠ .ZOMBIE := by
    rintro _ (rfl | rfl | rfl)
    · simp
    · simp
    · simp
  exact hI.setProc (hne hst).1 (hne hp).1 rfl rfl rfl
    (fun _ => ⟨(hne hp).1, fun hc => (hne hp).2 hc.1⟩) (fun _ hf => hf)

lemma live_ne {st : procstate} (h : Live st) : st ≠ .UNUSED := by
  rcases h with rfl | rfl | rfl
  · simp
  · simp
  · simp

lemma Run.inv (h : Run ld C s) (hC : Ensures ld C fun s p c _ => MemSafe ld s p c) :
    ∃ use l tab, Inv ld use l tab s.vm s.proc ∧
      (Ensures ld C (Tight ld) → NoLeak ld s.kernel use tab s.proc) := by
  have hE : LockStops fun _ => True := ⟨trivial, trivial, trivial, trivial, trivial⟩
  induction h with
  | boot hroom hrun =>
    obtain ⟨use, l, tab, hI, hL⟩ := ((wp_boot hE hroom fun _ => trivial).of_ok hrun).inv
    exact ⟨use, l, tab, hI, fun _ => hL⟩
  | call _ _ hp hrun hc ih =>
    obtain ⟨use, l, tab, hI, hL⟩ := ih
    obtain ⟨use', l', tab', hI', hL'⟩ := (wp_call hE trivial hI hp (hC hI hp hrun hc)).of_ok hrun
    exact ⟨use', l', tab', hI', fun ht => hL' (ht hI hp hrun hc) (hL @ht)⟩
  | sched _ _ hp hst ih =>
    obtain ⟨use, l, tab, hI, hL⟩ := ih
    exact ⟨use, l, tab, hI.sched hp hst, fun ht => (hL ht).setProc (live_ne hst) rfl rfl rfl⟩
  | @write s t p va bs r _ _ hp hrun ih =>
    obtain ⟨use, l, tab, hI, hL⟩ := ih
    have hw : Wp (onVm (copyout (s.proc p).pagetable va bs)) (fun _ t =>
        ∃ v, t = { s with vm := v } ∧ Inv ld use l tab v s.proc) (fun _ => True) s := by
      rw [wp_onVm]
      exact (wp_copyout_inv hI (.of_running hp)).imp fun _ v' hI' => ⟨v', rfl, hI'⟩
    obtain ⟨v, rfl, hI'⟩ := hw.of_ok hrun
    exact ⟨use, l, tab, hI', hL⟩

/-! ## Runs that are played -/

/-- Makes the calls one after the other; each caller is given the CPU first. -/
def play (ld : Link) : List (Nat × Call) → Sys → Option Sys
  | [], s => some s
  | (p, c) :: cs, s =>
    if p < NPROC ∧ Live (s.proc p).state then
      match (call ld p c).run { s with proc := put s.proc p { s.proc p with state := .RUNNING } } with
      | .ok (_, t) => play ld cs t
      | .error _ => none
    else
      none

variable {cs : List (Nat × Call)}

lemma Run.play (h : Run ld C s)
    (hC : ∀ x ∈ cs, ∀ s t, C s x.1 x.2 t) (hp : play ld cs s = some t) : Run ld C t := by
  induction cs generalizing s with
  | nil =>
    cases hp
    exact h
  | cons x cs ih =>
    obtain ⟨p, c⟩ := x
    unfold proc.play at hp
    split at hp
    · rename_i hlive
      split at hp
      · rename_i r u hrun
        refine ih (s := u) ?_ (fun y hy => hC y (List.mem_cons_of_mem _ hy)) hp
        exact .call (.sched h hlive.1 hlive.2 (.inr (.inr rfl))) hlive.1
          (by dsimp only; rw [put_self]) hrun (hC _ List.mem_cons_self _ _)
      · cases hp
    · cases hp

/-- What a call returns and leaves, if it returns. -/
def after (ld : Link) (me : Nat) (c : Call) (s : Sys) : Option (Int × Sys) :=
  ((call ld me c).run s).toOption

lemma eq_ok_of_toOption {ε α : Type} {e : Except ε α} {x : α} (h : e.toOption = some x) :
    e = .ok x := by
  cases e with
  | error _ => cases h
  | ok _ =>
    cases h
    rfl

lemma run_of_after {c : Call} {x : Int × Sys} (h : after ld me c s = some x) :
    (call ld me c).run s = .ok x :=
  eq_ok_of_toOption h

/-- Makes the calls as long as each one passes the test. -/
def playIf (ld : Link) (ok : Sys → Nat → Call → Sys → Bool) : List (Nat × Call) → Sys → Option Sys
  | [], s => some s
  | (p, c) :: cs, s =>
    let u := { s with proc := put s.proc p { s.proc p with state := .RUNNING } }
    if p < NPROC ∧ Live (s.proc p).state then
      match (call ld p c).run u with
      | .ok (_, t) => if ok u p c t then playIf ld ok cs t else none
      | .error _ => none
    else
      none

lemma Run.playIf {ok : Sys → Nat → Call → Sys → Bool} (h : Run ld C s)
    (hC : ∀ s p c t, ok s p c t = true → C s p c t) (hp : playIf ld ok cs s = some t) :
    Run ld C t := by
  induction cs generalizing s with
  | nil =>
    cases hp
    exact h
  | cons x cs ih =>
    obtain ⟨p, c⟩ := x
    unfold proc.playIf at hp
    dsimp only at hp
    split at hp
    · rename_i hlive
      split at hp
      · rename_i r u hrun
        split at hp
        · rename_i hok
          refine ih (s := u) ?_ hp
          exact .call (.sched h hlive.1 hlive.2 (.inr (.inr rfl))) hlive.1
            (by dsimp only; rw [put_self]) hrun (hC _ _ _ _ hok)
        · cases hp
      · cases hp
    · cases hp

/-- Boots, and then makes the calls. -/
def playFrom (ld : Link) (kpages : Nat) (cs : List (Nat × Call)) : Option Sys :=
  match (boot ld kpages [0x73]).run (start fun _ _ => 0) with
  | .ok (_, s) => play ld cs s
  | .error _ => none

lemma Run.playFrom {kpages : Nat} (hroom : kpages + 10 ≤ pagesAtBoot ld)
    (hC : ∀ x ∈ cs, ∀ s t, C s x.1 x.2 t) (hp : playFrom ld kpages cs = some t) : Run ld C t := by
  unfold proc.playFrom at hp
  split at hp
  · rename_i hrun
    exact (Run.boot hroom hrun).play hC hp
  · cases hp

lemma kernbase_aligned : KERNBASE % PGSIZE = 0 := by decide

/-- A machine with 40 pages for the kernel and the processes. -/
def smallLink : Link where
  kend := PHYSTOP - 40 * PGSIZE
  trampoline := KERNBASE
  aligned := kernbase_aligned
  inside := by decide
  below := by decide

lemma exists_played (C : Sys → Nat → Call → Sys → Prop) (cs : List (Nat × Call))
    (test : Sys → Bool) (hC : ∀ x ∈ cs, ∀ s t, C s x.1 x.2 t)
    (h : (playFrom smallLink 2 cs).any test = true) : ∃ s, Run smallLink C s ∧ test s = true := by
  cases hp : proc.playFrom smallLink 2 cs with
  | none =>
    rw [hp] at h
    cases h
  | some s =>
    rw [hp] at h
    exact ⟨s, .playFrom (by decide) hC hp, h⟩

lemma exists_playedIf (C : Sys → Nat → Call → Sys → Prop) (ok : Sys → Nat → Call → Sys → Bool)
    (cs : List (Nat × Call)) (test : Sys → Bool) (hC : ∀ s p c t, ok s p c t = true → C s p c t)
    (h : ((playFrom smallLink 2 []).bind (playIf smallLink ok cs)).any test = true) :
    ∃ s, Run smallLink C s ∧ test s = true := by
  cases hb : proc.playFrom smallLink 2 [] with
  | none =>
    rw [hb] at h
    cases h
  | some s =>
    rw [hb, Option.bind_some] at h
    have hs : Run smallLink C s := .playFrom (by decide) (by simp) hb
    cases hp : proc.playIf smallLink ok cs s with
    | none =>
      rw [hp] at h
      cases h
    | some t =>
      rw [hp] at h
      exact ⟨t, hs.playIf hC hp, h⟩

end xv6.proc
