-- The laws of the pipe: the bytes come out in the order in which they went in,
-- and, unless a writer is killed between two of its bytes, nobody sleeps on a
-- pipe that has what the sleeper waits for.
import Xv6.Pipe

open cells machine

namespace xv6.pipe

variable {s t : State} {a : Act} {p q : Nat} {n i : Int} {ch : Option UInt8}

/-! ## The pipe is a queue -/

def Pipe.buffered (pi : Pipe) : List UInt8 := ring.contents PIPESIZE pi.data pi.nread pi.nwrite

/-- The bytes delivered and those still in the pipe are the bytes accepted, in order. -/
structure Fifo (s : State) : Prop where
  bound : ring.span s.pi.nread s.pi.nwrite ≤ PIPESIZE
  bytes : s.delivered ++ s.pi.buffered = s.accepted

/-- The part of the state that the bytes are in. -/
def State.bytes (s : State) : (Nat → UInt8) × BitVec 32 × BitVec 32 × List UInt8 × List UInt8 :=
  (s.pi.data, s.pi.nread, s.pi.nwrite, s.accepted, s.delivered)

lemma Fifo.of_bytes (h : Fifo s) (he : t.bytes = s.bytes) : Fifo t := by
  simp only [State.bytes, Prod.mk.injEq] at he
  obtain ⟨h1, h2, h3, h4, h5⟩ := he
  refine ⟨?_, ?_⟩
  · rw [h2, h3]
    exact h.bound
  · unfold Pipe.buffered
    rw [h1, h2, h3, h4, h5]
    exact h.bytes

lemma PIPESIZE_dvd : PIPESIZE ∣ 2 ^ 32 := by decide

lemma Fifo.pipewrite (h : Fifo s) : Fifo (pipewrite s p n i ch) := by
  unfold pipe.pipewrite
  split
  · split
    · exact h.of_bytes rfl
    · split
      · exact h.of_bytes rfl
      · rename_i hroom
        cases ch with
        | none => exact h.of_bytes rfl
        | some c =>
          -- there is room: the counters are not a whole pipe apart
          have hne : ring.span s.pi.nread s.pi.nwrite ≠ PIPESIZE := by
            intro he
            apply hroom
            rw [← he, ring.add_span]
          have hspan : ring.span s.pi.nread s.pi.nwrite < PIPESIZE := lt_of_le_of_ne h.bound hne
          have hwide : ring.span s.pi.nread s.pi.nwrite + 1 < 2 ^ 32 := by
            unfold PIPESIZE at hspan
            omega
          refine ⟨?_, ?_⟩
          · dsimp only [State.setPc]
            rw [ring.span_succ hwide]
            exact hspan
          · dsimp only [State.setPc, Pipe.buffered]
            rw [ring.contents_push PIPESIZE_dvd hspan hwide, ← List.append_assoc]
            congr 1
            exact h.bytes
  · exact h.of_bytes rfl

lemma Fifo.piperead (h : Fifo s) (hch : ch ≠ none) : Fifo (piperead s p n i ch) := by
  unfold pipe.piperead
  split
  · rename_i hsome
    cases ch with
    | none => exact absurd rfl hch
    | some c =>
      refine ⟨?_, ?_⟩
      · dsimp only [State.setPc]
        have := ring.span_tail hsome.2
        have := h.bound
        omega
      · dsimp only [State.setPc, Pipe.buffered]
        rw [List.append_assoc, List.singleton_append, ← ring.contents_pop hsome.2]
        exact h.bytes
  · exact h.of_bytes rfl

def CopiesSucceed (_ : State) (a : Act) : Prop := ∀ p, a ≠ .step p none

lemma wakeup_bytes {chan : Chan} {next : Then} (he : wakeup s p chan q next = .ok t) :
    t.bytes = s.bytes := by
  unfold wakeup at he
  split at he
  · split at he
    · cases he
      rfl
    · split at he
      · cases he
      · split at he <;> cases he <;> rfl
  · split at he <;> cases he <;> rfl

lemma acquire_ok {pc : Pc} (he : acquire s p pc = .ok t) :
    s.lock = none ∧ t = { s.setPc p pc with lock := some p } := by
  unfold acquire at he
  split at he
  · rename_i hfree
    cases he
    exact ⟨hfree, rfl⟩
  · cases he

lemma call_ok {pc : Pc} (he : call s p pc = .ok t) :
    p < NPROC ∧ (s.proc p).state = .RUNNING ∧ (s.proc p).pc = .user ∧ t = s.setPc p pc := by
  unfold call at he
  split at he
  · rename_i h
    cases he
    exact ⟨h.1, h.2.1, h.2.2, rfl⟩
  · cases he

lemma Fifo.step (h : Fifo s) (hch : ch ≠ none) (he : step s p ch = .ok t) : Fifo t := by
  unfold pipe.step at he
  split at he
  case h_4 => cases he; exact h.pipewrite
  case h_5 =>
    cases he
    unfold pipewait
    split
    · split <;> exact h.of_bytes rfl
    · exact h.of_bytes rfl
  case h_6 => cases he; exact h.piperead hch
  case h_7 w _ =>
    obtain ⟨_, rfl⟩ := acquire_ok he
    cases w <;> exact h.of_bytes rfl
  case h_8 => exact h.of_bytes (wakeup_bytes he)
  case h_1 => cases he
  case h_9 => cases he; exact h.of_bytes rfl
  case h_10 => cases he; exact h.of_bytes rfl
  all_goals
    obtain ⟨_, rfl⟩ := acquire_ok he
    exact h.of_bytes rfl

lemma Fifo.exec (h : Fifo s) (hC : CopiesSucceed s a) (he : exec s a = .ok t) : Fifo t := by
  cases a with
  | step p ch =>
    simp only [pipe.exec] at he
    split at he
    · exact h.step (fun hn => hC p (by rw [hn])) he
    · cases he
  | pipewrite p n | piperead p n | pipeclose p w =>
    obtain ⟨_, _, _, rfl⟩ := call_ok he
    exact h.of_bytes rfl
  | kill p | scheduler p | yield p =>
    simp only [pipe.exec] at he
    split at he <;> cases he
    exact h.of_bytes rfl

/-- Whatever the calls on a pipe and their order, for however long: the counters are at most the
pipe's size apart, and what was delivered, followed by what is in the pipe, is what was
accepted. -/
theorem pipe_is_a_queue {data : Nat → UInt8} (h : Run exec CopiesSucceed (pipealloc data) s) :
    (s.pi.nwrite - s.pi.nread).toNat ≤ PIPESIZE ∧ s.delivered ++ s.pi.buffered = s.accepted := by
  have hf : Fifo s := by
    apply h.invariant (I := Fifo)
    · exact ⟨by simp [pipealloc], by simp [pipealloc, Pipe.buffered]⟩
    · intro s a t hs hC he
      exact hs.exec hC he
  exact ⟨hf.bound, hf.bytes⟩

/-- Two processes start, the first writes two bytes and the second reads one. -/
def oneOfTwo : List Act :=
  [.scheduler 0, .scheduler 1, .pipewrite 0 2, .step 0 (some 0), .step 0 (some 65),
    .step 0 (some 66)] ++ List.replicate 66 (.step 0 (some 0)) ++
  [.piperead 1 1, .step 1 (some 0), .step 1 (some 0), .step 1 (some 0)]

def Act.copies : Act → Bool
  | .step _ (some _) | .scheduler _ | .pipewrite _ _ | .piperead _ _ => true
  | _ => false

theorem pipe_is_a_queue_oneOfTwo : ∃ s, Run exec CopiesSucceed (pipealloc fun _ => 0) s ∧
    s.accepted = [65, 66] ∧ s.delivered = [65] ∧ (s.pi.nwrite - s.pi.nread).toNat ≤ PIPESIZE ∧
    s.delivered ++ s.pi.buffered = s.accepted := by
  obtain ⟨s, hs, ht⟩ := exists_played exec CopiesSucceed (pipealloc fun _ => 0) oneOfTwo
    (fun _ a => a.copies)
    (fun s => s.accepted == [65, 66] && s.delivered == [65])
    (fun _ a ha p hp => by subst hp; simp [Act.copies] at ha) (by decide +kernel)
  simp only [Bool.and_eq_true, beq_iff_eq] at ht
  exact ⟨s, hs, ht.1, ht.2, pipe_is_a_queue hs⟩

/-! ## The sleepers -/

/-- The process sleeps on `c`, or holds its own lock on the way to it. -/
def Sleeper (c : Chan) (x : Proc) : Prop :=
  (x.state = .SLEEPING ∧ x.chan = some c) ∨ ∃ caller, x.pc = .dozing c caller

/-- The pipe gives a sleeper on the channel nothing to do. -/
def Calm (pi : Pipe) : Chan → Prop
  | .nread => pi.nread = pi.nwrite ∧ pi.writeopen = true
  | .nwrite => pi.nwrite = pi.nread + BitVec.ofNat 32 PIPESIZE ∧ pi.readopen = true

/-- A process there holds `pi->lock`. -/
def Pc.holds : Pc → Bool
  | .writing _ _ | .waiting _ | .reading _ _ | .wakeup _ _ _ => true
  | _ => false

/-- A process there will call `wakeup(c)`, or is in it and has not come to `p` yet. -/
def Pc.wakes (pi : Pipe) (c : Chan) (p : Nat) : Pc → Prop
  | .writing _ _ => c = .nread ∧ pi.readopen = true ∧ pi.writeopen = true
  | .reading _ _ => c = .nwrite
  | .wakeup c' q _ => c' = c ∧ q ≤ p
  | _ => False

/-- What holds of the sleepers between the acts. -/
structure Watched (s : State) : Prop where
  lock : ∀ p, s.lock = some p ↔ (s.proc p).pc.holds = true
  slot : ∀ p, (s.proc p).pc ≠ .user → p < NPROC
  asleep : ∀ p, (s.proc p).state = .SLEEPING → ∃ caller, (s.proc p).pc = .asleep caller
  full : ∀ p c q c' caller, (s.proc p).pc = .wakeup c q (.sleep c' caller) → Calm s.pi c'
  sleepers : ∀ p c, Sleeper c (s.proc p) →
    Calm s.pi c ∨ ∃ q, s.lock = some q ∧ (s.proc q).pc.wakes s.pi c p

lemma Pc.holds_of_wakes {pi : Pipe} {c : Chan} {pc : Pc} (h : pc.wakes pi c p) :
    pc.holds = true := by
  cases pc <;> simp_all [Pc.wakes, Pc.holds]

lemma Watched.not_sleeper (h : Watched s) {c : Chan} (hp : (s.proc p).pc.holds = true) :
    ¬ Sleeper c (s.proc p) := by
  rintro (⟨hs, _⟩ | ⟨caller, hd⟩)
  · obtain ⟨caller, hpc⟩ := h.asleep p hs
    simp [hpc, Pc.holds] at hp
  · simp [hd, Pc.holds] at hp

lemma Watched.update (h : Watched s) {x : Proc} (hslot : x.pc ≠ .user → p < NPROC)
    (hholds : x.pc.holds = (s.proc p).pc.holds)
    (hpc : (s.proc p).pc.holds = true → x.pc = (s.proc p).pc)
    (hasleep : x.state = .SLEEPING → ∃ caller, x.pc = .asleep caller)
    (hsleeper : ∀ c, Sleeper c x → Sleeper c (s.proc p)) :
    Watched { s with proc := put s.proc p x } := by
  have hsame : ∀ q, (put s.proc p x q).pc.holds = (s.proc q).pc.holds := by
    intro q
    by_cases hq : q = p
    · rw [hq, put_self, hholds]
    · rw [put_of_ne hq]
  have hkeep : ∀ q, (s.proc q).pc.holds = true → (put s.proc p x q).pc = (s.proc q).pc := by
    intro q hq
    by_cases hqp : q = p
    · rw [hqp, put_self, hpc (by rw [← hqp]; exact hq)]
    · rw [put_of_ne hqp]
  constructor
  · intro q
    simp only [hsame]
    exact h.lock q
  · intro q hq
    by_cases hqp : q = p
    · rw [hqp] at hq ⊢
      exact hslot (by simpa using hq)
    · exact h.slot q (by simpa [hqp] using hq)
  · intro q hq
    by_cases hqp : q = p
    · rw [hqp] at hq ⊢
      simpa using hasleep (by simpa using hq)
    · simpa [hqp] using h.asleep q (by simpa [hqp] using hq)
  · intro q c k c' caller hq
    have hold : (s.proc q).pc.holds = true := by
      rw [← hsame q, hq]
      rfl
    exact h.full q c k c' caller (by rw [← hkeep q hold]; exact hq)
  · intro q c hq
    have hold : Sleeper c (s.proc q) := by
      by_cases hqp : q = p
      · rw [hqp] at hq ⊢
        exact hsleeper c (by simpa using hq)
      · simpa [hqp] using hq
    refine (h.sleepers q c hold).imp id ?_
    rintro ⟨r, hr, hw⟩
    refine ⟨r, hr, ?_⟩
    rw [show (put s.proc p x r).pc = (s.proc r).pc from hkeep r (Pc.holds_of_wakes hw)]
    exact hw

lemma Watched.section (h : Watched s) {x : Proc} {i : Pipe} (hfree : s.lock = none ∨ s.lock = some p)
    (hslot : p < NPROC) (hstate : x.state ≠ .SLEEPING)
    (hfull : ∀ c q c' caller, x.pc = .wakeup c q (.sleep c' caller) → Calm i c')
    (hx : ∀ c, Sleeper c x → Calm i c)
    (hothers : ∀ q c, Sleeper c (s.proc q) →
      Calm s.pi c ∨ (s.lock = some p ∧ (s.proc p).pc.wakes s.pi c q) →
      Calm i c ∨ x.pc.wakes i c q) :
    Watched { s with
      pi := i
      lock := if x.pc.holds = true then some p else none
      proc := put s.proc p x } := by
  have hno : ∀ q, q ≠ p → (s.proc q).pc.holds = false := by
    intro q hq
    by_contra hc
    have hl := (h.lock q).mpr (by simpa using hc)
    rcases hfree with h1 | h1
    · simp [h1] at hl
    · rw [h1, Option.some.injEq] at hl
      exact hq hl.symm
  constructor
  · intro q
    dsimp only
    by_cases hqp : q = p
    · rw [hqp, put_self]
      split <;> simp_all
    · rw [put_of_ne hqp, hno q hqp]
      split <;> simp [Ne.symm hqp]
  · intro q hq
    by_cases hqp : q = p
    · rw [hqp]
      exact hslot
    · exact h.slot q (by simpa [hqp] using hq)
  · intro q hq
    by_cases hqp : q = p
    · rw [hqp] at hq
      exact absurd (by simpa using hq) hstate
    · simpa [hqp] using h.asleep q (by simpa [hqp] using hq)
  · intro q c k c' caller hq
    by_cases hqp : q = p
    · rw [hqp] at hq
      exact hfull c k c' caller (by simpa using hq)
    · have hn := hno q hqp
      simp only [put_of_ne hqp] at hq
      simp [hq, Pc.holds] at hn
  · intro q c hq
    by_cases hqp : q = p
    · rw [hqp] at hq
      exact .inl (hx c (by simpa using hq))
    · have hold : Sleeper c (s.proc q) := by simpa [hqp] using hq
      have hwas : Calm s.pi c ∨ (s.lock = some p ∧ (s.proc p).pc.wakes s.pi c q) := by
        refine (h.sleepers q c hold).imp id ?_
        rintro ⟨r, hr, hw⟩
        rcases hfree with h1 | h1
        · simp [h1] at hr
        · rw [h1, Option.some.injEq] at hr
          subst hr
          exact ⟨h1, hw⟩
      refine (hothers q c hold hwas).imp id ?_
      intro hw
      exact ⟨p, by simp [Pc.holds_of_wakes hw], by simpa using hw⟩

lemma Watched.counted (h : Watched s) (accepted delivered : List UInt8) :
    Watched { s with accepted := accepted, delivered := delivered } :=
  { h with }

lemma Watched.holder_slot (h : Watched s) (hl : s.lock = some p) : p < NPROC := by
  apply h.slot p
  intro hu
  have := (h.lock p).mp hl
  simp [hu, Pc.holds] at this

section Holder

variable (h : Watched s) (hl : s.lock = some p) (hrun : (s.proc p).state = .RUNNING)
include h hl hrun

lemma Watched.setPc {pc : Pc} {i : Pipe} (hpc : pc.holds = true)
    (hfull : ∀ c q c' caller, pc = .wakeup c q (.sleep c' caller) → Calm i c')
    (hothers : ∀ q c, Sleeper c (s.proc q) → Calm s.pi c ∨ (s.proc p).pc.wakes s.pi c q →
      Calm i c ∨ pc.wakes i c q) : Watched { s.setPc p pc with pi := i } := by
  have hsec := h.section (x := { s.proc p with pc := pc }) (i := i) (.inr hl)
    (h.holder_slot hl) (by simp [hrun]) hfull ?_ ?_
  · simpa [hpc, State.setPc, hl] using hsec
  · rintro c (⟨hs, _⟩ | ⟨caller, hd⟩)
    · simp [hrun] at hs
    · simp only at hd
      simp [hd, Pc.holds] at hpc
  · intro q c hq hw
    exact hothers q c hq (hw.imp id And.right)

lemma Watched.leave {res : Int} (hcalm : ∀ q c, Sleeper c (s.proc q) →
    Calm s.pi c ∨ (s.proc p).pc.wakes s.pi c q → Calm s.pi c) : Watched (s.leave p res) := by
  have hsec := h.section (x := { s.proc p with pc := .user, ret := res }) (i := s.pi) (.inr hl)
    (h.holder_slot hl) (by simp [hrun]) (by simp) ?_ ?_
  · simpa [Pc.holds, State.leave] using hsec
  · rintro c (⟨hs, _⟩ | ⟨caller, hd⟩)
    · simp [hrun] at hs
    · simp at hd
  · intro q c hq hw
    exact .inl (hcalm q c hq (hw.imp id And.right))

lemma Watched.doze {c' : Chan} {caller : Caller} (hc' : Calm s.pi c')
    (hcalm : ∀ q c, Sleeper c (s.proc q) → Calm s.pi c ∨ (s.proc p).pc.wakes s.pi c q →
      Calm s.pi c) : Watched (s.doze p c' caller) := by
  have hsec := h.section (x := { s.proc p with pc := .dozing c' caller }) (i := s.pi) (.inr hl)
    (h.holder_slot hl) (by simp [hrun]) (by simp) ?_ ?_
  · simpa [Pc.holds, State.doze, State.setPc] using hsec
  · rintro c (⟨hs, _⟩ | ⟨caller', hd⟩)
    · simp [hrun] at hs
    · simp only [Pc.dozing.injEq] at hd
      rw [← hd.1]
      exact hc'
  · intro q c hq hw
    exact .inl (hcalm q c hq (hw.imp id And.right))

end Holder

lemma Watched.acquire (h : Watched s) {pc : Pc} {i : Pipe} (hl : s.lock = none) (hp : p < NPROC)
    (hrun : (s.proc p).state = .RUNNING) (hpc : pc.holds = true)
    (hfull : ∀ c q c' caller, pc ≠ .wakeup c q (.sleep c' caller))
    (hothers : ∀ q c, Calm s.pi c → Calm i c ∨ pc.wakes i c q) :
    Watched { s.setPc p pc with pi := i, lock := some p } := by
  have hsec := h.section (x := { s.proc p with pc := pc }) (i := i) (.inl hl) hp
    (by simp [hrun]) (fun c q c' caller he => absurd he (hfull c q c' caller)) ?_ ?_
  · simpa [hpc, State.setPc] using hsec
  · rintro c (⟨hs, _⟩ | ⟨caller, hd⟩)
    · simp [hrun] at hs
    · simp only at hd
      simp [hd, Pc.holds] at hpc
  · rintro q c hq (hc | ⟨hc, _⟩)
    · exact hothers q c hc
    · simp [hl] at hc

/-! ## Every act keeps watch of the sleepers -/

/-- A writer that finds it was killed leaves an empty pipe, or nobody who waits for its bytes. -/
def KilledWritersLeaveNothing (s : State) (a : Act) : Prop :=
  ∀ p ch n i, a = .step p ch → (s.proc p).pc = .writing n i → i < n → (s.proc p).killed = true →
    s.pi.nread = s.pi.nwrite ∨ ∀ q, ¬ Sleeper .nread (s.proc q)

section

variable (h : Watched s) (hrun : (s.proc p).state = .RUNNING)
include h hrun

lemma Watched.pipewrite
    (hpc : (s.proc p).pc = .writing n i)
    (hC : i < n → (s.proc p).killed = true →
      s.pi.nread = s.pi.nwrite ∨ ∀ q, ¬ Sleeper .nread (s.proc q)) :
    Watched (pipewrite s p n i ch) := by
  have hl : s.lock = some p := (h.lock p).mpr (by simp [hpc, Pc.holds])
  -- every exit but that of a killed writer wakes the readers
  have hwake : ∀ next, (∀ c' caller, next = .sleep c' caller → Calm s.pi c') →
      Watched (s.setPc p (.wakeup .nread 0 next)) := by
    intro next hnext
    refine h.setPc hl hrun (i := s.pi) rfl ?_ ?_
    · intro c q c' caller he
      simp only [Pc.wakeup.injEq] at he
      exact hnext c' caller he.2.2
    · rintro q c hq (hc | hw)
      · exact .inl hc
      · rw [hpc] at hw
        exact .inr ⟨hw.1.symm, Nat.zero_le q⟩
  unfold pipe.pipewrite
  split
  · rename_i hlt
    split
    · rename_i hexit
      refine h.leave hl hrun ?_
      rintro q c hq (hc | hw)
      · exact hc
      · rw [hpc] at hw
        obtain ⟨rfl, hopen, hwo⟩ := hw
        have hkill : (s.proc p).killed = true := by
          rcases hexit with hx | hx
          · simp [hx] at hopen
          · exact hx
        rcases hC hlt hkill with he | hno
        · exact ⟨he, hwo⟩
        · exact absurd hq (hno q)
    · rename_i hgo
      have hopen : s.pi.readopen = true := by
        by_contra hc
        exact hgo (.inl (by simpa using hc))
      split
      · rename_i hfull
        apply hwake
        intro c' caller he
        simp only [Then.sleep.injEq] at he
        rw [← he.1]
        exact ⟨hfull, hopen⟩
      · rename_i hroom
        cases ch with
        | none => exact hwake _ (by simp)
        | some c =>
          refine Watched.counted (s := { s.setPc p (.writing n (i + 1)) with pi := _ })
            (h.setPc hl hrun rfl (by simp) ?_) _ _
          rintro q (_ | _) hq (hc | hw)
          · exact .inr ⟨rfl, hopen, hc.2⟩
          · rw [hpc] at hw
            exact .inr hw
          · exact absurd hc.1 hroom
          · rw [hpc] at hw
            exact absurd hw.1 (by simp)
  · exact hwake _ (by simp)

lemma Watched.pipewait
    (hpc : (s.proc p).pc = .waiting n) : Watched (pipewait s p n) := by
  have hl : s.lock = some p := (h.lock p).mpr (by simp [hpc, Pc.holds])
  have hcalm : ∀ q c, Sleeper c (s.proc q) → Calm s.pi c ∨ (s.proc p).pc.wakes s.pi c q →
      Calm s.pi c := by
    rintro q c hq (hc | hw)
    · exact hc
    · rw [hpc] at hw
      exact hw.elim
  unfold pipe.pipewait
  split
  · rename_i hempty
    split
    · exact h.leave hl hrun hcalm
    · exact h.doze hl hrun hempty hcalm
  · refine h.setPc hl hrun (i := s.pi) rfl (by simp) ?_
    intro q c hq hw
    exact .inl (hcalm q c hq hw)

lemma Watched.piperead
    (hpc : (s.proc p).pc = .reading n i) : Watched (piperead s p n i ch) := by
  have hl : s.lock = some p := (h.lock p).mpr (by simp [hpc, Pc.holds])
  unfold pipe.piperead
  split
  · rename_i hsome
    -- the pipe is not empty, so nobody waits for bytes
    have hnone : ∀ q, Sleeper .nread (s.proc q) →
        Calm s.pi .nread ∨ (s.proc p).pc.wakes s.pi .nread q → False := by
      rintro q hq (hc | hw)
      · exact hsome.2 hc.1
      · rw [hpc] at hw
        exact absurd hw (by simp [Pc.wakes])
    cases ch with
    | none =>
      refine h.setPc hl hrun rfl (by simp) ?_
      rintro q (_ | _) hq hw
      · exact (hnone q hq hw).elim
      · exact .inr ⟨rfl, Nat.zero_le q⟩
    | some c =>
      refine Watched.counted (s := { s.setPc p (.reading n (i + 1)) with pi := _ })
        (h.setPc hl hrun rfl (by simp) ?_) _ _
      rintro q (_ | _) hq hw
      · exact (hnone q hq hw).elim
      · exact .inr rfl
  · refine h.setPc hl hrun (i := s.pi) rfl (by simp) ?_
    rintro q c hq (hc | hw)
    · exact .inl hc
    · rw [hpc] at hw
      exact .inr ⟨hw.symm, Nat.zero_le q⟩

lemma Watched.wakeup {c : Chan} {next : Then} (hpc : (s.proc p).pc = .wakeup c q next)
    (he : wakeup s p c q next = .ok t) : Watched t := by
  have hl : s.lock = some p := (h.lock p).mpr (by simp [hpc, Pc.holds])
  -- one round is over, and process `q` does not sleep on the channel
  have hnext : ∀ u : State, Watched u → u.lock = some p → (u.proc p).state = .RUNNING →
      (u.proc p).pc = .wakeup c q next → ¬ Sleeper c (u.proc q) →
      Watched (u.setPc p (.wakeup c (q + 1) next)) := by
    intro u hu hul hur hup hq
    refine hu.setPc hul hur (i := u.pi) rfl ?_ ?_
    · intro c1 k c' caller hn
      simp only [Pc.wakeup.injEq] at hn
      exact hu.full p c q c' caller (by rw [hup, hn.2.2])
    · rintro r c' hr (hc | hw)
      · exact .inl hc
      · rw [hup] at hw
        obtain ⟨rfl, hle⟩ := hw
        refine .inr ⟨rfl, ?_⟩
        rcases Nat.lt_or_ge q r with hlt | hge
        · exact hlt
        · have : r = q := by omega
          rw [this] at hr
          exact absurd hr hq
  have hcalm : NPROC ≤ q → ∀ r c', Sleeper c' (s.proc r) →
      Calm s.pi c' ∨ (s.proc p).pc.wakes s.pi c' r → Calm s.pi c' := by
    rintro hq r c' hr (hc | hw)
    · exact hc
    · rw [hpc] at hw
      have hslot : r < NPROC := by
        apply h.slot r
        intro hu
        rcases hr with ⟨hs, _⟩ | ⟨caller, hd⟩
        · obtain ⟨caller, ha⟩ := h.asleep r hs
          simp [hu] at ha
        · simp [hu] at hd
      have := hw.2
      omega
  unfold pipe.wakeup at he
  split at he
  · split at he
    · rename_i hqp
      cases he
      exact hnext s h hl hrun hpc (by rw [hqp]; exact h.not_sleeper (by simp [hpc, Pc.holds]))
    · rename_i hqp
      split at he
      · cases he
      · rename_i hunlocked
        have hnodoze : ∀ caller, (s.proc q).pc ≠ .dozing c caller := by
          intro caller hd
          simp [Proc.locked, hd] at hunlocked
        split at he
        · rename_i hsleep
          cases he
          -- the sleeper becomes runnable, then the round is over
          have hu := h.update (p := q) (x := { s.proc q with state := .RUNNABLE })
            (fun hu => h.slot q hu) rfl (fun _ => rfl) (by simp) ?_
          · refine hnext _ hu hl ?_ ?_ ?_
            · simpa [Ne.symm hqp] using hrun
            · simpa [Ne.symm hqp] using hpc
            · rintro (⟨hs, _⟩ | ⟨caller, hd⟩)
              · simp at hs
              · exact hnodoze caller (by simpa using hd)
          · rintro c' (⟨hs, _⟩ | ⟨caller, hd⟩)
            · simp at hs
            · exact .inr ⟨caller, hd⟩
        · rename_i hawake
          cases he
          refine hnext s h hl hrun hpc ?_
          rintro (hs | ⟨caller, hd⟩)
          · exact hawake hs
          · exact hnodoze caller hd
  · rename_i hover
    split at he
    · cases he
      exact h.leave hl hrun (hcalm (by omega))
    · cases he
      exact h.doze hl hrun (h.full p c q _ _ hpc) (hcalm (by omega))

lemma Watched.step
    (hC : KilledWritersLeaveNothing s (.step p ch)) (he : step s p ch = .ok t) : Watched t := by
  have hslot : (s.proc p).pc ≠ .user → p < NPROC := h.slot p
  unfold pipe.step at he
  split at he
  · cases he
  · rename_i n i hpc
    obtain ⟨hl, rfl⟩ := acquire_ok he
    exact h.acquire (i := s.pi) hl (hslot (by simp [hpc])) hrun rfl (by simp)
      (fun q c hc => .inl hc)
  · rename_i n hpc
    obtain ⟨hl, rfl⟩ := acquire_ok he
    exact h.acquire (i := s.pi) hl (hslot (by simp [hpc])) hrun rfl (by simp)
      (fun q c hc => .inl hc)
  · rename_i n i hpc
    cases he
    exact h.pipewrite hrun hpc (hC p ch n i rfl hpc)
  · rename_i n hpc
    cases he
    exact h.pipewait hrun hpc
  · rename_i n i hpc
    cases he
    exact h.piperead hrun hpc
  · rename_i w hpc
    obtain ⟨hl, rfl⟩ := acquire_ok he
    refine h.acquire (i := s.pi.close w) hl (hslot (by simp [hpc])) hrun rfl (by simp) ?_
    -- closing one end disturbs the sleepers on the other side, and only them
    rintro q (_ | _) hc <;> cases w
    · exact .inl hc
    · exact .inr ⟨rfl, Nat.zero_le q⟩
    · exact .inr ⟨rfl, Nat.zero_le q⟩
    · exact .inl hc
  · rename_i c q next hpc
    exact h.wakeup hrun hpc he
  · rename_i c caller hpc
    cases he
    refine h.update (fun _ => hslot (by simp [hpc])) (by simp [hpc, Pc.holds])
      (by simp [hpc, Pc.holds]) (fun _ => ⟨caller, rfl⟩) ?_
    rintro c' (⟨_, hs⟩ | ⟨caller', hd⟩)
    · simp only [Option.some.injEq] at hs
      exact .inr ⟨caller, by rw [hpc, hs]⟩
    · simp at hd
  · rename_i caller hpc
    cases he
    refine h.update (fun _ => hslot (by simp [hpc])) (by simp [hpc, Pc.holds])
      (by simp [hpc, Pc.holds]) (by simp [hrun]) ?_
    rintro c' (⟨_, hs⟩ | ⟨caller', hd⟩)
    · simp at hs
    · simp at hd

end

lemma Watched.call (h : Watched s) {pc : Pc} (hpc : pc.preemptible = true)
    (he : call s p pc = .ok t) : Watched t := by
  obtain ⟨hp, hrun, huser, rfl⟩ := call_ok he
  have hholds : pc.holds = false := by
    cases pc <;> simp_all [Pc.preemptible, Pc.holds]
  refine h.update (fun _ => hp) (hholds.trans (by rw [huser]; rfl)) (by simp [huser, Pc.holds])
    (by simp [hrun]) ?_
  rintro c (⟨hs, _⟩ | ⟨caller, hd⟩)
  · simp [hrun] at hs
  · simp only at hd
    simp [hd, Pc.preemptible] at hpc

lemma Watched.exec (h : Watched s) (hC : KilledWritersLeaveNothing s a)
    (he : exec s a = .ok t) : Watched t := by
  -- the scheduler and `kill` wake a process up, but put nobody to sleep
  have hstate : ∀ p x, x.pc = (s.proc p).pc → x.state ≠ .SLEEPING →
      Watched { s with proc := put s.proc p x } := by
    intro p x hpc hx
    refine h.update (fun hu => h.slot p (by rw [← hpc]; exact hu)) (by rw [hpc]) (fun _ => hpc)
      (fun hs => absurd hs hx) ?_
    rintro c (⟨hs, _⟩ | ⟨caller, hd⟩)
    · exact absurd hs hx
    · exact .inr ⟨caller, by rw [← hpc]; exact hd⟩
  cases a with
  | pipewrite p n | piperead p n | pipeclose p w => exact h.call rfl he
  | step p ch =>
    simp only [pipe.exec] at he
    split at he
    · rename_i hrun
      exact h.step hrun hC he
    · cases he
  | kill p =>
    simp only [pipe.exec] at he
    split at he <;> cases he
    refine hstate p _ rfl ?_
    split <;> simp_all
  | scheduler p | yield p =>
    simp only [pipe.exec] at he
    split at he <;> cases he
    exact hstate p _ rfl (by simp)

lemma watched_pipealloc (data : Nat → UInt8) : Watched (pipealloc data) := by
  constructor <;> simp [pipealloc, Pc.holds, Sleeper]

/-- Unless a killed writer leaves with bytes that it told nobody of: when the lock of the pipe is
free, who sleeps on `&pi->nread` finds the pipe empty and open for writing, and who sleeps on
`&pi->nwrite` finds it full and open for reading. -/
theorem sleepers_have_nothing_to_do {data : Nat → UInt8}
    (h : Run exec KilledWritersLeaveNothing (pipealloc data) s) (hl : s.lock = none) (p : Nat)
    (hp : (s.proc p).state = .SLEEPING) :
    ((s.proc p).chan = some .nread → s.pi.nread = s.pi.nwrite ∧ s.pi.writeopen = true) ∧
    ((s.proc p).chan = some .nwrite →
      s.pi.nwrite = s.pi.nread + BitVec.ofNat 32 PIPESIZE ∧ s.pi.readopen = true) := by
  have hw : Watched s := h.invariant (I := Watched) (watched_pipealloc data)
    fun s a t hs hC he => hs.exec hC he
  have hcalm : ∀ c, (s.proc p).chan = some c → Calm s.pi c := by
    intro c hc
    rcases hw.sleepers p c (Or.inl ⟨hp, hc⟩) with h1 | ⟨q, hq, _⟩
    · exact h1
    · simp [hl] at hq
  exact ⟨hcalm .nread, hcalm .nwrite⟩

/-- A reader falls asleep; then a writer puts one byte of two and is killed. -/
def killedWriter : List Act :=
  [.scheduler 0, .scheduler 1, .piperead 1 1, .step 1 none, .step 1 none, .step 1 none,
    .pipewrite 0 2, .step 0 none, .step 0 (some 65), .kill 0, .step 0 none]

theorem sleepers_have_nothing_to_do_one_reader : ∃ s,
    Run exec KilledWritersLeaveNothing (pipealloc fun _ => 0) s ∧ s.lock = none ∧
      (s.proc 1).state = .SLEEPING ∧ (s.proc 1).chan = some .nread ∧
      s.pi.nread = s.pi.nwrite ∧ s.pi.writeopen = true := by
  obtain ⟨s, hs, ht⟩ := exists_played exec KilledWritersLeaveNothing (pipealloc fun _ => 0)
    (killedWriter.take 6) (fun s a => match a with
      | .step p _ => !(s.proc p).killed
      | _ => true)
    (fun s => s.lock == none && (s.proc 1).state == .SLEEPING && (s.proc 1).chan == some .nread)
    (fun s a ha p ch n i hp _ _ hk => by subst hp; simp [hk] at ha) (by decide +kernel)
  simp only [Bool.and_eq_true, beq_iff_eq] at ht
  exact ⟨s, hs, ht.1.1, ht.1.2, ht.2, (sleepers_have_nothing_to_do hs ht.1.1 1 ht.1.2).1 ht.2⟩

/-- The killed writer returns without a `wakeup`: its byte is in the pipe, and the reader that
waits for it sleeps on. -/
theorem killed_writer_strands_a_reader : ∃ s, Run exec (fun _ _ => True) (pipealloc fun _ => 0) s ∧
    s.lock = none ∧ (s.proc 1).state = .SLEEPING ∧ (s.proc 1).chan = some .nread ∧
    s.pi.nread ≠ s.pi.nwrite := by
  obtain ⟨s, hs, ht⟩ := exists_played exec (fun _ _ => True) (pipealloc fun _ => 0) killedWriter
    (fun _ _ => true) (fun s => s.lock == none && (s.proc 1).state == .SLEEPING && (s.proc 1).chan == some .nread &&
      s.pi.nread != s.pi.nwrite)
    (fun _ _ _ => trivial) (by decide +kernel)
  simp only [Bool.and_eq_true, beq_iff_eq, bne_iff_ne] at ht
  exact ⟨s, hs, ht.1.1.1, ht.1.1.2, ht.1.2, ht.2⟩

end xv6.pipe
