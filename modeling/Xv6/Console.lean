-- The console of `console.c`: the interrupt side edits a line in a ring of
-- characters, the reading side takes whole lines out of it. Every section under
-- `cons.lock` is one act. The ring with its three counters behaves as two
-- queues, the committed characters and the line that is being edited.
import Xv6.Lib.Ring

open cells List

namespace xv6.console

def INPUT_BUF_SIZE : Nat := 128
def BACKSPACE : Nat := 0x100

def C (x : Char) : UInt8 := UInt8.ofNat (x.toNat - '@'.toNat)

def newline : UInt8 := 10
def carriageReturn : UInt8 := 13
def delete : UInt8 := 0x7f

/-! ## The console -/

structure Cons where
  buf : Nat → UInt8
  /-- read index -/
  r : BitVec 32
  /-- write index -/
  w : BitVec 32
  /-- edit index -/
  e : BitVec 32
  /-- the characters sent to the uart -/
  uart : List UInt8

def consputc (s : Cons) (c : Nat) : Cons :=
  if c = BACKSPACE then { s with uart := s.uart ++ [8, 32, 8] }
  else { s with uart := s.uart ++ [UInt8.ofNat c] }

def erase (s : Cons) : Cons := consputc { s with e := s.e - 1 } BACKSPACE

/-- The loop of control-U, which ends at the write index at the latest. -/
def killLine : Nat → Cons → Cons
  | 0, s => s
  | fuel + 1, s =>
    if s.e ≠ s.w ∧ s.buf ((s.e - 1).toNat % INPUT_BUF_SIZE) ≠ newline then killLine fuel (erase s)
    else s

/-- The console input interrupt; the flag says whether it calls `wakeup(&cons.r)`. -/
def consoleintr (s : Cons) (c : UInt8) : Cons × Bool :=
  if c = C 'P' then (s, false) -- prints the process list
  else if c = C 'U' then (killLine (s.e - s.w).toNat s, false)
  else if c = C 'H' ∨ c = delete then (if s.e ≠ s.w then erase s else s, false)
  else if c ≠ 0 ∧ (s.e - s.r).toNat < INPUT_BUF_SIZE then
    let c := if c = carriageReturn then newline else c
    let s := consputc s c.toNat
    let s := { s with buf := put s.buf (s.e.toNat % INPUT_BUF_SIZE) c, e := s.e + 1 }
    if c = newline ∨ c = C 'D' ∨ (s.e - s.r).toNat = INPUT_BUF_SIZE then ({ s with w := s.e }, true)
    else (s, false)
  else (s, false)

/-- A call of `consoleread` in progress. -/
structure Call where
  target : Nat
  n : Nat
  /-- the bytes copied so far -/
  out : List UInt8
  /-- whether the byte at `dst + k` can be written -/
  copyout : Nat → Bool

/-- How a section of `consoleread` ends. -/
inductive Outcome where
  | ret (res : Int) (out : List UInt8)
  | sleep (call : Call)

/-- The loop of `consoleread`, up to its return or to where there is no more input. -/
def readLoop (target : Nat) (copyout : Nat → Bool) : Nat → List UInt8 → Cons → Cons × Outcome
  | 0, out, s => (s, .ret target out)
  | n + 1, out, s =>
    if s.r = s.w then (s, .sleep { target := target, n := n + 1, out := out, copyout := copyout })
    else
      let c := s.buf (s.r.toNat % INPUT_BUF_SIZE)
      let s := { s with r := s.r + 1 }
      if c = C 'D' then
        if n + 1 < target then ({ s with r := s.r - 1 }, .ret ((target : Int) - (n + 1)) out)
        else (s, .ret ((target : Int) - (n + 1)) out)
      else if copyout out.length = false then (s, .ret ((target : Int) - (n + 1)) out)
      else if c = newline then (s, .ret ((target : Int) - n) (out ++ [c]))
      else readLoop target copyout n (out ++ [c]) s

def consoleread (s : Cons) (call : Call) : Cons × Outcome :=
  readLoop call.target call.copyout call.n call.out s

/-! ## Processes at the console -/

/-- Something that can be read and is fed by interrupts. -/
structure Device (κ : Type) where
  start : κ
  intr : κ → UInt8 → κ × Bool
  read : κ → Call → κ × Outcome

structure State (κ : Type) where
  dev : κ
  /-- the calls in progress, each with whether it still sleeps -/
  reader : Nat → Option (Call × Bool)
  /-- the process, the result and the bytes of every call that returned -/
  results : List (Nat × Int × List UInt8)

inductive Act where
  | consoleintr (c : UInt8)
  /-- process `p` calls `consoleread`; `killed` is what `killed(myproc())` gives if it asks -/
  | consoleread (p n : Nat) (copyout : Nat → Bool) (killed : Bool)
  /-- process `p` goes on after a `wakeup` -/
  | resume (p : Nat) (killed : Bool)
  | kill (p : Nat)

variable {κ : Type}

def State.section (D : Device κ) (s : State κ) (p : Nat) (call : Call) (killed : Bool) : State κ :=
  match D.read s.dev call with
  | (dev, .ret res out) =>
    { dev := dev, reader := put s.reader p none, results := s.results ++ [(p, res, out)] }
  | (dev, .sleep call) =>
    if killed then
      { dev := dev, reader := put s.reader p none, results := s.results ++ [(p, -1, call.out)] }
    else { s with dev := dev, reader := put s.reader p (some (call, true)) }

def State.step (D : Device κ) (s : State κ) : Act → State κ
  | .consoleintr c =>
    match D.intr s.dev c with
    | (dev, true) =>
      { s with dev := dev, reader := fun p => (s.reader p).map fun x => (x.1, false) }
    | (dev, false) => { s with dev := dev }
  | .consoleread p n copyout killed =>
    match s.reader p with
    | none => s.section D p { target := n, n := n, out := [], copyout := copyout } killed
    | some _ => s
  | .resume p killed =>
    match s.reader p with
    | some (call, false) => s.section D p call killed
    | _ => s
  | .kill p => { s with reader := put s.reader p ((s.reader p).map fun x => (x.1, false)) }

/-- The state after the acts of a list. -/
def run (D : Device κ) (acts : List Act) : State κ :=
  acts.foldl (State.step D) { dev := D.start, reader := fun _ => none, results := [] }

def console : Device Cons where
  start := { buf := fun _ => 0, r := 0, w := 0, e := 0, uart := [] }
  intr := consoleintr
  read := consoleread

/-! ## Two queues -/

structure Queues where
  committed : List UInt8
  edit : List UInt8

/-- A character goes to the line that is edited, or edits it; the end of the line and a full
buffer commit the line. -/
def Queues.intr (q : Queues) (c : UInt8) : Queues × Bool :=
  if c = C 'P' then (q, false)
  else if c = C 'U' then ({ q with edit := [] }, false)
  else if c = C 'H' ∨ c = delete then ({ q with edit := q.edit.dropLast }, false)
  else if c ≠ 0 ∧ q.committed.length + q.edit.length < INPUT_BUF_SIZE then
    let c := if c = carriageReturn then newline else c
    let line := q.edit ++ [c]
    if c = newline ∨ c = C 'D' ∨ q.committed.length + line.length = INPUT_BUF_SIZE then
      ({ committed := q.committed ++ line, edit := [] }, true)
    else ({ q with edit := line }, false)
  else (q, false)

def plain (c : UInt8) : Bool := c ≠ newline ∧ c ≠ C 'D'

/-- A read takes plain characters up to the caller's size. A newline is taken and ends the read;
an end of file ends it, and is taken only if the read gives no bytes. -/
def readQueue (call : Call) (q : List UInt8) : List UInt8 × Outcome :=
  let text := (q.take call.n).takeWhile plain
  let out := call.out ++ text
  let rest := q.drop text.length
  if text.length = call.n then (rest, .ret out.length out)
  else match rest with
    | [] => (rest, .sleep { call with n := call.n - text.length, out := out })
    | c :: rest' =>
      if c = newline then (rest', .ret (out.length + 1) (out ++ [c]))
      else if out = [] then (rest', .ret 0 [])
      else (rest, .ret out.length out)

def twoQueues : Device Queues where
  start := { committed := [], edit := [] }
  intr := Queues.intr
  read q call :=
    let (rest, outcome) := readQueue call q.committed
    ({ q with committed := rest }, outcome)

/-! ## Reading from the queue, a character at a time -/

section ReadQueue

variable {call : Call} {n : Nat} {q : List UInt8} {c : UInt8}

lemma readQueue_full (h : call.n = 0) : readQueue call q = (q, .ret call.out.length call.out) := by
  simp [readQueue, h]

lemma readQueue_empty (h : call.n = n + 1) : readQueue call [] = ([], .sleep call) := by
  cases call
  simp_all [readQueue]

lemma readQueue_newline (h : call.n = n + 1) : readQueue call (newline :: q) =
    (q, .ret (call.out.length + 1) (call.out ++ [newline])) := by
  simp [readQueue, h, plain]

lemma readQueue_eof (h : call.n = n + 1) : readQueue call (C 'D' :: q) =
    if call.out = [] then (q, .ret 0 []) else (C 'D' :: q, .ret call.out.length call.out) := by
  have hp : plain (C 'D') = false := by decide
  have hne : C 'D' ≠ newline := by decide
  simp [readQueue, h, hp, hne]

lemma readQueue_plain (h : call.n = n + 1) (hc : plain c = true) : readQueue call (c :: q) =
    readQueue { call with n := n, out := call.out ++ [c] } q := by
  simp only [readQueue, h, take_succ_cons, takeWhile_cons, hc, if_true,
    length_cons, drop_succ_cons, append_assoc, singleton_append,
    Nat.add_right_cancel_iff, Nat.add_sub_add_right]

end ReadQueue

/-! ## The ring shows the two queues -/

variable {s : Cons} {c : UInt8}

def Cons.view (s : Cons) : Queues where
  committed := ring.contents INPUT_BUF_SIZE s.buf s.r s.w
  edit := ring.contents INPUT_BUF_SIZE s.buf s.w s.e

/-- The three indices are in order, at most a buffer apart, and no newline waits to be
committed. -/
structure Ordered (s : Cons) : Prop where
  le : ring.span s.r s.w ≤ ring.span s.r s.e
  bound : ring.span s.r s.e ≤ INPUT_BUF_SIZE
  line : newline ∉ ring.contents INPUT_BUF_SIZE s.buf s.w s.e

lemma INPUT_BUF_SIZE_dvd : INPUT_BUF_SIZE ∣ 2 ^ 32 := by decide

lemma Ordered.split (h : Ordered s) :
    ring.span s.r s.w + ring.span s.w s.e = ring.span s.r s.e := ring.span_split h.le

lemma view_erase (h : s.w ≠ s.e) :
    (erase s).view = { s.view with edit := s.view.edit.dropLast } := by
  simp only [Cons.view, erase, consputc, if_true]
  rw [ring.contents_unpush h, dropLast_concat]

lemma Ordered.erase (h : Ordered s) (hne : s.w ≠ s.e) : Ordered (erase s) := by
  have hsplit := h.split
  have hpos := ring.span_pos.mpr hne
  have hre : s.r ≠ s.e := by
    rw [← ring.span_pos]
    omega
  have hlast := ring.span_init hre
  have hline := h.line
  rw [ring.contents_unpush hne, mem_append] at hline
  constructor
  · simp only [console.erase, consputc, if_true]
    omega
  · have := h.bound
    simp only [console.erase, consputc, if_true]
    omega
  · simp only [console.erase, consputc, if_true]
    exact fun hc => hline (.inl hc)

lemma killLine_spec (h : Ordered s) (fuel : Nat) (hfuel : fuel = ring.span s.w s.e) :
    Ordered (killLine fuel s) ∧ (killLine fuel s).view = { s.view with edit := [] } := by
  induction fuel generalizing s with
  | zero =>
    have heq : s.w = s.e := ring.span_eq_zero.mp hfuel.symm
    refine ⟨h, ?_⟩
    simp [killLine, Cons.view, heq]
  | succ fuel ih =>
    have hne : s.w ≠ s.e := by
      rw [← ring.span_pos]
      omega
    have hlast : s.buf ((s.e - 1).toNat % INPUT_BUF_SIZE) ≠ newline := by
      intro hc
      apply h.line
      rw [ring.contents_unpush hne, hc]
      simp
    have hstep : killLine (fuel + 1) s = killLine fuel (erase s) := by
      rw [killLine, if_pos ⟨Ne.symm hne, hlast⟩]
    have hspan : fuel = ring.span (erase s).w (erase s).e := by
      have := ring.span_init hne
      simp only [erase, consputc, if_true]
      omega
    obtain ⟨h1, h2⟩ := ih (h.erase hne) hspan
    rw [hstep, h2, view_erase hne]
    exact ⟨h1, rfl⟩

lemma Ordered.length (h : Ordered s) :
    s.view.committed.length + s.view.edit.length = (s.e - s.r).toNat := by
  simp only [Cons.view, ring.length_contents]
  exact h.split

/-- A character is put at the edit index. -/
def Cons.store (s : Cons) (c : UInt8) : Cons :=
  { s with buf := put s.buf (s.e.toNat % INPUT_BUF_SIZE) c, e := s.e + 1 }

lemma span_store (hroom : ring.span s.r s.e < INPUT_BUF_SIZE) :
    ring.span s.r (s.e + 1) = ring.span s.r s.e + 1 := by
  apply ring.span_succ
  unfold INPUT_BUF_SIZE at hroom
  omega

lemma view_store (h : Ordered s) (hroom : ring.span s.r s.e < INPUT_BUF_SIZE) :
    (s.store c).view = { s.view with edit := s.view.edit ++ [c] } := by
  have hsplit := h.split
  have hall := ring.contents_push (d := s.buf) (a := c) INPUT_BUF_SIZE_dvd hroom
    (by unfold INPUT_BUF_SIZE at hroom; omega)
  have hedit := ring.contents_push (d := s.buf) (l := s.w) (u := s.e) (a := c)
    INPUT_BUF_SIZE_dvd (by omega) (by unfold INPUT_BUF_SIZE at hroom; omega)
  -- the committed part is what is left of the whole without the line
  have hle : ring.span s.r s.w ≤ ring.span s.r (s.e + 1) := by
    rw [span_store hroom]
    omega
  rw [ring.contents_split hle, hedit, ring.contents_split h.le, append_assoc] at hall
  simp only [Cons.view, Cons.store, hedit, Queues.mk.injEq, and_true]
  exact (append_inj_left hall (by simp))

lemma Ordered.store (h : Ordered s) (hroom : ring.span s.r s.e < INPUT_BUF_SIZE)
    (hc : c ≠ newline) : Ordered (s.store c) := by
  have hview := congrArg Queues.edit (view_store (c := c) h hroom)
  have hs := span_store hroom
  have := h.le
  constructor
  · simp only [Cons.store]
    omega
  · simp only [Cons.store]
    omega
  · rw [show ring.contents INPUT_BUF_SIZE (s.store c).buf (s.store c).w (s.store c).e = _ from hview,
      mem_append, mem_singleton]
    rintro (hl | hl)
    · exact h.line hl
    · exact hc hl.symm

lemma view_commit (h : ring.span s.r s.w ≤ ring.span s.r s.e) :
    ({ s with w := s.e } : Cons).view =
      { committed := s.view.committed ++ s.view.edit, edit := [] } := by
  simp only [Cons.view, ring.contents_self, Queues.mk.injEq, and_true]
  exact ring.contents_split h

lemma ordered_commit (h : ring.span s.r s.e ≤ INPUT_BUF_SIZE) : Ordered { s with w := s.e } := by
  constructor
  · exact le_rfl
  · exact h
  · simp

@[simp] lemma consputc_r (n : Nat) : (consputc s n).r = s.r := by
  unfold consputc
  split <;> rfl

@[simp] lemma consputc_e (n : Nat) : (consputc s n).e = s.e := by
  unfold consputc
  split <;> rfl

lemma view_consputc (n : Nat) : (consputc s n).view = s.view := by
  unfold consputc
  split <;> rfl

lemma Ordered.consputc (h : Ordered s) (n : Nat) : Ordered (consputc s n) := by
  unfold console.consputc
  split
  · exact { h with }
  · exact { h with }

lemma store_spec (h : Ordered s) (hroom : ring.span s.r s.e < INPUT_BUF_SIZE) (c : UInt8) :
    let t := s.store c
    let line := s.view.edit ++ [c]
    let u := if c = newline ∨ c = C 'D' ∨ (t.e - t.r).toNat = INPUT_BUF_SIZE
      then ({ t with w := t.e }, true) else (t, false)
    Ordered u.1 ∧ (u.1.view, u.2) =
      if c = newline ∨ c = C 'D' ∨ s.view.committed.length + line.length = INPUT_BUF_SIZE
      then ({ committed := s.view.committed ++ line, edit := [] }, true)
      else ({ s.view with edit := line }, false) := by
  intro t line u
  have hspan := span_store hroom
  have hlen : (t.e - t.r).toNat = s.view.committed.length + line.length := by
    rw [length_append, ← Nat.add_assoc, h.length]
    exact hspan
  have hview : t.view = { s.view with edit := line } := view_store h hroom
  simp only [u, hlen]
  split
  · have hle : ring.span t.r t.w ≤ ring.span t.r t.e := by
      have := h.le
      simp only [t, Cons.store]
      omega
    have hbound : ring.span t.r t.e ≤ INPUT_BUF_SIZE := by
      simp only [t, Cons.store]
      omega
    refine ⟨ordered_commit hbound, ?_⟩
    rw [view_commit hle, hview]
  · rename_i hno
    exact ⟨h.store hroom fun hc => hno (.inl hc), by rw [hview]⟩

lemma consoleintr_spec (h : Ordered s) (c : UInt8) :
    Ordered (consoleintr s c).1 ∧
      ((consoleintr s c).1.view, (consoleintr s c).2) = s.view.intr c := by
  unfold consoleintr Queues.intr
  rw [h.length]
  split
  · exact ⟨h, rfl⟩
  · split
    · obtain ⟨h1, h2⟩ := killLine_spec h (s.e - s.w).toNat rfl
      exact ⟨h1, by rw [h2]⟩
    · split
      · by_cases hne : s.e ≠ s.w
        · rw [if_pos hne, view_erase (Ne.symm hne)]
          exact ⟨h.erase (Ne.symm hne), rfl⟩
        · rw [if_neg hne]
          refine ⟨h, ?_⟩
          simp only [ne_eq, not_not] at hne
          simp [Cons.view, hne]
      · split
        · rename_i hroom
          have hs := store_spec (h.consputc (if c = carriageReturn then newline else c).toNat)
            (by simpa [ring.span] using hroom.2) (if c = carriageReturn then newline else c)
          simp only [view_consputc] at hs
          exact hs
        · exact ⟨h, rfl⟩

lemma Ordered.take (h : Ordered s) (hne : s.r ≠ s.w) : Ordered { s with r := s.r + 1 } ∧
    s.view.committed = s.buf (s.r.toNat % INPUT_BUF_SIZE) ::
      ({ s with r := s.r + 1 } : Cons).view.committed := by
  have hw := ring.span_tail hne
  have hre : s.r ≠ s.e := by
    have := h.le
    rw [← ring.span_pos] at hne ⊢
    omega
  have he := ring.span_tail hre
  have hle := h.le
  have hb := h.bound
  refine ⟨⟨?_, ?_, h.line⟩, ring.contents_pop hne⟩
  · dsimp only
    omega
  · dsimp only
    omega

lemma readLoop_spec {target : Nat} {copyout : Nat → Bool} (hcopy : ∀ k, copyout k = true)
    (n : Nat) (out : List UInt8) (h : Ordered s) (hn : out.length + n = target) :
    let u := readLoop target copyout n out s
    let v := readQueue { target := target, n := n, out := out, copyout := copyout } s.view.committed
    Ordered u.1 ∧ u.1.view = { s.view with committed := v.1 } ∧ u.2 = v.2 := by
  induction n generalizing out s with
  | zero =>
    rw [readQueue_full rfl]
    refine ⟨h, rfl, ?_⟩
    simp only [readLoop, Outcome.ret.injEq, and_true]
    omega
  | succ n ih =>
    by_cases hempty : s.r = s.w
    · have hnil : s.view.committed = [] := by simp [Cons.view, hempty]
      rw [readLoop, if_pos hempty, hnil, readQueue_empty rfl]
      exact ⟨h, by rw [← hnil], rfl⟩
    · obtain ⟨htake, hcons⟩ := h.take hempty
      rw [readLoop, if_neg hempty, hcons]
      dsimp only
      split
      · rename_i hd
        rw [hd, readQueue_eof rfl]
        -- bytes were returned before exactly when less than the caller's size is left
        have hout : n + 1 < target ↔ out ≠ [] := by
          rw [← length_pos_iff]
          omega
        by_cases hlt : n + 1 < target
        · rw [if_pos hlt, if_neg (hout.mp hlt)]
          have hback : ({ s with r := s.r + 1 - 1 } : Cons) = s := by
            simp
          rw [hback]
          refine ⟨h, ?_, ?_⟩
          · rw [← hd, ← hcons]
          · simp only [Outcome.ret.injEq, and_true]
            omega
        · have hnil : out = [] := by
            by_contra hc
            exact hlt (hout.mpr hc)
          rw [if_neg hlt, if_pos hnil]
          refine ⟨htake, rfl, ?_⟩
          rw [hnil] at hn ⊢
          simp only [Outcome.ret.injEq, and_true]
          omega
      · rename_i hd
        rw [if_neg (by simp [hcopy])]
        split
        · rename_i hnl
          rw [hnl, readQueue_newline rfl]
          refine ⟨htake, rfl, ?_⟩
          simp only [Outcome.ret.injEq, and_true]
          omega
        · rename_i hnl
          rw [readQueue_plain rfl (by simp [plain, hd, hnl])]
          exact ih (out ++ [_]) htake (by simp; omega)

/-! ## Runs -/

/-- The call can copy every byte, and has as many left as the caller asked for and did not get. -/
structure Call.Sound (call : Call) : Prop where
  left : call.out.length + call.n = call.target
  copies : ∀ k, call.copyout k = true

lemma readQueue_sleep {call call' : Call} {q : List UInt8}
    (h : (readQueue call q).2 = .sleep call') (hs : call.Sound) : call'.Sound := by
  have hlen : ((q.take call.n).takeWhile plain).length ≤ call.n :=
    (takeWhile_sublist plain).length_le.trans (length_take_le ..)
  unfold readQueue at h
  dsimp only at h
  split at h
  · simp at h
  · split at h
    · simp only [Outcome.sleep.injEq] at h
      subst h
      refine ⟨?_, hs.copies⟩
      have := hs.left
      simp only [length_append]
      omega
    · split at h
      · simp at h
      · split at h <;> simp at h

/-- The bytes that the act copies can be written. -/
def Act.copies : Act → Prop
  | .consoleread _ _ copyout _ => ∀ k, copyout k = true
  | _ => True

/-- The console shows the queues, and the calls in progress and the results are the same. -/
structure Shows (s : State Cons) (q : State Queues) : Prop where
  ordered : Ordered s.dev
  view : s.dev.view = q.dev
  reader : s.reader = q.reader
  results : s.results = q.results
  calls : ∀ p x, s.reader p = some x → x.1.Sound

lemma Shows.section {s : State Cons} {q : State Queues} (h : Shows s q) {c : Call}
    (hc : c.Sound) (p : Nat) (killed : Bool) :
    Shows (s.section console p c killed) (q.section twoQueues p c killed) := by
  obtain ⟨hord, hview, hout⟩ := readLoop_spec hc.copies c.n c.out h.ordered hc.left
  rw [h.view] at hview hout
  have hgone : ∀ r x, put s.reader p none r = some x → x.1.Sound := by
    intro r x hr
    by_cases hrp : r = p
    · simp [hrp] at hr
    · exact h.calls r x (by simpa [hrp] using hr)
  have hread : console.read s.dev c = readLoop c.target c.copyout c.n c.out s.dev := rfl
  unfold State.section
  rw [hread]
  generalize hu : readLoop c.target c.copyout c.n c.out s.dev = u at *
  obtain ⟨dev, outcome⟩ := u
  have hq : twoQueues.read q.dev c = (dev.view, outcome) := by
    rw [Prod.ext_iff]
    exact ⟨hview.symm, hout.symm⟩
  rw [hq]
  cases outcome with
  | ret res out =>
    exact ⟨hord, rfl, by rw [h.reader], by rw [h.results], hgone⟩
  | sleep c' =>
    dsimp only
    split
    · exact ⟨hord, rfl, by rw [h.reader], by rw [h.results], hgone⟩
    · refine ⟨hord, rfl, by rw [h.reader], h.results, ?_⟩
      intro r x hr
      by_cases hrp : r = p
      · simp only [hrp, put_self, Option.some.injEq] at hr
        rw [← hr]
        exact readQueue_sleep hout.symm hc
      · exact h.calls r x (by simpa [hrp] using hr)

lemma Shows.step {s : State Cons} {q : State Queues} (h : Shows s q) {a : Act} (ha : a.copies) :
    Shows (s.step console a) (q.step twoQueues a) := by
  have hwoken : ∀ f : Nat → Option (Call × Bool),
      (∀ p, f p = s.reader p ∨ f p = (s.reader p).map fun x => (x.1, false)) →
      ∀ p x, f p = some x → x.1.Sound := by
    intro f hf p x hx
    rcases hf p with he | he
    · exact h.calls p x (by rw [← he]; exact hx)
    · rw [he, Option.map_eq_some_iff] at hx
      obtain ⟨y, hy, rfl⟩ := hx
      exact h.calls p y hy
  cases a with
  | consoleintr c =>
    obtain ⟨hord, hview⟩ := consoleintr_spec h.ordered c
    rw [h.view] at hview
    have hq : twoQueues.intr q.dev c = ((consoleintr s.dev c).1.view, (consoleintr s.dev c).2) :=
      hview.symm
    simp only [State.step, hq]
    have hs : console.intr s.dev c = consoleintr s.dev c := rfl
    rw [hs]
    generalize consoleintr s.dev c = u at *
    obtain ⟨dev, wake⟩ := u
    cases wake with
    | true => exact ⟨hord, rfl, by rw [h.reader], h.results, hwoken _ fun p => .inr rfl⟩
    | false => exact ⟨hord, rfl, h.reader, h.results, h.calls⟩
  | consoleread p n copyout killed =>
    simp only [State.step, ← h.reader]
    split
    · refine h.section (c := { target := n, n := n, out := [], copyout := copyout }) ?_ p killed
      exact ⟨by simp, ha⟩
    · exact h
  | resume p killed =>
    simp only [State.step, ← h.reader]
    split
    · rename_i call hcall
      exact h.section (h.calls p _ hcall) p killed
    · exact h
  | kill p =>
    refine ⟨h.ordered, h.view, by simp only [State.step, h.reader], h.results, hwoken _ ?_⟩
    intro r
    by_cases hrp : r = p
    · simp [hrp, State.step]
    · simp [hrp, State.step]

/-- Whatever is typed and read, for however long: the read, write and edit index are in order and
at most a buffer apart, and the console gives every reader what the two queues give. -/
theorem console_behaves_as_two_queues (acts : List Act) (h : ∀ a ∈ acts, a.copies) :
    let s := run console acts
    let q := run twoQueues acts
    (s.dev.w - s.dev.r).toNat ≤ (s.dev.e - s.dev.r).toNat ∧
      (s.dev.e - s.dev.r).toNat ≤ INPUT_BUF_SIZE ∧ s.dev.view = q.dev ∧
      s.reader = q.reader ∧ s.results = q.results := by
  have hrun : ∀ (acts : List Act) (s : State Cons) (q : State Queues), Shows s q →
      (∀ a ∈ acts, a.copies) →
      Shows (acts.foldl (State.step console) s) (acts.foldl (State.step twoQueues) q) := by
    intro acts
    induction acts with
    | nil => exact fun s q hs _ => hs
    | cons a acts ih =>
      intro s q hs hcopies
      exact ih _ _ (hs.step (hcopies a List.mem_cons_self))
        fun b hb => hcopies b (List.mem_cons_of_mem a hb)
  have hstart : Shows { dev := console.start, reader := fun _ => none, results := [] }
      { dev := twoQueues.start, reader := fun _ => none, results := [] } := by
    refine ⟨⟨?_, ?_, ?_⟩, ?_, rfl, rfl, ?_⟩ <;> simp [console, twoQueues, Cons.view]
  have hs := hrun acts _ _ hstart h
  exact ⟨hs.ordered.le, hs.ordered.bound, hs.view, hs.reader, hs.results⟩

/-- Two characters, one erased, and the end of the line, read by process 3. -/
def typed : List Act :=
  [.consoleread 3 10 (fun _ => true) false, .consoleintr 97, .consoleintr 98, .consoleintr 127,
    .consoleintr 13, .resume 3 false]

theorem console_behaves_as_two_queues_typed :
    (run console typed).results = [(3, 2, [97, 10])] ∧
      (run console typed).results = (run twoQueues typed).results := by
  refine ⟨by decide +kernel, (console_behaves_as_two_queues typed ?_).2.2.2.2⟩
  simp [typed, Act.copies]

end xv6.console
