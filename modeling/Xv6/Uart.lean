-- The transmit buffer of `uart.c`, filled by the processes in `consolewrite` and
-- emptied by the interrupts. Every section under `uart_tx_lock` is one act.
import Xv6.Lib.Machine
import Xv6.Lib.Ring
import Xv6.Param

open cells machine ring

namespace xv6.uart

def UART_TX_BUF_SIZE : Nat := 32

structure State where
  uart_tx_buf : Nat → UInt8
  uart_tx_w : BitVec 64
  uart_tx_r : BitVec 64
  /-- the characters written to THR, and whether `uartstart` wrote them -/
  thr : List (Bool × UInt8)
  /-- what `consolewrite` of a process has still to put, and whether the process sleeps -/
  todo : Nat → List UInt8
  asleep : Nat → Bool
  /-- the characters that were put into the buffer, and those of all calls -/
  stored : List (Nat × UInt8)
  asked : List (Nat × UInt8)

def start : State := ⟨fun _ => 0, 0, 0, [], fun _ => [], fun _ => false, [], []⟩

/-- `uartstart`, with what its reads of LSR give. -/
def uartstart : List Bool → State → State
  | [], s => s
  | idle :: lsr, s =>
    if s.uart_tx_w = s.uart_tx_r then s
    else if idle = false then s
    else uartstart lsr { s with
      uart_tx_r := s.uart_tx_r + 1
      asleep := fun _ => false
      thr := s.thr ++ [(true, s.uart_tx_buf (s.uart_tx_r.toNat % UART_TX_BUF_SIZE))] }

/-- A section of `uartputc`, called by process `p`. -/
def uartputc (s : State) (p : Nat) (c : UInt8) (lsr : List Bool) : State :=
  if s.uart_tx_w = s.uart_tx_r + BitVec.ofNat 64 UART_TX_BUF_SIZE then
    { s with asleep := put s.asleep p true }
  else uartstart lsr { s with
    uart_tx_buf := put s.uart_tx_buf (s.uart_tx_w.toNat % UART_TX_BUF_SIZE) c
    uart_tx_w := s.uart_tx_w + 1
    todo := put s.todo p (s.todo p).tail
    stored := s.stored ++ [(p, c)] }

inductive Act where
  /-- process `p` calls `consolewrite`, which copies in these bytes -/
  | consolewrite (p : Nat) (src : List UInt8)
  /-- process `p` puts its next byte, or tries to after it slept -/
  | uartputc (p : Nat) (lsr : List Bool)
  | uartputc_sync (c : UInt8)
  | uartintr (lsr : List Bool)
  | kill (p : Nat)

def exec (s : State) : Act → Except Stop State
  | .consolewrite p src =>
    if s.todo p = [] then
      .ok { s with todo := put s.todo p src, asked := s.asked ++ src.map fun c => (p, c) }
    else .error .sleep
  | .uartputc p lsr =>
    match s.asleep p, s.todo p with
    | false, c :: _ => .ok (uartputc s p c lsr)
    | _, _ => .error .sleep
  | .uartputc_sync c => .ok { s with thr := s.thr ++ [(false, c)] }
  | .uartintr lsr => .ok (uartstart lsr s)
  | .kill p => .ok { s with asleep := put s.asleep p false }

/-! ## The queue -/

/-- The characters with a mark. -/
def pick {α : Type} [DecidableEq α] (a : α) (l : List (α × UInt8)) : List UInt8 :=
  (l.filter fun x => x.1 = a).map Prod.snd

def State.buffered (s : State) : List UInt8 :=
  contents UART_TX_BUF_SIZE s.uart_tx_buf s.uart_tx_r s.uart_tx_w

/-- What a process wrote is on the line, in the buffer or still to be put, in this order. No process
sleeps while there is room. -/
structure Queue (s : State) : Prop where
  room : s.buffered.length ≤ UART_TX_BUF_SIZE
  sent : pick true s.thr ++ s.buffered = s.stored.map Prod.snd
  order : ∀ p, pick p s.stored ++ s.todo p = pick p s.asked
  full : ∀ p, s.asleep p = true → s.buffered.length = UART_TX_BUF_SIZE

variable {s t : State} {p : Nat} {c : UInt8} {rest : List UInt8}

lemma Queue.uartstart (h : Queue s) (lsr : List Bool) : Queue (uartstart lsr s) := by
  induction lsr generalizing s with
  | nil => exact h
  | cons idle lsr ih =>
    unfold uart.uartstart
    split
    · exact h
    · rename_i hne
      split
      · exact h
      · have hpop : s.buffered = _ := contents_pop (Ne.symm hne)
        obtain ⟨hroom, hsent, horder, -⟩ := h
        rw [hpop] at hroom hsent
        apply ih
        refine ⟨?_, ?_, horder, by simp⟩
        · exact Nat.le_of_succ_le hroom
        · rw [← hsent]
          simp [pick, State.buffered]

lemma Queue.uartputc (h : Queue s) (hp : s.todo p = c :: rest) (lsr : List Bool) :
    Queue (uartputc s p c lsr) := by
  obtain ⟨hroom, hsent, horder, hfull⟩ := h
  unfold uart.uartputc
  split
  · rename_i hw
    have hlen : s.buffered.length = UART_TX_BUF_SIZE := by
      simp only [State.buffered, length_contents, span, hw]
      rw [add_sub_cancel_left]
      rfl
    exact ⟨hroom, hsent, horder, fun _ _ => hlen⟩
  · rename_i hw
    have hlt : span s.uart_tx_r s.uart_tx_w < UART_TX_BUF_SIZE := by
      refine lt_of_le_of_ne (by simpa [State.buffered] using hroom) fun heq => hw ?_
      rw [← heq, add_span]
    have hpush := contents_push (d := s.uart_tx_buf) (a := c) (by decide) hlt
      (lt_of_le_of_lt hlt (by decide))
    apply Queue.uartstart
    refine ⟨?_, ?_, fun q => ?_, fun q hq => ?_⟩
    · simp only [State.buffered, hpush, List.length_append, length_contents]
      exact hlt
    · simp only [State.buffered, hpush, List.map_append, ← hsent, List.append_assoc]
      rfl
    · rw [← horder q]
      by_cases hq : q = p
      · simp [hq, pick, hp]
      · simp [hq, pick, Ne.symm hq]
    · exact absurd (hfull q hq) (by simpa [State.buffered] using hlt.ne)

lemma Queue.exec {a : Act} (h : Queue s) (he : exec s a = .ok t) : Queue t := by
  cases a with
  | consolewrite p src =>
    obtain ⟨hroom, hsent, horder, hfull⟩ := h
    simp only [uart.exec] at he
    split at he <;> cases he
    rename_i hp
    refine ⟨hroom, hsent, fun q => ?_, hfull⟩
    simp only [pick, List.filter_append, List.map_append] at horder ⊢
    rw [← horder q]
    by_cases hqp : q = p
    · simp [hqp, hp, List.filter_map, Function.comp_def]
    · simp [hqp, Ne.symm hqp, List.filter_map, Function.comp_def]
  | uartputc p lsr =>
    simp only [uart.exec] at he
    split at he <;> cases he
    exact h.uartputc ‹_› lsr
  | uartputc_sync c =>
    cases he
    exact ⟨h.room, by simpa [pick, State.buffered] using h.sent, h.order, h.full⟩
  | uartintr lsr =>
    cases he
    exact h.uartstart lsr
  | kill p =>
    cases he
    refine ⟨h.room, h.sent, h.order, fun q hq => h.full q ?_⟩
    by_cases hqp : q = p
    · simp [hqp] at hq
    · simpa [hqp] using hq

/-- In every interleaving the bytes of the processes come out in the order in which they were
accepted, each of them once. -/
theorem console_output_is_a_queue (h : Run exec (fun _ _ => True) start s) : Queue s := by
  have hstart : Queue start := by constructor <;> simp [start, pick, State.buffered]
  exact h.invariant hstart fun _ _ _ hs _ he => hs.exec he

/-- Process 0 writes a byte, which the busy UART leaves in the buffer. -/
theorem byte_waits_in_the_buffer : Queue (uartputc
    { start with todo := put start.todo 0 [7], asked := [(0, 7)] } 0 7 [false]) :=
  console_output_is_a_queue (.act (a := .uartputc 0 [false])
    (.act (a := .consolewrite 0 [7]) .start trivial rfl) trivial rfl)

end xv6.uart
