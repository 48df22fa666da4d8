-- The admission law of the log: how many blocks the operations of one
-- transaction may log before `log_write` panics. `begin_op` reserves
-- MAXOPBLOCKS blocks for each operation, so it counts on LOGSIZE data blocks,
-- and the log area that mkfs makes has one less: its header takes a block.
import Xv6.Log

namespace xv6.log

/-! ## Runs of the three calls -/

/-- A call of `log.c`. `commit` is the end of the commit: the header is cleared, and then
`log.committing`. -/
inductive Call where
  | begin_op (p : Nat)
  | log_write (p b : Nat)
  | end_op (p : Nat)
  | commit
  deriving DecidableEq

/-- The log, and the processes inside an operation, each with the distinct blocks that it
has logged. -/
structure Ops where
  log : Log
  active : List (Nat × List Nat)

def boot : Ops := ⟨initlog ROOTDEV 2 LOGSIZE, []⟩

/-- The operations after process `p` logs block `b`. -/
def logged (active : List (Nat × List Nat)) (p b : Nat) : List (Nat × List Nat) :=
  active.map fun x => if x.1 = p then (x.1, x.2.insert b) else x

def call (s : Ops) : Call → Except Stop Ops
  | .begin_op p => do
    let lg ← begin_op s.log
    return ⟨lg, (p, []) :: s.active⟩
  | .log_write p b => do
    let (lg, _) ← log_write s.log b
    return ⟨lg, logged s.active p b⟩
  | .end_op p => do
    let (lg, _) ← end_op s.log
    return ⟨lg, s.active.filter fun x => x.1 ≠ p⟩
  | .commit => return { s with log := { s.log with lh := [], committing := false } }

/-- The calls that processes make: they log blocks inside an operation, and each operation
logs at most `budget` distinct blocks. -/
def Allowed (budget : Nat) (s : Ops) : Call → Prop
  | .begin_op p => p ∉ s.active.map Prod.fst
  | .log_write p b => ∃ x ∈ s.active, x.1 = p ∧ (x.2.insert b).length ≤ budget
  | .end_op p => p ∈ s.active.map Prod.fst
  | .commit => s.log.committing = true

instance (budget : Nat) (s : Ops) (c : Call) : Decidable (Allowed budget s c) := by
  cases c <;> unfold Allowed <;> infer_instance

/-- The calls so far, oldest first, and the state after them. A `begin_op` that sleeps
stands in the run where it returns. -/
inductive Run (budget : Nat) : List Call → Ops → Prop
  | boot : Run budget [] boot
  | next {cs : List Call} {s s' : Ops} {c : Call} :
      Run budget cs s → Allowed budget s c → call s c = .ok s' → Run budget (cs ++ [c]) s'

/-- The distinct blocks logged since the last commit, in order. -/
def txnBlocks (cs : List Call) : List Nat :=
  cs.foldl (fun bs c =>
    match c with
    | .log_write _ b => if b ∈ bs then bs else bs ++ [b]
    | .commit => []
    | _ => bs) []

lemma txnBlocks_snoc (cs : List Call) (c : Call) :
    txnBlocks (cs ++ [c]) =
      match c with
      | .log_write _ b => if b ∈ txnBlocks cs then txnBlocks cs else txnBlocks cs ++ [b]
      | .commit => []
      | _ => txnBlocks cs := by
  unfold txnBlocks
  rw [List.foldl_append]
  rfl

/-! ## One call -/

variable {c : Call} {cs : List Call} {s s' : Ops}

lemma call_ok (h : call s c = .ok s') :
    match c with
    | .begin_op p => s.log.committing = false ∧
        s.log.lh.length + (s.log.outstanding + 1) * MAXOPBLOCKS ≤ LOGSIZE ∧
        s' = ⟨{ s.log with outstanding := s.log.outstanding + 1 }, (p, []) :: s.active⟩
    | .log_write p b => s.log.lh.length < s.log.size - 1 ∧
        s' = ⟨{ s.log with lh := if b ∈ s.log.lh then s.log.lh else s.log.lh ++ [b] },
          logged s.active p b⟩
    | .end_op p => s.log.committing = false ∧
        s' = ⟨{ s.log with outstanding := s.log.outstanding - 1,
                           committing := decide (s.log.outstanding - 1 = 0) },
          s.active.filter fun x => x.1 ≠ p⟩
    | .commit => s' = { s with log := { s.log with lh := [], committing := false } } := by
  cases c with
  | begin_op p =>
    simp only [call] at h
    rcases hb : begin_op s.log with e | lg
    · rw [hb] at h; cases h
    · rw [hb] at h
      cases h
      obtain ⟨h1, h2, rfl⟩ := begin_op_ok hb
      exact ⟨h1, h2, rfl⟩
  | log_write p b =>
    simp only [call] at h
    rcases hb : log_write s.log b with e | ⟨lg, new⟩
    · rw [hb] at h; cases h
    · rw [hb] at h
      cases h
      obtain ⟨_, h2, _, ⟨hm, rfl, _⟩ | ⟨hm, rfl, _⟩⟩ := log_write_ok hb
      · exact ⟨h2, by simp [hm]⟩
      · exact ⟨h2, by simp [hm]⟩
  | end_op p =>
    simp only [call] at h
    rcases hb : end_op s.log with e | ⟨lg, c⟩
    · rw [hb] at h; cases h
    · rw [hb] at h
      cases h
      obtain ⟨h1, ⟨h2, _, rfl⟩ | ⟨h2, _, rfl⟩⟩ := end_op_ok hb
      · exact ⟨h1, by simp [h2]⟩
      · exact ⟨h1, by simp [h2, h1]⟩
  | commit =>
    cases h
    rfl

/-! ## The header and the blocks of the transaction -/

/-- The header names the blocks of the transaction, and they fit behind it. -/
structure Named (cs : List Call) (s : Ops) : Prop where
  size : s.log.size = LOGSIZE
  lh : s.log.lh = txnBlocks cs
  fits : s.log.lh.length ≤ s.log.size - 1

lemma named_next (h : Named cs s)
    (hc : call s c = .ok s') : Named (cs ++ [c]) s' := by
  obtain ⟨h1, h2, h3⟩ := h
  have hok := call_ok hc
  cases c with
  | begin_op p =>
    obtain ⟨_, _, rfl⟩ := hok
    exact ⟨h1, by rw [txnBlocks_snoc]; exact h2, h3⟩
  | log_write p b =>
    obtain ⟨hlt, rfl⟩ := hok
    refine ⟨h1, by simp only [txnBlocks_snoc, h2], ?_⟩
    split
    · exact h3
    · simp only [List.length_append, List.length_singleton]
      omega
  | end_op p =>
    obtain ⟨_, rfl⟩ := hok
    exact ⟨h1, by rw [txnBlocks_snoc]; exact h2, h3⟩
  | commit =>
    rw [show s' = _ from hok]
    exact ⟨h1, by rw [txnBlocks_snoc], by simp⟩

lemma named_run {budget : Nat} (h : Run budget cs s) : Named cs s := by
  induction h with
  | boot => exact ⟨rfl, rfl, by simp [boot, initlog]⟩
  | next _ _ hc ih => exact named_next ih hc

/-! ## The laws -/

lemma bind_pure_eq_error {ε α β : Type} {x : Except ε α} {f : α → β} {e : ε} :
    (x >>= fun a => pure (f a)) = .error e ↔ x = .error e := by
  cases x <;> simp [bind, Except.bind, pure, Except.pure]

lemma log_write_too_big_iff {lg : Log} {b : Nat} (hsize : lg.size = LOGSIZE) :
    log_write lg b = .error (.panic "too big a transaction") ↔ LOGSIZE - 1 ≤ lg.lh.length := by
  unfold log_write
  rw [hsize]
  split
  · simp only [true_iff]
    omega
  · rename_i h
    have : ¬ LOGSIZE - 1 ≤ lg.lh.length := fun hle => h (.inr hle)
    simp only [this, iff_false]
    split
    · simp
    · split <;> simp

lemma begin_op_ne_panic (lg : Log) (t : String) : begin_op lg ≠ .error (.panic t) := by
  unfold begin_op
  split
  · simp
  · split <;> simp

lemma end_op_ne_too_big (lg : Log) : end_op lg ≠ .error (.panic "too big a transaction") := by
  unfold end_op
  dsimp only
  split
  · simp
  · split <;> simp

lemma call_too_big_iff (hsize : s.log.size = LOGSIZE) :
    call s c = .error (.panic "too big a transaction") ↔
      ∃ p b, c = .log_write p b ∧ LOGSIZE - 1 ≤ s.log.lh.length := by
  cases c with
  | begin_op p =>
    simp only [call, bind_pure_eq_error]
    simp [begin_op_ne_panic]
  | log_write p b =>
    simp only [call]
    rw [bind_pure_eq_error (f := fun r : Log × Bool => (⟨r.1, logged s.active p b⟩ : Ops)),
      log_write_too_big_iff hsize]
    simp
  | end_op p =>
    simp only [call]
    rw [bind_pure_eq_error (f := fun r : Log × Bool => (⟨r.1, s.active.filter fun x => x.1 ≠ p⟩ : Ops))]
    simp [end_op_ne_too_big]
  | commit => simp [call, pure, Except.pure]

/-- The header never names more blocks than the log area holds behind it. And in any run in
which each operation logs at most MAXOPBLOCKS distinct blocks, the next call panics for the
size of the transaction exactly when it is a `log_write` made after LOGSIZE - 1 distinct
blocks were logged since the last commit. -/
theorem log_write_fits_iff_less_than_the_log_area (cs : List Call) (s : Ops) (c : Call)
    (hrun : Run MAXOPBLOCKS cs s) :
    s.log.lh.length ≤ s.log.size - 1 ∧
      (call s c ≠ .error (.panic "too big a transaction") ↔
        ∀ p b, c = .log_write p b → (txnBlocks cs).length < LOGSIZE - 1) := by
  obtain ⟨hsize, hlh, hfits⟩ := named_run hrun
  refine ⟨hfits, ?_⟩
  rw [Ne, call_too_big_iff hsize, ← hlh]
  constructor
  · intro h p b hc
    by_contra hlt
    exact h ⟨p, b, hc, by omega⟩
  · rintro h ⟨p, b, hc, hle⟩
    have := h p b hc
    omega

/-- The state after the calls, when each of them is allowed and returns. -/
def exec (budget : Nat) (s : Ops) : List Call → Option Ops
  | [] => some s
  | c :: cs =>
    if Allowed budget s c then
      match call s c with
      | .ok s' => exec budget s' cs
      | .error _ => none
    else
      none

lemma run_of_exec {budget : Nat} {cs ds : List Call} (hrun : Run budget cs s)
    (h : exec budget s ds = some s') : Run budget (cs ++ ds) s' := by
  induction ds generalizing cs s with
  | nil =>
    cases h
    simpa using hrun
  | cons d ds ih =>
    simp only [exec] at h
    split at h
    · rename_i ha
      rcases hd : call s d with e | s1
      · rw [hd] at h; cases h
      · rw [hd] at h
        have := ih (.next hrun ha hd) h
        simpa using this
    · cases h

theorem a_second_block_fits :
    ∃ s, Run MAXOPBLOCKS [.begin_op 0, .log_write 0 100] s ∧
      call s (.log_write 0 101) ≠ .error (.panic "too big a transaction") := by
  have hs : (exec MAXOPBLOCKS boot [.begin_op 0, .log_write 0 100]).isSome = true := by decide
  obtain ⟨s, hs⟩ := Option.isSome_iff_exists.mp hs
  have hrun : Run MAXOPBLOCKS [.begin_op 0, .log_write 0 100] s := run_of_exec .boot hs
  have ha : Allowed MAXOPBLOCKS s (.log_write 0 101) := by
    cases hs
    decide
  refine ⟨s, hrun, (log_write_fits_iff_less_than_the_log_area _ s _ hrun).2.mpr ?_⟩
  intro _ _ _
  decide

/-- Three operations, of which two have logged ten blocks and the third has logged nine. -/
def fullLog : List Call :=
  [.begin_op 0, .begin_op 1, .begin_op 2] ++
    (List.range 29).map fun i => .log_write (i / 10) (100 + i)

/-- The tenth block of the third operation does not fit. -/
theorem ten_blocks_each_do_not_fit :
    ∃ s, Run MAXOPBLOCKS fullLog s ∧ Allowed MAXOPBLOCKS s (.log_write 2 129) ∧
      call s (.log_write 2 129) = .error (.panic "too big a transaction") := by
  have hs : (exec MAXOPBLOCKS boot fullLog).isSome = true := by decide +kernel
  obtain ⟨s, hs⟩ := Option.isSome_iff_exists.mp hs
  have hrun : Run MAXOPBLOCKS ([] ++ fullLog) s := run_of_exec .boot hs
  rw [List.nil_append] at hrun
  have hlen : s.log.lh.length = 29 := by
    rw [(named_run hrun).lh]
    decide +kernel
  refine ⟨s, hrun, ?_, (call_too_big_iff (named_run hrun).size).mpr ⟨2, 129, rfl, ?_⟩⟩
  · cases hs
    decide +kernel
  · rw [hlen]
    decide

end xv6.log
