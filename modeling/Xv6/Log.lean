-- The log of `log.c`: the in-memory header, the header block on disk, and the
-- three calls that file-system operations make.
import Xv6.Bio
import Xv6.Lib.RedoLog

open bytes List

namespace xv6.log

/-- `struct log`. The header `lh` is the list of its blocks, so `lh.n` is its length. -/
structure Log where
  start : Nat
  size : Nat
  outstanding : Nat
  committing : Bool
  dev : Nat
  lh : List Nat

/-- The fields that `initlog` sets from the super block, before it recovers. -/
def initlog (dev logstart nlog : Nat) : Log where
  start := logstart
  size := nlog
  outstanding := 0
  committing := false
  dev := dev
  lh := []

/-! ## The header block -/

/-- The block numbers that `read_head` takes from the header block. The count is a C `int`,
so a count with the top bit set is negative and gives none. -/
def headOf (b : Bytes) : List Nat :=
  if getLE 4 b 0 < 2 ^ 31 then
    (List.range (getLE 4 b 0)).map fun i => getLE 4 b (4 + 4 * i)
  else
    []

/-- The loop of `write_head` from entry `i` on. -/
def putBlocks (b : Bytes) (i : Nat) : List Nat → Bytes
  | [] => b
  | x :: xs => putBlocks (putLE 4 b (4 + 4 * i) x) (i + 1) xs

def putHead (lh : List Nat) (b : Bytes) : Bytes :=
  putBlocks (putLE 4 b 0 lh.length) 0 lh

lemma getLE_putBlocks_of_lt (xs : List Nat) (b : Bytes) {i a : Nat} (h : a + 4 ≤ 4 + 4 * i) :
    getLE 4 (putBlocks b i xs) a = getLE 4 b a := by
  induction xs generalizing b i with
  | nil => rfl
  | cons x xs ih =>
    simp only [putBlocks]
    rw [ih _ (by omega), getLE_putLE_of_disjoint _ _ (.inl h)]

lemma getLE_putBlocks (xs : List Nat) (b : Bytes) (i k : Nat) (hk : k < xs.length)
    (h : xs[k] < 2 ^ 32) : getLE 4 (putBlocks b i xs) (4 + 4 * (i + k)) = xs[k] := by
  induction xs generalizing b i k with
  | nil => simp at hk
  | cons x xs ih =>
    simp only [putBlocks]
    cases k with
    | zero =>
      rw [getLE_putBlocks_of_lt _ _ (by omega), Nat.add_zero, getLE_putLE_of_lt _ _ (by simpa using h)]
      rfl
    | succ k =>
      have := ih (putLE 4 b (4 + 4 * i) x) (i + 1) k (by simpa using hk) (by simpa using h)
      rw [show i + (k + 1) = i + 1 + k by omega, this]
      rfl

lemma headOf_putHead {lh : List Nat} (b : Bytes) (hlen : lh.length < 2 ^ 31)
    (h : ∀ x ∈ lh, x < 2 ^ 32) : headOf (putHead lh b) = lh := by
  have hn : getLE 4 (putHead lh b) 0 = lh.length := by
    unfold putHead
    rw [getLE_putBlocks_of_lt _ _ (by omega), getLE_putLE_of_lt _ _ (by omega)]
  unfold headOf
  rw [hn, if_pos hlen]
  apply ext_getElem
  · simp
  · intro k h1 h2
    have := getLE_putBlocks lh (putLE 4 b 0 lh.length) 0 k h2 (h _ (getElem_mem h2))
    rw [Nat.zero_add] at this
    simpa [putHead] using this

/-! ## The calls of an operation -/

/-- `begin_op`, up to the point where it returns or sleeps. -/
def begin_op (lg : Log) : Except Stop Log :=
  if lg.committing then
    .error .sleep
  else if lg.lh.length + (lg.outstanding + 1) * MAXOPBLOCKS > LOGSIZE then
    .error .sleep
  else
    .ok { lg with outstanding := lg.outstanding + 1 }

/-- `log_write` of a buffer of block `blockno`: the log, and whether the block is new in it,
so that its buffer is pinned. -/
def log_write (lg : Log) (blockno : Nat) : Except Stop (Log × Bool) :=
  if lg.lh.length ≥ LOGSIZE ∨ lg.lh.length ≥ lg.size - 1 then
    .error (.panic "too big a transaction")
  else if lg.outstanding < 1 then
    .error (.panic "log_write outside of trans")
  else if blockno ∈ lg.lh then
    .ok (lg, false)
  else
    .ok ({ lg with lh := lg.lh ++ [blockno] }, true)

/-- `end_op`, up to the call of `commit`: the log, and whether this process commits. -/
def end_op (lg : Log) : Except Stop (Log × Bool) :=
  let lg := { lg with outstanding := lg.outstanding - 1 }
  if lg.committing then
    .error (.panic "log.committing")
  else if lg.outstanding = 0 then
    .ok ({ lg with committing := true }, true)
  else
    .ok (lg, false)

lemma begin_op_ok {lg lg' : Log} (h : begin_op lg = .ok lg') :
    lg.committing = false ∧ lg.lh.length + (lg.outstanding + 1) * MAXOPBLOCKS ≤ LOGSIZE ∧
      lg' = { lg with outstanding := lg.outstanding + 1 } := by
  unfold begin_op at h
  split at h
  · cases h
  · split at h
    · cases h
    · cases h
      exact ⟨by simpa using ‹¬ lg.committing = true›, by omega, rfl⟩

lemma log_write_ok {lg lg' : Log} {b : Nat} {new : Bool} (h : log_write lg b = .ok (lg', new)) :
    lg.lh.length < LOGSIZE ∧ lg.lh.length < lg.size - 1 ∧ 1 ≤ lg.outstanding ∧
      ((b ∈ lg.lh ∧ lg' = lg ∧ new = false) ∨
        (b ∉ lg.lh ∧ lg' = { lg with lh := lg.lh ++ [b] } ∧ new = true)) := by
  unfold log_write at h
  split at h
  · cases h
  · split at h
    · cases h
    · refine ⟨by omega, by omega, by omega, ?_⟩
      split at h
      · cases h
        exact .inl ⟨‹_›, rfl, rfl⟩
      · cases h
        exact .inr ⟨‹_›, rfl, rfl⟩

lemma end_op_ok {lg lg' : Log} {c : Bool} (h : end_op lg = .ok (lg', c)) :
    lg.committing = false ∧
      ((lg.outstanding - 1 = 0 ∧ c = true ∧
          lg' = { lg with outstanding := 0, committing := true }) ∨
        (lg.outstanding - 1 ≠ 0 ∧ c = false ∧
          lg' = { lg with outstanding := lg.outstanding - 1 })) := by
  unfold end_op at h
  dsimp only at h
  split at h
  · cases h
  · refine ⟨by simpa using ‹¬ lg.committing = true›, ?_⟩
    split at h
    · rename_i h0
      cases h
      exact .inl ⟨h0, rfl, by rw [h0]⟩
    · cases h
      exact .inr ⟨‹_›, rfl, rfl⟩

lemma filter_fst_length {β : Type} {active : List (Nat × β)} {p : Nat}
    (hkeys : (active.map Prod.fst).Nodup) (hp : p ∈ active.map Prod.fst) :
    (active.filter fun x => x.1 ≠ p).length + 1 = active.length := by
  induction active with
  | nil => simp at hp
  | cons x xs ih =>
    simp only [map_cons, nodup_cons] at hkeys
    simp only [map_cons, mem_cons] at hp
    by_cases hxp : x.1 = p
    · have hrest : (xs.filter fun y => y.1 ≠ p) = xs := by
        apply filter_eq_self.mpr
        intro y hy
        simp only [ne_eq, decide_not, Bool.not_eq_true', decide_eq_false_iff_not]
        rintro rfl
        exact hkeys.1 (hxp ▸ mem_map_of_mem hy)
      rw [filter_cons_of_neg (by simpa using hxp), hrest, length_cons]
    · have := ih hkeys.2 (by tauto)
      rw [filter_cons_of_pos (by simpa using hxp), length_cons, length_cons, this]

end xv6.log
