-- The machine of `log.c`: processes inside operations, the commit of the last
-- `end_op`, power failures, and the recovery after them. Every step makes at
-- most one block write, so a failure may fall between any two of them.
import Xv6.CacheView
import Xv6.Log

open bytes

namespace xv6.log

open bio

/-! ## The loops of the commit and of the recovery -/

/-- One round of `write_log`: block `tail` of the transaction goes from the cache to the log. -/
def write_log_body (disk : Nat → Bytes) (bc : Bcache) (lg : Log) (p tail : Nat) :
    Except Stop ((Nat → Bytes) × Bcache) := do
  let (to_, bc) ← bread disk bc p lg.dev (lg.start + tail + 1)
  let (from_, bc) ← bread disk bc p lg.dev (lg.lh.getD tail 0)
  let bc := bc.set to_ { bc.buf to_ with data := (bc.buf from_).data }
  let disk ← bwrite disk bc p to_
  let bc ← brelse bc p from_
  let bc ← brelse bc p to_
  return (disk, bc)

/-- One round of `install_trans`: log block `tail` goes to its home block. -/
def install_trans_body (recovering : Bool) (disk : Nat → Bytes) (bc : Bcache) (lg : Log)
    (p tail : Nat) : Except Stop ((Nat → Bytes) × Bcache) := do
  let (lbuf, bc) ← bread disk bc p lg.dev (lg.start + tail + 1)
  let (dbuf, bc) ← bread disk bc p lg.dev (lg.lh.getD tail 0)
  let bc := bc.set dbuf { bc.buf dbuf with data := (bc.buf lbuf).data }
  let disk ← bwrite disk bc p dbuf
  let bc := if recovering then bc else bunpin bc dbuf
  let bc ← brelse bc p lbuf
  let bc ← brelse bc p dbuf
  return (disk, bc)

def read_head (disk : Nat → Bytes) (bc : Bcache) (lg : Log) (p : Nat) :
    Except Stop (Bcache × Log) := do
  let (i, bc) ← bread disk bc p lg.dev lg.start
  let lg := { lg with lh := headOf (bc.buf i).data }
  let bc ← brelse bc p i
  return (bc, lg)

def write_head (disk : Nat → Bytes) (bc : Bcache) (lg : Log) (p : Nat) :
    Except Stop ((Nat → Bytes) × Bcache) := do
  let (i, bc) ← bread disk bc p lg.dev lg.start
  let bc := bc.set i { bc.buf i with data := putHead lg.lh (bc.buf i).data }
  let disk ← bwrite disk bc p i
  let bc ← brelse bc p i
  return (disk, bc)

/-! ## The machine -/

/-- Where the log code stands. `boot` and `recover` belong to `recover_from_log`, which the
first process runs alone; the others to the commit of process `p`. -/
inductive Phase where
  | boot
  | recover (tail : Nat)
  | up
  | write_log (p tail : Nat)
  | install (p tail : Nat)
  | committed (p : Nat)
  deriving DecidableEq

/-- A block that an operation passed to `log_write`, with its contents at that time. -/
structure Write where
  op : Nat
  block : Nat
  data : Bytes

/-- The machine. `ops` are the processes inside an operation, each with the number of its
operation, and `dirty` are the buffers modified since their last `log_write`. The last five
fields are the history since the last recovery, which no step reads: the contents of the
disk then, the transactions that came to `commit` since, how many of those commits returned,
the writes of the open transaction, and the number of the next operation. -/
structure Sys where
  disk : Nat → Bytes
  bc : Bcache
  log : Log
  phase : Phase
  ops : List (Nat × Nat)
  dirty : Nat → Bool
  start : Nat → Bytes
  txns : List (List Write)
  returned : Nat
  cur : List Write
  nops : Nat

/-- What a process, the log code or the power does next. -/
inductive Act where
  | begin_op (p : Nat)
  | bread (p b : Nat)
  | modify (p i : Nat) (data : Bytes)
  | log_write (p i : Nat)
  | brelse (p i : Nat)
  | end_op (p : Nat)
  | commit
  | crash
  | recover

/-- The machine at power-on: nothing but the disk and the super block is left. -/
def powerOn (dev logstart nlog : Nat) (disk : Nat → Bytes) : Sys where
  disk := disk
  bc := binit
  log := initlog dev logstart nlog
  phase := .boot
  ops := []
  dirty := fun _ => false
  start := disk
  txns := []
  returned := 0
  cur := []
  nops := 0

def Sys.opOf (s : Sys) (p : Nat) : Option Nat := (s.ops.find? fun x => x.1 == p).map Prod.snd

/-- The kernel serves file-system operations. -/
def Sys.serving (s : Sys) : Bool :=
  match s.phase with
  | .boot => false
  | .recover _ => false
  | _ => true

/-- The next step of the commit in progress. After `write_log` the header is written, and
after `install_trans` the header is erased. -/
def commitStep (s : Sys) : Except Stop Sys :=
  match s.phase with
  | .write_log p tail =>
    if tail < s.log.lh.length then do
      let (disk, bc) ← write_log_body s.disk s.bc s.log p tail
      return { s with disk, bc, phase := .write_log p (tail + 1) }
    else do
      let (disk, bc) ← write_head s.disk s.bc s.log p
      return { s with disk, bc, phase := .install p 0 }
  | .install p tail =>
    if tail < s.log.lh.length then do
      let (disk, bc) ← install_trans_body false s.disk s.bc s.log p tail
      return { s with disk, bc, phase := .install p (tail + 1) }
    else do
      let log := { s.log with lh := [] }
      let (disk, bc) ← write_head s.disk s.bc log p
      return { s with disk, bc, log, phase := .committed p, returned := s.txns.length }
  | .committed _ => return { s with log := { s.log with committing := false }, phase := .up }
  | _ => .error .sleep

/-- The next step of `recover_from_log`, by process 0. -/
def recoverStep (s : Sys) : Except Stop Sys :=
  match s.phase with
  | .boot => do
    let (bc, log) ← read_head s.disk s.bc s.log 0
    return { s with bc, log, phase := .recover 0 }
  | .recover tail =>
    if tail < s.log.lh.length then do
      let (disk, bc) ← install_trans_body true s.disk s.bc s.log 0 tail
      return { s with disk, bc, phase := .recover (tail + 1) }
    else do
      let log := { s.log with lh := [] }
      let (disk, bc) ← write_head s.disk s.bc log 0
      return { s with disk, bc, log, phase := .up, start := disk, txns := [], returned := 0,
                      cur := [], nops := 0 }
  | _ => .error .sleep

/-- One step. A process modifies a buffer that it holds, inside an operation, and passes it
to `log_write` before it releases it and before its operation ends. The blocks of the log
area are for `log.c` alone. -/
def step (s : Sys) : Act → Except Stop Sys
  | .begin_op p =>
    if s.serving ∧ s.opOf p = none then do
      let log ← begin_op s.log
      return { s with log, ops := (p, s.nops) :: s.ops, nops := s.nops + 1 }
    else
      .error .sleep
  | .bread p b =>
    if s.serving ∧ b < 2 ^ 32 ∧ ¬ (s.log.start ≤ b ∧ b < s.log.start + s.log.size) then do
      let (_, bc) ← bread s.disk s.bc p s.log.dev b
      return { s with bc }
    else
      .error .sleep
  | .modify p i data =>
    if i < NBUF ∧ (s.bc.buf i).lock = some p ∧ (s.opOf p).isSome then
      .ok { s with bc := s.bc.set i { s.bc.buf i with data },
                   dirty := Function.update s.dirty i true }
    else
      .error .sleep
  | .log_write p i =>
    if i < NBUF ∧ (s.bc.buf i).lock = some p then
      match s.opOf p with
      | none => .error .sleep
      | some op => do
        let (log, new) ← log_write s.log (s.bc.buf i).blockno
        let bc := if new then bpin s.bc i else s.bc
        return { s with log, bc, dirty := Function.update s.dirty i false,
                        cur := s.cur ++ [⟨op, (s.bc.buf i).blockno, (s.bc.buf i).data⟩] }
    else
      .error .sleep
  | .brelse p i =>
    if i < NBUF ∧ (s.bc.buf i).lock = some p ∧ s.dirty i = false then do
      let bc ← brelse s.bc p i
      return { s with bc }
    else
      .error .sleep
  | .end_op p =>
    if (s.opOf p).isSome ∧ ∀ i < NBUF, (s.bc.buf i).lock = some p → s.dirty i = false then do
      let (log, do_commit) ← end_op s.log
      let ops := s.ops.filter fun x => x.1 ≠ p
      if do_commit then
        -- `commit` has nothing to do for an empty transaction
        return { s with log, ops, txns := s.txns ++ [s.cur], cur := [],
                        phase := if log.lh = [] then .committed p else .write_log p 0,
                        returned := if log.lh = [] then s.txns.length + 1 else s.returned }
      else
        return { s with log, ops }
    else
      .error .sleep
  | .commit => commitStep s
  | .crash =>
    .ok { s with bc := binit, log := initlog s.log.dev s.log.start s.log.size, phase := .boot,
                 ops := [], dirty := fun _ => false, cur := [] }
  | .recover => recoverStep s

/-- The machine runs from `s` to `t`. -/
inductive Runs : Sys → Sys → Prop
  | refl (s : Sys) : Runs s s
  | next {s t u : Sys} {a : Act} : Runs s t → step t a = .ok u → Runs s u

end xv6.log
