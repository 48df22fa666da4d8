-- The functions of `fs.c` and `file.c` that write, with their calls of the log:
-- `log_write` for each buffer that is to be part of the transaction, and
-- `begin_op` and `end_op` around it. Without these calls they are the functions
-- of the file system.
import Xv6.Lib.Trace
import Xv6.Sysfile

open bytes trace Function

namespace xv6.fslog

open fs

def BPB : Nat := BSIZE * 8

def IPB : Nat := BSIZE / 64

/-- The super block with the places of the inodes and of the bitmap. -/
structure Geometry extends Superblock where
  inodestart : Nat
  bmapstart : Nat

/-- A buffer that is passed to `log_write`: a block of the bitmap, of inodes, or of a file. -/
inductive Buf where
  | bitmap (k : Nat)
  | inode (k : Nat)
  | block (b : Nat)
  deriving DecidableEq

/-- The block that the buffer holds; `BBLOCK` and `IBLOCK` for the first two kinds. -/
def Buf.blockno (sb : Geometry) : Buf → Nat
  | .bitmap k => k + sb.bmapstart
  | .inode k => k + sb.inodestart
  | .block b => b

inductive Event where
  | begin_op
  | log_write (b : Buf)
  | end_op
  deriving DecidableEq

abbrev L := Traced Fs Stop Event

def log_write (b : Buf) : L Unit := note (.log_write b)

/-! ## Blocks -/

def bzero (b : Nat) : L Unit := do
  quiet (modify fun s => { s with data := update s.data b fun _ => 0 })
  log_write (.block b)

def balloc (sb : Superblock) : L Nat := do
  let s ← quiet get
  match (List.range sb.size).find? fun b => !s.bitmap b with
  | some b => do
    quiet (set { s with bitmap := update s.bitmap b true })
    log_write (.bitmap (b / BPB))
    bzero b
    return b
  | none => return 0

def bmapDirect (sb : Superblock) (ip bn : Nat) : L Nat := do
  let s ← quiet get
  let addr := (s.itable ip).addrs bn
  if addr = 0 then do
    let addr ← balloc sb
    if addr = 0 then
      return 0
    else do
      quiet (modifyInode ip fun x => { x with addrs := update x.addrs bn addr })
      return addr
  else
    return addr

def bmap (sb : Superblock) (ip bn : Nat) : L Nat :=
  if bn < NDIRECT then
    bmapDirect sb ip bn
  else if bn - NDIRECT < NINDIRECT then do
    let ind ← bmapDirect sb ip NDIRECT
    if ind = 0 then
      return 0
    else do
      let s ← quiet get
      let addr := indirectEntry (s.data ind) (bn - NDIRECT)
      if addr = 0 then do
        let addr ← balloc sb
        if addr = 0 then
          return 0
        else do
          quiet (modify fun s => { s with data := update s.data ind
                                            (putLE 4 (s.data ind) (4 * (bn - NDIRECT)) addr) })
          log_write (.block ind)
          return addr
      else
        return addr
  else
    throw (.panic "bmap: out of range")

/-! ## Inodes -/

def iupdate (ip : Nat) : L Unit := do
  let s ← quiet get
  quiet (fs.iupdate ip)
  log_write (.inode ((s.itable ip).inum / IPB))

/-- The loop of `writei`. A block that could not be filled is not passed to the log. -/
def writeiLoop (sb : Superblock) (ip : Nat) (src : Nat → Option UInt8) (n : Nat) :
    Nat → Nat → Nat → L (Nat × Nat)
  | 0, tot, off => return (tot, off)
  | fuel + 1, tot, off =>
    if tot < n then do
      let addr ← bmap sb ip (off / BSIZE)
      if addr = 0 then
        return (tot, off)
      else do
        let s ← quiet get
        let m := min (n - tot) (BSIZE - off % BSIZE)
        let r := either_copyin (s.data addr) (off % BSIZE) src tot m
        quiet (set { s with data := update s.data addr r.1 })
        if r.2 = true then do
          log_write (.block addr)
          writeiLoop sb ip src n fuel (tot + m) (off + m)
        else
          return (tot, off)
    else
      return (tot, off)

def writei (sb : Superblock) (ip : Nat) (src : Nat → Option UInt8) (off n : Nat) : L Int := do
  let s ← quiet get
  if off > (s.itable ip).size ∨ (off + n) % 2 ^ 32 < off then
    return -1
  else if off + n > MAXFILE * BSIZE then
    return -1
  else do
    let r ← writeiLoop sb ip src n n 0 off
    quiet (modifyInode ip fun x => { x with size := if r.2 > x.size then r.2 else x.size })
    iupdate ip
    return r.1

/-! ## Files -/

def filewriteRound (sb : Superblock) (f : Nat) (src : Nat → Option UInt8) (i n1 : Nat) : L Int := do
  let s ← quiet get
  let x := s.ftable f
  note .begin_op
  quiet (ilock x.ip)
  let r ← writei sb x.ip (fun j => src (i + j)) x.off n1
  if r > 0 then do
    quiet (modifyFile f fun x => { x with off := x.off + r.toNat })
    quiet (iunlock x.ip)
    note .end_op
    return r
  else do
    quiet (iunlock x.ip)
    note .end_op
    return r

def filewriteLoop (sb : Superblock) (f : Nat) (src : Nat → Option UInt8) (n : Nat) :
    Nat → Nat → L Nat
  | 0, i => return i
  | fuel + 1, i =>
    if i < n then do
      let r ← filewriteRound sb f src i (min (n - i) writeMax)
      if r = (min (n - i) writeMax : Nat) then
        filewriteLoop sb f src n fuel (i + min (n - i) writeMax)
      else
        return i
    else
      return i

/-- `filewrite` of `n` bytes, which writes nothing when `n` is negative. -/
def filewrite (sb : Superblock) (f : Nat) (src : Nat → Option UInt8) (n : Int) : L Int := do
  let s ← quiet get
  let x := s.ftable f
  if x.writable = false then
    return -1
  else match x.type with
    | .none => throw (.panic "filewrite")
    | .pipe => return n
    | .device => if x.major < 0 ∨ x.major ≥ NDEV then return -1 else return n
    | .inode => do
      let i ← filewriteLoop sb f src n.toNat n.toNat 0
      if (i : Int) = n then return n else return -1

/-! ## Without the log -/

section erases

variable (sb : Superblock) (ip f : Nat) (src : Nat → Option UInt8)

lemma balloc_erases : Erases (balloc sb) (fs.balloc sb) := by
  refine (erases_quiet get).bind fun s => ?_
  cases (List.range sb.size).find? fun b => !s.bitmap b with
  | none => exact erases_pure 0
  | some b =>
    intro t l
    rfl

lemma bmapDirect_erases (bn : Nat) : Erases (bmapDirect sb ip bn) (fs.bmapDirect sb ip bn) := by
  refine (erases_quiet get).bind fun s => .ite ?_ (erases_pure _)
  refine (balloc_erases sb).bind fun addr => .ite (erases_pure _) ?_
  exact (erases_quiet _).bind fun _ => erases_pure _

lemma bmap_erases (bn : Nat) : Erases (bmap sb ip bn) (fs.bmap sb ip bn) := by
  refine .ite (bmapDirect_erases sb ip bn) (.ite ?_ (erases_throw _))
  refine (bmapDirect_erases sb ip NDIRECT).bind fun ind => .ite (erases_pure _) ?_
  refine (erases_quiet get).bind fun s => .ite ?_ (erases_pure _)
  refine (balloc_erases sb).bind fun addr => .ite (erases_pure _) ?_
  exact (erases_quiet _).bind fun _ => .note_bind _ (erases_pure _)

lemma writeiLoop_erases (n fuel tot off : Nat) :
    Erases (writeiLoop sb ip src n fuel tot off) (fs.writeiLoop sb ip src n fuel tot off) := by
  induction fuel generalizing tot off with
  | zero => exact erases_pure _
  | succ fuel ih =>
    refine .ite ?_ (erases_pure _)
    refine (bmap_erases sb ip _).bind fun addr => .ite (erases_pure _) ?_
    refine (erases_quiet get).bind fun s => (erases_quiet _).bind fun _ => ?_
    exact .ite (.note_bind _ (ih _ _)) (erases_pure _)

lemma writei_erases (off n : Nat) :
    Erases (writei sb ip src off n) (fs.writei sb ip src off n) := by
  refine (erases_quiet get).bind fun s => .ite (erases_pure _) (.ite (erases_pure _) ?_)
  refine (writeiLoop_erases sb ip src n n 0 off).bind fun r => (erases_quiet _).bind fun _ => ?_
  intro t l
  rfl

end erases

end xv6.fslog
