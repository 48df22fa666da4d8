-- The inode layer of `fs.c`. The disk is what the operations see through the
-- buffer cache: the free bitmap, the inodes and the contents of the blocks. A
-- call runs alone, so the locks are free when it takes them and are left out.
import Xv6.Lib.Bytes
import Xv6.Param

open bytes Function

namespace xv6.fs

def NDIRECT : Nat := 12
def NINDIRECT : Nat := 256
def MAXFILE : Nat := NDIRECT + NINDIRECT
def DIRSIZ : Nat := 14
def ROOTINO : Nat := 1

def DIRENT : Nat := 16

/-! ## The state -/

/-- The type of an inode; 0 on the disk is a free one. -/
inductive FileType where
  | free
  | dir
  | file
  | device
  deriving DecidableEq

def short (x : Int) : Int := (x + 32768) % 65536 - 32768

/-- A `struct dinode`. -/
structure Dinode where
  type : FileType
  major : Int
  minor : Int
  nlink : Int
  size : Nat
  addrs : Nat → Nat

/-- A `struct inode`: an entry of the inode table. -/
structure Inode extends Dinode where
  inum : Nat
  ref : Nat
  valid : Bool

/-- The part of the super block that the inode layer reads, and the number of data blocks. -/
structure Superblock where
  size : Nat
  nblocks : Nat
  ninodes : Nat

def Superblock.nmeta (sb : Superblock) : Nat := sb.size - sb.nblocks

inductive FdType where
  | none
  | pipe
  | inode
  | device
  deriving DecidableEq

/-- A `struct file`. `pipe` is the page of a pipe, and `ip` an index in the inode table. -/
structure File where
  type : FdType
  ref : Nat
  readable : Bool
  writable : Bool
  pipe : Nat
  ip : Nat
  off : Nat
  major : Int

/-- What a process holds of the file system. A process that does not run has no `cwd`. -/
structure Proc where
  cwd : Option Nat
  ofile : Nat → Option Nat

structure Fs where
  bitmap : Nat → Bool
  dinode : Nat → Dinode
  data : Nat → Bytes
  itable : Nat → Inode
  ftable : Nat → File
  proc : Nat → Proc

abbrev M := StateT Fs (Except Stop)

/-- Changes entry `ip` of the inode table. -/
def modifyInode (ip : Nat) (f : Inode → Inode) : M Unit :=
  modify fun s => { s with itable := update s.itable ip (f (s.itable ip)) }

/-! ## Blocks -/

/-- The first free block, marked in use and zeroed; 0 when there is none. -/
def balloc (sb : Superblock) : M Nat := do
  let s ← get
  match (List.range sb.size).find? fun b => !s.bitmap b with
  | some b => do
    set { s with bitmap := update s.bitmap b true,
                 data := update s.data b fun _ => 0 }
    return b
  | none => return 0

def bfree (b : Nat) : M Unit := do
  let s ← get
  if s.bitmap b = false then
    throw (.panic "freeing free block")
  else
    set { s with bitmap := update s.bitmap b false }

/-! ## Inodes -/

def iupdate (ip : Nat) : M Unit :=
  modify fun s =>
    { s with dinode := update s.dinode (s.itable ip).inum (s.itable ip).toDinode }

/-- The entry of the table that holds inode `inum`, with one more reference. -/
def iget (inum : Nat) : M Nat := do
  let s ← get
  match (List.range NINODE).find? fun k => 0 < (s.itable k).ref ∧ (s.itable k).inum = inum with
  | some k => do
    modifyInode k fun ip => { ip with ref := ip.ref + 1 }
    return k
  | none =>
    match (List.range NINODE).find? fun k => (s.itable k).ref = 0 with
    | some k => do
      modifyInode k fun ip => { ip with inum, ref := 1, valid := false }
      return k
    | none => throw (.panic "iget: no inodes")

/-- The first free inode, given the type on the disk. -/
def ialloc (sb : Superblock) (type : FileType) : M (Option Nat) := do
  let s ← get
  match (List.range' 1 (sb.ninodes - 1)).find? fun i => (s.dinode i).type = .free with
  | some inum => do
    set { s with dinode := update s.dinode inum
                  { type, major := 0, minor := 0, nlink := 0, size := 0, addrs := fun _ => 0 } }
    let k ← iget inum
    return some k
  | none => return none

def idup (ip : Nat) : M Nat := do
  modifyInode ip fun i => { i with ref := i.ref + 1 }
  return ip

def ilock (ip : Nat) : M Unit := do
  let s ← get
  if (s.itable ip).ref < 1 then
    throw (.panic "ilock")
  else if (s.itable ip).valid = false then do
    let d := s.dinode (s.itable ip).inum
    modifyInode ip fun i => { i with toDinode := d, valid := true }
    if d.type = .free then throw (.panic "ilock: no type") else return ()
  else
    return ()

def iunlock (ip : Nat) : M Unit := do
  let s ← get
  if (s.itable ip).ref < 1 then throw (.panic "iunlock") else return ()

/-- Frees the blocks of a list that are not 0. -/
def bfreeAll : List Nat → M Unit
  | [] => return ()
  | b :: bs =>
    if b ≠ 0 then do
      bfree b
      bfreeAll bs
    else
      bfreeAll bs

/-- The loop over the direct blocks. -/
def itruncDirect (ip : Nat) : List Nat → M Unit
  | [] => return ()
  | i :: is => do
    let s ← get
    if (s.itable ip).addrs i ≠ 0 then do
      bfree ((s.itable ip).addrs i)
      modifyInode ip fun x => { x with addrs := update x.addrs i 0 }
      itruncDirect ip is
    else
      itruncDirect ip is

def indirectEntry (b : Bytes) (j : Nat) : Nat := getLE 4 b (4 * j)

def itruncIndirect (ip : Nat) : M Unit := do
  let s ← get
  let a := (s.itable ip).addrs NDIRECT
  if a ≠ 0 then do
    bfreeAll ((List.range NINDIRECT).map (indirectEntry (s.data a)))
    bfree a
    modifyInode ip fun x => { x with addrs := update x.addrs NDIRECT 0 }
  else
    return ()

def itrunc (ip : Nat) : M Unit := do
  itruncDirect ip (List.range NDIRECT)
  itruncIndirect ip
  modifyInode ip fun x => { x with size := 0 }
  iupdate ip

/-- The reference goes. The last one of an inode without links frees the inode. -/
def iput (ip : Nat) : M Unit := do
  let s ← get
  if (s.itable ip).ref = 1 ∧ (s.itable ip).valid = true ∧ (s.itable ip).nlink = 0 then do
    itrunc ip
    modifyInode ip fun x => { x with type := .free }
    iupdate ip
    modifyInode ip fun x => { x with valid := false }
    modifyInode ip fun x => { x with ref := x.ref - 1 }
  else
    modifyInode ip fun x => { x with ref := x.ref - 1 }

def iunlockput (ip : Nat) : M Unit := do
  iunlock ip
  iput ip

/-! ## The contents of inodes -/

/-- `bmap` for a block that the inode itself lists. -/
def bmapDirect (sb : Superblock) (ip bn : Nat) : M Nat := do
  let s ← get
  let addr := (s.itable ip).addrs bn
  if addr = 0 then do
    let addr ← balloc sb
    if addr = 0 then
      return 0
    else do
      modifyInode ip fun x => { x with addrs := update x.addrs bn addr }
      return addr
  else
    return addr

/-- The block number of block `bn` of the inode, allocated when there is none; 0 when the
disk is full. -/
def bmap (sb : Superblock) (ip bn : Nat) : M Nat :=
  if bn < NDIRECT then
    bmapDirect sb ip bn
  else if bn - NDIRECT < NINDIRECT then do
    let ind ← bmapDirect sb ip NDIRECT
    if ind = 0 then
      return 0
    else do
      let s ← get
      let addr := indirectEntry (s.data ind) (bn - NDIRECT)
      if addr = 0 then do
        let addr ← balloc sb
        if addr = 0 then
          return 0
        else do
          modify fun s => { s with data := update s.data ind
                                    (putLE 4 (s.data ind) (4 * (bn - NDIRECT)) addr) }
          return addr
      else
        return addr
  else
    throw (.panic "bmap: out of range")

/-- How many bytes from place `a` of the source on can be read, out of `m`. -/
def readable (src : Nat → Option UInt8) (a m : Nat) : Nat :=
  ((List.range m).takeWhile fun i => (src (a + i)).isSome).length

/-- Copies `m` bytes from place `a` of the source, which is not mapped where it is `none`.
The bytes before the first that cannot be read are copied also when the copy fails. -/
def either_copyin (b : Bytes) (dst : Nat) (src : Nat → Option UInt8) (a m : Nat) : Bytes × Bool :=
  (copy b dst (fun i => (src i).getD 0) a (readable src a m), readable src a m = m)

/-- The loop of `readi`, with the bytes read so far. -/
def readiLoop (sb : Superblock) (ip : Nat) (dst : Nat → Bool) (n : Nat) :
    Nat → Nat → Nat → List UInt8 → M (Int × List UInt8)
  | 0, tot, _, bs => return (tot, bs)
  | fuel + 1, tot, off, bs =>
    if tot < n then do
      let addr ← bmap sb ip (off / BSIZE)
      if addr = 0 then
        return (tot, bs)
      else do
        let s ← get
        let m := min (n - tot) (BSIZE - off % BSIZE)
        if ∀ i < m, dst (tot + i) = true then
          readiLoop sb ip dst n fuel (tot + m) (off + m)
            (bs ++ (List.range m).map fun i => s.data addr (off % BSIZE + i))
        else
          return (-1, bs)
    else
      return (tot, bs)

/-- Reads up to `n` bytes at offset `off`; `dst` says where the destination is mapped. Each
round reads at least one byte, so `n` rounds are enough. -/
def readi (sb : Superblock) (ip : Nat) (dst : Nat → Bool) (off n : Nat) :
    M (Int × List UInt8) := do
  let s ← get
  let size := (s.itable ip).size
  if off > size ∨ (off + n) % 2 ^ 32 < off then
    return (0, [])
  else if off + n > size then
    readiLoop sb ip dst (size - off) (size - off) 0 off []
  else
    readiLoop sb ip dst n n 0 off []

/-- The loop of `writei`. -/
def writeiLoop (sb : Superblock) (ip : Nat) (src : Nat → Option UInt8) (n : Nat) :
    Nat → Nat → Nat → M (Nat × Nat)
  | 0, tot, off => return (tot, off)
  | fuel + 1, tot, off =>
    if tot < n then do
      let addr ← bmap sb ip (off / BSIZE)
      if addr = 0 then
        return (tot, off)
      else do
        let s ← get
        let m := min (n - tot) (BSIZE - off % BSIZE)
        let r := either_copyin (s.data addr) (off % BSIZE) src tot m
        set { s with data := update s.data addr r.1 }
        if r.2 = true then
          writeiLoop sb ip src n fuel (tot + m) (off + m)
        else
          return (tot, off)
    else
      return (tot, off)

/-- Writes `n` bytes of the source at offset `off`. -/
def writei (sb : Superblock) (ip : Nat) (src : Nat → Option UInt8) (off n : Nat) : M Int := do
  let s ← get
  if off > (s.itable ip).size ∨ (off + n) % 2 ^ 32 < off then
    return -1
  else if off + n > MAXFILE * BSIZE then
    return -1
  else do
    let r ← writeiLoop sb ip src n n 0 off
    modifyInode ip fun x => { x with size := if r.2 > x.size then r.2 else x.size }
    iupdate ip
    return r.1

/-! ## Directories -/

abbrev Name := List UInt8

/-- A `struct dirent`; the name ends at the first zero byte. -/
structure Dirent where
  inum : Nat
  name : Name
  deriving DecidableEq

def Dirent.ofBytes (bs : List UInt8) : Dirent where
  inum := (bs.getD 0 0).toNat + 256 * (bs.getD 1 0).toNat
  name := ((bs.drop 2).take DIRSIZ).takeWhile (· ≠ 0)

/-- The bytes of the entry. The number is a C `ushort`, and `strncpy` fills the name with
zeros. -/
def Dirent.bytes (de : Dirent) (i : Nat) : Option UInt8 :=
  some (if i = 0 then UInt8.ofNat de.inum else if i = 1 then UInt8.ofNat (de.inum / 256)
    else de.name.getD (i - 2) 0)

def namecmp (s t : Name) : Bool := s = t

/-- The offsets of the entries from offset `start` on, in a directory of `size` bytes. -/
def offsets (start size : Nat) : List Nat :=
  (List.range ((size - start + (DIRENT - 1)) / DIRENT)).map fun k => start + DIRENT * k

/-- Reads the entry at offset `off`. -/
def readDirent (sb : Superblock) (dp off : Nat) (text : String) : M Dirent := do
  let r ← readi sb dp (fun _ => true) off DIRENT
  if r.1 = DIRENT then return Dirent.ofBytes r.2 else throw (.panic text)

def dirlookupLoop (sb : Superblock) (dp : Nat) (name : Name) : List Nat → M (Option (Nat × Nat))
  | [] => return none
  | off :: offs => do
    let de ← readDirent sb dp off "dirlookup read"
    if de.inum = 0 then
      dirlookupLoop sb dp name offs
    else if namecmp name de.name = true then do
      let ip ← iget de.inum
      return some (ip, off)
    else
      dirlookupLoop sb dp name offs

/-- The inode that the directory names, and the offset of the entry. -/
def dirlookup (sb : Superblock) (dp : Nat) (name : Name) : M (Option (Nat × Nat)) := do
  let s ← get
  if (s.itable dp).type ≠ .dir then
    throw (.panic "dirlookup not DIR")
  else
    dirlookupLoop sb dp name (offsets 0 (s.itable dp).size)

/-- The offset of the first free entry, or the end of the directory. -/
def dirlinkLoop (sb : Superblock) (dp last : Nat) : List Nat → M Nat
  | [] => return last
  | off :: offs => do
    let de ← readDirent sb dp off "dirlink read"
    if de.inum = 0 then return off else dirlinkLoop sb dp last offs

def dirlink (sb : Superblock) (dp : Nat) (name : Name) (inum : Nat) : M Int := do
  let r ← dirlookup sb dp name
  match r with
  | some (ip, _) => do
    iput ip
    return -1
  | none => do
    let s ← get
    let size := (s.itable dp).size
    let off ← dirlinkLoop sb dp (DIRENT * ((size + (DIRENT - 1)) / DIRENT)) (offsets 0 size)
    let r ← writei sb dp (Dirent.bytes ⟨inum, name⟩) off DIRENT
    if r = DIRENT then return 0 else return -1

/-! ## Paths -/

def slash : UInt8 := 47

/-- The rest of the path and its first element, cut to DIRSIZ bytes; none at the end. -/
def skipelem (path : List UInt8) : Option (List UInt8 × Name) :=
  let path := path.dropWhile (· = slash)
  let elem := path.takeWhile fun c => c ≠ slash ∧ c ≠ 0
  if elem = [] then
    none
  else
    some ((path.drop elem.length).dropWhile (· = slash), elem.take DIRSIZ)

/-- The elements that `skipelem` takes from the path, one after the other. -/
def elementsFrom : Nat → List UInt8 → List Name
  | 0, _ => []
  | fuel + 1, path =>
    match skipelem path with
    | none => []
    | some (rest, name) => name :: elementsFrom fuel rest

def elements (path : List UInt8) : List Name := elementsFrom path.length path

/-- The loop of `namex` from inode `ip` on. The path is at its end when no element is left. -/
def namexLoop (sb : Superblock) (parent : Bool) : Nat → List Name → M (Option (Nat × Name))
  | ip, [] =>
    if parent = true then do
      iput ip
      return none
    else
      return some (ip, [])
  | ip, name :: rest => do
    ilock ip
    let s ← get
    if (s.itable ip).type ≠ .dir then do
      iunlockput ip
      return none
    else if parent = true ∧ rest = [] then do
      iunlock ip
      return some (ip, name)
    else do
      let r ← dirlookup sb ip name
      match r with
      | none => do
        iunlockput ip
        return none
      | some (next, _) => do
        iunlockput ip
        namexLoop sb parent next rest

/-- The inode of a path, or that of its parent and the last element. -/
def namex (sb : Superblock) (p : Nat) (path : List UInt8) (parent : Bool) :
    M (Option (Nat × Name)) :=
  if path.head? = some slash then do
    let ip ← iget ROOTINO
    namexLoop sb parent ip (elements path)
  else do
    let s ← get
    match (s.proc p).cwd with
    | none => throw .sleep
    | some cwd => do
      let ip ← idup cwd
      namexLoop sb parent ip (elements path)

def namei (sb : Superblock) (p : Nat) (path : List UInt8) : M (Option Nat) := do
  let r ← namex sb p path false
  return r.map Prod.fst

def nameiparent (sb : Superblock) (p : Nat) (path : List UInt8) : M (Option (Nat × Name)) :=
  namex sb p path true

end xv6.fs
