-- `mkfs.c`, which makes the image of a disk block by block, and the reader of
-- its format in the kernel. `mkfs` counts up the inodes and the blocks it takes
-- and compares neither with the layout; a read past the end of the image is
-- what stops it.
import Xv6.RootImage

open bytes Function

namespace xv6.mkfs

open fs (Dinode FileType Dirent Name NDIRECT MAXFILE DIRSIZ DIRENT ROOTINO indirectEntry short
  freeDinode slash dot dotdot)

/-! ## The layout of the disk -/

def FSSIZE : Nat := 2000
def NINODES : Nat := 200
def FSMAGIC : Nat := 0x10203040

def DINODE : Nat := 64

def IPB : Nat := BSIZE / DINODE

def nbitmap : Nat := FSSIZE / (BSIZE * 8) + 1
def ninodeblocks : Nat := NINODES / IPB + 1
def nlog : Nat := LOGSIZE
def nmeta : Nat := 2 + nlog + ninodeblocks + nbitmap
def nblocks : Nat := FSSIZE - nmeta

/-- A `struct superblock`. -/
structure DiskSuper where
  magic : Nat
  size : Nat
  nblocks : Nat
  ninodes : Nat
  nlog : Nat
  logstart : Nat
  inodestart : Nat
  bmapstart : Nat

def sb : DiskSuper where
  magic := FSMAGIC
  size := FSSIZE
  nblocks := nblocks
  ninodes := NINODES
  nlog := nlog
  logstart := 2
  inodestart := 2 + nlog
  bmapstart := 2 + nlog + ninodeblocks

/-- The eight words of the super block. -/
def DiskSuper.words (d : DiskSuper) : List Nat :=
  [d.magic, d.size, d.nblocks, d.ninodes, d.nlog, d.logstart, d.inodestart, d.bmapstart]

/-- The bytes after `n` words are written from address `a` on. -/
def putWords (b : Bytes) (a n : Nat) (word : Nat → Nat) : Bytes := fun x =>
  if a ≤ x ∧ x < a + 4 * n then UInt8.ofNat (word ((x - a) / 4) / 256 ^ ((x - a) % 4)) else b x

def DiskSuper.put (d : DiskSuper) (b : Bytes) : Bytes := putWords b 0 8 (d.words.getD · 0)

def DiskSuper.get (b : Bytes) : DiskSuper where
  magic := getLE 4 b 0
  size := getLE 4 b 4
  nblocks := getLE 4 b 8
  ninodes := getLE 4 b 12
  nlog := getLE 4 b 16
  logstart := getLE 4 b 20
  inodestart := getLE 4 b 24
  bmapstart := getLE 4 b 28

def typeNum : FileType → Nat
  | .free => 0
  | .dir => 1
  | .file => 2
  | .device => 3

def typeOf : Nat → FileType
  | 0 => .free
  | 1 => .dir
  | 2 => .file
  | _ => .device

def ushort (x : Int) : Nat := (x % 65536).toNat

/-- The inode stored at address `a` of a block. -/
def putDinode (b : Bytes) (a : Nat) (d : Dinode) : Bytes :=
  putWords
    (putLE 4
      (putLE 2
        (putLE 2 (putLE 2 (putLE 2 b a (typeNum d.type)) (a + 2) (ushort d.major)) (a + 4)
          (ushort d.minor))
        (a + 6) (ushort d.nlink))
      (a + 8) d.size)
    (a + 12) (NDIRECT + 1) d.addrs

def getDinode (b : Bytes) (a : Nat) : Dinode where
  type := typeOf (getLE 2 b a)
  major := short (getLE 2 b (a + 2))
  minor := short (getLE 2 b (a + 4))
  nlink := short (getLE 2 b (a + 6))
  size := getLE 4 b (a + 8)
  addrs := fun i => if i ≤ NDIRECT then getLE 4 b (a + 12 + 4 * i) else 0

/-! ## The kernel's reader -/

def readsb (img : Nat → Bytes) : DiskSuper := DiskSuper.get (img 1)

/-- Inode `inum`, when the inodes start at block `start`. -/
def inodeAt (start : Nat) (img : Nat → Bytes) (inum : Nat) : Dinode :=
  getDinode (img (inum / IPB + start)) (inum % IPB * DINODE)

/-- The bit of block `b`, when the bitmap starts at block `start`. -/
def bitAt (start : Nat) (img : Nat → Bytes) (b : Nat) : Bool :=
  (img (b / (BSIZE * 8) + start) (b % (BSIZE * 8) / 8)).toNat.testBit (b % 8)

/-- The file system that the kernel finds on an image at boot. The log of a new image holds
no block. -/
def fsinit (img : Nat → Bytes) : Except Stop (fs.Superblock × fs.Fs) :=
  let d := readsb img
  if d.magic ≠ FSMAGIC then
    .error (.panic "invalid file system")
  else
    .ok ({ size := d.size, nblocks := d.nblocks, ninodes := d.ninodes },
      fs.blank (bitAt d.bmapstart img)
        (fun i => if i < d.ninodes then inodeAt d.inodestart img i else freeDinode) img)

/-! ## The image file and the counters -/

/-- The blocks of the image file, of which `len` are there, and the two counters. -/
structure Mk where
  img : Nat → Bytes
  len : Nat
  freeinode : Nat
  freeblock : Nat

/-- `mkfs` ends early: `die` with a text or with the name of a file, or a failed `assert`. -/
inductive Exit where
  | die (text : String)
  | noFile (path : Name)
  | assert
  deriving DecidableEq

abbrev M := StateT Mk (Except Exit)

def fresh : Mk := { img := fun _ _ => 0, len := 0, freeinode := 1, freeblock := nmeta }

def wsect (sec : Nat) (buf : Bytes) : M Unit :=
  modify fun σ => { σ with img := update σ.img sec buf, len := max σ.len (sec + 1) }

def rsect (sec : Nat) : M Bytes := do
  let σ ← get
  if sec < σ.len then return σ.img sec else throw (.die "read")

def IBLOCK (inum : Nat) : Nat := inum / IPB + sb.inodestart

def winode (inum : Nat) (ip : Dinode) : M Unit := do
  let buf ← rsect (IBLOCK inum)
  wsect (IBLOCK inum) (putDinode buf (inum % IPB * DINODE) ip)

def rinode (inum : Nat) : M Dinode := do
  let buf ← rsect (IBLOCK inum)
  return getDinode buf (inum % IPB * DINODE)

def ialloc (type : FileType) : M Nat := do
  let σ ← get
  set { σ with freeinode := σ.freeinode + 1 }
  winode σ.freeinode { type, major := 0, minor := 0, nlink := 1, size := 0, addrs := fun _ => 0 }
  return σ.freeinode

/-- The bitmap with the first `used` bits set. -/
def marks : Nat → Bytes
  | 0 => fun _ => 0
  | i + 1 => update (marks i) (i / 8) (marks i (i / 8) ||| (1 <<< UInt8.ofNat (i % 8)))

def balloc (used : Nat) : M Unit :=
  if used < BSIZE * 8 then wsect sb.bmapstart (marks used) else throw .assert

/-- `freeblock++`. -/
def takeBlock : M Nat := do
  let σ ← get
  set { σ with freeblock := σ.freeblock + 1 }
  return σ.freeblock

/-- The inode with a block at place `pos`, which takes one when it has none. -/
def takeAddr (din : Dinode) (pos : Nat) : M Dinode :=
  if din.addrs pos = 0 then do
    let b ← takeBlock
    return { din with addrs := update din.addrs pos b }
  else
    return din

/-- The part of the loop of `iappend` that finds block `fbn` of the file. -/
def iappendBlock (din : Dinode) (fbn : Nat) : M (Nat × Dinode) :=
  if fbn < NDIRECT then do
    let din ← takeAddr din fbn
    return (din.addrs fbn, din)
  else do
    let din ← takeAddr din NDIRECT
    let indirect ← rsect (din.addrs NDIRECT)
    if indirectEntry indirect (fbn - NDIRECT) = 0 then do
      let b ← takeBlock
      wsect (din.addrs NDIRECT) (putLE 4 indirect (4 * (fbn - NDIRECT)) b)
      return (b, din)
    else
      return (indirectEntry indirect (fbn - NDIRECT), din)

/-- The loop of `iappend`, over the bytes that are left. Each round writes at least one, so
there are no more rounds than bytes. -/
def iappendLoop : Nat → Dinode → Nat → List UInt8 → M (Dinode × Nat)
  | 0, din, off, _ => return (din, off)
  | fuel + 1, din, off, p =>
    if 0 < p.length then
      if off / BSIZE < MAXFILE then do
        let (x, din) ← iappendBlock din (off / BSIZE)
        let n1 := min p.length ((off / BSIZE + 1) * BSIZE - off)
        let buf ← rsect x
        wsect x (copy buf (off - off / BSIZE * BSIZE) (p.getD · 0) 0 n1)
        iappendLoop fuel din (off + n1) (p.drop n1)
      else
        throw .assert
    else
      return (din, off)

def iappend (inum : Nat) (p : List UInt8) : M Unit := do
  let din ← rinode inum
  let (din, off) ← iappendLoop p.length din din.size p
  winode inum { din with size := off }

/-! ## The program -/

/-- The loop that writes the first `n` blocks with zeros. -/
def zeroBlocks : Nat → M Unit
  | 0 => return ()
  | n + 1 => do
    zeroBlocks n
    wsect n fun _ => 0

def format : M Unit := do
  zeroBlocks FSSIZE
  wsect 1 (sb.put fun _ => 0)

/-- The bytes of a directory entry, with the name cut at `DIRSIZ`. -/
def entry (inum : Nat) (name : Name) : List UInt8 :=
  (List.range DIRENT).map fun i => ((Dirent.bytes ⟨inum, name.take DIRSIZ⟩) i).getD 0

/-- A file on the command line; one without contents cannot be opened. -/
structure Arg where
  path : Name
  contents : Option (List UInt8)

def userDir : Name := [117, 115, 101, 114, 47]

def shortname (path : Name) : Name :=
  if path.take 5 = userDir then path.drop 5 else path

def plainName (name : Name) : Name := if name.head? = some 95 then name.tail else name

/-- The loop over the blocks of an input file. -/
def appendFile (inum : Nat) : Nat → List UInt8 → M Unit
  | 0, _ => return ()
  | fuel + 1, bs =>
    if 0 < bs.length then do
      iappend inum (bs.take BSIZE)
      appendFile inum fuel (bs.drop BSIZE)
    else
      return ()

/-- One round of the loop over the command line. -/
def addFile (arg : Arg) : M Unit :=
  if slash ∈ shortname arg.path then
    throw .assert
  else
    match arg.contents with
    | none => throw (.noFile arg.path)
    | some bs => do
      let inum ← ialloc .file
      iappend ROOTINO (entry inum (plainName (shortname arg.path)))
      appendFile inum bs.length bs

def addFiles : List Arg → M Unit
  | [] => return ()
  | arg :: args => do
    addFile arg
    addFiles args

/-- The size of the root directory is made a multiple of the block size. -/
def fixRoot : M Unit := do
  let din ← rinode ROOTINO
  winode ROOTINO { din with size := (din.size / BSIZE + 1) * BSIZE }

/-- `main`, for the files after the image on the command line. It returns where the program
exits with 0. -/
def main (args : List Arg) : M Unit := do
  format
  let rootino ← ialloc .dir
  if rootino = ROOTINO then do
    iappend rootino (entry rootino dot)
    iappend rootino (entry rootino dotdot)
    addFiles args
    fixRoot
    let σ ← get
    balloc σ.freeblock
  else
    throw .assert

end xv6.mkfs
