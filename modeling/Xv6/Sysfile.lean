-- The system calls of `sysfile.c` with the file table of `file.c`, and the
-- runs of a kernel in which processes make them one after the other.
import Xv6.Fs

open bytes Function

namespace xv6.fs

/-! ## The file table -/

def modifyFile (f : Nat) (g : File → File) : M Unit :=
  modify fun s => { s with ftable := update s.ftable f (g (s.ftable f)) }

def modifyProc (p : Nat) (g : Proc → Proc) : M Unit :=
  modify fun s => { s with proc := update s.proc p (g (s.proc p)) }

def filealloc : M (Option Nat) := do
  let s ← get
  match (List.range NFILE).find? fun f => (s.ftable f).ref = 0 with
  | some f => do
    modifyFile f fun x => { x with ref := 1 }
    return some f
  | none => return none

def filedup (f : Nat) : M Unit := do
  let s ← get
  if (s.ftable f).ref < 1 then
    throw (.panic "filedup")
  else
    modifyFile f fun x => { x with ref := x.ref + 1 }

/-- `fileclose`, but for what `pipeclose` does to the pipe. -/
def fileclose (f : Nat) : M Unit := do
  let s ← get
  if (s.ftable f).ref < 1 then
    throw (.panic "fileclose")
  else if (s.ftable f).ref - 1 > 0 then
    modifyFile f fun x => { x with ref := x.ref - 1 }
  else do
    modifyFile f fun x => { x with ref := 0, type := .none }
    if (s.ftable f).type = .inode ∨ (s.ftable f).type = .device then iput (s.ftable f).ip
    else return ()

/-- The file behind descriptor `fd`. -/
def argfd (p fd : Nat) : M (Option Nat) := do
  let s ← get
  if fd < NOFILE then return (s.proc p).ofile fd else return none

def fdalloc (p f : Nat) : M (Option Nat) := do
  let s ← get
  match (List.range NOFILE).find? fun fd => (s.proc p).ofile fd = none with
  | some fd => do
    modifyProc p fun x => { x with ofile := update x.ofile fd (some f) }
    return some fd
  | none => return none

/-- `fileread` of an inode. What a device or a pipe reads or writes is not part of the file
system. -/
def fileread (sb : Superblock) (f : Nat) (dst : Nat → Bool) (n : Nat) : M Int := do
  let s ← get
  let x := s.ftable f
  if x.readable = false then
    return -1
  else match x.type with
    | .none => throw (.panic "fileread")
    | .pipe => return 0
    | .device => if x.major < 0 ∨ x.major ≥ NDEV then return -1 else return 0
    | .inode => do
      ilock x.ip
      let r ← readi sb x.ip dst x.off n
      if r.1 > 0 then do
        modifyFile f fun x => { x with off := x.off + r.1.toNat }
        iunlock x.ip
        return r.1
      else do
        iunlock x.ip
        return r.1

def writeMax : Nat := ((MAXOPBLOCKS - 1 - 1 - 2) / 2) * BSIZE

/-- One round of `filewrite`: a transaction that writes `n1` bytes from place `i` of the source. -/
def filewriteRound (sb : Superblock) (f : Nat) (src : Nat → Option UInt8) (i n1 : Nat) : M Int := do
  let s ← get
  let x := s.ftable f
  ilock x.ip
  let r ← writei sb x.ip (fun j => src (i + j)) x.off n1
  if r > 0 then do
    modifyFile f fun x => { x with off := x.off + r.toNat }
    iunlock x.ip
    return r
  else do
    iunlock x.ip
    return r

/-- The loop of `filewrite`. -/
def filewriteLoop (sb : Superblock) (f : Nat) (src : Nat → Option UInt8) (n : Nat) :
    Nat → Nat → M Nat
  | 0, i => return i
  | fuel + 1, i =>
    if i < n then do
      let r ← filewriteRound sb f src i (min (n - i) writeMax)
      if r = (min (n - i) writeMax : Nat) then
        filewriteLoop sb f src n fuel (i + min (n - i) writeMax)
      else
        return i
    else
      return i

def filewrite (sb : Superblock) (f : Nat) (src : Nat → Option UInt8) (n : Nat) : M Int := do
  let s ← get
  let x := s.ftable f
  if x.writable = false then
    return -1
  else match x.type with
    | .none => throw (.panic "filewrite")
    | .pipe => return n
    | .device => if x.major < 0 ∨ x.major ≥ NDEV then return -1 else return n
    | .inode => do
      let i ← filewriteLoop sb f src n n 0
      if i = n then return n else return -1

/-! ## The system calls -/

def sys_dup (p fd : Nat) : M Int := do
  let f ← argfd p fd
  match f with
  | none => return -1
  | some f => do
    let r ← fdalloc p f
    match r with
    | none => return -1
    | some fd' => do
      filedup f
      return fd'

def sys_read (sb : Superblock) (p fd : Nat) (dst : Nat → Bool) (n : Nat) : M Int := do
  let f ← argfd p fd
  match f with
  | none => return -1
  | some f => fileread sb f dst n

def sys_write (sb : Superblock) (p fd : Nat) (src : Nat → Option UInt8) (n : Nat) : M Int := do
  let f ← argfd p fd
  match f with
  | none => return -1
  | some f => filewrite sb f src n

def sys_close (p fd : Nat) : M Int := do
  let f ← argfd p fd
  match f with
  | none => return -1
  | some f => do
    modifyProc p fun x => { x with ofile := update x.ofile fd none }
    fileclose f
    return 0

/-- The end of a link that failed: the count goes back. -/
def linkBad (ip : Nat) : M Int := do
  ilock ip
  modifyInode ip fun x => { x with nlink := short (x.nlink - 1) }
  iupdate ip
  iunlockput ip
  return -1

/-- The part of `sys_link` that makes the entry, after the count is up. -/
def linkEntry (sb : Superblock) (p ip : Nat) (new : List UInt8) : M Int := do
  let r ← nameiparent sb p new
  match r with
  | none => linkBad ip
  | some (dp, name) => do
    ilock dp
    let s ← get
    let r ← dirlink sb dp name (s.itable ip).inum
    if r < 0 then do
      iunlockput dp
      linkBad ip
    else do
      iunlockput dp
      iput ip
      return 0

def sys_link (sb : Superblock) (p : Nat) (old new : List UInt8) : M Int := do
  let r ← namei sb p old
  match r with
  | none => return -1
  | some ip => do
    ilock ip
    let s ← get
    if (s.itable ip).type = .dir then do
      iunlockput ip
      return -1
    else do
      modifyInode ip fun x => { x with nlink := short (x.nlink + 1) }
      iupdate ip
      iunlock ip
      linkEntry sb p ip new

def isdiremptyLoop (sb : Superblock) (dp : Nat) : List Nat → M Bool
  | [] => return true
  | off :: offs => do
    let de ← readDirent sb dp off "isdirempty: readi"
    if de.inum ≠ 0 then return false else isdiremptyLoop sb dp offs

/-- The directory has no entries but "." and "..", which stand first. -/
def isdirempty (sb : Superblock) (dp : Nat) : M Bool := do
  let s ← get
  isdiremptyLoop sb dp (offsets (2 * DIRENT) (s.itable dp).size)

def dot : Name := [46]
def dotdot : Name := [46, 46]

/-- A directory that goes takes the link of its ".." to the parent with it. -/
def unlinkParent (dp ip : Nat) : M Unit := do
  let s ← get
  if (s.itable ip).type = .dir then do
    modifyInode dp fun x => { x with nlink := short (x.nlink - 1) }
    iupdate dp
  else
    return ()

/-- The part of `sys_unlink` in which the entry goes. -/
def unlinkEntry (sb : Superblock) (dp ip off : Nat) : M Int := do
  let r ← writei sb dp (fun _ => some 0) off DIRENT
  if r = DIRENT then do
    unlinkParent dp ip
    iunlockput dp
    modifyInode ip fun x => { x with nlink := short (x.nlink - 1) }
    iupdate ip
    iunlockput ip
    return 0
  else
    throw (.panic "unlink: writei")

def sys_unlink (sb : Superblock) (p : Nat) (path : List UInt8) : M Int := do
  let r ← nameiparent sb p path
  match r with
  | none => return -1
  | some (dp, name) => do
    ilock dp
    if namecmp name dot = true ∨ namecmp name dotdot = true then do
      iunlockput dp
      return -1
    else do
      let r ← dirlookup sb dp name
      match r with
      | none => do
        iunlockput dp
        return -1
      | some (ip, off) => do
        ilock ip
        let s ← get
        if (s.itable ip).nlink < 1 then
          throw (.panic "unlink: nlink < 1")
        else if (s.itable ip).type = .dir then do
          let empty ← isdirempty sb ip
          if empty = false then do
            iunlockput ip
            iunlockput dp
            return -1
          else
            unlinkEntry sb dp ip off
        else
          unlinkEntry sb dp ip off

/-- The end of a `create` that failed: the new inode is freed again. -/
def createFail (dp ip : Nat) : M (Option Nat) := do
  modifyInode ip fun x => { x with nlink := 0 }
  iupdate ip
  iunlockput ip
  iunlockput dp
  return none

/-- The entry of the new inode in its parent, the last step of `create`. -/
def createLink (sb : Superblock) (dp ip : Nat) (name : Name) (type : FileType) :
    M (Option Nat) := do
  let s ← get
  let r ← dirlink sb dp name (s.itable ip).inum
  if r < 0 then
    createFail dp ip
  else if type = .dir then do
    modifyInode dp fun x => { x with nlink := short (x.nlink + 1) }
    iupdate dp
    iunlockput dp
    return some ip
  else do
    iunlockput dp
    return some ip

/-- A new directory gets "." and "..", then its entry in the parent. -/
def createDir (sb : Superblock) (dp ip : Nat) (name : Name) : M (Option Nat) := do
  let s ← get
  let r ← dirlink sb ip dot (s.itable ip).inum
  if r < 0 then
    createFail dp ip
  else do
    let r ← dirlink sb ip dotdot (s.itable dp).inum
    if r < 0 then createFail dp ip else createLink sb dp ip name .dir

/-- The inode that the path names, or a new one of the type. -/
def create (sb : Superblock) (p : Nat) (path : List UInt8) (type : FileType) (major minor : Int) :
    M (Option Nat) := do
  let r ← nameiparent sb p path
  match r with
  | none => return none
  | some (dp, name) => do
    ilock dp
    let r ← dirlookup sb dp name
    match r with
    | some (ip, _) => do
      iunlockput dp
      ilock ip
      let s ← get
      if type = .file ∧ ((s.itable ip).type = .file ∨ (s.itable ip).type = .device) then
        return some ip
      else do
        iunlockput ip
        return none
    | none => do
      let r ← ialloc sb type
      match r with
      | none => do
        iunlockput dp
        return none
      | some ip => do
        ilock ip
        modifyInode ip fun x => { x with major := short major, minor := short minor, nlink := 1 }
        iupdate ip
        if type = .dir then createDir sb dp ip name else createLink sb dp ip name type

/-- The bits of the mode of `open`; `other` stands for all those without a name. -/
structure Omode where
  wronly : Bool
  rdwr : Bool
  create : Bool
  trunc : Bool
  other : Bool
  deriving DecidableEq

def O_RDONLY : Omode := ⟨false, false, false, false, false⟩

/-- The last part of `sys_open`: the file and the descriptor for an inode. -/
def openFile (p : Nat) (omode : Omode) (ip : Nat) : M Int := do
  let s ← get
  let i := s.itable ip
  if i.type = .device ∧ (i.major < 0 ∨ i.major ≥ NDEV) then do
    iunlockput ip
    return -1
  else do
    let r ← filealloc
    match r with
    | none => do
      iunlockput ip
      return -1
    | some f => do
      let r ← fdalloc p f
      match r with
      | none => do
        fileclose f
        iunlockput ip
        return -1
      | some fd => do
        modifyFile f fun x =>
          { x with type := if i.type = .device then .device else .inode,
                   major := if i.type = .device then i.major else x.major,
                   off := if i.type = .device then x.off else 0,
                   ip := ip,
                   readable := !omode.wronly,
                   writable := omode.wronly || omode.rdwr }
        if omode.trunc = true ∧ i.type = .file then do
          itrunc ip
          iunlock ip
          return fd
        else do
          iunlock ip
          return fd

def sys_open (sb : Superblock) (p : Nat) (path : List UInt8) (omode : Omode) : M Int :=
  if omode.create = true then do
    let r ← create sb p path .file 0 0
    match r with
    | none => return -1
    | some ip => openFile p omode ip
  else do
    let r ← namei sb p path
    match r with
    | none => return -1
    | some ip => do
      ilock ip
      let s ← get
      if (s.itable ip).type = .dir ∧ omode ≠ O_RDONLY then do
        iunlockput ip
        return -1
      else
        openFile p omode ip

def sys_mkdir (sb : Superblock) (p : Nat) (path : List UInt8) : M Int := do
  let r ← create sb p path .dir 0 0
  match r with
  | none => return -1
  | some ip => do
    iunlockput ip
    return 0

def sys_mknod (sb : Superblock) (p : Nat) (path : List UInt8) (major minor : Int) : M Int := do
  let r ← create sb p path .device major minor
  match r with
  | none => return -1
  | some ip => do
    iunlockput ip
    return 0

def sys_chdir (sb : Superblock) (p : Nat) (path : List UInt8) : M Int := do
  let r ← namei sb p path
  match r with
  | none => return -1
  | some ip => do
    ilock ip
    let s ← get
    if (s.itable ip).type ≠ .dir then do
      iunlockput ip
      return -1
    else do
      iunlock ip
      match (s.proc p).cwd with
      | none => throw .sleep
      | some cwd => do
        iput cwd
        modifyProc p fun x => { x with cwd := some ip }
        return 0

/-- What `fork` does with the files of the parent. -/
def forkFiles (p : Nat) : List Nat → M Unit
  | [] => return ()
  | fd :: fds => do
    let s ← get
    match (s.proc p).ofile fd with
    | none => forkFiles p fds
    | some f => do
      filedup f
      forkFiles p fds

/-- The child of `y` in the slot `x`: where `y` has no file, the slot keeps what it had. -/
def Proc.child (y x : Proc) : Proc where
  cwd := y.cwd
  ofile := fun fd => (y.ofile fd).or (x.ofile fd)

/-- The part of `fork` and of `mythread_create` that concerns the file system: process `q` gets
the files and the directory of `p`. -/
def fork (p q : Nat) : M Int := do
  forkFiles p (List.range NOFILE)
  let s ← get
  match (s.proc p).cwd with
  | none => throw .sleep
  | some cwd => do
    let _ ← idup cwd
    modifyProc q fun x => (s.proc p).child x
    return q

/-- The last transaction of `exit`. It closes the files before, each in a transaction of its
own, as `sys_close` does. -/
def exit (p : Nat) : M Int :=
  if p = 0 then
    throw (.panic "init exiting")
  else do
    let s ← get
    match (s.proc p).cwd with
    | none => throw .sleep
    | some cwd => do
      iput cwd
      modifyProc p fun x => { x with cwd := none }
      return 0

/-! ## Runs -/

/-- A call by process `p`. The last two are the functions of `fs.c` themselves, on a regular
file that the process has open. -/
inductive Call where
  | dup (fd : Nat)
  | read (fd : Nat) (dst : Nat → Bool) (n : Nat)
  | write (fd : Nat) (src : Nat → Option UInt8) (n : Nat)
  | close (fd : Nat)
  | link (old new : List UInt8)
  | unlink (path : List UInt8)
  | open_ (path : List UInt8) (omode : Omode)
  | mkdir (path : List UInt8)
  | mknod (path : List UInt8) (major minor : Int)
  | chdir (path : List UInt8)
  | fork (q : Nat)
  | exit
  | writei (fd : Nat) (src : Nat → Option UInt8) (off n : Nat)
  | itrunc (fd : Nat)

/-- Runs `m` on the inode of a regular file that the process has open. -/
def onFile (p fd : Nat) (m : Nat → M Int) : M Int := do
  let r ← argfd p fd
  match r with
  | none => return -1
  | some f => do
    let s ← get
    if (s.ftable f).type = .inode ∧ (s.dinode (s.itable (s.ftable f).ip).inum).type = .file then do
      ilock (s.ftable f).ip
      let r ← m (s.ftable f).ip
      iunlock (s.ftable f).ip
      return r
    else
      return -1

def call (sb : Superblock) (p : Nat) : Call → M Int
  | .dup fd => sys_dup p fd
  | .read fd dst n => sys_read sb p fd dst n
  | .write fd src n => sys_write sb p fd src n
  | .close fd => sys_close p fd
  | .link old new => sys_link sb p old new
  | .unlink path => sys_unlink sb p path
  | .open_ path omode => sys_open sb p path omode
  | .mkdir path => sys_mkdir sb p path
  | .mknod path major minor => sys_mknod sb p path major minor
  | .chdir path => sys_chdir sb p path
  | .fork q => fork p q
  | .exit => exit p
  | .writei fd src off n => onFile p fd fun ip => writei sb ip src off n
  | .itrunc fd => onFile p fd fun ip => do itrunc ip; return 0

/-- A process that runs may make any call; it forks into a slot that does not run, and it
drops its directory when it has no file open. -/
def Allowed (s : Fs) (p : Nat) (c : Call) : Prop :=
  p < NPROC ∧ (s.proc p).cwd ≠ none ∧
    (∀ q, c = .fork q → q < NPROC ∧ (s.proc q).cwd = none) ∧
    (c = .exit → ∀ fd < NOFILE, (s.proc p).ofile fd = none)

/-- The kernel's tables at boot over the contents of a disk. -/
def blank (bitmap : Nat → Bool) (dinode : Nat → Dinode) (data : Nat → Bytes) : Fs where
  bitmap := bitmap
  dinode := dinode
  data := data
  itable := fun _ =>
    { type := .free, major := 0, minor := 0, nlink := 0, size := 0, addrs := fun _ => 0,
      inum := 0, ref := 0, valid := false }
  ftable := fun _ =>
    { type := .none, ref := 0, readable := false, writable := false, pipe := 0, ip := 0, off := 0,
      major := 0 }
  proc := fun _ => { cwd := none, ofile := fun _ => none }

/-- The first process gets its directory. -/
def userinit (sb : Superblock) : M Unit := do
  let r ← namei sb 0 [slash]
  modifyProc 0 fun x => { x with cwd := r }

/-- The states that the kernel reaches from the disk image. -/
inductive Run (sb : Superblock) (img : Fs) : Fs → Prop
  | boot {s : Fs} : (userinit sb).run img = .ok ((), s) → Run sb img s
  | next {s t : Fs} {p : Nat} {c : Call} {r : Int} : Run sb img s → Allowed s p c →
      (call sb p c).run s = .ok (r, t) → Run sb img t

end xv6.fs
