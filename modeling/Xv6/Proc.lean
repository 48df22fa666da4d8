-- The process table of `proc.c`, and the calls that make, change and free
-- processes and threads. A call runs alone from its start to its return: where
-- it would sleep or spin it stops, and is made again later. Files are in the
-- model of the file system, and `sleep`, `wakeup` and `swtch` in that of the
-- scheduler.
import Xv6.Lib.Bytes
import Xv6.Vm

open bytes cells

namespace xv6.proc

open vm

def MAX_THREADS : Nat := 1024
def MAX_FAMILIES : Nat := 1024

/-! ## The state -/

inductive procstate where
  | UNUSED
  | USED
  | SLEEPING
  | RUNNABLE
  | RUNNING
  | ZOMBIE
  deriving DecidableEq

structure Proc where
  state : procstate
  killed : Bool
  xstate : Int
  pid : Int
  isthread : Bool
  fid : Int
  parent : Option Nat
  sz : Nat
  pagetable : Nat
  trapframe : Nat
  name : List UInt8
deriving DecidableEq

/-- The entry of the table at boot. -/
def Proc.zero : Proc where
  state := .UNUSED
  killed := false
  xstate := 0
  pid := 0
  isthread := false
  fid := 0
  parent := none
  sz := 0
  pagetable := 0
  trapframe := 0
  name := []

inductive Lock where
  | wait_lock
  | pid_lock
  | proc (p : Nat)
  deriving DecidableEq

/-- What happened to threads and children: process `creator` made thread `created`, and a
`wait` returned `pid`. -/
inductive Event where
  | create (creator created : Int)
  | reap (pid : Int)
  deriving DecidableEq

/-- The kernel. A lock is held by the CPU that runs a process. The last three fields are not
in the source: the pages that the kernel took at boot, what happened so far, and the slots on
which `freeproc` ran without their lock. -/
structure Sys where
  vm : Vm
  proc : Nat → Proc
  lock : Lock → Option Nat
  noff : Nat → Nat
  initproc : Nat
  nextpid : Int
  families : Nat → Int
  currFid : Nat
  threads : Nat → Nat
  currId : Nat
  running : Int
  joined : Int
  kernel : List Nat
  hist : List Event
  bare : List Nat

abbrev K := StateT Sys (Except Stop)

/-- Runs a function of the memory. -/
def onVm {α : Type} (m : V α) : K α := fun s =>
  match m.run s.vm with
  | .ok (a, v) => .ok (a, { s with vm := v })
  | .error e => .error e

def modifyProc (p : Nat) (f : Proc → Proc) : K Unit :=
  modify fun s => { s with proc := put s.proc p (f (s.proc p)) }

/-! ## Locks -/

def acquire (me : Nat) (lk : Lock) : K Unit := do
  let s ← get
  match s.lock lk with
  | none =>
    set { s with lock := put s.lock lk (some me),
                 noff := put s.noff me (s.noff me + 1) }
  | some q => if q = me then throw (.panic "acquire") else throw .sleep

def release (me : Nat) (lk : Lock) : K Unit := do
  let s ← get
  if s.lock lk = some me then
    if s.noff me < 1 then
      throw (.panic "pop_off")
    else
      set { s with lock := put s.lock lk none,
                   noff := put s.noff me (s.noff me - 1) }
  else
    throw (.panic "release")

/-! ## Slots -/

variable (ld : Link)

def int32 (x : Int) : Int := (x + 2 ^ 31) % 2 ^ 32 - 2 ^ 31

def allocpid (me : Nat) : K Int := do
  acquire me .pid_lock
  let s ← get
  set { s with nextpid := int32 (s.nextpid + 1) }
  release me .pid_lock
  return s.nextpid

def proc_pagetable (trapframe : Nat) : V Nat := do
  let pagetable ← uvmcreate
  if pagetable = 0 then
    return 0
  else do
    let ok ← mappages pagetable TRAMPOLINE PGSIZE ld.trampoline (PTE_R ||| PTE_X)
    if ok = false then do
      uvmfree ld pagetable 0
      return 0
    else do
      let ok ← mappages pagetable TRAPFRAME PGSIZE trapframe (PTE_R ||| PTE_W)
      if ok = false then do
        uvmunmap ld pagetable TRAMPOLINE 1 false
        uvmfree ld pagetable 0
        return 0
      else
        return pagetable

def proc_freepagetable (pagetable sz : Nat) : V Unit := do
  uvmunmap ld pagetable TRAMPOLINE 1 false
  uvmunmap ld pagetable TRAPFRAME 1 false
  uvmfree ld pagetable sz

def Proc.freed (x : Proc) : Proc := { Proc.zero with isthread := x.isthread, fid := x.fid }

def freeproc (me p : Nat) : K Unit := do
  modify fun s => if s.lock (.proc p) = some me then s else { s with bare := p :: s.bare }
  let s ← get
  let x := s.proc p
  (if x.trapframe ≠ 0 then onVm (kfree ld x.trapframe) else return ())
  (if x.pagetable ≠ 0 ∧ x.isthread = false then
    onVm (proc_freepagetable ld x.pagetable x.sz)
  else
    return ())
  modifyProc p Proc.freed

/-- The search of `allocproc`: it returns with the lock of the slot that it found. -/
def findUnused (me : Nat) : List Nat → K (Option Nat)
  | [] => return none
  | p :: ps => do
    acquire me (.proc p)
    let s ← get
    if (s.proc p).state = .UNUSED then
      return some p
    else do
      release me (.proc p)
      findUnused me ps

/-- The slot that the search finds when it is not stopped by a lock. -/
def Sys.unused (s : Sys) : Option Nat :=
  (List.range NPROC).find? fun p => (s.proc p).state = .UNUSED

def allocproc (me : Nat) : K (Option Nat) := do
  let r ← findUnused me (List.range NPROC)
  match r with
  | none => return none
  | some p => do
    let pid ← allocpid me
    modifyProc p fun x => { x with pid := pid, state := .USED }
    let trapframe ← onVm kalloc
    modifyProc p fun x => { x with trapframe := trapframe }
    if trapframe = 0 then do
      freeproc ld me p
      release me (.proc p)
      return none
    else do
      let pagetable ← onVm (proc_pagetable ld trapframe)
      modifyProc p fun x => { x with pagetable := pagetable }
      if pagetable = 0 then do
        freeproc ld me p
        release me (.proc p)
        return none
      else
        return some p

/-! ## Processes -/

/-- The words of a `struct trapframe`, and those that the kernel sets. -/
def FRAMEWORDS : Nat := 36
def EPC : Nat := 3
def RA : Nat := 5
def SP : Nat := 6
def A0 : Nat := 14
def A1 : Nat := 15

/-- Copies the trapframe. -/
def copyframe (dst src : Nat) : V Unit := do
  let s ← get
  if inRam src then
    setPage dst fun i => if i < FRAMEWORDS then s.mem src i else s.mem dst i
  else
    throw fault

def fork (me : Nat) : K Int := do
  let r ← allocproc ld me
  match r with
  | none => return -1
  | some np => do
    let s ← get
    let p := s.proc me
    let ok ← onVm (uvmcopy ld p.pagetable (s.proc np).pagetable p.sz)
    if ok = false then do
      freeproc ld me np
      release me (.proc np)
      return -1
    else do
      modifyProc np fun x => { x with sz := p.sz }
      onVm (copyframe (s.proc np).trapframe p.trapframe)
      onVm (store (s.proc np).trapframe A0 0)
      modifyProc np fun x => { x with name := p.name }
      release me (.proc np)
      acquire me .wait_lock
      modifyProc np fun x => { x with parent := some me }
      release me .wait_lock
      acquire me (.proc np)
      modifyProc np fun x => { x with state := .RUNNABLE }
      release me (.proc np)
      return (s.proc np).pid

/-- Gives the children of `p` to `initproc`. -/
def reparent (p : Nat) : K Unit :=
  modify fun s =>
    let adopt : Nat → Proc := fun q =>
      if q < NPROC ∧ (s.proc q).parent = some p then { s.proc q with parent := some s.initproc }
      else s.proc q
    { s with proc := adopt }

/-- The last part of `exit`. The scheduler releases the lock of the process. -/
def exit (me : Nat) (status : Int) : K Unit := do
  let s ← get
  if me = s.initproc then
    throw (.panic "init exiting")
  else do
    acquire me .wait_lock
    reparent me
    acquire me (.proc me)
    modifyProc me fun x => { x with xstate := status, state := .ZOMBIE }
    release me .wait_lock
    release me (.proc me)

/-- The four bytes of an `int`. -/
def intBytes (x : Int) : List UInt8 :=
  (List.range 4).map fun k => UInt8.ofNat ((x % 2 ^ 32).toNat / 256 ^ k)

def killed (me p : Nat) : K Bool := do
  acquire me (.proc p)
  let s ← get
  release me (.proc p)
  return (s.proc p).killed

/-- The scan of `wait` over the slots: the result of the call, if it returns, and whether there
are children. -/
def waitScan (me addr : Nat) : List Nat → Bool → K (Option Int × Bool)
  | [], havekids => return (none, havekids)
  | pp :: pps, havekids => do
    let s ← get
    if (s.proc pp).parent = some me then do
      acquire me (.proc pp)
      if (s.proc pp).state = .ZOMBIE then do
        let pid := (s.proc pp).pid
        let ok ← (if addr ≠ 0 then
            onVm (copyout (s.proc me).pagetable addr (intBytes (s.proc pp).xstate))
          else
            pure true)
        if ok = false then do
          release me (.proc pp)
          release me .wait_lock
          return (some (-1), true)
        else do
          freeproc ld me pp
          modify fun s => { s with hist := .reap pid :: s.hist }
          release me (.proc pp)
          release me .wait_lock
          return (some pid, true)
      else do
        release me (.proc pp)
        waitScan me addr pps true
    else
      waitScan me addr pps havekids

def wait (me addr : Nat) : K Int := do
  acquire me .wait_lock
  let (r, havekids) ← waitScan ld me addr (List.range NPROC) false
  match r with
  | some pid => return pid
  | none =>
    if havekids = false then do
      release me .wait_lock
      return -1
    else do
      let k ← killed me me
      if k = true then do
        release me .wait_lock
        return -1
      else
        throw .sleep

/-- The loop of `kill` over the slots. -/
def killScan (me : Nat) (pid : Int) : List Nat → K Int
  | [] => return -1
  | p :: ps => do
    acquire me (.proc p)
    let s ← get
    if (s.proc p).pid = pid then do
      modifyProc p fun x =>
        { x with killed := true, state := if x.state = .SLEEPING then .RUNNABLE else x.state }
      release me (.proc p)
      return 0
    else do
      release me (.proc p)
      killScan me pid ps

def kill (me : Nat) (pid : Int) : K Int := killScan me pid (List.range NPROC)

def growproc (me : Nat) (n : Int) : K Int := do
  let s ← get
  let p := s.proc me
  let newsz := uint64 (p.sz + ofInt n)
  if n > 0 then do
    let sz ← onVm (uvmalloc ld p.pagetable p.sz newsz PTE_W)
    if sz = 0 then
      return -1
    else do
      modifyProc me fun x => { x with sz := sz }
      return 0
  else if n < 0 then do
    let sz ← onVm (uvmdealloc ld p.pagetable p.sz newsz)
    modifyProc me fun x => { x with sz := sz }
    return 0
  else
    return 0

def sys_sbrk (me : Nat) (n : Int) : K Int := do
  let s ← get
  let addr := (s.proc me).sz
  let r ← growproc ld me n
  return if r < 0 then -1 else addr

/-! ## Threads -/

/-- A store to index `i` of an array of `n` entries comes next; the source has no test. -/
def inBounds (i n : Nat) : K Unit := if i < n then return () else throw .overrun

/-- `mythread_create` finds the pid of the caller among the families, or adds it. -/
def enterFamily (me : Nat) : K Unit := do
  let s ← get
  let pid := (s.proc me).pid
  if (List.range MAX_FAMILIES).any fun i => s.families i = pid then
    return ()
  else do
    inBounds s.currFid MAX_FAMILIES
    set { s with families := put s.families s.currFid pid,
                 currFid := s.currFid + 1 }
    modifyProc me fun x => { x with fid := s.currFid }

/-- The part of `mythread_create` up to the copy of the page table: the new slot, and whether
the copy succeeded. -/
def createBegin (me : Nat) : K (Option (Nat × Bool)) := do
  modifyProc me fun x => { x with isthread := true }
  let r ← allocproc ld me
  match r with
  | none => return none
  | some np => do
    modifyProc np fun x => { x with isthread := true }
    enterFamily me
    let s ← get
    modifyProc np fun x => { x with fid := (s.proc me).fid }
    let ok ← onVm (copytable ld (s.proc me).pagetable (s.proc np).pagetable (s.proc me).sz)
    return some (np, ok)

/-- The stack of the new thread, above the memory of its creator. -/
def createStack (me np : Nat) : K Nat := do
  let s ← get
  onVm (uvmalloc ld (s.proc np).pagetable (s.proc me).sz (uint64 ((s.proc me).sz + PGSIZE))
    (PTE_W ||| PTE_R))

/-- The thread is complete. -/
def createFinish (me np newsize : Nat) (arg1 : Int) (arg2 : Nat) : K Unit := do
  modifyProc np fun x => { x with sz := newsize }
  let s ← get
  onVm (store (s.proc np).trapframe SP newsize)
  onVm (store (s.proc np).trapframe EPC arg2)
  onVm (store (s.proc np).trapframe A0 (ofInt arg1))
  onVm (store (s.proc np).trapframe RA 0)
  inBounds s.currId MAX_THREADS
  modify fun s => { s with threads := put s.threads s.currId np,
                           currId := s.currId + 1, running := s.running + 1,
                           hist := .create (s.proc me).pid (s.proc np).pid :: s.hist }
  release me (.proc np)
  acquire me .wait_lock
  modifyProc np fun x => { x with parent := some me }
  release me .wait_lock
  acquire me (.proc np)
  modifyProc np fun x => { x with state := .RUNNABLE }
  release me (.proc np)

def mythread_create (me : Nat) (arg1 : Int) (arg2 : Nat) : K Int := do
  let r ← createBegin ld me
  match r with
  | none => return -1
  | some (np, ok) =>
    if ok = false then do
      freeproc ld me np
      release me (.proc np)
      return -1
    else do
      let newsize ← createStack ld me np
      if newsize = 0 then do
        freeproc ld me np
        return -1
      else do
        createFinish me np newsize arg1 arg2
        return 0

/-- The loop of `mythread_join` over the indices in `threads`. -/
def freeThreads (me : Nat) : List Nat → K Unit
  | [] => return ()
  | i :: is => do
    let s ← get
    modifyProc (s.threads i) fun x => { x with isthread := false }
    freeproc ld me (s.threads i)
    freeThreads me is

def mythread_join (me : Nat) : K Int := do
  let _ ← wait ld me 0
  modify fun s => { s with running := s.running - 1, joined := s.joined + 1 }
  let s ← get
  (if s.running = 0 then do
    freeThreads ld me (List.range (s.currId - 1))
    modify fun s => { s with currId := 0, joined := 0, currFid := 0 }
  else
    return ())
  return 0

/-! ## `exec.c` -/

def ELF_MAGIC : Nat := 0x464C457F
def ELF_PROG_LOAD : Nat := 1
def ELFHDR : Nat := 64
def PROGHDR : Nat := 56

/-- What `exec` reads: the contents of the inode. -/
structure Prog where
  size : Nat
  data : Bytes

/-- The bytes that `readi` delivers; the offset and the number are `uint`. -/
def Prog.readi (f : Prog) (off n : Nat) : List UInt8 :=
  if off > f.size ∨ (off + n) % 2 ^ 32 < off then
    []
  else
    (List.range (min n (f.size - off))).map fun i => f.data (off + i)

def field (bs : List UInt8) (off n : Nat) : Nat := getLE n (fun i => bs.getD i 0) off

def flags2perm (flags : Nat) : Nat :=
  (if flags &&& 0x1 ≠ 0 then PTE_X else 0) ||| (if flags &&& 0x2 ≠ 0 then PTE_W else 0)

/-- The loop of `loadseg`, for `k` pages. It returns false where the source returns -1. -/
def loadsegLoop (pagetable va : Nat) (f : Prog) (offset sz : Nat) : Nat → Nat → V Bool
  | 0, _ => return true
  | k + 1, i => do
    let pa ← walkaddr pagetable (uint64 (va + i))
    if pa = 0 then
      throw (.panic "loadseg: address should exist")
    else do
      let n := if sz - i < PGSIZE then sz - i else PGSIZE
      let bs := f.readi ((offset + i) % 2 ^ 32) n
      poke pa 0 bs
      if bs.length ≠ n then
        return false
      else
        loadsegLoop pagetable va f offset sz k (i + PGSIZE)

def loadseg (pagetable va : Nat) (f : Prog) (offset sz : Nat) : V Bool :=
  loadsegLoop pagetable va f offset sz (rounds 0 sz) 0

/-- The loop of `exec` over the program headers, for `k` of them: whether all are loaded, and
the size. -/
def loadLoop (pagetable : Nat) (f : Prog) : Nat → Nat → Nat → V (Bool × Nat)
  | 0, _, sz => return (true, sz)
  | k + 1, off, sz => do
    let ph := f.readi off PROGHDR
    let vaddr := field ph 16 8
    let filesz := field ph 32 8
    let memsz := field ph 40 8
    if ph.length ≠ PROGHDR then
      return (false, sz)
    else if field ph 0 4 ≠ ELF_PROG_LOAD then
      loadLoop pagetable f k ((off + PROGHDR) % 2 ^ 32) sz
    else if memsz < filesz then
      return (false, sz)
    else if uint64 (vaddr + memsz) < vaddr then
      return (false, sz)
    else if vaddr % PGSIZE ≠ 0 then
      return (false, sz)
    else do
      let sz1 ← uvmalloc ld pagetable sz (uint64 (vaddr + memsz)) (flags2perm (field ph 4 4))
      if sz1 = 0 then
        return (false, sz)
      else do
        let ok ← loadseg pagetable vaddr f (field ph 8 8 % 2 ^ 32) (filesz % 2 ^ 32)
        if ok = false then
          return (false, sz1)
        else
          loadLoop pagetable f k ((off + PROGHDR) % 2 ^ 32) sz1

def sub64 (x y : Nat) : Nat := uint64 (x + 2 ^ 64 - y)

/-- The loop of `exec` over the arguments: the addresses of the strings that were pushed, and
the stack pointer. -/
def pushLoop (pagetable stackbase : Nat) : List (List UInt8) → Nat → List Nat →
    V (Option (List Nat × Nat))
  | [], sp, ustack => return some (ustack, sp)
  | arg :: args, sp, ustack =>
    if ustack.length ≥ MAXARG then
      return none
    else do
      let sp := sub64 sp (arg.length + 1)
      let sp := sp - sp % 16
      if sp < stackbase then
        return none
      else do
        let ok ← copyout pagetable sp (arg ++ [0])
        if ok = false then
          return none
        else
          pushLoop pagetable stackbase args sp (ustack ++ [sp])

/-- The bytes of the array of argument pointers. -/
def pointerBytes (ws : List Nat) : List UInt8 :=
  ws.flatMap fun w => (List.range 8).map fun k => UInt8.ofNat (w / 256 ^ k)

/-- The last part of `exec` before the commit: the stack, with the arguments on it. It returns
the size, and the number of arguments and the stack pointer if all went well. -/
def pushArgs (pagetable sz : Nat) (argv : List (List UInt8)) : V (Nat × Option (Nat × Nat)) := do
  let sz := PGROUNDUP sz
  let sz1 ← uvmalloc ld pagetable sz (uint64 (sz + 2 * PGSIZE)) PTE_W
  if sz1 = 0 then
    return (sz, none)
  else do
    uvmclear pagetable (sz1 - 2 * PGSIZE)
    let r ← pushLoop pagetable (sz1 - PGSIZE) argv sz1 []
    match r with
    | none => return (sz1, none)
    | some (ustack, sp) => do
      let sp := sub64 sp ((ustack.length + 1) * 8)
      let sp := sp - sp % 16
      if sp < sz1 - PGSIZE then
        return (sz1, none)
      else do
        let ok ← copyout pagetable sp (pointerBytes (ustack ++ [0]))
        if ok = false then
          return (sz1, none)
        else
          return (sz1, some (ustack.length, sp))

/-- The part of `exec` that reads the file: the header and the segments. The result is the new
page table (0 when there is none), its size, and whether all went well. -/
def execLoad (trapframe : Nat) (f : Prog) : V (Nat × Nat × Bool) := do
  let elf := f.readi 0 ELFHDR
  if elf.length ≠ ELFHDR then
    return (0, 0, false)
  else if field elf 0 4 ≠ ELF_MAGIC then
    return (0, 0, false)
  else do
    let pagetable ← proc_pagetable ld trapframe
    if pagetable = 0 then
      return (0, 0, false)
    else do
      let (ok, sz) ← loadLoop ld pagetable f (field elf 56 2) (field elf 32 8 % 2 ^ 32) 0
      return (pagetable, sz, ok)

/-- The name of the program: what follows the last slash of its path, cut to 15 bytes. -/
def progName (path : List UInt8) : List UInt8 :=
  ((path.reverse.takeWhile fun c => c ≠ 47).reverse).take 15

/-- The commit of `exec`. -/
def execCommit (me : Nat) (path : List UInt8) (entry pagetable sz sp : Nat) : K Unit := do
  let s ← get
  let p := s.proc me
  onVm (store p.trapframe A1 sp)
  modifyProc me fun x => { x with name := progName path, pagetable := pagetable, sz := sz }
  onVm (store p.trapframe EPC entry)
  onVm (store p.trapframe SP sp)
  onVm (proc_freepagetable ld p.pagetable p.sz)

/-- `exec` after `bad`: what was built is freed. -/
def execBad (pagetable sz : Nat) : K Int := do
  (if pagetable ≠ 0 then onVm (proc_freepagetable ld pagetable sz) else return ())
  return -1

/-- `exec` of a file; `none` when the path names none. -/
def exec (me : Nat) (path : List UInt8) (file : Option Prog) (argv : List (List UInt8)) :
    K Int :=
  match file with
  | none => return -1
  | some f => do
    let s ← get
    let (pagetable, sz, ok) ← onVm (execLoad ld (s.proc me).trapframe f)
    if ok = false then
      execBad ld pagetable sz
    else do
      let (sz, r) ← onVm (pushArgs ld pagetable sz argv)
      match r with
      | none => execBad ld pagetable sz
      | some (argc, sp) => do
        execCommit ld me path (field (f.readi 0 ELFHDR) 24 8) pagetable sz sp
        return argc

/-- What the user's argument vector holds at an index: the pointer cannot be read, or it is
null, or its string cannot be read, or it is a string. -/
inductive UArg where
  | bad
  | null
  | badstr
  | str (bytes : List UInt8)

/-- The loop of `sys_exec` from index `i` on, for `n` more entries: the pages of the arguments
so far with their strings, and whether the vector was read to its end. -/
def fetchArgs (uargv : Nat → UArg) : Nat → Nat → List (Nat × List UInt8) →
    V (Bool × List (Nat × List UInt8))
  | 0, _, argv => return (false, argv)
  | n + 1, i, argv =>
    match uargv i with
    | .bad => return (false, argv)
    | .null => return (true, argv)
    | .badstr => do
      let page ← kalloc
      return (false, if page = 0 then argv else argv ++ [(page, [])])
    | .str bytes => do
      let page ← kalloc
      if page = 0 then
        return (false, argv)
      else if PGSIZE ≤ bytes.length then
        return (false, argv ++ [(page, [])])
      else do
        poke page 0 (bytes ++ [0])
        fetchArgs uargv n (i + 1) (argv ++ [(page, bytes)])

def freeArgs : List (Nat × List UInt8) → V Unit
  | [] => return ()
  | (page, _) :: argv => do
    kfree ld page
    freeArgs argv

/-- `path` is `none` when the user's string cannot be read. -/
def sys_exec (me : Nat) (path : Option (List UInt8)) (file : Option Prog) (uargv : Nat → UArg) :
    K Int :=
  match path with
  | none => return -1
  | some path => do
    let (ok, argv) ← onVm (fetchArgs uargv MAXARG 0 [])
    if ok = false then do
      onVm (freeArgs ld argv)
      return -1
    else do
      let ret ← exec ld me path file (argv.map Prod.snd)
      onVm (freeArgs ld argv)
      return ret

/-! ## Runs -/

inductive Call where
  | fork
  | exec (path : Option (List UInt8)) (file : Option Prog) (uargv : Nat → UArg)
  | sbrk (n : Int)
  | exit (status : Int)
  | wait (addr : Nat)
  | kill (pid : Int)
  | create (arg1 : Int) (arg2 : Nat)
  | join

def call (me : Nat) : Call → K Int
  | .fork => fork ld me
  | .exec path file uargv => sys_exec ld me path file uargv
  | .sbrk n => sys_sbrk ld me n
  | .exit status => do
    exit me status
    return 0
  | .wait addr => wait ld me addr
  | .kill pid => kill me pid
  | .create arg1 arg2 => mythread_create ld me arg1 arg2
  | .join => mythread_join ld me

/-- Takes `n` pages for the kernel. -/
def takePages : Nat → K Unit
  | 0 => return ()
  | n + 1 => do
    let page ← onVm kalloc
    if page = 0 then
      throw (.panic "kalloc")
    else do
      modify fun s => { s with kernel := page :: s.kernel }
      takePages n

def userinit (initcode : List UInt8) : K Unit := do
  let r ← allocproc ld 0
  match r with
  | none => throw fault
  | some p => do
    modify fun s => { s with initproc := p }
    let s ← get
    onVm (uvmfirst (s.proc p).pagetable initcode)
    modifyProc p fun x => { x with sz := PGSIZE }
    onVm (store (s.proc p).trapframe EPC 0)
    onVm (store (s.proc p).trapframe SP PGSIZE)
    modifyProc p fun x => { x with name := [105, 110, 105, 116, 99, 111, 100, 101] }
    modifyProc p fun x => { x with state := .RUNNABLE }
    release 0 (.proc p)

/-- The boot: the free pages, `kpages` of which the kernel takes, and the first process. -/
def boot (kpages : Nat) (initcode : List UInt8) : K Unit := do
  onVm (kinit ld)
  takePages kpages
  userinit ld initcode

/-- The kernel's data before the boot. -/
def start (mem : Nat → Nat → Nat) : Sys where
  vm := { mem := mem, freelist := 0 }
  proc := fun _ => Proc.zero
  lock := fun _ => none
  noff := fun _ => 0
  initproc := 0
  nextpid := 1
  families := fun _ => 0
  currFid := 0
  threads := fun _ => 0
  currId := 0
  running := 0
  joined := 0
  kernel := []
  hist := []
  bare := []

def pagesAtBoot : Nat := (PHYSTOP - PGROUNDUP ld.kend) / PGSIZE

def Live (st : procstate) : Prop := st = .SLEEPING ∨ st = .RUNNABLE ∨ st = .RUNNING

instance (st : procstate) : Decidable (Live st) := inferInstanceAs (Decidable (_ ∨ _ ∨ _))

/-- The states of the runs from the boot in which every call meets the condition `C`: calls of
running processes, changes of the state by the scheduler, and stores of running processes to
their memory. The machine has memory enough for the first process. -/
inductive Run (ld : Link) (C : Sys → Nat → Call → Sys → Prop) : Sys → Prop
  | boot {mem : Nat → Nat → Nat} {kpages : Nat} {initcode : List UInt8} {s : Sys} :
      kpages + 10 ≤ pagesAtBoot ld → (boot ld kpages initcode).run (start mem) = .ok ((), s) → Run ld C s
  | call {s t : Sys} {p : Nat} {c : Call} {r : Int} : Run ld C s → p < NPROC →
      (s.proc p).state = .RUNNING → (call ld p c).run s = .ok (r, t) → C s p c t → Run ld C t
  | sched {s : Sys} {p : Nat} {st : procstate} : Run ld C s → p < NPROC →
      Live (s.proc p).state → Live st →
      Run ld C { s with proc := put s.proc p { s.proc p with state := st } }
  | write {s t : Sys} {p va : Nat} {bs : List UInt8} {r : Bool} : Run ld C s → p < NPROC →
      (s.proc p).state = .RUNNING →
      (onVm (copyout (s.proc p).pagetable va bs)).run s = .ok (r, t) → Run ld C t

end xv6.proc
