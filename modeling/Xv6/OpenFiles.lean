-- Open files and processes together: the file table, the inodes and the
-- descriptors of the model of the file system, and the slots and the memory of
-- the model of the processes. There are no pipes here.
import Xv6.Sysfile
import Xv6.ProcSlots

open wp

namespace xv6.files

open vm

/-! ## The state -/

structure Sys where
  files : fs.Fs
  kernel : proc.Sys

abbrev F := StateT Sys (Except Stop)

/-- Runs a function of the file system. -/
def onFs {α : Type} (m : fs.M α) : F α := fun s =>
  match m.run s.files with
  | .ok (a, x) => .ok (a, { s with files := x })
  | .error e => .error e

/-- Runs a function of the processes. -/
def onProc {α : Type} (m : proc.K α) : F α := fun s =>
  match m.run s.kernel with
  | .ok (a, k) => .ok (a, { s with kernel := k })
  | .error e => .error e

section rules

variable {s : Sys} {α : Type} {E : Stop → Prop}

@[simp] lemma wp_onFs {m : fs.M α} {Q : α → Sys → Prop} :
    Wp (onFs m) Q E s ↔ Wp m (fun a x => Q a { s with files := x }) E s.files := by
  have hrun : (onFs m).run s = onFs m s := rfl
  unfold Wp
  rw [hrun, onFs]
  rcases m.run s.files with e | ⟨a, x⟩
  · exact Iff.rfl
  · exact Iff.rfl

@[simp] lemma wp_onProc {m : proc.K α} {Q : α → Sys → Prop} :
    Wp (onProc m) Q E s ↔ Wp m (fun a k => Q a { s with kernel := k }) E s.kernel := by
  have hrun : (onProc m).run s = onProc m s := rfl
  unfold Wp
  rw [hrun, onProc]
  rcases m.run s.kernel with e | ⟨a, k⟩
  · exact Iff.rfl
  · exact Iff.rfl

end rules

/-! ## The system calls -/

variable (ld : Link)

/-- The files and the directory of `me` go to the slot `np`, if it was taken. -/
def shareFiles (me : Nat) (np : Option Nat) : F Unit :=
  match np with
  | none => return ()
  | some np => do
    let s ← get
    if (s.kernel.proc np).state = .UNUSED then
      return ()
    else do
      let _ ← onFs (fs.fork me np)

/-- The slot of the child is the one that `allocproc` finds. -/
def fork (me : Nat) : F Int := do
  let s ← get
  let pid ← onProc (proc.fork ld me)
  shareFiles me s.kernel.unused
  return pid

/-- As `fork`: the thread gets the files and the directory of its creator. -/
def mythread_create (me : Nat) (arg1 : Int) (arg2 : Nat) : F Int := do
  let s ← get
  let r ← onProc (proc.mythread_create ld me arg1 arg2)
  shareFiles me s.kernel.unused
  return r

/-- `exit` closes the files before it becomes a zombie. -/
def exit (me : Nat) (status : Int) : F Int := do
  let s ← get
  if me = s.kernel.initproc then
    throw (.panic "init exiting")
  else do
    let _ ← onFs (fs.exit me)
    onProc (proc.exit me status)
    return 0

/-! ## A session -/

inductive Call where
  | open_ (path : List UInt8) (omode : fs.Omode)
  | close (fd : Nat)
  | fork
  | create (arg1 : Int) (arg2 : Nat)
  | exit (status : Int)
  | join

def call (sb : fs.Superblock) (me : Nat) : Call → F Int
  | .open_ path omode => onFs (fs.sys_open sb me path omode)
  | .close fd => onFs (fs.sys_close me fd)
  | .fork => fork ld me
  | .create arg1 arg2 => mythread_create ld me arg1 arg2
  | .exit status => exit me status
  | .join => onProc (proc.mythread_join ld me)

/-- The calls in turn. A process gets the CPU for its call; a slot without one makes no call. -/
def calls (sb : fs.Superblock) : List (Nat × Call) → F Unit
  | [] => return ()
  | (p, c) :: cs => do
    let s ← get
    if p < NPROC ∧ proc.Live (s.kernel.proc p).state then do
      onProc (proc.modifyProc p fun x => { x with state := .RUNNING })
      let _ ← call ld sb p c
    calls sb cs

/-- The boot, and the calls after it. -/
def session (sb : fs.Superblock) (kpages : Nat) (initcode : List UInt8) (cs : List (Nat × Call)) :
    F Unit := do
  onProc (proc.boot ld kpages initcode)
  onFs (fs.userinit sb)
  calls ld sb cs

end xv6.files
