-- The page allocator and the user page tables: `kalloc.c` and `vm.c`. The
-- memory is a word for each index of each page, and a pointer to a word is its
-- page and its index. The free list runs through the first words of its pages.
import Mathlib
import Xv6.Lib.Cells
import Xv6.Param

open cells

namespace xv6.vm

/-! ## Addresses and entries -/

def PGSIZE : Nat := 4096
def KERNBASE : Nat := 0x80000000
def PHYSTOP : Nat := KERNBASE + 128 * 1024 * 1024
def MAXVA : Nat := 2 ^ 38
def TRAMPOLINE : Nat := MAXVA - PGSIZE
def TRAPFRAME : Nat := TRAMPOLINE - PGSIZE

def NPTE : Nat := 512

def uint64 (x : Nat) : Nat := x % 2 ^ 64

def ofInt (n : Int) : Nat := (n % 2 ^ 64).toNat

/-- The value of a `uint64` after it went through an `int`. -/
def intOf (x : Nat) : Nat :=
  if x % 2 ^ 32 < 2 ^ 31 then x % 2 ^ 32 else 2 ^ 64 - 2 ^ 32 + x % 2 ^ 32

def PGROUNDUP (sz : Nat) : Nat := uint64 (sz + PGSIZE - 1) / PGSIZE * PGSIZE
def PGROUNDDOWN (a : Nat) : Nat := a / PGSIZE * PGSIZE

def PTE_V : Nat := 1
def PTE_R : Nat := 2
def PTE_W : Nat := 4
def PTE_X : Nat := 8
def PTE_U : Nat := 16

def PA2PTE (pa : Nat) : Nat := pa >>> 12 <<< 10
def PTE2PA (pte : Nat) : Nat := pte >>> 10 <<< 12
def PTE_FLAGS (pte : Nat) : Nat := pte &&& 0x3FF

def PX (level va : Nat) : Nat := va >>> (12 + 9 * level) &&& 0x1FF

/-- What the linker sets: the end of the kernel, and the page of `trampoline.S` in it. -/
structure Link where
  kend : Nat
  trampoline : Nat
  aligned : trampoline % PGSIZE = 0
  inside : KERNBASE ≤ trampoline ∧ trampoline + PGSIZE ≤ kend
  below : kend ≤ PHYSTOP

/-! ## Memory -/

structure Vm where
  mem : Nat → Nat → Nat
  freelist : Nat

abbrev V := StateT Vm (Except Stop)

def inRam (pa : Nat) : Bool := KERNBASE ≤ pa && pa < PHYSTOP

def fault : Stop := .panic "kerneltrap"

def load (pa i : Nat) : V Nat := do
  let s ← get
  if inRam pa then return s.mem pa i else throw fault

/-- Sets the contents of a page. -/
def setPage (pa : Nat) (f : Nat → Nat) : V Unit := do
  let s ← get
  if inRam pa then set { s with mem := put s.mem pa f } else throw fault

def store (pa i w : Nat) : V Unit := do
  let s ← get
  setPage pa (put (s.mem pa) i w)

def memset (pa c : Nat) : V Unit := setPage pa fun _ => c * 0x0101010101010101

/-- Copies a page. -/
def memmove (dst src : Nat) : V Unit := do
  let s ← get
  if inRam src then setPage dst (s.mem src) else throw fault

/-- The word after its byte `k` is set. -/
def setByte (w k : Nat) (b : UInt8) : Nat :=
  w / 256 ^ (k + 1) * 256 ^ (k + 1) + b.toNat * 256 ^ k + w % 256 ^ k

/-- The words of a page after the bytes are written from offset `off` on. -/
def patch (f : Nat → Nat) (off : Nat) : List UInt8 → Nat → Nat
  | [] => f
  | b :: bs => patch (put f (off / 8) (setByte (f (off / 8)) (off % 8) b)) (off + 1) bs

def poke (pa off : Nat) (bs : List UInt8) : V Unit := do
  let s ← get
  setPage pa (patch (s.mem pa) off bs)

def byte (f : Nat → Nat) (off : Nat) : UInt8 := UInt8.ofNat (f (off / 8) / 256 ^ (off % 8))

def peekByte (pa off : Nat) : V UInt8 := do
  let w ← load pa (off / 8)
  return byte (fun _ => w) off

/-- The `n` bytes of a page from offset `off` on. -/
def peek (pa off n : Nat) : V (List UInt8) := do
  let s ← get
  if inRam pa then return (List.range n).map fun i => byte (s.mem pa) (off + i) else throw fault

/-! ## `kalloc.c` -/

variable (ld : Link)

def kfree (pa : Nat) : V Unit :=
  if pa % PGSIZE ≠ 0 ∨ pa < ld.kend ∨ PHYSTOP ≤ pa then
    throw (.panic "kfree")
  else do
    memset pa 1
    let s ← get
    store pa 0 s.freelist
    modify fun s => { s with freelist := pa }

/-- A page of memory, or 0. -/
def kalloc : V Nat := do
  let s ← get
  let r := s.freelist
  if r = 0 then
    return 0
  else do
    let next ← load r 0
    modify fun s => { s with freelist := next }
    memset r 5
    return r

/-- The loop of `freerange`, for `n` pages. -/
def freerangeLoop : Nat → Nat → V Unit
  | 0, _ => return ()
  | n + 1, p => do
    kfree ld p
    freerangeLoop n (p + PGSIZE)

def freerange (pa_start pa_end : Nat) : V Unit :=
  freerangeLoop ld ((pa_end - PGROUNDUP pa_start) / PGSIZE) (PGROUNDUP pa_start)

def kinit : V Unit := freerange ld ld.kend PHYSTOP

/-! ## `walk` and `mappages` -/

/-- One level of `walk`: the page of the next level. -/
def walkLevel (pagetable i : Nat) (alloc : Bool) : V (Option Nat) := do
  let pte ← load pagetable i
  if pte &&& PTE_V ≠ 0 then
    return some (PTE2PA pte)
  else if alloc = false then
    return none
  else do
    let mem ← kalloc
    if mem = 0 then
      return none
    else do
      memset mem 0
      store pagetable i (PA2PTE mem ||| PTE_V)
      return some mem

/-- The place of the entry of `va`: a page and an index in it. -/
def walk (pagetable va : Nat) (alloc : Bool) : V (Option (Nat × Nat)) :=
  if MAXVA ≤ va then
    throw (.panic "walk")
  else do
    let r ← walkLevel pagetable (PX 2 va) alloc
    match r with
    | none => return none
    | some pagetable => do
      let r ← walkLevel pagetable (PX 1 va) alloc
      match r with
      | none => return none
      | some pagetable => return some (pagetable, PX 0 va)

def walkaddr (pagetable va : Nat) : V Nat :=
  if MAXVA ≤ va then
    return 0
  else do
    let r ← walk pagetable va false
    match r with
    | none => return 0
    | some (page, i) => do
      let pte ← load page i
      if pte &&& PTE_V = 0 then
        return 0
      else if pte &&& PTE_U = 0 then
        return 0
      else
        return PTE2PA pte

/-- The loop of `mappages`: the page at `a` and `n` more. It returns false where the source
returns -1. -/
def mappagesLoop (pagetable perm : Nat) : Nat → Nat → Nat → V Bool
  | n, a, pa => do
    let r ← walk pagetable a true
    match r with
    | none => return false
    | some (page, i) => do
      let pte ← load page i
      if pte &&& PTE_V ≠ 0 then
        throw (.panic "mappages: remap")
      else do
        store page i (PA2PTE pa ||| perm ||| PTE_V)
        match n with
        | 0 => return true
        | n + 1 => mappagesLoop pagetable perm n (a + PGSIZE) (pa + PGSIZE)

def mapRounds (a last : Nat) : Nat := if a ≤ last then (last - a) / PGSIZE else MAXVA / PGSIZE

def mappages (pagetable va size pa perm : Nat) : V Bool :=
  if size = 0 then
    throw (.panic "mappages: size")
  else
    mappagesLoop pagetable perm
      (mapRounds (PGROUNDDOWN va) (PGROUNDDOWN (uint64 (va + size - 1)))) (PGROUNDDOWN va) pa

/-! ## User memory -/

/-- The loop of `uvmunmap`, for `n` pages. -/
def uvmunmapLoop (pagetable : Nat) (do_free : Bool) : Nat → Nat → V Unit
  | 0, _ => return ()
  | n + 1, a => do
    let r ← walk pagetable a false
    match r with
    | none => throw (.panic "uvmunmap: walk")
    | some (page, i) => do
      let pte ← load page i
      if pte &&& PTE_V = 0 then
        throw (.panic "uvmunmap: not mapped")
      else if PTE_FLAGS pte = PTE_V then
        throw (.panic "uvmunmap: not a leaf")
      else do
        (if do_free = true then kfree ld (PTE2PA pte) else return ())
        store page i 0
        uvmunmapLoop pagetable do_free n (a + PGSIZE)

def rounds (a last : Nat) : Nat := (last - a + PGSIZE - 1) / PGSIZE

def uvmunmap (pagetable va npages : Nat) (do_free : Bool) : V Unit :=
  if va % PGSIZE ≠ 0 then
    throw (.panic "uvmunmap: not aligned")
  else
    uvmunmapLoop ld pagetable do_free (rounds va (uint64 (va + npages * PGSIZE))) va

def uvmcreate : V Nat := do
  let pagetable ← kalloc
  if pagetable = 0 then
    return 0
  else do
    memset pagetable 0
    return pagetable

/-- `src` is less than a page. -/
def uvmfirst (pagetable : Nat) (src : List UInt8) : V Unit :=
  if PGSIZE ≤ src.length then
    throw (.panic "uvmfirst: more than a page")
  else do
    let mem ← kalloc
    memset mem 0
    let _ ← mappages pagetable 0 PGSIZE mem (PTE_W ||| PTE_R ||| PTE_X ||| PTE_U)
    poke mem 0 src

def uvmdealloc (pagetable oldsz newsz : Nat) : V Nat :=
  if oldsz ≤ newsz then
    return oldsz
  else do
    (if PGROUNDUP newsz < PGROUNDUP oldsz then
      uvmunmap ld pagetable (PGROUNDUP newsz)
        (intOf ((PGROUNDUP oldsz - PGROUNDUP newsz) / PGSIZE)) true
    else
      return ())
    return newsz

/-- The loop of `uvmalloc`, for `n` pages. It returns false where the source returns 0. -/
def uvmallocLoop (pagetable oldsz xperm : Nat) : Nat → Nat → V Bool
  | 0, _ => return true
  | n + 1, a => do
    let mem ← kalloc
    if mem = 0 then do
      let _ ← uvmdealloc ld pagetable a oldsz
      return false
    else do
      memset mem 0
      let ok ← mappages pagetable a PGSIZE mem (PTE_R ||| PTE_U ||| xperm)
      if ok = false then do
        kfree ld mem
        let _ ← uvmdealloc ld pagetable a oldsz
        return false
      else
        uvmallocLoop pagetable oldsz xperm n (a + PGSIZE)

/-- The new size, or 0. -/
def uvmalloc (pagetable oldsz newsz xperm : Nat) : V Nat :=
  if newsz < oldsz then
    return oldsz
  else do
    let oldsz := PGROUNDUP oldsz
    let ok ← uvmallocLoop ld pagetable oldsz xperm (rounds oldsz newsz) oldsz
    return if ok = true then newsz else 0

/-- The loop of `freewalk` over the entries `is`; `rec` is the call for a lower table. -/
def freewalkLoop (rec : Nat → V Unit) (pagetable : Nat) : List Nat → V Unit
  | [] => return ()
  | i :: is => do
    let pte ← load pagetable i
    (if pte &&& PTE_V ≠ 0 ∧ pte &&& (PTE_R ||| PTE_W ||| PTE_X) = 0 then do
      rec (PTE2PA pte)
      store pagetable i 0
    else if pte &&& PTE_V ≠ 0 then
      throw (.panic "freewalk: leaf")
    else
      return ())
    freewalkLoop rec pagetable is

/-- `depth` nested calls fit in the kernel's stack; one more is a fault. -/
def freewalkDepth : Nat → Nat → V Unit
  | 0, _ => throw fault
  | depth + 1, pagetable => do
    freewalkLoop (freewalkDepth depth) pagetable (List.range NPTE)
    kfree ld pagetable

def freewalk (pagetable : Nat) : V Unit := freewalkDepth ld 16 pagetable

def uvmfree (pagetable sz : Nat) : V Unit := do
  (if 0 < sz then uvmunmap ld pagetable 0 (PGROUNDUP sz / PGSIZE) true else return ())
  freewalk ld pagetable

/-- The loop of `uvmcopy`, for `n` pages. It returns false where the source returns -1. -/
def uvmcopyLoop (old new : Nat) : Nat → Nat → V Bool
  | 0, _ => return true
  | n + 1, i => do
    let r ← walk old i false
    match r with
    | none => throw (.panic "uvmcopy: pte should exist")
    | some (page, k) => do
      let pte ← load page k
      if pte &&& PTE_V = 0 then
        throw (.panic "uvmcopy: page not present")
      else do
        let mem ← kalloc
        if mem = 0 then do
          uvmunmap ld new 0 (i / PGSIZE) true
          return false
        else do
          memmove mem (PTE2PA pte)
          let ok ← mappages new i PGSIZE mem (PTE_FLAGS pte)
          if ok = false then do
            kfree ld mem
            uvmunmap ld new 0 (i / PGSIZE) true
            return false
          else
            uvmcopyLoop old new n (i + PGSIZE)

def uvmcopy (old new sz : Nat) : V Bool := uvmcopyLoop ld old new (rounds 0 sz) 0

/-- The loop of `copytable`, for `n` pages. An entry that is not valid is skipped. -/
def copytableLoop (old new : Nat) : Nat → Nat → V Bool
  | 0, _ => return true
  | n + 1, i => do
    let r ← walk old i false
    match r with
    | none => throw (.panic "copytable: pte should exist")
    | some (page, k) => do
      let pte ← load page k
      if pte &&& PTE_V = 0 then
        copytableLoop old new n (i + PGSIZE)
      else do
        let ok ← mappages new i PGSIZE (PTE2PA pte) (PTE_FLAGS pte)
        if ok = false then do
          uvmunmap ld new 0 (i / PGSIZE) true
          return false
        else
          copytableLoop old new n (i + PGSIZE)

def copytable (old new sz : Nat) : V Bool := copytableLoop ld old new (rounds 0 sz) 0

def uvmclear (pagetable va : Nat) : V Unit := do
  let r ← walk pagetable va false
  match r with
  | none => throw (.panic "uvmclear")
  | some (page, i) => do
    let pte ← load page i
    store page i (pte &&& (2 ^ 64 - 1 - PTE_U))

/-- The loop of `copyout`. Every round copies a byte or more, so the length is enough fuel. -/
def copyoutLoop (pagetable : Nat) : Nat → Nat → List UInt8 → V Bool
  | 0, _, _ => return true
  | fuel + 1, dstva, src =>
    if src.length = 0 then
      return true
    else do
      let va0 := PGROUNDDOWN dstva
      let pa0 ← walkaddr pagetable va0
      if pa0 = 0 then
        return false
      else do
        let n := min (PGSIZE - (dstva - va0)) src.length
        poke pa0 (dstva - va0) (src.take n)
        copyoutLoop pagetable fuel (uint64 (va0 + PGSIZE)) (src.drop n)

def copyout (pagetable dstva : Nat) (src : List UInt8) : V Bool :=
  copyoutLoop pagetable src.length dstva src

/-- The loop of `copyin`: whether it succeeds, and the bytes that it wrote to its buffer. -/
def copyinLoop (pagetable : Nat) : Nat → Nat → Nat → V (Bool × List UInt8)
  | 0, _, _ => return (true, [])
  | fuel + 1, srcva, len =>
    if len = 0 then
      return (true, [])
    else do
      let va0 := PGROUNDDOWN srcva
      let pa0 ← walkaddr pagetable va0
      if pa0 = 0 then
        return (false, [])
      else do
        let n := min (PGSIZE - (srcva - va0)) len
        let bs ← peek pa0 (srcva - va0) n
        let (ok, rest) ← copyinLoop pagetable fuel (uint64 (va0 + PGSIZE)) (len - n)
        return (ok, bs ++ rest)

def copyin (pagetable srcva len : Nat) : V (Bool × List UInt8) :=
  copyinLoop pagetable len srcva len

/-- The inner loop of `copyinstr` over `n` bytes of a page: `got_null`, and the bytes that it
wrote. -/
def copyinstrPage (pa : Nat) : Nat → Nat → V (Bool × List UInt8)
  | 0, _ => return (false, [])
  | n + 1, off => do
    let c ← peekByte pa off
    if c = 0 then
      return (true, [0])
    else do
      let (got_null, rest) ← copyinstrPage pa n (off + 1)
      return (got_null, c :: rest)

/-- The loop of `copyinstr`. It returns true where the source returns 0, and the bytes that it
wrote to its buffer. -/
def copyinstrLoop (pagetable : Nat) : Nat → Nat → Nat → V (Bool × List UInt8)
  | 0, _, _ => return (false, [])
  | fuel + 1, srcva, max =>
    if max = 0 then
      return (false, [])
    else do
      let va0 := PGROUNDDOWN srcva
      let pa0 ← walkaddr pagetable va0
      if pa0 = 0 then
        return (false, [])
      else do
        let n := min (PGSIZE - (srcva - va0)) max
        let (got_null, bs) ← copyinstrPage pa0 n (srcva - va0)
        if got_null = true then
          return (true, bs)
        else do
          let (ok, rest) ← copyinstrLoop pagetable fuel (uint64 (va0 + PGSIZE)) (max - n)
          return (ok, bs ++ rest)

def copyinstr (pagetable srcva max : Nat) : V (Bool × List UInt8) :=
  copyinstrLoop pagetable max srcva max

end xv6.vm
