-- A model of `user/umalloc.c`: the allocator of user programs. The headers of
-- all blocks are two fields at their address; `sbrk` is the kernel's answer,
-- about which nothing is known but that it gives fresh memory. The loops have a
-- number of rounds that depends on the memory obtained so far.
import Xv6.Lib.Cells
import Xv6.Lib.Intervals
import Xv6.Lib.Machine

open cells intervals

namespace xv6.umalloc

/-- The kernel's side: where the static `base` header lies, and what `sbrk` answers for so many
bytes, given the number of earlier calls and the regions obtained so far. -/
structure Env where
  base : Nat
  sbrk : Nat → List Span → Nat → Option Nat
  base_pos : 0 < base
  fresh : ∀ calls regions k a, 0 < k → k < 2 ^ 31 → sbrk calls regions k = some a →
    16 ∣ a ∧ base + 16 ≤ a ∧ ∀ r ∈ regions, Apart (a, k) r

/-- `s.ptr` and `s.size` of the header at each address, and the rover. -/
structure Heap where
  ptr : Nat → Nat
  size : Nat → Nat
  freep : Nat

/-- The heap, the regions obtained from `sbrk`, and the pointers that `malloc` returned and `free`
did not get yet, each with the number of bytes asked for. -/
structure Sys where
  heap : Heap
  regions : List Span
  calls : Nat
  live : List (Nat × Nat)

inductive Fail where
  | rounds
  deriving DecidableEq

abbrev M := StateT Sys (Except Fail)

def start (ptr size : Nat → Nat) : Sys := ⟨⟨ptr, size, 0⟩, [], 0, []⟩

def rounds (regions : List Span) : Nat := total regions / 16 + 1

def sbrk (e : Env) (k : Nat) : M (Option Nat) := do
  let s ← get
  match e.sbrk s.calls s.regions k with
  | none =>
    set { s with calls := s.calls + 1 }
    pure none
  | some a =>
    set { s with calls := s.calls + 1, regions := (a, k) :: s.regions }
    pure (some a)

/-! ## free -/

/-- The loop of `free`: the block behind which `bp` belongs. -/
def freeLoop (h : Heap) (bp : Nat) : Nat → Nat → Option Nat
  | 0, _ => none
  | k + 1, p =>
    if bp > p ∧ bp < h.ptr p then some p
    else if p ≥ h.ptr p ∧ (bp > p ∨ bp < h.ptr p) then some p
    else freeLoop h bp k (h.ptr p)

/-- Both joins of `free`: block `a` swallows `b` when it ends where `b` begins, and else it points
to it. -/
def Heap.link (h : Heap) (a b : Nat) : Heap :=
  if a + 16 * h.size a = b then
    { h with size := put h.size a ((h.size a + h.size b) % 2 ^ 32), ptr := put h.ptr a (h.ptr b) }
  else { h with ptr := put h.ptr a b }

def free (ap : Nat) : M Unit := do
  let s ← get
  let bp := ap - 16
  match freeLoop s.heap bp (rounds s.regions) s.heap.freep with
  | none => throw .rounds
  | some p =>
    let h := s.heap.link bp (s.heap.ptr p)
    let h := h.link p bp
    set { s with heap := { h with freep := p } }

/-! ## malloc -/

def coreUnits (nu : Nat) : Nat := if nu < 4096 then 4096 else nu

def morecore (e : Env) (nu : Nat) : M Nat := do
  match ← sbrk e (16 * coreUnits nu) with
  | none => pure 0
  | some hp =>
    modify fun s => { s with heap.size := put s.heap.size hp (coreUnits nu) }
    free (hp + 16)
    let s ← get
    pure s.heap.freep

/-- The end of a search: the block is taken out of the list, or its tail is cut off. -/
def take (nunits prevp p : Nat) : M Nat := do
  let s ← get
  let h := s.heap
  if h.size p = nunits then
    set { s with heap := { h with ptr := put h.ptr prevp (h.ptr p), freep := prevp } }
    pure (p + 16)
  else
    let h := { h with size := put h.size p (h.size p - nunits) }
    let q := p + 16 * h.size p
    let h := { h with size := put h.size q nunits }
    set { s with heap := { h with freep := prevp } }
    pure (q + 16)

def mallocLoop (e : Env) (nunits : Nat) : Nat → Nat → Nat → M Nat
  | 0, _, _ => throw .rounds
  | k + 1, prevp, p => do
    let s ← get
    if s.heap.size p ≥ nunits then take nunits prevp p
    else if p = s.heap.freep then
      let p ← morecore e nunits
      if p = 0 then pure 0
      else
        let s ← get
        mallocLoop e nunits k p (s.heap.ptr p)
    else mallocLoop e nunits k p (s.heap.ptr p)

def unitsFor (nbytes : Nat) : Nat := (nbytes + 16 - 1) / 16 + 1

/-- The base as a list of its own. -/
def Heap.init (h : Heap) (base : Nat) : Heap :=
  { ptr := put h.ptr base base, size := put h.size base 0, freep := base }

def malloc (e : Env) (nbytes : Nat) : M Nat := do
  let nunits := unitsFor nbytes
  let s ← get
  if s.heap.freep = 0 then set { s with heap := s.heap.init e.base }
  let s ← get
  mallocLoop e nunits (2 * rounds s.regions + coreUnits nunits) s.heap.freep
    (s.heap.ptr s.heap.freep)

/-! ## The program that uses the allocator -/

/-- What the program does: it asks for memory, gives it back, and writes to the bytes that it asked
for, where a header of the allocator may lie later. -/
inductive Call where
  | malloc (nbytes : Nat)
  | free (ap : Nat)
  | write (p n : Nat) (ptr size : Nat → Nat)

def Clear (p n x : Nat) : Prop := x + 16 ≤ p ∨ p + n ≤ x

instance (p n x : Nat) : Decidable (Clear p n x) :=
  inferInstanceAs (Decidable (x + 16 ≤ p ∨ p + n ≤ x))

/-- A request stays below 2^31 bytes, `free` gets a live pointer, and the program writes to its own
memory. -/
def Allowed (s : Sys) : Call → Prop
  | .malloc nbytes => 16 * unitsFor nbytes < 2 ^ 31
  | .free ap => ∃ n, (ap, n) ∈ s.live
  | .write p n _ _ => (p, n) ∈ s.live

def exec (e : Env) (s : Sys) : Call → Except Fail Sys
  | .malloc nbytes =>
    match (malloc e nbytes).run s with
    | .ok (p, t) => .ok (if p = 0 then t else { t with live := (p, nbytes) :: t.live })
    | .error f => .error f
  | .free ap =>
    match (free ap).run s with
    | .ok (_, t) => .ok { t with live := t.live.eraseP fun q => q.1 = ap }
    | .error f => .error f
  | .write p n ptr size =>
    .ok { s with
      heap.ptr := fun x => if Clear p n x then s.heap.ptr x else ptr x
      heap.size := fun x => if Clear p n x then s.heap.size x else size x }

/-- The states that a program reaches. -/
abbrev Run (e : Env) (ptr size : Nat → Nat) : Sys → Prop :=
  machine.Run (exec e) Allowed (start ptr size)

end xv6.umalloc
