-- How the functions of the memory can stop: with a panic of their own, never
-- in a lock. So a call that stops in a lock found it taken.
import Xv6.Lib.Wp
import Xv6.Proc

open wp

namespace xv6.vm

/-- The stops of `acquire` and `release`. -/
def LockStop : Stop → Prop
  | .sleep => True
  | .panic text => text = "acquire" ∨ text = "release" ∨ text = "pop_off"
  | .overrun => False

def OtherStop (e : Stop) : Prop := LockStop e ∨ e ∈ fileStops

/-- The function does not stop in a lock, nor in the file table. -/
def VmStops {α : Type} (m : V α) : Prop := ∀ v, Wp m (fun _ _ => True) (fun e => ¬ OtherStop e) v

variable {α β : Type} {ld : Link}

/-! ## Rules -/

@[grind ←] lemma stops_pure (a : α) : VmStops (pure a) := fun v => by
  rw [wp_pure]
  trivial

@[grind ←] lemma stops_throw {e : Stop} (h : ¬ OtherStop e) : VmStops (throw e : V α) := fun v => by
  rw [wp_throw]
  exact h

@[grind ←] lemma stops_get {f : Vm → V α} (h : ∀ v, VmStops (f v)) : VmStops (get >>= f) := fun v => by
  rw [wp_get_bind]
  exact h v v

@[grind ←] lemma stops_set (u : Vm) : VmStops (set u : V Unit) := fun v => by
  rw [wp_set]
  trivial

@[grind ←] lemma stops_modify (f : Vm → Vm) : VmStops (modify f : V Unit) := fun v => by
  rw [wp_modify]
  trivial

@[grind ←] lemma stops_bind {m : V α} {f : α → V β} (h : VmStops m) (hf : ∀ a, VmStops (f a)) :
    VmStops (m >>= f) :=
  fun v => (h v).bind fun a t _ => hf a t

@[grind =] lemma otherStop_panic (text : String) : OtherStop (.panic text) ↔
    text = "acquire" ∨ text = "release" ∨ text = "pop_off" ∨ text = "filedup" ∨
      text = "fileclose" ∨ text = "pipeclose" := by
  simp [OtherStop, LockStop, fileStops, or_assoc]

-- grind splits the cases of a program, and the rules take its binds apart
attribute [local grind =] fault

/-! ## Memory and the allocator -/

@[grind ←] lemma stops_load (pa i : Nat) : VmStops (load pa i) := by
  unfold load
  grind

@[grind ←] lemma stops_setPage (pa : Nat) (f : Nat → Nat) : VmStops (setPage pa f) := by
  unfold setPage
  grind

@[grind ←] lemma stops_store (pa i w : Nat) : VmStops (store pa i w) := by
  unfold store
  grind

@[grind ←] lemma stops_memset (pa c : Nat) : VmStops (memset pa c) := by
  unfold memset
  grind

@[grind ←] lemma stops_memmove (dst src : Nat) : VmStops (memmove dst src) := by
  unfold memmove
  grind

@[grind ←] lemma stops_kfree (pa : Nat) : VmStops (kfree ld pa) := by
  unfold kfree
  grind

@[grind ←] lemma stops_kalloc : VmStops kalloc := by
  unfold kalloc
  grind

/-! ## Page tables -/

@[grind ←] lemma stops_walkLevel (pagetable i : Nat) (alloc : Bool) :
    VmStops (walkLevel pagetable i alloc) := by
  unfold walkLevel
  grind

@[grind ←] lemma stops_walk (pagetable va : Nat) (alloc : Bool) :
    VmStops (walk pagetable va alloc) := by
  unfold walk
  grind

@[grind ←] lemma stops_mappagesLoop (pagetable perm n a pa : Nat) :
    VmStops (mappagesLoop pagetable perm n a pa) := by
  induction n generalizing a pa <;> unfold mappagesLoop <;> grind

@[grind ←] lemma stops_mappages (pagetable va size pa perm : Nat) :
    VmStops (mappages pagetable va size pa perm) := by
  unfold mappages
  grind

@[grind ←] lemma stops_uvmunmapLoop (pagetable : Nat) (do_free : Bool) (n a : Nat) :
    VmStops (uvmunmapLoop ld pagetable do_free n a) := by
  induction n generalizing a <;> unfold uvmunmapLoop <;> grind

@[grind ←] lemma stops_uvmunmap (pagetable va npages : Nat) (do_free : Bool) :
    VmStops (uvmunmap ld pagetable va npages do_free) := by
  unfold uvmunmap
  grind

@[grind ←] lemma stops_uvmcreate : VmStops uvmcreate := by
  unfold uvmcreate
  grind

@[grind ←] lemma stops_uvmdealloc (pagetable oldsz newsz : Nat) :
    VmStops (uvmdealloc ld pagetable oldsz newsz) := by
  unfold uvmdealloc
  grind

@[grind ←] lemma stops_uvmallocLoop (pagetable oldsz xperm n a : Nat) :
    VmStops (uvmallocLoop ld pagetable oldsz xperm n a) := by
  induction n generalizing a <;> unfold uvmallocLoop <;> grind

lemma stops_uvmalloc (pagetable oldsz newsz xperm : Nat) :
    VmStops (uvmalloc ld pagetable oldsz newsz xperm) := by
  unfold uvmalloc
  grind

lemma stops_freewalkLoop {rec : Nat → V Unit} (hrec : ∀ pa, VmStops (rec pa)) (pagetable : Nat)
    (is : List Nat) : VmStops (freewalkLoop rec pagetable is) := by
  induction is with
  | nil => exact stops_pure _
  | cons i is ih =>
    refine stops_bind (stops_load _ _) fun _ => stops_bind ?_ fun _ => ih
    grind

@[grind ←] lemma stops_freewalkDepth (depth pagetable : Nat) :
    VmStops (freewalkDepth ld depth pagetable) := by
  induction depth generalizing pagetable with
  | zero => exact stops_throw (by grind)
  | succ depth ih => exact stops_bind (stops_freewalkLoop ih _ _) fun _ => stops_kfree _

@[grind ←] lemma stops_uvmfree (pagetable sz : Nat) : VmStops (uvmfree ld pagetable sz) := by
  unfold uvmfree freewalk
  grind

lemma stops_copytableLoop (old new n i : Nat) : VmStops (copytableLoop ld old new n i) := by
  induction n generalizing i <;> unfold copytableLoop <;> grind

lemma stops_uvmcopyLoop (old new n i : Nat) : VmStops (uvmcopyLoop ld old new n i) := by
  induction n generalizing i with
  | zero => exact stops_pure _
  | succ n ih =>
    refine stops_bind (stops_walk _ _ _) ?_
    rintro (_ | ⟨page, k⟩)
    · grind
    · refine stops_bind (stops_load _ _) fun _ => ?_
      grind

lemma stops_copyframe (dst src : Nat) : VmStops (proc.copyframe dst src) := by
  unfold proc.copyframe
  grind

lemma stops_proc_pagetable (trapframe : Nat) : VmStops (proc.proc_pagetable ld trapframe) := by
  unfold proc.proc_pagetable
  grind

lemma stops_proc_freepagetable (pagetable sz : Nat) :
    VmStops (proc.proc_freepagetable ld pagetable sz) := by
  unfold proc.proc_freepagetable
  grind

@[grind ←] lemma stops_walkaddr (pagetable va : Nat) : VmStops (walkaddr pagetable va) := by
  unfold walkaddr
  grind

lemma stops_copyoutLoop (pagetable fuel dstva : Nat) (src : List UInt8) :
    VmStops (copyoutLoop pagetable fuel dstva src) := by
  induction fuel generalizing dstva src <;> unfold copyoutLoop <;> grind [poke]

end xv6.vm
