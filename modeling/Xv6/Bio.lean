-- The buffer cache of `bio.c`: NBUF buffers, and the order in which they were
-- last used. A block has at most one buffer, and a buffer that someone holds
-- or that the log has pinned is never given to another block.
import Xv6.Lib.Bytes
import Xv6.Param

open bytes Function List

namespace xv6.bio

/-- `struct buf`. The sleep-lock is the process that holds it. -/
structure Buf where
  valid : Bool
  dev : Nat
  blockno : Nat
  lock : Option Nat
  refcnt : Nat
  data : Bytes

/-- `bcache`: the buffers, and their indices from `head.next` to `head.prev`, so the most
recently used buffer is first. -/
structure Bcache where
  buf : Nat → Buf
  order : List Nat

def Bcache.set (bc : Bcache) (i : Nat) (b : Buf) : Bcache :=
  { bc with buf := update bc.buf i b }

/-- `binit` links each buffer in behind `head`, so the last one stands first. The buffers
themselves are zero, as static storage is. -/
def binit : Bcache where
  buf := fun _ => ⟨false, 0, 0, none, 0, fun _ => 0⟩
  order := (List.range NBUF).reverse

/-- The buffer that caches the block. -/
def Bcache.cached (bc : Bcache) (dev blockno : Nat) : Option Nat :=
  bc.order.find? fun i => (bc.buf i).dev == dev && (bc.buf i).blockno == blockno

/-- The least recently used buffer that nobody uses. -/
def Bcache.unused (bc : Bcache) : Option Nat :=
  bc.order.reverse.find? fun i => (bc.buf i).refcnt == 0

def bget (bc : Bcache) (dev blockno : Nat) : Except Stop (Nat × Bcache) :=
  match bc.cached dev blockno with
  | some i => .ok (i, bc.set i { bc.buf i with refcnt := (bc.buf i).refcnt + 1 })
  | none =>
    match bc.unused with
    | some i => .ok (i, bc.set i { bc.buf i with dev, blockno, valid := false, refcnt := 1 })
    | none => .error (.panic "bget: no buffers")

/-- `acquiresleep(&b->lock)` by process `p`. -/
def acquiresleep (bc : Bcache) (p i : Nat) : Except Stop Bcache :=
  match (bc.buf i).lock with
  | some _ => .error .sleep
  | none => .ok (bc.set i { bc.buf i with lock := some p })

/-- `bread` by process `p`: the buffer comes back locked, with the contents of the block. -/
def bread (disk : Nat → Bytes) (bc : Bcache) (p dev blockno : Nat) : Except Stop (Nat × Bcache) := do
  let (i, bc) ← bget bc dev blockno
  let bc ← acquiresleep bc p i
  if (bc.buf i).valid then
    return (i, bc)
  else
    return (i, bc.set i { bc.buf i with data := disk (bc.buf i).blockno, valid := true })

/-- `bwrite` by process `p`: the disk after the write. -/
def bwrite (disk : Nat → Bytes) (bc : Bcache) (p i : Nat) : Except Stop (Nat → Bytes) :=
  if (bc.buf i).lock = some p then
    .ok (update disk (bc.buf i).blockno (bc.buf i).data)
  else
    .error (.panic "bwrite")

/-- `brelse` by process `p`: a buffer that nobody waits for moves to the head of the list. -/
def brelse (bc : Bcache) (p i : Nat) : Except Stop Bcache :=
  if (bc.buf i).lock = some p then
    let b := { bc.buf i with lock := none, refcnt := (bc.buf i).refcnt - 1 }
    .ok { (bc.set i b) with order := if b.refcnt = 0 then i :: bc.order.erase i else bc.order }
  else
    .error (.panic "brelse")

def bpin (bc : Bcache) (i : Nat) : Bcache :=
  bc.set i { bc.buf i with refcnt := (bc.buf i).refcnt + 1 }

def bunpin (bc : Bcache) (i : Nat) : Bcache :=
  bc.set i { bc.buf i with refcnt := (bc.buf i).refcnt - 1 }

/-! ## What each function does -/

@[simp] lemma set_buf_self (bc : Bcache) (i : Nat) (b : Buf) : (bc.set i b).buf i = b := by
  simp [Bcache.set]

@[simp] lemma set_buf_ne (bc : Bcache) {i j : Nat} (b : Buf) (h : j ≠ i) :
    (bc.set i b).buf j = bc.buf j := by
  simp [Bcache.set, h]

@[simp] lemma set_buf_eq (bc : Bcache) (i : Nat) : bc.set i (bc.buf i) = bc := by
  simp [Bcache.set]

/-- Every buffer stands once in the order, and a block has at most one buffer. Device 0 is
no device: before its first use a buffer is in its name. -/
structure WF (bc : Bcache) : Prop where
  order : bc.order.Perm (List.range NBUF)
  unique : ∀ i j, i < NBUF → j < NBUF → (bc.buf i).dev ≠ 0 → (bc.buf i).dev = (bc.buf j).dev →
    (bc.buf i).blockno = (bc.buf j).blockno → i = j

lemma wf_binit : WF binit := by
  refine ⟨reverse_perm _, ?_⟩
  intro i j _ _ h0
  exact absurd rfl h0

variable {b dev i p : Nat} {bc bc' : Bcache} {disk : Nat → Bytes}

lemma WF.mem_order (h : WF bc) (i : Nat) : i ∈ bc.order ↔ i < NBUF := by
  rw [h.order.mem_iff, mem_range]

lemma WF.set (h : WF bc) {b : Buf} (hdev : b.dev = (bc.buf i).dev)
    (hblk : b.blockno = (bc.buf i).blockno) : WF (bc.set i b) := by
  have hsame : ∀ j, ((bc.set i b).buf j).dev = (bc.buf j).dev ∧
      ((bc.set i b).buf j).blockno = (bc.buf j).blockno := by
    intro j
    by_cases hj : j = i
    · subst hj; simp [hdev, hblk]
    · simp [hj]
  refine ⟨h.order, ?_⟩
  intro j k hj hk h0 h1 h2
  rw [(hsame j).1] at h0
  rw [(hsame j).1, (hsame k).1] at h1
  rw [(hsame j).2, (hsame k).2] at h2
  exact h.unique j k hj hk h0 h1 h2

lemma cached_some (h : WF bc) (hc : bc.cached dev b = some i) :
    i < NBUF ∧ (bc.buf i).dev = dev ∧ (bc.buf i).blockno = b := by
  have hp := find?_some hc
  simp only [Bool.and_eq_true, beq_iff_eq] at hp
  exact ⟨(h.mem_order i).mp (mem_of_find?_eq_some hc), hp⟩

lemma cached_none (h : WF bc) (hc : bc.cached dev b = none) (i : Nat)
    (hi : i < NBUF) : ¬ ((bc.buf i).dev = dev ∧ (bc.buf i).blockno = b) := by
  have := find?_eq_none.mp hc i ((h.mem_order i).mpr hi)
  simpa using this

lemma unused_some (h : WF bc) (hc : bc.unused = some i) :
    i < NBUF ∧ (bc.buf i).refcnt = 0 := by
  have hp := find?_some hc
  have hm := mem_of_find?_eq_some hc
  exact ⟨(h.mem_order i).mp (mem_reverse.mp hm), by simpa using hp⟩

lemma bread_ok (h : WF bc)
    (hr : bread disk bc p dev b = .ok (i, bc')) :
    i < NBUF ∧ (∀ j, j ≠ i → bc'.buf j = bc.buf j) ∧ bc'.order = bc.order ∧
      (bc.buf i).lock = none ∧
      (((bc.buf i).dev = dev ∧ (bc.buf i).blockno = b ∧
          bc'.buf i = ⟨true, dev, b, some p, (bc.buf i).refcnt + 1,
            if (bc.buf i).valid then (bc.buf i).data else disk b⟩) ∨
        ((bc.buf i).refcnt = 0 ∧
          (∀ j < NBUF, ¬ ((bc.buf j).dev = dev ∧ (bc.buf j).blockno = b)) ∧
          bc'.buf i = ⟨true, dev, b, some p, 1, disk b⟩)) := by
  simp only [bread, bget] at hr
  rcases hc : bc.cached dev b with _ | k
  · rw [hc] at hr
    rcases hu : bc.unused with _ | k
    · rw [hu] at hr; cases hr
    · rw [hu] at hr
      obtain ⟨hk, href⟩ := unused_some h hu
      simp only [bind, Except.bind, acquiresleep, set_buf_self] at hr
      rcases hl : (bc.buf k).lock with _ | q
      · simp only [hl, set_buf_self, pure, Except.pure] at hr
        cases hr
        refine ⟨hk, fun j hj => by simp [hj], rfl, hl, .inr ⟨href, cached_none h hc, by simp⟩⟩
      · simp only [hl] at hr
        cases hr
  · rw [hc] at hr
    obtain ⟨hk, hdev, hblk⟩ := cached_some h hc
    simp only [bind, Except.bind, acquiresleep, set_buf_self] at hr
    rcases hl : (bc.buf k).lock with _ | q
    · simp only [hl, set_buf_self] at hr
      split at hr
      · rename_i hv
        cases hr
        refine ⟨hk, fun j hj => by simp [hj], rfl, hl, .inl ⟨hdev, hblk, ?_⟩⟩
        simp [hv, hdev, hblk]
      · rename_i hv
        cases hr
        refine ⟨hk, fun j hj => by simp [hj], rfl, hl, .inl ⟨hdev, hblk, ?_⟩⟩
        simp [hv, hdev, hblk]
    · simp only [hl] at hr
      cases hr

lemma bwrite_ok {disk disk' : Nat → Bytes}
    (h : bwrite disk bc p i = .ok disk') :
    (bc.buf i).lock = some p ∧ disk' = update disk (bc.buf i).blockno (bc.buf i).data := by
  unfold bwrite at h
  split at h
  · cases h
    exact ⟨‹_›, rfl⟩
  · cases h

lemma brelse_ok (h : WF bc) (hi : i < NBUF)
    (hr : brelse bc p i = .ok bc') :
    (bc.buf i).lock = some p ∧
      bc'.buf i = { bc.buf i with lock := none, refcnt := (bc.buf i).refcnt - 1 } ∧
      (∀ j, j ≠ i → bc'.buf j = bc.buf j) ∧ WF bc' := by
  unfold brelse at hr
  split at hr
  · rename_i hl
    cases hr
    refine ⟨hl, by simp, fun j hj => by simp [hj], ?_⟩
    have hset := h.set (i := i)
      (b := { bc.buf i with lock := none, refcnt := (bc.buf i).refcnt - 1 }) rfl rfl
    refine ⟨?_, hset.unique⟩
    split
    · exact (perm_cons_erase ((h.mem_order i).mpr hi)).symm.trans h.order
    · exact h.order
  · cases hr

lemma WF.bread (h : WF bc)
    (hdev : dev ≠ 0) (hr : bread disk bc p dev b = .ok (i, bc')) : WF bc' := by
  obtain ⟨hi, hother, hord, _, hcase⟩ := bread_ok h hr
  have hblk : (bc'.buf i).dev = dev ∧ (bc'.buf i).blockno = b := by
    rcases hcase with ⟨_, _, h3⟩ | ⟨_, _, h3⟩ <;> simp [h3]
  -- no other buffer has the block: the old cache had it in buffer i, or nowhere
  have hfree : ∀ j < NBUF, j ≠ i → ¬ ((bc.buf j).dev = dev ∧ (bc.buf j).blockno = b) := by
    intro j hj hne hjb
    rcases hcase with ⟨h1, h2, _⟩ | ⟨_, h2, _⟩
    · exact hne (h.unique j i hj hi (by rw [hjb.1]; exact hdev) (by rw [hjb.1, h1])
        (by rw [hjb.2, h2]))
    · exact h2 j hj hjb
  refine ⟨hord ▸ h.order, ?_⟩
  intro j k hj hk h0 h1 h2
  by_cases hji : j = i
  · by_cases hki : k = i
    · rw [hji, hki]
    · subst hji
      rw [hblk.1, hother k hki] at h1
      rw [hblk.2, hother k hki] at h2
      exact absurd ⟨h1.symm, h2.symm⟩ (hfree k hk hki)
  · by_cases hki : k = i
    · subst hki
      rw [hblk.1, hother j hji] at h1
      rw [hblk.2, hother j hji] at h2
      exact absurd ⟨h1, h2⟩ (hfree j hj hji)
    · rw [hother j hji] at h0 h1 h2
      rw [hother k hki] at h1 h2
      exact h.unique j k hj hk h0 h1 h2

end xv6.bio
