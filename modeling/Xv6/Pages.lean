-- What each page of memory is used for, and the free list. The allocator gives
-- a free page a use, and takes a page back from any other use.
import Xv6.Lib.Linked
import Xv6.Lib.Wp
import Xv6.Vm

open cells linked wp List

namespace xv6.vm

/-! ## Uses of pages -/

/-- A place in a page table: its root, the table of an entry of the root, or that of an entry
of such a table. -/
inductive Place where
  | root
  | mid (i : Nat)
  | low (i j : Nat)
  deriving DecidableEq

/-- What a page is used for: a place of the page table with root `r`, the trapframe of slot
`p`, memory of processes, an argument of `exec`, or the kernel itself. -/
inductive Use where
  | none
  | free
  | table (r : Nat) (pl : Place)
  | frame (p : Nat)
  | user
  | arg
  | kernel
  deriving DecidableEq

def IsPage (ld : Link) (x : Nat) : Prop := x % PGSIZE = 0 ∧ ld.kend ≤ x ∧ x < PHYSTOP

/-- The free list is `l`, and holds the free pages once each. -/
structure Heap (ld : Link) (use : Nat → Use) (l : List Nat) (v : Vm) : Prop where
  chain : Chain (fun x => v.mem x 0) v.freelist l
  nodup : l.Nodup
  mem_iff : ∀ x, x ∈ l ↔ use x = .free
  page : ∀ x, use x ≠ .none → IsPage ld x

variable {ld : Link} {use use' : Nat → Use} {l : List Nat} {v v' : Vm} {x y i w : Nat} {u : Use}
  {E : Stop → Prop}

lemma IsPage.ne_zero (h : IsPage ld x) : x ≠ 0 := by
  obtain ⟨_, h2, _⟩ := h
  have h3 := ld.inside
  have h4 : KERNBASE = 2147483648 := rfl
  omega

lemma IsPage.inRam (h : IsPage ld x) : inRam x = true := by
  obtain ⟨_, h2, h3⟩ := h
  have h4 := ld.inside
  have h5 : 0 < PGSIZE := by decide
  have h6 : KERNBASE ≤ x := by omega
  simp [vm.inRam, h3, h6]

lemma Heap.free_page (h : Heap ld use l v) (hx : use x = .free) : IsPage ld x :=
  h.page x (by rw [hx]; simp)

lemma Heap.congr (h : Heap ld use l v) (hlist : v'.freelist = v.freelist)
    (hmem : ∀ x, use x = .free → v'.mem x 0 = v.mem x 0) : Heap ld use l v' := by
  refine ⟨?_, h.nodup, h.mem_iff, h.page⟩
  rw [hlist]
  exact h.chain.congr fun x hx => hmem x ((h.mem_iff x).mp hx)

/-! ## Loads and stores -/

section access

variable {α : Type} {Q : α → Vm → Prop} {pa c : Nat}

def Vm.putPage (v : Vm) (pa : Nat) (f : Nat → Nat) : Vm := { v with mem := put v.mem pa f }

@[simp] lemma putPage_freelist (f : Nat → Nat) : (v.putPage pa f).freelist = v.freelist := rfl

@[simp] lemma putPage_self (f : Nat → Nat) : (v.putPage pa f).mem pa = f := put_self ..

@[simp] lemma putPage_of_ne (h : x ≠ pa) (f : Nat → Nat) : (v.putPage pa f).mem x = v.mem x :=
  put_of_ne h ..

@[simp] lemma putPage_putPage (f g : Nat → Nat) :
    (v.putPage pa f).putPage pa g = v.putPage pa g := by
  simp [Vm.putPage]

section

variable (h : inRam pa = true)
include h

lemma wp_load_bind (f : Nat → V α) :
    Wp (load pa i >>= f) Q E v ↔ Wp (f (v.mem pa i)) Q E v := by
  unfold load
  simp [h]

lemma wp_setPage_bind (g : Nat → Nat) (f : Unit → V α) :
    Wp (setPage pa g >>= f) Q E v ↔ Wp (f ()) Q E (v.putPage pa g) := by
  unfold setPage
  simp only [bind_assoc, wp_get_bind, h, if_true]
  exact wp_set_bind f

lemma wp_store_bind (f : Unit → V α) :
    Wp (store pa i w >>= f) Q E v ↔ Wp (f ()) Q E (v.putPage pa (put (v.mem pa) i w)) := by
  unfold store
  simp only [bind_assoc, wp_get_bind]
  exact wp_setPage_bind h _ f

lemma wp_store {Q : Unit → Vm → Prop} :
    Wp (store pa i w) Q E v ↔ Q () (v.putPage pa (put (v.mem pa) i w)) := by
  unfold store setPage
  simp only [wp_get_bind, h, if_true]
  exact wp_set

lemma wp_memset_bind (f : Unit → V α) :
    Wp (memset pa c >>= f) Q E v ↔
      Wp (f ()) Q E (v.putPage pa fun _ => c * 0x0101010101010101) :=
  wp_setPage_bind h _ f

lemma wp_memmove_bind {src : Nat} (hs : inRam src = true) (f : Unit → V α) :
    Wp (memmove pa src >>= f) Q E v ↔ Wp (f ()) Q E (v.putPage pa (v.mem src)) := by
  unfold memmove
  simp only [bind_assoc, wp_get_bind, hs, if_true]
  exact wp_setPage_bind h _ f

lemma wp_poke {off : Nat} {bs : List UInt8} {Q : Unit → Vm → Prop} :
    Wp (poke pa off bs) Q E v ↔ Q () (v.putPage pa (patch (v.mem pa) off bs)) := by
  unfold poke setPage
  simp only [wp_get_bind, h, if_true]
  exact wp_set

end

end access

lemma Heap.putPage (h : Heap ld use l v) (hx : use x ≠ .free) (f : Nat → Nat) :
    Heap ld use l (v.putPage x f) := by
  refine h.congr rfl fun y hy => ?_
  rw [putPage_of_ne]
  rintro rfl
  exact hx hy

lemma heap_empty (ld : Link) (mem : Nat → Nat → Nat) :
    Heap ld (fun _ => .none) [] { mem := mem, freelist := 0 } :=
  ⟨rfl, nodup_nil, by simp, by simp⟩

/-! ## The allocator -/

lemma wp_kalloc (h : Heap ld use l v) :
    Wp kalloc (fun x v' => (x = 0 ∧ l = [] ∧ v' = v) ∨
      ∃ l', l = x :: l' ∧ use x = .free ∧ IsPage ld x ∧ (∀ y, y ≠ x → v'.mem y = v.mem y) ∧
        ∀ u, u ≠ .free → Heap ld (put use x u) l' v') E v := by
  unfold kalloc
  rw [wp_get_bind]
  dsimp only
  split
  · rename_i h0
    have hc := h.chain
    rw [h0] at hc
    rw [wp_pure]
    exact .inl ⟨rfl, hc.nil_of_zero, rfl⟩
  · rename_i h0
    obtain ⟨l', hl⟩ := h.chain.head_ne h0
    have hfree : use v.freelist = .free := (h.mem_iff _).mp (by rw [hl]; exact mem_cons_self)
    have hpage := h.free_page hfree
    rw [wp_load_bind hpage.inRam, wp_modify_bind, wp_memset_bind hpage.inRam, wp_pure]
    right
    have hc := h.chain
    have hn := h.nodup
    rw [hl] at hc hn
    rw [nodup_cons] at hn
    refine ⟨l', hl, hfree, hpage, fun y hy => putPage_of_ne hy _, fun u hu => ⟨?_, hn.2, ?_, ?_⟩⟩
    · refine hc.2.2.congr fun y hy => ?_
      have hne : y ≠ v.freelist := fun he => hn.1 (he ▸ hy)
      exact congrFun (putPage_of_ne hne _) 0
    · intro y
      by_cases hy : y = v.freelist
      · rw [hy, put_self]
        exact iff_of_false hn.1 hu
      · rw [put_of_ne hy, ← h.mem_iff y, hl, mem_cons]
        exact ⟨.inr, fun h => h.resolve_left hy⟩
    · intro y hy
      by_cases hyx : y = v.freelist
      · rw [hyx]
        exact hpage
      · rw [put_of_ne hyx] at hy
        exact h.page y hy

lemma Heap.push (h : Heap ld use l v) (hx : IsPage ld x) (hu : use x ≠ .free)
    (hlist : v'.freelist = x) (hnext : v'.mem x 0 = v.freelist)
    (hmem : ∀ y, y ≠ x → v'.mem y = v.mem y) : Heap ld (put use x .free) (x :: l) v' := by
  have hnot : x ∉ l := fun hl => hu ((h.mem_iff x).mp hl)
  refine ⟨⟨hlist, hx.ne_zero, ?_⟩, nodup_cons.mpr ⟨hnot, h.nodup⟩, ?_, ?_⟩
  · dsimp only
    rw [hnext]
    refine h.chain.congr fun y hy => ?_
    have hne : y ≠ x := fun he => hnot (he ▸ hy)
    rw [hmem y hne]
  · intro y
    rw [mem_cons]
    by_cases hy : y = x
    · rw [hy, put_self]
      simp
    · rw [put_of_ne hy, ← h.mem_iff y]
      exact ⟨fun h => h.resolve_left hy, .inr⟩
  · intro y hy
    by_cases hyx : y = x
    · rw [hyx]
      exact hx
    · rw [put_of_ne hyx] at hy
      exact h.page y hy

lemma wp_kfree (h : Heap ld use l v) (hx : IsPage ld x) (hu : use x ≠ .free) :
    Wp (kfree ld x) (fun _ v' => Heap ld (put use x .free) (x :: l) v' ∧
      ∀ y, y ≠ x → v'.mem y = v.mem y) E v := by
  have hcond : ¬ (x % PGSIZE ≠ 0 ∨ x < ld.kend ∨ PHYSTOP ≤ x) := by
    obtain ⟨h1, h2, h3⟩ := hx
    omega
  unfold kfree
  rw [if_neg hcond, wp_memset_bind hx.inRam, wp_get_bind, wp_store_bind hx.inRam, wp_modify,
    putPage_putPage]
  have hmem : ∀ y, y ≠ x → (v.putPage x (put ((v.putPage x fun _ => 1 * 0x0101010101010101).mem x) 0
      (v.putPage x fun _ => 1 * 0x0101010101010101).freelist)).mem y = v.mem y :=
    fun y hy => putPage_of_ne hy _
  exact ⟨h.push hx hu rfl (by simp) hmem, hmem⟩

lemma wp_freerangeLoop {n p : Nat} (h : Heap ld use l v)
    (hp : ∀ j < n, IsPage ld (p + j * PGSIZE) ∧ use (p + j * PGSIZE) = .none) :
    Wp (freerangeLoop ld n p) (fun _ v' => ∃ use' l', Heap ld use' l' v' ∧
      l'.length = l.length + n ∧ (∀ j < n, use' (p + j * PGSIZE) = .free) ∧
      ∀ y, (∀ j < n, y ≠ p + j * PGSIZE) → use' y = use y) E v := by
  induction n generalizing p use l v with
  | zero =>
    unfold freerangeLoop
    rw [wp_pure]
    exact ⟨use, l, h, rfl, by simp, fun _ _ => rfl⟩
  | succ n ih =>
    obtain ⟨hpage, hnone⟩ := hp 0 (by omega)
    rw [Nat.zero_mul, Nat.add_zero] at hpage hnone
    have hnext : ∀ j, p + PGSIZE + j * PGSIZE = p + (j + 1) * PGSIZE := by
      intro j
      unfold PGSIZE
      omega
    refine (wp_kfree h hpage (by rw [hnone]; simp)).bind ?_
    rintro _ v1 ⟨hheap1, _⟩
    refine (ih hheap1 fun j hj => ?_).imp ?_
    · rw [hnext]
      refine ⟨(hp (j + 1) (by omega)).1, ?_⟩
      rw [put_of_ne, (hp (j + 1) (by omega)).2]
      unfold PGSIZE
      omega
    · rintro _ v2 ⟨use2, l2, hheap2, hlen, hfree, hother⟩
      refine ⟨use2, l2, hheap2, ?_, fun j hj => ?_, fun y hy => ?_⟩
      · rw [hlen, length_cons]
        omega
      · rcases j with _ | j
        · rw [Nat.zero_mul, Nat.add_zero, hother p, put_self]
          intro i _ hc
          unfold PGSIZE at hc
          omega
        · rw [← hnext]
          exact hfree j (by omega)
      · rw [hother y, put_of_ne]
        · have := hy 0 (by omega)
          omega
        · intro j hj
          rw [hnext]
          exact hy (j + 1) (by omega)

end xv6.vm
