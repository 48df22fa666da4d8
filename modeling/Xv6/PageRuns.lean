-- Runs of the page allocator. Its list runs through the free pages themselves,
-- and every page of the range it was given is free or with a client.
import Xv6.Pages

open cells linked wp

namespace xv6.vm

variable {ld : Link} {v v' : Vm} {pa_start pa_end n p r x : Nat} {out : List Nat}

/-- A whole page of the range. -/
def InRange (pa_start pa_end x : Nat) : Prop :=
  x % PGSIZE = 0 ∧ pa_start ≤ x ∧ x + PGSIZE ≤ pa_end

/-- The memories after `freerange` and any calls, with the pages that clients have. A client
frees and writes only pages it has. -/
inductive PageRun (ld : Link) (pa_start pa_end : Nat) : Vm → List Nat → Prop where
  | start {mem : Nat → Nat → Nat} {v : Vm} :
    (freerange ld pa_start pa_end).run { mem, freelist := 0 } = .ok ((), v) →
    PageRun ld pa_start pa_end v []
  | kalloc {v v' : Vm} {out : List Nat} {r : Nat} : PageRun ld pa_start pa_end v out →
    kalloc.run v = .ok (r, v') → PageRun ld pa_start pa_end v' (if r = 0 then out else r :: out)
  | kfree {v v' : Vm} {out : List Nat} {pa : Nat} : PageRun ld pa_start pa_end v out →
    pa ∈ out → (kfree ld pa).run v = .ok ((), v') → PageRun ld pa_start pa_end v' (out.erase pa)
  | write {v : Vm} {out : List Nat} {pa : Nat} (f : Nat → Nat) : PageRun ld pa_start pa_end v out →
    pa ∈ out → PageRun ld pa_start pa_end (v.putPage pa f) out

/-! ## What `freerange` takes -/

lemma wp_kfree_page : Wp (kfree ld x) (fun _ _ => IsPage ld x) (fun _ => True) v := by
  apply wp_ite
  · intro _
    rw [wp_throw]
    trivial
  · intro h
    refine wp_any.imp fun _ _ _ => ?_
    unfold IsPage
    omega

lemma wp_freerangeLoop_pages : Wp (freerangeLoop ld n p)
    (fun _ _ => ∀ j < n, IsPage ld (p + j * PGSIZE)) (fun _ => True) v := by
  induction n generalizing p v with
  | zero =>
    unfold freerangeLoop
    simp
  | succ n ih =>
    refine wp_kfree_page.bind fun _ v1 hpage => ih.imp fun _ _ hrest j hj => ?_
    cases j with
    | zero => simpa using hpage
    | succ j =>
      have := hrest j (by omega)
      rwa [show p + PGSIZE + j * PGSIZE = p + (j + 1) * PGSIZE by unfold PGSIZE; omega] at this

lemma inRange_iff (hstart : pa_start < 2 ^ 64)
    (hpages : ∀ j < (pa_end - PGROUNDUP pa_start) / PGSIZE,
      IsPage ld (PGROUNDUP pa_start + j * PGSIZE)) : InRange pa_start pa_end x ↔
    ∃ j < (pa_end - PGROUNDUP pa_start) / PGSIZE, x = PGROUNDUP pa_start + j * PGSIZE := by
  have hG : PGSIZE = 4096 := rfl
  have hup : PGROUNDUP pa_start = (pa_start + 4095) % 2 ^ 64 / 4096 * 4096 := rfl
  -- a wrap of `PGROUNDUP` gives page 0, which `kfree` refuses
  have hwrap : PGROUNDUP pa_start < pa_start → (pa_end - PGROUNDUP pa_start) / PGSIZE = 0 := by
    intro hlt
    by_contra hn
    apply (hpages 0 (Nat.pos_of_ne_zero hn)).ne_zero
    omega
  unfold InRange
  generalize PGROUNDUP pa_start = q at hup hwrap
  rw [hG] at hwrap ⊢
  constructor
  · rintro ⟨h1, h2, h3⟩
    exact ⟨(x - q) / 4096, by omega, by omega⟩
  · rintro ⟨j, hj, rfl⟩
    omega

/-! ## The pages of a run -/

/-- A page of the range is free or with a client. -/
structure Shared (ld : Link) (pa_start pa_end : Nat) (v : Vm) (out : List Nat) (use : Nat → Use)
    (l : List Nat) : Prop where
  heap : Heap ld use l v
  nodup : out.Nodup
  out_iff : ∀ x, x ∈ out ↔ use x = .user
  range : ∀ x, InRange pa_start pa_end x ↔ use x = .free ∨ use x = .user

lemma PageRun.shared (h : PageRun ld pa_start pa_end v out) (hstart : pa_start < 2 ^ 64) :
    ∃ use l, Shared ld pa_start pa_end v out use l := by
  induction h with
  | @start mem v hrun =>
    have hpages := (wp_freerangeLoop_pages).of_ok hrun
    obtain ⟨use, l, hheap, _, hfree, hother⟩ :=
      (wp_freerangeLoop (E := fun _ => True) (heap_empty ld mem) fun j hj =>
        ⟨hpages j hj, rfl⟩).of_ok hrun
    have hcase : ∀ x, InRange pa_start pa_end x ∧ use x = .free ∨
        ¬ InRange pa_start pa_end x ∧ use x = .none := by
      intro x
      rw [inRange_iff hstart hpages]
      by_cases hx : ∃ j < (pa_end - PGROUNDUP pa_start) / PGSIZE,
          x = PGROUNDUP pa_start + j * PGSIZE
      · obtain ⟨j, hj, rfl⟩ := hx
        exact .inl ⟨⟨j, hj, rfl⟩, hfree j hj⟩
      · exact .inr ⟨hx, hother x fun j hj he => hx ⟨j, hj, he⟩⟩
    refine ⟨use, l, hheap, List.nodup_nil, fun x => ?_, fun x => ?_⟩
    · rcases hcase x with ⟨_, hu⟩ | ⟨_, hu⟩ <;> simp [hu]
    · rcases hcase x with ⟨hx, hu⟩ | ⟨hx, hu⟩ <;> simp [hu, hx]
  | @kalloc v v' out r _ hrun ih =>
    obtain ⟨use, l, h⟩ := ih
    rcases (wp_kalloc (E := fun _ => True) h.heap).of_ok hrun with
      ⟨rfl, _, rfl⟩ | ⟨l', _, hfree, hpage, _, hheap⟩
    · exact ⟨use, l, h⟩
    · rw [if_neg hpage.ne_zero]
      have hnot : r ∉ out := by simp [h.out_iff, hfree]
      refine ⟨put use r .user, l', hheap .user (by simp), List.nodup_cons.mpr ⟨hnot, h.nodup⟩,
        fun x => ?_, fun x => ?_⟩
      · by_cases hx : x = r
        · simp [hx]
        · simp [hx, h.out_iff]
      · by_cases hx : x = r
        · simp [hx, h.range, hfree]
        · simp [hx, h.range]
  | @kfree v v' out pa _ hpa hrun ih =>
    obtain ⟨use, l, h⟩ := ih
    have huse := (h.out_iff pa).mp hpa
    have hheap := (wp_kfree (E := fun _ => True) h.heap (h.heap.page pa (by simp [huse]))
      (by simp [huse])).of_ok hrun
    refine ⟨_, _, hheap.1, h.nodup.erase pa, fun x => ?_, fun x => ?_⟩
    · by_cases hx : x = pa
      · simp [hx, h.nodup.not_mem_erase]
      · simp [hx, h.out_iff]
    · by_cases hx : x = pa
      · simp [hx, h.range, huse]
      · simp [hx, h.range]
  | @write v out pa f _ hpa ih =>
    obtain ⟨use, l, h⟩ := ih
    have huse := (h.out_iff pa).mp hpa
    exact ⟨use, l, h.heap.putPage (by simp [huse]) f, h.nodup, h.out_iff, h.range⟩

/-- At any point of a run the free list holds each free page once, the free pages and those of
clients are the whole pages of the range, and `kalloc` gives a page that no client has. -/
theorem pages_are_free_or_with_a_client (hstart : pa_start < 2 ^ 64)
    (h : PageRun ld pa_start pa_end v out) :
    (∃ l, Chain (fun x => v.mem x 0) v.freelist l ∧ l.Nodup ∧ out.Nodup ∧ (∀ x ∈ l, x ∉ out) ∧
      ∀ x, x ∈ l ∨ x ∈ out ↔ InRange pa_start pa_end x) ∧
    (∀ pa ∈ out, ∃ v', (kfree ld pa).run v = .ok ((), v')) ∧
    ∃ r v', kalloc.run v = .ok (r, v') ∧
      (r = 0 ∧ (∀ x, InRange pa_start pa_end x → x ∈ out) ∨
        r ≠ 0 ∧ InRange pa_start pa_end r ∧ r ∉ out ∧ PGROUNDUP ld.kend ≤ r ∧ r < PHYSTOP) := by
  obtain ⟨use, l, h⟩ := h.shared hstart
  refine ⟨⟨l, h.heap.chain, h.heap.nodup, h.nodup, fun x hx => ?_, fun x => ?_⟩, fun pa hpa => ?_, ?_⟩
  · simp [h.out_iff, (h.heap.mem_iff x).mp hx]
  · rw [h.heap.mem_iff, h.out_iff, h.range]
  · have huse := (h.out_iff pa).mp hpa
    obtain ⟨_, v', hrun, _⟩ := (wp_kfree h.heap (h.heap.page pa (by simp [huse]))
      (by simp [huse])).exists_ok
    exact ⟨v', hrun⟩
  · obtain ⟨r, v', hrun, hcase⟩ := (wp_kalloc h.heap).exists_ok
    refine ⟨r, v', hrun, ?_⟩
    rcases hcase with ⟨rfl, rfl, _⟩ | ⟨l', _, hfree, hpage, _, _⟩
    · left
      refine ⟨rfl, fun x hx => (h.out_iff x).mpr ?_⟩
      have hempty := h.heap.mem_iff x
      exact ((h.range x).mp hx).resolve_left (by simp [← hempty])
    · right
      refine ⟨hpage.ne_zero, (h.range r).mpr (Or.inl hfree), by simp [h.out_iff, hfree], ?_, hpage.2.2⟩
      obtain ⟨h1, h2, _⟩ := hpage
      unfold PGROUNDUP vm.uint64 PGSIZE at *
      omega

/-- A kernel that leaves one page. -/
def lastPage : Link where
  kend := PHYSTOP - PGSIZE
  trampoline := KERNBASE
  aligned := rfl
  inside := by decide
  below := by decide

theorem last_page_is_given : ∃ v r v', PageRun lastPage lastPage.kend PHYSTOP v [] ∧
    kalloc.run v = .ok (r, v') ∧ r ≠ 0 := by
  have hpage : ∀ j < 1, IsPage lastPage (lastPage.kend + j * PGSIZE) := by
    unfold IsPage
    decide
  obtain ⟨_, v, hrun, _⟩ := (wp_freerangeLoop (heap_empty lastPage fun _ _ => 0)
    fun j hj => ⟨hpage j hj, rfl⟩).exists_ok
  have hstart : PageRun lastPage lastPage.kend PHYSTOP v [] := .start hrun
  obtain ⟨_, _, r, v', hk, hcase⟩ := pages_are_free_or_with_a_client (by decide) hstart
  refine ⟨v, r, v', hstart, hk, ?_⟩
  rcases hcase with ⟨_, hall⟩ | ⟨hr, _⟩
  · have hin : InRange lastPage.kend PHYSTOP lastPage.kend := by
      unfold InRange
      decide
    exact absurd (hall _ hin) List.not_mem_nil
  · exact hr

end xv6.vm
