-- Whole runs of a program with the user allocator. In every state the free
-- list is one circle in the order of the addresses, the free and the live blocks
-- tile the memory obtained from the kernel, and every further call returns.
import Xv6.UmallocLaws

open cells cyclic intervals wp List

namespace xv6.umalloc

variable {e : Env} {s t : Sys} {F B : List Span} {b : Span} {n p : Nat} {ptr size : Nat → Nat}

/-! ## The calls of the program -/

def Fits (q : Nat × Nat) (b : Span) : Prop := q.1 = b.1 + 16 ∧ q.2 + 16 ≤ b.2

/-- The state before the first `malloc`, and every state after it. -/
def Inv (e : Env) (s : Sys) (B : List Span) : Prop :=
  (s.heap.freep = 0 ∧ s.regions = [] ∧ B = []) ∨ ∃ F, Good e s F B

lemma good_init (hr : s.regions = []) :
    Good e { s with heap := s.heap.init e.base } [] [] := by
  refine ⟨⟨?_, ?_, trivial⟩, mem_cons_self, by simp, ⟨?_, ?_, by simp, ?_⟩, ?_⟩
  · exact put_self _ _ _
  · unfold Heap.init
    dsimp only
    rw [put_self]
  · exact pairwise_singleton _ _
  · dsimp only
    rw [hr]
    exact ⟨List.Pairwise.nil, fun _ => Iff.rfl, rfl⟩
  · dsimp only
    rw [hr]
    simp
  · dsimp only
    rw [hr]
    decide

/-- The free blocks are `F`; before the first `malloc` there are none. -/
def Listed (e : Env) (s : Sys) (F B : List Span) : Prop :=
  (s.heap.freep = 0 ∧ F = []) ∨ Good e s F B

lemma wp_malloc (hi : Inv e s B) (he : e.Bounded)
    (hfresh : e.Fresh s (16 * coreUnits (unitsFor n))) :
    ∃ F, Listed e s F B ∧ Wp (malloc e n) (Ended e s (unitsFor n) F B) (fun _ => False) s := by
  have hpos : 0 < unitsFor n := Nat.succ_pos _
  unfold malloc
  rcases hi with ⟨h0, hr, rfl⟩ | ⟨F, hg⟩
  · refine ⟨[], .inl ⟨h0, rfl⟩, ?_⟩
    rw [wp_get_bind, if_pos h0, wp_set_bind, wp_get_bind]
    exact wp_mallocLoop (good_init hr) he hpos hfresh
  · refine ⟨F, .inr hg, ?_⟩
    rw [wp_get_bind, if_neg hg.freep_pos, wp_get_bind]
    exact wp_mallocLoop hg he hpos hfresh

lemma le_unitsFor (n : Nat) : n + 16 ≤ 16 * unitsFor n := by
  unfold unitsFor
  omega

lemma Good.with_live (hg : Good e s F B) (live : List (Nat × Nat)) :
    Good e { s with live := live } F B :=
  { hg with }

lemma exec_malloc (hf : List.Forall₂ Fits s.live B) (hi : Inv e s B) (he : e.Bounded)
    (hn : 16 * unitsFor n < 2 ^ 31) :
    ∃ t B', exec e s (.malloc n) = .ok t ∧ List.Forall₂ Fits t.live B' ∧ Inv e t B' := by
  obtain ⟨F, _, hw⟩ := wp_malloc hi he (e.fresh_of_lt s hn)
  obtain ⟨p, t, hrun, hlive, hend⟩ := hw.exists_ok
  have hexec : exec e s (.malloc n) =
      .ok (if p = 0 then t else { t with live := (p, n) :: t.live }) := by
    unfold exec
    simp only
    rw [hrun]
  rw [hexec]
  rcases hend with ⟨rfl, _, _, _, F', hg⟩ | ⟨F', a, rfl, hg, _⟩
  · rw [if_pos rfl]
    refine ⟨t, B, rfl, ?_, .inr ⟨F', hg⟩⟩
    rw [hlive]
    exact hf
  · rw [if_neg (Nat.succ_ne_zero _)]
    refine ⟨_, (a, 16 * unitsFor n) :: B, rfl, ?_, .inr ⟨F', hg.with_live _⟩⟩
    rw [hlive]
    exact .cons ⟨rfl, le_unitsFor n⟩ hf

variable {live : List (Nat × Nat)}

lemma block_of_live (hf : List.Forall₂ Fits live B)
    (hp : (p, n) ∈ live) : ∃ b B', b.1 + 16 = p ∧ B.Perm (b :: B') ∧
      List.Forall₂ Fits (live.eraseP fun q => q.1 = p) B' := by
  induction hf with
  | nil => cases hp
  | @cons q b live B hq hf ih =>
    by_cases he : q.1 = p
    · refine ⟨b, B, hq.1.symm.trans he, List.Perm.refl _, ?_⟩
      rw [eraseP_cons_of_pos (by simpa using he)]
      exact hf
    · have hmem : (p, n) ∈ live := by
        rcases mem_cons.mp hp with heq | hmem
        · exact absurd (congrArg Prod.fst heq).symm he
        · exact hmem
      obtain ⟨b', B', h1, h2, h3⟩ := ih hmem
      refine ⟨b', b :: B', h1, (h2.cons b).trans (List.Perm.swap b' b B'), ?_⟩
      rw [eraseP_cons_of_neg (by simpa using he)]
      exact .cons hq h3

lemma fits_of_live {q : Nat × Nat} (hf : List.Forall₂ Fits live B)
    (hq : q ∈ live) : ∃ b ∈ B, Fits q b := by
  induction hf with
  | nil => cases hq
  | @cons q' b live B hq' hf ih =>
    rcases mem_cons.mp hq with rfl | hq
    · exact ⟨b, mem_cons_self, hq'⟩
    · obtain ⟨c, hc, hfits⟩ := ih hq
      exact ⟨c, mem_cons_of_mem b hc, hfits⟩

lemma Inv.good (hi : Inv e s B) (hb : b ∈ B) : ∃ F, Good e s F B := by
  rcases hi with ⟨_, _, rfl⟩ | hg
  · cases hb
  · exact hg

lemma exec_free (hf : List.Forall₂ Fits s.live B) (hi : Inv e s B) (hp : (p, n) ∈ s.live) :
    ∃ t B', exec e s (.free p) = .ok t ∧ List.Forall₂ Fits t.live B' ∧ Inv e t B' := by
  obtain ⟨b, B', rfl, hperm, hf'⟩ := block_of_live hf hp
  obtain ⟨F, hg⟩ := hi.good (hperm.mem_iff.mpr mem_cons_self)
  obtain ⟨_, t, hrun, hlive, _, F', hg', _⟩ := (wp_free (hg.perm hperm)).exists_ok
  have hexec : exec e s (.free (b.1 + 16)) =
      .ok { t with live := t.live.eraseP fun q => q.1 = b.1 + 16 } := by
    unfold exec
    simp only
    rw [hrun]
  refine ⟨_, B', hexec, ?_, .inr ⟨F', hg'.with_live _⟩⟩
  rw [hlive]
  exact hf'

lemma Good.clear (hg : Good e s F (b :: B)) (hn : n + 16 ≤ b.2) :
    (∀ c ∈ (e.base, 0) :: F, Clear (b.1 + 16) n c.1) ∧ ∀ c ∈ b :: B, Clear (b.1 + 16) n c.1 := by
  have hb : b ∈ F ++ b :: B := by simp
  have hunit := hg.laid.units
  -- another block lies before the header of `b` or behind its end
  have hother : ∀ c ∈ F ++ b :: B, Apart c b → Clear (b.1 + 16) n c.1 := by
    intro c hc hap
    have h1 := hunit c hc
    have h2 := hunit b hb
    have hne := hap.ne (by omega) (by omega)
    unfold Clear
    rcases Nat.lt_or_gt_of_ne hne with hlt | hgt
    · have := hap.le hlt (by omega)
      omega
    · have := hap.symm.le hgt (by omega)
      omega
  obtain ⟨_, h1, h2⟩ := pairwise_append.mp hg.laid.tiles.apart
  obtain ⟨h3, _⟩ := pairwise_cons.mp h1
  constructor
  · intro c hc
    rcases mem_cons.mp hc with rfl | hc
    · have := hg.laid.block_above hb
      unfold Clear
      omega
    · exact hother c (mem_append_left _ hc) (h2 c hc b mem_cons_self)
  · intro c hc
    rcases mem_cons.mp hc with rfl | hc
    · exact .inl (le_refl _)
    · exact hother c (by simp [hc]) (h3 c hc).symm

lemma exec_write (hf : List.Forall₂ Fits s.live B) (hi : Inv e s B) (hp : (p, n) ∈ s.live)
    (ptr size : Nat → Nat) :
    ∃ t B', exec e s (.write p n ptr size) = .ok t ∧ List.Forall₂ Fits t.live B' ∧ Inv e t B' := by
  obtain ⟨b, hb, h1, h2⟩ := fits_of_live hf hp
  dsimp only at h1 h2
  subst h1
  obtain ⟨F, hg⟩ := hi.good hb
  obtain ⟨B', hperm⟩ : ∃ B', B.Perm (b :: B') := ⟨B.erase b, perm_cons_erase hb⟩
  obtain ⟨hclear, hclear'⟩ := (hg.perm hperm).clear h2
  refine ⟨_, B, rfl, hf, .inr ⟨F, ?_, hg.rover, ?_, hg.laid, hg.small⟩⟩
  · apply hg.seg.congr
    · intro c hc
      exact if_pos (hclear c hc)
    · intro c hc
      exact if_pos (hclear c hc)
  · intro c hc
    have hcl := hclear' c (hperm.mem_iff.mp hc)
    dsimp only
    rw [if_pos hcl]
    exact hg.sizes c hc

lemma exec_inv {c : Call} (hf : List.Forall₂ Fits s.live B) (hi : Inv e s B) (he : e.Bounded)
    (hc : Allowed s c) :
    ∃ t B', exec e s c = .ok t ∧ List.Forall₂ Fits t.live B' ∧ Inv e t B' := by
  cases c with
  | malloc n => exact exec_malloc hf hi he hc
  | free p =>
    obtain ⟨n, hn⟩ := hc
    exact exec_free hf hi hn
  | write p n ptr size => exact exec_write hf hi hc ptr size

lemma Run.inv (he : e.Bounded) (hr : Run e ptr size s) :
    ∃ B, List.Forall₂ Fits s.live B ∧ Inv e s B := by
  apply machine.Run.invariant hr
  · exact ⟨[], .nil, .inl ⟨rfl, rfl, rfl⟩⟩
  · intro s c t hs hc hexec
    obtain ⟨B, hf, hi⟩ := hs
    obtain ⟨t', B', hexec', hf', hi'⟩ := exec_inv hf hi he hc
    rw [hexec] at hexec'
    cases hexec'
    exact ⟨B', hf', hi'⟩

/-! ## What holds of every state -/

def blockAt (h : Heap) (a : Nat) : Span := (a, 16 * h.size a)

def header (q : Nat × Nat) : Nat := q.1 - 16

def blocks (s : Sys) (F : List Nat) : List Span :=
  (F ++ s.live.map header).map (blockAt s.heap)

/-- The free list is the base and the blocks at the addresses `F`. -/
structure Sound (e : Env) (s : Sys) (F : List Nat) : Prop where
  cycle : Cyclic s.heap.ptr e.base F
  rover : s.heap.freep ∈ e.base :: F
  sorted : (e.base :: F).Pairwise (· < ·)
  wrap : ∃! a, a ∈ e.base :: F ∧ s.heap.ptr a ≤ a
  apart : (blocks s F).Pairwise Apart
  cover : ∀ x, (∃ b ∈ blocks s F, x ∈ points b) ↔ ∃ r ∈ s.regions, x ∈ points r
  gaps : ∀ a ∈ F, ∀ b ∈ F, a + 16 * s.heap.size a ≠ b

/-- The bytes asked for lie in the block of the pointer, and in memory obtained from `sbrk`. -/
def Holds (s : Sys) (q : Nat × Nat) : Prop :=
  q.1 + q.2 ≤ header q + 16 * s.heap.size (header q) ∧
    ∀ x, q.1 ≤ x → x < q.1 + q.2 → ∃ r ∈ s.regions, x ∈ points r

lemma headers_eq (hf : List.Forall₂ Fits live B) :
    live.map header = B.map Prod.fst := by
  induction hf with
  | nil => rfl
  | cons hq _ ih => rw [map_cons, map_cons, ih, header, hq.1, Nat.add_sub_cancel]

lemma blocks_eq (hg : Good e s F B) (hf : List.Forall₂ Fits s.live B) :
    blocks s (F.map Prod.fst) = F ++ B := by
  have hblock : ∀ c ∈ F ++ B, blockAt s.heap c.1 = c := by
    intro c hc
    unfold blockAt
    rcases mem_append.mp hc with hc | hc
    · rw [hg.seg.size (mem_cons_of_mem _ hc)]
    · rw [hg.sizes c hc]
  unfold blocks
  rw [headers_eq hf, ← map_append, map_map]
  exact (map_congr_left hblock).trans (map_id _)

lemma Good.wrap (hg : Good e s F B) :
    ∃! a, a ∈ e.base :: F.map Prod.fst ∧ s.heap.ptr a ≤ a := by
  obtain ⟨u, p, hF⟩ := eq_nil_or_concat' ((e.base, 0) :: F) |>.resolve_left (by simp)
  have hle : ∀ c ∈ (e.base, 0) :: F, e.base ≤ c.1 := by
    intro c hc
    rcases mem_cons.mp hc with rfl | hc
    · exact le_refl _
    · exact le_of_lt ((pairwise_cons.mp hg.laid.gapped).1 c hc)
  refine ⟨p.1, ⟨?_, ?_⟩, ?_⟩
  · change p.1 ∈ ((e.base, 0) :: F).map Prod.fst
    rw [hF]
    simp
  · rw [(hg.around hF).2.1]
    exact hle p (by rw [hF]; simp)
  · intro a ha
    obtain ⟨u', q, v, hq, hF'⟩ := split_at ha.1
    have hptr := (hg.around hF').2.1
    cases v with
    | nil =>
      rw [hF] at hF'
      have := (append_inj' hF' rfl).2
      rw [← hq, singleton_inj.mp this]
    | cons c v =>
      have hgap := hg.laid.gapped
      rw [hF'] at hgap
      have hlt := (pairwise_cons.mp (pairwise_append.mp hgap).2.1).1 c mem_cons_self
      have hback := ha.2
      rw [← hq, hptr] at hback
      simp only [first] at hback
      omega

lemma Good.sound (hg : Good e s F B) (hf : List.Forall₂ Fits s.live B) :
    Sound e s (F.map Prod.fst) := by
  have hgap := hg.laid.gapped
  refine ⟨hg.cyclic, hg.rover, ?_, hg.wrap, ?_, ?_, ?_⟩
  · change (((e.base, 0) :: F).map Prod.fst).Pairwise (· < ·)
    rw [pairwise_map]
    exact hgap.imp fun h => lt_of_le_of_lt (Nat.le_add_right _ _) h
  · rw [blocks_eq hg hf]
    exact hg.laid.tiles.apart
  · rw [blocks_eq hg hf]
    exact hg.laid.tiles.cover
  · intro a ha b hb
    obtain ⟨c, hc, rfl⟩ := mem_map.mp ha
    obtain ⟨d, hd, rfl⟩ := mem_map.mp hb
    rw [hg.seg.size (mem_cons_of_mem _ hc)]
    obtain ⟨u, v, rfl⟩ := append_of_mem hc
    have hunit := hg.laid.units c (by simp)
    have hgap' := (pairwise_cons.mp hgap).2
    obtain ⟨_, h1, h2⟩ := pairwise_append.mp hgap'
    rcases mem_append.mp hd with hd | hd
    · have := h2 d hd c mem_cons_self
      omega
    · rcases mem_cons.mp hd with rfl | hd
      · omega
      · have := (pairwise_cons.mp h1).1 d hd
        omega

lemma Good.holds (hg : Good e s F B) (hf : List.Forall₂ Fits s.live B) {q : Nat × Nat}
    (hq : q ∈ s.live) : Holds s q := by
  obtain ⟨b, hb, h1, h2⟩ := fits_of_live hf hq
  unfold Holds header
  rw [h1, Nat.add_sub_cancel, hg.sizes b hb]
  refine ⟨by omega, ?_⟩
  intro x hx hlt
  rw [← hg.laid.tiles.cover]
  refine ⟨b, mem_append_right F hb, ?_⟩
  rw [mem_points]
  omega

/-- In every state of every run the free list is one circle through the base, in the order of the
addresses with one wrap point; the free and the live blocks share no byte, together they are the
memory obtained from `sbrk`, and no two free blocks touch; every pointer returned has the bytes
asked for in that memory; and every call returns. Before the first call there is no list. -/
theorem allocator_keeps_its_memory (e : Env) (he : e.Bounded) (ptr size : Nat → Nat) (s : Sys)
    (hr : Run e ptr size s) :
    ((s.heap.freep = 0 ∧ s.regions = [] ∧ s.live = []) ∨ ∃ F, Sound e s F) ∧
      (∀ q ∈ s.live, Holds s q) ∧ ∀ c, Allowed s c → ∃ t, exec e s c = .ok t := by
  obtain ⟨B, hf, hi⟩ := Run.inv he hr
  refine ⟨?_, ?_, ?_⟩
  · rcases hi with ⟨h0, hregions, rfl⟩ | ⟨F, hg⟩
    · exact .inl ⟨h0, hregions, List.forall₂_nil_right_iff.mp hf⟩
    · exact .inr ⟨_, hg.sound hf⟩
  · intro q hq
    obtain ⟨b, hb, _⟩ := fits_of_live hf hq
    obtain ⟨F, hg⟩ := hi.good hb
    exact hg.holds hf hq
  · intro c hc
    obtain ⟨t, _, hexec, _⟩ := exec_inv hf hi he hc
    exact ⟨t, hexec⟩

/-! ## Some runs -/

/-- A kernel that gives memory upwards from 65536, less than `limit` bytes in all. -/
def bump (limit : Nat) : Env where
  base := 4096
  sbrk _ regions k :=
    if 16 ∣ total regions ∧ total regions + k < limit ∧
      ∀ r ∈ regions, r.1 + r.2 ≤ 65536 + total regions then some (65536 + total regions) else none
  base_pos := by decide
  fresh := by
    intro calls regions k a _ _ h
    rw [Option.ite_none_right_eq_some] at h
    obtain ⟨⟨h1, _, h3⟩, h⟩ := h
    rw [Option.some.injEq] at h
    refine ⟨by omega, by omega, ?_⟩
    intro r hr
    rw [apart_iff]
    intro x hx hxr
    rw [mem_points] at hx hxr
    have := h3 r hr
    dsimp only at hx
    omega

lemma bump_bounded : (bump (2 ^ 36)).Bounded := by
  intro calls regions k a h
  unfold bump at h
  dsimp only at h
  rw [Option.ite_none_right_eq_some] at h
  exact h.1.2.1

/-- Checks that a call without a write is allowed. -/
def may (s : Sys) : Call → Bool
  | .malloc nbytes => 16 * unitsFor nbytes < 2 ^ 31
  | .free ap => s.live.any fun q => q.1 = ap
  | .write _ _ _ _ => false

lemma allowed_of_may (s : Sys) (c : Call) (h : may s c = true) : Allowed s c := by
  cases c with
  | malloc n =>
    unfold may at h
    rw [decide_eq_true_eq] at h
    exact h
  | free p =>
    unfold may at h
    rw [any_eq_true] at h
    obtain ⟨q, hq, he⟩ := h
    refine ⟨q.2, ?_⟩
    rw [← of_decide_eq_true he]
    exact hq
  | write p n ptr size => cases h

lemma exists_run (e : Env) (cs : List Call) (test : Sys → Bool)
    (h : (machine.play (exec e) may cs (start (fun _ => 0) fun _ => 0)).any test = true) :
    ∃ s, Run e (fun _ => 0) (fun _ => 0) s ∧ test s = true :=
  machine.exists_played _ _ _ cs may test allowed_of_may h

/-- Two blocks of one region each are given back and become one free block; the next request is
larger than a region. -/
def acrossRegions : List Call :=
  [.malloc 65520, .malloc 65520, .free 65552, .free 131088, .malloc 65600]

/-- Blocks of 2^31 - 32 bytes, 33 of them, and then all of them are given back. -/
def allGivenBack : List Call :=
  List.replicate 33 (.malloc 2147483600) ++
    (List.range 33).map fun i => .free (65552 + i * 2147483616)

theorem allocator_keeps_its_memory_across : ∃ s, Run (bump (2 ^ 36)) (fun _ => 0) (fun _ => 0) s ∧
    s.live = [(131008, 65600)] ∧ Holds s (131008, 65600) := by
  obtain ⟨s, hr, ht⟩ := exists_run (bump (2 ^ 36)) acrossRegions
    (fun s => s.live = [(131008, 65600)]) (by decide +kernel)
  have hlive := of_decide_eq_true ht
  have hkeeps := allocator_keeps_its_memory _ bump_bounded _ _ s hr
  refine ⟨s, hr, hlive, hkeeps.2.1 _ ?_⟩
  rw [hlive]
  exact List.mem_singleton_self _

lemma Sound.one_block {F : List Nat} {a : Nat} (hs : Sound e s F) (h1 : s.heap.ptr e.base = a)
    (h2 : s.heap.ptr a = e.base) (hne : a ≠ e.base) : F = [a] := by
  have hcycle := hs.cycle
  have hsorted := hs.sorted
  unfold Cyclic at hcycle
  cases F with
  | nil =>
    rw [nil_append, isChain_pair, h1] at hcycle
    exact absurd hcycle hne
  | cons b F =>
    rw [cons_append, isChain_cons_cons, h1] at hcycle
    obtain ⟨rfl, hchain⟩ := hcycle
    cases F with
    | nil => rfl
    | cons c F =>
      rw [cons_append, isChain_cons_cons, h2] at hchain
      have hlt := (pairwise_cons.mp hsorted).1 c (by simp)
      omega

/-- A pointer need not lie in one region: the bytes may stand in two that touch. And where the
kernel gives 2^36 bytes, the size of a free block runs over and the memory is lost. -/
theorem one_region_and_no_bound_fail :
    (∃ s, Run (bump (2 ^ 36)) (fun _ => 0) (fun _ => 0) s ∧
      ∃ q ∈ s.live, ∀ r ∈ s.regions, ¬ (r.1 ≤ q.1 ∧ q.1 + q.2 ≤ r.1 + r.2)) ∧
    ∃ s, Run (bump (2 ^ 37)) (fun _ => 0) (fun _ => 0) s ∧ s.heap.freep ≠ 0 ∧
      ¬ ∃ F, Sound (bump (2 ^ 37)) s F := by
  constructor
  · obtain ⟨s, hr, ht⟩ := exists_run (bump (2 ^ 36)) acrossRegions
      (fun s => s.live = [(131008, 65600)] ∧ s.regions = [(131072, 65536), (65536, 65536)])
      (by decide +kernel)
    obtain ⟨hlive, hregions⟩ := of_decide_eq_true ht
    refine ⟨s, hr, (131008, 65600), by rw [hlive]; exact List.mem_singleton_self _, ?_⟩
    rw [hregions]
    decide
  · obtain ⟨s, hr, ht⟩ := exists_run (bump (2 ^ 37)) allGivenBack
      (fun s => s.live = [] ∧ (68719541248, 2147483616) ∈ s.regions ∧ s.heap.ptr 4096 = 65536 ∧
        s.heap.ptr 65536 = 4096 ∧ s.heap.size 65536 = 134217662 ∧ s.heap.freep ≠ 0)
      (by decide +kernel)
    obtain ⟨hlive, hregion, hfirst, hsecond, hsize, hfreep⟩ := of_decide_eq_true ht
    refine ⟨s, hr, hfreep, ?_⟩
    rintro ⟨F, hs⟩
    have hF := hs.one_block hfirst hsecond (by decide)
    obtain ⟨b, hb, hx⟩ := (hs.cover 68719541248).mpr ⟨_, hregion, by rw [mem_points]; decide⟩
    unfold blocks at hb
    rw [hF, hlive, List.map_nil, List.append_nil, List.map_singleton, List.mem_singleton] at hb
    rw [hb, mem_points] at hx
    unfold blockAt at hx
    rw [hsize] at hx
    omega

end xv6.umalloc
