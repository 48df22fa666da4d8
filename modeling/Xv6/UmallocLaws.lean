-- The laws of the user allocator. Beside the heap stands the list of its free
-- blocks as spans of bytes; what `malloc` and `free` do to the headers is an
-- insertion or a removal in that list, and the list with the live blocks tiles
-- the memory obtained from `sbrk`.
import Xv6.Lib.Cyclic
import Xv6.Lib.Wp
import Xv6.Umalloc

open cells cyclic intervals wp List

namespace xv6.umalloc

variable {e : Env} {h h' : Heap} {s t : Sys} {F B R l l' u v : List Span} {b p q c : Span}
  {a z n base bp : Nat}

/-! ## Headers in memory -/

def first : List Span → Nat → Nat
  | [], z => z
  | s :: _, _ => s.1

/-- The headers of the blocks of `l` hold their sizes, and each points to the next block, the last
one to `z`. -/
def Seg (h : Heap) : List Span → Nat → Prop
  | [], _ => True
  | s :: l, z => h.ptr s.1 = first l z ∧ 16 * h.size s.1 = s.2 ∧ Seg h l z

lemma seg_cons : Seg h (p :: l) z ↔
    h.ptr p.1 = first l z ∧ 16 * h.size p.1 = p.2 ∧ Seg h l z := Iff.rfl

lemma first_append (l l' : List Span) (z : Nat) : first (l ++ l') z = first l (first l' z) := by
  cases l with
  | nil => rfl
  | cons s l => rfl

lemma seg_append : Seg h (l ++ l') z ↔ Seg h l (first l' z) ∧ Seg h l' z := by
  induction l with
  | nil => simp [Seg]
  | cons s l ih =>
    rw [cons_append, seg_cons, seg_cons, ih, first_append, and_assoc, and_assoc]

lemma Seg.congr (hs : Seg h l z) (hptr : ∀ s ∈ l, h'.ptr s.1 = h.ptr s.1)
    (hsize : ∀ s ∈ l, h'.size s.1 = h.size s.1) : Seg h' l z := by
  induction l with
  | nil => trivial
  | cons s l ih =>
    rw [forall_mem_cons] at hptr hsize
    obtain ⟨h1, h2, h3⟩ := hs
    exact ⟨hptr.1.trans h1, by rw [hsize.1, h2], ih h3 hptr.2 hsize.2⟩

lemma Seg.size (hs : Seg h l z) (hb : b ∈ l) : 16 * h.size b.1 = b.2 := by
  obtain ⟨u, v, rfl⟩ := append_of_mem hb
  exact (seg_append.mp hs).2.2.1

lemma Seg.isChain (hs : Seg h l z) : (l.map Prod.fst ++ [z]).IsChain fun a b => h.ptr a = b := by
  induction l with
  | nil => exact isChain_singleton z
  | cons s l ih =>
    obtain ⟨h1, _, h3⟩ := hs
    cases l with
    | nil => exact isChain_pair.mpr h1
    | cons t l => exact isChain_cons_cons.mpr ⟨h1, ih h3⟩

variable {k r x : Nat}

lemma link_ptr_of_ne (hx : x ≠ a) (h : Heap) (b : Nat) :
    (h.link a b).ptr x = h.ptr x := by
  unfold Heap.link
  split
  · exact put_of_ne hx _ _
  · exact put_of_ne hx _ _

lemma link_size_of_ne (hx : x ≠ a) (h : Heap) (b : Nat) :
    (h.link a b).size x = h.size x := by
  unfold Heap.link
  split
  · exact put_of_ne hx _ _
  · rfl

lemma Seg.link_of_ne (hs : Seg h l z) (ha : ∀ s ∈ l, s.1 ≠ a) (b : Nat) :
    Seg (h.link a b) l z :=
  hs.congr (fun s hs => link_ptr_of_ne (ha s hs) h b) fun s hs => link_size_of_ne (ha s hs) h b

lemma Seg.link (hs : Seg h l z) (hb : 16 * h.size b.1 = b.2) (hne : ∀ s ∈ l, s.1 ≠ b.1)
    (hz : l = [] → b.1 + b.2 ≠ z) (hsmall : b.2 + total l < 2 ^ 36) :
    Seg (h.link b.1 (first l z)) (push b l) z := by
  have hrest := hs.link_of_ne hne (first l z)
  cases l with
  | nil =>
    have hn : b.1 + 16 * h.size b.1 ≠ z := by
      rw [hb]
      exact hz rfl
    unfold Heap.link first push
    rw [if_neg hn]
    exact ⟨put_self _ _ _, hb, trivial⟩
  | cons q l =>
    obtain ⟨h1, h2, h3⟩ := hrest
    rw [push_cons]
    split
    · rename_i he
      have hq : q.1 ≠ b.1 := hne q mem_cons_self
      have hq2 : 16 * h.size q.1 = q.2 := hs.size mem_cons_self
      rw [total_cons] at hsmall
      have hlt : h.size b.1 + h.size q.1 < 2 ^ 32 := by omega
      refine ⟨?_, ?_, h3⟩
      · rw [← h1, link_ptr_of_ne hq]
        unfold Heap.link first
        rw [hb, if_pos he]
        exact put_self _ _ _
      · unfold Heap.link first
        rw [hb, if_pos he]
        dsimp only
        rw [put_self, Nat.mod_eq_of_lt hlt, Nat.mul_add, hb, hq2]
    · rename_i he
      refine ⟨?_, ?_, h1, h2, h3⟩
      · unfold Heap.link first
        rw [hb, if_neg he]
        exact put_self _ _ _
      · unfold Heap.link first
        rw [hb, if_neg he]
        exact hb

/-! ## The free and the live blocks -/

/-- The free blocks `F` behind the base, the live blocks `B` and the regions `R`: the free blocks
are in order and do not touch, and all blocks tile the regions. -/
structure Laid (base : Nat) (F B R : List Span) : Prop where
  gapped : Gapped ((base, 0) :: F)
  tiles : Tiles (F ++ B) R
  units : ∀ s ∈ F ++ B, 16 ≤ s.2
  above : ∀ r ∈ R, base + 16 ≤ r.1

lemma Laid.block_above (hl : Laid base F B R) (hb : b ∈ F ++ B) : base + 16 ≤ b.1 := by
  have h0 : 0 < b.2 := Nat.lt_of_lt_of_le (by decide) (hl.units b hb)
  obtain ⟨r, hr, hle⟩ := hl.tiles.start hb h0
  exact le_trans (hl.above r hr) hle

lemma Laid.perm (hl : Laid base F B R) {B' : List Span} (hp : B.Perm B') : Laid base F B' R := by
  have hp' : (F ++ B).Perm (F ++ B') := hp.append_left F
  refine ⟨hl.gapped, hl.tiles.perm hp', ?_, hl.above⟩
  intro s hs
  exact hl.units s (hp'.mem_iff.mpr hs)

lemma Laid.free_ne (hl : Laid base F B R) (hb : b ∈ B) : ∀ s ∈ (base, 0) :: F, s.1 ≠ b.1 := by
  have hmem : b ∈ F ++ B := mem_append_right F hb
  intro s hs
  rcases mem_cons.mp hs with rfl | hs
  · have := hl.block_above hmem
    omega
  · have hap := (pairwise_append.mp hl.tiles.apart).2.2 s hs b hb
    have h1 := hl.units s (mem_append_left B hs)
    have h2 := hl.units b hmem
    exact hap.ne (by omega) (by omega)

lemma Laid.live_ne (hl : Laid base F (b :: B) R) : ∀ s ∈ B, s.1 ≠ b.1 := by
  intro s hs
  have hap := (pairwise_cons.mp (pairwise_append.mp hl.tiles.apart).2.1).1 s hs
  have h1 := hl.units s (by simp [hs])
  have h2 := hl.units b (by simp)
  exact (hap.ne (by omega) (by omega)).symm

lemma Laid.length_lt (hl : Laid base F B R) : F.length < rounds R := by
  have h1 : 16 * F.length ≤ total F :=
    length_le_total fun s hs => hl.units s (mem_append_left B hs)
  have h2 : total F ≤ total R := by
    rw [← hl.tiles.total, total_append]
    exact Nat.le_add_right _ _
  unfold rounds
  omega

lemma cut_behind (hF : c :: F = u ++ p :: v) : ∃ X, u ++ [p] = c :: X ∧ F = X ++ v := by
  cases u with
  | nil =>
    obtain ⟨rfl, rfl⟩ := cons_eq_cons.mp hF
    exact ⟨[], rfl, rfl⟩
  | cons d u =>
    obtain ⟨rfl, rfl⟩ := cons_eq_cons.mp hF
    exact ⟨u ++ [p], rfl, by simp⟩

lemma Laid.place (hl : Laid base F (b :: B) R) :
    ∃ u p v, (base, 0) :: F = u ++ p :: v ∧ p.1 < b.1 ∧ ∀ t ∈ v, b.1 < t.1 := by
  have hb := hl.block_above (show b ∈ F ++ b :: B by simp)
  apply hl.gapped.place (show base < b.1 by omega)
  intro t ht
  exact hl.free_ne mem_cons_self t (mem_cons_of_mem _ ht)

lemma Laid.settle (hl : Laid base F (b :: B) R) (hF : (base, 0) :: F = u ++ p :: v)
    (hp : p.1 < b.1) (hv : ∀ t ∈ v, b.1 < t.1) :
    ∃ F', settle u p b v = (base, 0) :: F' ∧ Laid base F' B R := by
  obtain ⟨X, hX, hFX⟩ := cut_behind hF
  have hb := hl.block_above (show b ∈ F ++ b :: B by simp)
  have hunit : ∀ t ∈ (base, 0) :: F, t.1 ≠ base → 16 ≤ t.2 := by
    intro t ht hne
    rcases mem_cons.mp ht with rfl | ht
    · exact absurd rfl hne
    · exact hl.units t (mem_append_left _ ht)
  have hb16 : 16 ≤ b.2 := hl.units b (by simp)
  have hvpos : ∀ t ∈ v, b.1 < t.1 ∧ 0 < t.2 := by
    intro t ht
    have h16 := hl.units t (by simp [hFX, ht])
    exact ⟨hv t ht, by omega⟩
  have htiles : Tiles (u ++ p :: v ++ b :: B) R := by
    rw [← hF, cons_append, tiles_empty]
    exact hl.tiles
  obtain ⟨hroom, hroom'⟩ := htiles.room hp (by omega) hvpos
  have hgap : Gapped (intervals.settle u p b v) := by
    apply Gapped.settle _ hroom hroom'
    rw [← hF]
    exact hl.gapped
  -- the base stays in front, for no block begins where it ends
  have hhead : ∃ F', intervals.settle u p b v = (base, 0) :: F' := by
    cases u with
    | nil =>
      obtain ⟨rfl, -⟩ := cons_eq_cons.mp hF
      obtain ⟨n, w, hw⟩ := push_eq_cons b v
      refine ⟨push b v, ?_⟩
      unfold intervals.settle
      rw [hw, nil_append, push_cons, if_neg]
      omega
    | cons d u =>
      obtain ⟨rfl, -⟩ := cons_eq_cons.mp hF
      exact ⟨u ++ push p (push b v), rfl⟩
  obtain ⟨F', hF'⟩ := hhead
  have htiles' := htiles.settle
  rw [hF', cons_append, tiles_empty] at htiles'
  rw [hF'] at hgap
  refine ⟨F', hF', hgap, htiles', ?_, hl.above⟩
  intro t ht
  rcases mem_append.mp ht with ht | ht
  · have hne : t.1 ≠ base := by
      have := (pairwise_cons.mp hgap).1 t ht
      dsimp only at this
      omega
    have hmem : t ∈ intervals.settle u p b v := by
      rw [hF']
      exact mem_cons_of_mem _ ht
    rcases mem_append.mp hmem with hu | hpush
    · exact hunit t (by rw [hF]; simp [hu]) hne
    · rcases mem_push hpush with hpush | ⟨he, hle⟩
      · rcases mem_push hpush with hmem | ⟨_, hle⟩
        · exact hunit t (by rw [hF]; simp [hmem]) hne
        · omega
      · have := hunit p (by rw [hF]; simp) (by rw [← he]; exact hne)
        omega
  · exact hl.units t (by simp [ht])

lemma Laid.take (hl : Laid base F B R) (hF : F = l ++ p :: v) :
    Laid base (l ++ v) (p :: B) R := by
  have hp : (F ++ B).Perm (l ++ v ++ p :: B) := by
    rw [hF, perm_iff_count]
    intro x
    simp only [count_append, count_cons]
    omega
  refine ⟨?_, hl.tiles.perm hp, ?_, hl.above⟩
  · refine List.Pairwise.sublist ?_ hl.gapped
    rw [hF]
    simp
  · intro s hs
    exact hl.units s (hp.mem_iff.mpr hs)

lemma Laid.cut {m : Nat} (hl : Laid base F B R) (hF : F = l ++ (a, m + n) :: v) (hm : 16 ≤ m)
    (hn : 16 ≤ n) : Laid base (l ++ (a, m) :: v) ((a + m, n) :: B) R := by
  have hp : (F ++ B).Perm ((a, m + n) :: (l ++ v ++ B)) := by
    rw [hF, append_assoc, append_assoc, cons_append]
    exact perm_middle
  have hp' : ((a, m) :: (a + m, n) :: (l ++ v ++ B)).Perm (l ++ (a, m) :: v ++ (a + m, n) :: B) := by
    rw [perm_iff_count]
    intro x
    simp only [count_append, count_cons]
    omega
  refine ⟨?_, (tiles_cut.mp (hl.tiles.perm hp)).perm hp', ?_, hl.above⟩
  · have hg := hl.gapped
    rw [hF, ← cons_append] at hg
    rw [← cons_append]
    obtain ⟨h1, h2, h3⟩ := pairwise_append.mp hg
    obtain ⟨h4, h5⟩ := pairwise_cons.mp h2
    refine pairwise_append.mpr ⟨h1, pairwise_cons.mpr ⟨?_, h5⟩, ?_⟩
    · intro t ht
      have := h4 t ht
      dsimp only at this ⊢
      omega
    · intro c hc t ht
      rcases mem_cons.mp ht with rfl | ht
      · exact h3 c hc (a, m + n) mem_cons_self
      · exact h3 c hc t (mem_cons_of_mem _ ht)
  · intro s hs
    rcases mem_cons.mp (hp'.mem_iff.mpr hs) with rfl | hs
    · exact hm
    · rcases mem_cons.mp hs with rfl | hs
      · exact hn
      · exact hl.units s (hp.mem_iff.mpr (mem_cons_of_mem _ hs))

lemma Laid.grow (hl : Laid base F B R) (h16 : 16 ≤ b.2) (ha : base + 16 ≤ b.1)
    (hb : ∀ r ∈ R, Apart b r) : Laid base F (b :: B) (b :: R) := by
  have hp : (b :: (F ++ B)).Perm (F ++ b :: B) := perm_middle.symm
  refine ⟨hl.gapped, (hl.tiles.add hb).perm hp, ?_, ?_⟩
  · intro s hs
    rcases mem_cons.mp (hp.mem_iff.mpr hs) with rfl | hs
    · exact h16
    · exact hl.units s hs
  · intro r hr
    rcases mem_cons.mp hr with rfl | hr
    · exact ha
    · exact hl.above r hr

/-! ## The state of the allocator -/

/-- The heap of a state is the one of the free blocks `F`; the headers of the blocks `B` that are
not free hold their sizes. -/
structure Good (e : Env) (s : Sys) (F B : List Span) : Prop where
  seg : Seg s.heap ((e.base, 0) :: F) e.base
  rover : s.heap.freep ∈ e.base :: F.map Prod.fst
  sizes : ∀ b ∈ B, 16 * s.heap.size b.1 = b.2
  laid : Laid e.base F B s.regions
  small : total s.regions < 2 ^ 36

lemma Good.cyclic (hg : Good e s F B) : Cyclic s.heap.ptr e.base (F.map Prod.fst) :=
  hg.seg.isChain

lemma Good.perm (hg : Good e s F B) {B' : List Span} (hp : B.Perm B') : Good e s F B' :=
  ⟨hg.seg, hg.rover, fun b hb => hg.sizes b (hp.mem_iff.mpr hb), hg.laid.perm hp, hg.small⟩

lemma split_at (ha : a ∈ base :: F.map Prod.fst) :
    ∃ u p v, p.1 = a ∧ (base, 0) :: F = u ++ p :: v := by
  have hmem : a ∈ ((base, 0) :: F).map Prod.fst := ha
  obtain ⟨p, hp, rfl⟩ := mem_map.mp hmem
  obtain ⟨u, v, huv⟩ := append_of_mem hp
  exact ⟨u, p, v, rfl, huv⟩

lemma Good.around (hg : Good e s F B) (hF : (e.base, 0) :: F = u ++ p :: v) :
    Seg s.heap u p.1 ∧ s.heap.ptr p.1 = first v e.base ∧ 16 * s.heap.size p.1 = p.2 ∧
      Seg s.heap v e.base := by
  have hs := hg.seg
  rw [hF, seg_append] at hs
  exact ⟨hs.1, hs.2.1, hs.2.2.1, hs.2.2.2⟩

/-! ## free -/

/-- The two conditions that end the loop of `free`. -/
def Stop (h : Heap) (bp p : Nat) : Prop :=
  (bp > p ∧ bp < h.ptr p) ∨ (p ≥ h.ptr p ∧ (bp > p ∨ bp < h.ptr p))

lemma freeLoop_spec (hk : k < n) (hs : Stop h bp (h.ptr^[k] x)) :
    ∃ j, freeLoop h bp n x = some (h.ptr^[j] x) ∧ Stop h bp (h.ptr^[j] x) := by
  induction k generalizing n x with
  | zero =>
    obtain ⟨n, rfl⟩ := Nat.exists_eq_succ_of_ne_zero (Nat.ne_zero_of_lt hk)
    refine ⟨0, ?_, hs⟩
    rw [Function.iterate_zero_apply] at hs ⊢
    unfold freeLoop
    rcases hs with hs | hs
    · rw [if_pos hs]
    · rw [if_pos hs, ite_self]
  | succ k ih =>
    obtain ⟨n, rfl⟩ := Nat.exists_eq_succ_of_ne_zero (Nat.ne_zero_of_lt hk)
    unfold freeLoop
    split
    · rename_i h1
      exact ⟨0, rfl, .inl h1⟩
    · split
      · rename_i h1
        exact ⟨0, rfl, .inr h1⟩
      · obtain ⟨j, hj, hstop⟩ := ih (Nat.lt_of_succ_lt_succ hk) hs
        exact ⟨j + 1, hj, hstop⟩

lemma stop_iff (hgap : Gapped ((base, 0) :: F)) (hF : (base, 0) :: F = u ++ p :: v)
    (hptr : h.ptr p.1 = first v base) (hb : base < bp) :
    Stop h bp p.1 ↔ p.1 < bp ∧ ∀ t ∈ v, bp < t.1 := by
  unfold Stop
  rw [hptr]
  cases v with
  | nil =>
    have hp : base ≤ p.1 := by
      have hmem : p ∈ (base, 0) :: F := by
        rw [hF]
        simp
      rcases mem_cons.mp hmem with rfl | hmem
      · exact le_refl _
      · exact le_of_lt ((pairwise_cons.mp hgap).1 p hmem)
    simp only [first, not_mem_nil, false_imp_iff, implies_true, and_true]
    omega
  | cons q v =>
    rw [hF] at hgap
    obtain ⟨h1, h2⟩ := pairwise_cons.mp (pairwise_append.mp hgap).2.1
    have hpq := h1 q mem_cons_self
    have hrest : (∀ t ∈ q :: v, bp < t.1) ↔ bp < q.1 := by
      rw [forall_mem_cons]
      constructor
      · exact And.left
      · intro hq
        refine ⟨hq, ?_⟩
        intro t ht
        have := (pairwise_cons.mp h2).1 t ht
        omega
    rw [hrest]
    simp only [first]
    omega

lemma Good.freeLoop (hg : Good e s F (b :: B)) :
    ∃ u p v, freeLoop s.heap b.1 (rounds s.regions) s.heap.freep = some p.1 ∧
      (e.base, 0) :: F = u ++ p :: v ∧ p.1 < b.1 ∧ ∀ t ∈ v, b.1 < t.1 := by
  have hb : e.base < b.1 := by
    have := hg.laid.block_above (show b ∈ F ++ b :: B by simp)
    omega
  obtain ⟨u, p, v, hF, hp, hv⟩ := hg.laid.place
  have hstop := (stop_iff hg.laid.gapped hF (hg.around hF).2.1 hb).mpr ⟨hp, hv⟩
  have hmem : p.1 ∈ e.base :: F.map Prod.fst := by
    change p.1 ∈ ((e.base, 0) :: F).map Prod.fst
    rw [hF]
    simp
  obtain ⟨k, hk, hkp⟩ := hg.cyclic.reach hg.rover hmem
  rw [length_map] at hk
  rw [← hkp] at hstop
  obtain ⟨j, hj, hstop⟩ := freeLoop_spec (lt_of_le_of_lt hk hg.laid.length_lt) hstop
  obtain ⟨u, q, v, hq, hF⟩ := split_at (hg.cyclic.iterate_mem hg.rover j)
  rw [← hq] at hj hstop
  rw [stop_iff hg.laid.gapped hF (hg.around hF).2.1 hb] at hstop
  exact ⟨u, q, v, hj, hF, hstop⟩

lemma Good.link (hg : Good e s F (b :: B)) (hF : (e.base, 0) :: F = u ++ p :: v)
    (hp : p.1 < b.1) (hv : ∀ t ∈ v, b.1 < t.1) :
    Seg ((s.heap.link b.1 (s.heap.ptr p.1)).link p.1 b.1) (settle u p b v) e.base := by
  obtain ⟨h1, h2, h3, h4⟩ := hg.around hF
  have hb := hg.laid.block_above (show b ∈ F ++ b :: B by simp)
  have hne := hg.laid.free_ne mem_cons_self
  rw [hF] at hne
  have hgap := hg.laid.gapped
  rw [hF] at hgap
  have hsum : p.2 + (b.2 + total v) < 2 ^ 36 := by
    have ht := hg.laid.tiles
    rw [← tiles_empty, ← cons_append, hF] at ht
    have := ht.total
    have := hg.small
    simp only [total_append, total_cons] at *
    omega
  have hbv : Seg (s.heap.link b.1 (s.heap.ptr p.1)) (push b v) e.base := by
    rw [h2]
    apply h4.link (hg.sizes b mem_cons_self)
    · intro t ht
      exact hne t (by simp [ht])
    · intro _
      omega
    · omega
  obtain ⟨n, w, hw⟩ := push_eq_cons b v
  have hfirst : first (push b v) e.base = b.1 := by
    rw [hw]
    rfl
  have hpne : p.1 ≠ b.1 := Nat.ne_of_lt hp
  have hpbv : Seg ((s.heap.link b.1 (s.heap.ptr p.1)).link p.1 b.1) (push p (push b v)) e.base := by
    have hlink := hbv.link (b := p) (by rw [link_size_of_ne hpne, h3]) ?_ ?_ ?_
    · rw [hfirst] at hlink
      exact hlink
    · intro t ht
      rcases mem_push ht with ht | ⟨he, _⟩
      · have := hv t ht
        omega
      · omega
    · intro hnil
      rw [hw] at hnil
      cases hnil
    · rw [total_push]
      exact hsum
  obtain ⟨n', w', hw'⟩ := push_eq_cons p (push b v)
  refine seg_append.mpr ⟨?_, hpbv⟩
  rw [hw']
  apply (h1.link_of_ne _ _).link_of_ne
  · intro t ht
    have := (pairwise_append.mp hgap).2.2 t ht p mem_cons_self
    omega
  · intro t ht
    exact hne t (by simp [ht])

lemma wp_free (hg : Good e s F (b :: B)) : Wp (free (b.1 + 16))
    (fun _ t => t.live = s.live ∧ t.regions = s.regions ∧
      ∃ F', Good e t F' B ∧ (∃ c ∈ F', b.2 ≤ c.2) ∧ ∀ c ∈ F', c ∈ F ∨ b.1 + b.2 ≤ c.1 + c.2)
    (fun _ => False) s := by
  obtain ⟨u, p, v, hloop, hF, hp, hv⟩ := hg.freeLoop
  obtain ⟨F', hF', hlaid⟩ := hg.laid.settle hF hp hv
  unfold free
  simp only [wp_get_bind, Nat.add_sub_cancel, hloop, wp_set]
  refine ⟨trivial, trivial, F', ⟨?_, ?_, ?_, hlaid, hg.small⟩, ?_, ?_⟩
  · rw [← hF']
    exact (hg.link hF hp hv).congr (fun _ _ => rfl) fun _ _ => rfl
  · obtain ⟨n, w, hw⟩ := push_eq_cons p (push b v)
    change p.1 ∈ ((e.base, 0) :: F').map Prod.fst
    rw [← hF', settle, hw]
    simp
  · intro c hc
    have hcp : c.1 ≠ p.1 := by
      have hmem : p ∈ (e.base, 0) :: F := by
        rw [hF]
        simp
      exact (hg.laid.free_ne (mem_cons_of_mem b hc) p hmem).symm
    rw [link_size_of_ne hcp, link_size_of_ne (hg.laid.live_ne c hc)]
    exact hg.sizes c (mem_cons_of_mem b hc)
  · obtain ⟨c, hc, hle⟩ := exists_settle u p b v
    rw [hF'] at hc
    rcases mem_cons.mp hc with rfl | hc
    · have := hg.laid.units b (by simp)
      dsimp only at hle
      omega
    · exact ⟨c, hc, hle⟩
  · intro c hc
    have hmem := mem_cons_of_mem (e.base, 0) hc
    rw [← hF'] at hmem
    rcases mem_settle hmem with h | h
    · rw [← hF] at h
      rcases mem_cons.mp h with rfl | h
      · have := (pairwise_cons.mp hlaid.gapped).1 _ hc
        exact absurd this (Nat.lt_irrefl _)
      · exact .inl h
    · exact .inr h

/-! ## malloc -/

/-- The kernel gives less than 2^36 bytes in all, so that the units of a block fit its header. -/
def Env.Bounded (e : Env) : Prop :=
  ∀ calls regions k a, e.sbrk calls regions k = some a → total regions + k < 2 ^ 36

lemma le_coreUnits (n : Nat) : n ≤ coreUnits n ∧ 1 ≤ coreUnits n := by
  unfold coreUnits
  split
  · omega
  · omega

lemma coreUnits_lt (hn : 16 * n < 2 ^ 31) : 16 * coreUnits n < 2 ^ 31 := by
  unfold coreUnits
  split
  · decide
  · exact hn

/-- What `sbrk` gives for so many bytes lies above the base and apart from the regions. -/
def Env.Fresh (e : Env) (s : Sys) (k : Nat) : Prop :=
  ∀ a, e.sbrk s.calls s.regions k = some a →
    e.base + 16 ≤ a ∧ ∀ r ∈ s.regions, Apart (a, k) r

lemma Env.fresh_of_lt (e : Env) (s : Sys) (hn : 16 * n < 2 ^ 31) :
    e.Fresh s (16 * coreUnits n) := by
  intro a ha
  have hpos := (le_coreUnits n).2
  exact (e.fresh _ _ _ a (by omega) (coreUnits_lt hn) ha).2

lemma Good.grow (hg : Good e s F B) (he : e.Bounded) (hk : 1 ≤ k)
    (hfresh : e.Fresh s (16 * k)) (ha : e.sbrk s.calls s.regions (16 * k) = some a) :
    Good e { s with calls := s.calls + 1, regions := (a, 16 * k) :: s.regions,
                    heap.size := put s.heap.size a k } F ((a, 16 * k) :: B) := by
  obtain ⟨habove, hapart⟩ := hfresh a ha
  have hlaid := hg.laid.grow (show 16 ≤ 16 * k by omega) habove hapart
  have hfree := hlaid.free_ne mem_cons_self
  refine ⟨?_, hg.rover, ?_, hlaid, ?_⟩
  · apply hg.seg.congr
    · intro c hc
      rfl
    · intro c hc
      exact put_of_ne (hfree c hc) _ _
  · intro c hc
    rcases mem_cons.mp hc with rfl | hc
    · dsimp only
      rw [put_self]
    · dsimp only
      rw [put_of_ne (hlaid.live_ne c hc)]
      exact hg.sizes c hc
  · have := he _ _ _ _ ha
    rw [total_cons]
    omega

lemma Good.freep_pos (hg : Good e s F B) : s.heap.freep ≠ 0 := by
  have hpos := e.base_pos
  rcases mem_cons.mp hg.rover with h | h
  · omega
  · obtain ⟨c, hc, he⟩ := mem_map.mp h
    have := hg.laid.block_above (mem_append_left B hc)
    omega

lemma wp_morecore (hg : Good e s F B) (he : e.Bounded) (hfresh : e.Fresh s (16 * coreUnits n)) :
    Wp (morecore e n) (fun r t => t.live = s.live ∧
      ((r = 0 ∧ e.sbrk s.calls s.regions (16 * coreUnits n) = none ∧ t.regions = s.regions ∧
          Good e t F B) ∨
        (r = t.heap.freep ∧ ∃ a, e.sbrk s.calls s.regions (16 * coreUnits n) = some a ∧
          t.regions = (a, 16 * coreUnits n) :: s.regions ∧
          ∃ F', Good e t F' B ∧ (∃ c ∈ F', 16 * n ≤ c.2) ∧
            ∀ c ∈ F', c ∈ F ∨ a + 16 * coreUnits n ≤ c.1 + c.2))) (fun _ => False) s := by
  obtain ⟨hle, hpos⟩ := le_coreUnits n
  unfold morecore sbrk
  simp only [bind_assoc, wp_get_bind]
  cases ha : e.sbrk s.calls s.regions (16 * coreUnits n) with
  | none =>
    simp only [wp_set_bind, bind_assoc, wp_pure_bind, wp_pure]
    exact ⟨trivial, .inl ⟨trivial, trivial, trivial, hg.seg, hg.rover, hg.sizes, hg.laid, hg.small⟩⟩
  | some a =>
    simp only [wp_set_bind, bind_assoc, wp_pure_bind, wp_modify_bind]
    apply (wp_free (hg.grow he hpos hfresh ha)).bind
    intro _ t ht
    obtain ⟨hlive, hregions, F', hgood, ⟨c, hc, hle'⟩, hother⟩ := ht
    simp only [wp_get_bind, wp_pure]
    refine ⟨hlive, .inr ⟨trivial, a, rfl, hregions, F', hgood, ⟨c, hc, ?_⟩, hother⟩⟩
    dsimp only at hle'
    omega

lemma Good.behind (hg : Good e s F B) (ha : a ∈ e.base :: F.map Prod.fst) (hn : 0 < n)
    (hle : n ≤ s.heap.size (s.heap.ptr a)) :
    ∃ u q p v, (e.base, 0) :: F = u ++ q :: p :: v ∧ q.1 = a ∧ p.1 = s.heap.ptr a := by
  obtain ⟨u, q, v, rfl, hF⟩ := split_at ha
  have hptr := (hg.around hF).2.1
  cases v with
  | nil =>
    have h0 : 16 * s.heap.size e.base = 0 := hg.seg.2.1
    rw [hptr] at hle
    simp only [first] at hle
    omega
  | cons p v => exact ⟨u, q, p, v, hF, rfl, hptr.symm⟩

/-- What a search leaves that found a block: the end of one of the free blocks is taken. -/
def Took (e : Env) (s : Sys) (n : Nat) (F B : List Span) (r : Nat) (t : Sys) : Prop :=
  t.live = s.live ∧ t.regions = s.regions ∧ ∃ F' a, r = a + 16 ∧ Good e t F' ((a, 16 * n) :: B) ∧
    ∃ c ∈ F, 16 * n ≤ c.2 ∧ a + 16 * n = c.1 + c.2

section

variable (hg : Good e s F B) (hF : (e.base, 0) :: F = u ++ q :: p :: v)
include hg hF

lemma Good.unlink :
    ∃ F', Good e { s with heap := { s.heap with ptr := put s.heap.ptr q.1 (s.heap.ptr p.1),
                                                freep := q.1 } } F' (p :: B) := by
  obtain ⟨X, hX, hFX⟩ := cut_behind hF
  obtain ⟨h1, h2, h3, h4, h5, h6⟩ := hg.around hF
  have hgap := hg.laid.gapped
  rw [hF] at hgap
  have hhead : (e.base, 0) :: (X ++ v) = u ++ q :: v := by
    rw [← cons_append, ← hX, append_assoc, singleton_append]
  refine ⟨X ++ v, ?_, ?_, ?_, hg.laid.take hFX, hg.small⟩
  · rw [hhead]
    refine seg_append.mpr ⟨?_, ?_, h3, ?_⟩
    · refine h1.congr ?_ fun _ _ => rfl
      intro c hc
      exact put_of_ne (hgap.ne c (by simp [hc])) _ _
    · dsimp only
      rw [put_self, h4]
    · refine h6.congr ?_ fun _ _ => rfl
      intro c hc
      exact put_of_ne (hgap.ne c (by simp [hc])) _ _
  · change q.1 ∈ ((e.base, 0) :: (X ++ v)).map Prod.fst
    rw [hhead]
    simp
  · intro c hc
    rcases mem_cons.mp hc with rfl | hc
    · exact h5
    · exact hg.sizes c hc

lemma Good.shorten {m : Nat}
    (hm : 0 < m) (hn : 0 < n) (hsize : s.heap.size p.1 = m + n) :
    ∃ F', Good e { s with
      heap := { s.heap with size := put (put s.heap.size p.1 m) (p.1 + 16 * m) n,
                            freep := q.1 } } F' ((p.1 + 16 * m, 16 * n) :: B) := by
  obtain ⟨X, hX, hFX⟩ := cut_behind hF
  rw [append_cons] at hF
  obtain ⟨h1, h2, h3, h4⟩ := hg.around hF
  have hgap := hg.laid.gapped
  rw [hF] at hgap
  have hp : p = (p.1, 16 * m + 16 * n) := by
    rw [← Nat.mul_add, ← hsize, h3]
  rw [hp] at hFX
  have hcut := hg.laid.cut hFX (by omega) (by omega)
  have hhead : (e.base, 0) :: (X ++ (p.1, 16 * m) :: v) = u ++ [q] ++ (p.1, 16 * m) :: v := by
    rw [← cons_append, ← hX]
  have hfree := hcut.free_ne mem_cons_self
  rw [hhead] at hfree
  have hother : ∀ c ∈ u ++ [q] ++ v,
      put (put s.heap.size p.1 m) (p.1 + 16 * m) n c.1 = s.heap.size c.1 := by
    intro c hc
    have hmem : c ∈ u ++ [q] ++ (p.1, 16 * m) :: v := by
      rcases mem_append.mp hc with hc | hc
      · exact mem_append_left _ hc
      · exact mem_append_right _ (mem_cons_of_mem _ hc)
    rw [put_of_ne (hfree c hmem), put_of_ne (hgap.ne c hc)]
  refine ⟨X ++ (p.1, 16 * m) :: v, ?_, ?_, ?_, hcut, hg.small⟩
  · rw [hhead]
    refine seg_append.mpr ⟨?_, h2, ?_, ?_⟩
    · exact h1.congr (fun _ _ => rfl) fun c hc => hother c (mem_append_left v hc)
    · have hne : p.1 ≠ p.1 + 16 * m := by omega
      dsimp only
      rw [put_of_ne hne, put_self]
    · exact h4.congr (fun _ _ => rfl) fun c hc => hother c (mem_append_right _ hc)
  · change q.1 ∈ ((e.base, 0) :: (X ++ (p.1, 16 * m) :: v)).map Prod.fst
    rw [hhead]
    simp
  · intro c hc
    dsimp only
    rcases mem_cons.mp hc with rfl | hc
    · rw [put_self]
    · have hcp : c.1 ≠ p.1 := by
        refine (hg.laid.free_ne hc p ?_).symm
        rw [hF]
        simp
      rw [put_of_ne (hcut.live_ne c hc), put_of_ne hcp]
      exact hg.sizes c hc

lemma wp_take (hn : 0 < n)
    (hle : n ≤ s.heap.size p.1) : Wp (take n q.1 p.1) (Took e s n F B) (fun _ => False) s := by
  have hsize : 16 * s.heap.size p.1 = p.2 := by
    apply hg.seg.size
    rw [hF]
    simp
  have hmem : p ∈ F := by
    obtain ⟨X, _, hFX⟩ := cut_behind hF
    rw [hFX]
    simp
  unfold take
  simp only [wp_get_bind]
  apply wp_ite
  · intro heq
    obtain ⟨F', hgood⟩ := hg.unlink hF
    have hp : p = (p.1, 16 * n) := by rw [← heq, hsize]
    rw [hp] at hgood
    simp only [wp_set_bind, wp_pure]
    exact ⟨rfl, rfl, F', p.1, rfl, hgood, p, hmem, by omega, by omega⟩
  · intro hne
    have hm : 0 < s.heap.size p.1 - n := by omega
    obtain ⟨F', hgood⟩ := hg.shorten hF hm hn (by omega)
    simp only [wp_set_bind, wp_pure, put_self]
    exact ⟨rfl, rfl, F', _, rfl, hgood, p, hmem, by omega, by omega⟩

end

/-! ## The loop of malloc -/

lemma wp_pass {Q : Nat → Sys → Prop}
    (hpass : ∀ i < k, s.heap.size (s.heap.ptr^[i + 1] x) < n ∧ s.heap.ptr^[i + 1] x ≠ s.heap.freep)
    (hw : Wp (mallocLoop e n r (s.heap.ptr^[k] x) (s.heap.ptr^[k + 1] x)) Q (fun _ => False) s) :
    Wp (mallocLoop e n (r + k) x (s.heap.ptr x)) Q (fun _ => False) s := by
  induction k generalizing x with
  | zero => exact hw
  | succ k ih =>
    obtain ⟨h1, h2⟩ := hpass 0 (Nat.succ_pos k)
    rw [zero_add, Function.iterate_one] at h1 h2
    rw [← Nat.add_assoc]
    unfold mallocLoop
    rw [wp_get_bind, if_neg (Nat.not_le.mpr h1), if_neg h2]
    apply ih
    · intro i hi
      exact hpass (i + 1) (Nat.succ_lt_succ hi)
    · exact hw

lemma Good.first_stop (hg : Good e s F B) (n : Nat) :
    ∃ k ≤ F.length,
      (n ≤ s.heap.size (s.heap.ptr^[k + 1] s.heap.freep) ∨
        s.heap.ptr^[k + 1] s.heap.freep = s.heap.freep) ∧
      ∀ i < k, s.heap.size (s.heap.ptr^[i + 1] s.heap.freep) < n ∧
        s.heap.ptr^[i + 1] s.heap.freep ≠ s.heap.freep := by
  have hround : s.heap.ptr^[F.length + 1] s.heap.freep = s.heap.freep := by
    have hper := hg.cyclic.period_of_mem hg.rover
    rw [length_map] at hper
    exact hper
  have hex : ∃ k, n ≤ s.heap.size (s.heap.ptr^[k + 1] s.heap.freep) ∨
      s.heap.ptr^[k + 1] s.heap.freep = s.heap.freep := ⟨F.length, .inr hround⟩
  refine ⟨Nat.find hex, Nat.find_min' hex (.inr hround), Nat.find_spec hex, ?_⟩
  intro i hi
  have hmin := Nat.find_min hex hi
  rw [not_or, Nat.not_le] at hmin
  exact hmin

lemma wp_mallocLoop_found (hg : Good e s F B) (hn : 0 < n)
    (hle : n ≤ s.heap.size (s.heap.ptr^[k + 1] s.heap.freep)) :
    Wp (mallocLoop e n (r + 1) (s.heap.ptr^[k] s.heap.freep) (s.heap.ptr^[k + 1] s.heap.freep))
      (Took e s n F B) (fun _ => False) s := by
  have hmem := hg.cyclic.iterate_mem hg.rover k
  rw [Function.iterate_succ_apply'] at hle ⊢
  obtain ⟨u, q, p, v, hF, hq, hp⟩ := hg.behind hmem hn hle
  unfold mallocLoop
  rw [wp_get_bind, if_pos hle, ← hq]
  rw [← hq] at hp hle
  rw [← hp] at hle ⊢
  exact wp_take hg hF hn hle

/-- A search that came round came by every free block. -/
lemma Good.all_small (hg : Good e s F B) (hround : s.heap.ptr^[k + 1] s.heap.freep = s.heap.freep)
    (hlast : ¬ n ≤ s.heap.size (s.heap.ptr^[k + 1] s.heap.freep))
    (hpass : ∀ i < k, s.heap.size (s.heap.ptr^[i + 1] s.heap.freep) < n ∧
      s.heap.ptr^[i + 1] s.heap.freep ≠ s.heap.freep) : ∀ c ∈ F, c.2 < 16 * n := by
  intro c hc
  have hsize := hg.seg.size (mem_cons_of_mem _ hc)
  have hmem : c.1 ∈ e.base :: F.map Prod.fst := by
    apply mem_cons_of_mem
    exact mem_map_of_mem hc
  obtain ⟨j, _, hj⟩ := hg.cyclic.reach hg.rover hmem
  have hper : Function.IsPeriodicPt s.heap.ptr (k + 1) s.heap.freep := hround
  rw [← hper.iterate_mod_apply] at hj
  have hlt : j % (k + 1) < k + 1 := Nat.mod_lt j (Nat.succ_pos k)
  cases hi : j % (k + 1) with
  | zero =>
    rw [hi] at hj
    rw [hround, show s.heap.freep = c.1 from hj] at hlast
    omega
  | succ i =>
    rw [hi] at hj hlt
    have := (hpass i (by omega)).1
    rw [hj] at this
    omega

lemma wp_mallocLoop_of_large (hg : Good e s F B) (hn : 0 < n) (hc : c ∈ F)
    (hle : 16 * n ≤ c.2) (hr : F.length < r) :
    Wp (mallocLoop e n r s.heap.freep (s.heap.ptr s.heap.freep)) (Took e s n F B)
      (fun _ => False) s := by
  obtain ⟨k, hk, hstop, hpass⟩ := hg.first_stop n
  obtain ⟨r, rfl⟩ : ∃ r', r = (r' + 1) + k := ⟨r - 1 - k, by omega⟩
  apply wp_pass hpass
  apply wp_mallocLoop_found hg hn
  by_contra hlast
  have := hg.all_small (hstop.resolve_left hlast) hlast hpass c hc
  omega

/-- What `malloc` leaves: the null pointer, when no free block is large enough and `sbrk` gives
nothing, or a new block. It is taken from the list, or from the end of what `sbrk` gave. -/
def Ended (e : Env) (s : Sys) (n : Nat) (F B : List Span) (r : Nat) (t : Sys) : Prop :=
  t.live = s.live ∧
    ((r = 0 ∧ (∀ c ∈ F, c.2 < 16 * n) ∧ e.sbrk s.calls s.regions (16 * coreUnits n) = none ∧
        t.regions = s.regions ∧ ∃ F', Good e t F' B) ∨
      ∃ F' a, r = a + 16 ∧ Good e t F' ((a, 16 * n) :: B) ∧
        (((∃ c ∈ F, 16 * n ≤ c.2) ∧ t.regions = s.regions) ∨
          (∀ c ∈ F, c.2 < 16 * n) ∧ ∃ h, e.sbrk s.calls s.regions (16 * coreUnits n) = some h ∧
            t.regions = (h, 16 * coreUnits n) :: s.regions ∧ h + 16 * coreUnits n ≤ a + 16 * n))

lemma wp_mallocLoop (hg : Good e s F B) (he : e.Bounded) (hn : 0 < n)
    (hfresh : e.Fresh s (16 * coreUnits n)) :
    Wp (mallocLoop e n (2 * rounds s.regions + coreUnits n) s.heap.freep
      (s.heap.ptr s.heap.freep)) (Ended e s n F B) (fun _ => False) s := by
  obtain ⟨k, hk, hstop, hpass⟩ := hg.first_stop n
  have hlen := hg.laid.length_lt
  obtain ⟨r, hr, hr'⟩ : ∃ r, 2 * rounds s.regions + coreUnits n = (r + 1) + k ∧
      rounds s.regions + coreUnits n ≤ r :=
    ⟨2 * rounds s.regions + coreUnits n - 1 - k, by omega, by omega⟩
  rw [hr]
  apply wp_pass hpass
  by_cases hle : n ≤ s.heap.size (s.heap.ptr^[k + 1] s.heap.freep)
  · refine (wp_mallocLoop_found hg hn hle).imp fun _ _ ⟨hlive, hreg, F', a, hr, hgood, c, hc, hn, _⟩ => ?_
    exact ⟨hlive, .inr ⟨F', a, hr, hgood, .inl ⟨⟨c, hc, hn⟩, hreg⟩⟩⟩
  · have hround := hstop.resolve_left hle
    have hsmall := hg.all_small hround hle hpass
    unfold mallocLoop
    rw [wp_get_bind, if_neg hle, if_pos hround]
    apply (wp_morecore hg he hfresh).bind
    intro p t ht
    obtain ⟨hlive, ⟨rfl, hnone, hreg, hgood⟩ | ⟨rfl, h, hh, hreg, F', hgood, ⟨c, hc, hlarge⟩, hother⟩⟩ := ht
    · rw [if_pos rfl, wp_pure]
      exact ⟨hlive, .inl ⟨rfl, hsmall, hnone, hreg, F, hgood⟩⟩
    · rw [if_neg hgood.freep_pos, wp_get_bind]
      have hlen' := hgood.laid.length_lt
      have hrounds : rounds t.regions = rounds s.regions + coreUnits n := by
        rw [hreg]
        unfold rounds
        rw [total_cons]
        omega
      refine (wp_mallocLoop_of_large hgood hn hc hlarge (by omega)).imp ?_
      rintro _ _ ⟨hlive', hreg', F2, a, rfl, hgood', d, hd, hdn, hend⟩
      refine ⟨hlive'.trans hlive, .inr ⟨F2, a, rfl, hgood', .inr ⟨hsmall, h, hh, hreg'.trans hreg, ?_⟩⟩⟩
      -- the block is none of the old ones, which are too small
      rcases hother d hd with hold | hnew
      · have := hsmall d hold
        omega
      · omega

end xv6.umalloc
