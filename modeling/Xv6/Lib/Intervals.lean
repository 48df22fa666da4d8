-- Intervals of natural numbers, as memory is handed out in them. A span is its
-- first point and its length. Spans tile others when no two of them share a
-- point and both hold the same points; a tiling is kept when a span is cut in
-- two, when two that touch become one, and when new memory is added.
import Mathlib

open List

namespace intervals

abbrev Span := Nat × Nat

def points (s : Span) : Set Nat := Set.Ico s.1 (s.1 + s.2)

def Apart (s t : Span) : Prop := Disjoint (points s) (points t)

def total (l : List Span) : Nat := (l.map Prod.snd).sum

variable {l l' r : List Span} {s t : Span} {a m n x : Nat}

@[simp] lemma mem_points : x ∈ points s ↔ s.1 ≤ x ∧ x < s.1 + s.2 := Set.mem_Ico

lemma apart_iff : Apart s t ↔ ∀ x, x ∈ points s → x ∉ points t := Set.disjoint_left

lemma Apart.symm (h : Apart s t) : Apart t s := Disjoint.symm h

lemma Apart.le (h : Apart s t) (hlt : s.1 < t.1) (ht : 0 < t.2) : s.1 + s.2 ≤ t.1 := by
  rw [apart_iff] at h
  by_contra hc
  apply h t.1
  · rw [mem_points]
    omega
  · rw [mem_points]
    omega

lemma Apart.ne (h : Apart s t) (hs : 0 < s.2) (ht : 0 < t.2) : s.1 ≠ t.1 := by
  intro he
  rw [apart_iff] at h
  apply h s.1
  · rw [mem_points]
    omega
  · rw [mem_points]
    omega

lemma points_add : points (a, m + n) = points (a, m) ∪ points (a + m, n) := by
  ext x
  rw [Set.mem_union, mem_points, mem_points, mem_points]
  omega

lemma apart_add : Apart (a, m + n) s ↔ Apart (a, m) s ∧ Apart (a + m, n) s := by
  unfold Apart
  rw [points_add, Set.disjoint_union_left]

lemma apart_touching : Apart (a, m) (a + m, n) := by
  rw [apart_iff]
  intro x hx
  rw [mem_points] at hx ⊢
  dsimp only at *
  omega

@[simp] lemma total_cons : total (s :: l) = s.2 + total l := by
  simp [total]

@[simp] lemma total_append : total (l ++ l') = total l + total l' := by
  simp [total]

lemma total_perm (h : l.Perm l') : total l = total l' := (h.map Prod.snd).sum_eq

lemma length_le_total {u : Nat} (h : ∀ s ∈ l, u ≤ s.2) : u * l.length ≤ total l := by
  induction l with
  | nil => simp
  | cons s l ih =>
    have h1 := h s mem_cons_self
    have h2 := ih fun t ht => h t (mem_cons_of_mem s ht)
    rw [total_cons, length_cons, Nat.mul_succ]
    omega

/-! ## Tilings -/

/-- The spans of `l` share no point and hold exactly the points of the spans of `r`. -/
structure Tiles (l r : List Span) : Prop where
  apart : l.Pairwise Apart
  cover : ∀ x, (∃ s ∈ l, x ∈ points s) ↔ ∃ s ∈ r, x ∈ points s
  total : total l = total r

lemma Tiles.perm (h : Tiles l r) (hp : l.Perm l') : Tiles l' r := by
  refine ⟨hp.pairwise h.apart fun h => h.symm, ?_, ?_⟩
  · intro x
    rw [← h.cover]
    simp only [hp.mem_iff]
  · rw [← total_perm hp, h.total]

lemma tiles_cut : Tiles ((a, m + n) :: l) r ↔ Tiles ((a, m) :: (a + m, n) :: l) r := by
  have hcover : ∀ x, (∃ s ∈ (a, m + n) :: l, x ∈ points s) ↔
      ∃ s ∈ (a, m) :: (a + m, n) :: l, x ∈ points s := by
    intro x
    simp only [exists_mem_cons_iff, points_add, Set.mem_union, or_assoc]
  have hsum : intervals.total ((a, m + n) :: l) = intervals.total ((a, m) :: (a + m, n) :: l) := by
    rw [total_cons, total_cons, total_cons, Nat.add_assoc]
  constructor
  · intro h
    obtain ⟨h1, h2⟩ := pairwise_cons.mp h.apart
    refine ⟨?_, fun x => (hcover x).symm.trans (h.cover x), hsum.symm.trans h.total⟩
    rw [pairwise_cons, pairwise_cons, forall_mem_cons]
    exact ⟨⟨apart_touching, fun s hs => (apart_add.mp (h1 s hs)).1⟩,
      fun s hs => (apart_add.mp (h1 s hs)).2, h2⟩
  · intro h
    obtain ⟨h1, h2⟩ := pairwise_cons.mp h.apart
    obtain ⟨h3, h4⟩ := pairwise_cons.mp h2
    refine ⟨?_, fun x => (hcover x).trans (h.cover x), hsum.trans h.total⟩
    rw [pairwise_cons]
    exact ⟨fun s hs => apart_add.mpr ⟨h1 s (mem_cons_of_mem _ hs), h3 s hs⟩, h4⟩

lemma Tiles.add (h : Tiles l r) (hs : ∀ t ∈ r, Apart s t) : Tiles (s :: l) (s :: r) := by
  refine ⟨?_, ?_, ?_⟩
  · rw [pairwise_cons]
    refine ⟨?_, h.apart⟩
    intro t ht
    rw [apart_iff]
    intro x hx hxt
    obtain ⟨u, hu, hxu⟩ := (h.cover x).mp ⟨t, ht, hxt⟩
    exact apart_iff.mp (hs u hu) x hx hxu
  · intro x
    simp only [exists_mem_cons_iff, h.cover]
  · rw [total_cons, total_cons, h.total]

lemma tiles_empty : Tiles ((a, 0) :: l) r ↔ Tiles l r := by
  have hnone : ∀ x, x ∉ points (a, 0) := by
    intro x hx
    rw [mem_points] at hx
    dsimp only at hx
    omega
  have hcover : ∀ x, (∃ s ∈ (a, 0) :: l, x ∈ points s) ↔ ∃ s ∈ l, x ∈ points s := by
    intro x
    simp only [exists_mem_cons_iff, hnone, false_or]
  have hsum : intervals.total ((a, 0) :: l) = intervals.total l := by
    rw [total_cons, Nat.zero_add]
  constructor
  · intro h
    exact ⟨(pairwise_cons.mp h.apart).2, fun x => (hcover x).symm.trans (h.cover x),
      hsum.symm.trans h.total⟩
  · intro h
    refine ⟨pairwise_cons.mpr ⟨?_, h.apart⟩, fun x => (hcover x).trans (h.cover x),
      hsum.trans h.total⟩
    intro t _
    rw [apart_iff]
    intro x hx
    exact absurd hx (hnone x)

lemma Tiles.start (h : Tiles l r) (hs : s ∈ l) (h0 : 0 < s.2) : ∃ t ∈ r, t.1 ≤ s.1 := by
  obtain ⟨t, ht, hx⟩ := (h.cover s.1).mp ⟨s, hs, by rw [mem_points]; omega⟩
  exact ⟨t, ht, (mem_points.mp hx).1⟩

/-! ## Spans in order, with a gap between any two -/

def Gapped (l : List Span) : Prop := l.Pairwise fun s t => s.1 + s.2 < t.1

lemma Gapped.ne {u v : List Span} (h : Gapped (u ++ s :: v)) : ∀ t ∈ u ++ v, t.1 ≠ s.1 := by
  obtain ⟨_, h1, h2⟩ := pairwise_append.mp h
  intro t ht
  rcases mem_append.mp ht with ht | ht
  · have := h2 t ht s mem_cons_self
    omega
  · have := (pairwise_cons.mp h1).1 t ht
    omega

lemma Gapped.place (h : Gapped (s :: l)) (hs : s.1 < x) (hne : ∀ t ∈ l, t.1 ≠ x) :
    ∃ u p v, s :: l = u ++ p :: v ∧ p.1 < x ∧ ∀ t ∈ v, x < t.1 := by
  induction l generalizing s with
  | nil => exact ⟨[], s, [], rfl, hs, by simp⟩
  | cons t l ih =>
    obtain ⟨h1, h2⟩ := pairwise_cons.mp h
    by_cases ht : t.1 < x
    · obtain ⟨u, p, v, heq, hp, hv⟩ := ih h2 ht fun c hc => hne c (mem_cons_of_mem t hc)
      exact ⟨s :: u, p, v, by rw [heq, cons_append], hp, hv⟩
    · have hxt : x < t.1 := by
        have := hne t mem_cons_self
        omega
      refine ⟨[], s, t :: l, rfl, hs, ?_⟩
      intro c hc
      rcases mem_cons.mp hc with rfl | hc
      · exact hxt
      · have := (pairwise_cons.mp h2).1 c hc
        omega

/-- A span in front of others; it becomes one with the first of them when they touch. -/
def push (s : Span) : List Span → List Span
  | [] => [s]
  | t :: l => if s.1 + s.2 = t.1 then (s.1, s.2 + t.2) :: l else s :: t :: l

lemma push_cons (s t : Span) (l : List Span) : push s (t :: l) =
    if s.1 + s.2 = t.1 then (s.1, s.2 + t.2) :: l else s :: t :: l := rfl

lemma mem_push (h : t ∈ push s l) : t ∈ l ∨ (t.1 = s.1 ∧ s.2 ≤ t.2) := by
  cases l with
  | nil =>
    rw [push, mem_singleton] at h
    rw [h]
    exact .inr ⟨rfl, le_refl _⟩
  | cons q l =>
    rw [push_cons] at h
    split at h
    · rcases mem_cons.mp h with rfl | h
      · exact .inr ⟨rfl, Nat.le_add_right _ _⟩
      · exact .inl (mem_cons_of_mem q h)
    · rcases mem_cons.mp h with rfl | h
      · exact .inr ⟨rfl, le_refl _⟩
      · exact .inl h

lemma push_eq_cons (s : Span) (l : List Span) :
    ∃ n l', push s l = (s.1, s.2 + n) :: l' := by
  cases l with
  | nil => exact ⟨0, [], rfl⟩
  | cons q l =>
    rw [push_cons]
    split
    · exact ⟨q.2, l, rfl⟩
    · exact ⟨0, q :: l, rfl⟩

lemma total_push : total (push s l) = s.2 + total l := by
  cases l with
  | nil => rfl
  | cons q l =>
    rw [push_cons]
    split
    · simp only [total_cons, Nat.add_assoc]
    · rw [total_cons]

lemma Gapped.push (h : Gapped l) (hle : ∀ t ∈ l, s.1 + s.2 ≤ t.1) : Gapped (push s l) := by
  cases l with
  | nil => exact pairwise_singleton _ _
  | cons q l =>
    obtain ⟨h1, h2⟩ := pairwise_cons.mp h
    rw [push_cons]
    split
    · rename_i he
      refine pairwise_cons.mpr ⟨?_, h2⟩
      intro t ht
      have := h1 t ht
      omega
    · rename_i hne
      have hq : s.1 + s.2 < q.1 := lt_of_le_of_ne (hle q mem_cons_self) hne
      refine pairwise_cons.mpr ⟨?_, h⟩
      intro t ht
      rcases mem_cons.mp ht with rfl | ht
      · exact hq
      · have := h1 t ht
        omega

lemma Tiles.push {k : List Span} (h : Tiles (s :: (l ++ k)) r) : Tiles (push s l ++ k) r := by
  cases l with
  | nil => exact h
  | cons q l =>
    rw [push_cons]
    split
    · rename_i he
      obtain ⟨a, m⟩ := s
      obtain ⟨b, n⟩ := q
      dsimp only at he
      subst he
      exact tiles_cut.mpr h
    · exact h

/-! ## A span put in its place -/

section Insert
variable {u v k : List Span} {p b : Span}

def settle (u : List Span) (p b : Span) (v : List Span) : List Span := u ++ push p (push b v)

lemma Tiles.room (h : Tiles (u ++ p :: v ++ b :: k) r) (hp : p.1 < b.1) (hb : 0 < b.2)
    (hv : ∀ t ∈ v, b.1 < t.1 ∧ 0 < t.2) : p.1 + p.2 ≤ b.1 ∧ ∀ t ∈ v, b.1 + b.2 ≤ t.1 := by
  have hap := (pairwise_append.mp h.apart).2.2
  have hpb := hap p (by simp) b mem_cons_self
  refine ⟨hpb.le hp hb, ?_⟩
  intro t ht
  have htb := hap t (by simp [ht]) b mem_cons_self
  exact htb.symm.le (hv t ht).1 (hv t ht).2

lemma Gapped.settle (h : Gapped (u ++ p :: v)) (hp : p.1 + p.2 ≤ b.1)
    (hv : ∀ t ∈ v, b.1 + b.2 ≤ t.1) : Gapped (settle u p b v) := by
  obtain ⟨hu, hpv, hcross⟩ := pairwise_append.mp h
  obtain ⟨hpv', hv'⟩ := pairwise_cons.mp hpv
  have hb : Gapped (intervals.push b v) := Gapped.push hv' hv
  have hfrom : ∀ t ∈ intervals.push b v, p.1 + p.2 ≤ t.1 := by
    intro t ht
    rcases mem_push ht with ht | ⟨he, _⟩
    · exact le_of_lt (hpv' t ht)
    · rw [he]
      exact hp
  refine pairwise_append.mpr ⟨hu, hb.push hfrom, ?_⟩
  intro s hs t ht
  have hsp := hcross s hs p mem_cons_self
  have hpt : p.1 ≤ t.1 := by
    rcases mem_push ht with ht | ⟨he, _⟩
    · exact le_trans (Nat.le_add_right _ _) (hfrom t ht)
    · rw [he]
  omega

lemma Tiles.settle (h : Tiles (u ++ p :: v ++ b :: k) r) : Tiles (settle u p b v ++ k) r := by
  have h1 : Tiles (b :: (v ++ p :: (u ++ k))) r := by
    apply h.perm
    rw [perm_iff_count]
    intro x
    simp only [count_append, count_cons]
    omega
  have h2 : Tiles (p :: (intervals.push b v ++ (u ++ k))) r := h1.push.perm perm_middle
  apply h2.push.perm
  unfold intervals.settle
  rw [append_assoc]
  exact perm_append_comm_assoc _ _ _

lemma mem_settle (h : t ∈ settle u p b v) : t ∈ u ++ p :: v ∨ b.1 + b.2 ≤ t.1 + t.2 := by
  have hpushed : t ∈ intervals.push b v → t ∈ u ++ p :: v ∨ b.1 + b.2 ≤ t.1 + t.2 := by
    intro ht
    rcases mem_push ht with ht | ⟨he, hle⟩
    · exact .inl (by simp [ht])
    · exact .inr (by omega)
  obtain ⟨n, l, hb⟩ := push_eq_cons b v
  rw [hb] at hpushed
  unfold intervals.settle at h
  rw [hb, push_cons] at h
  rcases mem_append.mp h with h | h
  · exact .inl (mem_append_left _ h)
  · split at h
    · rcases mem_cons.mp h with rfl | h
      · dsimp only at *
        exact .inr (by omega)
      · exact hpushed (mem_cons_of_mem _ h)
    · rcases mem_cons.mp h with rfl | h
      · exact .inl (by simp)
      · exact hpushed h

lemma exists_settle (u : List Span) (p b : Span) (v : List Span) :
    ∃ t ∈ settle u p b v, b.2 ≤ t.2 := by
  obtain ⟨n, l, hb⟩ := push_eq_cons b v
  unfold intervals.settle
  rw [hb, push_cons]
  split
  · exact ⟨(p.1, p.2 + (b.2 + n)), by simp, by dsimp only; omega⟩
  · exact ⟨(b.1, b.2 + n), by simp, Nat.le_add_right _ _⟩

end Insert

end intervals
