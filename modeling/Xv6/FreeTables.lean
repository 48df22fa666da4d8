-- A page table is taken down: `freewalk` frees its three levels when nothing is
-- mapped any more, and `uvmfree` and `proc_freepagetable` unmap first.
import Xv6.UserMemory

open cells linked wp List

namespace xv6.vm

variable {ld : Link} {use use' : Nat → Use} {l l' : List Nat} {v v' : Vm} {r x i j k n : Nat}
  {mem : Nat → Nat → Nat} {T : Tab} {E : Stop → Prop} {S S' W W' : Nat → Prop}

/-- The pages in `S` went to the free list. Of the others, only those in `W` were written. -/
structure Freed (ld : Link) (use : Nat → Use) (v : Vm) (S W : Nat → Prop)
    (use' : Nat → Use) (l' : List Nat) (v' : Vm) : Prop where
  heap : Heap ld use' l' v'
  freed : ∀ x, S x → use' x = .free
  keep : ∀ x, ¬ S x → use' x = use x
  same : ∀ x, use x ≠ .free → ¬ S x → ¬ W x → v'.mem x = v.mem x

lemma Freed.refl (h : Heap ld use l v) (hS : ∀ x, ¬ S x) : Freed ld use v S W use l v :=
  ⟨h, fun x hx => absurd hx (hS x), fun _ _ => rfl, fun _ _ _ _ => rfl⟩

lemma Freed.congr (h : Freed ld use v S W use' l' v') (hS : ∀ x, S' x ↔ S x)
    (hW : ∀ x, W x → W' x ∨ S' x) : Freed ld use v S' W' use' l' v' := by
  refine ⟨h.heap, fun x hx => h.freed x ((hS x).mp hx), fun x hx => h.keep x ?_,
    fun x h1 h2 h3 => h.same x h1 ?_ ?_⟩
  · rwa [hS] at hx
  · rwa [hS] at h2
  · exact fun hw => (hW x hw).elim h3 h2

lemma Freed.trans {use'' : Nat → Use} {l'' : List Nat} {v'' : Vm}
    (h : Freed ld use v S W use' l' v') (h' : Freed ld use' v' S' W use'' l'' v'') :
    Freed ld use v (fun x => S x ∨ S' x) W use'' l'' v'' := by
  refine ⟨h'.heap, fun x hx => ?_, fun x hx => ?_, fun x h1 hx h3 => ?_⟩
  · by_cases h2 : S' x
    · exact h'.freed x h2
    · rw [h'.keep x h2]
      exact h.freed x (hx.resolve_right h2)
  · rw [not_or] at hx
    rw [h'.keep x hx.2, h.keep x hx.1]
  · rw [not_or] at hx
    rw [h'.same x (by rw [h.keep x hx.1]; exact h1) hx.2 h3, h.same x h1 hx.1 h3]

lemma Freed.putPage {P : Nat} (h : Freed ld use v S W use' l' v') (hP : use' P ≠ .free)
    (hW : W P) (f : Nat → Nat) : Freed ld use v S W use' l' (v'.putPage P f) := by
  refine ⟨h.heap.putPage hP f, h.freed, h.keep, fun x h1 h2 h3 => ?_⟩
  rw [putPage_of_ne, h.same x h1 h2 h3]
  rintro rfl
  exact h3 hW

lemma wp_kfree_freed (h : Heap ld use l v) (hx : IsPage ld x) (hu : use x ≠ .free) :
    Wp (kfree ld x) (fun _ v' => ∃ use' l', Freed ld use v (fun y => y = x) W use' l' v') E v := by
  refine (wp_kfree h hx hu).imp ?_
  rintro _ v' ⟨hheap, hmem⟩
  refine ⟨_, _, hheap, ?_, fun y hy => put_of_ne hy .., fun y _ hy _ => hmem y hy⟩
  rintro y rfl
  exact put_self ..

/-! ## `freewalk` -/

lemma wp_freewalkLoop {rec : Nat → V Unit} {P : Nat} {is : List Nat} {child : Nat → Nat}
    {S : Nat → Nat → Prop} (h : Heap ld use l v) (hP : IsPage ld P) (hPu : use P ≠ .free)
    (hdup : is.Nodup) (hw : ∀ i ∈ is, v.mem P i = dir (child i))
    (hal : ∀ i ∈ is, child i ≠ 0 → child i % PGSIZE = 0)
    (hchild : ∀ i ∈ is, ∀ x, S i x → child i ≠ 0 ∧ use x ≠ .free ∧ x ≠ P)
    (hS : ∀ i j x, S i x → S j x → i = j)
    (hrec : ∀ i ∈ is, child i ≠ 0 → ∀ use1 l1 v1, Heap ld use1 l1 v1 →
      (∀ x, S i x → use1 x = use x ∧ v1.mem x = v.mem x) →
      Wp (rec (child i)) (fun _ v2 => ∃ use2 l2,
        Freed ld use1 v1 (S i) (fun _ => False) use2 l2 v2) E v1) :
    Wp (freewalkLoop rec P is) (fun _ v' => ∃ use' l',
      Freed ld use v (fun x => ∃ i ∈ is, S i x) (fun x => x = P) use' l' v') E v := by
  induction is generalizing use l v with
  | nil =>
    unfold freewalkLoop
    rw [wp_pure]
    exact ⟨use, l, .refl h (by simp)⟩
  | cons i is ih =>
    rw [nodup_cons] at hdup
    have hi : i ∈ i :: is := mem_cons_self
    have hSP : ¬ S i P := fun hx => (hchild i hi P hx).2.2 rfl
    unfold freewalkLoop
    rw [wp_load_bind hP.inRam, hw i hi]
    -- the entry is freed, or it names no table
    have hone : Wp (if dir (child i) &&& PTE_V ≠ 0 ∧
          dir (child i) &&& (PTE_R ||| PTE_W ||| PTE_X) = 0 then do
            rec (PTE2PA (dir (child i)))
            store P i 0
          else if dir (child i) &&& PTE_V ≠ 0 then
            throw (.panic "freewalk: leaf")
          else
            pure ()) (fun _ v1 => ∃ use1 l1, Freed ld use v (S i) (fun x => x = P) use1 l1 v1 ∧
              ∀ k, k ≠ i → v1.mem P k = v.mem P k) E v := by
      by_cases hc : child i = 0
      · rw [hc, dir_zero, if_neg (by simp), if_neg (by simp), wp_pure]
        exact ⟨use, l, .refl h fun x hx => (hchild i hi x hx).1 hc, fun _ _ => rfl⟩
      · obtain ⟨h1, h2, h3⟩ := dir_valid hc (hal i hi hc)
        rw [if_pos ⟨h1, h2⟩, h3]
        refine (hrec i hi hc use l v h fun x _ => ⟨rfl, rfl⟩).bind ?_
        rintro _ v1 ⟨use1, l1, hf⟩
        have hPu1 : use1 P ≠ .free := by
          rw [hf.keep P hSP]
          exact hPu
        rw [wp_store hP.inRam]
        have hf' : Freed ld use v (S i) (fun x => x = P) use1 l1 v1 :=
          hf.congr (fun _ => Iff.rfl) fun x hx => hx.elim
        refine ⟨use1, l1, hf'.putPage hPu1 rfl _, ?_⟩
        intro k hk
        rw [putPage_self, put_of_ne hk, hf.same P hPu hSP not_false]
    refine hone.bind ?_
    rintro _ v1 ⟨use1, l1, hf, hwords⟩
    have hother : ∀ j ∈ is, ∀ x, S j x → use1 x = use x ∧ v1.mem x = v.mem x := by
      intro j hj x hx
      obtain ⟨_, hxu, hxP⟩ := hchild j (mem_cons_of_mem i hj) x hx
      have hnot : ¬ S i x := fun hix => hdup.1 (hS j i x hx hix ▸ hj)
      exact ⟨hf.keep x hnot, hf.same x hxu hnot hxP⟩
    have hPu1 : use1 P ≠ .free := by
      rw [hf.keep P hSP]
      exact hPu
    refine (ih hf.heap hPu1 hdup.2 ?_ ?_ ?_ ?_).imp ?_
    · intro j hj
      rw [hwords j fun he => hdup.1 (he ▸ hj)]
      exact hw j (mem_cons_of_mem i hj)
    · exact fun j hj => hal j (mem_cons_of_mem i hj)
    · intro j hj x hx
      rw [(hother j hj x hx).1]
      exact hchild j (mem_cons_of_mem i hj) x hx
    · intro j hj hc use2 l2 v2 hheap2 hsame2
      refine hrec j (mem_cons_of_mem i hj) hc use2 l2 v2 hheap2 fun x hx => ?_
      obtain ⟨h1, h2⟩ := hsame2 x hx
      obtain ⟨h3, h4⟩ := hother j hj x hx
      exact ⟨h1.trans h3, h2.trans h4⟩
    · rintro _ v2 ⟨use2, l2, hf2⟩
      exact ⟨use2, l2, (hf.trans hf2).congr (by simp) fun x hx => .inl hx⟩

lemma wp_freewalkDepth {P depth : Nat} {c : Nat → Nat} {S : Nat → Nat → Prop}
    (h : Heap ld use l v) (hP : IsPage ld P) (hPu : use P ≠ .free)
    (hw : ∀ i < NPTE, v.mem P i = dir (c i))
    (hal : ∀ i < NPTE, c i ≠ 0 → c i % PGSIZE = 0)
    (hchild : ∀ i < NPTE, ∀ x, S i x → c i ≠ 0 ∧ use x ≠ .free ∧ x ≠ P)
    (hS : ∀ i j x, S i x → S j x → i = j)
    (hrec : ∀ i < NPTE, c i ≠ 0 → ∀ use1 l1 v1, Heap ld use1 l1 v1 →
      (∀ x, S i x → use1 x = use x ∧ v1.mem x = v.mem x) →
      Wp (freewalkDepth ld depth (c i)) (fun _ v2 => ∃ use2 l2,
        Freed ld use1 v1 (S i) (fun _ => False) use2 l2 v2) E v1) :
    Wp (freewalkDepth ld (depth + 1) P) (fun _ v' => ∃ use' l',
      Freed ld use v (fun x => x = P ∨ ∃ i < NPTE, S i x) (fun _ => False) use' l' v') E v := by
  refine (wp_freewalkLoop (S := S) h hP hPu nodup_range
    (fun i hi => hw i (mem_range.mp hi)) (fun i hi => hal i (mem_range.mp hi))
    (fun i hi => hchild i (mem_range.mp hi)) hS
    (fun i hi => hrec i (mem_range.mp hi))).bind ?_
  rintro _ v1 ⟨use1, l1, hf⟩
  have hnot : ¬ ∃ i ∈ List.range NPTE, S i P := by
    rintro ⟨i, hi, hx⟩
    exact (hchild i (mem_range.mp hi) P hx).2.2 rfl
  refine (wp_kfree_freed (W := fun x => x = P) hf.heap hP (by rw [hf.keep P hnot]; exact hPu)).imp ?_
  rintro _ v2 ⟨use2, l2, hf2⟩
  refine ⟨use2, l2, (hf.trans hf2).congr ?_ fun x hx => .inr (.inl hx)⟩
  intro x
  simp only [mem_range]
  exact or_comm

/-- The pages below entry `i` of the root. -/
def Below (use : Nat → Use) (r i x : Nat) : Prop :=
  use x = .table r (.mid i) ∨ ∃ j, use x = .table r (.low i j)

lemma Table.place_ne (ht : Table use mem r T) {pl : Place} (hx : use x = .table r pl) :
    T.at r pl ≠ 0 := by
  obtain ⟨h1, h2⟩ := ht.at_use x pl hx
  rw [h2]
  exact h1

lemma Table.pages_iff (ht : Table use mem r T) (x : Nat) :
    (∃ pl, use x = .table r pl) ↔ x = r ∨ ∃ i < NPTE, Below use r i x := by
  constructor
  · rintro ⟨_ | i | ⟨i, j⟩, hx⟩
    · exact .inl (ht.at_use x .root hx).2.symm
    · exact .inr ⟨i, ht.mid_lt i (ht.place_ne hx), .inl hx⟩
    · exact .inr ⟨i, ht.mid_lt i (ht.low_mid i j (ht.place_ne hx)).1, .inr ⟨j, hx⟩⟩
  · rintro (rfl | ⟨i, _, hx | ⟨j, hx⟩⟩)
    · exact ⟨.root, ht.use_at .root ht.root_ne⟩
    · exact ⟨_, hx⟩
    · exact ⟨_, hx⟩

lemma wp_freewalk_low {depth : Nat} (h : Heap ld use l v) (hx : IsPage ld x) (hu : use x ≠ .free)
    (h0 : ∀ k < NPTE, v.mem x k = 0) :
    Wp (freewalkDepth ld (depth + 1) x) (fun _ v' => ∃ use' l',
      Freed ld use v (fun y => y = x) (fun _ => False) use' l' v') E v := by
  refine (wp_freewalkDepth (c := fun _ => 0) (S := fun _ _ => False) h hx hu h0
    (fun k _ hc => absurd rfl hc) (fun k _ y hy => hy.elim) (fun k k' y hy => hy.elim)
    (fun k _ hc => absurd rfl hc)).imp ?_
  rintro _ v' ⟨use', l', hf⟩
  exact ⟨use', l', hf.congr (by simp) fun y hy => hy.elim⟩

lemma wp_freewalk_mid {depth : Nat} {use1 : Nat → Use} {v1 : Vm} {l1 : List Nat}
    (h : Heap ld use l v) (ht : Table use v.mem r T) (h0 : ∀ n, T.pte n = 0) (hmid : T.mid i ≠ 0)
    (h1 : Heap ld use1 l1 v1)
    (hsame : ∀ x, Below use r i x → use1 x = use x ∧ v1.mem x = v.mem x) :
    Wp (freewalkDepth ld (depth + 2) (T.mid i)) (fun _ v2 => ∃ use2 l2,
      Freed ld use1 v1 (Below use r i) (fun _ => False) use2 l2 v2) E v1 := by
  have hmu : use (T.mid i) = .table r (.mid i) := ht.use_at (.mid i) hmid
  obtain ⟨hmu1, hmm1⟩ := hsame (T.mid i) (.inl hmu)
  have hwalk : Wp (freewalkDepth ld (depth + 2) (T.mid i)) (fun _ v2 => ∃ use2 l2, Freed ld use1 v1
      (fun x => x = T.mid i ∨ ∃ j < NPTE, use x = .table r (.low i j)) (fun _ => False)
      use2 l2 v2) E v1 := by
    refine wp_freewalkDepth (c := T.low i) (S := fun j x => use x = .table r (.low i j)) h1
      (ht.page (o := .mid i) h hmid) (by rw [hmu1, hmu]; simp) ?_ ?_ ?_ ?_ ?_
    · intro j hj
      rw [hmm1]
      exact ht.words (.mid i) hmid j hj
    · exact fun j _ hc => (ht.page (o := .low i j) h hc).1
    · intro j _ x hx
      refine ⟨ht.place_ne hx, ?_, ?_⟩
      · rw [(hsame x (.inr ⟨j, hx⟩)).1, hx]
        simp
      · rintro rfl
        rw [hmu] at hx
        cases hx
    · intro j j' x hx hx'
      rw [hx] at hx'
      cases hx'
      rfl
    · intro j _ hlow use2 l2 v2 hheap2 hsame2
      have hlu : use (T.low i j) = .table r (.low i j) := ht.use_at (.low i j) hlow
      obtain ⟨hlu1, hlm1⟩ := hsame (T.low i j) (.inr ⟨j, hlu⟩)
      obtain ⟨hlu2, hlm2⟩ := hsame2 (T.low i j) hlu
      have hpage : IsPage ld (T.low i j) := ht.page (o := .low i j) h hlow
      refine (wp_freewalk_low hheap2 hpage ?_ ?_).imp ?_
      · rw [hlu2, hlu1, hlu]
        simp
      · intro k hk
        rw [hlm2, hlm1]
        exact (ht.words (.low i j) hlow k hk).trans (h0 _)
      · rintro _ v3 ⟨use3, l3, hf⟩
        refine ⟨use3, l3, hf.congr (fun x => ?_) fun x hx => hx.elim⟩
        exact ⟨fun hx => (ht.at_use x (.low i j) hx).2.symm, fun hx => hx ▸ hlu⟩
  refine hwalk.imp ?_
  rintro _ v2 ⟨use2, l2, hf⟩
  refine ⟨use2, l2, hf.congr (fun x => ?_) fun x hx => hx.elim⟩
  constructor
  · rintro (hx | ⟨j, hx⟩)
    · exact .inl (ht.at_use x (.mid i) hx).2.symm
    · exact .inr ⟨j, (ht.low_mid i j (ht.place_ne hx)).2, hx⟩
  · rintro (rfl | ⟨j, _, hx⟩)
    · exact .inl hmu
    · exact .inr ⟨j, hx⟩

lemma wp_freewalk (h : Heap ld use l v) (ht : Table use v.mem r T) (h0 : ∀ n, T.pte n = 0) :
    Wp (freewalk ld r) (fun _ v' => ∃ use' l',
      Freed ld use v (fun x => ∃ pl, use x = .table r pl) (fun _ => False) use' l' v') E v := by
  have hroot : use r = .table r .root := ht.use_at .root ht.root_ne
  have hwalk : Wp (freewalkDepth ld (15 + 1) r) (fun _ v' => ∃ use' l', Freed ld use v
      (fun x => x = r ∨ ∃ i < NPTE, Below use r i x) (fun _ => False) use' l' v') E v := by
    refine wp_freewalkDepth (c := T.mid) h (ht.page (o := .root) h ht.root_ne)
      (by rw [hroot]; simp) (fun i hi => ht.words .root ht.root_ne i hi) ?_ ?_ ?_ ?_
    · exact fun i _ hc => (ht.page (o := .mid i) h hc).1
    · rintro i _ x (hx | ⟨j, hx⟩)
      · refine ⟨ht.place_ne hx, by rw [hx]; simp, ?_⟩
        rintro rfl
        rw [hroot] at hx
        cases hx
      · refine ⟨(ht.low_mid i j (ht.place_ne hx)).1, by rw [hx]; simp, ?_⟩
        rintro rfl
        rw [hroot] at hx
        cases hx
    · rintro i j x (hx | ⟨i', hx⟩) (hy | ⟨j', hy⟩)
      · rw [hx] at hy
        cases hy
        rfl
      · rw [hx] at hy
        cases hy
      · rw [hx] at hy
        cases hy
      · rw [hx] at hy
        cases hy
        rfl
    · exact fun i _ hmid use1 l1 v1 h1 hsame => wp_freewalk_mid h ht h0 hmid h1 hsame
  refine Wp.imp hwalk ?_
  rintro _ v' ⟨use', l', hf⟩
  exact ⟨use', l', hf.congr ht.pages_iff fun x hx => hx.elim⟩

end xv6.vm
