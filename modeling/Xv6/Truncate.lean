-- `itrunc`: every block of the inode goes back to the bitmap, and `bfree` finds
-- each of them in use.
import Mathlib.Data.List.Nodup
import Xv6.BlockMap

open bytes ownership wp Function List

namespace xv6.fs

variable {sb : Superblock} {s t : Fs} {ip : Nat} {E : Stop → Prop}

/-! ## Lists of blocks -/

/-- The bitmap without the blocks of the list. -/
def clearBits (bitmap : Nat → Bool) (bs : List Nat) (b : Nat) : Bool :=
  bitmap b && !decide (b ≠ 0 ∧ b ∈ bs)

variable {b : Nat} {bitmap : Nat → Bool} {bs : List Nat}

lemma clearBits_true :
    clearBits bitmap bs b = true ↔ bitmap b = true ∧ ¬ (b ≠ 0 ∧ b ∈ bs) := by
  simp only [clearBits, Bool.and_eq_true, Bool.not_eq_true', decide_eq_false_iff_not]

lemma clearBits_cons_zero (bitmap : Nat → Bool) (bs : List Nat) :
    clearBits bitmap (0 :: bs) = clearBits bitmap bs := by
  funext b
  by_cases hb : b = 0
  · simp [clearBits, hb]
  · simp [clearBits, hb]

lemma clearBits_cons {x : Nat} (hx : x ≠ 0) (bitmap : Nat → Bool) (bs : List Nat) :
    clearBits bitmap (x :: bs) = clearBits (update bitmap x false) bs := by
  funext b
  by_cases hb : b = x
  · subst hb
    simp [clearBits, hx]
  · simp [clearBits, hb]

/-- The blocks of the list are in use, and none of them stands twice. -/
structure Freeable (bitmap : Nat → Bool) (bs : List Nat) : Prop where
  used : ∀ b ∈ bs, b ≠ 0 → bitmap b = true
  distinct : (bs.filter (· ≠ 0)).Nodup

lemma Freeable.tail {x : Nat}
    (h : Freeable bitmap (x :: bs)) (hx : x ≠ 0) : Freeable (update bitmap x false) bs := by
  have hd := h.distinct
  simp only [filter_cons, ne_eq, hx, not_false_eq_true, decide_true, if_true] at hd
  obtain ⟨hnot, hd⟩ := nodup_cons.mp hd
  refine ⟨?_, hd⟩
  intro b hb hb0
  have hne : b ≠ x := by
    rintro rfl
    exact hnot (mem_filter.mpr ⟨hb, by simpa using hb0⟩)
  rw [update_of_ne hne]
  exact h.used b (mem_cons_of_mem _ hb) hb0

lemma Freeable.tail_zero (h : Freeable bitmap (0 :: bs)) :
    Freeable bitmap bs :=
  ⟨fun b hb hb0 => h.used b (mem_cons_of_mem _ hb) hb0, by simpa using h.distinct⟩

/-! ## The loops -/

lemma wp_bfree (h : s.bitmap b = true) :
    Wp (bfree b) (fun _ t => t = { s with bitmap := update s.bitmap b false }) E s := by
  unfold bfree
  rw [wp_get_bind, if_neg (by simp [h]), wp_set]

lemma wp_bfreeAll (h : Freeable s.bitmap bs) :
    Wp (bfreeAll bs) (fun _ t => t = { s with bitmap := clearBits s.bitmap bs }) E s := by
  induction bs generalizing s with
  | nil =>
    have : clearBits s.bitmap [] = s.bitmap := by
      funext b
      simp [clearBits]
    simp [bfreeAll, this]
  | cons x bs ih =>
    apply wp_ite <;> intro hx
    · refine (wp_bfree (h.used x mem_cons_self hx)).bind ?_
      rintro _ t rfl
      refine (ih (h.tail hx)).imp ?_
      rintro _ t rfl
      rw [clearBits_cons hx]
    · have hx0 : x = 0 := by simpa using hx
      subst hx0
      refine (ih h.tail_zero).imp ?_
      rintro _ t rfl
      rw [clearBits_cons_zero]

/-- The addresses with 0 at the places of the list. -/
def clearAddrs (addrs : Nat → Nat) (is : List Nat) (i : Nat) : Nat :=
  if i ∈ is then 0 else addrs i

lemma clearAddrs_cons (addrs : Nat → Nat) (i : Nat) (is : List Nat) :
    clearAddrs addrs (i :: is) = clearAddrs (update addrs i 0) is := by
  funext j
  by_cases hj : j = i
  · subst hj
    simp [clearAddrs]
  · simp [clearAddrs, hj]

lemma wp_itruncDirect {is : List Nat} (hnd : is.Nodup)
    (h : Freeable s.bitmap (is.map (s.itable ip).addrs)) :
    Wp (itruncDirect ip is) (fun _ t => t =
      { s with bitmap := clearBits s.bitmap (is.map (s.itable ip).addrs),
               itable := update s.itable ip
                { s.itable ip with addrs := clearAddrs (s.itable ip).addrs is } }) E s := by
  induction is generalizing s with
  | nil =>
    have h1 : clearBits s.bitmap [] = s.bitmap := by
      funext b
      simp [clearBits]
    have h2 : clearAddrs (s.itable ip).addrs [] = (s.itable ip).addrs := by
      funext j
      simp [clearAddrs]
    simp [itruncDirect, h1, h2]
  | cons i is ih =>
    obtain ⟨hi, hnd⟩ := nodup_cons.mp hnd
    unfold itruncDirect
    rw [wp_get_bind]
    simp only [map_cons] at h ⊢
    apply wp_ite <;> intro hx
    · refine (wp_bfree (h.used _ mem_cons_self hx)).bind ?_
      rintro _ t rfl
      rw [wp_modifyInode_bind]
      have hmap : is.map (update (s.itable ip).addrs i 0) =
          is.map (s.itable ip).addrs := by
        apply map_congr_left
        intro j hj
        apply update_of_ne
        rintro rfl
        exact hi hj
      refine (ih hnd ?_).imp ?_
      · simp only [setSlot, update_self, hmap]
        exact h.tail hx
      · rintro _ t rfl
        simp only [setSlot, update_self, update_idem, hmap, clearBits_cons hx,
          clearAddrs_cons]
    · have hx0 : (s.itable ip).addrs i = 0 := by simpa using hx
      rw [hx0] at h ⊢
      refine (ih hnd h.tail_zero).imp ?_
      rintro _ t rfl
      have hsame : update (s.itable ip).addrs i 0 = (s.itable ip).addrs := by
        rw [← hx0, update_eq_self]
      rw [clearBits_cons_zero, clearAddrs_cons, hsame]

/-! ## The whole inode -/

def directBlocks (s : Fs) (ip : Nat) : List Nat := (List.range NDIRECT).map (s.itable ip).addrs

def entryBlocks (s : Fs) (ip : Nat) : List Nat :=
  (List.range NINDIRECT).map (indirectEntry (s.data ((s.itable ip).addrs NDIRECT)))

lemma map_freeable {low size : Nat} {used : Nat → Bool} {ref : Nat × Nat → Nat}
    (h : Exact low size used ref) {f g : Nat → Nat} {n i : Nat} (hg : ∀ j k, g j = g k → j = k)
    (hf : ∀ j < n, f j = ref (i, g j)) : Freeable used ((List.range n).map f) := by
  constructor
  · intro b hb hb0
    obtain ⟨j, hj, rfl⟩ := mem_map.mp hb
    rw [hf j (mem_range.mp hj)] at hb0 ⊢
    exact h.used_of_ref hb0
  · rw [filter_map]
    apply List.Nodup.map_on
    · intro j hj k hk hjk
      obtain ⟨hj, hj0⟩ := mem_filter.mp hj
      obtain ⟨hk, _⟩ := mem_filter.mp hk
      simp only [Function.comp_apply, ne_eq, decide_not, Bool.not_eq_eq_eq_not, Bool.not_true,
        decide_eq_false_iff_not] at hj0
      rw [hf j (mem_range.mp hj)] at hj0 hjk
      rw [hf k (mem_range.mp hk)] at hjk
      exact hg j k (Prod.mk.inj (h.inj _ _ hj0 hjk)).2
    · exact List.Nodup.filter _ nodup_range

/-- What `itrunc` leaves. -/
structure Truncated (ip : Nat) (s t : Fs) : Prop where
  data : t.data = s.data
  ftable : t.ftable = s.ftable
  proc : t.proc = s.proc
  dinode : t.dinode = update s.dinode (s.itable ip).inum (t.itable ip).toDinode
  itable : ∃ addrs, (∀ pos ≤ NDIRECT, addrs pos = 0) ∧
    t.itable = update s.itable ip { s.itable ip with addrs, size := 0 }
  bits : ∀ b, t.bitmap b = true ↔ s.bitmap b = true ∧
    ¬ ∃ p : Nat × Nat, p.1 = (s.itable ip).inum ∧ refAt (flush ip s) p ≠ 0 ∧
      refAt (flush ip s) p = b

lemma direct_eq_refAt (ht : (s.itable ip).type ≠ .free) {pos : Nat} (hpos : pos ≤ NDIRECT) :
    (s.itable ip).addrs pos = refAt (flush ip s) ((s.itable ip).inum, pos) := by
  unfold refAt
  rw [flush_dinode_self, place_of_le ht _ hpos]

lemma entry_eq_refAt (ht : (s.itable ip).type ≠ .free) (hind : (s.itable ip).addrs NDIRECT ≠ 0)
    {j : Nat} (hj : j < NINDIRECT) :
    indirectEntry (s.data ((s.itable ip).addrs NDIRECT)) j =
      refAt (flush ip s) ((s.itable ip).inum, NDIRECT + 1 + j) := by
  unfold refAt
  rw [flush_dinode_self, place_entry ht _ hj hind, flush_data]

lemma refAt_inode_cases (ht : (s.itable ip).type ≠ .free) (hb : b ≠ 0) :
    (∃ p : Nat × Nat, p.1 = (s.itable ip).inum ∧ refAt (flush ip s) p ≠ 0 ∧
        refAt (flush ip s) p = b) ↔
      b ∈ directBlocks s ip ∨ b = (s.itable ip).addrs NDIRECT ∨
        (s.itable ip).addrs NDIRECT ≠ 0 ∧ b ∈ entryBlocks s ip := by
  constructor
  · rintro ⟨⟨i, pos⟩, rfl, h0, hp⟩
    by_cases h1 : pos < NDIRECT
    · left
      refine mem_map.mpr ⟨pos, mem_range.mpr h1, ?_⟩
      rw [direct_eq_refAt ht (by omega), hp]
    · by_cases h2 : pos = NDIRECT
      · subst h2
        right; left
        rw [direct_eq_refAt ht (le_refl _), hp]
      · right; right
        have hr := h0
        unfold refAt Dinode.place at hr
        rw [flush_dinode_self] at hr
        split at hr
        · exact absurd rfl hr
        · rename_i hlim
          split at hr
          · omega
          · split at hr
            · exact absurd rfl hr
            · rename_i hind
              have hj : pos - NDIRECT - 1 < NINDIRECT := by
                unfold NPLACE at hlim
                omega
              refine ⟨hind, mem_map.mpr ⟨pos - NDIRECT - 1, mem_range.mpr hj, ?_⟩⟩
              rw [entry_eq_refAt ht hind hj, ← hp]
              congr 2
              omega
  · rintro (hm | rfl | ⟨hind, hm⟩)
    · obtain ⟨pos, hpos, rfl⟩ := mem_map.mp hm
      have hlt := mem_range.mp hpos
      rw [direct_eq_refAt ht (by omega)] at hb ⊢
      exact ⟨_, rfl, hb, rfl⟩
    · rw [direct_eq_refAt ht (le_refl _)] at hb ⊢
      exact ⟨_, rfl, hb, rfl⟩
    · obtain ⟨j, hj, rfl⟩ := mem_map.mp hm
      rw [entry_eq_refAt ht hind (mem_range.mp hj)] at hb ⊢
      exact ⟨_, rfl, hb, rfl⟩

lemma Freeable.clear {bs ds : List Nat} (h : Freeable bitmap bs)
    (hds : ∀ b ∈ bs, b ≠ 0 → b ∉ ds) : Freeable (clearBits bitmap ds) bs :=
  ⟨fun b hb hb0 => clearBits_true.mpr ⟨h.used b hb hb0, fun hm => hds b hb hb0 hm.2⟩, h.distinct⟩

lemma wp_itruncIndirect (hfree : (s.itable ip).addrs NDIRECT ≠ 0 →
      Freeable s.bitmap (entryBlocks s ip) ∧ s.bitmap ((s.itable ip).addrs NDIRECT) = true ∧
        (s.itable ip).addrs NDIRECT ∉ entryBlocks s ip) :
    Wp (itruncIndirect ip) (fun _ t => ∃ bitmap, t =
      { s with bitmap, itable := update s.itable ip
                { s.itable ip with addrs := update (s.itable ip).addrs NDIRECT 0 } } ∧
      ∀ b, bitmap b = true ↔ s.bitmap b = true ∧ ¬ ((s.itable ip).addrs NDIRECT ≠ 0 ∧
        (b = (s.itable ip).addrs NDIRECT ∨ b ≠ 0 ∧ b ∈ entryBlocks s ip))) E s := by
  unfold itruncIndirect
  rw [wp_get_bind]
  apply wp_ite <;> intro ha
  · obtain ⟨hf, hbit, hnot⟩ := hfree ha
    refine (wp_bfreeAll hf).bind ?_
    rintro _ t rfl
    refine (wp_bfree (clearBits_true.mpr ⟨hbit, fun hm => hnot hm.2⟩)).bind ?_
    rintro _ t rfl
    rw [wp_modifyInode]
    refine ⟨_, rfl, fun b => ?_⟩
    by_cases hb : b = (s.itable ip).addrs NDIRECT
    · simp [hb, ha]
    · dsimp only
      rw [update_of_ne hb, clearBits_true]
      simp [hb, ha]
  · have ha0 : (s.itable ip).addrs NDIRECT = 0 := by simpa using ha
    rw [wp_pure]
    have hsame : update (s.itable ip).addrs NDIRECT 0 = (s.itable ip).addrs := by
      rw [← ha0, update_eq_self]
    refine ⟨s.bitmap, ?_, fun b => by simp [ha0]⟩
    rw [hsame, update_eq_self]

lemma wp_itrunc (h : Owned sb (flush ip s)) (ht : (s.itable ip).type ≠ .free) :
    Wp (itrunc ip) (fun _ t => Truncated ip s t) E s := by
  have hdirect : Freeable s.bitmap (directBlocks s ip) :=
    map_freeable h.exact (g := id) (fun _ _ h => h)
      (fun j hj => direct_eq_refAt ht (Nat.le_of_lt hj))
  refine (wp_itruncDirect nodup_range hdirect).bind ?_
  rintro _ t rfl
  have haddr : clearAddrs (s.itable ip).addrs (List.range NDIRECT) NDIRECT =
      (s.itable ip).addrs NDIRECT := by
    simp [clearAddrs]
  refine (wp_itruncIndirect ?_).bind ?_
  · simp only [entryBlocks, update_self, haddr]
    intro hind
    have hentry : Freeable s.bitmap (entryBlocks s ip) :=
      map_freeable h.exact (g := fun j => NDIRECT + 1 + j) (fun _ _ h => by omega)
        (fun j hj => entry_eq_refAt ht hind hj)
    refine ⟨hentry.clear ?_, clearBits_true.mpr ⟨?_, ?_⟩, ?_⟩
    · intro b hb hb0 hbd
      obtain ⟨j, hj, rfl⟩ := mem_map.mp hb
      obtain ⟨pos, hpos, hp⟩ := mem_map.mp hbd
      have hlt := mem_range.mp hpos
      rw [entry_eq_refAt ht hind (mem_range.mp hj)] at hb0 hp
      rw [direct_eq_refAt ht (Nat.le_of_lt hlt)] at hp
      have := (Prod.mk.inj (h.exact.inj _ _ hb0 hp.symm)).2
      omega
    · rw [direct_eq_refAt ht (le_refl _)] at hind ⊢
      exact h.exact.used_of_ref hind
    · rintro ⟨_, hbd⟩
      obtain ⟨pos, hpos, hp⟩ := mem_map.mp hbd
      have hlt := mem_range.mp hpos
      rw [direct_eq_refAt ht (le_refl _)] at hind hp
      rw [direct_eq_refAt ht (Nat.le_of_lt hlt)] at hp
      have := (Prod.mk.inj (h.exact.inj _ _ hind hp.symm)).2
      omega
    · intro hm
      obtain ⟨j, hj, hp⟩ := mem_map.mp hm
      rw [entry_eq_refAt ht hind (mem_range.mp hj)] at hp
      have hind' := hind
      rw [direct_eq_refAt ht (le_refl _)] at hind' hp
      have := (Prod.mk.inj (h.exact.inj _ _ hind' hp.symm)).2
      omega
  · rintro _ t ⟨bitmap, rfl, hbits⟩
    rw [wp_modifyInode_bind]
    simp only [setSlot, entryBlocks, update_self, haddr, update_idem] at hbits ⊢
    unfold iupdate
    rw [wp_modify]
    refine ⟨rfl, rfl, rfl, ?_, ⟨_, ?_, rfl⟩, ?_⟩
    · simp
    · intro pos hpos
      by_cases hp : pos = NDIRECT
      · rw [hp, update_self]
      · rw [update_of_ne hp]
        have : pos < NDIRECT := by omega
        simp [clearAddrs, this]
    · intro b
      refine (hbits b).trans ?_
      rw [clearBits_true, and_assoc]
      apply and_congr_right
      intro _
      by_cases hb : b = 0
      · subst hb
        constructor
        · rintro _ ⟨p, _, h0, hp⟩
          exact h0 hp
        · intro _
          refine ⟨by simp, ?_⟩
          rintro ⟨hind, heq | hm⟩
          · exact hind heq.symm
          · exact hm.1 rfl
      · rw [refAt_inode_cases ht hb, ← not_or]
        apply not_congr
        constructor
        · rintro (⟨_, hm⟩ | ⟨hind, heq | ⟨_, hm⟩⟩)
          · exact .inl hm
          · exact .inr (.inl heq)
          · exact .inr (.inr ⟨hind, hm⟩)
        · rintro (hm | heq | ⟨hind, hm⟩)
          · exact .inl ⟨hb, hm⟩
          · exact .inr ⟨heq ▸ hb, .inl heq⟩
          · exact .inr ⟨hind, .inr ⟨hb, hm⟩⟩

end xv6.fs
