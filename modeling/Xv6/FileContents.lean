-- The contents of a file. A block that `bmap` takes is of no file so far, so
-- that a write changes its own bytes and nothing else: what is read back is
-- what was written, and the old bytes around it.
import Mathlib.Data.List.TakeWhile
import Xv6.WriteSteps

open bytes trace wp Function List

namespace xv6.fslog

open fs

variable {sb : Superblock} {s t u : Fs} {ip i n tot off pos a b bn : Nat}
  {src : Nat → Option UInt8} {bufs bufs' : List Buf} {r : Nat × Nat} {E : Stop → Prop}

/-! ## The blocks of one file -/

/-- The blocks of inode `i` are its own, each at one place, and the bitmap has no block of any file
as free. -/
structure Guarded (sb : Superblock) (i : Nat) (s : Fs) : Prop where
  bits : sb.size ≤ 2 ^ 32
  typed : (s.dinode i).type ≠ .free
  marked : ∀ p, refAt s p ≠ 0 → refAt s p < sb.size → s.bitmap (refAt s p) = true
  sole : ∀ pos p, refAt s (i, pos) ≠ 0 → refAt s p = refAt s (i, pos) → p = (i, pos)

lemma Guarded.type (h : Guarded sb (s.itable ip).inum (flush ip s)) :
    (s.itable ip).type ≠ .free := by
  have ht := h.typed
  rwa [flush_dinode_self] at ht

lemma Guarded.spare (h : Guarded sb i s) (h0 : b ≠ 0) (hb : b < sb.size)
    (hu : s.bitmap b = false) (p : Nat × Nat) : refAt s p ≠ b := by
  rintro rfl
  have hm := h.marked p h0 hb
  rw [hu] at hm
  cases hm

lemma Guarded.indirect (h : Guarded sb (s.itable ip).inum (flush ip s))
    (h0 : (s.itable ip).addrs NDIRECT ≠ 0) (p : Nat × Nat)
    (hp : refAt (flush ip s) p = (s.itable ip).addrs NDIRECT) :
    p = ((s.itable ip).inum, NDIRECT) := by
  have hself := refAt_inode_indirect h.type rfl
  exact h.sole NDIRECT p (by rw [hself]; exact h0) (by rw [hself, hp])

lemma Guarded.take (h : Guarded sb i s) (h0 : b ≠ 0) (hb : b < sb.size)
    (hu : s.bitmap b = false) (htype : (t.dinode i).type = (s.dinode i).type)
    (hbits : t.bitmap = update s.bitmap b true)
    (hrefs : refAt t = update (refAt s) (i, pos) b) : Guarded sb i t := by
  have hspare := h.spare h0 hb hu
  refine ⟨h.bits, by rw [htype]; exact h.typed, fun p hp hlt => ?_, fun pos' p hp he => ?_⟩
  · rw [hrefs] at hp hlt ⊢
    rw [hbits]
    by_cases hpp : p = (i, pos)
    · rw [hpp, update_self, update_self]
    · rw [update_of_ne hpp] at hp hlt ⊢
      rw [update_of_ne (hspare p)]
      exact h.marked p hp hlt
  · rw [hrefs] at hp he
    by_cases hpos : pos' = pos
    · rw [hpos, update_self] at he
      by_cases hpp : p = (i, pos)
      · rw [hpp, hpos]
      · rw [update_of_ne hpp] at he
        exact absurd he (hspare p)
    · have hne : ((i, pos') : Nat × Nat) ≠ (i, pos) := by simp [hpos]
      rw [update_of_ne hne] at hp he
      by_cases hpp : p = (i, pos)
      · rw [hpp, update_self] at he
        exact absurd he.symm (hspare _)
      · rw [update_of_ne hpp] at he
        exact h.sole pos' p hp he

lemma refAt_mark_zero (s : Fs) (ip : Nat) :
    refAt (flush ip (mark 0 s)) = refAt (flush ip s) := by
  funext p
  apply place_congr
  intro _ hi
  exact update_of_ne hi ..

lemma Take.guarded (h : Take sb ip s pos a bufs t)
    (hg : Guarded sb (s.itable ip).inum (flush ip s)) :
    Guarded sb (s.itable ip).inum (flush ip t) ∧ Mapped ip s t := by
  have ht := hg.type
  cases h with
  | found => exact ⟨hg, .refl ..⟩
  | full => exact ⟨hg, .refl ..⟩
  | lost =>
    have hrefs := refAt_mark_zero s ip
    refine ⟨⟨hg.bits, hg.typed, fun p hp hlt => ?_, ?_⟩, rfl, rfl, rfl, fun _ _ => rfl, rfl,
      fun p _ => by rw [hrefs], fun p _ hp => update_of_ne hp ..⟩
    · rw [hrefs] at hp hlt ⊢
      exact (update_of_ne hp ..).trans (hg.marked p hp hlt)
    · rw [hrefs]
      exact hg.sole
  | direct hpos h0 hb0 hb hu =>
    have hspare := hg.spare hb0 hb hu
    rw [slot_of_le _ _ hpos] at h0
    refine ⟨hg.take hb0 hb hu ?_ rfl (refAt_takeDirect hspare ht hpos h0),
      takeDirect_mapped hspare ht hpos h0⟩
    simp [flush, takeDirect]
  | entry hj hind h0 hb0 hb hu =>
    have hspare := hg.spare hb0 hb hu
    have hb32 : a < 2 ^ 32 := by
      have := hg.bits
      omega
    have hown := hg.indirect hind
    rw [slot_entry hind] at h0
    exact ⟨hg.take hb0 hb hu rfl rfl (refAt_takeEntry hspare hb32 ht hj rfl hind hown),
      takeEntry_mapped hspare hb32 ht hj rfl hind hown h0⟩

lemma Take.slot_eq (h : Take sb ip s pos a bufs t) (hbits : sb.size ≤ 2 ^ 32) (ha : a ≠ 0) :
    slot t ip pos = a := by
  cases h with
  | found => rfl
  | full | lost => exact absurd rfl ha
  | direct hpos => simp [slot_of_le _ _ hpos, takeDirect]
  | @entry j b hj hind _ _ hb =>
    rw [slot_entry (by exact hind)]
    simp only [takeEntry, update_self, indirectEntry]
    exact getLE_putLE_of_lt _ _ (by omega)

lemma placeOf_lt (h : bn < MAXFILE) : placeOf bn < NPLACE := by
  unfold placeOf NPLACE MAXFILE at *
  split <;> omega

lemma Bmap.guarded (h : Bmap sb ip s bn a bufs t)
    (hg : Guarded sb (s.itable ip).inum (flush ip s)) :
    Guarded sb (s.itable ip).inum (flush ip t) ∧ Mapped ip s t := by
  cases h with
  | direct _ h => exact h.guarded hg
  | none _ h => exact h.guarded hg
  | entry _ _ h h' =>
    obtain ⟨hg1, hm1⟩ := h.guarded hg
    rw [← hm1.inum] at hg1
    obtain ⟨hg2, hm2⟩ := h'.guarded hg1
    rw [hm1.inum] at hg2
    exact ⟨hg2, hm1.trans hm2⟩

lemma Bmap.block (h : Bmap sb ip s bn a bufs t)
    (hg : Guarded sb (s.itable ip).inum (flush ip s)) (hbn : bn < MAXFILE) (ha : a ≠ 0) :
    blockOf (flush ip t) (s.itable ip).inum bn = a := by
  obtain ⟨hg', hm⟩ := h.guarded hg
  rw [← hm.inum] at hg' ⊢
  unfold blockOf
  rw [refAt_slot hg'.type (placeOf_lt hbn)]
  cases h with
  | direct hd h =>
    rw [placeOf_direct hd]
    exact h.slot_eq hg.bits ha
  | none => exact absurd rfl ha
  | entry hd _ _ h' =>
    rw [placeOf_indirect hd]
    exact h'.slot_eq hg.bits ha

lemma Take.empty (h : Take sb ip s pos a bufs t) (ha : a = 0) : slot s ip pos = 0 := by
  cases h with
  | found h0 => exact absurd ha h0
  | full h0 => exact h0
  | lost h0 => exact h0
  | direct _ h0 => exact h0
  | entry _ _ h0 => exact h0

lemma Bmap.missing (h : Bmap sb ip s bn a bufs t)
    (hg : Guarded sb (s.itable ip).inum (flush ip s)) (ha : a = 0) :
    blockOf (flush ip s) (s.itable ip).inum bn = 0 := by
  by_contra hne
  have hpos := placeOf_lt (blockOf_lt hne)
  have hslot : slot s ip (placeOf bn) ≠ 0 := by
    unfold blockOf at hne
    rwa [refAt_slot hg.type hpos] at hne
  cases h with
  | direct hd h =>
    rw [placeOf_direct hd] at hslot
    exact hslot (h.empty ha)
  | none hd h =>
    have h0 := h.empty rfl
    rw [slot_of_le _ _ (Nat.le_refl _)] at h0
    rw [placeOf_indirect hd] at hslot
    apply hslot
    unfold slot
    rw [if_neg (by omega), if_pos h0]
  | entry hd _ h h' =>
    -- the place still holds its block after the indirect block is looked up
    obtain ⟨hg1, hm⟩ := h.guarded hg
    have hsame := hm.refs _ hne
    rw [← hm.inum] at hg1 hsame hne
    rw [refAt_slot hg1.type hpos, placeOf_indirect hd, h'.empty ha] at hsame
    apply hne
    unfold blockOf
    rw [placeOf_indirect hd]
    exact hsame.symm

lemma Take.fresh (h : Take sb ip s pos a bufs t) (ha : a ≠ 0) (h0 : slot s ip pos = 0) :
    .block a ∈ bufs := by
  cases h with
  | found hc => exact absurd h0 hc
  | full | lost => exact absurd rfl ha
  | direct | entry => simp

lemma Take.refs_of_ne (h : Take sb ip s pos a bufs t)
    (hg : Guarded sb (s.itable ip).inum (flush ip s)) {p : Nat × Nat}
    (hp : p ≠ ((s.itable ip).inum, pos)) : refAt (flush ip t) p = refAt (flush ip s) p := by
  have ht := hg.type
  cases h with
  | found | full => rfl
  | lost => rw [refAt_mark_zero]
  | direct hpos h0 hb0 hb hu =>
    rw [slot_of_le _ _ hpos] at h0
    rw [refAt_takeDirect (hg.spare hb0 hb hu) ht hpos h0, update_of_ne hp]
  | entry hj hind h0 hb0 hb hu =>
    have hbits := hg.bits
    rw [refAt_takeEntry (hg.spare hb0 hb hu) (by omega) ht hj rfl hind (hg.indirect hind),
      update_of_ne hp]

lemma Bmap.block_of_ne (h : Bmap sb ip s bn a bufs t)
    (hg : Guarded sb (s.itable ip).inum (flush ip s)) {bm : Nat} (hne : bm ≠ bn) :
    blockOf (flush ip t) (s.itable ip).inum bm = blockOf (flush ip s) (s.itable ip).inum bm := by
  have hplace : placeOf bm ≠ placeOf bn := fun hc => hne (placeOf_inj hc)
  cases h with
  | direct hd h =>
    rw [placeOf_direct hd] at hplace
    exact h.refs_of_ne hg (by simp [hplace])
  | none _ h => exact h.refs_of_ne hg (by simp [placeOf_ne])
  | entry hd _ h h' =>
    obtain ⟨hg1, hm⟩ := h.guarded hg
    have h1 := h.refs_of_ne hg (p := ((s.itable ip).inum, placeOf bm)) (by simp [placeOf_ne])
    rw [placeOf_indirect hd] at hplace
    rw [← hm.inum] at hg1 h1 ⊢
    exact (h'.refs_of_ne hg1 (by simp [hplace])).trans h1

lemma Bmap.fresh (h : Bmap sb ip s bn a bufs t)
    (hg : Guarded sb (s.itable ip).inum (flush ip s)) (hbn : bn < MAXFILE) (ha : a ≠ 0)
    (hmiss : blockOf (flush ip s) (s.itable ip).inum bn = 0) : .block a ∈ bufs := by
  have hpos := placeOf_lt hbn
  cases h with
  | direct hd h =>
    unfold blockOf at hmiss
    rw [refAt_slot hg.type hpos, placeOf_direct hd] at hmiss
    exact h.fresh ha hmiss
  | none => exact absurd rfl ha
  | entry hd _ h h' =>
    obtain ⟨hg1, hm⟩ := h.guarded hg
    have hsame := h.refs_of_ne hg (p := ((s.itable ip).inum, placeOf bn)) (by simp [placeOf_ne])
    unfold blockOf at hmiss
    rw [hmiss, ← hm.inum] at hsame
    rw [← hm.inum] at hg1
    rw [refAt_slot hg1.type hpos, placeOf_indirect hd] at hsame
    exact mem_append_right _ (h'.fresh ha hsame)

/-! ## The bytes of one file -/

/-- The blocks of the other files hold what they did. -/
def Apart (ip : Nat) (s t : Fs) : Prop :=
  ∀ p, p.1 ≠ (s.itable ip).inum → refAt (flush ip s) p ≠ 0 →
    t.data (refAt (flush ip s) p) = s.data (refAt (flush ip s) p)

lemma Apart.trans (h : Apart ip s t) (hw : Writing ip s t) (h' : Apart ip t u) :
    Apart ip s u := by
  intro p hp h0
  have hrefs := hw.refs p h0
  have h1 := h' p (by rw [hw.inum]; exact hp) (by rw [hrefs]; exact h0)
  rw [hrefs] at h1
  rw [h1, h p hp h0]

lemma Take.apart (h : Take sb ip s pos a bufs t)
    (hg : Guarded sb (s.itable ip).inum (flush ip s)) : Apart ip s t := by
  intro p hp h0
  cases h with
  | found | full => rfl
  | lost => exact update_of_ne h0 ..
  | direct _ _ hb0 hb hu => exact update_of_ne (hg.spare hb0 hb hu p) ..
  | entry _ hind _ hb0 hb hu =>
    have hne : refAt (flush ip s) p ≠ (s.itable ip).addrs NDIRECT := by
      intro hc
      exact hp (by rw [hg.indirect hind p hc])
    simp only [takeEntry]
    rw [update_of_ne hne, update_of_ne (hg.spare hb0 hb hu p)]

lemma Bmap.apart (h : Bmap sb ip s bn a bufs t)
    (hg : Guarded sb (s.itable ip).inum (flush ip s)) : Apart ip s t := by
  cases h with
  | direct _ h => exact h.apart hg
  | none _ h => exact h.apart hg
  | entry _ _ h h' =>
    obtain ⟨hg1, hm⟩ := h.guarded hg
    rw [← hm.inum] at hg1
    exact (h.apart hg).trans hm.writing (h'.apart hg1)

/-- The bytes from `lo` to `hi` of the file are those of the source, where byte `start` of the file
is the first; the other bytes that the file had are the same, and so are the other files. -/
structure Filled (ip : Nat) (src : Nat → Option UInt8) (start lo hi : Nat) (s t : Fs) : Prop
    extends Writing ip s t where
  written : ∀ x, lo ≤ x → x < hi → blockOf (flush ip t) (s.itable ip).inum (x / BSIZE) ≠ 0 ∧
    src (x - start) = some (byteAt (flush ip t) (s.itable ip).inum x)
  kept : ∀ x, blockOf (flush ip s) (s.itable ip).inum (x / BSIZE) ≠ 0 → ¬ (lo ≤ x ∧ x < hi) →
    byteAt (flush ip t) (s.itable ip).inum x = byteAt (flush ip s) (s.itable ip).inum x
  apart : Apart ip s t

variable {start lo mid hi : Nat}

lemma Filled.trans (h : Filled ip src start lo mid s t) (h' : Filled ip src start mid hi t u)
    (hle : lo ≤ mid) (hle' : mid ≤ hi) : Filled ip src start lo hi s u := by
  have hinum := h.inum
  refine ⟨h.toWriting.trans h'.toWriting, fun x h1 h2 => ?_, fun x h0 hx => ?_, ?_⟩
  · by_cases hx : x < mid
    · obtain ⟨hb, hbyte⟩ := h.written x h1 hx
      rw [← hinum] at hb hbyte ⊢
      have hsame := h'.refs _ hb
      refine ⟨by unfold blockOf; rw [hsame]; exact hb, ?_⟩
      rw [hbyte, h'.kept x hb (by omega)]
    · rw [← hinum]
      exact h'.written x (by omega) h2
  · have hb : blockOf (flush ip t) (s.itable ip).inum (x / BSIZE) ≠ 0 := by
      unfold blockOf
      rw [h.refs _ h0]
      exact h0
    have h1 := h.kept x h0 (by omega)
    rw [← hinum] at hb h1 ⊢
    rw [h'.kept x hb (by omega), h1]
  · exact h.apart.trans h.toWriting h'.apart

lemma filled_of_mapped (h : Mapped ip s t) (ha : Apart ip s t) (src : Nat → Option UInt8)
    (start lo : Nat) : Filled ip src start lo lo s t := by
  refine ⟨h.writing, fun x h1 h2 => by omega, fun x h0 _ => ?_, ha⟩
  have hrefs := h.refs _ h0
  have hdata := h.data _ (placeOf_ne _) h0
  unfold byteAt blockOf
  rw [hrefs]
  exact congrFun hdata _

lemma readable_le (src : Nat → Option UInt8) (a m : Nat) : readable src a m ≤ m := by
  unfold readable
  have hle := (takeWhile_sublist (fun i => (src (a + i)).isSome) (l := List.range m)).length_le
  simpa using hle

lemma isSome_of_lt_readable {m j : Nat} (h : j < readable src a m) : (src (a + j)).isSome := by
  unfold readable at h
  have hpre := takeWhile_prefix (fun i => (src (a + i)).isSome) (l := List.range m)
  have hget := hpre.getElem h
  rw [getElem_range] at hget
  have hmem := mem_takeWhile_imp (getElem_mem h)
  rwa [hget] at hmem

lemma readable_stops {m : Nat} (h : readable src a m < m) : src (a + readable src a m) = none := by
  unfold readable at h ⊢
  rw [takeWhile_eq_take_findIdx_not, length_take, length_range] at h ⊢
  rw [Nat.min_eq_left (by omega)] at h ⊢
  have hbad := findIdx_getElem (w := lt_of_lt_of_eq h (length_range (n := m)).symm)
  rw [getElem_range] at hbad
  simpa using hbad

lemma readable_eq {k : Nat} (h : ∀ j < k, (src j).isSome) (hk : k < n) (hnone : src k = none) :
    readable src 0 n = k := by
  rcases Nat.lt_trichotomy (readable src 0 n) k with hlt | heq | hgt
  · have hstop := readable_stops (hlt.trans hk)
    have := h _ hlt
    rw [Nat.zero_add] at hstop
    rw [hstop] at this
    cases this
  · exact heq
  · have := isSome_of_lt_readable hgt
    rw [Nat.zero_add, hnone] at this
    cases this

lemma filled_copyTo {k : Nat} (hg : Guarded sb (s.itable ip).inum (flush ip s))
    (hblock : blockOf (flush ip s) (s.itable ip).inum (off / BSIZE) = a) (ha : a ≠ 0)
    (hoff : off = start + tot) (hk : off % BSIZE + k ≤ BSIZE)
    (hsrc : ∀ j < k, (src (tot + j)).isSome) :
    Guarded sb (s.itable ip).inum (flush ip (copyTo src a tot off k s)) ∧
      refAt (flush ip (copyTo src a tot off k s)) = refAt (flush ip s) ∧
      Filled ip src start off (off + k) s (copyTo src a tot off k s) := by
  have hown : ∀ q, refAt (flush ip s) q = blockOf (flush ip s) (s.itable ip).inum (off / BSIZE) →
      q = ((s.itable ip).inum, placeOf (off / BSIZE)) := by
    intro q hq
    rw [← hblock] at ha
    exact hg.sole _ q ha hq
  have hrefs : refAt (flush ip (copyTo src a tot off k s)) = refAt (flush ip s) := by
    unfold copyTo
    rw [← hblock]
    exact refAt_setBlock (placeOf_ne _) hown _
  have hdata : (flush ip (copyTo src a tot off k s)).data = update s.data a
      (copy (s.data a) (off % BSIZE) (fun i => (src i).getD 0) tot k) := rfl
  refine ⟨⟨hg.bits, hg.typed, ?_, ?_⟩, hrefs, ?_, fun x h1 h2 => ?_, fun x h0 hx => ?_,
    fun p hp _ => ?_⟩
  · rw [hrefs]
    exact hg.marked
  · rw [hrefs]
    exact hg.sole
  · unfold copyTo
    rw [← hblock]
    exact writing_setBlock (placeOf_ne _) hown _
  · obtain ⟨j, rfl⟩ := Nat.exists_eq_add_of_le h1
    obtain ⟨hdiv, hmod⟩ := div_add_of_fits (show off % BSIZE + j < BSIZE by omega)
    unfold byteAt blockOf at *
    rw [hdiv, hmod, hrefs, hblock, hdata, update_self]
    refine ⟨ha, ?_⟩
    unfold copy
    rw [if_pos (by omega), Nat.add_sub_cancel_left, show off + j - start = tot + j by omega]
    obtain ⟨c, hc⟩ := Option.isSome_iff_exists.mp (hsrc j (by omega))
    dsimp only
    rw [hc]
    rfl
  · unfold byteAt blockOf at *
    rw [hrefs, hdata]
    by_cases hb : x / BSIZE = off / BSIZE
    · rw [hb, hblock, update_self]
      apply copy_of_outside
      rw [BSIZE_eq] at *
      omega
    · rw [update_of_ne]
      · rfl
      · intro heq
        rw [← hblock] at heq
        exact hb (placeOf_inj (Prod.mk.inj (hown _ heq)).2)
  · show (flush ip (copyTo src a tot off k s)).data _ = _
    rw [hdata, update_of_ne]
    intro heq
    rw [← hblock] at heq
    exact hp (by rw [hown p heq])

/-! ## The rounds -/

/-- A block that the file has is not passed to the log by a lookup. -/
lemma Take.spares (h : Take sb ip s pos a bufs t)
    (hg : Guarded sb (s.itable ip).inum (flush ip s))
    (h0 : blockOf (flush ip s) (s.itable ip).inum bn ≠ 0) :
    .block (blockOf (flush ip s) (s.itable ip).inum bn) ∉ bufs := by
  cases h with
  | found => simp
  | full => simp
  | lost => simpa using h0
  | direct _ _ hb0 hb hu =>
    have hspare : blockOf (flush ip s) (s.itable ip).inum bn ≠ a := hg.spare hb0 hb hu _
    simpa using hspare
  | entry _ hind _ hb0 hb hu =>
    have hne : blockOf (flush ip s) (s.itable ip).inum bn ≠ (s.itable ip).addrs NDIRECT := by
      intro hc
      have hp := hg.indirect hind _ hc
      exact placeOf_ne bn (Prod.mk.inj hp).2
    have hspare : blockOf (flush ip s) (s.itable ip).inum bn ≠ a := hg.spare hb0 hb hu _
    simp [hspare, hne]

lemma Bmap.spares (h : Bmap sb ip s bn a bufs t)
    (hg : Guarded sb (s.itable ip).inum (flush ip s)) {bm : Nat}
    (h0 : blockOf (flush ip s) (s.itable ip).inum bm ≠ 0) :
    .block (blockOf (flush ip s) (s.itable ip).inum bm) ∉ bufs := by
  cases h with
  | direct _ h => exact h.spares hg h0
  | none _ h => exact h.spares hg h0
  | @entry _ _ _ _ t _ _ _ h h' =>
    obtain ⟨hg1, hm⟩ := h.guarded hg
    have hsame : blockOf (flush ip t) (t.itable ip).inum bm =
        blockOf (flush ip s) (s.itable ip).inum bm := by
      rw [hm.inum]
      exact hm.refs _ h0
    have h2 := h'.spares (by rw [hm.inum]; exact hg1) (by rw [hsame]; exact h0)
    rw [hsame] at h2
    rw [mem_append, not_or]
    exact ⟨h.spares hg h0, h2⟩

/-- Where and why the rounds ended, with `k` bytes of the last block written but not reported: all
bytes were written, or the file has no block for more, or the source cannot be read. -/
structure Ended (ip : Nat) (src : Nat → Option UInt8) (n : Nat) (s : Fs) (tot off k : Nat) :
    Prop where
  le : tot ≤ n
  why : k = 0 ∧ (tot = n ∨ blockOf (flush ip s) (s.itable ip).inum (off / BSIZE) = 0) ∨
    k = readable src tot (chunk n tot off) ∧ k < chunk n tot off

lemma chunk_le (n tot off : Nat) : chunk n tot off ≤ n - tot := Nat.min_le_left ..

lemma chunk_fits (n tot off : Nat) : off % BSIZE + chunk n tot off ≤ BSIZE := by
  have hmod := Nat.mod_lt off (show 0 < BSIZE by decide)
  have hle : chunk n tot off ≤ BSIZE - off % BSIZE := Nat.min_le_right ..
  omega

lemma block_lt (hlt : tot < n) (hmax : off + (n - tot) ≤ MAXFILE * BSIZE) :
    off / BSIZE < MAXFILE := by
  apply Nat.div_lt_of_lt_mul
  rw [Nat.mul_comm]
  omega

/-- The rounds stopped in a block of the file, to which they had copied what could be read. It is
passed to the log only if it is new. -/
structure Stopped (ip : Nat) (src : Nat → Option UInt8) (n : Nat) (s u t : Fs) (bufs : List Buf)
    (tot off a : Nat) : Prop where
  ne_zero : a ≠ 0
  block : blockOf (flush ip u) (s.itable ip).inum (off / BSIZE) = a
  less : readable src tot (chunk n tot off) < chunk n tot off
  copied : t = copyTo src a tot off (readable src tot (chunk n tot off)) u
  fresh : blockOf (flush ip s) (s.itable ip).inum (off / BSIZE) = 0 → .block a ∈ bufs
  kept : blockOf (flush ip s) (s.itable ip).inum (off / BSIZE) ≠ 0 → .block a ∉ bufs

section

variable (h : Rounds sb ip src n tot off s bufs r t)
  (hg : Guarded sb (s.itable ip).inum (flush ip s)) (htot : tot ≤ n) (hoff : off = start + tot)
  (hmax : off + (n - tot) ≤ MAXFILE * BSIZE)
include h hg htot hoff hmax

lemma Rounds.split :
    off ≤ r.2 ∧ r.2 = start + r.1 ∧ r.1 ≤ n ∧ ∃ u, Guarded sb (s.itable ip).inum (flush ip u) ∧
      Filled ip src start off r.2 s u ∧ Logged s u bufs ∧
      (t = u ∧ (r.1 = n ∨ blockOf (flush ip s) (s.itable ip).inum (r.2 / BSIZE) = 0) ∨
        ∃ a, Stopped ip src n s u t bufs r.1 r.2 a ∧ (r.2 = off ∨ r.2 % BSIZE = 0)) := by
  induction h with
  | @done tot off s hlt =>
    exact ⟨Nat.le_refl _, hoff, htot, s, hg, filled_of_mapped (.refl ip s) (fun _ _ _ => rfl) ..,
      .refl .., .inl ⟨rfl, .inl (Nat.le_antisymm htot (Nat.le_of_not_lt hlt))⟩⟩
  | full hlt h =>
    obtain ⟨hg', hm⟩ := h.guarded hg
    exact ⟨Nat.le_refl _, hoff, htot, _, hg', filled_of_mapped hm (h.apart hg) .., h.changed,
      Or.inl ⟨rfl, .inr (h.missing hg rfl)⟩⟩
  | @stop tot off a s t bufs hlt ha h hread =>
    obtain ⟨hg', hm⟩ := h.guarded hg
    have hbn := block_lt hlt hmax
    have hle := readable_le src tot (chunk n tot off)
    have hblock := h.block hg hbn ha
    refine ⟨Nat.le_refl _, hoff, htot, t, hg', filled_of_mapped hm (h.apart hg) .., h.changed,
      Or.inr ⟨a, ⟨ha, hblock, Nat.lt_of_le_of_ne hle hread, rfl, h.fresh hg hbn ha, fun h0 => ?_⟩,
        .inl rfl⟩⟩
    have hsame := hm.refs _ h0
    unfold blockOf at hblock hsame
    rw [← hblock, hsame]
    exact h.spares hg h0
  | @round tot off a s t u bufs bufs' r hlt ha h hread hrest ih =>
    obtain ⟨hg', hm⟩ := h.guarded hg
    have hle := chunk_le n tot off
    have hblock := h.block hg (block_lt hlt hmax) ha
    rw [← hm.inum] at hg' hblock
    obtain ⟨hg2, hrefs, hf⟩ := filled_copyTo hg' hblock ha hoff (chunk_fits n tot off)
      fun j hj => isSome_of_lt_readable (by rw [hread]; exact hj)
    have hinum : ((copyTo src a tot off (chunk n tot off) t).itable ip).inum =
        (s.itable ip).inum := hm.inum
    rw [hm.inum, ← hinum] at hg2
    obtain ⟨h1, h2, h3, v, hg3, hf3, hlog, hend⟩ := ih hg2 (by omega) (by omega) (by omega)
    have hf1 := (filled_of_mapped hm (h.apart hg) src start off).trans hf (Nat.le_refl _) (by omega)
    have hcopy : Logged t (copyTo src a tot off (chunk n tot off) t) [.block a] :=
      ⟨fun b hb => mem_of_update hb (by simp), fun b hb => absurd rfl hb⟩
    have hlogged := (h.changed.trans hcopy).trans hlog
    rw [append_assoc, singleton_append] at hlogged
    -- a block that is missing after the round was missing before it
    have hmiss : blockOf (flush ip (copyTo src a tot off (chunk n tot off) t)) (s.itable ip).inum
        (r.2 / BSIZE) = 0 → blockOf (flush ip s) (s.itable ip).inum (r.2 / BSIZE) = 0 := by
      intro hz
      by_contra hne
      have hsame := hf1.refs _ hne
      unfold blockOf at hz hne
      rw [hz] at hsame
      exact hne hsame.symm
    rw [hinum] at hg3 hend
    refine ⟨by omega, h2, h3, v, hg3, hf1.trans hf3 (by omega) h1, hlogged, hend.imp ?_ ?_⟩
    · rintro ⟨heq, hn | hz⟩
      · exact ⟨heq, .inl hn⟩
      · exact ⟨heq, .inr (hmiss hz)⟩
    · rintro ⟨c, hstop, hedge⟩
      have hb := hstop.block
      have hless := hstop.less
      have hcle := chunk_le n r.1 r.2
      -- the round went to the end of its block, for there is more to write
      have hfull : chunk n tot off = BSIZE - off % BSIZE := by
        unfold chunk at *
        omega
      have hlater : r.2 / BSIZE ≠ off / BSIZE := by
        rw [hfull] at h1
        rw [BSIZE_eq] at *
        omega
      rw [hinum] at hb
      refine ⟨c, ⟨hstop.ne_zero, hb, hstop.less, hstop.copied, fun hz => ?_, fun h0 => ?_⟩, .inr ?_⟩
      · rw [mem_append, mem_cons]
        refine .inr (.inr (hstop.fresh ?_))
        rw [hinum]
        unfold blockOf
        rw [hrefs]
        exact (h.block_of_ne hg hlater).trans hz
      · have hold := hm.refs _ h0
        have hc := (hf1.trans hf3 (by omega) h1).refs _ h0
        unfold blockOf at hb hold h0
        rw [hb] at hc
        have hspare := h.spares hg h0
        have hne : c ≠ a := by
          rintro rfl
          rw [hm.inum] at hg' hblock
          unfold blockOf at hblock
          have hp := hg'.sole (placeOf (off / BSIZE)) ((s.itable ip).inum, placeOf (r.2 / BSIZE))
            (by rw [hblock]; exact ha) (by rw [hblock, hold, hc])
          exact hlater (placeOf_inj (Prod.mk.inj hp).2)
        have hrest := hstop.kept (by
          rw [hinum]
          unfold blockOf
          rw [hrefs, hold]
          exact h0)
        unfold blockOf at hspare
        rw [← hc] at hspare
        rw [mem_append, mem_cons, not_or, not_or]
        exact ⟨hspare, by simpa using hne, hrest⟩
      · rcases hedge with hedge | hedge
        · rw [hedge, hfull]
          rw [BSIZE_eq] at *
          omega
        · exact hedge

lemma Rounds.filled :
    off ≤ r.2 ∧ r.2 = start + r.1 ∧
      ∃ k, Ended ip src n s r.1 r.2 k ∧ Filled ip src start off (r.2 + k) s t := by
  obtain ⟨h1, h2, h3, u, hg', hf, _, hend⟩ := h.split hg htot hoff hmax
  refine ⟨h1, h2, ?_⟩
  rcases hend with ⟨rfl, hwhy⟩ | ⟨a, hstop, _⟩
  · exact ⟨0, ⟨h3, .inl ⟨rfl, hwhy⟩⟩, hf⟩
  · have hfits := chunk_fits n r.1 r.2
    have hless := hstop.less
    have hinum := hf.inum
    have hblock := hstop.block
    rw [← hinum] at hg' hblock
    obtain ⟨_, _, hcopy⟩ := filled_copyTo hg' hblock hstop.ne_zero h2
      (show r.2 % BSIZE + readable src r.1 (chunk n r.1 r.2) ≤ BSIZE by omega)
      fun j hj => isSome_of_lt_readable hj
    rw [← hstop.copied] at hcopy
    exact ⟨_, ⟨h3, .inr ⟨rfl, hless⟩⟩, hf.trans hcopy h1 (by omega)⟩

end

/-! ## A call of `writei` -/

lemma flush_resize (ip size : Nat) (t : Fs) : flush ip (resize ip size t) = resize ip size t := by
  apply flush_of_synced
  simp [resize, flush]

lemma byteAt_resize (ip size : Nat) (t : Fs) (i x : Nat) :
    byteAt (resize ip size t) i x = byteAt (flush ip t) i x := by
  unfold byteAt blockOf
  rw [refAt_resize]
  rfl

/-- The other inodes, in memory and on the disk, and their blocks are the same. -/
structure OthersSame (ip : Nat) (s t : Fs) : Prop where
  table : ∀ k, k ≠ ip → t.itable k = s.itable k
  dinode : ∀ i, i ≠ (s.itable ip).inum → t.dinode i = s.dinode i
  block : ∀ i, i ≠ (s.itable ip).inum → ∀ bn, blockOf t i bn = blockOf s i bn
  data : ∀ i, i ≠ (s.itable ip).inum → ∀ bn, blockOf s i bn ≠ 0 →
    t.data (blockOf s i bn) = s.data (blockOf s i bn)

lemma refAt_flush_other {p : Nat × Nat} (hp : p.1 ≠ (s.itable ip).inum) :
    refAt (flush ip s) p = refAt s p := by
  unfold refAt
  rw [flush_dinode_ne hp]
  rfl

lemma Filled.othersSame (h : Filled ip src start lo hi s t) (size : Nat) :
    OthersSame ip s (resize ip size t) := by
  have hinum := h.inum
  have hdin : ∀ i, i ≠ (s.itable ip).inum → (resize ip size t).dinode i = s.dinode i := by
    intro i hi
    rw [resize_dinode, hinum, update_of_ne hi, h.dinode]
  have hdata : ∀ p : Nat × Nat, p.1 ≠ (s.itable ip).inum → refAt s p ≠ 0 →
      t.data (refAt s p) = s.data (refAt s p) := by
    intro p hp h0
    have ha := h.apart p hp
    rw [refAt_flush_other hp] at ha
    exact ha h0
  refine ⟨fun k hk => ?_, hdin, fun i hi bn => ?_, fun i hi bn h0 => hdata _ hi h0⟩
  · simp only [resize, flush_itable, update_of_ne hk]
    exact h.others k hk
  · unfold blockOf refAt
    rw [hdin i hi]
    apply place_congr
    intro ht h0
    have hself : refAt s (i, NDIRECT) = (s.dinode i).addrs NDIRECT := place_of_le ht _ (le_refl _)
    have hd := hdata (i, NDIRECT) hi
    rw [hself] at hd
    exact hd h0

/-- What a `writei` that is not refused leaves. -/
structure WroteFile (ip : Nat) (src : Nat → Option UInt8) (off n : Nat) (s t : Fs) (tot k : Nat) :
    Prop where
  ended : Ended ip src n s tot (off + tot) k
  inum : (t.itable ip).inum = (s.itable ip).inum
  type : (t.itable ip).type = (s.itable ip).type
  size : (t.itable ip).size = max (s.itable ip).size (off + tot)
  holes : HoleFree (flush ip t) (s.itable ip).inum
  written : ∀ x, off ≤ x → x < off + tot + k →
    src (x - off) = some (byteAt (flush ip t) (s.itable ip).inum x)
  kept : ∀ x < (s.itable ip).size, ¬ (off ≤ x ∧ x < off + tot + k) →
    byteAt (flush ip t) (s.itable ip).inum x = byteAt (flush ip s) (s.itable ip).inum x
  others : OthersSame ip s t

lemma Rounds.wroteFile {size : Nat} (h : Rounds sb ip src n 0 off s bufs r t)
    (hg : Guarded sb (s.itable ip).inum (flush ip s))
    (hole : HoleFree (flush ip s) (s.itable ip).inum) (hoff : off ≤ (s.itable ip).size)
    (hmax : off + n ≤ MAXFILE * BSIZE) (hsize : size = max (s.itable ip).size r.2) :
    ∃ k, WroteFile ip src off n s (resize ip size t) r.1 k := by
  obtain ⟨hle, hr, k, hend, hf⟩ := h.filled hg (Nat.zero_le n) (Nat.add_zero off).symm (by omega)
  have hinum := hf.inum
  have hblock : ∀ bn, bn * BSIZE < (s.itable ip).size →
      blockOf (flush ip s) (s.itable ip).inum bn ≠ 0 := by
    intro bn hbn
    apply hole
    rw [flush_dinode_self]
    exact hbn
  have hslot : (resize ip size t).itable ip = { t.itable ip with size } := by simp [resize]
  rw [hr] at hend hf
  refine ⟨k, hend, ?_, ?_, ?_, fun bn hbn => ?_, fun x h1 h2 => ?_, fun x hx hout => ?_,
    hf.othersSame size⟩
  · rw [hslot]
    exact hinum
  · rw [hslot]
    exact hf.type
  · rw [hslot, hsize, hr]
  · rw [flush_resize, resize_dinode, hinum, update_self] at hbn
    unfold blockOf
    rw [flush_resize, refAt_resize]
    by_cases hold : bn * BSIZE < (s.itable ip).size
    · have h0 := hblock bn hold
      unfold blockOf at h0
      rw [hf.refs _ h0]
      exact h0
    · have hw := (hf.written (bn * BSIZE) (by omega) (by dsimp only at hbn; omega)).1
      rwa [Nat.mul_div_cancel _ (show 0 < BSIZE by decide)] at hw
  · rw [flush_resize, byteAt_resize]
    exact (hf.written x h1 h2).2
  · rw [flush_resize, byteAt_resize]
    refine hf.kept x (hblock _ ?_) hout
    have := Nat.div_mul_le_self x BSIZE
    omega

lemma wp_writei_file (hg : Guarded sb (s.itable ip).inum (flush ip s))
    (hole : HoleFree (flush ip s) (s.itable ip).inum) (hoff : off ≤ (s.itable ip).size)
    (hmax : off + n ≤ MAXFILE * BSIZE) :
    Wp (fs.writei sb ip src off n) (fun r t => ∃ tot k, r = (tot : Nat) ∧
      WroteFile ip src off n s t tot k) E s := by
  refine ((writei_erases sb ip src off n).wp (wp_writei sb ip src off n s [])).imp ?_
  rintro r t ⟨_, bufs, u, heq, hw⟩
  obtain ⟨rfl, _⟩ := Prod.mk.inj heq
  cases hw with
  | refused hbad =>
    have hM : MAXFILE * BSIZE = 274432 := rfl
    omega
  | @rounds r bufs u _ _ h =>
    have hsize := h.filled hg (Nat.zero_le n) (Nat.add_zero off).symm (by omega)
    obtain ⟨_, _, _, _, hf⟩ := hsize
    have hus : (u.itable ip).size = (s.itable ip).size := by rw [hf.self]
    have hmaxsz : (if r.2 > (u.itable ip).size then r.2 else (u.itable ip).size) =
        max (s.itable ip).size r.2 := by
      rw [hus]
      split <;> omega
    obtain ⟨k, hk⟩ := h.wroteFile hg hole hoff hmax hmaxsz
    exact ⟨r.1, k, rfl, hk⟩

lemma WroteFile.no_rest {k : Nat} {d : List UInt8}
    (h : WroteFile ip (fun j => d[j]?) off d.length s t tot k) : k = 0 := by
  rcases h.ended.why with ⟨hk, _⟩ | ⟨hk, hlt⟩
  · exact hk
  · have hall : ∀ i ∈ List.range (chunk d.length tot (off + tot)), (d[tot + i]?).isSome = true := by
      intro i hi
      have hle := chunk_le d.length tot (off + tot)
      have hi := mem_range.mp hi
      simp only [Option.isSome_iff_exists, getElem?_eq_some_iff]
      exact ⟨_, by omega, rfl⟩
    unfold readable at hk
    rw [takeWhile_eq_self_iff.mpr hall, length_range] at hk
    omega

lemma readi_run (hole : HoleFree (flush ip s) (s.itable ip).inum)
    (ht : (s.itable ip).type ≠ .free) {o m : Nat} (ho : o ≤ (s.itable ip).size)
    (hm : o + m < 2 ^ 32) :
    (readi sb ip (fun _ => true) o m).run s =
      .ok ((((min m ((s.itable ip).size - o) : Nat) : Int),
        bytesOf (flush ip s) (s.itable ip).inum o (min m ((s.itable ip).size - o))), s) := by
  have hw : Wp (readi sb ip (fun _ => true) o m) _ (fun _ => False) s :=
    wp_readi_holeFree hole ht _ o m
  obtain ⟨r, t, hrun, rfl, hr⟩ := hw.exists_ok
  rw [hrun, hr (fun _ => rfl) ho hm]

/-- The contents of files: for a file without holes whose blocks are its own, what `writei` says it
has written is read back with the old bytes around it, the size is the larger one, and the other
inodes keep their contents; and `readi` gives the bytes up to the end of the file. -/
theorem written_bytes_are_read_back {d : List UInt8}
    (hg : Guarded sb (s.itable ip).inum (flush ip s))
    (hole : HoleFree (flush ip s) (s.itable ip).inum) (hoff : off ≤ (s.itable ip).size)
    (hmax : off + d.length ≤ MAXFILE * BSIZE) :
    (∃ (tot : Nat) (t : Fs),
      (fs.writei sb ip (fun j => d[j]?) off d.length).run s = .ok ((tot : Int), t) ∧
      tot ≤ d.length ∧ (t.itable ip).size = max (s.itable ip).size (off + tot) ∧
      (∀ o m, o ≤ (t.itable ip).size → o + m < 2 ^ 32 →
        (readi sb ip (fun _ => true) o m).run t =
          .ok ((((min m ((t.itable ip).size - o) : Nat) : Int),
            (List.range (min m ((t.itable ip).size - o))).map fun j =>
              if off ≤ o + j ∧ o + j < off + tot then d.getD (o + j - off) 0
              else byteAt (flush ip s) (s.itable ip).inum (o + j)), t)) ∧
      OthersSame ip s t) ∧
    ∀ o m, o ≤ (s.itable ip).size → o + m < 2 ^ 32 →
      (readi sb ip (fun _ => true) o m).run s =
        .ok ((((min m ((s.itable ip).size - o) : Nat) : Int),
          bytesOf (flush ip s) (s.itable ip).inum o (min m ((s.itable ip).size - o))), s) := by
  refine ⟨?_, fun o m ho hm => readi_run hole hg.type ho hm⟩
  obtain ⟨_, t, hrun, tot, k, rfl, hw⟩ := (wp_writei_file hg hole hoff hmax).exists_ok
  obtain rfl := hw.no_rest
  refine ⟨tot, t, hrun, hw.ended.le, hw.size, fun o m ho hm => ?_, hw.others⟩
  rw [readi_run (by rw [hw.inum]; exact hw.holes) (by rw [hw.type]; exact hg.type) ho hm, hw.inum]
  congr 3
  apply List.map_congr_left
  intro j hj
  have hlt := List.mem_range.mp hj
  have hsize := hw.size
  split
  · rename_i hin
    have hbyte := hw.written (o + j) hin.1 hin.2
    rw [List.getD_eq_getElem?_getD, hbyte]
    rfl
  · rename_i hout
    exact hw.kept (o + j) (by omega) hout

lemma smallDisk_guarded (size : Nat) : Guarded smallSb 1 (smallDisk size) := by
  refine ⟨by decide, by simp [smallDisk, smallDinode, blank], fun p hp _ => ?_,
    fun pos p hp he => ?_⟩
  · rw [refAt_smallDisk] at hp ⊢
    split at hp
    · rw [if_pos ‹_›]
      rfl
    · exact absurd rfl hp
  · rw [refAt_smallDisk] at hp he
    rw [refAt_smallDisk] at he
    split at hp
    · rename_i hpos
      rw [if_pos hpos] at he
      split at he
      · rename_i hpp
        rw [hpp, hpos]
      · exact absurd he (by decide)
    · exact absurd rfl hp

theorem three_bytes_are_read_back :
    ∃ (tot : Nat) (t : Fs), (fs.writei smallSb 0 (fun j => [1, 2, 3][j]?) 2 3).run (smallDisk 5) =
        .ok ((tot : Int), t) ∧ tot ≤ 3 ∧ (t.itable 0).size = max 5 (2 + tot) := by
  have hg := smallDisk_guarded 5
  have hole := smallDisk_holeFree (show 5 ≤ BSIZE by decide)
  rw [← smallDisk_synced] at hg hole
  obtain ⟨tot, t, hrun, hle, hsize, _⟩ :=
    (written_bytes_are_read_back (d := [1, 2, 3]) hg hole
      (show 2 ≤ ((smallDisk 5).itable 0).size by decide) (by decide)).1
  exact ⟨tot, t, hrun, hle, hsize⟩

end xv6.fslog
