-- A write that stops on a bad source. The copy to a block fails in the middle,
-- and what is copied by then stays in the buffer: it is not reported, and the
-- buffer is not passed to the log.
import Xv6.FileContents

open bytes trace wp Function

namespace xv6.fslog

open fs

variable {sb : Superblock} {s t u : Fs} {ip n tot off a : Nat}
  {src : Nat → Option UInt8} {bufs : List Buf} {r : Nat × Nat}

/-! ## What a write reports -/

/-- The byte that `readi` gives at an offset. -/
def readByte (sb : Superblock) (ip x : Nat) (s : Fs) : Option UInt8 :=
  ((readi sb ip (fun _ => true) x 1).run s).toOption.bind fun r => r.1.2.head?

/-- After a `writei` at `off` that returned `r`, every byte of the file beside those that it reports
reads as before, and every buffer that it changed has been passed to `log_write`. -/
structure ChangesWhatItReports (sb : Superblock) (ip off : Nat) (s t : Fs) (r : Int)
    (tr : List Event) : Prop where
  bytes : ∀ x < (s.itable ip).size, ¬ (off ≤ x ∧ x < off + r.toNat) →
    readByte sb ip x t = readByte sb ip x s
  data : ∀ b, t.data b ≠ s.data b → .log_write (.block b) ∈ tr
  bitmap : ∀ b, t.bitmap b ≠ s.bitmap b → .log_write (.bitmap (b / BPB)) ∈ tr
  dinode : ∀ i, t.dinode i ≠ s.dinode i → .log_write (.inode (i / IPB)) ∈ tr

/-- The bytes of the source before its first byte that cannot be read, and that go to the same block
of the file as this byte, are what the file holds there, if it has the block. -/
def CopiesSame (ip : Nat) (src : Nat → Option UInt8) (off n : Nat) (s : Fs) : Prop :=
  off ≤ (s.itable ip).size → off + n ≤ MAXFILE * BSIZE → readable src 0 n < n →
    blockOf (flush ip s) (s.itable ip).inum ((off + readable src 0 n) / BSIZE) ≠ 0 →
    ∀ j < readable src 0 n, (off + j) / BSIZE = (off + readable src 0 n) / BSIZE →
      src j = some (byteAt (flush ip s) (s.itable ip).inum (off + j))

/-- The file has no block behind one that it does not have. -/
def Solid (ip : Nat) (s : Fs) : Prop :=
  ∀ bm bn, bm ≤ bn → blockOf (flush ip s) (s.itable ip).inum bn ≠ 0 →
    blockOf (flush ip s) (s.itable ip).inum bm ≠ 0

/-- As `CopiesSame`, for a call that stopped after `tot` bytes. -/
def StopsClean (ip : Nat) (src : Nat → Option UInt8) (off n : Nat) (s : Fs) (tot : Nat) : Prop :=
  ∀ j < readable src tot (chunk n tot (off + tot)),
    blockOf (flush ip s) (s.itable ip).inum ((off + tot) / BSIZE) ≠ 0 →
    src (tot + j) = some (byteAt (flush ip s) (s.itable ip).inum (off + tot + j))

lemma readByte_eq (hole : HoleFree (flush ip s) (s.itable ip).inum)
    (ht : (s.itable ip).type ≠ .free) {x : Nat} (hx : x < (s.itable ip).size) :
    readByte sb ip x s = some (byteAt (flush ip s) (s.itable ip).inum x) := by
  have hmax : (s.itable ip).size ≤ MAXFILE * BSIZE := by
    by_contra hc
    have hb := blockOf_lt (hole MAXFILE (by rw [flush_dinode_self]; omega))
    omega
  have hM : MAXFILE * BSIZE = 274432 := rfl
  unfold readByte
  rw [readi_run hole ht (Nat.le_of_lt hx) (by omega), Nat.min_eq_left (by omega)]
  rfl

lemma mem_writes {b : Buf} : .log_write b ∈ writes bufs ↔ b ∈ bufs := by
  simp [writes]

lemma div_of_chunk {k : Nat} (hk : k ≤ chunk n tot off) {x : Nat} (h1 : off ≤ x)
    (h2 : x < off + k) : x / BSIZE = off / BSIZE := by
  have hfits := chunk_fits n tot off
  rw [BSIZE_eq] at *
  omega

lemma copyTo_same {k : Nat}
    (h : ∀ j < k, src (tot + j) = some (s.data a (off % BSIZE + j))) :
    (copyTo src a tot off k s).data a = s.data a := by
  show update s.data a _ a = s.data a
  rw [update_self]
  funext y
  unfold copy
  by_cases hy : off % BSIZE ≤ y ∧ y < off % BSIZE + k
  · obtain ⟨j, rfl⟩ := Nat.exists_eq_add_of_le hy.1
    rw [if_pos hy, Nat.add_sub_cancel_left]
    show (src (tot + j)).getD 0 = _
    rw [h j (by omega)]
    rfl
  · rw [if_neg hy]

lemma Stopped.unreadable {start : Nat} (h : Stopped ip src n s u t bufs tot off a)
    (hoff : off = start + tot) (hread : ∀ j < tot, (src j).isSome) :
    readable src 0 n = tot + readable src tot (chunk n tot off) ∧
      (start + readable src 0 n) / BSIZE = off / BSIZE := by
  have hless := h.less
  have hle := chunk_le n tot off
  have heq : readable src 0 n = tot + readable src tot (chunk n tot off) := by
    refine readable_eq (fun j hj => ?_) (by omega) (readable_stops hless)
    by_cases hlt : j < tot
    · exact hread j hlt
    · obtain ⟨i, rfl⟩ := Nat.exists_eq_add_of_le (Nat.not_lt.mp hlt)
      exact isSome_of_lt_readable (show i < readable src tot (chunk n tot off) by omega)
  exact ⟨heq, div_of_chunk (Nat.le_refl (chunk n tot off)) (by omega) (by omega)⟩

lemma Filled.isSome {hi j : Nat} (h : Filled ip src off off hi s u) (hj : off + j < hi) :
    (src j).isSome := by
  have := (h.written (off + j) (Nat.le_add_right ..) hj).2
  rw [Nat.add_sub_cancel_left] at this
  rw [this]
  rfl

section

variable (h : Rounds sb ip src n 0 off s bufs r t) (hg : Guarded sb (s.itable ip).inum (flush ip s))
include h hg

lemma Rounds.logged_of_stopsClean (hmax : off + n ≤ MAXFILE * BSIZE)
    (hclean : StopsClean ip src off n s r.1) : Logged s t bufs := by
  obtain ⟨hle, hr, _, u, _, hf, hlog, ⟨rfl, _⟩ | ⟨a, hstop, _⟩⟩ :=
    h.split hg (Nat.zero_le n) (Nat.add_zero off).symm (by omega)
  · exact hlog
  have hfits := chunk_fits n r.1 r.2
  have hless := hstop.less
  unfold StopsClean at hclean
  rw [← hr] at hclean
  rw [hstop.copied]
  refine ⟨fun b hb => ?_, hlog.bitmap⟩
  by_cases hba : b = a
  · by_cases hmiss : blockOf (flush ip s) (s.itable ip).inum (r.2 / BSIZE) = 0
    · rw [hba]
      exact hstop.fresh hmiss
    · have ha : blockOf (flush ip s) (s.itable ip).inum (r.2 / BSIZE) = a := by
        rw [← hstop.block]
        exact (hf.refs _ hmiss).symm
      have hsame : ∀ j < readable src r.1 (chunk n r.1 r.2),
          src (r.1 + j) = some (u.data a (r.2 % BSIZE + j)) := by
        intro j hj
        obtain ⟨hdiv, hmod⟩ := div_add_of_fits (show r.2 % BSIZE + j < BSIZE by omega)
        have hkept := hf.kept (r.2 + j) (by rw [hdiv]; exact hmiss) (by omega)
        rw [hclean j hj hmiss, ← hkept]
        unfold byteAt
        rw [hdiv, hmod, hstop.block]
        rfl
      rw [hba, copyTo_same hsame] at hb
      rw [hba]
      exact hlog.data a hb
  · refine hlog.data b ?_
    show u.data b ≠ s.data b
    have hb' : update u.data a _ b ≠ s.data b := hb
    rwa [update_of_ne hba] at hb'

lemma Rounds.reports {size : Nat}
    (hole : HoleFree (flush ip s) (s.itable ip).inum) (hoff : off ≤ (s.itable ip).size)
    (hmax : off + n ≤ MAXFILE * BSIZE) (hsize : size = max (s.itable ip).size r.2)
    (hclean : StopsClean ip src off n s r.1) :
    ChangesWhatItReports sb ip off s (resize ip size t) r.1
      (writes (bufs ++ [.inode ((t.itable ip).inum / IPB)])) := by
  have hlog := h.logged_of_stopsClean hg hmax hclean
  obtain ⟨_, hr, _, _, hf⟩ := h.filled hg (Nat.zero_le n) (Nat.add_zero off).symm (by omega)
  obtain ⟨k, hw⟩ := h.wroteFile hg hole hoff hmax hsize
  refine ⟨fun x hx hout => ?_, fun b hb => ?_, fun b hb => ?_, fun i hi => ?_⟩
  · have hsz := hw.size
    rw [Int.toNat_natCast] at hout
    rw [readByte_eq (by rw [hw.inum]; exact hw.holes) (by rw [hw.type]; exact hg.type) (by omega),
      readByte_eq hole hg.type hx, hw.inum]
    by_cases hin : off ≤ x ∧ x < off + r.1 + k
    · have hk : k = readable src r.1 (chunk n r.1 (off + r.1)) := by
        rcases hw.ended.why with ⟨hk, _⟩ | hk
        · omega
        · exact hk.1
      have hle := readable_le src r.1 (chunk n r.1 (off + r.1))
      obtain ⟨j, rfl⟩ := Nat.exists_eq_add_of_le (show off + r.1 ≤ x by omega)
      have hkc : k ≤ chunk n r.1 (off + r.1) := by omega
      have hdiv := div_of_chunk hkc (show off + r.1 ≤ off + r.1 + j by omega) (by omega)
      have hb0 : blockOf (flush ip s) (s.itable ip).inum ((off + r.1) / BSIZE) ≠ 0 := by
        rw [← hdiv]
        apply hole
        rw [flush_dinode_self]
        have := Nat.div_mul_le_self (off + r.1 + j) BSIZE
        omega
      have hwritten := hw.written _ hin.1 hin.2
      rw [show off + r.1 + j - off = r.1 + j by omega, hclean j (by omega) hb0] at hwritten
      exact hwritten.symm
    · rw [hw.kept x hx hin]
  · exact mem_writes.mpr (List.mem_append_left _ (hlog.data b hb))
  · exact mem_writes.mpr (List.mem_append_left _ (hlog.bitmap b hb))
  · have hinum : i = (t.itable ip).inum := by
      by_contra hne
      apply hi
      rw [resize_dinode, update_of_ne hne, hf.dinode]
    rw [hinum]
    exact mem_writes.mpr (by simp)

lemma Rounds.stopsClean (hoff : off ≤ (s.itable ip).size) (hmax : off + n ≤ MAXFILE * BSIZE)
    (hsame : CopiesSame ip src off n s) : StopsClean ip src off n s r.1 := by
  intro j hj hb0
  have hle := readable_le src r.1 (chunk n r.1 (off + r.1))
  have hc := chunk_le n r.1 (off + r.1)
  obtain ⟨_, hr, _, u, _, hf, _, ⟨_, hn | hz⟩ | ⟨a, hstop, _⟩⟩ :=
    h.split hg (Nat.zero_le n) (Nat.add_zero off).symm (by omega)
  · omega
  · rw [hr] at hz
    exact absurd hz hb0
  · obtain ⟨heq, hdiv⟩ := hstop.unreadable hr fun j hj => hf.isSome (by omega)
    have hless := hstop.less
    rw [hr] at heq hdiv hless
    rw [Nat.add_assoc]
    refine hsame hoff hmax (by omega) (by rw [hdiv]; exact hb0) (r.1 + j) (by omega) ?_
    rw [hdiv, ← Nat.add_assoc]
    exact div_of_chunk hle (by omega) (by omega)

lemma Rounds.copiesSame (hsolid : Solid ip s)
    (hdata : ∀ b, t.data b ≠ s.data b → .block b ∈ bufs) : CopiesSame ip src off n s := by
  intro _ _ hlt hb0 j hj hdiv'
  obtain ⟨_, hr, _, u, _, hf, _, hend⟩ :=
    h.split hg (Nat.zero_le n) (Nat.add_zero off).symm (by omega)
  have hread : ∀ j < r.1, (src j).isSome := fun j hj => hf.isSome (by omega)
  have hle : r.1 ≤ readable src 0 n := by
    by_contra hc
    have hsome := hread _ (Nat.not_le.mp hc)
    have hnone := readable_stops hlt
    rw [Nat.zero_add] at hnone
    rw [hnone] at hsome
    cases hsome
  rcases hend with ⟨_, hn | hz⟩ | ⟨a, hstop, hedge⟩
  · omega
  · refine absurd hz (hsolid _ _ ?_ hb0)
    rw [hr]
    exact Nat.div_le_div_right (by omega)
  · obtain ⟨heq, hdiv⟩ := hstop.unreadable hr hread
    rw [hdiv] at hb0 hdiv'
    have hless := hstop.less
    have hcn := chunk_le n r.1 r.2
    have hj' : r.1 ≤ j := by
      by_contra hc
      rw [BSIZE_eq] at *
      omega
    obtain ⟨i, rfl⟩ := Nat.exists_eq_add_of_le hj'
    -- the block is not passed to the log, so it is as it was
    have ha : blockOf (flush ip s) (s.itable ip).inum (r.2 / BSIZE) = a := by
      rw [← hstop.block]
      exact (hf.refs _ hb0).symm
    have hold : t.data a = s.data a := by
      by_contra hc
      exact hstop.kept hb0 (hdata a hc)
    have hfits := chunk_fits n r.1 r.2
    obtain ⟨_, hmod⟩ := div_add_of_fits (show r.2 % BSIZE + i < BSIZE by omega)
    have hbyte : s.data a (r.2 % BSIZE + i) = (src (r.1 + i)).getD 0 := by
      rw [← hold, hstop.copied]
      show update u.data a _ a _ = _
      rw [update_self]
      unfold copy
      rw [if_pos (by omega), Nat.add_sub_cancel_left]
    have hi : i < readable src r.1 (chunk n r.1 r.2) := by omega
    obtain ⟨c, hc⟩ := Option.isSome_iff_exists.mp (isSome_of_lt_readable hi)
    rw [hc] at hbyte
    rw [hc, ← Nat.add_assoc, ← hr]
    unfold byteAt
    rw [← Nat.add_assoc, ← hr] at hdiv'
    rw [hdiv', ha, hmod]
    exact congrArg some hbyte.symm

end

/-- On a file without holes whose blocks are its own, a `writei` from any source changes what it
reports, and passes what it changes to the log, if and only if what it copies before the first byte
that cannot be read, to the block where this byte would go, is there already. -/
theorem writei_changes_what_it_reports_iff {r : Int} {tr : List Event}
    (hg : Guarded sb (s.itable ip).inum (flush ip s))
    (hole : HoleFree (flush ip s) (s.itable ip).inum) (hsolid : Solid ip s)
    (hrun : (writei sb ip src off n).run (s, []) = .ok (r, (t, tr))) :
    ChangesWhatItReports sb ip off s t r tr ↔ CopiesSame ip src off n s := by
  have hw : Wp (writei sb ip src off n) _ (fun _ => True) (s, []) := wp_writei sb ip src off n s []
  obtain ⟨bufs, u, heq, hw⟩ := hw.of_ok hrun
  obtain ⟨rfl, rfl⟩ := Prod.mk.inj heq
  cases hw with
  | refused hno =>
    refine iff_of_true ⟨fun _ _ _ => rfl, fun _ h => absurd rfl h, fun _ h => absurd rfl h,
      fun _ h => absurd rfl h⟩ fun hoff hmax => ?_
    have hM : MAXFILE * BSIZE = 274432 := rfl
    omega
  | @rounds r bufs u hoff hmax h =>
    obtain ⟨_, _, _, _, hf⟩ := h.filled hg (Nat.zero_le n) (Nat.add_zero off).symm (by omega)
    have hus : (u.itable ip).size = (s.itable ip).size := by rw [hf.self]
    rw [List.nil_append]
    constructor
    · intro hc
      refine h.copiesSame hg hsolid fun b hb => ?_
      have hmem := mem_writes.mp (hc.data b hb)
      simpa using hmem
    · intro hsame
      exact h.reports hg hole hoff hmax (by rw [hus]; split <;> omega)
        (h.stopsClean hg hoff hmax hsame)

lemma smallDisk_solid (size : Nat) : Solid 0 (smallDisk size) := by
  intro bm bn hle h
  rw [smallDisk_synced] at h ⊢
  unfold blockOf at h ⊢
  rw [refAt_smallDisk, ite_ne_right_iff] at h
  have hbn : bn = 0 := placeOf_inj (Prod.mk.inj h.1).2
  rw [refAt_smallDisk, show bm = bn by omega, if_pos h.1]
  decide

theorem stopped_write_of_the_same_byte :
    ∃ (t : Fs) (tr : List Event),
      (writei smallSb 0 (fun j => if j = 0 then some 0 else none) 0 2).run (smallDisk 5, []) =
        .ok (0, (t, tr)) ∧ ChangesWhatItReports smallSb 0 0 (smallDisk 5) t 0 tr := by
  have hg := smallDisk_guarded 5
  have hole := smallDisk_holeFree (show 5 ≤ BSIZE by decide)
  rw [← smallDisk_synced] at hg hole
  have hruns : ∃ (t : Fs) (tr : List Event),
      (writei smallSb 0 (fun j => if j = 0 then some 0 else none) 0 2).run (smallDisk 5, []) =
        .ok (0, (t, tr)) := ⟨_, _, rfl⟩
  obtain ⟨t, tr, hrun⟩ := hruns
  refine ⟨t, tr, hrun, (writei_changes_what_it_reports_iff hg hole (smallDisk_solid 5) hrun).mpr ?_⟩
  intro _ _ _ _ j hj _
  have h0 : j = 0 := Nat.lt_one_iff.mp hj
  rw [h0]
  rfl

/-- One byte of two can be read: `writei` reports none, but the first byte of the file has changed,
in a buffer that has not been passed to the log. -/
theorem stopped_write_changes_a_byte :
    ∃ (t : Fs) (tr : List Event),
      (writei smallSb 0 (fun j => if j = 0 then some 7 else none) 0 2).run (smallDisk 5, []) =
        .ok (0, (t, tr)) ∧
      readByte smallSb 0 0 (smallDisk 5) = some 0 ∧ readByte smallSb 0 0 t = some 7 ∧
      t.data 1 ≠ (smallDisk 5).data 1 ∧ .log_write (.block 1) ∉ tr ∧
      ¬ ChangesWhatItReports smallSb 0 0 (smallDisk 5) t 0 tr := by
  refine ⟨_, _, rfl, rfl, rfl, ?_, by decide, ?_⟩
  · intro h
    exact absurd (congrFun h 0) (by decide)
  · intro h
    exact absurd (h.bytes 0 (by decide) (by decide)) (by decide)

end xv6.fslog
