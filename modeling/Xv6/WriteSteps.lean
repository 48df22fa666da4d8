-- What `bmap` and `writei` do, step by step: a place of the inode takes a
-- block, and a block gets bytes of the source. Each step says what it changes
-- and what it passes to the log. What a whole call does is put together from
-- these steps.
import Xv6.FileIO
import Xv6.FsLog

open bytes trace wp Function List

namespace xv6.fslog

open fs

variable {sb : Superblock} {s t u : Fs} {ip n tot off pos a b bn : Nat}
  {src : Nat → Option UInt8} {bufs bufs' : List Buf} {l : List Event} {E : Stop → Prop}

/-! ## A place takes a block -/

def writes (bufs : List Buf) : List Event := bufs.map .log_write

lemma writes_append (bufs bufs' : List Buf) :
    writes (bufs ++ bufs') = writes bufs ++ writes bufs' :=
  map_append

/-- The block number at a place of the inode in memory. -/
def slot (s : Fs) (ip pos : Nat) : Nat :=
  if pos ≤ NDIRECT then (s.itable ip).addrs pos
  else if (s.itable ip).addrs NDIRECT = 0 then 0
  else indirectEntry (s.data ((s.itable ip).addrs NDIRECT)) (pos - NDIRECT - 1)

lemma slot_of_le (s : Fs) (ip : Nat) (h : pos ≤ NDIRECT) :
    slot s ip pos = (s.itable ip).addrs pos := if_pos h

lemma slot_entry (h : (s.itable ip).addrs NDIRECT ≠ 0) (j : Nat) :
    slot s ip (NDIRECT + 1 + j) = indirectEntry (s.data ((s.itable ip).addrs NDIRECT)) j := by
  unfold slot
  rw [if_neg (by omega), if_neg h, show NDIRECT + 1 + j - NDIRECT - 1 = j by omega]

lemma refAt_slot (ht : (s.itable ip).type ≠ .free) (hpos : pos < NPLACE) :
    refAt (flush ip s) ((s.itable ip).inum, pos) = slot s ip pos := by
  unfold refAt slot
  rw [flush_dinode_self]
  unfold Dinode.place
  rw [if_neg (by simp [ht, hpos])]
  rfl

/-- The state after `balloc` has marked and zeroed block `b`. -/
def mark (b : Nat) (s : Fs) : Fs :=
  { s with bitmap := update s.bitmap b true,
           data := update s.data b fun _ => 0 }

/-- What can happen when a place of the inode is looked up: it holds a block, or it is empty and
there is no block for it, or it takes one. Block 0 is taken for none. -/
inductive Take (sb : Superblock) (ip : Nat) (s : Fs) : Nat → Nat → List Buf → Fs → Prop where
  | found {pos : Nat} : slot s ip pos ≠ 0 → Take sb ip s pos (slot s ip pos) [] s
  | full {pos : Nat} : slot s ip pos = 0 → Take sb ip s pos 0 [] s
  | lost {pos : Nat} : slot s ip pos = 0 → s.bitmap 0 = false →
      Take sb ip s pos 0 [.bitmap (0 / BPB), .block 0] (mark 0 s)
  | direct {pos b : Nat} : pos ≤ NDIRECT → slot s ip pos = 0 → b ≠ 0 → b < sb.size →
      s.bitmap b = false →
      Take sb ip s pos b [.bitmap (b / BPB), .block b] (takeDirect ip pos b s)
  | entry {j b : Nat} : j < NINDIRECT → (s.itable ip).addrs NDIRECT ≠ 0 →
      slot s ip (NDIRECT + 1 + j) = 0 → b ≠ 0 → b < sb.size → s.bitmap b = false →
      Take sb ip s (NDIRECT + 1 + j) b
        [.bitmap (b / BPB), .block b, .block ((s.itable ip).addrs NDIRECT)]
        (takeEntry ((s.itable ip).addrs NDIRECT) j b s)

lemma wp_balloc (sb : Superblock) (s : Fs) (l : List Event) :
    Wp (balloc sb) (fun b x => b = 0 ∧ x = (s, l) ∨ b < sb.size ∧ s.bitmap b = false ∧
      x = (mark b s, l ++ writes [.bitmap (b / BPB), .block b])) E (s, l) := by
  unfold balloc
  rw [wp_quiet_bind, wp_get]
  cases hfind : (List.range sb.size).find? fun b => !s.bitmap b with
  | none =>
    rw [wp_pure]
    exact .inl ⟨rfl, rfl⟩
  | some b =>
    have hmem := mem_range.mp (mem_of_find?_eq_some hfind)
    have hfree := find?_some hfind
    unfold bzero log_write
    rw [wp_quiet_bind, wp_set, wp_note_bind, wp_bind, wp_quiet_bind, wp_modify, wp_note, wp_pure]
    refine .inr ⟨hmem, by simpa using hfree, ?_⟩
    simp [mark, writes]

lemma wp_bmapDirect (sb : Superblock) (ip : Nat) (s : Fs) (l : List Event)
    (hpos : pos ≤ NDIRECT) :
    Wp (bmapDirect sb ip pos) (fun a x => ∃ bufs t, x = (t, l ++ writes bufs) ∧
      Take sb ip s pos a bufs t) E (s, l) := by
  have hslot := slot_of_le s ip hpos
  unfold bmapDirect
  rw [wp_quiet_bind, wp_get]
  apply wp_ite <;> intro h0
  · rw [← hslot] at h0
    refine (wp_balloc sb s l).bind ?_
    rintro b x (⟨rfl, rfl⟩ | ⟨hb, hu, rfl⟩)
    · rw [if_pos rfl, wp_pure]
      exact ⟨[], s, by simp [writes], .full h0⟩
    · apply wp_ite <;> intro hb0
      · rw [wp_pure]
        rw [hb0] at hu ⊢
        exact ⟨_, _, rfl, .lost h0 hu⟩
      · rw [wp_quiet_bind, wp_modifyInode, wp_pure]
        exact ⟨_, _, rfl, .direct hpos h0 hb0 hb hu⟩
  · rw [wp_pure]
    refine ⟨[], s, by simp [writes], ?_⟩
    rw [← hslot] at h0 ⊢
    exact .found h0

/-- What `bmap` does for block `bn` of the file. -/
inductive Bmap (sb : Superblock) (ip : Nat) (s : Fs) (bn : Nat) : Nat → List Buf → Fs → Prop where
  | direct {a : Nat} {bufs : List Buf} {t : Fs} : bn < NDIRECT → Take sb ip s bn a bufs t →
      Bmap sb ip s bn a bufs t
  | none {bufs : List Buf} {t : Fs} : ¬ bn < NDIRECT → Take sb ip s NDIRECT 0 bufs t →
      Bmap sb ip s bn 0 bufs t
  | entry {ind a : Nat} {bufs bufs' : List Buf} {t u : Fs} : ¬ bn < NDIRECT → ind ≠ 0 →
      Take sb ip s NDIRECT ind bufs t → Take sb ip t (NDIRECT + 1 + (bn - NDIRECT)) a bufs' u →
      Bmap sb ip s bn a (bufs ++ bufs') u

lemma Take.indirect (h : Take sb ip s NDIRECT a bufs t) (ha : a ≠ 0) :
    (t.itable ip).addrs NDIRECT = a := by
  generalize hpos : NDIRECT = pos at h
  cases h with
  | found h0 => rw [← hpos, slot_of_le _ _ (Nat.le_refl _)]
  | full | lost => exact absurd rfl ha
  | direct => simp [takeDirect]
  | entry => omega

lemma wp_bmap (sb : Superblock) (ip : Nat) (s : Fs) (l : List Event) (hbn : bn < MAXFILE) :
    Wp (bmap sb ip bn) (fun a x => ∃ bufs t, x = (t, l ++ writes bufs) ∧
      Bmap sb ip s bn a bufs t) E (s, l) := by
  apply wp_ite <;> intro hd
  · refine (wp_bmapDirect sb ip s l (by omega)).imp ?_
    rintro a x ⟨bufs, t, rfl, ht⟩
    exact ⟨bufs, t, rfl, .direct hd ht⟩
  · have hj : bn - NDIRECT < NINDIRECT := by
      unfold MAXFILE at hbn
      omega
    rw [if_pos hj]
    refine (wp_bmapDirect sb ip s l (Nat.le_refl _)).bind ?_
    rintro ind x ⟨bufs, t, rfl, ht⟩
    apply wp_ite <;> intro h0
    · rw [wp_pure]
      rw [h0] at ht
      exact ⟨bufs, t, rfl, .none hd ht⟩
    · have hind := ht.indirect h0
      have hne : (t.itable ip).addrs NDIRECT ≠ 0 := by rwa [hind]
      have hslot := slot_entry hne (bn - NDIRECT)
      rw [hind] at hslot
      rw [wp_quiet_bind, wp_get]
      apply wp_ite <;> intro he0
      · rw [← hslot] at he0
        refine (wp_balloc sb t _).bind ?_
        rintro b x (⟨rfl, rfl⟩ | ⟨hb, hu, rfl⟩)
        · rw [if_pos rfl, wp_pure]
          exact ⟨bufs ++ [], t, by simp, .entry hd h0 ht (.full he0)⟩
        · apply wp_ite <;> intro hb0
          · rw [wp_pure]
            rw [hb0] at hu ⊢
            exact ⟨_, _, by rw [writes_append, append_assoc], .entry hd h0 ht (.lost he0 hu)⟩
          · unfold log_write
            rw [wp_quiet_bind, wp_modify, wp_note_bind, wp_pure]
            refine ⟨_, _, ?_, .entry hd h0 ht (.entry hj hne he0 hb0 hb hu)⟩
            rw [hind, writes_append]
            simp [writes, takeEntry, mark]
      · rw [wp_pure]
        refine ⟨bufs ++ [], t, by simp, ?_⟩
        rw [← hslot] at he0 ⊢
        exact .entry hd h0 ht (.found he0)

/-! ## What is passed to the log -/

/-- Every buffer that has changed is among `bufs`. -/
structure Logged (s t : Fs) (bufs : List Buf) : Prop where
  data : ∀ b, t.data b ≠ s.data b → .block b ∈ bufs
  bitmap : ∀ b, t.bitmap b ≠ s.bitmap b → .bitmap (b / BPB) ∈ bufs

lemma Logged.refl (s : Fs) (bufs : List Buf) : Logged s s bufs :=
  ⟨fun _ h => absurd rfl h, fun _ h => absurd rfl h⟩

lemma Logged.trans (h : Logged s t bufs) (h' : Logged t u bufs') :
    Logged s u (bufs ++ bufs') := by
  refine ⟨fun b hb => ?_, fun b hb => ?_⟩
  · rw [mem_append]
    by_cases hc : t.data b = s.data b
    · exact .inr (h'.data b (by rw [hc]; exact hb))
    · exact .inl (h.data b hc)
  · rw [mem_append]
    by_cases hc : t.bitmap b = s.bitmap b
    · exact .inr (h'.bitmap b (by rw [hc]; exact hb))
    · exact .inl (h.bitmap b hc)

lemma mem_of_update {f : Nat → Bytes} {c : Nat} {v : Bytes} (h : update f c v b ≠ f b)
    (hc : .block c ∈ bufs) : .block b ∈ bufs := by
  by_cases hb : b = c
  · rw [hb]
    exact hc
  · rw [update_of_ne hb] at h
    exact absurd rfl h

lemma mem_of_mark {f : Nat → Bool} {c : Nat} (h : update f c true b ≠ f b)
    (hc : .bitmap (c / BPB) ∈ bufs) : .bitmap (b / BPB) ∈ bufs := by
  by_cases hb : b = c
  · rw [hb]
    exact hc
  · rw [update_of_ne hb] at h
    exact absurd rfl h

lemma Take.changed (h : Take sb ip s pos a bufs t) : Logged s t bufs := by
  cases h with
  | found => exact .refl ..
  | full => exact .refl ..
  | lost =>
    exact ⟨fun b hb => mem_of_update hb (by simp), fun b hb => mem_of_mark hb (by simp)⟩
  | direct =>
    exact ⟨fun b hb => mem_of_update hb (by simp), fun b hb => mem_of_mark hb (by simp)⟩
  | entry =>
    refine ⟨fun b hb => ?_, fun b hb => mem_of_mark hb (by simp)⟩
    by_cases hind : b = (s.itable ip).addrs NDIRECT
    · simp [hind]
    · simp only [takeEntry] at hb
      rw [update_of_ne hind] at hb
      exact mem_of_update hb (by simp)

lemma Bmap.changed (h : Bmap sb ip s bn a bufs t) : Logged s t bufs := by
  cases h with
  | direct _ h => exact h.changed
  | none _ h => exact h.changed
  | entry _ _ h h' => exact h.changed.trans h'.changed

/-! ## The rounds of `writei` -/

def chunk (n tot off : Nat) : Nat := min (n - tot) (BSIZE - off % BSIZE)

/-- The state after `k` bytes from place `tot` of the source are copied to block `a`. -/
def copyTo (src : Nat → Option UInt8) (a tot off k : Nat) (s : Fs) : Fs :=
  setBlock a (copy (s.data a) (off % BSIZE) (fun i => (src i).getD 0) tot k) s

/-- What the loop of `writei` does from `tot` and `off` on. -/
inductive Rounds (sb : Superblock) (ip : Nat) (src : Nat → Option UInt8) (n : Nat) :
    Nat → Nat → Fs → List Buf → Nat × Nat → Fs → Prop where
  | done {tot off : Nat} {s : Fs} : ¬ tot < n → Rounds sb ip src n tot off s [] (tot, off) s
  | full {tot off : Nat} {s t : Fs} {bufs : List Buf} : tot < n →
      Bmap sb ip s (off / BSIZE) 0 bufs t → Rounds sb ip src n tot off s bufs (tot, off) t
  | stop {tot off a : Nat} {s t : Fs} {bufs : List Buf} : tot < n → a ≠ 0 →
      Bmap sb ip s (off / BSIZE) a bufs t → readable src tot (chunk n tot off) ≠ chunk n tot off →
      Rounds sb ip src n tot off s bufs (tot, off)
        (copyTo src a tot off (readable src tot (chunk n tot off)) t)
  | round {tot off a : Nat} {s t u : Fs} {bufs bufs' : List Buf} {r : Nat × Nat} : tot < n →
      a ≠ 0 → Bmap sb ip s (off / BSIZE) a bufs t →
      readable src tot (chunk n tot off) = chunk n tot off →
      Rounds sb ip src n (tot + chunk n tot off) (off + chunk n tot off)
        (copyTo src a tot off (chunk n tot off) t) bufs' r u →
      Rounds sb ip src n tot off s (bufs ++ .block a :: bufs') r u

lemma chunk_pos (h : tot < n) (off : Nat) : 0 < chunk n tot off := by
  have := Nat.mod_lt off (show 0 < BSIZE by decide)
  unfold chunk
  omega

lemma wp_writeiLoop (sb : Superblock) (ip : Nat) (src : Nat → Option UInt8) (s : Fs)
    (l : List Event) {fuel : Nat} (hfuel : n - tot ≤ fuel)
    (hmax : off + (n - tot) ≤ MAXFILE * BSIZE) :
    Wp (writeiLoop sb ip src n fuel tot off) (fun r x => ∃ bufs t, x = (t, l ++ writes bufs) ∧
      Rounds sb ip src n tot off s bufs r t) E (s, l) := by
  induction fuel generalizing s l tot off with
  | zero =>
    unfold writeiLoop
    rw [wp_pure]
    exact ⟨[], s, by simp [writes], .done (by omega)⟩
  | succ fuel ih =>
    apply wp_ite <;> intro hlt
    · have hbn : off / BSIZE < MAXFILE := by
        apply Nat.div_lt_of_lt_mul
        rw [Nat.mul_comm]
        omega
      refine (wp_bmap sb ip s l hbn).bind ?_
      rintro a x ⟨bufs, t, rfl, hb⟩
      apply wp_ite <;> intro h0
      · rw [wp_pure]
        rw [h0] at hb
        exact ⟨bufs, t, rfl, .full hlt hb⟩
      · rw [wp_quiet_bind, wp_get]
        rw [wp_quiet_bind, wp_set]
        unfold either_copyin
        have hpos := chunk_pos hlt off
        have hle : chunk n tot off ≤ n - tot := Nat.min_le_left ..
        refine wp_ite (fun hall => ?_) (fun hsome => ?_)
        · rw [decide_eq_true_eq] at hall
          unfold log_write
          rw [wp_note_bind, hall]
          have hrest : n - (tot + chunk n tot off) ≤ fuel := by omega
          have hend : off + chunk n tot off + (n - (tot + chunk n tot off)) ≤ MAXFILE * BSIZE := by
            omega
          refine (ih (copyTo src a tot off (chunk n tot off) t) _ hrest hend).imp ?_
          rintro r x ⟨bufs', u, rfl, hr⟩
          refine ⟨_, u, ?_, .round hlt h0 hb hall hr⟩
          simp [writes]
        · rw [wp_pure]
          rw [decide_eq_true_eq] at hsome
          exact ⟨bufs, _, rfl, .stop hlt h0 hb hsome⟩
    · rw [wp_pure]
      exact ⟨[], s, by simp [writes], .done hlt⟩

/-- What `writei` does: it refuses, or it makes its rounds and writes the inode back. -/
inductive Writei (sb : Superblock) (ip : Nat) (src : Nat → Option UInt8) (off n : Nat) (s : Fs) :
    Int → List Buf → Fs → Prop where
  | refused : (off > (s.itable ip).size ∨ (off + n) % 2 ^ 32 < off ∨ off + n > MAXFILE * BSIZE) →
      Writei sb ip src off n s (-1) [] s
  | rounds {r : Nat × Nat} {bufs : List Buf} {t : Fs} : off ≤ (s.itable ip).size →
      off + n ≤ MAXFILE * BSIZE → Rounds sb ip src n 0 off s bufs r t →
      Writei sb ip src off n s r.1 (bufs ++ [.inode ((t.itable ip).inum / IPB)])
        (resize ip (if r.2 > (t.itable ip).size then r.2 else (t.itable ip).size) t)

lemma wp_writei (sb : Superblock) (ip : Nat) (src : Nat → Option UInt8) (off n : Nat) (s : Fs)
    (l : List Event) :
    Wp (writei sb ip src off n) (fun r x => ∃ bufs t, x = (t, l ++ writes bufs) ∧
      Writei sb ip src off n s r bufs t) E (s, l) := by
  unfold writei
  rw [wp_quiet_bind, wp_get]
  refine wp_ite (fun hbad => ?_) (fun hok => ?_)
  · rw [wp_pure]
    refine ⟨[], s, by simp [writes], .refused ?_⟩
    rcases hbad with h | h
    · exact .inl h
    · exact .inr (.inl h)
  rw [not_or] at hok
  refine wp_ite (fun hbad => ?_) (fun hmax => ?_)
  · rw [wp_pure]
    exact ⟨[], s, by simp [writes], .refused (.inr (.inr hbad))⟩
  refine (wp_writeiLoop sb ip src s l (Nat.sub_le ..) (by omega)).bind ?_
  rintro r x ⟨bufs, t, rfl, hr⟩
  unfold iupdate log_write
  rw [wp_quiet_bind, wp_modifyInode, wp_bind, wp_quiet_bind, wp_get, wp_quiet_bind, fs.wp_iupdate,
    wp_note, wp_pure]
  refine ⟨_, _, ?_, .rounds (by omega) (by omega) hr⟩
  simp [writes, resize, setSlot]

/-! ## A small disk -/

def smallSb : Superblock := { size := 4, nblocks := 3, ninodes := 2 }

def smallDinode (size : Nat) : Dinode :=
  { type := .file, major := 0, minor := 0, nlink := 1, size,
    addrs := fun pos => if pos = 0 then 1 else 0 }

/-- A disk of four blocks. Block 1 is the only one of the only file, which is open. -/
def smallDisk (size : Nat) : Fs :=
  { blank (fun b => b ≤ 1)
      (fun i => if i = 1 then smallDinode size else ⟨.free, 0, 0, 0, 0, fun _ => 0⟩)
      (fun _ _ => 0) with
    itable := fun _ => { smallDinode size with inum := 1, ref := 1, valid := true }
    ftable := fun _ => { type := .inode, ref := 1, readable := true, writable := true, pipe := 0,
                         ip := 0, off := 0, major := 0 } }

lemma smallDisk_synced (size : Nat) : flush 0 (smallDisk size) = smallDisk size :=
  flush_of_synced rfl

lemma refAt_smallDisk (size : Nat) (p : Nat × Nat) :
    refAt (smallDisk size) p = if p = (1, 0) then 1 else 0 := by
  obtain ⟨i, pos⟩ := p
  unfold refAt Dinode.place smallDisk blank
  by_cases hi : i = 1
  · by_cases hpos : pos = 0
    · simp [hi, hpos, smallDinode, NPLACE, NDIRECT]
    · simp [hi, hpos, smallDinode, NDIRECT]
  · simp [hi]

lemma smallDisk_holeFree {size : Nat} (h : size ≤ BSIZE) : HoleFree (smallDisk size) 1 := by
  intro bn hbn
  have hsize : ((smallDisk size).dinode 1).size = size := rfl
  have h0 : bn = 0 := by
    rw [hsize] at hbn
    rw [BSIZE_eq] at *
    omega
  unfold blockOf
  rw [refAt_smallDisk, h0]
  decide

end xv6.fslog
