-- Directories as tables of entries: what `dirlookup` finds, what `dirlink` adds
-- and when `isdirempty` says yes.
import Mathlib.Data.List.TakeWhile
import Xv6.InodeTable
import Xv6.Sysfile

open bytes ownership wp List

namespace xv6.fs

variable {sb : Superblock} {s t u : Fs} {r : Nat → Nat} {ts : List Nat} {k ip dp : Nat}
  {E : Stop → Prop}

/-! ## Writing one entry -/

variable {m : Nat} {src : Nat → Option UInt8}

lemma readable_all {a m : Nat} (h : ∀ i < m, (src (a + i)).isSome) :
    readable src a m = m := by
  unfold readable
  rw [takeWhile_eq_self_iff.mpr, length_range]
  intro i hi
  exact h i (mem_range.mp hi)

lemma byteAt_resize (size : Nat) {x : Nat} (hs : Synced s ip) (h : Owned sb s)
    (ht : (s.itable ip).type ≠ .free) (hm : Mapped ip s t) (hx : x < (s.itable ip).size) :
    refAt (flush ip t) ((s.itable ip).inum, placeOf (x / BSIZE)) =
        blockOf s (s.itable ip).inum (x / BSIZE) ∧
      byteAt (resize ip size t) (s.itable ip).inum x = byteAt s (s.itable ip).inum x := by
  have hne : blockOf s (s.itable ip).inum (x / BSIZE) ≠ 0 := by
    apply h.holes _ (by rw [← hs.type]; exact ht)
    rw [← hs.size]
    have := Nat.div_mul_le_self x BSIZE
    omega
  have hflush := hs.flush
  have hr := hm.refs ((s.itable ip).inum, placeOf (x / BSIZE))
  have hd := hm.data ((s.itable ip).inum, placeOf (x / BSIZE)) (placeOf_ne _)
  rw [hflush] at hr hd
  refine ⟨hr hne, ?_⟩
  unfold byteAt blockOf
  rw [refAt_resize, hr hne]
  exact congrFun (hd hne) _

lemma wp_writeDirent (h : Owned sb s) (hs : Synced s ip) (ht : (s.itable ip).type ≠ .free)
    (hsrc : ∀ j < DIRENT, (src j).isSome) {off : Nat}
    (halign : off % DIRENT = 0) :
    Wp (writei sb ip src off DIRENT) (fun r t =>
      (r = DIRENT ∧ off ≤ (s.itable ip).size ∧
        (t.itable ip).size = max (s.itable ip).size (off + DIRENT) ∧
        ∀ x < (t.itable ip).size, byteAt t (s.itable ip).inum x =
          if off ≤ x ∧ x < off + DIRENT then (src (x - off)).getD 0
          else byteAt s (s.itable ip).inum x) ∨
      (r ≠ DIRENT ∧ (t.itable ip).size = (s.itable ip).size ∧
        ∀ x < (s.itable ip).size, byteAt t (s.itable ip).inum x =
          byteAt s (s.itable ip).inum x)) E s := by
  have hD : DIRENT = 16 := rfl
  unfold writei
  rw [wp_get_bind]
  apply wp_ite <;> intro hok
  · rw [wp_pure]
    exact .inr ⟨by decide, rfl, fun _ _ => rfl⟩
  · rw [not_or] at hok
    apply wp_ite <;> intro hmax
    · rw [wp_pure]
      exact .inr ⟨by decide, rfl, fun _ _ => rfl⟩
    · have hflush := hs.flush
      have hbn : off / BSIZE < MAXFILE := by
        apply Nat.div_lt_of_lt_mul
        rw [Nat.mul_comm]
        omega
      have ho : Owned sb (flush ip s) := by
        rw [hflush]
        exact h
      rw [wp_bind, show writeiLoop sb ip src DIRENT DIRENT 0 off =
        writeiLoop sb ip src DIRENT (15 + 1) 0 off from rfl]
      unfold writeiLoop
      rw [if_pos (by decide)]
      refine wp_bmap_setBlock ho ht hbn ?_ ?_
      · intro t _ hm
        rw [if_pos rfl, wp_pure, wp_modifyInode_bind, wp_iupdate_bind, wp_pure]
        have hsize : (if off > (t.itable ip).size then off else (t.itable ip).size) =
            (s.itable ip).size := by
          rw [hm.size, if_neg (by omega)]
        refine .inr ⟨by simp [DIRENT], ?_, ?_⟩
        · simp [hsize]
        · intro x hx
          exact (byteAt_resize _ hs h ht hm hx).2
      · intro a t ha hot hm hblock hset
        rw [if_neg ha, wp_get_bind, wp_set_bind]
        have hmin : min (DIRENT - 0) (BSIZE - off % BSIZE) = DIRENT := by
          simp only [hD, BSIZE_eq] at halign ⊢
          omega
        have hcopy : either_copyin (t.data a) (off % BSIZE) src 0 DIRENT =
            (copy (t.data a) (off % BSIZE) (fun i => (src i).getD 0) 0 DIRENT, true) := by
          unfold either_copyin
          rw [readable_all (by simpa using hsrc)]
          simp
        rw [hmin]
        simp only [hcopy]
        rw [if_pos trivial]
        rw [show writeiLoop sb ip src DIRENT 15 (0 + DIRENT) (off + DIRENT) =
          pure (0 + DIRENT, off + DIRENT) from rfl, wp_pure, wp_modifyInode_bind,
          wp_iupdate_bind, wp_pure]
        have hsize : (if off + DIRENT > (t.itable ip).size then off + DIRENT
            else (t.itable ip).size) = max (s.itable ip).size (off + DIRENT) := by
          rw [hm.size]
          split <;> omega
        refine .inl ⟨by simp [DIRENT], by omega, ?_, ?_⟩
        · simp [hsize]
        · intro x hx
          have hx' : x < max (s.itable ip).size (off + DIRENT) := by
            simpa [hsize] using hx
          generalize hv : copy (t.data a) (off % BSIZE) (fun i => (src i).getD 0) 0 DIRENT = v
          have hblk : ∀ size, blockOf (resize ip size (setBlock a v t)) (s.itable ip).inum
              (x / BSIZE) = refAt (flush ip t) ((s.itable ip).inum, placeOf (x / BSIZE)) := by
            intro size
            unfold blockOf
            rw [refAt_resize, (hset v).2.2]
          change (setBlock a v t).data (blockOf (resize ip _ (setBlock a v t)) (s.itable ip).inum
            (x / BSIZE)) (x % BSIZE) = _
          rw [hblk]
          by_cases hsame : x / BSIZE = off / BSIZE
          · rw [hsame, hblock]
            simp only [setBlock, Function.update_self]
            rw [← hv]
            unfold copy
            by_cases hin : off ≤ x ∧ x < off + DIRENT
            · simp only [hD, BSIZE_eq] at hin hsame halign ⊢
              rw [if_pos hin, if_pos (by omega), Nat.zero_add]
              congr 2
              omega
            · rw [if_neg hin, if_neg (by simp only [hD, BSIZE_eq] at *; omega)]
              obtain ⟨h1, h2⟩ := byteAt_resize 0 hs h ht hm (x := x) (by omega)
              rw [← h2]
              unfold byteAt blockOf
              rw [refAt_resize, hsame, hblock]
              rfl
          · have hout : ¬ (off ≤ x ∧ x < off + DIRENT) := by
              simp only [hD, BSIZE_eq] at halign hsame ⊢
              omega
            rw [if_neg hout]
            obtain ⟨h1, h2⟩ := byteAt_resize 0 hs h ht hm (x := x) (by omega)
            have hne : refAt (flush ip t) ((s.itable ip).inum, placeOf (x / BSIZE)) ≠ a := by
              intro heq
              rw [← hblock] at heq
              have h0 : refAt (flush ip t) ((s.itable ip).inum, placeOf (x / BSIZE)) ≠ 0 := by
                rw [heq, hblock]
                exact ha
              exact hsame (placeOf_inj (Prod.mk.inj (hot.exact.inj _ _ h0 heq)).2)
            simp only [setBlock]
            rw [Function.update_of_ne hne, ← h2]
            unfold byteAt blockOf
            rw [refAt_resize]
            rfl

/-! ## Entries -/

def entryAt (s : Fs) (i m : Nat) : Dirent := Dirent.ofBytes (bytesOf s i (DIRENT * m) DIRENT)

/-- Entry `m` of inode `i` has the name. -/
def Names (s : Fs) (i : Nat) (name : Name) (m : Nat) : Prop :=
  (entryAt s i m).inum ≠ 0 ∧ (entryAt s i m).name = name

lemma bytesOf_congr {s t : Fs} {i off n : Nat}
    (h : ∀ x, off ≤ x → x < off + n → byteAt t i x = byteAt s i x) :
    bytesOf t i off n = bytesOf s i off n := by
  apply map_congr_left
  intro j hj
  exact h _ (by omega) (by have := mem_range.mp hj; omega)

lemma range_map_getD (name : Name) (n : Nat) (h : name.length ≤ n) :
    (List.range n).map (fun j => name.getD j 0) = name ++ List.replicate (n - name.length) 0 := by
  apply ext_getElem
  · simp
    omega
  · intro j h1 h2
    simp only [length_map, length_range] at h1
    rw [getElem_map, getElem_range]
    by_cases hj : j < name.length
    · rw [getElem_append_left hj]
      simp [hj]
    · rw [getElem_append_right (by omega), getElem_replicate]
      simp [hj]

lemma ofBytes_bytes {de : Dirent} (hi : de.inum < 65536) (hlen : de.name.length ≤ DIRSIZ)
    (h0 : (0 : UInt8) ∉ de.name) :
    Dirent.ofBytes ((List.range DIRENT).map fun j => (de.bytes j).getD 0) = de := by
  have hlist : (List.range DIRENT).map (fun j => (de.bytes j).getD 0) =
      UInt8.ofNat de.inum :: UInt8.ofNat (de.inum / 256) ::
        (List.range DIRSIZ).map fun j => de.name.getD j 0 := by
    simp [DIRENT, DIRSIZ, range_succ, Dirent.bytes]
  have hname : (((List.range DIRSIZ).map fun j => de.name.getD j 0).take DIRSIZ).takeWhile
      (· ≠ 0) = de.name := by
    rw [range_map_getD _ _ hlen, take_of_length_le (by simp; omega),
      takeWhile_append_of_pos]
    · cases DIRSIZ - de.name.length with
      | zero => simp
      | succ n => simp [replicate_succ]
    · intro c hc
      simp only [ne_eq, decide_not, Bool.not_eq_eq_eq_not, Bool.not_true, decide_eq_false_iff_not]
      rintro rfl
      exact h0 hc
  rw [hlist]
  unfold Dirent.ofBytes
  simp only [getD_cons_zero, getD_cons_succ, drop_succ_cons, drop_zero, hname]
  have hnum : (UInt8.ofNat de.inum).toNat + 256 * (UInt8.ofNat (de.inum / 256)).toNat =
      de.inum := by
    simp only [UInt8.toNat_ofNat']
    omega
  rw [hnum]

/-! ## The loops over a directory -/

lemma wp_readDirent (h : Base sb r ts s) (hk : Held r ts dp) (hv : (s.itable dp).valid = true)
    (hm : DIRENT * m < (s.itable dp).size) {text : String}
    (hE : DIRENT ∣ (s.itable dp).size ∨ E (.panic text)) :
    Wp (readDirent sb dp (DIRENT * m) text) (fun de t => t = s ∧
      DIRENT * m + DIRENT ≤ (s.itable dp).size ∧ de = entryAt s (s.itable dp).inum m) E s := by
  obtain ⟨hs, ht⟩ := h.synced dp hk.1 (hk.ref_pos h) hv
  have hsize : (s.itable dp).size ≤ MAXFILE * BSIZE := by
    rw [hs.size]
    exact h.owned.sizes _ (by rw [← hs.type]; exact ht)
  have hD : DIRENT = 16 := rfl
  have hM : MAXFILE * BSIZE = 274432 := rfl
  refine (wp_readi h.owned hs ht _ _ _).bind ?_
  rintro x t ⟨rfl, hx⟩
  have hx := hx (fun _ => rfl) (by omega) (by omega)
  refine wp_ite (fun hfull => ?_) (fun hpart => (wp_throw _).mpr (hE.resolve_left ?_))
  · rw [wp_pure]
    rw [hx] at hfull
    dsimp only at hfull
    have hmin : min DIRENT ((t.itable dp).size - DIRENT * m) = DIRENT := by exact_mod_cast hfull
    refine ⟨rfl, by omega, ?_⟩
    rw [hx, hmin]
    rfl
  · -- a directory of whole entries has this one whole
    rintro ⟨n, hn⟩
    rw [hx] at hpart
    apply hpart
    have hmin : min DIRENT ((t.itable dp).size - DIRENT * m) = DIRENT := by
      simp only [DIRENT] at hn hm ⊢
      omega
    rw [hmin]

lemma offsets_zero (size : Nat) :
    offsets 0 size = (List.range ((size + (DIRENT - 1)) / DIRENT)).map (DIRENT * ·) := by
  simp [offsets]

lemma index_lt {m size : Nat} (h : m ∈ List.range ((size + (DIRENT - 1)) / DIRENT)) :
    DIRENT * m < size := by
  have hD : DIRENT = 16 := rfl
  have := mem_range.mp h
  rw [hD] at *
  omega

section

variable (h : Base sb r ts s) (hk : Held r ts dp) (hv : (s.itable dp).valid = true)
include h hk hv

lemma wp_dirlookupLoop
    (hE : DIRENT ∣ (s.itable dp).size ∨ E (.panic "dirlookup read"))
    (hE' : E (.panic "iget: no inodes")) (name : Name) (ms : List Nat)
    (hms : ∀ m ∈ ms, DIRENT * m < (s.itable dp).size) :
    Wp (dirlookupLoop sb dp name (ms.map (DIRENT * ·))) (fun o t =>
      (o = none ∧ t = s ∧ ∀ m ∈ ms, DIRENT * m + DIRENT ≤ (s.itable dp).size ∧
        ¬ Names s (s.itable dp).inum name m) ∨
      ∃ k m, o = some (k, DIRENT * m) ∧ m ∈ ms ∧ DIRENT * m + DIRENT ≤ (s.itable dp).size ∧
        Names s (s.itable dp).inum name m ∧ Base sb r (k :: ts) t ∧ Lookup s t ∧
        Steady r ts s t ∧ Got (entryAt s (s.itable dp).inum m).inum k s t) E s := by
  induction ms with
  | nil =>
    rw [map_nil, dirlookupLoop, wp_pure]
    exact .inl ⟨rfl, rfl, by simp⟩
  | cons m ms ih =>
    rw [map_cons, dirlookupLoop]
    refine (wp_readDirent h hk hv (hms m mem_cons_self) hE).bind ?_
    rintro de t ⟨rfl, hfits, rfl⟩
    have hrest : ¬ Names t (t.itable dp).inum name m →
        Wp (dirlookupLoop sb dp name (ms.map (DIRENT * ·))) (fun o u =>
          (o = none ∧ u = t ∧ ∀ x ∈ m :: ms, DIRENT * x + DIRENT ≤ (t.itable dp).size ∧
            ¬ Names t (t.itable dp).inum name x) ∨
          ∃ k x, o = some (k, DIRENT * x) ∧ x ∈ m :: ms ∧ DIRENT * x + DIRENT ≤ (t.itable dp).size ∧
            Names t (t.itable dp).inum name x ∧ Base sb r (k :: ts) u ∧ Lookup t u ∧
            Steady r ts t u ∧ Got (entryAt t (t.itable dp).inum x).inum k t u) E t := by
      intro hno
      refine (ih fun x hx => hms x (mem_cons_of_mem _ hx)).imp ?_
      rintro o u (⟨ho, hu, hall⟩ | ⟨k, x, ho, hx, hrest⟩)
      · refine .inl ⟨ho, hu, ?_⟩
        intro x hx
        rcases mem_cons.mp hx with rfl | hx
        · exact ⟨hfits, hno⟩
        · exact hall x hx
      · exact .inr ⟨k, x, ho, mem_cons_of_mem _ hx, hrest⟩
    refine wp_ite (fun h0 => hrest fun hn => hn.1 h0) (fun h0 => ?_)
    apply wp_ite <;> intro hname
    · refine (wp_iget h hE' _).bind ?_
      rintro k u ⟨hb, hl, hst, _, hi⟩
      rw [wp_pure]
      refine .inr ⟨k, m, rfl, mem_cons_self, hfits, ⟨h0, ?_⟩, hb, hl, hst, hi⟩
      exact (decide_eq_true_eq.mp hname).symm
    · refine hrest fun hn => hname ?_
      exact decide_eq_true hn.2.symm

lemma wp_dirlookup
    (hE0 : (s.itable dp).type ≠ .dir → E (.panic "dirlookup not DIR"))
    (hE : DIRENT ∣ (s.itable dp).size ∨ E (.panic "dirlookup read"))
    (hE' : E (.panic "iget: no inodes")) (name : Name) :
    Wp (dirlookup sb dp name) (fun o t =>
      (o = none ∧ t = s ∧ ∀ m, DIRENT * m < (s.itable dp).size →
        DIRENT * m + DIRENT ≤ (s.itable dp).size ∧ ¬ Names s (s.itable dp).inum name m) ∨
      ∃ k m, o = some (k, DIRENT * m) ∧ DIRENT * m + DIRENT ≤ (s.itable dp).size ∧
        Names s (s.itable dp).inum name m ∧ Base sb r (k :: ts) t ∧ Lookup s t ∧
        Steady r ts s t ∧ Got (entryAt s (s.itable dp).inum m).inum k s t) E s := by
  unfold dirlookup
  rw [wp_get_bind]
  refine wp_ite (fun ht => (wp_throw _).mpr (hE0 ht)) (fun _ => ?_)
  rw [offsets_zero]
  refine (wp_dirlookupLoop h hk hv hE hE' name _ fun m hm => index_lt hm).imp ?_
  rintro o t (⟨ho, rfl, hall⟩ | ⟨k, m, ho, _, hfits, hn, hrest⟩)
  · refine .inl ⟨ho, rfl, ?_⟩
    intro m hm
    apply hall
    rw [mem_range, show DIRENT = 16 from rfl] at *
    omega
  · exact .inr ⟨k, m, ho, hfits, hn, hrest⟩

lemma wp_dirlinkLoop
    (hE : DIRENT ∣ (s.itable dp).size ∨ E (.panic "dirlink read")) (last : Nat) (ms : List Nat)
    (hms : ∀ m ∈ ms, DIRENT * m < (s.itable dp).size) :
    Wp (dirlinkLoop sb dp last (ms.map (DIRENT * ·))) (fun off t => t = s ∧
      ((∃ m ∈ ms, off = DIRENT * m ∧ DIRENT * m + DIRENT ≤ (s.itable dp).size ∧
        (entryAt s (s.itable dp).inum m).inum = 0) ∨
      off = last ∧ ∀ m ∈ ms, (entryAt s (s.itable dp).inum m).inum ≠ 0)) E s := by
  induction ms with
  | nil =>
    rw [map_nil, dirlinkLoop, wp_pure]
    exact ⟨rfl, .inr ⟨rfl, by simp⟩⟩
  | cons m ms ih =>
    rw [map_cons, dirlinkLoop]
    refine (wp_readDirent h hk hv (hms m mem_cons_self) hE).bind ?_
    rintro de t ⟨rfl, hfits, rfl⟩
    apply wp_ite <;> intro h0
    · rw [wp_pure]
      exact ⟨rfl, .inl ⟨m, mem_cons_self, rfl, hfits, h0⟩⟩
    · refine (ih fun x hx => hms x (mem_cons_of_mem _ hx)).imp ?_
      rintro off u ⟨rfl, ⟨x, hx, hrest⟩ | ⟨ho, hall⟩⟩
      · exact ⟨rfl, .inl ⟨x, mem_cons_of_mem _ hx, hrest⟩⟩
      · refine ⟨rfl, .inr ⟨ho, ?_⟩⟩
        intro x hx
        rcases mem_cons.mp hx with rfl | hx
        · exact h0
        · exact hall x hx

lemma wp_isdirempty
    (hE : E (.panic "isdirempty: readi")) :
    Wp (isdirempty sb dp) (fun b t => t = s ∧ (b = true → ∀ m, 2 ≤ m →
      DIRENT * m < (s.itable dp).size → (entryAt s (s.itable dp).inum m).inum = 0)) E s := by
  have hloop : ∀ ms : List Nat, (∀ m ∈ ms, DIRENT * m < (s.itable dp).size) →
      Wp (isdiremptyLoop sb dp (ms.map (DIRENT * ·))) (fun b t => t = s ∧ (b = true →
        ∀ m ∈ ms, (entryAt s (s.itable dp).inum m).inum = 0)) E s := by
    intro ms
    induction ms with
    | nil =>
      intro _
      rw [map_nil, isdiremptyLoop, wp_pure]
      exact ⟨rfl, by simp⟩
    | cons m ms ih =>
      intro hms
      rw [map_cons, isdiremptyLoop]
      refine (wp_readDirent h hk hv (hms m mem_cons_self) (.inr hE)).bind ?_
      rintro de t ⟨rfl, _, rfl⟩
      apply wp_ite <;> intro h0
      · rw [wp_pure]
        exact ⟨rfl, fun hb => by cases hb⟩
      · refine (ih fun x hx => hms x (mem_cons_of_mem _ hx)).imp ?_
        rintro b u ⟨rfl, hb⟩
        refine ⟨rfl, fun hbt x hx => ?_⟩
        rcases mem_cons.mp hx with rfl | hx
        · simpa using h0
        · exact hb hbt x hx
  have hD : DIRENT = 16 := rfl
  unfold isdirempty
  rw [wp_get_bind]
  have hoffs : offsets (2 * DIRENT) (s.itable dp).size =
      ((List.range (((s.itable dp).size - 2 * DIRENT + (DIRENT - 1)) / DIRENT)).map (2 + ·)).map
        (DIRENT * ·) := by
    simp only [offsets, map_map]
    apply map_congr_left
    intro m _
    simp only [Function.comp_apply, hD]
    omega
  rw [hoffs]
  refine (hloop _ ?_).imp ?_
  · intro m hm
    obtain ⟨j, hj, rfl⟩ := mem_map.mp hm
    have := mem_range.mp hj
    rw [hD] at *
    omega
  · rintro b t ⟨rfl, hb⟩
    refine ⟨rfl, fun hbt m h2 hm => hb hbt m ?_⟩
    refine mem_map.mpr ⟨m - 2, mem_range.mpr ?_, by omega⟩
    rw [hD] at *
    omega

end

/-! ## `dirlink` -/

/-- A name that a path can give: no zero byte, and at most DIRSIZ bytes. -/
structure GoodName (name : Name) : Prop where
  length : name.length ≤ DIRSIZ
  nonzero : (0 : UInt8) ∉ name

/-- The directory of entry `dp` of the inode table has the same bytes in `t` as in `s`. -/
def SameEntries (dp : Nat) (s t : Fs) : Prop :=
  (t.itable dp).size = (s.itable dp).size ∧
    ∀ x < (s.itable dp).size, byteAt t (s.itable dp).inum x = byteAt s (s.itable dp).inum x

lemma SameEntries.entryAt (h : SameEntries dp s t)
    (hm : DIRENT * m + DIRENT ≤ (s.itable dp).size) :
    entryAt t (s.itable dp).inum m = entryAt s (s.itable dp).inum m := by
  unfold fs.entryAt
  congr 1
  exact bytesOf_congr fun x _ hx => h.2 x (by omega)

/-- Entry `m` of the directory is `de` in `t`, and the others are as in `s`. -/
structure SetEntry (dp m : Nat) (de : Dirent) (s t : Fs) : Prop where
  size : (t.itable dp).size = max (s.itable dp).size (DIRENT * m + DIRENT)
  entry : entryAt t (s.itable dp).inum m = de
  others : ∀ x, x ≠ m → DIRENT * x + DIRENT ≤ (t.itable dp).size →
    entryAt t (s.itable dp).inum x = entryAt s (s.itable dp).inum x

lemma wp_writeEntry (h : Base sb r ts s) (hk : Held r ts dp) (hv : (s.itable dp).valid = true)
    (hsrc : ∀ j < DIRENT, (src j).isSome) (m : Nat) :
    Wp (writei sb dp src (DIRENT * m) DIRENT) (fun x t => Base sb r ts t ∧ Steady r ts s t ∧
      Wrote dp s t ∧ (x = DIRENT ∧ DIRENT * m ≤ (s.itable dp).size ∧
          SetEntry dp m (Dirent.ofBytes ((List.range DIRENT).map fun j => (src j).getD 0)) s t ∨
        x ≠ DIRENT ∧ SameEntries dp s t)) E s := by
  have hD : DIRENT = 16 := rfl
  obtain ⟨hs, ht⟩ := h.synced dp hk.1 (hk.ref_pos h) hv
  have hwrite : Wp (writei sb dp src (DIRENT * m) DIRENT) _ E s :=
    wp_writeDirent h.owned hs ht hsrc (Nat.mul_mod_right DIRENT m)
  refine ((wp_writei_base h hk hv src (DIRENT * m) DIRENT).and hwrite).imp ?_
  rintro x t ⟨⟨hb, hst, hw⟩, ⟨hx, hle, hsize, hbytes⟩ | ⟨hx, hsize, hbytes⟩⟩
  · refine ⟨hb, hst, hw, .inl ⟨hx, hle, hsize, ?_, ?_⟩⟩
    · unfold entryAt bytesOf
      congr 1
      apply map_congr_left
      intro j hj
      have hlt := mem_range.mp hj
      rw [hbytes _ (by rw [hsize]; omega), if_pos (by omega)]
      congr 2
      omega
    · intro y hy hfits
      unfold entryAt
      congr 1
      apply bytesOf_congr
      intro b h1 h2
      rw [hbytes b (by omega), if_neg]
      rw [hD] at *
      omega
  · exact ⟨hb, hst, hw, .inr ⟨hx, hsize, hbytes⟩⟩

lemma wp_dirlink (h : Base sb r ts s) (hk : Held r ts dp) (hv : (s.itable dp).valid = true)
    (hE0 : (s.itable dp).type ≠ .dir → E (.panic "dirlookup not DIR"))
    (hE1 : DIRENT ∣ (s.itable dp).size ∨ E (.panic "dirlookup read"))
    (hE2 : E (.panic "iget: no inodes"))
    (hE3 : DIRENT ∣ (s.itable dp).size ∨ E (.panic "dirlink read")) {name : Name}
    (hname : GoodName name) (inum : Nat) :
    Wp (dirlink sb dp name inum) (fun x t => Base sb r ts t ∧ Steady r ts s t ∧
      ((x = -1 ∧ ∃ k m u, DIRENT * m + DIRENT ≤ (s.itable dp).size ∧
          Names s (s.itable dp).inum name m ∧ Base sb r (k :: ts) u ∧ Lookup s u ∧
          Steady r ts s u ∧ Got (entryAt s (s.itable dp).inum m).inum k s u ∧ Steady r ts u t ∧
          (Lookup u t ∧ ¬ Last r ts k u ∨ Last r ts k u ∧ Freed (u.itable k).inum u t)) ∨
        (∀ m, DIRENT * m < (s.itable dp).size → DIRENT * m + DIRENT ≤ (s.itable dp).size ∧
          ¬ Names s (s.itable dp).inum name m) ∧ Wrote dp s t ∧
          ((x = 0 ∧ ∃ m, (inum < 65536 → SetEntry dp m ⟨inum, name⟩ s t) ∧
              (DIRENT * m = (s.itable dp).size ∨ DIRENT * m + DIRENT ≤ (s.itable dp).size ∧
                (entryAt s (s.itable dp).inum m).inum = 0)) ∨
            x = -1 ∧ SameEntries dp s t))) E s := by
  have hD : DIRENT = 16 := rfl
  refine (wp_dirlookup h hk hv hE0 hE1 hE2 name).bind ?_
  rintro o u (⟨rfl, rfl, hno⟩ | ⟨k, m, rfl, hfits, hn, hb, hl, hst, hi⟩)
  · rw [wp_get_bind]
    dsimp only
    rw [offsets_zero]
    refine (wp_dirlinkLoop h hk hv hE3 _ _ fun m hm => index_lt hm).bind ?_
    rintro off v ⟨rfl, hoff⟩
    obtain ⟨m, rfl, hm⟩ : ∃ m, off = DIRENT * m ∧ (DIRENT * m = (v.itable dp).size ∨
        DIRENT * m + DIRENT ≤ (v.itable dp).size ∧
          (entryAt v (v.itable dp).inum m).inum = 0) := by
      rcases hoff with ⟨m, _, rfl, hfits, h0⟩ | ⟨rfl, _⟩
      · exact ⟨m, rfl, .inr ⟨hfits, h0⟩⟩
      · refine ⟨_, rfl, .inl ?_⟩
        have hlast := hno ((v.itable dp).size / DIRENT)
        rw [hD] at *
        omega
    refine (wp_writeEntry h hk hv (fun _ _ => rfl) m).bind ?_
    rintro x w ⟨hb, hst, hw, ⟨hx, _, hset⟩ | ⟨hx, hsame⟩⟩
    · rw [if_pos hx, wp_pure]
      refine ⟨hb, hst, .inr ⟨hno, hw, .inl ⟨rfl, m, fun hinum => ?_, hm⟩⟩⟩
      rw [ofBytes_bytes hinum hname.length hname.nonzero] at hset
      exact hset
    · rw [if_neg hx, wp_pure]
      exact ⟨hb, hst, .inr ⟨hno, hw, .inr ⟨rfl, hsame⟩⟩⟩
  · refine (wp_iput hb).bind ?_
    rintro _ t ⟨hb', hst', hcase⟩
    rw [wp_pure]
    exact ⟨hb', hst.trans hst', .inl ⟨rfl, k, m, u, hfits, hn, hb, hl, hst, hi, hst', hcase⟩⟩

end xv6.fs
