-- The inode table: every entry in use holds an inode of its own, agrees with the
-- disk once it is read, and counts its references. A call holds some entries
-- for itself, beside those of open files and current directories.
import Xv6.FileIO

open bytes ownership wp Function List

namespace xv6.fs

variable {sb : Superblock} {s t u : Fs} {r : Nat → Nat} {ts : List Nat} {k : Nat}
  {E : Stop → Prop}

/-- The state while a call holds the entries `ts` of the inode table; `r` counts the
references of files and processes. -/
structure Base (sb : Superblock) (r : Nat → Nat) (ts : List Nat) (s : Fs) : Prop where
  owned : Owned sb s
  distinct : ∀ k < NINODE, ∀ k' < NINODE, 0 < (s.itable k).ref → 0 < (s.itable k').ref →
    (s.itable k).inum = (s.itable k').inum → k = k'
  synced : ∀ k < NINODE, 0 < (s.itable k).ref → (s.itable k).valid = true →
    Synced s k ∧ (s.itable k).type ≠ .free
  refs : ∀ k < NINODE, (s.itable k).ref = r k + ts.count k
  temps : ∀ k ∈ ts, k < NINODE

/-- The call or a holder has a reference to entry `k`. -/
def Held (r : Nat → Nat) (ts : List Nat) (k : Nat) : Prop := k < NINODE ∧ (0 < r k ∨ k ∈ ts)

/-- A held entry stays the same inode, and is not read again. -/
def Steady (r : Nat → Nat) (ts : List Nat) (s t : Fs) : Prop :=
  ∀ k, Held r ts k → (t.itable k).inum = (s.itable k).inum ∧
    ((s.itable k).valid = true → (t.itable k).valid = true)

/-- Only the inode table changed. -/
structure Lookup (s t : Fs) : Prop where
  bitmap : t.bitmap = s.bitmap
  dinode : t.dinode = s.dinode
  data : t.data = s.data
  ftable : t.ftable = s.ftable
  proc : t.proc = s.proc

lemma Lookup.refl (s : Fs) : Lookup s s := ⟨rfl, rfl, rfl, rfl, rfl⟩

lemma Lookup.trans (h : Lookup s t) (h' : Lookup t u) : Lookup s u :=
  ⟨h'.bitmap.trans h.bitmap, h'.dinode.trans h.dinode, h'.data.trans h.data,
    h'.ftable.trans h.ftable, h'.proc.trans h.proc⟩

lemma Lookup.refAt (h : Lookup s t) : refAt t = refAt s := by
  funext p
  unfold fs.refAt
  rw [h.dinode, h.data]

lemma Lookup.owned (h : Lookup s t) (ho : Owned sb s) : Owned sb t := by
  refine ⟨ho.bits, ?_, ?_, ?_⟩
  · rw [h.refAt, h.bitmap]
    exact ho.exact
  · rw [h.dinode]
    unfold blockOf
    rw [h.refAt]
    exact ho.holes
  · rw [h.dinode]
    exact ho.sizes

lemma Steady.refl (r : Nat → Nat) (ts : List Nat) (s : Fs) : Steady r ts s s :=
  fun _ _ => ⟨rfl, id⟩

lemma Steady.trans (h : Steady r ts s t) (h' : Steady r ts t u) : Steady r ts s u :=
  fun k hk => ⟨(h' k hk).1.trans (h k hk).1, fun hv => (h' k hk).2 ((h k hk).2 hv)⟩

variable {ts' : List Nat}

lemma Held.mono (hk : Held r ts k) (h : ∀ k ∈ ts, k ∈ ts') : Held r ts' k :=
  ⟨hk.1, hk.2.imp id (h k)⟩

lemma Steady.mono (h : Steady r ts' s t) (hts : ∀ k ∈ ts, k ∈ ts') :
    Steady r ts s t :=
  fun k hk => h k (hk.mono hts)

lemma held_temp (h : Base sb r ts s) (hk : k ∈ ts) : Held r ts k := ⟨h.temps k hk, .inr hk⟩

lemma Held.ref_pos (hk : Held r ts k) (h : Base sb r ts s) : 0 < (s.itable k).ref := by
  rw [h.refs k hk.1]
  rcases hk.2 with hr | hm
  · omega
  · have := count_pos_iff.mpr hm
    omega

lemma Base.perm (h : Base sb r ts s) (hp : ts.Perm ts') : Base sb r ts' s :=
  ⟨h.owned, h.distinct, h.synced, fun k hk => by rw [h.refs k hk, hp.count_eq],
    fun k hk => h.temps k (hp.mem_iff.mpr hk)⟩

lemma Base.recount {r' : Nat → Nat} (h : Base sb r ts s)
    (hr : ∀ k < NINODE, r' k + ts'.count k = r k + ts.count k) (ht : ∀ k ∈ ts', k < NINODE) :
    Base sb r' ts' s :=
  ⟨h.owned, h.distinct, h.synced, fun k hk => by rw [h.refs k hk, hr k hk], ht⟩

/-! ## Changes of one entry -/

lemma Base.write (h : Base sb r ts s) (hk : Held r ts k) (hv : (s.itable k).valid = true)
    (hothers : ∀ j, j ≠ k → t.itable j = s.itable j)
    (hself : (t.itable k).inum = (s.itable k).inum ∧ (t.itable k).ref = (s.itable k).ref ∧
      (t.itable k).valid = (s.itable k).valid)
    (htype : (t.itable k).type ≠ .free)
    (hd : t.dinode = update s.dinode (s.itable k).inum (t.itable k).toDinode)
    (ho : Owned sb t) : Base sb r ts t ∧ Steady r ts s t := by
  obtain ⟨hi, hr, hval⟩ := hself
  have hskel : ∀ j, (t.itable j).inum = (s.itable j).inum ∧ (t.itable j).ref = (s.itable j).ref ∧
      (t.itable j).valid = (s.itable j).valid := by
    intro j
    by_cases hj : j = k
    · subst hj
      exact ⟨hi, hr, hval⟩
    · rw [hothers j hj]
      exact ⟨rfl, rfl, rfl⟩
  have hkpos := hk.ref_pos h
  refine ⟨⟨ho, ?_, ?_, ?_, h.temps⟩, ?_⟩
  · intro a ha b hb ha0 hb0 hab
    rw [(hskel a).2.1] at ha0
    rw [(hskel b).2.1] at hb0
    rw [(hskel a).1, (hskel b).1] at hab
    exact h.distinct a ha b hb ha0 hb0 hab
  · intro j hj hj0 hjv
    by_cases hjk : j = k
    · subst hjk
      refine ⟨?_, htype⟩
      unfold Synced
      rw [hd, hi, update_self]
    · rw [(hskel j).2.1] at hj0
      rw [(hskel j).2.2] at hjv
      have hne : (s.itable j).inum ≠ (s.itable k).inum :=
        fun he => hjk (h.distinct j hj k hk.1 hj0 hkpos he)
      obtain ⟨h1, h2⟩ := h.synced j hj hj0 hjv
      refine ⟨?_, by rw [hothers j hjk]; exact h2⟩
      unfold Synced at h1 ⊢
      rw [hothers j hjk, hd, update_of_ne hne]
      exact h1
  · intro j hj
    rw [(hskel j).2.1]
    exact h.refs j hj
  · intro j _
    rw [(hskel j).1, (hskel j).2.2]
    exact ⟨rfl, id⟩

lemma wp_writei_base (h : Base sb r ts s) (hk : Held r ts k) (hv : (s.itable k).valid = true)
    (src : Nat → Option UInt8) (off n : Nat) :
    Wp (writei sb k src off n) (fun _ t => Base sb r ts t ∧ Steady r ts s t ∧ Wrote k s t) E s := by
  obtain ⟨hs, ht⟩ := h.synced k hk.1 (hk.ref_pos h) hv
  refine (wp_writei h.owned hs ht src off n).imp ?_
  rintro _ t ⟨ho, hw⟩
  obtain ⟨addrs, size, hself⟩ := hw.self
  obtain ⟨h1, h2⟩ := h.write hk hv hw.others (by rw [hself]; exact ⟨rfl, rfl, rfl⟩)
    (by rw [hself]; exact ht) hw.dinode ho
  exact ⟨h1, h2, hw⟩

lemma owned_cleared (h : Owned sb (flush k s)) {d : Dinode} (hdata : t.data = s.data)
    (hd : t.dinode = update s.dinode (s.itable k).inum d)
    (hplace : ∀ pos, d.place s.data pos = 0) (hsize : d.type ≠ .free → d.size = 0)
    (hbits : ∀ b, t.bitmap b = true ↔ s.bitmap b = true ∧
      ¬ ∃ p : Nat × Nat, p.1 = (s.itable k).inum ∧ refAt (flush k s) p ≠ 0 ∧
        refAt (flush k s) p = b) : Owned sb t := by
  have hself : ∀ p : Nat × Nat, p.1 = (s.itable k).inum → refAt t p = 0 := by
    intro p hp
    unfold refAt
    rw [hd, hp, update_self, hdata]
    exact hplace p.2
  have hrest : ∀ p : Nat × Nat, ¬ p.1 = (s.itable k).inum → refAt t p = refAt (flush k s) p := by
    intro p hp
    unfold refAt
    rw [hd, update_of_ne hp, flush_dinode_ne hp, hdata]
    rfl
  refine ⟨h.bits, h.exact.release (fun p => p.1 = (s.itable k).inum) hself hrest hbits, ?_, ?_⟩
  · intro i hi bn hbn
    rw [hd] at hi hbn
    by_cases hik : i = (s.itable k).inum
    · subst hik
      rw [update_self] at hi hbn
      rw [hsize hi] at hbn
      omega
    · rw [update_of_ne hik, ← flush_dinode_ne hik] at hi hbn
      unfold blockOf
      rw [hrest _ hik]
      exact h.holes i hi bn hbn
  · intro i hi
    rw [hd] at hi ⊢
    by_cases hik : i = (s.itable k).inum
    · subst hik
      rw [update_self] at hi ⊢
      rw [hsize hi]
      omega
    · rw [update_of_ne hik, ← flush_dinode_ne hik] at hi ⊢
      exact h.sizes i hi

lemma place_of_no_addrs {d : Dinode} (h : ∀ pos ≤ NDIRECT, d.addrs pos = 0)
    (data : Nat → Bytes) (pos : Nat) : d.place data pos = 0 := by
  unfold Dinode.place
  split
  · rfl
  · split
    · exact h pos ‹_›
    · rw [if_pos (h NDIRECT (le_refl _))]

lemma Truncated.owned (h : Owned sb (flush k s)) (ht : Truncated k s t) : Owned sb t := by
  obtain ⟨addrs, haddrs, hit⟩ := ht.itable
  have hself : (t.itable k).toDinode = { (s.itable k).toDinode with addrs, size := 0 } := by
    rw [hit, update_self]
  refine owned_cleared h ht.data ht.dinode ?_ ?_ ht.bits
  · rw [hself]
    exact place_of_no_addrs haddrs _
  · rw [hself]
    exact fun _ => rfl

lemma wp_itrunc_base (h : Base sb r ts s) (hk : Held r ts k) (hv : (s.itable k).valid = true) :
    Wp (itrunc k) (fun _ t => Base sb r ts t ∧ Steady r ts s t ∧ Truncated k s t) E s := by
  obtain ⟨hs, ht⟩ := h.synced k hk.1 (hk.ref_pos h) hv
  have ho : Owned sb (flush k s) := by
    rw [hs.flush]
    exact h.owned
  refine (wp_itrunc ho ht).imp ?_
  rintro _ t htr
  obtain ⟨addrs, _, hit⟩ := htr.itable
  obtain ⟨h1, h2⟩ := h.write hk hv (fun j hj => by rw [hit, update_of_ne hj])
    (by rw [hit, update_self]; exact ⟨rfl, rfl, rfl⟩)
    (by rw [hit, update_self]; exact ht) htr.dinode (htr.owned ho)
  exact ⟨h1, h2, htr⟩

/-! ## References -/

lemma lookup_setSlot (k : Nat) (x : Inode) (s : Fs) : Lookup s (setSlot k x s) :=
  ⟨rfl, rfl, rfl, rfl, rfl⟩

lemma Base.setSlot {r' : Nat → Nat} {x : Inode} (h : Base sb r ts s)
    (hdist : ∀ j < NINODE, j ≠ k → 0 < (s.itable j).ref → 0 < x.ref →
      (s.itable j).inum ≠ x.inum)
    (hsync : 0 < x.ref → x.valid = true → x.toDinode = s.dinode x.inum ∧ x.type ≠ .free)
    (hself : k < NINODE → x.ref = r' k + ts'.count k)
    (hrefs : ∀ j < NINODE, j ≠ k → r' j + ts'.count j = r j + ts.count j)
    (htemps : ∀ j ∈ ts', j < NINODE) : Base sb r' ts' (setSlot k x s) := by
  refine ⟨(lookup_setSlot k x s).owned h.owned, ?_, ?_, ?_, htemps⟩
  · intro a ha b hb ha0 hb0 hab
    by_cases hak : a = k <;> by_cases hbk : b = k
    · rw [hak, hbk]
    · subst hak
      rw [setSlot_self] at ha0 hab
      rw [setSlot_ne hbk] at hb0 hab
      exact absurd hab.symm (hdist b hb hbk hb0 ha0)
    · subst hbk
      rw [setSlot_self] at hb0 hab
      rw [setSlot_ne hak] at ha0 hab
      exact absurd hab (hdist a ha hak ha0 hb0)
    · rw [setSlot_ne hak] at ha0 hab
      rw [setSlot_ne hbk] at hb0 hab
      exact h.distinct a ha b hb ha0 hb0 hab
  · intro j hj hj0 hjv
    by_cases hjk : j = k
    · subst hjk
      unfold Synced
      rw [setSlot_self] at *
      exact hsync hj0 hjv
    · unfold Synced
      rw [setSlot_ne hjk] at *
      exact h.synced j hj hj0 hjv
  · intro j hj
    by_cases hjk : j = k
    · subst hjk
      rw [setSlot_self]
      exact hself hj
    · rw [setSlot_ne hjk, h.refs j hj, hrefs j hj hjk]

lemma Base.addRef (h : Base sb r ts s) (hk : k < NINODE) (hpos : 0 < (s.itable k).ref) :
    Base sb r (k :: ts) (fs.setSlot k { s.itable k with ref := (s.itable k).ref + 1 } s) ∧
      Steady r ts s (fs.setSlot k { s.itable k with ref := (s.itable k).ref + 1 } s) := by
  refine ⟨h.setSlot ?_ ?_ ?_ ?_ ?_, ?_⟩
  · intro j hj hjk hj0 _ he
    exact hjk (h.distinct j hj k hk hj0 hpos he)
  · exact fun _ hv => h.synced k hk hpos hv
  · intro _
    rw [count_cons_self, ← Nat.add_assoc, ← h.refs k hk]
  · intro j _ hjk
    rw [count_cons_of_ne (Ne.symm hjk)]
  · intro j hj
    rcases mem_cons.mp hj with rfl | hj
    · exact hk
    · exact h.temps j hj
  · intro j _
    by_cases hjk : j = k
    · subst hjk
      rw [setSlot_self]
      exact ⟨rfl, id⟩
    · rw [setSlot_ne hjk]
      exact ⟨rfl, id⟩

lemma wp_idup (h : Base sb r ts s) (hk : Held r ts k) :
    Wp (idup k) (fun k' t => k' = k ∧ Base sb r (k :: ts) t ∧ Lookup s t ∧ Steady r ts s t ∧
      (t.itable k).inum = (s.itable k).inum) E s := by
  unfold idup
  rw [wp_modifyInode_bind, wp_pure]
  obtain ⟨h1, h2⟩ := h.addRef hk.1 (hk.ref_pos h)
  exact ⟨rfl, h1, lookup_setSlot .., h2, (h2 k hk).1⟩

/-- Entry `k` holds inode `i` now: it did before, or no entry in use did and it is not read
yet. -/
def Got (i k : Nat) (s t : Fs) : Prop :=
  (t.itable k).inum = i ∧
    (0 < (s.itable k).ref ∧ (s.itable k).inum = i ∧ (t.itable k).valid = (s.itable k).valid ∨
      (t.itable k).valid = false ∧ ∀ j < NINODE, 0 < (s.itable j).ref → (s.itable j).inum ≠ i)

lemma wp_iget (h : Base sb r ts s) (hE : E (.panic "iget: no inodes")) (i : Nat) :
    Wp (iget i) (fun k t => Base sb r (k :: ts) t ∧ Lookup s t ∧ Steady r ts s t ∧
      k < NINODE ∧ Got i k s t) E s := by
  unfold iget
  rw [wp_get_bind]
  split
  · rename_i k hfind
    have hk := mem_range.mp (mem_of_find?_eq_some hfind)
    have hp := find?_some hfind
    simp only [decide_eq_true_eq] at hp
    rw [wp_modifyInode_bind, wp_pure]
    obtain ⟨h1, h2⟩ := h.addRef hk hp.1
    refine ⟨h1, lookup_setSlot .., h2, hk, ?_, .inl ⟨hp.1, hp.2, ?_⟩⟩
    · rw [setSlot_self]
      exact hp.2
    · rw [setSlot_self]
  · rename_i hnone
    rw [find?_eq_none] at hnone
    split
    · rename_i k hfind
      have hk := mem_range.mp (mem_of_find?_eq_some hfind)
      have hp := find?_some hfind
      simp only [decide_eq_true_eq] at hp
      have hzero := h.refs k hk
      rw [hp] at hzero
      rw [wp_modifyInode_bind, wp_pure]
      have hnew : ∀ j < NINODE, 0 < (s.itable j).ref → (s.itable j).inum ≠ i := by
        intro j hj hj0 he
        exact hnone j (mem_range.mpr hj) (by simp [hj0, he])
      refine ⟨h.setSlot ?_ ?_ ?_ ?_ ?_, lookup_setSlot .., ?_, hk, ?_,
        Or.inr ⟨by rw [setSlot_self], hnew⟩⟩
      · intro j hj _ hj0 _
        exact hnew j hj hj0
      · intro _ hv
        cases hv
      · intro _
        rw [count_cons_self]
        dsimp only
        omega
      · intro j _ hjk
        rw [count_cons_of_ne (Ne.symm hjk)]
      · intro j hj
        rcases mem_cons.mp hj with rfl | hj
        · exact hk
        · exact h.temps j hj
      · intro j hj
        have hjk : j ≠ k := by
          rintro rfl
          have := hj.ref_pos h
          omega
        rw [setSlot_ne hjk]
        exact ⟨rfl, id⟩
      · rw [setSlot_self]
    · rw [wp_throw]
      exact hE

lemma wp_ilock (h : Base sb r ts s) (hk : Held r ts k)
    (hE : (s.dinode (s.itable k).inum).type = .free → E (.panic "ilock: no type")) :
    Wp (ilock k) (fun _ t => Base sb r ts t ∧ Lookup s t ∧ Steady r ts s t ∧
      (t.itable k).valid = true ∧ ((s.itable k).valid = true → t = s)) E s := by
  have hpos := hk.ref_pos h
  unfold ilock
  rw [wp_get_bind, if_neg (by omega)]
  apply wp_ite <;> intro hv
  · rw [wp_modifyInode_bind]
    refine wp_ite (fun hfree => (wp_throw _).mpr (hE hfree)) (fun htype => ?_)
    rw [wp_pure]
    refine ⟨h.setSlot ?_ (fun _ _ => ⟨rfl, htype⟩) (fun hlt => h.refs k hlt) (fun _ _ _ => rfl)
      h.temps, lookup_setSlot .., ?_, by simp, fun hv' => by simp [hv] at hv'⟩
    · intro j hj hjk hj0 _ he
      exact hjk (h.distinct j hj k hk.1 hj0 hpos he)
    · intro j _
      by_cases hjk : j = k
      · subst hjk
        rw [setSlot_self]
        exact ⟨rfl, fun _ => rfl⟩
      · rw [setSlot_ne hjk]
        exact ⟨rfl, id⟩
  · rw [wp_pure]
    exact ⟨h, Lookup.refl s, Steady.refl r ts s, by simpa using hv, fun _ => rfl⟩

lemma wp_iunlock (h : Base sb r ts s) (hk : Held r ts k) :
    Wp (iunlock k) (fun _ t => t = s) E s := by
  have hpos := hk.ref_pos h
  unfold iunlock
  rw [wp_get_bind, if_neg (by omega), wp_pure]

/-- The reference of the call is the last one of an inode without links. -/
def Last (r : Nat → Nat) (ts : List Nat) (k : Nat) (s : Fs) : Prop :=
  r k = 0 ∧ k ∉ ts ∧ (s.itable k).valid = true ∧ (s.dinode (s.itable k).inum).nlink = 0

lemma Got.not_last {i : Nat} (hg : Got i k s t) (h : Base sb r ts s) (hk : k < NINODE) :
    ¬ Last r ts k t := by
  rintro ⟨hr0, hts, hv, _⟩
  obtain ⟨_, ⟨hpos, _⟩ | ⟨hnew, _⟩⟩ := hg
  · rw [h.refs k hk, hr0, count_eq_zero.mpr hts] at hpos
    omega
  · rw [hnew] at hv
    cases hv

/-- Inode `i` was in use and is free now. -/
structure Freed (i : Nat) (s t : Fs) : Prop where
  data : t.data = s.data
  ftable : t.ftable = s.ftable
  proc : t.proc = s.proc
  was : (s.dinode i).type ≠ .free
  dinode : ∃ d : Dinode, d.type = .free ∧ t.dinode = update s.dinode i d

lemma Base.dropRef (h : Base sb r (k :: ts) s) :
    Base sb r ts (fs.setSlot k { s.itable k with ref := (s.itable k).ref - 1 } s) ∧
      Steady r ts s (fs.setSlot k { s.itable k with ref := (s.itable k).ref - 1 } s) := by
  have hk := h.temps k mem_cons_self
  have hpos := (held_temp h mem_cons_self).ref_pos h
  have href := h.refs k hk
  rw [count_cons_self] at href
  refine ⟨h.setSlot ?_ ?_ ?_ ?_ ?_, ?_⟩
  · intro j hj hjk hj0 _ he
    exact hjk (h.distinct j hj k hk hj0 hpos he)
  · exact fun _ hv => h.synced k hk hpos hv
  · intro _
    dsimp only
    omega
  · intro j _ hjk
    rw [count_cons_of_ne (Ne.symm hjk)]
  · exact fun j hj => h.temps j (mem_cons_of_mem _ hj)
  · intro j _
    by_cases hjk : j = k
    · subst hjk
      rw [setSlot_self]
      exact ⟨rfl, id⟩
    · rw [setSlot_ne hjk]
      exact ⟨rfl, id⟩

/-- The state in which `iput` leaves the inode it frees. -/
def release (k : Nat) (t : Fs) : Fs :=
  let t := flush k (setSlot k { t.itable k with type := .free } t)
  let t := setSlot k { t.itable k with valid := false } t
  setSlot k { t.itable k with ref := (t.itable k).ref - 1 } t

lemma Base.release (h : Base sb r (k :: ts) s) (hlast : Last r ts k s)
    (ht : Truncated k s t) :
    Base sb r ts (release k t) ∧ Steady r ts s (release k t) ∧
      Freed (s.itable k).inum s (release k t) := by
  have hk := h.temps k mem_cons_self
  have hheld := held_temp h mem_cons_self
  have hpos := hheld.ref_pos h
  have href := h.refs k hk
  obtain ⟨hr0, hkts, hv, _⟩ := hlast
  have hcount : ts.count k = 0 := count_eq_zero.mpr hkts
  rw [count_cons_self, hr0, hcount] at href
  obtain ⟨hs, htype⟩ := h.synced k hk hpos hv
  obtain ⟨addrs, haddrs, hit⟩ := ht.itable
  have hself : t.itable k = { s.itable k with addrs, size := 0 } := by
    rw [hit, update_self]
  have hother : ∀ j, j ≠ k → (fs.release k t).itable j = s.itable j := by
    intro j hj
    simp [fs.release, hj, hit]
  have hown : ((fs.release k t).itable k).ref = 0 := by
    simp [fs.release, hself, href]
  have hd : (fs.release k t).dinode = update s.dinode (s.itable k).inum
      { (s.itable k).toDinode with addrs, size := 0, type := .free } := by
    simp [fs.release, flush, hself, ht.dinode]
  have ho : Owned sb (fs.release k t) := by
    refine owned_cleared (by rw [hs.flush]; exact h.owned) ht.data hd ?_ ?_ ht.bits
    · exact fun pos => place_of_free rfl _ pos
    · intro hne
      exact absurd rfl hne
  refine ⟨⟨ho, ?_, ?_, ?_, fun j hj => h.temps j (mem_cons_of_mem _ hj)⟩, ?_, ht.data,
    ht.ftable, ht.proc, ?_, ⟨_, rfl, hd⟩⟩
  · intro a ha b hb ha0 hb0 hab
    have hak : a ≠ k := by
      rintro rfl
      omega
    have hbk : b ≠ k := by
      rintro rfl
      omega
    rw [hother a hak] at ha0 hab
    rw [hother b hbk] at hb0 hab
    exact h.distinct a ha b hb ha0 hb0 hab
  · intro j hj hj0 hjv
    have hjk : j ≠ k := by
      rintro rfl
      omega
    rw [hother j hjk] at hj0 hjv ⊢
    obtain ⟨h1, h2⟩ := h.synced j hj hj0 hjv
    refine ⟨?_, h2⟩
    unfold Synced at h1 ⊢
    rw [hother j hjk, hd, update_of_ne (fun he => hjk (h.distinct j hj k hk hj0 hpos he))]
    exact h1
  · intro j hj
    by_cases hjk : j = k
    · subst hjk
      rw [hown, hr0, hcount]
    · rw [hother j hjk, h.refs j hj, count_cons_of_ne (Ne.symm hjk)]
  · intro j hj
    have hjk : j ≠ k := by
      rintro rfl
      rcases hj.2 with h1 | h1
      · omega
      · exact hkts h1
    rw [hother j hjk]
    exact ⟨rfl, id⟩
  · rw [← hs.type]
    exact htype

lemma wp_iput (h : Base sb r (k :: ts) s) :
    Wp (iput k) (fun _ t => Base sb r ts t ∧ Steady r ts s t ∧
      (Lookup s t ∧ ¬ Last r ts k s ∨ Last r ts k s ∧ Freed (s.itable k).inum s t)) E s := by
  have hk := h.temps k mem_cons_self
  have hheld := held_temp h mem_cons_self
  have href := h.refs k hk
  rw [count_cons_self] at href
  unfold iput
  rw [wp_get_bind]
  apply wp_ite <;> intro hc
  · obtain ⟨h1, hv, hn⟩ := hc
    obtain ⟨hs, _⟩ := h.synced k hk (hheld.ref_pos h) hv
    have hlast : Last r ts k s := by
      refine ⟨by omega, ?_, hv, ?_⟩
      · intro hm
        have := count_pos_iff.mpr hm
        omega
      · rw [← show (s.itable k).nlink = _ from congrArg Dinode.nlink hs]
        exact hn
    refine (wp_itrunc_base h hheld hv).bind ?_
    rintro _ t ⟨_, _, ht⟩
    rw [wp_modifyInode_bind, wp_iupdate_bind, wp_modifyInode_bind, wp_modifyInode]
    obtain ⟨hb, hst, hf⟩ := h.release hlast ht
    exact ⟨hb, hst, .inr ⟨hlast, hf⟩⟩
  · rw [wp_modifyInode]
    obtain ⟨hb, hst⟩ := h.dropRef
    refine ⟨hb, hst, .inl ⟨lookup_setSlot .., ?_⟩⟩
    rintro ⟨hr0, hkts, hv, hn⟩
    obtain ⟨hs, _⟩ := h.synced k hk (hheld.ref_pos h) hv
    apply hc
    refine ⟨?_, hv, ?_⟩
    · rw [href, hr0, count_eq_zero.mpr hkts]
    · rw [show (s.itable k).nlink = _ from congrArg Dinode.nlink hs]
      exact hn

lemma wp_iunlockput (h : Base sb r (k :: ts) s) :
    Wp (iunlockput k) (fun _ t => Base sb r ts t ∧ Steady r ts s t ∧
      (Lookup s t ∧ ¬ Last r ts k s ∨ Last r ts k s ∧ Freed (s.itable k).inum s t)) E s := by
  refine (wp_iunlock h (held_temp h mem_cons_self)).bind ?_
  rintro _ t rfl
  exact wp_iput h

/-! ## New inodes and new fields -/

/-- The inode that `ialloc` writes to the disk. -/
def newInode (type : FileType) : Dinode :=
  { type, major := 0, minor := 0, nlink := 0, size := 0, addrs := fun _ => 0 }

lemma Base.alloc (h : Base sb r ts s) {i : Nat} (hfree : (s.dinode i).type = .free)
    (type : FileType) :
    Base sb r ts { s with dinode := update s.dinode i (newInode type) } := by
  have hrefs : refAt { s with dinode := update s.dinode i (newInode type) } = refAt s := by
    funext p
    unfold refAt
    by_cases hp : p.1 = i
    · simp only [hp, update_self]
      rw [place_of_free hfree, place_of_no_addrs (fun _ _ => rfl)]
    · simp only [update_of_ne hp]
  refine ⟨⟨h.owned.bits, by rw [hrefs]; exact h.owned.exact, ?_, ?_⟩, h.distinct, ?_, h.refs,
    h.temps⟩
  · intro j hj bn hbn
    unfold blockOf
    rw [hrefs]
    by_cases hji : j = i
    · subst hji
      simp only [update_self, newInode] at hbn
      omega
    · simp only [update_of_ne hji] at hj hbn
      exact h.owned.holes j hj bn hbn
  · intro j hj
    by_cases hji : j = i
    · subst hji
      simp [newInode]
    · simp only [update_of_ne hji] at hj ⊢
      exact h.owned.sizes j hj
  · intro k hk hpos hv
    obtain ⟨hs, htype⟩ := h.synced k hk hpos hv
    have hne : (s.itable k).inum ≠ i := by
      rintro rfl
      rw [hs.type] at htype
      exact htype hfree
    refine ⟨?_, htype⟩
    unfold Synced
    simp only [update_of_ne hne]
    exact hs

/-- Inode `i` is new on the disk. -/
structure Created (type : FileType) (i : Nat) (s t : Fs) : Prop where
  bitmap : t.bitmap = s.bitmap
  data : t.data = s.data
  ftable : t.ftable = s.ftable
  proc : t.proc = s.proc
  was : (s.dinode i).type = .free
  dinode : t.dinode = update s.dinode i (newInode type)

lemma wp_ialloc (h : Base sb r ts s) (hE : E (.panic "iget: no inodes")) (type : FileType) :
    Wp (ialloc sb type) (fun o t => o = none ∧ t = s ∨ ∃ k, o = some k ∧ Base sb r (k :: ts) t ∧
      Steady r ts s t ∧ Created type (t.itable k).inum s t ∧ 0 < (t.itable k).inum ∧
      (t.itable k).inum < sb.ninodes) E s := by
  unfold ialloc
  rw [wp_get_bind]
  split
  · rename_i i hfind
    have hmem := mem_of_find?_eq_some hfind
    have hfree := find?_some hfind
    simp only [decide_eq_true_eq] at hfree
    rw [mem_range'_1] at hmem
    rw [wp_set_bind]
    have halloc := h.alloc hfree type
    refine (wp_iget halloc hE i).bind ?_
    rintro k t ⟨hb, hl, hst, _, hi, _⟩
    rw [wp_pure]
    refine .inr ⟨k, rfl, hb, hst, ?_, by omega, by omega⟩
    rw [hi]
    exact ⟨hl.bitmap, hl.data, hl.ftable, hl.proc, hfree, hl.dinode⟩
  · rw [wp_pure]
    exact .inl ⟨rfl, rfl⟩

/-- The state after the device numbers and the link count of an inode are set, and the inode
is written back. -/
def setMeta (k : Nat) (major minor nlink : Int) (s : Fs) : Fs :=
  flush k (setSlot k { s.itable k with major, minor, nlink } s)

lemma setMeta_dinode (k : Nat) (major minor nlink : Int) (s : Fs) :
    (setMeta k major minor nlink s).dinode = update s.dinode (s.itable k).inum
      { (s.itable k).toDinode with major, minor, nlink } := by
  simp [setMeta, flush]

lemma refAt_setMeta (hs : Synced s k) (major minor nlink : Int) :
    refAt (setMeta k major minor nlink s) = refAt s := by
  funext p
  unfold refAt
  rw [setMeta_dinode]
  by_cases hp : p.1 = (s.itable k).inum
  · rw [hp, update_self, ← show _ = _ from hs]
    rfl
  · rw [update_of_ne hp]
    rfl

lemma Base.setMeta (h : Base sb r ts s) (hk : Held r ts k) (hv : (s.itable k).valid = true)
    (major minor nlink : Int) :
    Base sb r ts (setMeta k major minor nlink s) ∧
      Steady r ts s (setMeta k major minor nlink s) := by
  obtain ⟨hs, ht⟩ := h.synced k hk.1 (hk.ref_pos h) hv
  have hrefs := refAt_setMeta hs major minor nlink
  have hmeta : ∀ i, ((fs.setMeta k major minor nlink s).dinode i).type = (s.dinode i).type ∧
      ((fs.setMeta k major minor nlink s).dinode i).size = (s.dinode i).size := by
    intro i
    rw [setMeta_dinode]
    by_cases hi : i = (s.itable k).inum
    · rw [hi, update_self, ← show _ = _ from hs]
      exact ⟨rfl, rfl⟩
    · rw [update_of_ne hi]
      exact ⟨rfl, rfl⟩
  refine h.write hk hv (fun j hj => setSlot_ne hj _ _) ?_ ?_ ?_ ⟨h.owned.bits, ?_, ?_, ?_⟩
  · simp [fs.setMeta]
  · simpa [fs.setMeta] using ht
  · rw [setMeta_dinode]
    simp [fs.setMeta]
  · rw [hrefs]
    exact h.owned.exact
  · intro i hi bn hbn
    unfold blockOf
    rw [hrefs]
    rw [(hmeta i).1] at hi
    rw [(hmeta i).2] at hbn
    exact h.owned.holes i hi bn hbn
  · intro i hi
    rw [(hmeta i).1] at hi
    rw [(hmeta i).2]
    exact h.owned.sizes i hi

end xv6.fs
