-- `readi` and `writei` against the bytes of a file: reading changes nothing,
-- and writing changes the bytes of its own file alone, also when it stops
-- half-way.
import Xv6.Truncate

open bytes ownership wp Function List

namespace xv6.fs

variable {sb : Superblock} {s t : Fs} {ip : Nat} {E : Stop → Prop}

def byteAt (s : Fs) (i x : Nat) : UInt8 := s.data (blockOf s i (x / BSIZE)) (x % BSIZE)

def Synced (s : Fs) (ip : Nat) : Prop := (s.itable ip).toDinode = s.dinode (s.itable ip).inum

lemma Synced.flush (h : Synced s ip) : fs.flush ip s = s := flush_of_synced h

lemma Synced.type (h : Synced s ip) :
    (s.itable ip).type = (s.dinode (s.itable ip).inum).type := congrArg Dinode.type h

lemma Synced.size (h : Synced s ip) :
    (s.itable ip).size = (s.dinode (s.itable ip).inum).size := congrArg Dinode.size h

lemma BSIZE_eq : BSIZE = 1024 := rfl

lemma div_add_of_fits {off j : Nat} (h : off % BSIZE + j < BSIZE) :
    (off + j) / BSIZE = off / BSIZE ∧ (off + j) % BSIZE = off % BSIZE + j := by
  rw [BSIZE_eq] at *
  omega

/-! ## Reading -/

def bytesOf (s : Fs) (i off n : Nat) : List UInt8 := (List.range n).map fun j => byteAt s i (off + j)

lemma bytesOf_add (s : Fs) (i off m n : Nat) :
    bytesOf s i off (m + n) = bytesOf s i off m ++ bytesOf s i (off + m) n := by
  unfold bytesOf
  rw [range_add, map_append, map_map]
  congr 1
  apply map_congr_left
  intro j _
  simp [Nat.add_assoc]

/-- Every byte of the file is in a block. -/
def HoleFree (s : Fs) (i : Nat) : Prop :=
  ∀ bn, bn * BSIZE < (s.dinode i).size → blockOf s i bn ≠ 0

lemma blockOf_lt {i bn : Nat} (h : blockOf s i bn ≠ 0) : bn < MAXFILE := by
  by_contra hge
  apply h
  have hpos : NPLACE ≤ placeOf bn := by
    unfold placeOf NPLACE MAXFILE at *
    split <;> omega
  unfold blockOf refAt Dinode.place
  simp [hpos]

lemma Owned.holeFree (h : Owned sb s) (hs : Synced s ip) (ht : (s.itable ip).type ≠ .free) :
    HoleFree (flush ip s) (s.itable ip).inum := by
  rw [hs.flush]
  exact h.holes _ (by rw [← hs.type]; exact ht)

section

variable (h : HoleFree (flush ip s) (s.itable ip).inum) (ht : (s.itable ip).type ≠ .free)
  (dst : Nat → Bool)
include h ht dst

lemma wp_readiLoop (n fuel tot off : Nat) (bs : List UInt8)
    (htot : tot ≤ n) (hfuel : n - tot ≤ fuel) (hoff : off + (n - tot) ≤ (s.itable ip).size) :
    Wp (readiLoop sb ip dst n fuel tot off bs) (fun r t => t = s ∧ ((∀ j < n, dst j = true) →
      r = ((n : Int), bs ++ bytesOf (flush ip s) (s.itable ip).inum off (n - tot)))) E s := by
  induction fuel generalizing tot off bs with
  | zero =>
    have : tot = n := by omega
    subst this
    simp [readiLoop, bytesOf]
  | succ fuel ih =>
    apply wp_ite <;> intro hlt
    · have hblock : blockOf (flush ip s) (s.itable ip).inum (off / BSIZE) ≠ 0 := by
        apply h
        rw [flush_dinode_self]
        have := Nat.div_mul_le_self off BSIZE
        omega
      refine (wp_bmap_found ht (blockOf_lt hblock) hblock).bind ?_
      rintro a t ⟨rfl, rfl⟩
      rw [if_neg hblock, wp_get_bind]
      have hm0 : 0 < BSIZE - off % BSIZE := by
        have := Nat.mod_lt off (show 0 < BSIZE by decide)
        omega
      generalize hm : min (n - tot) (BSIZE - off % BSIZE) = m
      apply wp_ite <;> intro hdst
      · refine (ih (tot + m) (off + m) _ (by omega) (by omega) (by omega)).imp ?_
        rintro r t ⟨rfl, hr⟩
        refine ⟨rfl, fun hall => ?_⟩
        rw [hr hall, append_assoc]
        congr 2
        have hsplit : n - tot = m + (n - (tot + m)) := by omega
        rw [hsplit, bytesOf_add]
        congr 1
        apply map_congr_left
        intro j hj
        have hfits : off % BSIZE + j < BSIZE := by
          have := mem_range.mp hj
          omega
        obtain ⟨h1, h2⟩ := div_add_of_fits hfits
        unfold byteAt
        rw [h1, h2]
        rfl
      · rw [wp_pure]
        refine ⟨rfl, fun hall => ?_⟩
        exact absurd (fun i hi => hall (tot + i) (by omega)) hdst
    · have : tot = n := by omega
      subst this
      rw [wp_pure]
      simp [bytesOf]

lemma wp_readi_holeFree (off n : Nat) :
    Wp (readi sb ip dst off n) (fun r t => t = s ∧ ((∀ j, dst j = true) →
      off ≤ (s.itable ip).size → off + n < 2 ^ 32 →
      r = (((min n ((s.itable ip).size - off) : Nat) : Int),
        bytesOf (flush ip s) (s.itable ip).inum off (min n ((s.itable ip).size - off))))) E s := by
  unfold readi
  rw [wp_get_bind]
  refine wp_ite (fun hbad => ?_) (fun hok => ?_)
  · rw [wp_pure]
    refine ⟨rfl, fun _ hle hlt => ?_⟩
    rw [Nat.mod_eq_of_lt hlt] at hbad
    omega
  · rw [not_or] at hok
    refine wp_ite (fun hlong => ?_) (fun hshort => ?_)
    · refine (wp_readiLoop h ht dst _ _ 0 off [] (Nat.zero_le _) (by omega) (by omega)).imp ?_
      rintro r t ⟨rfl, hr⟩
      refine ⟨rfl, fun hall _ _ => ?_⟩
      rw [show min n ((t.itable ip).size - off) = (t.itable ip).size - off by omega]
      simpa using hr (fun j _ => hall j)
    · refine (wp_readiLoop h ht dst _ _ 0 off [] (Nat.zero_le _) (by omega) (by omega)).imp ?_
      rintro r t ⟨rfl, hr⟩
      refine ⟨rfl, fun hall _ _ => ?_⟩
      rw [show min n ((t.itable ip).size - off) = n by omega]
      simpa using hr (fun j _ => hall j)

end

lemma wp_readi (h : Owned sb s) (hs : Synced s ip) (ht : (s.itable ip).type ≠ .free)
    (dst : Nat → Bool) (off n : Nat) :
    Wp (readi sb ip dst off n) (fun r t => t = s ∧ ((∀ j, dst j = true) →
      off ≤ (s.itable ip).size → off + n < 2 ^ 32 →
      r = (((min n ((s.itable ip).size - off) : Nat) : Int),
        bytesOf s (s.itable ip).inum off (min n ((s.itable ip).size - off))))) E s := by
  refine (wp_readi_holeFree (h.holeFree hs ht) ht dst off n).imp ?_
  rintro r t ⟨rfl, hr⟩
  rw [hs.flush] at hr
  exact ⟨rfl, hr⟩

/-! ## Writing -/

/-- What the rounds of `writei` may change: the blocks of the inode grow and get new
contents, and the other files stay as they are. -/
structure Writing (ip : Nat) (s t : Fs) : Prop where
  dinode : t.dinode = s.dinode
  ftable : t.ftable = s.ftable
  proc : t.proc = s.proc
  others : ∀ k, k ≠ ip → t.itable k = s.itable k
  self : t.itable ip = { s.itable ip with addrs := (t.itable ip).addrs }
  refs : ∀ p, refAt (flush ip s) p ≠ 0 → refAt (flush ip t) p = refAt (flush ip s) p
  data : ∀ p, p.1 ≠ (s.itable ip).inum → p.2 ≠ NDIRECT → refAt (flush ip s) p ≠ 0 →
    t.data (refAt (flush ip s) p) = s.data (refAt (flush ip s) p)

lemma Mapped.writing (h : Mapped ip s t) : Writing ip s t :=
  ⟨h.dinode, h.ftable, h.proc, h.others, h.self, h.refs, fun p _ hn hp => h.data p hn hp⟩

lemma Writing.refl (ip : Nat) (s : Fs) : Writing ip s s := (Mapped.refl ip s).writing

lemma Writing.inum (h : Writing ip s t) : (t.itable ip).inum = (s.itable ip).inum := by
  rw [h.self]

lemma Writing.type (h : Writing ip s t) : (t.itable ip).type = (s.itable ip).type := by
  rw [h.self]

lemma Writing.trans {u : Fs} (h : Writing ip s t) (h' : Writing ip t u) : Writing ip s u := by
  refine ⟨h'.dinode.trans h.dinode, h'.ftable.trans h.ftable, h'.proc.trans h.proc,
    fun k hk => (h'.others k hk).trans (h.others k hk), ?_, ?_, ?_⟩
  · rw [h'.self, h.self]
  · intro p hp
    have h1 := h.refs p hp
    rw [h'.refs p (by rw [h1]; exact hp), h1]
  · intro p hi hn hp
    have h1 := h.refs p hp
    have h2 := h'.data p (by rw [h.inum]; exact hi) hn (by rw [h1]; exact hp)
    rw [h1] at h2
    rw [h2, h.data p hi hn hp]

def setBlock (b : Nat) (v : Bytes) (s : Fs) : Fs := { s with data := update s.data b v }

lemma refAt_setBlock {p : Nat × Nat} (hp : p.2 ≠ NDIRECT)
    (hown : ∀ q, refAt (flush ip s) q = refAt (flush ip s) p → q = p) (v : Bytes) :
    refAt (flush ip (setBlock (refAt (flush ip s) p) v s)) = refAt (flush ip s) := by
  funext q
  apply place_congr
  intro ht hi
  apply update_of_ne
  intro heq
  have hq : refAt (flush ip s) (q.1, NDIRECT) = refAt (flush ip s) p := by
    rw [← show _ = refAt (flush ip s) p from heq]
    exact place_of_le ht _ (le_refl _)
  exact hp (by rw [← hown _ hq])

lemma Owned.only (h : Owned sb s) {p : Nat × Nat} (h0 : refAt s p ≠ 0) (q : Nat × Nat)
    (hq : refAt s q = refAt s p) : q = p :=
  (h.exact.inj p q h0 hq.symm).symm

lemma owned_setBlock (h : Owned sb (flush ip s)) {p : Nat × Nat} (hp : p.2 ≠ NDIRECT)
    (h0 : refAt (flush ip s) p ≠ 0) (v : Bytes) :
    Owned sb (flush ip (setBlock (refAt (flush ip s) p) v s)) := by
  have hrefs := refAt_setBlock hp (h.only h0) v
  refine ⟨h.bits, ?_, ?_, h.sizes⟩
  · rw [hrefs]
    exact h.exact
  · intro i ht bn hbn
    unfold blockOf
    rw [hrefs]
    exact h.holes i ht bn hbn

lemma writing_setBlock {pos : Nat} (hp : pos ≠ NDIRECT)
    (hown : ∀ q, refAt (flush ip s) q = refAt (flush ip s) ((s.itable ip).inum, pos) →
      q = ((s.itable ip).inum, pos)) (v : Bytes) :
    Writing ip s (setBlock (refAt (flush ip s) ((s.itable ip).inum, pos)) v s) := by
  refine ⟨rfl, rfl, rfl, fun _ _ => rfl, rfl, ?_, ?_⟩
  · intro q _
    rw [refAt_setBlock hp hown v]
  · intro q hi _ _
    apply update_of_ne
    intro heq
    exact hi (by rw [hown q heq])

lemma placeOf_ne (bn : Nat) : placeOf bn ≠ NDIRECT := by
  unfold placeOf
  split <;> omega

lemma placeOf_inj {a b : Nat} (h : placeOf a = placeOf b) : a = b := by
  unfold placeOf at h
  split at h <;> split at h <;> omega

lemma wp_bmap_setBlock {α : Type} {Q : α → Fs → Prop} (h : Owned sb (flush ip s))
    (ht : (s.itable ip).type ≠ .free) {bn : Nat} (hbn : bn < MAXFILE) {m : Nat → M α}
    (hfull : ∀ t, Owned sb (flush ip t) → Mapped ip s t → Wp (m 0) Q E t)
    (hgot : ∀ a t, a ≠ 0 → Owned sb (flush ip t) → Mapped ip s t →
      refAt (flush ip t) ((s.itable ip).inum, placeOf bn) = a →
      (∀ v, Owned sb (flush ip (setBlock a v t)) ∧ Writing ip s (setBlock a v t) ∧
        refAt (flush ip (setBlock a v t)) = refAt (flush ip t)) → Wp (m a) Q E t) :
    Wp (bmap sb ip bn >>= m) Q E s := by
  refine (wp_bmap h ht hbn).bind ?_
  rintro a t ⟨ho, hm, ha⟩
  by_cases h0 : a = 0
  · rw [h0]
    exact hfull t ho hm
  · have hblock : refAt (flush ip t) ((s.itable ip).inum, placeOf bn) = a := ha h0
    refine hgot a t h0 ho hm hblock ?_
    intro v
    subst hblock
    refine ⟨owned_setBlock ho (placeOf_ne bn) h0 v, hm.writing.trans ?_,
      refAt_setBlock (placeOf_ne bn) (ho.only h0) v⟩
    rw [← hm.inum] at h0 ⊢
    exact writing_setBlock (placeOf_ne bn) (ho.only h0) v

lemma wp_writeiLoop (h : Owned sb (flush ip s)) (ht : (s.itable ip).type ≠ .free)
    (src : Nat → Option UInt8) (n fuel tot off : Nat) (htot : tot ≤ n)
    (hoff : off + (n - tot) ≤ MAXFILE * BSIZE)
    (hmap : ∀ bn, bn * BSIZE < off → blockOf (flush ip s) (s.itable ip).inum bn ≠ 0) :
    Wp (writeiLoop sb ip src n fuel tot off) (fun r t => Owned sb (flush ip t) ∧ Writing ip s t ∧
      off ≤ r.2 ∧ r.2 ≤ off + (n - tot) ∧
      ∀ bn, bn * BSIZE < r.2 → blockOf (flush ip t) (s.itable ip).inum bn ≠ 0) E s := by
  induction fuel generalizing s tot off with
  | zero =>
    simp only [writeiLoop, wp_pure]
    exact ⟨h, Writing.refl _ _, le_refl _, by omega, hmap⟩
  | succ fuel ih =>
    apply wp_ite <;> intro hlt
    · have hbn : off / BSIZE < MAXFILE := by
        apply Nat.div_lt_of_lt_mul
        rw [Nat.mul_comm]
        omega
      refine wp_bmap_setBlock h ht hbn ?_ ?_
      · intro t ho hm
        rw [if_pos rfl, wp_pure]
        refine ⟨ho, hm.writing, le_refl _, by omega, fun bn hlt => ?_⟩
        unfold blockOf
        rw [hm.refs _ (hmap bn hlt)]
        exact hmap bn hlt
      · intro a t ha ho hm hblock hset
        rw [if_neg ha, wp_get_bind, wp_set_bind]
        have hm0 : 0 < BSIZE - off % BSIZE := by
          have := Nat.mod_lt off (show 0 < BSIZE by decide)
          omega
        generalize hmin : min (n - tot) (BSIZE - off % BSIZE) = m
        generalize either_copyin (t.data a) (off % BSIZE) src tot m = r
        obtain ⟨ho', hw, hrefs⟩ := hset r.1
        have hmapped : ∀ bn, bn * BSIZE < off + m →
            blockOf (flush ip (setBlock a r.1 t)) (s.itable ip).inum bn ≠ 0 := by
          intro bn hlt'
          unfold blockOf
          rw [hrefs]
          by_cases hb : bn = off / BSIZE
          · rw [hb, hblock]
            exact ha
          · have hlt'' : bn * BSIZE < off := by
              rw [BSIZE_eq] at *
              omega
            rw [hm.refs _ (hmap bn hlt'')]
            exact hmap bn hlt''
        apply wp_ite <;> intro _
        · have htype : ((setBlock a r.1 t).itable ip).type ≠ .free := by
            rw [hw.type]
            exact ht
          have hmap' : ∀ bn, bn * BSIZE < off + m → blockOf (flush ip (setBlock a r.1 t))
              ((setBlock a r.1 t).itable ip).inum bn ≠ 0 := by
            rw [hw.inum]
            exact hmapped
          refine (ih ho' htype (tot + m) (off + m) (by omega) (by omega) hmap').imp ?_
          rintro r' u ⟨h1, h2, h3, h4, h5⟩
          rw [hw.inum] at h5
          exact ⟨h1, hw.trans h2, by omega, by omega, h5⟩
        · rw [wp_pure]
          refine ⟨ho', hw, le_refl _, by omega, fun bn hlt' => hmapped bn (by omega)⟩
    · rw [wp_pure]
      exact ⟨h, Writing.refl _ _, le_refl _, by omega, hmap⟩

/-- The state after the inode gets its new size and is written back. -/
def resize (ip size : Nat) (t : Fs) : Fs :=
  flush ip { t with itable := update t.itable ip { t.itable ip with size } }

lemma resize_dinode (ip size : Nat) (t : Fs) :
    (resize ip size t).dinode = update t.dinode (t.itable ip).inum
      { (t.itable ip).toDinode with size } := by
  simp [resize, flush]

lemma refAt_resize (ip size : Nat) (t : Fs) : refAt (resize ip size t) = refAt (flush ip t) := by
  funext p
  unfold refAt
  rw [resize_dinode]
  by_cases hp : p.1 = (t.itable ip).inum
  · rw [hp, update_self, flush_dinode_self]
    rfl
  · rw [update_of_ne hp, flush_dinode_ne hp]
    rfl

lemma owned_resize {size : Nat} (h : Owned sb (flush ip t)) (hsize : size ≤ MAXFILE * BSIZE)
    (hmap : ∀ bn, bn * BSIZE < size → blockOf (flush ip t) (t.itable ip).inum bn ≠ 0) :
    Owned sb (resize ip size t) := by
  have hrefs := refAt_resize ip size t
  refine ⟨h.bits, ?_, ?_, ?_⟩
  · rw [hrefs]
    exact h.exact
  · intro i hti bn hbn
    rw [resize_dinode] at hti hbn
    unfold blockOf
    rw [hrefs]
    by_cases hi : i = (t.itable ip).inum
    · subst hi
      rw [update_self] at hbn
      exact hmap bn hbn
    · rw [update_of_ne hi] at hti hbn
      rw [← flush_dinode_ne hi] at hti hbn
      exact h.holes i hti bn hbn
  · intro i hti
    rw [resize_dinode] at hti ⊢
    by_cases hi : i = (t.itable ip).inum
    · subst hi
      rw [update_self]
      exact hsize
    · rw [update_of_ne hi] at hti ⊢
      rw [← flush_dinode_ne hi] at hti ⊢
      exact h.sizes i hti

/-- What `writei` may change. -/
structure Wrote (ip : Nat) (s t : Fs) : Prop where
  ftable : t.ftable = s.ftable
  proc : t.proc = s.proc
  others : ∀ k, k ≠ ip → t.itable k = s.itable k
  self : ∃ addrs size, t.itable ip = { s.itable ip with addrs, size }
  dinode : t.dinode = update s.dinode (s.itable ip).inum (t.itable ip).toDinode
  files : ∀ p, p.1 ≠ (s.itable ip).inum → refAt s p ≠ 0 →
    refAt t p = refAt s p ∧ (p.2 ≠ NDIRECT → t.data (refAt s p) = s.data (refAt s p))

lemma Wrote.refl (hs : Synced s ip) : Wrote ip s s := by
  refine ⟨rfl, rfl, fun _ _ => rfl, ⟨_, _, rfl⟩, ?_, fun _ _ _ => ⟨rfl, fun _ => rfl⟩⟩
  rw [show (s.itable ip).toDinode = _ from hs, update_eq_self]

lemma Writing.wrote (hs : Synced s ip) (h : Writing ip s t) (size : Nat) :
    Wrote ip s (resize ip size t) := by
  refine ⟨h.ftable, h.proc, ?_, ⟨(t.itable ip).addrs, size, ?_⟩, ?_, ?_⟩
  · intro k hk
    simp only [resize, flush_itable, update_of_ne hk]
    exact h.others k hk
  · simp only [resize, flush_itable, update_self]
    rw [h.self]
  · rw [resize_dinode, h.inum, h.dinode]
    congr 1
    simp [resize]
  · intro p hp h0
    rw [refAt_resize]
    have hflush := hs.flush
    have h1 := h.refs p (by rw [hflush]; exact h0)
    have h2 := h.data p hp
    rw [hflush] at h1 h2
    exact ⟨h1, fun hn => h2 hn h0⟩

lemma wp_writei (h : Owned sb s) (hs : Synced s ip) (ht : (s.itable ip).type ≠ .free)
    (src : Nat → Option UInt8) (off n : Nat) :
    Wp (writei sb ip src off n) (fun _ t => Owned sb t ∧ Wrote ip s t) E s := by
  unfold writei
  rw [wp_get_bind]
  apply wp_ite <;> intro hok
  · rw [wp_pure]
    exact ⟨h, Wrote.refl hs⟩
  · rw [not_or] at hok
    apply wp_ite <;> intro hmax
    · rw [wp_pure]
      exact ⟨h, Wrote.refl hs⟩
    · have hflush := hs.flush
      have htd : (s.dinode (s.itable ip).inum).type ≠ .free := by rw [← hs.type]; exact ht
      have hmap : ∀ bn, bn * BSIZE < (s.itable ip).size →
          blockOf (flush ip s) (s.itable ip).inum bn ≠ 0 := by
        intro bn hlt
        rw [hflush]
        exact h.holes _ htd bn (by rw [← hs.size]; exact hlt)
      refine (wp_writeiLoop (by rw [hflush]; exact h) ht src n n 0 off (Nat.zero_le _) (by omega)
        (fun bn hlt => hmap bn (by omega))).bind ?_
      rintro r t ⟨ho, hw, h1, h2, hmap'⟩
      rw [wp_modifyInode_bind, wp_iupdate_bind, wp_pure]
      have hsize : (t.itable ip).size = (s.itable ip).size := by rw [hw.self]
      refine ⟨owned_resize ho ?_ ?_, hw.wrote hs _⟩
      · have := h.sizes _ htd
        rw [← hs.size] at this
        split <;> omega
      · intro bn hlt
        rw [hw.inum]
        by_cases hbn : bn * BSIZE < r.2
        · exact hmap' bn hbn
        · have hold : bn * BSIZE < (s.itable ip).size := by
            split at hlt <;> omega
          have hne := hmap bn hold
          unfold blockOf at hne ⊢
          rw [hw.refs _ hne]
          exact hne

end xv6.fs
