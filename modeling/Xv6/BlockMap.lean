-- Which block belongs to which place of which inode, and how `balloc`, `bmap`
-- and `itrunc` change it. While an inode in memory is ahead of its copy on the
-- disk, the facts are about the disk with that inode written back.
import Xv6.Fs
import Xv6.Lib.Ownership
import Xv6.Lib.Wp

open bytes ownership wp Function

namespace xv6.fs

/-! ## The places of an inode -/

def NPLACE : Nat := NDIRECT + 1 + NINDIRECT

/-- What place `pos` of an inode holds. -/
def Dinode.place (d : Dinode) (data : Nat → Bytes) (pos : Nat) : Nat :=
  if d.type = .free ∨ NPLACE ≤ pos then 0
  else if pos ≤ NDIRECT then d.addrs pos
  else if d.addrs NDIRECT = 0 then 0
  else indirectEntry (data (d.addrs NDIRECT)) (pos - NDIRECT - 1)

def refAt (s : Fs) (p : Nat × Nat) : Nat := (s.dinode p.1).place s.data p.2

def placeOf (bn : Nat) : Nat := if bn < NDIRECT then bn else bn + 1

def blockOf (s : Fs) (i bn : Nat) : Nat := refAt s (i, placeOf bn)

/-- The disk with inode `ip` of the table written back. -/
def flush (ip : Nat) (s : Fs) : Fs :=
  { s with dinode := update s.dinode (s.itable ip).inum (s.itable ip).toDinode }

def setSlot (k : Nat) (x : Inode) (s : Fs) : Fs :=
  { s with itable := update s.itable k x }

@[simp] lemma setSlot_self (k : Nat) (x : Inode) (s : Fs) : (setSlot k x s).itable k = x :=
  update_self ..

@[simp] lemma setSlot_ne {j k : Nat} (hj : j ≠ k) (x : Inode) (s : Fs) :
    (setSlot k x s).itable j = s.itable j := update_of_ne hj ..

@[simp] lemma setSlot_dinode (k : Nat) (x : Inode) (s : Fs) :
    (setSlot k x s).dinode = s.dinode := rfl

/-- The bitmap is exact, and no file has a hole. -/
structure Owned (sb : Superblock) (s : Fs) : Prop where
  bits : sb.size ≤ 2 ^ 32
  exact : Exact sb.nmeta sb.size s.bitmap (refAt s)
  holes : ∀ i, (s.dinode i).type ≠ .free → ∀ bn, bn * BSIZE < (s.dinode i).size →
    blockOf s i bn ≠ 0
  sizes : ∀ i, (s.dinode i).type ≠ .free → (s.dinode i).size ≤ MAXFILE * BSIZE

variable {sb : Superblock} {s s' : Fs} {ip : Nat} {E : Stop → Prop}

variable {b bn ind j pos : Nat} {d : Dinode}

lemma place_of_free (h : d.type = .free) (data : Nat → Bytes) (pos : Nat) :
    d.place data pos = 0 := by
  simp [Dinode.place, h]

lemma place_of_le (h : d.type ≠ .free) (data : Nat → Bytes)
    (hpos : pos ≤ NDIRECT) : d.place data pos = d.addrs pos := by
  have : ¬ NPLACE ≤ pos := by
    unfold NPLACE
    omega
  simp [Dinode.place, h, this, hpos]

lemma place_entry (h : d.type ≠ .free) (data : Nat → Bytes)
    (hj : j < NINDIRECT) (hind : d.addrs NDIRECT ≠ 0) :
    d.place data (NDIRECT + 1 + j) = indirectEntry (data (d.addrs NDIRECT)) j := by
  have h1 : ¬ NPLACE ≤ NDIRECT + 1 + j := by
    unfold NPLACE
    omega
  have h2 : ¬ NDIRECT + 1 + j ≤ NDIRECT := by omega
  have h3 : NDIRECT + 1 + j - NDIRECT - 1 = j := by omega
  simp [Dinode.place, h, h1, h2, hind, h3]

lemma place_congr {data data' : Nat → Bytes}
    (h : d.type ≠ .free → d.addrs NDIRECT ≠ 0 → data' (d.addrs NDIRECT) = data (d.addrs NDIRECT))
    (pos : Nat) : d.place data' pos = d.place data pos := by
  unfold Dinode.place
  by_cases ht : d.type = .free
  · simp [ht]
  · by_cases hi : d.addrs NDIRECT = 0
    · simp [hi]
    · rw [h ht hi]

lemma indirectEntry_zero (j : Nat) : indirectEntry (fun _ => 0) j = 0 := by
  simp [indirectEntry, getLE]

@[simp] lemma flush_bitmap (ip : Nat) (s : Fs) : (flush ip s).bitmap = s.bitmap := rfl
@[simp] lemma flush_data (ip : Nat) (s : Fs) : (flush ip s).data = s.data := rfl
@[simp] lemma flush_itable (ip : Nat) (s : Fs) : (flush ip s).itable = s.itable := rfl
@[simp] lemma flush_ftable (ip : Nat) (s : Fs) : (flush ip s).ftable = s.ftable := rfl
@[simp] lemma flush_proc (ip : Nat) (s : Fs) : (flush ip s).proc = s.proc := rfl

lemma flush_dinode_self (ip : Nat) (s : Fs) :
    (flush ip s).dinode (s.itable ip).inum = (s.itable ip).toDinode := update_self ..

lemma flush_dinode_ne (h : j ≠ (s.itable ip).inum) :
    (flush ip s).dinode j = s.dinode j := update_of_ne h ..

lemma flush_of_synced (h : (s.itable ip).toDinode = s.dinode (s.itable ip).inum) :
    flush ip s = s := by
  unfold flush
  rw [h, update_eq_self]

/-! ## Allocation of one block -/

lemma refAt_zero_spare (h : ∀ p, refAt s p ≠ b) (v : Bytes) (i pos : Nat) :
    (s.dinode i).place (update s.data b v) pos = refAt s (i, pos) := by
  apply place_congr
  intro ht hi
  apply update_of_ne
  have := h (i, NDIRECT)
  rwa [refAt, place_of_le ht _ (le_refl _)] at this

/-- The state after block `b` is taken for place `pos` among the addresses of the inode. -/
def takeDirect (ip pos b : Nat) (s : Fs) : Fs :=
  { s with bitmap := update s.bitmap b true,
           data := update s.data b fun _ => 0,
           itable := update s.itable ip
            { s.itable ip with addrs := update (s.itable ip).addrs pos b } }

lemma refAt_takeDirect (h : ∀ p, refAt (flush ip s) p ≠ b)
    (ht : (s.itable ip).type ≠ .free) (hpos : pos ≤ NDIRECT) (h0 : (s.itable ip).addrs pos = 0) :
    refAt (flush ip (takeDirect ip pos b s)) =
      update (refAt (flush ip s)) ((s.itable ip).inum, pos) b := by
  funext ⟨i, q⟩
  have hold := refAt_zero_spare h (fun _ => 0) i q
  by_cases hi : i = (s.itable ip).inum
  · subst hi
    rw [flush_dinode_self] at hold
    have hd : (flush ip (takeDirect ip pos b s)).dinode (s.itable ip).inum =
        { (s.itable ip).toDinode with addrs := update (s.itable ip).addrs pos b } := by
      simp [flush, takeDirect]
    unfold refAt
    simp only [hd]
    by_cases hq : q = pos
    · subst hq
      rw [update_self]
      exact (place_of_le (by exact ht) _ hpos).trans (update_self ..)
    · have hne : ((s.itable ip).inum, q) ≠ ((s.itable ip).inum, pos) := by simp [hq]
      rw [update_of_ne hne]
      refine Eq.trans ?_ hold
      unfold Dinode.place takeDirect
      simp only [update_of_ne hq, flush_data]
      by_cases hnd : NDIRECT = pos
      · rw [← hnd] at h0
        simp [← hnd, h0, indirectEntry_zero]
      · simp [update_of_ne hnd]
  · have hne : (i, q) ≠ ((s.itable ip).inum, pos) := by simp [hi]
    rw [update_of_ne hne]
    have hd : (flush ip (takeDirect ip pos b s)).dinode i = (flush ip s).dinode i := by
      simp [flush, takeDirect, hi]
    refine Eq.trans ?_ hold
    unfold refAt
    rw [hd]
    rfl

/-- The state after block `b` is taken for entry `j` of the indirect block `ind`. -/
def takeEntry (ind j b : Nat) (s : Fs) : Fs :=
  { s with bitmap := update s.bitmap b true,
           data := update (update s.data b fun _ => 0) ind
            (putLE 4 (update s.data b (fun _ => 0) ind) (4 * j) b) }

lemma refAt_inode_indirect (ht : (s.itable ip).type ≠ .free)
    (hind : (s.itable ip).addrs NDIRECT = ind) :
    refAt (flush ip s) ((s.itable ip).inum, NDIRECT) = ind := by
  unfold refAt
  rw [flush_dinode_self, place_of_le ht _ (le_refl _), hind]

lemma refAt_takeEntry (h : ∀ p, refAt (flush ip s) p ≠ b) (hb : b < 2 ^ 32)
    (ht : (s.itable ip).type ≠ .free) (hj : j < NINDIRECT)
    (hind : (s.itable ip).addrs NDIRECT = ind) (hind0 : ind ≠ 0)
    (hown : ∀ p, refAt (flush ip s) p = ind → p = ((s.itable ip).inum, NDIRECT)) :
    refAt (flush ip (takeEntry ind j b s)) =
      update (refAt (flush ip s)) ((s.itable ip).inum, NDIRECT + 1 + j) b := by
  funext ⟨i, q⟩
  have hold := refAt_zero_spare h (fun _ => 0) i q
  have hd : (flush ip (takeEntry ind j b s)).dinode i = (flush ip s).dinode i := rfl
  by_cases hi : i = (s.itable ip).inum
  · subst hi
    by_cases hq : q = NDIRECT + 1 + j
    · subst hq
      rw [update_self]
      unfold refAt
      rw [hd, flush_dinode_self, place_entry ht _ hj (by rw [hind]; exact hind0), hind]
      simp only [flush_data, takeEntry, update_self, indirectEntry]
      exact getLE_putLE_of_lt _ _ (by omega)
    · have hne : ((s.itable ip).inum, q) ≠ ((s.itable ip).inum, NDIRECT + 1 + j) := by simp [hq]
      rw [update_of_ne hne]
      refine Eq.trans ?_ hold
      unfold refAt
      rw [hd, flush_dinode_self]
      unfold Dinode.place
      split
      · rfl
      · split
        · rfl
        · split
          · rfl
          · rename_i hq' hle _
            simp only [hind, flush_data, takeEntry, update_self, indirectEntry]
            apply getLE_putLE_of_disjoint
            omega
  · have hne : (i, q) ≠ ((s.itable ip).inum, NDIRECT + 1 + j) := by simp [hi]
    rw [update_of_ne hne]
    refine Eq.trans ?_ hold
    unfold refAt
    rw [hd]
    apply place_congr
    intro hti hi0
    have hne' : ((flush ip s).dinode i).addrs NDIRECT ≠ ind := by
      intro heq
      have hri : refAt (flush ip s) (i, NDIRECT) = ind := by
        unfold refAt
        rw [place_of_le hti _ (le_refl _), heq]
      exact hi (Prod.mk.inj (hown _ hri)).1
    simp only [flush_data, takeEntry]
    rw [update_of_ne hne']

lemma Owned.take (h : Owned sb (flush ip s)) {p : Nat × Nat}
    (h0 : refAt (flush ip s) p = 0) (hb : b < sb.size) (hu : s.bitmap b = false)
    (hbits : s'.bitmap = update s.bitmap b true)
    (hrefs : refAt (flush ip s') = update (refAt (flush ip s)) p b)
    (hsame : ∀ i, ((flush ip s').dinode i).type = ((flush ip s).dinode i).type ∧
      ((flush ip s').dinode i).size = ((flush ip s).dinode i).size) :
    Owned sb (flush ip s') := by
  refine ⟨h.bits, ?_, ?_, ?_⟩
  · rw [hrefs, flush_bitmap, hbits]
    exact h.exact.take h0 hb hu
  · intro i ht bn hbn
    rw [(hsame i).1] at ht
    rw [(hsame i).2] at hbn
    unfold blockOf
    rw [hrefs]
    by_cases hp : (i, placeOf bn) = p
    · rw [hp, update_self]
      have h1 := h.exact.low_pos
      have h2 := h.exact.low_le_of_unused hb hu
      omega
    · rw [update_of_ne hp]
      exact h.holes i ht bn hbn
  · intro i ht
    rw [(hsame i).1] at ht
    rw [(hsame i).2]
    exact h.sizes i ht

/-- What the allocation of blocks for an inode of the table may change. -/
structure Mapped (ip : Nat) (s s' : Fs) : Prop where
  dinode : s'.dinode = s.dinode
  ftable : s'.ftable = s.ftable
  proc : s'.proc = s.proc
  others : ∀ k, k ≠ ip → s'.itable k = s.itable k
  self : s'.itable ip = { s.itable ip with addrs := (s'.itable ip).addrs }
  refs : ∀ p, refAt (flush ip s) p ≠ 0 → refAt (flush ip s') p = refAt (flush ip s) p
  data : ∀ p, p.2 ≠ NDIRECT → refAt (flush ip s) p ≠ 0 →
    s'.data (refAt (flush ip s) p) = s.data (refAt (flush ip s) p)

lemma Mapped.refl (ip : Nat) (s : Fs) : Mapped ip s s :=
  ⟨rfl, rfl, rfl, fun _ _ => rfl, rfl, fun _ _ => rfl, fun _ _ _ => rfl⟩

lemma Mapped.trans {t : Fs} (h : Mapped ip s s') (h' : Mapped ip s' t) : Mapped ip s t := by
  refine ⟨h'.dinode.trans h.dinode, h'.ftable.trans h.ftable, h'.proc.trans h.proc,
    fun k hk => (h'.others k hk).trans (h.others k hk), ?_, ?_, ?_⟩
  · rw [h'.self, h.self]
  · intro p hp
    have h1 := h.refs p hp
    rw [h'.refs p (by rw [h1]; exact hp), h1]
  · intro p hn hp
    have h1 := h.refs p hp
    have h2 := h'.data p hn (by rw [h1]; exact hp)
    rw [h1] at h2
    rw [h2, h.data p hn hp]

lemma Mapped.type (h : Mapped ip s s') : (s'.itable ip).type = (s.itable ip).type := by
  rw [h.self]

lemma Mapped.inum (h : Mapped ip s s') : (s'.itable ip).inum = (s.itable ip).inum := by
  rw [h.self]

lemma Mapped.size (h : Mapped ip s s') : (s'.itable ip).size = (s.itable ip).size := by
  rw [h.self]

lemma refs_take {f : Nat × Nat → Nat} {p : Nat × Nat} (b : Nat) (h0 : f p = 0) (q : Nat × Nat)
    (hq : f q ≠ 0) : update f p b q = f q := by
  apply update_of_ne
  rintro rfl
  exact hq h0

lemma takeDirect_mapped (h : ∀ p, refAt (flush ip s) p ≠ b)
    (ht : (s.itable ip).type ≠ .free) (hpos : pos ≤ NDIRECT) (h0 : (s.itable ip).addrs pos = 0) :
    Mapped ip s (takeDirect ip pos b s) := by
  have hrefs := refAt_takeDirect h ht hpos h0
  have hp0 : refAt (flush ip s) ((s.itable ip).inum, pos) = 0 := by
    unfold refAt
    rw [flush_dinode_self, place_of_le ht _ hpos, h0]
  refine ⟨rfl, rfl, rfl, ?_, ?_, ?_, ?_⟩
  · intro k hk
    simp [takeDirect, hk]
  · simp [takeDirect]
  · intro q hq
    rw [hrefs]
    exact refs_take b hp0 q hq
  · intro q _ hq
    exact update_of_ne (h q) ..

lemma mapped_takeDirect (h : Owned sb (flush ip s)) (ht : (s.itable ip).type ≠ .free)
    (hpos : pos ≤ NDIRECT) (h0 : (s.itable ip).addrs pos = 0) (hb : b < sb.size)
    (hu : s.bitmap b = false) :
    Owned sb (flush ip (takeDirect ip pos b s)) ∧ Mapped ip s (takeDirect ip pos b s) := by
  have hspare := h.exact.ref_ne_of_unused hb hu
  have hp0 : refAt (flush ip s) ((s.itable ip).inum, pos) = 0 := by
    unfold refAt
    rw [flush_dinode_self, place_of_le ht _ hpos, h0]
  refine ⟨h.take hp0 hb hu rfl (refAt_takeDirect hspare ht hpos h0) ?_,
    takeDirect_mapped hspare ht hpos h0⟩
  intro i
  by_cases hi : i = (s.itable ip).inum
  · subst hi
    simp [flush, takeDirect]
  · simp [flush, takeDirect, hi]

lemma takeEntry_mapped (h : ∀ p, refAt (flush ip s) p ≠ b) (hb : b < 2 ^ 32)
    (ht : (s.itable ip).type ≠ .free) (hj : j < NINDIRECT)
    (hind : (s.itable ip).addrs NDIRECT = ind) (hind0 : ind ≠ 0)
    (hown : ∀ p, refAt (flush ip s) p = ind → p = ((s.itable ip).inum, NDIRECT))
    (h0 : indirectEntry (s.data ind) j = 0) : Mapped ip s (takeEntry ind j b s) := by
  have hrefs := refAt_takeEntry h hb ht hj hind hind0 hown
  have hp0 : refAt (flush ip s) ((s.itable ip).inum, NDIRECT + 1 + j) = 0 := by
    unfold refAt
    rw [flush_dinode_self, place_entry ht _ hj (by rw [hind]; exact hind0), hind]
    exact h0
  refine ⟨rfl, rfl, rfl, fun _ _ => rfl, rfl, ?_, ?_⟩
  · intro q hq
    rw [hrefs]
    exact refs_take b hp0 q hq
  · intro q hn hq
    have hne : refAt (flush ip s) q ≠ ind := fun heq => hn (by rw [hown q heq])
    simp only [takeEntry]
    rw [update_of_ne hne, update_of_ne (h q)]

lemma Owned.sole (h : Owned sb (flush ip s)) (ht : (s.itable ip).type ≠ .free) {ind : Nat}
    (hind : (s.itable ip).addrs NDIRECT = ind) (hind0 : ind ≠ 0) (p : Nat × Nat)
    (hp : refAt (flush ip s) p = ind) : p = ((s.itable ip).inum, NDIRECT) :=
  h.exact.inj p _ (by rw [hp]; exact hind0) (by rw [hp, refAt_inode_indirect ht hind])

lemma mapped_takeEntry (h : Owned sb (flush ip s)) (ht : (s.itable ip).type ≠ .free)
    (hj : j < NINDIRECT) (hind : (s.itable ip).addrs NDIRECT = ind)
    (hind0 : ind ≠ 0) (h0 : indirectEntry (s.data ind) j = 0) (hb : b < sb.size)
    (hu : s.bitmap b = false) :
    Owned sb (flush ip (takeEntry ind j b s)) ∧ Mapped ip s (takeEntry ind j b s) := by
  have hspare := h.exact.ref_ne_of_unused hb hu
  have hown := h.sole ht hind hind0
  have hp0 : refAt (flush ip s) ((s.itable ip).inum, NDIRECT + 1 + j) = 0 := by
    unfold refAt
    rw [flush_dinode_self, place_entry ht _ hj (by rw [hind]; exact hind0), hind]
    exact h0
  have hb32 : b < 2 ^ 32 := by
    have := h.bits
    omega
  exact ⟨h.take hp0 hb hu rfl (refAt_takeEntry hspare hb32 ht hj hind hind0 hown)
    (fun i => ⟨rfl, rfl⟩), takeEntry_mapped hspare hb32 ht hj hind hind0 hown h0⟩

/-! ## The functions -/

lemma wp_balloc (sb : Superblock) (s : Fs) :
    Wp (balloc sb) (fun b t => b = 0 ∧ t = s ∨ b < sb.size ∧ s.bitmap b = false ∧
      t = { s with bitmap := update s.bitmap b true,
                   data := update s.data b fun _ => 0 }) E s := by
  unfold balloc
  rw [wp_get_bind]
  split
  · rename_i b hb
    rw [wp_set_bind, wp_pure]
    have hmem := List.mem_of_find?_eq_some hb
    have hfree := List.find?_some hb
    exact .inr ⟨List.mem_range.mp hmem, by simpa using hfree, rfl⟩
  · rw [wp_pure]
    exact .inl ⟨rfl, rfl⟩

@[simp] lemma wp_modifyInode (ip : Nat) (f : Inode → Inode) {Q : Unit → Fs → Prop} :
    Wp (modifyInode ip f) Q E s ↔ Q () (setSlot ip (f (s.itable ip)) s) := wp_modify _

@[simp] lemma wp_modifyInode_bind {α : Type} (ip : Nat) (f : Inode → Inode) (m : Unit → M α)
    {Q : α → Fs → Prop} :
    Wp (modifyInode ip f >>= m) Q E s ↔ Wp (m ()) Q E (setSlot ip (f (s.itable ip)) s) :=
  wp_modify_bind _ m

@[simp] lemma wp_iupdate (k : Nat) {Q : Unit → Fs → Prop} :
    Wp (iupdate k) Q E s ↔ Q () (flush k s) := wp_modify _

@[simp] lemma wp_iupdate_bind {α : Type} (k : Nat) (m : Unit → M α) {Q : α → Fs → Prop} :
    Wp (iupdate k >>= m) Q E s ↔ Wp (m ()) Q E (flush k s) := wp_modify_bind _ m

lemma wp_bmapDirect (h : Owned sb (flush ip s)) (ht : (s.itable ip).type ≠ .free)
    (hpos : pos ≤ NDIRECT) :
    Wp (bmapDirect sb ip pos) (fun a t => Owned sb (flush ip t) ∧ Mapped ip s t ∧
      (a ≠ 0 → (t.itable ip).addrs pos = a)) E s := by
  unfold bmapDirect
  rw [wp_get_bind]
  apply wp_ite <;> intro h0
  · refine (wp_balloc sb s).bind ?_
    rintro b t (⟨rfl, rfl⟩ | ⟨hb, hu, rfl⟩)
    · rw [if_pos rfl, wp_pure]
      exact ⟨h, Mapped.refl _ _, fun hne => absurd rfl hne⟩
    · apply wp_ite <;> intro hb0
      · exact absurd (h.exact.low_le_of_unused hb hu) (by have := h.exact.low_pos; omega)
      · rw [wp_modifyInode_bind, wp_pure]
        obtain ⟨ho, hm⟩ := mapped_takeDirect h ht hpos h0 hb hu
        exact ⟨ho, hm, fun _ => by simp⟩
  · rw [wp_pure]
    exact ⟨h, Mapped.refl _ _, fun _ => rfl⟩

lemma placeOf_direct (h : bn < NDIRECT) : placeOf bn = bn := if_pos h

lemma placeOf_indirect (h : ¬ bn < NDIRECT) :
    placeOf bn = NDIRECT + 1 + (bn - NDIRECT) := by
  unfold placeOf
  rw [if_neg h]
  omega

lemma wp_bmap (h : Owned sb (flush ip s)) (ht : (s.itable ip).type ≠ .free)
    (hbn : bn < MAXFILE) :
    Wp (bmap sb ip bn) (fun a t => Owned sb (flush ip t) ∧ Mapped ip s t ∧
      (a ≠ 0 → blockOf (flush ip t) (s.itable ip).inum bn = a)) E s := by
  have hplace : ∀ t : Fs, Mapped ip s t → (flush ip t).dinode (s.itable ip).inum =
      (t.itable ip).toDinode := by
    intro t ht'
    rw [← ht'.inum, flush_dinode_self]
  apply wp_ite <;> intro hd
  · refine (wp_bmapDirect h ht (by omega)).imp ?_
    rintro a t ⟨ho, hm, ha⟩
    refine ⟨ho, hm, fun hne => ?_⟩
    unfold blockOf refAt
    rw [hplace t hm, placeOf_direct hd, place_of_le (by rw [hm.type]; exact ht) _ (by omega), ha hne]
  · have hj : bn - NDIRECT < NINDIRECT := by
      unfold MAXFILE at hbn
      omega
    rw [if_pos hj]
    refine (wp_bmapDirect h ht (le_refl _)).bind ?_
    rintro ind t ⟨ho, hm, ha⟩
    refine wp_ite (fun h0 => ?_) (fun hind0 => ?_)
    · rw [wp_pure]
      exact ⟨ho, hm, fun hne => absurd rfl hne⟩
    · have hind := ha hind0
      have htt : (t.itable ip).type ≠ .free := by rw [hm.type]; exact ht
      have hblock : ∀ u : Fs, Mapped ip s u → (u.itable ip).addrs NDIRECT = ind →
          blockOf (flush ip u) (s.itable ip).inum bn =
            indirectEntry (u.data ind) (bn - NDIRECT) := by
        intro u hu hui
        unfold blockOf refAt
        rw [hplace u hu, placeOf_indirect hd,
          place_entry (by rw [hu.type]; exact ht) _ hj (by rw [hui]; exact hind0), hui]
        rfl
      rw [wp_get_bind]
      apply wp_ite <;> intro he0
      · refine (wp_balloc sb t).bind ?_
        rintro b u (⟨rfl, rfl⟩ | ⟨hb, hu, rfl⟩)
        · rw [if_pos rfl, wp_pure]
          exact ⟨ho, hm, fun hne => absurd rfl hne⟩
        · apply wp_ite <;> intro hb0
          · exact absurd (ho.exact.low_le_of_unused hb hu) (by have := ho.exact.low_pos; omega)
          · rw [wp_modify_bind, wp_pure]
            obtain ⟨ho', hm'⟩ := mapped_takeEntry ho htt hj hind hind0 he0 hb hu
            refine ⟨ho', hm.trans hm', fun _ => ?_⟩
            refine (hblock _ (hm.trans hm') hind).trans ?_
            simp only [takeEntry, update_self, indirectEntry]
            apply getLE_putLE_of_lt
            have := h.bits
            omega
      · rw [wp_pure]
        exact ⟨ho, hm, fun _ => hblock t hm hind⟩

lemma wp_bmap_found (ht : (s.itable ip).type ≠ .free) (hbn : bn < MAXFILE)
    (hne : blockOf (flush ip s) (s.itable ip).inum bn ≠ 0) :
    Wp (bmap sb ip bn) (fun a t => a = blockOf (flush ip s) (s.itable ip).inum bn ∧ t = s) E s := by
  unfold blockOf refAt at *
  rw [flush_dinode_self] at *
  apply wp_ite <;> intro hd
  · rw [placeOf_direct hd, place_of_le ht _ (by omega)] at *
    unfold bmapDirect
    rw [wp_get_bind, if_neg hne, wp_pure]
    exact ⟨rfl, rfl⟩
  · have hj : bn - NDIRECT < NINDIRECT := by
      unfold MAXFILE at hbn
      omega
    have hind0 : (s.itable ip).addrs NDIRECT ≠ 0 := by
      intro h0
      apply hne
      rw [placeOf_indirect hd]
      unfold Dinode.place
      have h2 : ¬ NDIRECT + 1 + (bn - NDIRECT) ≤ NDIRECT := by omega
      simp [h0, h2]
    rw [placeOf_indirect hd, place_entry ht _ hj hind0, flush_data] at *
    rw [if_pos hj]
    unfold bmapDirect
    rw [wp_bind, wp_get_bind, if_neg hind0, wp_pure, if_neg hind0, wp_get_bind, if_neg hne, wp_pure]
    exact ⟨rfl, rfl⟩

end xv6.fs
