-- What `iappend` does to the image. The bytes on the disk are read as the
-- kernel's file system, and the inode in the memory of `mkfs` as one of the
-- inode table, so the kernel's laws about blocks and places apply to it.
import Xv6.Mkfs

open bytes ownership wp Function List

namespace xv6.mkfs

open fs

/-! ## Words and inodes in a block -/

variable {E : Exit → Prop} {a b fbn i j n off pos x : Nat} {s t : Fs}

lemma getLE_putWords_same (b : Bytes) (a n : Nat) (word : Nat → Nat) (hi : i < n)
    (hw : word i < 256 ^ 4) : getLE 4 (putWords b a n word) (a + 4 * i) = word i := by
  have hbytes : ∀ k < 4, putWords b a n word (a + 4 * i + k) = UInt8.ofNat (word i / 256 ^ k) := by
    intro k hk
    have h1 : a + 4 * i + k - a = 4 * i + k := by omega
    have h2 : (4 * i + k) / 4 = i := by omega
    have h3 : (4 * i + k) % 4 = k := by omega
    unfold putWords
    rw [if_pos (by omega), h1, h2, h3]
  rw [getLE_of_bytes hbytes, Nat.mod_eq_of_lt hw]

lemma getLE_putWords_of_disjoint {k : Nat} (b : Bytes) (word : Nat → Nat)
    (h : x + k ≤ a ∨ a + 4 * n ≤ x) : getLE k (putWords b a n word) x = getLE k b x := by
  apply getLE_congr
  intro y h1 h2
  unfold putWords
  rw [if_neg (by omega)]

/-- The inode has a place on the disk for each of its values. -/
structure Storable (d : Dinode) : Prop where
  major : short d.major = d.major
  minor : short d.minor = d.minor
  nlink : short d.nlink = d.nlink
  size : d.size < 256 ^ 4
  addrs : ∀ i, d.addrs i < 256 ^ 4
  outside : ∀ i, NDIRECT < i → d.addrs i = 0

lemma typeOf_typeNum (t : FileType) : typeOf (typeNum t) = t := by
  cases t <;> rfl

lemma short_ushort {x : Int} (h : short x = x) : short (ushort x : Nat) = x := by
  unfold short at *
  unfold ushort
  omega

lemma ushort_lt (x : Int) : ushort x < 256 ^ 2 := by
  unfold ushort
  omega

lemma getDinode_putDinode_same (b : Bytes) (a : Nat) {d : Dinode} (h : Storable d) :
    getDinode (putDinode b a d) a = d := by
  have htype : typeNum d.type < 256 ^ 2 := by
    cases d.type <;> decide
  have hlow : ∀ k x, x + k ≤ a + 12 → getLE k (putDinode b a d) x =
      getLE k (putLE 4 (putLE 2 (putLE 2 (putLE 2 (putLE 2 b a (typeNum d.type)) (a + 2)
        (ushort d.major)) (a + 4) (ushort d.minor)) (a + 6) (ushort d.nlink)) (a + 8)
        d.size) x := by
    intro k x hx
    exact getLE_putWords_of_disjoint _ _ (.inl hx)
  have haddrs : (getDinode (putDinode b a d) a).addrs = d.addrs := by
    funext i
    simp only [getDinode]
    split
    · exact getLE_putWords_same _ _ _ _ (by omega) (h.addrs i)
    · exact (h.outside i (by omega)).symm
  have hfields : typeOf (getLE 2 (putDinode b a d) a) = d.type ∧
      short (getLE 2 (putDinode b a d) (a + 2)) = d.major ∧
      short (getLE 2 (putDinode b a d) (a + 4)) = d.minor ∧
      short (getLE 2 (putDinode b a d) (a + 6)) = d.nlink ∧
      getLE 4 (putDinode b a d) (a + 8) = d.size := by
    rw [hlow 2 a (by omega), hlow 2 (a + 2) (by omega), hlow 2 (a + 4) (by omega),
      hlow 2 (a + 6) (by omega), hlow 4 (a + 8) (by omega)]
    simp (disch := omega) only [getLE_putLE_of_disjoint]
    rw [getLE_putLE_of_lt _ _ htype, getLE_putLE_of_lt _ _ (ushort_lt d.major),
      getLE_putLE_of_lt _ _ (ushort_lt d.minor), getLE_putLE_of_lt _ _ (ushort_lt d.nlink),
      getLE_putLE_of_lt _ _ h.size]
    exact ⟨typeOf_typeNum _, short_ushort h.major, short_ushort h.minor, short_ushort h.nlink, rfl⟩
  obtain ⟨h1, h2, h3, h4, h5⟩ := hfields
  cases d
  simp only [getDinode] at *
  rw [h1, h2, h3, h4, h5, haddrs]

lemma getDinode_congr {b b' : Bytes} (h : ∀ x, a ≤ x → x < a + DINODE → b x = b' x) :
    getDinode b a = getDinode b' a := by
  have hget : ∀ k x, a ≤ x → x + k ≤ a + DINODE → getLE k b x = getLE k b' x := by
    intro k x h1 h2
    exact getLE_congr fun y h3 h4 => h y (by omega) (by omega)
  have hsize : DINODE = 64 := rfl
  unfold getDinode
  rw [hget 2 a (by omega) (by omega), hget 2 (a + 2) (by omega) (by omega),
    hget 2 (a + 4) (by omega) (by omega), hget 2 (a + 6) (by omega) (by omega),
    hget 4 (a + 8) (by omega) (by omega)]
  congr 1
  funext i
  split
  · rename_i hi
    have : NDIRECT = 12 := rfl
    exact hget 4 _ (by omega) (by omega)
  · rfl

lemma putDinode_of_outside (b : Bytes) (d : Dinode) (h : x < a ∨ a + DINODE ≤ x) :
    putDinode b a d x = b x := by
  have hsize : DINODE = 64 := rfl
  have hn : NDIRECT = 12 := rfl
  unfold putDinode putWords
  rw [if_neg (by omega)]
  simp (disch := omega) only [putLE_of_outside]

lemma storable_getDinode (b : Bytes) (a : Nat) : Storable (getDinode b a) := by
  have hshort : ∀ x : Int, short (short x) = short x := by
    intro x
    unfold short
    omega
  refine ⟨hshort _, hshort _, hshort _, getLE_lt 4 _ _, ?_, ?_⟩
  · intro i
    simp only [getDinode]
    split
    · exact getLE_lt 4 _ _
    · decide
  · intro i hi
    simp only [getDinode]
    rw [if_neg (by omega)]

/-! ## The bitmap block -/

lemma bit_or_shift (x : UInt8) (i j : Fin 8) :
    (x ||| (1 <<< UInt8.ofNat i.val)).toNat.testBit j.val =
      (x.toNat.testBit j.val || decide (j = i)) := by
  have h : ∀ i j : Fin 8,
      ((1 : UInt8) <<< UInt8.ofNat i.val).toNat.testBit j.val = decide (j = i) := by
    decide
  rw [UInt8.toNat_or, Nat.testBit_or, h]

lemma marks_bit (used x : Nat) {k : Nat} (hk : k < 8) :
    (marks used x).toNat.testBit k = decide (8 * x + k < used) := by
  induction used with
  | zero => simp [marks]
  | succ i ih =>
    unfold marks
    by_cases hx : x = i / 8
    · subst hx
      have := bit_or_shift (marks i (i / 8)) ⟨i % 8, by omega⟩ ⟨k, hk⟩
      simp only at this
      rw [update_self, this, ih]
      have hmod := Nat.mod_add_div i 8
      simp only [Fin.mk.injEq]
      rw [← Bool.decide_or]
      apply decide_eq_decide.mpr
      omega
    · rw [update_of_ne hx, ih]
      apply decide_eq_decide.mpr
      omega

lemma bitAt_marks (img : Nat → Bytes) (used : Nat) (hb : b < BSIZE * 8) (start : Nat)
    (himg : img start = marks used) : bitAt start img b = decide (b < used) := by
  unfold bitAt
  rw [Nat.div_eq_of_lt hb, Nat.zero_add, himg, Nat.mod_eq_of_lt hb,
    marks_bit used (b / 8) (Nat.mod_lt b (by decide))]
  apply decide_eq_decide.mpr
  omega

/-! ## The image as the kernel's file system -/

/-- The inodes of an image. -/
def dinodes (img : Nat → Bytes) (i : Nat) : Dinode :=
  if i < NINODES then inodeAt sb.inodestart img i else freeDinode

def view (σ : Mk) : fs.Fs := fs.blank (fun b => b < σ.freeblock) (dinodes σ.img) σ.img

/-- The file system while `iappend` has inode `inum` in memory. -/
def loaded (inum : Nat) (din : Dinode) (σ : Mk) : fs.Fs :=
  fs.setSlot 0 { toDinode := din, inum, ref := 1, valid := true } (view σ)

def stored (inum : Nat) (din : Dinode) (σ : Mk) : fs.Fs := flush 0 (loaded inum din σ)

variable {σ σ' : Mk} {inum : Nat} {din din' : Dinode} {c : List UInt8}

@[simp] lemma loaded_slot (inum : Nat) (din : Dinode) (σ : Mk) :
    (loaded inum din σ).itable 0 = { toDinode := din, inum, ref := 1, valid := true } :=
  fs.setSlot_self ..

lemma IBLOCK_range {inum : Nat} (h : inum < NINODES) :
    sb.inodestart ≤ IBLOCK inum ∧ IBLOCK inum < sb.bmapstart := by
  have h1 : sb.inodestart = 32 := rfl
  have h2 : sb.bmapstart = 45 := rfl
  have h3 : IPB = 16 := rfl
  have h4 : NINODES = 200 := rfl
  unfold IBLOCK
  rw [h1, h2, h3]
  omega

lemma dinodes_congr {img img' : Nat → Bytes} (h : ∀ b < nmeta, img' b = img b) :
    dinodes img' = dinodes img := by
  funext i
  unfold dinodes
  split
  · rename_i hi
    have hb := (IBLOCK_range hi).2
    have hlt : IBLOCK i < nmeta := lt_trans hb (by decide)
    unfold inodeAt
    rw [h (i / IPB + sb.inodestart) hlt]
  · rfl

lemma dinodes_putDinode (img : Nat → Bytes) {inum : Nat} (hi : inum < NINODES) {d : Dinode}
    (hd : Storable d) :
    dinodes (update img (IBLOCK inum)
      (putDinode (img (IBLOCK inum)) (inum % IPB * DINODE) d)) =
        update (dinodes img) inum d := by
  funext i
  by_cases hii : i = inum
  · subst hii
    rw [update_self]
    unfold dinodes
    rw [if_pos hi]
    unfold inodeAt
    rw [show i / IPB + sb.inodestart = IBLOCK i from rfl, update_self]
    exact getDinode_putDinode_same _ _ hd
  · rw [update_of_ne hii]
    unfold dinodes
    split
    · unfold inodeAt
      by_cases hb : i / IPB + sb.inodestart = IBLOCK inum
      · rw [hb, update_self]
        apply getDinode_congr
        intro x h1 h2
        apply putDinode_of_outside
        have h3 : IPB = 16 := rfl
        have h4 : DINODE = 64 := rfl
        unfold IBLOCK at hb
        simp only [h3, h4] at hb h1 h2 ⊢
        omega
      · rw [update_of_ne hb]
    · rfl

/-! ## What one step of `iappend` does -/

/-- The image and the inode in memory make a file system without faults. -/
structure Sound (inum : Nat) (σ : Mk) (din : Dinode) : Prop where
  len : σ.len = FSSIZE
  low : nmeta ≤ σ.freeblock
  room : σ.freeblock ≤ FSSIZE
  zero : ∀ b, σ.freeblock ≤ b → σ.img b = fun _ => 0
  typed : din.type ≠ .free
  storable : Storable din
  owned : Owned rootSb (stored inum din σ)

lemma nmeta_eq : rootSb.nmeta = nmeta := rfl

lemma refAt_addr (inum : Nat) (σ : Mk) (ht : din.type ≠ .free) (h : pos ≤ NDIRECT) :
    refAt (stored inum din σ) (inum, pos) = din.addrs pos := by
  have hd : (stored inum din σ).dinode inum = din := by
    simp [stored, flush]
  unfold refAt
  rw [hd, place_of_le ht _ h]

lemma refAt_entry (inum : Nat) (σ : Mk) (ht : din.type ≠ .free) (hj : j < NINDIRECT)
    (hind : din.addrs NDIRECT ≠ 0) :
    refAt (stored inum din σ) (inum, NDIRECT + 1 + j) =
      indirectEntry (σ.img (din.addrs NDIRECT)) j := by
  have hd : (stored inum din σ).dinode inum = din := by
    simp [stored, flush]
  unfold refAt
  rw [hd, place_entry ht _ hj hind]
  rfl

/-- Place `pos` of the inode has a block now, and nothing else changed. -/
structure Placed (inum pos : Nat) (σ : Mk) (din : Dinode) (σ' : Mk) (din' : Dinode) : Prop where
  sound : Sound inum σ' din'
  mapped : Mapped 0 (loaded inum din σ) (loaded inum din' σ')
  got : refAt (stored inum din' σ') (inum, pos) ≠ 0
  others : ∀ q, q ≠ (inum, pos) → refAt (stored inum din' σ') q = refAt (stored inum din σ) q
  count : σ'.freeblock = σ.freeblock + if refAt (stored inum din σ) (inum, pos) = 0 then 1 else 0
  low : ∀ b < nmeta, σ'.img b = σ.img b
  freeinode : σ'.freeinode = σ.freeinode

lemma Placed.refl (h : Sound inum σ din)
    (hgot : refAt (stored inum din σ) (inum, pos) ≠ 0) : Placed inum pos σ din σ din :=
  ⟨h, Mapped.refl _ _, hgot, fun _ _ => rfl, by rw [if_neg hgot]; rfl, fun _ _ => rfl, rfl⟩

lemma loaded_unused (inum : Nat) (din : Dinode) (σ : Mk) :
    (loaded inum din σ).bitmap σ.freeblock = false := by
  simp [loaded, setSlot, view, blank]

lemma update_zero {img : Nat → Bytes} (h : img b = fun _ => 0) :
    (update img b fun _ => 0) = img := by
  rw [← h, update_eq_self]

lemma take_bits (n : Nat) :
    update (fun b => decide (b < n)) n true = fun b => decide (b < n + 1) := by
  funext b
  by_cases hb : b = n
  · subst hb
    simp
  · rw [update_of_ne hb]
    apply decide_eq_decide.mpr
    omega

lemma loaded_takeDirect (h : Sound inum σ din) (pos : Nat) :
    loaded inum { din with addrs := update din.addrs pos σ.freeblock }
      { σ with freeblock := σ.freeblock + 1 } =
        takeDirect 0 pos σ.freeblock (loaded inum din σ) := by
  have hz := update_zero (h.zero _ (le_refl _))
  simp only [takeDirect, loaded_slot]
  simp [loaded, setSlot, view, blank, hz, take_bits]

lemma loaded_takeEntry (h : Sound inum σ din) {ind j : Nat} (hind : nmeta ≤ ind) (len : Nat) :
    loaded inum din { σ with freeblock := σ.freeblock + 1, len := len,
                             img := update σ.img ind
                              (putLE 4 (σ.img ind) (4 * j) σ.freeblock) } =
      takeEntry ind j σ.freeblock (loaded inum din σ) := by
  have hz := update_zero (h.zero _ (le_refl _))
  have hd : dinodes (update σ.img ind (putLE 4 (σ.img ind) (4 * j) σ.freeblock)) =
      dinodes σ.img := by
    apply dinodes_congr
    intro b hb
    exact update_of_ne (by omega) ..
  simp [takeEntry, loaded, setSlot, view, blank, hz, take_bits, hd]

lemma loaded_setBlock (hx : nmeta ≤ x) (v : Bytes) (len : Nat) :
    loaded inum din { σ with img := update σ.img x v, len := len } =
      setBlock x v (loaded inum din σ) := by
  have hd : dinodes (update σ.img x v) = dinodes σ.img := by
    apply dinodes_congr
    intro b hb
    exact update_of_ne (by omega) ..
  simp [setBlock, loaded, setSlot, view, blank, hd]

lemma Storable.setAddr (h : Storable din) (hpos : pos ≤ NDIRECT)
    (hb : b < 256 ^ 4) : Storable { din with addrs := update din.addrs pos b } := by
  refine ⟨h.major, h.minor, h.nlink, h.size, ?_, ?_⟩
  · intro i
    by_cases hi : i = pos
    · subst hi
      simpa using hb
    · simpa [hi] using h.addrs i
  · intro i hi
    have hne : i ≠ pos := by omega
    simpa [hne] using h.outside i hi

lemma wp_takeAddr (h : Sound inum σ din) (hpos : pos ≤ NDIRECT) :
    Wp (takeAddr din pos) (fun din' σ' => din'.addrs pos = FSSIZE ∧ σ'.len = FSSIZE ∧
      σ.freeblock = FSSIZE ∧ din.addrs pos = 0 ∨ Placed inum pos σ din σ' din') E σ := by
  have href := refAt_addr inum σ h.typed hpos
  unfold takeAddr takeBlock
  apply wp_ite <;> intro h0
  · rw [wp_bind, wp_get_bind, wp_set_bind, wp_pure, wp_pure]
    by_cases hfull : σ.freeblock = FSSIZE
    · left
      exact ⟨by simp [hfull], h.len, hfull, h0⟩
    · right
      have hlt : σ.freeblock < rootSb.size := lt_of_le_of_ne h.room hfull
      have hslot : ((loaded inum din σ).itable 0).type ≠ .free := by
        simpa using h.typed
      have hempty : ((loaded inum din σ).itable 0).addrs pos = 0 := by
        simpa using h0
      obtain ⟨ho, hm⟩ := mapped_takeDirect h.owned hslot hpos hempty hlt (loaded_unused ..)
      have hrefs := refAt_takeDirect (h.owned.exact.ref_ne_of_unused hlt (loaded_unused inum din σ)) hslot hpos
        hempty
      rw [← loaded_takeDirect h pos] at ho hm hrefs
      have hlow := h.low
      have hpos' : (0 : Nat) < nmeta := by decide
      refine ⟨⟨h.len, by simp; omega, hlt, ?_, h.typed, ?_, ho⟩, hm, ?_, ?_, ?_, fun _ _ => rfl,
        rfl⟩
      · intro b hb
        exact h.zero b (Nat.le_of_succ_le hb)
      · apply h.storable.setAddr hpos
        have : rootSb.size = 2000 := rfl
        omega
      · unfold stored
        rw [hrefs, loaded_slot, update_self]
        omega
      · intro q hq
        unfold stored
        rw [hrefs, loaded_slot]
        exact update_of_ne hq ..
      · rw [href, if_pos h0]
  · rw [wp_pure]
    right
    exact Placed.refl h (by rw [href]; exact h0)

lemma wp_rsect {sec : Nat} {Q : Bytes → Mk → Prop}
    (hin : sec < σ.len → Q (σ.img sec) σ) (hout : σ.len ≤ sec → E (.die "read")) :
    Wp (rsect sec) Q E σ := by
  unfold rsect
  rw [wp_get_bind]
  apply wp_ite <;> intro hlt
  · rw [wp_pure]
    exact hin hlt
  · rw [wp_throw]
    exact hout (by omega)

@[simp] lemma wp_wsect (sec : Nat) (buf : Bytes) {Q : Unit → Mk → Prop} :
    Wp (wsect sec buf) Q E σ ↔ Q () { σ with img := update σ.img sec buf,
                                             len := max σ.len (sec + 1) } := wp_modify _

@[simp] lemma wp_wsect_bind {α : Type} (sec : Nat) (buf : Bytes)
    (m : Unit → M α) {Q : α → Mk → Prop} :
    Wp (wsect sec buf >>= m) Q E σ ↔
      Wp (m ()) Q E { σ with img := update σ.img sec buf, len := max σ.len (sec + 1) } :=
  wp_modify_bind _ m

lemma Sound.addr_range (h : Sound inum σ din) (hpos : pos ≤ NDIRECT)
    (h0 : din.addrs pos ≠ 0) : nmeta ≤ din.addrs pos ∧ din.addrs pos < FSSIZE := by
  have hr := h.owned.exact.range (inum, pos)
  rw [refAt_addr inum σ h.typed hpos] at hr
  exact hr h0

lemma Sound.ref_lt (h : Sound inum σ din) {q : Nat × Nat}
    (hq : refAt (stored inum din σ) q ≠ 0) : refAt (stored inum din σ) q < σ.freeblock := by
  have hused := h.owned.exact.used_of_ref hq
  simpa [stored, loaded, setSlot, view, blank] using hused

/-- The part of `iappendBlock` after the indirect block is there. -/
def iappendEntry (din : Dinode) (j : Nat) : M (Nat × Dinode) := do
  let indirect ← rsect (din.addrs NDIRECT)
  if indirectEntry indirect j = 0 then do
    let b ← takeBlock
    wsect (din.addrs NDIRECT) (putLE 4 indirect (4 * j) b)
    return (b, din)
  else
    return (indirectEntry indirect j, din)

lemma wp_iappendEntry (h : Sound inum σ din) (hj : j < NINDIRECT)
    (hind : din.addrs NDIRECT ≠ 0) :
    Wp (iappendEntry din j) (fun r σ' => r.1 = FSSIZE ∧ σ'.len = FSSIZE ∧ σ.freeblock = FSSIZE ∧
        refAt (stored inum din σ) (inum, NDIRECT + 1 + j) = 0 ∨
      r.2 = din ∧ Placed inum (NDIRECT + 1 + j) σ din σ' din ∧
        r.1 = refAt (stored inum din σ') (inum, NDIRECT + 1 + j)) E σ := by
  have href := refAt_entry inum σ h.typed hj hind
  obtain ⟨hlow, hhigh⟩ := h.addr_range (le_refl _) hind
  unfold iappendEntry takeBlock
  rw [wp_bind]
  apply wp_rsect
  · intro _
    apply wp_ite <;> intro h0
    · rw [wp_bind, wp_get_bind, wp_set_bind, wp_pure, wp_wsect_bind, wp_pure]
      have hlen : max σ.len (din.addrs NDIRECT + 1) = FSSIZE := by
        rw [h.len]
        omega
      by_cases hfull : σ.freeblock = FSSIZE
      · left
        exact ⟨hfull, hlen, hfull, by rw [href]; exact h0⟩
      · right
        have hlt : σ.freeblock < rootSb.size := lt_of_le_of_ne h.room hfull
        have hslot : ((loaded inum din σ).itable 0).type ≠ .free := by
          simpa using h.typed
        have hslot' : ((loaded inum din σ).itable 0).addrs NDIRECT = din.addrs NDIRECT := by
          simp
        obtain ⟨ho, hm⟩ := mapped_takeEntry h.owned hslot hj hslot' hind h0 hlt (loaded_unused ..)
        have hrefs := refAt_takeEntry (h.owned.exact.ref_ne_of_unused hlt (loaded_unused inum din σ))
          (lt_of_lt_of_le hlt h.owned.bits) hslot hj hslot' hind (h.owned.sole hslot hslot' hind)
        rw [← loaded_takeEntry h hlow (max σ.len (din.addrs NDIRECT + 1))] at ho hm hrefs
        rw [loaded_slot] at hrefs
        have hbig := h.low
        have hpos : (0 : Nat) < nmeta := by decide
        have hself := congrFun hrefs (inum, NDIRECT + 1 + j)
        rw [update_self] at hself
        refine ⟨rfl, ⟨⟨hlen, by simp; omega, hlt, ?_, h.typed, h.storable, ho⟩, hm, ?_, ?_, ?_, ?_,
          rfl⟩, hself.symm⟩
        · intro b hb
          have hb' : σ.freeblock ≤ b := Nat.le_of_succ_le hb
          have hne : b ≠ din.addrs NDIRECT := by
            rintro rfl
            have haddr := refAt_addr inum σ h.typed (le_refl NDIRECT)
            have hused := h.ref_lt (by rw [haddr]; exact hind)
            omega
          simp only [update_of_ne hne]
          exact h.zero b hb'
        · rw [show refAt (stored inum din _) (inum, NDIRECT + 1 + j) = σ.freeblock from hself]
          omega
        · intro q hq
          unfold stored
          rw [hrefs]
          exact update_of_ne hq ..
        · rw [href, if_pos h0]
        · intro b hb
          exact update_of_ne (by omega) ..
    · rw [wp_pure]
      right
      exact ⟨rfl, Placed.refl h (by rw [href]; exact h0), href.symm⟩
  · intro hout
    rw [h.len] at hout
    omega

/-- The blocks that block `fbn` of the file still needs. -/
def missing (inum fbn : Nat) (s : Fs) : Nat :=
  (if refAt s (inum, placeOf fbn) = 0 then 1 else 0) +
    if NDIRECT ≤ fbn ∧ refAt s (inum, NDIRECT) = 0 then 1 else 0

/-- Block `fbn` of the file is there. -/
structure Found (inum fbn : Nat) (σ : Mk) (din : Dinode) (σ' : Mk) (din' : Dinode) : Prop where
  sound : Sound inum σ' din'
  mapped : Mapped 0 (loaded inum din σ) (loaded inum din' σ')
  got : refAt (stored inum din' σ') (inum, placeOf fbn) ≠ 0
  others : ∀ q, q ≠ (inum, placeOf fbn) → q ≠ (inum, NDIRECT) →
    refAt (stored inum din' σ') q = refAt (stored inum din σ) q
  ind : refAt (stored inum din' σ') (inum, NDIRECT) ≠ 0 ↔
    refAt (stored inum din σ) (inum, NDIRECT) ≠ 0 ∨ NDIRECT ≤ fbn
  count : σ'.freeblock = σ.freeblock + missing inum fbn (stored inum din σ)
  low : ∀ b < nmeta, σ'.img b = σ.img b
  freeinode : σ'.freeinode = σ.freeinode

lemma Placed.found_direct (hd : fbn < NDIRECT)
    (h : Placed inum fbn σ din σ' din') : Found inum fbn σ din σ' din' := by
  have hplace := placeOf_direct hd
  have hind : (inum, NDIRECT) ≠ (inum, fbn) := by
    simp
    omega
  refine ⟨h.sound, h.mapped, by rw [hplace]; exact h.got, ?_, ?_, ?_, h.low, h.freeinode⟩
  · intro q hq _
    rw [hplace] at hq
    exact h.others q hq
  · rw [h.others _ hind]
    constructor
    · exact .inl
    · rintro (hne | hle)
      · exact hne
      · omega
  · unfold missing
    rw [hplace, if_neg (show ¬ (NDIRECT ≤ fbn ∧ _) by omega)]
    exact h.count

lemma Placed.found_indirect {σ₁ : Mk} {din₁ : Dinode} (hd : ¬ fbn < NDIRECT)
    (h : Placed inum NDIRECT σ din σ₁ din₁)
    (h' : Placed inum (NDIRECT + 1 + (fbn - NDIRECT)) σ₁ din₁ σ' din') :
    Found inum fbn σ din σ' din' := by
  have hplace := placeOf_indirect hd
  have hne : (inum, NDIRECT + 1 + (fbn - NDIRECT)) ≠ (inum, NDIRECT) := by
    simp
    omega
  refine ⟨h'.sound, h.mapped.trans h'.mapped, by rw [hplace]; exact h'.got, ?_, ?_, ?_, ?_, ?_⟩
  · intro q hq hq'
    rw [hplace] at hq
    rw [h'.others q hq, h.others q hq']
  · rw [h'.others _ hne.symm]
    exact iff_of_true h.got (.inr (by omega))
  · unfold missing
    rw [h'.count, h.count, hplace, h.others _ hne]
    have hle : NDIRECT ≤ fbn := by omega
    simp only [hle, true_and]
    omega
  · intro b hb
    rw [h'.low b hb, h.low b hb]
  · rw [h'.freeinode, h.freeinode]

lemma wp_iappendBlock (h : Sound inum σ din) (hbn : fbn < MAXFILE) :
    Wp (iappendBlock din fbn) (fun r σ' =>
      r.1 = FSSIZE ∧ σ'.len = FSSIZE ∧
        FSSIZE < σ.freeblock + missing inum fbn (stored inum din σ) ∨
      Found inum fbn σ din σ' r.2 ∧ r.1 = refAt (stored inum r.2 σ') (inum, placeOf fbn))
      (fun _ => FSSIZE < σ.freeblock + missing inum fbn (stored inum din σ)) σ := by
  apply wp_ite <;> intro hd
  · refine (wp_takeAddr h (by omega)).bind ?_
    rintro din' σ' (⟨h1, h2, h3, h4⟩ | hp)
    · rw [wp_pure]
      left
      refine ⟨h1, h2, ?_⟩
      unfold missing
      rw [placeOf_direct hd, refAt_addr inum σ h.typed (by omega), if_pos h4]
      omega
    · rw [wp_pure]
      right
      refine ⟨hp.found_direct hd, ?_⟩
      rw [placeOf_direct hd, refAt_addr inum σ' hp.sound.typed (by omega)]
  · have hj : fbn - NDIRECT < NINDIRECT := by
      unfold MAXFILE at hbn
      omega
    have hle : NDIRECT ≤ fbn := by omega
    refine (wp_takeAddr h (le_refl _)).bind ?_
    rintro din' σ' (⟨h1, h2, h3, h4⟩ | hp)
    · have hmiss : FSSIZE < σ.freeblock + missing inum fbn (stored inum din σ) := by
        have hboth : NDIRECT ≤ fbn ∧ din.addrs NDIRECT = 0 := ⟨hle, h4⟩
        unfold missing
        rw [refAt_addr inum σ h.typed (le_refl _), if_pos hboth]
        omega
      rw [wp_bind]
      apply wp_rsect
      · intro hlt
        rw [h1, h2] at hlt
        omega
      · intro _
        exact hmiss
    · have hind : din'.addrs NDIRECT ≠ 0 := by
        have := hp.got
        rwa [refAt_addr inum σ' hp.sound.typed (le_refl _)] at this
      have hcount := hp.count
      refine (wp_iappendEntry hp.sound hj hind).imp ?_
      rintro r σ'' (⟨h1, h2, h3, h4⟩ | ⟨h1, h2, h3⟩)
      · left
        refine ⟨h1, h2, ?_⟩
        have hne : (inum, NDIRECT + 1 + (fbn - NDIRECT)) ≠ (inum, NDIRECT) := by
          simp
          omega
        rw [hp.others _ hne, ← placeOf_indirect hd] at h4
        unfold missing
        rw [if_pos h4]
        simp only [hle, true_and]
        omega
      · right
        rw [h1, placeOf_indirect hd]
        exact ⟨hp.found_indirect hd h2, h3⟩

/-! ## The loop of `iappend` -/

/-- File `i` has the bytes `c`: just the blocks that they need, with the bytes in them. -/
structure Holds (s : Fs) (i : Nat) (c : List UInt8) : Prop where
  max : c.length ≤ MAXFILE * BSIZE
  mapped : ∀ bn, blockOf s i bn ≠ 0 ↔ bn * BSIZE < c.length
  indirect : refAt s (i, NDIRECT) ≠ 0 ↔ NDIRECT * BSIZE < c.length
  bytes : bytesOf s i 0 c.length = c

def blocksFor (n : Nat) : Nat :=
  (n + (BSIZE - 1)) / BSIZE + if NDIRECT * BSIZE < n then 1 else 0

/-- The files other than `inum` are the same. -/
structure Beside (inum : Nat) (s t : Fs) : Prop where
  refs : ∀ q, q.1 ≠ inum → refAt t q = refAt s q
  data : ∀ q, q.1 ≠ inum → q.2 ≠ NDIRECT → refAt s q ≠ 0 → t.data (refAt s q) = s.data (refAt s q)

lemma Beside.refl (inum : Nat) (s : Fs) : Beside inum s s :=
  ⟨fun _ _ => rfl, fun _ _ _ _ => rfl⟩

lemma Beside.trans {s t u : Fs} (h : Beside inum s t) (h' : Beside inum t u) :
    Beside inum s u := by
  refine ⟨fun q hq => (h'.refs q hq).trans (h.refs q hq), ?_⟩
  intro q hq hn h0
  have h1 := h.refs q hq
  have h2 := h'.data q hq hn (by rw [h1]; exact h0)
  rw [h1] at h2
  rw [h2, h.data q hq hn h0]

lemma bytesOf_congr
    (h : ∀ x, off ≤ x → x < off + n → byteAt t i x = byteAt s i x) :
    bytesOf t i off n = bytesOf s i off n := by
  apply map_congr_left
  intro j hj
  have := mem_range.mp hj
  exact h _ (by omega) (by omega)

lemma Holds.congr (h : Holds s i c)
    (hrefs : ∀ pos, refAt t (i, pos) = refAt s (i, pos))
    (hdata : ∀ bn, blockOf s i bn ≠ 0 → t.data (blockOf s i bn) = s.data (blockOf s i bn)) :
    Holds t i c := by
  have hblock : ∀ bn, blockOf t i bn = blockOf s i bn := fun bn => hrefs _
  refine ⟨h.max, ?_, ?_, ?_⟩
  · intro bn
    rw [hblock]
    exact h.mapped bn
  · rw [hrefs]
    exact h.indirect
  · refine Eq.trans ?_ h.bytes
    apply bytesOf_congr
    intro x _ hx
    have hmapped : blockOf s i (x / BSIZE) ≠ 0 := by
      apply (h.mapped _).mpr
      have := Nat.div_mul_le_self x BSIZE
      omega
    unfold byteAt
    rw [hblock, hdata _ hmapped]

lemma Holds.beside (h : Holds s i c) (hi : i ≠ inum)
    (hb : Beside inum s t) : Holds t i c :=
  h.congr (fun _ => hb.refs _ hi) (fun bn hbn => hb.data (i, placeOf bn) hi (placeOf_ne bn) hbn)

lemma Holds.missing_eq (h : Holds s inum c) :
    blocksFor (c.length + 1) = blocksFor c.length + missing inum (c.length / BSIZE) s := by
  have hdata : refAt s (inum, placeOf (c.length / BSIZE)) = 0 ↔
      ¬ c.length / BSIZE * BSIZE < c.length := by
    rw [← h.mapped, not_not]
    rfl
  have hind : refAt s (inum, NDIRECT) = 0 ↔ ¬ NDIRECT * BSIZE < c.length := by
    rw [← h.indirect, not_not]
  have hb : BSIZE = 1024 := rfl
  have hn : NDIRECT = 12 := rfl
  unfold missing blocksFor
  simp only [hdata, hind]
  rw [hb, hn]
  split_ifs <;> omega

lemma blocksFor_mono {m n : Nat} (h : m ≤ n) : blocksFor m ≤ blocksFor n := by
  have hb : BSIZE = 1024 := rfl
  have hn : NDIRECT = 12 := rfl
  unfold blocksFor
  rw [hb, hn]
  split_ifs <;> omega

lemma blocksFor_within (hn : 0 < n) (h : off % BSIZE + n ≤ BSIZE) :
    blocksFor (off + n) = blocksFor (off + 1) := by
  have hb : BSIZE = 1024 := rfl
  have hd : NDIRECT = 12 := rfl
  unfold blocksFor
  rw [hb] at h
  rw [hb, hd]
  split_ifs <;> omega

lemma Found.beside (h : Found inum fbn σ din σ' din') :
    Beside inum (stored inum din σ) (stored inum din' σ') := by
  refine ⟨?_, fun q _ hn h0 => h.mapped.data q hn h0⟩
  intro q hq
  apply h.others
  · rintro rfl
    exact hq rfl
  · rintro rfl
    exact hq rfl

/-- The image after block `x` is written. -/
def written (x : Nat) (v : Bytes) (σ : Mk) : Mk :=
  { σ with img := update σ.img x v, len := max σ.len (x + 1) }

lemma stored_written (inum : Nat) (din : Dinode) (σ : Mk) (hx : nmeta ≤ x)
    (v : Bytes) :
    stored inum din (written x v σ) = flush 0 (setBlock x v (loaded inum din σ)) :=
  congrArg (flush 0) (loaded_setBlock hx v _)

lemma Sound.write (h : Sound inum σ din) {pos : Nat} (hpos : pos ≠ NDIRECT)
    (h0 : refAt (stored inum din σ) (inum, pos) ≠ 0) (v : Bytes) :
    Sound inum (written (refAt (stored inum din σ) (inum, pos)) v σ) din ∧
      refAt (stored inum din (written (refAt (stored inum din σ) (inum, pos)) v σ)) =
        refAt (stored inum din σ) ∧
      Beside inum (stored inum din σ)
        (stored inum din (written (refAt (stored inum din σ) (inum, pos)) v σ)) := by
  have hlt := h.ref_lt h0
  obtain ⟨hlow, hhigh⟩ := h.owned.exact.range _ h0
  rw [nmeta_eq] at hlow
  have hstored := stored_written inum din σ hlow v
  have hrefs := refAt_setBlock (p := (inum, pos)) hpos (h.owned.only h0) v
  have howned := owned_setBlock h.owned hpos h0 v
  refine ⟨⟨?_, h.low, h.room, ?_, h.typed, h.storable, ?_⟩, ?_, ?_, ?_⟩
  · have : rootSb.size = FSSIZE := rfl
    have := h.len
    simp only [written]
    omega
  · intro b hb
    have hne : b ≠ refAt (stored inum din σ) (inum, pos) := by
      simp only [written] at hb
      omega
    simp only [written, update_of_ne hne]
    exact h.zero b hb
  · rw [hstored]
    exact howned
  · rw [hstored]
    exact hrefs
  · intro q _
    rw [hstored]
    exact congrFun hrefs q
  · intro q hq _ hq0
    rw [hstored]
    apply update_of_ne
    intro heq
    have := h.owned.exact.inj q _ hq0 heq
    exact hq (by rw [this])

/-- What one round of the loop writes into the block of the next byte. -/
def appended (buf : Bytes) (off : Nat) (p : List UInt8) (n1 : Nat) : Bytes :=
  copy buf (off - off / BSIZE * BSIZE) (p.getD · 0) 0 n1

lemma appended_before (buf : Bytes) {off y : Nat} (p : List UInt8) (n1 : Nat)
    (hy : y < off % BSIZE) : appended buf off p n1 y = buf y := by
  apply copy_of_outside
  left
  have := Nat.div_add_mod off BSIZE
  rw [Nat.mul_comm] at this
  omega

lemma appended_at (buf : Bytes) (off : Nat) (p : List UInt8) {n1 j : Nat} (hj : j < n1) :
    appended buf off p n1 (off % BSIZE + j) = p.getD j 0 := by
  have := Nat.div_add_mod off BSIZE
  rw [Nat.mul_comm] at this
  unfold appended copy
  rw [if_pos (by omega)]
  congr 1
  omega

lemma map_getD_range (p : List UInt8) (h : n ≤ p.length) :
    ((List.range n).map fun j => p.getD j 0) = p.take n := by
  apply ext_getElem
  · simp [h]
  · intro j h1 h2
    have hj : j < p.length := by
      simp at h1
      omega
    simp [getD_eq_getElem?_getD, getElem?_eq_getElem hj]

/-- The image after a round of the loop writes `n1` bytes. -/
def round (inum off : Nat) (p : List UInt8) (n1 : Nat) (din : Dinode) (σ : Mk) : Mk :=
  let x := refAt (stored inum din σ) (inum, placeOf (off / BSIZE))
  written x (appended (σ.img x) off p n1) σ

lemma Found.wrote (h : Found inum (off / BSIZE) σ din σ' din') (p : List UInt8)
    (n1 : Nat) : Sound inum (round inum off p n1 din' σ') din' ∧
      refAt (stored inum din' (round inum off p n1 din' σ')) = refAt (stored inum din' σ') ∧
      Beside inum (stored inum din' σ') (stored inum din' (round inum off p n1 din' σ')) :=
  h.sound.write (placeOf_ne (off / BSIZE)) h.got _

section
variable {p : List UInt8} {n1 : Nat}

lemma byteAt_before (h : Holds (stored inum din σ) inum c)
    (hf : Found inum (c.length / BSIZE) σ din σ' din') {x : Nat} (hx : x < c.length) :
    byteAt (stored inum din' (round inum c.length p n1 din' σ')) inum x =
      byteAt (stored inum din σ) inum x := by
  have hmapped : blockOf (stored inum din σ) inum (x / BSIZE) ≠ 0 := by
    apply (h.mapped _).mpr
    have := Nat.div_mul_le_self x BSIZE
    omega
  obtain ⟨hs, hrefs, _⟩ := hf.wrote p n1
  have hsame : refAt (stored inum din' σ') (inum, placeOf (x / BSIZE)) =
      refAt (stored inum din σ) (inum, placeOf (x / BSIZE)) := hf.mapped.refs _ hmapped
  have hold : σ'.img (refAt (stored inum din σ) (inum, placeOf (x / BSIZE))) =
      σ.img (refAt (stored inum din σ) (inum, placeOf (x / BSIZE))) :=
    hf.mapped.data _ (placeOf_ne _) hmapped
  unfold byteAt blockOf
  rw [hrefs, hsame]
  show update σ'.img _ _ _ (x % BSIZE) = σ.img _ (x % BSIZE)
  by_cases hbn : x / BSIZE = c.length / BSIZE
  · rw [hbn] at hsame hold ⊢
    rw [hsame, update_self, hold]
    apply appended_before
    rw [BSIZE_eq] at *
    omega
  · rw [update_of_ne, hold]
    rw [← hsame]
    intro heq
    have hpair := hf.sound.owned.exact.inj _ _ (by rw [hsame]; exact hmapped) heq
    exact hbn (placeOf_inj (Prod.mk.inj hpair).2)

lemma byteAt_appended (hf : Found inum (c.length / BSIZE) σ din σ' din') {j : Nat} (hj : j < n1)
    (hfits : c.length % BSIZE + n1 ≤ BSIZE) :
    byteAt (stored inum din' (round inum c.length p n1 din' σ')) inum (c.length + j) =
      p.getD j 0 := by
  obtain ⟨hs, hrefs, _⟩ := hf.wrote p n1
  obtain ⟨h1, h2⟩ := div_add_of_fits (show c.length % BSIZE + j < BSIZE by omega)
  unfold byteAt blockOf
  rw [hrefs, h1, h2]
  show update σ'.img _ _ _ _ = _
  rw [update_self]
  exact appended_at _ _ p hj

lemma Found.holds (h : Holds (stored inum din σ) inum c)
    (hf : Found inum (c.length / BSIZE) σ din σ' din') (h0 : 0 < n1) (hp : n1 ≤ p.length)
    (hfits : c.length % BSIZE + n1 ≤ BSIZE) (hmax : c.length + n1 ≤ MAXFILE * BSIZE) :
    Holds (stored inum din' (round inum c.length p n1 din' σ')) inum (c ++ p.take n1) := by
  obtain ⟨hs, hrefs, _⟩ := hf.wrote p n1
  have hlen : (c ++ p.take n1).length = c.length + n1 := by
    simp
    omega
  refine ⟨by rw [hlen]; exact hmax, ?_, ?_, ?_⟩
  · intro bn
    rw [hlen]
    unfold blockOf
    rw [hrefs]
    by_cases hbn : bn = c.length / BSIZE
    · subst hbn
      refine iff_of_true hf.got ?_
      have := Nat.div_mul_le_self c.length BSIZE
      omega
    · have hne : (inum, placeOf bn) ≠ (inum, placeOf (c.length / BSIZE)) := by
        intro heq
        exact hbn (placeOf_inj (Prod.mk.inj heq).2)
      have hne' : (inum, placeOf bn) ≠ (inum, NDIRECT) := by
        intro heq
        exact placeOf_ne bn (Prod.mk.inj heq).2
      rw [hf.others _ hne hne']
      refine (h.mapped bn).trans ?_
      rw [BSIZE_eq] at *
      omega
  · rw [hlen, hrefs, hf.ind, h.indirect]
    rw [BSIZE_eq] at *
    omega
  · rw [hlen, bytesOf_add]
    congr 1
    · rw [bytesOf_congr (fun x _ hx => byteAt_before h hf (by omega)), h.bytes]
    · rw [← map_getD_range p hp]
      apply map_congr_left
      intro j hj
      rw [Nat.zero_add]
      exact byteAt_appended hf (mem_range.mp hj) hfits

end

/-- The bytes fit the file and the blocks that are left. -/
def Fits (σ : Mk) (off n : Nat) : Prop :=
  off + n ≤ MAXFILE * BSIZE ∧ σ.freeblock + blocksFor (off + n) ≤ FSSIZE + blocksFor off

/-- The bytes `c` became `d` at the end of the file of `inum`. -/
structure Grew (inum : Nat) (σ : Mk) (din : Dinode) (c : List UInt8) (σ' : Mk) (din' : Dinode)
    (d : List UInt8) : Prop where
  sound : Sound inum σ' din'
  holds : Holds (stored inum din' σ') inum d
  beside : Beside inum (stored inum din σ) (stored inum din' σ')
  count : σ'.freeblock + blocksFor c.length = σ.freeblock + blocksFor d.length
  same : din' = { din with addrs := din'.addrs }
  low : ∀ b < nmeta, σ'.img b = σ.img b
  freeinode : σ'.freeinode = σ.freeinode

lemma Grew.trans {σ₁ : Mk} {din₁ : Dinode} {d e : List UInt8} (h : Grew inum σ din c σ₁ din₁ d)
    (h' : Grew inum σ₁ din₁ d σ' din' e) : Grew inum σ din c σ' din' e := by
  have h1 := h.count
  have h2 := h'.count
  refine ⟨h'.sound, h'.holds, h.beside.trans h'.beside, by omega, ?_, ?_, ?_⟩
  · rw [h'.same, h.same]
  · intro b hb
    rw [h'.low b hb, h.low b hb]
  · rw [h'.freeinode, h.freeinode]

lemma Found.grew {p : List UInt8} {n1 : Nat} (h : Holds (stored inum din σ) inum c)
    (hf : Found inum (c.length / BSIZE) σ din σ' din') (h0 : 0 < n1) (hp : n1 ≤ p.length)
    (hfits : c.length % BSIZE + n1 ≤ BSIZE) (hmax : c.length + n1 ≤ MAXFILE * BSIZE) :
    Grew inum σ din c (round inum c.length p n1 din' σ') din' (c ++ p.take n1) := by
  obtain ⟨hs, _, hb⟩ := hf.wrote p n1
  refine ⟨hs, hf.holds h h0 hp hfits hmax, hf.beside.trans hb, ?_, ?_, ?_, hf.freeinode⟩
  · have hlen : (c ++ p.take n1).length = c.length + n1 := by
      simp
      omega
    have hcount := hf.count
    rw [hlen, blocksFor_within h0 hfits, h.missing_eq]
    simp only [round, written]
    omega
  · have hself := congrArg Inode.toDinode hf.mapped.self
    simpa using hself
  · intro b hb
    have hr := (hf.sound.owned.exact.range _ hf.got).1
    rw [nmeta_eq] at hr
    simp only [round, written]
    rw [update_of_ne (by omega), hf.low b hb]

lemma wp_iappendLoop (h : Sound inum σ din) (hc : Holds (stored inum din σ) inum c) (fuel : Nat)
    (p : List UInt8) (hfuel : p.length ≤ fuel) :
    Wp (iappendLoop fuel din c.length p) (fun r σ' => r.2 = c.length + p.length ∧
      Grew inum σ din c σ' r.1 (c ++ p)) (fun _ => ¬ Fits σ c.length p.length) σ := by
  -- the induction is on the rounds; the file grows by the bytes of the round
  induction fuel generalizing σ din c p with
  | zero =>
    have hp : p = [] := length_eq_zero_iff.mp (by omega)
    subst hp
    simp only [iappendLoop, wp_pure, append_nil, length_nil, Nat.add_zero, true_and]
    exact ⟨h, hc, Beside.refl _ _, rfl, rfl, fun _ _ => rfl, rfl⟩
  | succ fuel ih =>
    apply wp_ite <;> intro hp
    · apply wp_ite <;> intro hbn
      · have hmod := Nat.mod_lt c.length (show 0 < BSIZE by decide)
        have hdiv := Nat.div_add_mod c.length BSIZE
        have hroom : (c.length / BSIZE + 1) * BSIZE - c.length = BSIZE - c.length % BSIZE := by
          rw [BSIZE_eq] at *
          omega
        generalize hn1 : min p.length ((c.length / BSIZE + 1) * BSIZE - c.length) = n1
        rw [hroom] at hn1
        have hmiss := hc.missing_eq
        have hfull : FSSIZE < σ.freeblock + missing inum (c.length / BSIZE) (stored inum din σ) →
            ¬ Fits σ c.length p.length := by
          rintro hlt ⟨_, hfit⟩
          have := blocksFor_mono (show c.length + 1 ≤ c.length + p.length by omega)
          omega
        have hmax : c.length + n1 ≤ MAXFILE * BSIZE := by
          rw [BSIZE_eq] at *
          omega
        refine ((wp_iappendBlock h hbn).errors fun _ => hfull).bind ?_
        rintro ⟨x, din'⟩ σ' (⟨h1, h2, h3⟩ | ⟨hf, hx⟩)
        · dsimp only at h1
          rw [wp_bind]
          apply wp_rsect
          · intro hlt
            rw [h1, h2] at hlt
            omega
          · intro _
            exact hfull h3
        · dsimp only at hf hx
          subst hx
          have hgrew := hf.grew hc (by omega) (by omega : n1 ≤ p.length) (by omega) hmax
          rw [wp_bind]
          apply wp_rsect
          · intro _
            rw [wp_wsect_bind]
            have hlen : (c ++ p.take n1).length = c.length + n1 := by
              simp
              omega
            have hnext := ih hgrew.sound hgrew.holds (p.drop n1) (by simp; omega)
            rw [hlen] at hnext
            refine (hnext.imp ?_).errors ?_
            · rintro r σ'' ⟨hr, hg⟩
              rw [append_assoc, take_append_drop] at hg
              refine ⟨?_, hgrew.trans hg⟩
              rw [hr, length_drop]
              omega
            · intro _ hno hfits
              apply hno
              have hcount := hgrew.count
              rw [hlen] at hcount
              obtain ⟨hf1, hf2⟩ := hfits
              have hsum : c.length + n1 + (p.drop n1).length = c.length + p.length := by
                rw [length_drop]
                omega
              refine ⟨by rw [hsum]; exact hf1, ?_⟩
              rw [hsum]
              omega
          · intro hout
            have hr := (hf.sound.owned.exact.range _ hf.got).2
            have hsize : rootSb.size = FSSIZE := rfl
            rw [hf.sound.len] at hout
            omega
      · rw [wp_throw]
        rintro ⟨hfit, _⟩
        rw [BSIZE_eq] at *
        omega
    · have hp0 : p = [] := length_eq_zero_iff.mp (by omega)
      subst hp0
      simp only [wp_pure, append_nil, length_nil, Nat.add_zero, true_and]
      exact ⟨h, hc, Beside.refl _ _, rfl, rfl, fun _ _ => rfl, rfl⟩

end xv6.mkfs
