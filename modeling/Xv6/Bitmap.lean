-- `balloc` and `bfree` with the bytes of the bitmap: the two loops over the
-- blocks of the bitmap and their bits, and the place of a block's bit.
import Xv6.FsLog
import Xv6.Lib.Cells

open bytes cells

namespace xv6.bitmap

open fslog

abbrev Disk := Nat → Bytes

variable {sb : Geometry} {disk : Disk} {b bi c k i j : Nat}

def BBLOCK (b : Nat) (sb : Geometry) : Nat := (b / BPB + sb.bmapstart) % 2 ^ 32

def mask (bi : Nat) : UInt8 := UInt8.ofNat (1 <<< (bi % 8))

def bzero (disk : Disk) (bno : Nat) : Disk := put disk bno fun _ => 0

def setByte (disk : Disk) (k i : Nat) (x : UInt8) : Disk := put disk k (put (disk k) i x)

/-- The inner loop of `balloc`, from bit `bi` on. -/
def ballocBlock (sb : Geometry) (disk : Disk) (b bi : Nat) : Option (Nat × Disk) :=
  if bi < BPB ∧ b + bi < sb.size then
    let data := disk (BBLOCK b sb)
    if data (bi / 8) &&& mask bi = 0 then
      some (b + bi, bzero (setByte disk (BBLOCK b sb) (bi / 8) (data (bi / 8) ||| mask bi)) (b + bi))
    else ballocBlock sb disk b (bi + 1)
  else none
termination_by BPB - bi

def ballocLoop (sb : Geometry) (disk : Disk) (b : Nat) : Nat × Disk :=
  if b < sb.size then
    match ballocBlock sb disk b 0 with
    | some r => r
    | none => ballocLoop sb disk (b + BPB)
  else (0, disk)
termination_by sb.size - b
decreasing_by
  unfold BPB BSIZE
  omega

def balloc (sb : Geometry) (disk : Disk) : Nat × Disk := ballocLoop sb disk 0

def bfree (sb : Geometry) (disk : Disk) (b : Nat) : Except Stop Disk :=
  let data := disk (BBLOCK b sb)
  let bi := b % BPB
  if data (bi / 8) &&& mask bi = 0 then .error (.panic "freeing free block")
  else .ok (setByte disk (BBLOCK b sb) (bi / 8) (data (bi / 8) &&& ~~~ mask bi))

/-! ## Bits -/

def bit (disk : Disk) (k i j : Nat) : Bool := (disk k i).toBitVec.getLsbD j

/-- The bit of block `b`. -/
def marked (sb : Geometry) (disk : Disk) (b : Nat) : Bool :=
  bit disk (BBLOCK b sb) (b % BPB / 8) (b % BPB % 8)

/-- The place of the bit of block `b`. -/
def IsBit (sb : Geometry) (b k i j : Nat) : Prop :=
  k = BBLOCK b sb ∧ i = b % BPB / 8 ∧ j = b % BPB % 8

instance : Decidable (IsBit sb b k i j) := inferInstanceAs (Decidable (_ ∧ _ ∧ _))

lemma getLsbD_mask : (mask bi).toBitVec.getLsbD j = decide (j = bi % 8) := by
  have h8 : bi % 8 < 8 := Nat.mod_lt _ (by decide)
  have hone : (1 <<< (bi % 8) : Nat) = 2 ^ (bi % 8) := by rw [Nat.shiftLeft_eq, Nat.one_mul]
  simp only [mask, UInt8.toBitVec_ofNat', BitVec.getLsbD_ofNat, hone, Nat.testBit_two_pow]
  grind

lemma and_mask_eq_zero (x : UInt8) :
    x &&& mask bi = 0 ↔ x.toBitVec.getLsbD (bi % 8) = false := by
  rw [← UInt8.toBitVec_inj]
  constructor
  · intro h
    have := congrArg (BitVec.getLsbD · (bi % 8)) h
    simpa [getLsbD_mask] using this
  · intro h
    apply BitVec.eq_of_getLsbD_eq
    intro j _
    simp only [UInt8.toBitVec_and, BitVec.getLsbD_and, getLsbD_mask]
    by_cases hj : j = bi % 8
    · simp [hj, h]
    · simp [hj]

lemma bit_setByte {x : UInt8} : bit (setByte disk k i x) c b j =
    if c = k ∧ b = i then x.toBitVec.getLsbD j else bit disk c b j := by
  unfold bit setByte
  by_cases hc : c = k
  · by_cases hb : b = i
    · simp [hc, hb]
    · simp [hc, hb]
  · simp [hc]

lemma marked_eq_false (sb : Geometry) (disk : Disk) (b : Nat) : marked sb disk b = false ↔
    disk (BBLOCK b sb) (b % BPB / 8) &&& mask (b % BPB) = 0 :=
  (and_mask_eq_zero _).symm

/-! ## The search -/

/-- The disk after `balloc` finds block `b`. -/
def taken (sb : Geometry) (disk : Disk) (b : Nat) : Disk :=
  bzero (setByte disk (BBLOCK b sb) (b % BPB / 8)
    (disk (BBLOCK b sb) (b % BPB / 8) ||| mask (b % BPB))) b

/-- The blocks from `lo` on and before `hi` are marked. -/
def Full (sb : Geometry) (disk : Disk) (lo hi : Nat) : Prop :=
  ∀ b, lo ≤ b → b < hi → b < sb.size → marked sb disk b = true

/-- Block `b` is the first from `lo` on that is not marked. -/
def First (sb : Geometry) (disk : Disk) (lo b : Nat) : Prop :=
  lo ≤ b ∧ b < sb.size ∧ marked sb disk b = false ∧ Full sb disk lo b

lemma Full.trans {lo mid hi : Nat} (h : Full sb disk lo mid) (h' : Full sb disk mid hi) :
    Full sb disk lo hi := by
  intro c hlo hhi hsize
  by_cases hc : c < mid
  · exact h c hlo hc hsize
  · exact h' c (by omega) hhi hsize

lemma First.from {lo mid : Nat} (hle : lo ≤ mid) (h : Full sb disk lo mid)
    (h' : First sb disk mid b) : First sb disk lo b :=
  ⟨Nat.le_trans hle h'.1, h'.2.1, h'.2.2.1, h.trans h'.2.2.2⟩

lemma ballocBlock_spec (hb : b % BPB = 0) (hbi : bi ≤ BPB) :
    (∃ c, First sb disk (b + bi) c ∧ ballocBlock sb disk b bi = some (c, taken sb disk c)) ∨
    Full sb disk (b + bi) (b + BPB) ∧ ballocBlock sb disk b bi = none := by
  induction hn : BPB - bi generalizing bi with
  | zero =>
    rw [ballocBlock, if_neg (by omega)]
    exact .inr ⟨fun c _ _ _ => by omega, rfl⟩
  | succ n ih =>
    rw [ballocBlock]
    split
    · rename_i hlt
      have hmod : (b + bi) % BPB = bi := by
        rw [Nat.add_mod, hb, Nat.zero_add, Nat.mod_mod, Nat.mod_eq_of_lt hlt.1]
      have hblock : BBLOCK (b + bi) sb = BBLOCK b sb := by
        unfold BBLOCK BPB BSIZE at *
        omega
      have hbit := marked_eq_false sb disk (b + bi)
      rw [hmod, hblock] at hbit
      by_cases hfree : marked sb disk (b + bi) = false
      · left
        refine ⟨b + bi, ⟨Nat.le_refl _, hlt.2, hfree, fun c _ _ => by omega⟩, ?_⟩
        rw [if_pos (hbit.mp hfree), taken, hmod, hblock]
      · rw [if_neg fun h => hfree (hbit.mpr h)]
        have hset : Full sb disk (b + bi) (b + (bi + 1)) := by
          intro c h1 h2 _
          rw [show c = b + bi by omega]
          exact Bool.not_eq_false _ ▸ hfree
        rcases @ih (bi + 1) (by omega) (by omega) with ⟨c, hfirst, heq⟩ | ⟨hall, heq⟩
        · exact .inl ⟨c, .from (by omega) hset hfirst, heq⟩
        · exact .inr ⟨hset.trans hall, heq⟩
    · exact .inr ⟨fun c _ _ _ => by omega, rfl⟩

lemma ballocLoop_spec (hb : b % BPB = 0) :
    (∃ c, First sb disk b c ∧ ballocLoop sb disk b = (c, taken sb disk c)) ∨
    Full sb disk b sb.size ∧ ballocLoop sb disk b = (0, disk) := by
  have hpos : 0 < BPB := by decide
  induction hn : sb.size - b using Nat.strong_induction_on generalizing b with
  | _ n ih =>
    rw [ballocLoop]
    split
    · rcases @ballocBlock_spec sb disk b 0 hb (Nat.zero_le _) with ⟨c, hfirst, heq⟩ | ⟨hall, heq⟩
      · rw [heq]
        exact .inl ⟨c, hfirst, rfl⟩
      · rw [heq]
        rcases @ih _ (by omega) (b + BPB) (by rw [Nat.add_mod_right, hb]) rfl with
          ⟨c, hfirst, heq⟩ | ⟨hrest, heq⟩
        · exact .inl ⟨c, .from (by omega) hall hfirst, heq⟩
        · exact .inr ⟨hall.trans hrest, heq⟩
    · exact .inr ⟨fun c _ _ => by omega, rfl⟩

/-! ## Blocks taken and given back -/

lemma isBit_marked (hb : b < 2 ^ 30) (hc : c < 2 ^ 30) :
    IsBit sb b (BBLOCK c sb) (c % BPB / 8) (c % BPB % 8) ↔ c = b := by
  unfold IsBit BBLOCK BPB BSIZE
  omega

lemma bit_taken : bit (taken sb disk b) k i j =
    (!decide (k = b) && (bit disk k i j || decide (IsBit sb b k i j))) := by
  unfold taken bzero
  by_cases hk : k = b
  · simp [hk, bit]
  · have hput : ∀ d : Disk, bit (put d b fun _ => 0) k i j = bit d k i j := by simp [bit, hk]
    rw [hput, bit_setByte]
    by_cases hi : k = BBLOCK b sb ∧ i = b % BPB / 8
    · have hblock : BBLOCK b sb ≠ b := hi.1 ▸ hk
      simp [hi, hblock, bit, IsBit, getLsbD_mask]
    · simp [hi, hk, IsBit, ← and_assoc]

lemma marked_taken (hb : b < 2 ^ 30) (hc : c < 2 ^ 30) (h : BBLOCK c sb ≠ b) :
    marked sb (taken sb disk b) c = (marked sb disk c || decide (c = b)) := by
  simp [marked, bit_taken, isBit_marked hb hc, h]

lemma bfree_marked (h : marked sb disk b = true) : ∃ disk', bfree sb disk b = .ok disk' ∧
    ∀ k i j, j < 8 → bit disk' k i j = (bit disk k i j && !decide (IsBit sb b k i j)) := by
  have hbit := mt (marked_eq_false sb disk b).mpr (by simp [h])
  refine ⟨_, if_neg hbit, fun k i j hj => ?_⟩
  rw [bit_setByte]
  by_cases hi : k = BBLOCK b sb ∧ i = b % BPB / 8
  · simp only [hi, and_self, if_true, UInt8.toBitVec_and, UInt8.toBitVec_not, BitVec.getLsbD_and,
      BitVec.getLsbD_not, getLsbD_mask]
    simp [hj, bit, IsBit]
  · simp [hi, IsBit, ← and_assoc]

lemma balloc_of_first (h : First sb disk 0 b) : balloc sb disk = (b, taken sb disk b) := by
  rcases @ballocLoop_spec sb disk 0 (Nat.zero_mod _) with ⟨c, hc, heq⟩ | ⟨hall, _⟩
  · have hle : ¬ c < b := fun hlt => by
      have := h.2.2.2 c (Nat.zero_le _) hlt hc.2.1
      simp [hc.2.2.1] at this
    have hge : ¬ b < c := fun hlt => by
      have := hc.2.2.2 b (Nat.zero_le _) hlt h.2.1
      simp [h.2.2.1] at this
    rw [show b = c by omega]
    exact heq
  · have := hall b (Nat.zero_le _) h.2.1 h.2.1
    simp [h.2.2.1] at this

/-- `balloc` takes the first block that is not marked. When that is no block of the bitmap, the
bitmap gets its mark and no other, and `bfree` removes it. -/
theorem balloc_takes_the_first_free_block (hsize : sb.size < 2 ^ 30) :
    (∀ b, First sb disk 0 b → ∃ disk', balloc sb disk = (b, disk') ∧
      (∀ k i j, bit disk' k i j =
        (!decide (k = b) && (bit disk k i j || decide (IsBit sb b k i j)))) ∧
      ((∀ c < sb.size, BBLOCK c sb ≠ b) →
        (∀ c < sb.size, marked sb disk' c = (marked sb disk c || decide (c = b))) ∧
        ∃ disk'', bfree sb disk' b = .ok disk'' ∧
          ∀ c < sb.size, marked sb disk'' c = marked sb disk c)) ∧
    ((balloc sb disk).1 = 0 ∧ (0 < sb.size → marked sb disk 0 = true) ↔
      ∀ b < sb.size, marked sb disk b = true) ∧
    ((∀ b < sb.size, marked sb disk b = true) → (balloc sb disk).2 = disk) ∧
    ∀ b < sb.size, marked sb disk b = true → ∃ disk', bfree sb disk b = .ok disk' ∧
      ∀ k i j, j < 8 → bit disk' k i j = (bit disk k i j && !decide (IsBit sb b k i j)) := by
  have hfull : (∀ b < sb.size, marked sb disk b = true) → balloc sb disk = (0, disk) := by
    intro hall
    rcases @ballocLoop_spec sb disk 0 (Nat.zero_mod _) with ⟨c, hc, _⟩ | ⟨_, heq⟩
    · have hfalse := hc.2.2.1
      simp [hall c hc.2.1] at hfalse
    · exact heq
  refine ⟨fun b hb => ?_, ⟨fun ⟨hzero, hmark⟩ => ?_, fun hall => ?_⟩, fun hall => ?_,
    fun b _ => bfree_marked⟩
  · refine ⟨_, balloc_of_first hb, fun _ _ _ => bit_taken, fun hno => ?_⟩
    have hmarked : ∀ c < sb.size, marked sb (taken sb disk b) c =
        (marked sb disk c || decide (c = b)) := by
      intro c hc
      exact marked_taken (Nat.lt_trans hb.2.1 hsize) (Nat.lt_trans hc hsize) (hno c hc)
    refine ⟨hmarked, ?_⟩
    obtain ⟨disk'', hfree, hbits⟩ :=
      @bfree_marked sb (taken sb disk b) b (by simp [hmarked b hb.2.1])
    refine ⟨disk'', hfree, fun c hc => ?_⟩
    have hc' := hbits (BBLOCK c sb) (c % BPB / 8) (c % BPB % 8) (by omega)
    simp only [isBit_marked (Nat.lt_trans hb.2.1 hsize) (Nat.lt_trans hc hsize)] at hc'
    refine hc'.trans ?_
    change (marked sb (taken sb disk b) c && _) = _
    rw [hmarked c hc]
    by_cases hcb : c = b
    · simp [hcb, hb.2.2.1]
    · simp [hcb]
  · rcases @ballocLoop_spec sb disk 0 (Nat.zero_mod _) with ⟨c, hc, heq⟩ | ⟨hall, _⟩
    · have hc0 : c = 0 := (congrArg Prod.fst heq).symm.trans hzero
      obtain ⟨_, hlt, hfalse, _⟩ := hc
      rw [hc0] at hlt hfalse
      simp [hmark hlt] at hfalse
    · exact fun b hb => hall b (Nat.zero_le _) hb hb
  · rw [hfull hall]
    exact ⟨rfl, hall 0⟩
  · rw [hfull hall]

def tiny : Geometry := { size := 8, nblocks := 4, ninodes := 8, inodestart := 2, bmapstart := 3 }

def tinyDisk (x : UInt8) : Disk := put (fun _ _ => 0) 3 fun _ => x

theorem balloc_takes_block_four : ∃ disk', balloc tiny (tinyDisk 15) = (4, disk') ∧
    marked tiny disk' 4 = true := by
  have hbefore : ∀ b < 4, marked tiny (tinyDisk 15) b = true := by decide
  have hfirst : First tiny (tinyDisk 15) 0 4 :=
    ⟨by decide, by decide, by decide, fun b _ hb _ => hbefore b hb⟩
  obtain ⟨disk', heq, _, hbits⟩ := (balloc_takes_the_first_free_block (by decide)).1 4 hfirst
  refine ⟨disk', heq, ?_⟩
  rw [(hbits (by decide)).1 4 (by decide)]
  decide

/-- Block 3 holds the bitmap. When its bit is clear, `balloc` takes it and wipes all marks. -/
theorem balloc_wipes_the_bitmap : First tiny (tinyDisk 7) 0 3 ∧ (balloc tiny (tinyDisk 7)).1 = 3 ∧
    ∀ b < 8, marked tiny (balloc tiny (tinyDisk 7)).2 b = false := by
  have hbefore : ∀ b < 3, marked tiny (tinyDisk 7) b = true := by decide
  have hfirst : First tiny (tinyDisk 7) 0 3 :=
    ⟨by decide, by decide, by decide, fun b _ hb _ => hbefore b hb⟩
  rw [balloc_of_first hfirst]
  exact ⟨hfirst, rfl, by decide⟩

end xv6.bitmap
