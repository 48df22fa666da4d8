-- Every block of the disk is free, or holds metadata, or belongs to one place
-- of one inode, whatever calls ran before and however they ended.
import Xv6.RootImage

open bytes ownership wp count

namespace xv6.fs

variable {sb : Superblock} {s img : Fs}

/-- Block `b` is at place `p.2` of the inode `p.1` in use: one of its addresses, or a number
in its indirect block. -/
def RefersTo (s : Fs) (p : Nat × Nat) (b : Nat) : Prop :=
  (s.dinode p.1).type ≠ .free ∧ p.2 < NPLACE ∧ b ≠ 0 ∧ refAt s p = b

lemma refersTo_iff {p : Nat × Nat} {b : Nat} (hb : b ≠ 0) : RefersTo s p b ↔ refAt s p = b := by
  refine ⟨fun h => h.2.2.2, fun h => ⟨?_, ?_, hb, h⟩⟩
  · intro hfree
    rw [refAt, place_of_free hfree] at h
    exact hb h.symm
  · by_contra hge
    have : refAt s p = 0 := by
      unfold refAt Dinode.place
      rw [if_pos (.inr (by omega))]
    exact hb (h.symm.trans this)

/-- In every run a bit of the map is set exactly for the metadata blocks and the blocks that
are at one place of one inode; no two places have the same block, no call finds a block that
it frees to be free. -/
theorem bitmap_marks_the_owned_blocks (h : WellFormed sb img) (hrun : Run sb img s) :
    (∀ b < sb.size, s.bitmap b = true ↔ b < sb.nmeta ∨ ∃! p, RefersTo s p b) ∧
      (∀ p b, RefersTo s p b → sb.nmeta ≤ b ∧ b < sb.size) ∧
      (∀ p q b, RefersTo s p b → RefersTo s q b → p = q) ∧
      ∀ p c, Allowed s p c →
        (call sb p c).run s ≠ .error (.panic "freeing free block") := by
  have hk := hrun.kernel h
  have hexact := hk.base.owned.exact
  have hinj : ∀ p q b, RefersTo s p b → RefersTo s q b → p = q := by
    rintro p q b ⟨_, _, hb, hp⟩ ⟨_, _, _, hq⟩
    exact hexact.inj p q (by rw [hp]; exact hb) (hp.trans hq.symm)
  refine ⟨fun b hb => ?_, ?_, hinj, ?_⟩
  · rw [hexact.bits b hb]
    refine or_congr_right' fun hmeta => ?_
    have hb0 : b ≠ 0 := by
      have := hexact.low_pos
      omega
    constructor
    · rintro ⟨p, hp⟩
      exact ⟨p, (refersTo_iff hb0).mpr hp, fun q hq => hinj q p b hq ((refersTo_iff hb0).mpr hp)⟩
    · rintro ⟨p, hp, _⟩
      exact ⟨p, (refersTo_iff hb0).mp hp⟩
  · rintro p b ⟨_, _, hb, rfl⟩
    exact hexact.range p hb
  · intro p c hallowed herr
    exact (wp_call hk (Or.inr offBitmap_ilock) tolerates_offBitmap h.ninodes
      hallowed).of_error herr rfl

/-- "/x" is made, and written to from a buffer of which 1500 bytes are mapped. -/
def partWrite : List (Nat × Call) :=
  [(0, .write 0 (fun x => if x < 1500 then some 7 else none) 3000),
    (0, .open_ [47, 120] { O_RDONLY with rdwr := true, create := true })]

/-- The law holds after a write that stops at an unmapped page of its source: the second block
is at its place in the file, whose size does not reach it. -/
theorem bitmap_marks_the_owned_blocks_partWrite : ∃ s, Run rootSb rootImage s ∧
    (s.dinode 2).size = BSIZE ∧ RefersTo s (2, 1) 48 ∧
    (∀ b < rootSb.size, s.bitmap b = true ↔ b < rootSb.nmeta ∨ ∃! p, RefersTo s p b) ∧
      (∀ p b, RefersTo s p b → rootSb.nmeta ≤ b ∧ b < rootSb.size) ∧
      (∀ p q b, RefersTo s p b → RefersTo s q b → p = q) ∧
      ∀ p c, Allowed s p c →
        (call rootSb p c).run s ≠ .error (.panic "freeing free block") := by
  obtain ⟨s, hrun, hs⟩ := @exists_run rootSb rootImage
    (fun s => (s.dinode 2).size = BSIZE && refAt s (2, 1) = 48) partWrite (by decide +kernel)
  simp only [Bool.and_eq_true, decide_eq_true_eq] at hs
  exact ⟨s, hrun, hs.1, (refersTo_iff (by decide)).mpr hs.2,
    bitmap_marks_the_owned_blocks wellFormed_rootImage hrun⟩

end xv6.fs
