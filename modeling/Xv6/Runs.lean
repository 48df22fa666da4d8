-- Runs of the kernel from a disk image: the boot, then any calls by any
-- processes, one after the other.
import Xv6.Calls

open bytes ownership wp count

namespace xv6.fs

variable {sb : Superblock} {s t img : Fs} {p : Nat} {E : Stop → Prop}

/-! ## Boot -/

/-- A disk image: the bitmap is exact, no file has a hole, and an entry can hold the number
of every inode. The kernel's tables are empty. -/
structure WellFormed (sb : Superblock) (img : Fs) : Prop where
  owned : Owned sb img
  tables : img = blank img.bitmap img.dinode img.data
  ninodes : sb.ninodes ≤ 65536

lemma holders_blank (h : WellFormed sb img) : holders img.ftable img.proc = fun _ => 0 := by
  funext k
  rw [h.tables]
  unfold holders
  rw [Nat.add_eq_zero_iff, occ_eq_zero, occ_eq_zero]
  exact ⟨fun _ _ => by simp [blank], fun _ _ => by simp [blank, File.inode]⟩

lemma kernel_blank (h : WellFormed sb img) : Kernel sb img := by
  have hholders := holders_blank h
  have hblank := h.tables
  have href : ∀ k, (img.itable k).ref = 0 := by
    intro k
    rw [hblank]
    rfl
  refine ⟨⟨h.owned, ?_, ?_, ?_, by simp⟩, ⟨?_, ?_, ?_, ?_, ?_⟩⟩
  · intro k _ k' _ hpos
    rw [href] at hpos
    omega
  · intro k _ hpos
    rw [href] at hpos
    omega
  · intro k _
    rw [hholders, href]
    simp
  · intro f _
    have hzero : openCount img.proc f = 0 := by
      unfold openCount
      rw [occ_eq_zero, hblank]
      exact fun _ _ => by simp [blank]
    rw [hzero, hblank]
    rfl
  · intro f _ _
    rw [hblank]
    rfl
  · intro p _ fd _ f hf
    rw [hblank] at hf
    cases hf
  · intro p _ _ fd _
    rw [hblank]
    rfl
  · intro k hk
    simp [hholders] at hk

lemma wp_userinit (h : WellFormed sb img) (hE : Tolerates E)
    (hm : Mode (fun _ => 0) img E) :
    Wp (userinit sb) (fun _ t => Kernel sb t ∧ (Sane (fun _ => 0) img →
      Sane (holders t.ftable t.proc) t ∧ Writable t ∧ tree t = tree img)) E img := by
  have hk := kernel_blank h
  have hholders := holders_blank h
  have hproc : ∀ q, img.proc q = { cwd := none, ofile := fun _ => none } := by
    intro q
    rw [h.tables]
    rfl
  have hfiles : ∀ f, (img.ftable f).type = .none := by
    intro f
    rw [h.tables]
    rfl
  unfold userinit
  have hm' : Mode (holders img.ftable img.proc) img E := by
    rw [hholders]
    exact hm
  refine (wp_namei hE [slash] hk.base hm' ?_).bind ?_
  · intro k hc
    rw [hproc] at hc
    cases hc
  rintro o t ⟨mv, hfound⟩
  rw [modifyProc, wp_modify]
  have hcount := fun j => holders_proc img.ftable img.proc (p := 0) (by decide)
    { img.proc 0 with cwd := o } j
  have hbase : Base sb (holders img.ftable (Function.update img.proc 0
      { img.proc 0 with cwd := o })) [] t := by
    rcases o with _ | k
    · refine hfound.recount (fun j _ => ?_) (by simp)
      have := hcount j
      rw [hproc, if_neg (by simp)] at this
      rw [hproc]
      omega
    · refine hfound.recount (fun j _ => ?_) (by simp)
      have := hcount j
      rw [hproc, if_neg (by simp), ite_some] at this
      rw [hproc, List.count_nil, count_one]
      omega
  have htab : Tables img.ftable (Function.update img.proc 0 { img.proc 0 with cwd := o }) := by
    refine hk.tables.setCwd (by decide) (fun _ fd _ => by rw [hproc]) ?_
    rintro k rfl
    exact hfound.temps k List.mem_cons_self
  have hft : t.ftable = img.ftable := mv.ftable
  have hpr : t.proc = img.proc := mv.proc
  rw [hpr]
  refine ⟨⟨?_, ?_⟩, fun hs => ?_⟩
  · dsimp only
    rw [hft]
    exact hbase.setTables _ _
  · dsimp only
    rw [hft]
    exact htab
  · obtain ⟨hl, hsound⟩ := mv.quiet (by rw [hholders]; exact hs.toSound)
    have htree : tree t = tree img := tree_lookup hl
    refine ⟨⟨⟨hsound.closed, ?_, hsound.root, hsound.slots⟩, ?_, ?_, ?_⟩, ?_, htree⟩
    · intro i hi hn
      refine (hsound.held i hi hn).imp ?_ id
      rintro ⟨k, _, hr, _⟩
      simp [hholders] at hr
    · intro i
      exact (congrArg (fun T : Tree => T.nlink i) htree).symm ▸ hs.nonneg i
    · intro i
      exact (congrArg (fun T : Tree => T.nlink i) htree).symm ▸ hs.le i
    · intro i hi
      exact hs.small i (by rw [← htree]; exact hi)
    · intro f _ hf
      dsimp only at hf
      rw [hft, hfiles] at hf
      cases hf

/-! ## Runs -/

def OffBitmap (e : Stop) : Prop := e ≠ .panic "freeing free block"

lemma tolerates_offBitmap : Tolerates OffBitmap := by
  rintro e h rfl
  exact h (by decide)

lemma offBitmap_ilock : OffBitmap (.panic "ilock: no type") := by
  unfold OffBitmap
  decide

lemma Run.kernel (h : WellFormed sb img) (hrun : Run sb img s) : Kernel sb s := by
  induction hrun with
  | boot hboot =>
    exact ((wp_userinit h tolerates_offBitmap (.inr offBitmap_ilock)).of_ok hboot).1
  | next _ hallowed hcall ih =>
    exact ((wp_call ih (.inr offBitmap_ilock) tolerates_offBitmap h.ninodes
      hallowed).of_ok hcall).kernel

/-- A run in which every call meets a condition on the states before and after it. -/
inductive RunWith (C : Fs → Fs → Prop) (sb : Superblock) (img : Fs) : Fs → Prop
  | boot {s : Fs} : (userinit sb).run img = .ok ((), s) → RunWith C sb img s
  | next {s t : Fs} {p : Nat} {c : Call} {r : Int} : RunWith C sb img s → Allowed s p c →
      (call sb p c).run s = .ok (r, t) → C s t → RunWith C sb img t

end xv6.fs
