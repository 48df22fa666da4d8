-- `open`, `mkdir`, `mknod`, reading and writing, and with them every call: one
-- call takes the kernel from one state between calls to another.
import Xv6.FileCalls

open bytes ownership wp count Function List

namespace xv6.fs

variable {sb : Superblock} {s t u : Fs} {k ip p f fd : Nat}
  {E : Stop → Prop} {r : Nat → Nat}

/-! ## Reading and writing -/

/-- The kernel is in order in `u`, and the tree is as in `s`. -/
structure Kept (sb : Superblock) (s u : Fs) : Prop where
  kernel : Kernel sb u
  keep : Sane (holders s.ftable s.proc) s → Writable s →
    Sane (holders u.ftable u.proc) u ∧ Writable u ∧ tree u = tree s

lemma Kept.trans (h : Kept sb s t) (h' : Kept sb t u) : Kept sb s u := by
  refine ⟨h'.kernel, fun hs hw => ?_⟩
  obtain ⟨hs', hw', htree⟩ := h.keep hs hw
  obtain ⟨hs'', hw'', htree'⟩ := h'.keep hs' hw'
  exact ⟨hs'', hw'', htree'.trans htree⟩

lemma Kept.returned (h : Kept sb s u) : Returned sb s u := by
  refine ⟨h.kernel, fun hs hw => ?_⟩
  obtain ⟨hs', hw', htree⟩ := h.keep hs hw
  exact ⟨⟨by rw [htree]; exact .same _, hs'.held, hs'.slots⟩, hw'⟩

lemma Kept.mode (h : Kept sb s u) (hm : CallMode s E) : CallMode u E := by
  rcases hm with ⟨hs, hw⟩ | he
  · obtain ⟨hs', hw', _⟩ := h.keep hs hw
    exact .inl ⟨hs', hw'⟩
  · exact .inr he

lemma Kernel.kept (h : Kernel sb s) (hb : Base sb (holders s.ftable s.proc) [] u)
    (htab : SameTables s u) (hst : Steady (holders s.ftable s.proc) [] s u)
    (htree : Sane (holders s.ftable s.proc) s → Writable s → tree u = tree s) : Kept sb s u := by
  refine ⟨⟨by rw [htab.1, htab.2]; exact hb, by rw [htab.1, htab.2]; exact h.tables⟩, ?_⟩
  intro hs hw
  have ht := htree hs hw
  refine ⟨⟨?_, ?_, ?_, ?_⟩, ?_, ht⟩
  · rw [htab.1, htab.2]
    exact hs.toSound.step h.base hb ht hst fun j hj hjt => absurd hj hjt
  · rw [ht]
    exact hs.nonneg
  · rw [ht]
    exact hs.le
  · rw [ht]
    exact hs.small
  · intro f hf h1 h2
    rw [htab.1] at h1 h2 ⊢
    rw [ht, (hst _ (h.file_held hf (by rw [h1]; decide))).1]
    exact hw f hf h1 h2

lemma Kernel.kept_of_moved (h : Kernel sb s) (hb : Base sb (holders s.ftable s.proc) [] u)
    (mv : Moved (holders s.ftable s.proc) [] s u) : Kept sb s u :=
  h.kept hb mv.tables mv.steady fun hs _ => tree_lookup (mv.quiet hs.toSound).1

lemma Kept.offset (h : Kept sb s u) (f off : Nat) :
    Kept sb s (setFile f { u.ftable f with off } u) := by
  have hfile : ∀ g, ((setFile f { u.ftable f with off } u).ftable g).type = (u.ftable g).type ∧
      ((setFile f { u.ftable f with off } u).ftable g).ip = (u.ftable g).ip ∧
      ((setFile f { u.ftable f with off } u).ftable g).writable = (u.ftable g).writable ∧
      ((setFile f { u.ftable f with off } u).ftable g).ref = (u.ftable g).ref := by
    intro g
    by_cases hg : g = f
    · subst hg
      simp [setFile]
    · simp [setFile, hg]
  have hh : holders (setFile f { u.ftable f with off } u).ftable u.proc =
      holders u.ftable u.proc := holders_congr (inode_update rfl rfl) fun _ => rfl
  have htab : Tables (setFile f { u.ftable f with off } u).ftable u.proc := by
    refine ⟨?_, ?_, h.kernel.tables.fds, h.kernel.tables.idle, ?_⟩
    · intro g hg
      rw [(hfile g).2.2.2]
      exact h.kernel.tables.files g hg
    · intro g hg h0
      rw [(hfile g).2.2.2] at h0
      rw [(hfile g).1]
      exact h.kernel.tables.closed g hg h0
    · rw [hh]
      exact h.kernel.tables.slots
  refine h.trans ⟨⟨?_, htab⟩, fun hs hw => ⟨⟨⟨hs.closed, ?_, hs.root, hs.slots⟩, hs.nonneg, hs.le,
    hs.small⟩, ?_, rfl⟩⟩
  · rw [show (setFile f { u.ftable f with off } u).proc = u.proc from rfl, hh]
    exact h.kernel.base.setTables _ _
  · rw [show (setFile f { u.ftable f with off } u).proc = u.proc from rfl, hh]
    exact hs.held
  · intro g hg h1 h2
    rw [(hfile g).1] at h1
    rw [(hfile g).2.2.1] at h2
    rw [(hfile g).2.1]
    exact hw g hg h1 h2

lemma wp_sys_read (h : Kernel sb s) (hm : CallMode s E) (hE : Tolerates E) (hp : p < NPROC)
    (fd : Nat) (dst : Nat → Bool) (n : Nat) :
    Wp (sys_read sb p fd dst n) (fun _ t => Returned sb s t) E s := by
  refine (wp_argfd hp h.tables).bind ?_
  rintro o s1 ⟨rfl, hf⟩
  rcases o with _ | f
  · rw [wp_pure]
    exact h.refl
  obtain ⟨_, _, hlt⟩ := hf f rfl
  unfold fileread
  rw [wp_get_bind]
  refine wp_ite (fun _ => (wp_pure _).mpr h.refl) (fun _ => ?_)
  split
  · rw [wp_throw]
    exact hE _ (by decide)
  · exact (wp_pure _).mpr h.refl
  · exact wp_ite (fun _ => (wp_pure _).mpr h.refl) (fun _ => (wp_pure _).mpr h.refl)
  · rename_i htype
    have hheld := h.file_held hlt (by rw [htype]; decide)
    refine (wp_ilock_moved h.base hheld hm.mode).bind ?_
    rintro _ s2 ⟨h2, mv2, _, hv, _⟩
    have hk := h.kept_of_moved h2 mv2
    obtain ⟨hs, ht⟩ := h2.synced _ hheld.1 (hheld.ref_pos h2) hv
    refine (wp_readi h2.owned hs ht dst _ n).bind ?_
    rintro x s3 ⟨rfl, _⟩
    apply wp_ite <;> intro _
    · have hk' := hk.offset f ((s3.ftable f).off + x.1.toNat)
      rw [modifyFile, wp_modify_bind]
      refine (wp_iunlock (h2.setTables _ _) hheld).bind ?_
      rintro _ _ rfl
      rw [wp_pure]
      exact hk'.returned
    · refine (wp_iunlock h2 hheld).bind ?_
      rintro _ _ rfl
      rw [wp_pure]
      exact hk.returned

lemma wp_writei_kept (h : Kernel sb s) (hk : Held (holders s.ftable s.proc) [] k)
    (hv : (s.itable k).valid = true)
    (hfile : Writable s → (tree s).type (s.itable k).inum ≠ .dir) (src : Nat → Option UInt8)
    (off n : Nat) : Wp (writei sb k src off n) (fun _ t => Kept sb s t ∧ SameTables s t ∧
      Steady (holders s.ftable s.proc) [] s t) E s := by
  obtain ⟨hs, _⟩ := h.base.synced k hk.1 (hk.ref_pos h.base) hv
  refine (wp_writei_base h.base hk hv src off n).imp ?_
  rintro _ t ⟨hb, hst, hw⟩
  refine ⟨h.kept hb ⟨hw.ftable, hw.proc⟩ hst fun _ hwr => ?_, ⟨hw.ftable, hw.proc⟩, hst⟩
  refine tree_wrote h.base.owned hs ?_ hw
  rw [h.base.type_eq hk hv]
  exact hfile hwr

lemma wp_filewriteRound (h : Kernel sb s) (hm : CallMode s E) (hf : f < NFILE)
    (htype : (s.ftable f).type = .inode) (hwr : (s.ftable f).writable = true)
    (src : Nat → Option UInt8) (i n1 : Nat) :
    Wp (filewriteRound sb f src i n1) (fun _ t => Kept sb s t ∧
      (t.ftable f).type = .inode ∧ (t.ftable f).writable = true) E s := by
  have hheld := h.file_held hf (by rw [htype]; decide)
  unfold filewriteRound
  rw [wp_get_bind]
  refine (wp_ilock_moved h.base hheld hm.mode).bind ?_
  rintro _ s1 ⟨h1, mv1, _, hv, _⟩
  have hk1 := h.kept_of_moved h1 mv1
  have hheld1 : Held (holders s1.ftable s1.proc) [] (s.ftable f).ip := by
    rw [mv1.ftable, mv1.proc]
    exact hheld
  have hfile : Writable s1 → (tree s1).type (s1.itable (s.ftable f).ip).inum ≠ .dir := by
    intro hw
    rw [← mv1.ftable]
    exact hw f hf (by rw [mv1.ftable]; exact htype) (by rw [mv1.ftable]; exact hwr)
  refine (wp_writei_kept hk1.kernel hheld1 hv hfile _ _ n1).bind ?_
  rintro x t ⟨hk2, htab, _⟩
  have hk := hk1.trans hk2
  have hft : t.ftable = s.ftable := htab.1.trans mv1.ftable
  have hpr : t.proc = s.proc := htab.2.trans mv1.proc
  have hb := hk.kernel.base
  rw [hft, hpr] at hb
  apply wp_ite <;> intro _
  · have hk' := hk.offset f ((t.ftable f).off + x.toNat)
    rw [modifyFile, wp_modify_bind]
    refine (wp_iunlock (hb.setTables _ _) hheld).bind ?_
    rintro _ _ rfl
    rw [wp_pure]
    refine ⟨hk', ?_, ?_⟩
    · simp [hft, htype]
    · simp [hft, hwr]
  · refine (wp_iunlock hb hheld).bind ?_
    rintro _ _ rfl
    rw [wp_pure]
    exact ⟨hk, by rw [hft]; exact htype, by rw [hft]; exact hwr⟩

lemma wp_filewriteLoop (hf : f < NFILE) (src : Nat → Option UInt8) (n fuel : Nat) :
    ∀ (s : Fs) (i : Nat), Kernel sb s → CallMode s E → (s.ftable f).type = .inode →
      (s.ftable f).writable = true →
      Wp (filewriteLoop sb f src n fuel i) (fun _ t => Kept sb s t) E s := by
  induction fuel with
  | zero =>
    intro s i h _ _ _
    unfold filewriteLoop
    rw [wp_pure]
    exact ⟨h, fun hs hw => ⟨hs, hw, rfl⟩⟩
  | succ fuel ih =>
    intro s i h hm htype hwr
    have hrefl : Kept sb s s := ⟨h, fun hs hw => ⟨hs, hw, rfl⟩⟩
    refine wp_ite (fun _ => ?_) (fun _ => (wp_pure _).mpr hrefl)
    refine (wp_filewriteRound h hm hf htype hwr src i _).bind ?_
    rintro x t ⟨hk, ht, hw⟩
    refine wp_ite (fun _ => ?_) (fun _ => (wp_pure _).mpr hk)
    exact (ih t _ hk.kernel (hk.mode hm) ht hw).imp fun _ _ hk' => hk.trans hk'

lemma wp_sys_write (h : Kernel sb s) (hm : CallMode s E) (hE : Tolerates E) (hp : p < NPROC)
    (fd : Nat) (src : Nat → Option UInt8) (n : Nat) :
    Wp (sys_write sb p fd src n) (fun _ t => Returned sb s t) E s := by
  refine (wp_argfd hp h.tables).bind ?_
  rintro o s1 ⟨rfl, hf⟩
  rcases o with _ | f
  · rw [wp_pure]
    exact h.refl
  obtain ⟨_, _, hlt⟩ := hf f rfl
  unfold filewrite
  rw [wp_get_bind]
  refine wp_ite (fun _ => (wp_pure _).mpr h.refl) (fun hwr => ?_)
  split
  · rw [wp_throw]
    exact hE _ (by decide)
  · exact (wp_pure _).mpr h.refl
  · exact wp_ite (fun _ => (wp_pure _).mpr h.refl) (fun _ => (wp_pure _).mpr h.refl)
  · rename_i htype
    refine (wp_filewriteLoop hlt src n n s1 0 h hm htype (by simpa using hwr)).bind ?_
    intro i t hk
    exact wp_ite (fun _ => (wp_pure _).mpr hk.returned) (fun _ => (wp_pure _).mpr hk.returned)

lemma wp_onFile (h : Kernel sb s) (hm : CallMode s E) (hp : p < NPROC) (fd : Nat)
    {m : Nat → M Int}
    (hbody : ∀ k s1, Kernel sb s1 → Held (holders s1.ftable s1.proc) [] k →
      (s1.itable k).valid = true → (tree s1).type (s1.itable k).inum = .file →
      Wp (m k) (fun _ t => Kept sb s1 t ∧ SameTables s1 t) E s1) :
    Wp (onFile p fd m) (fun _ t => Returned sb s t) E s := by
  refine (wp_argfd hp h.tables).bind ?_
  rintro o s1 ⟨rfl, hf⟩
  rcases o with _ | f
  · rw [wp_pure]
    exact h.refl
  obtain ⟨_, _, hlt⟩ := hf f rfl
  rw [wp_get_bind]
  refine wp_ite (fun hc => ?_) (fun _ => (wp_pure _).mpr h.refl)
  have hheld := h.file_held hlt (by rw [hc.1]; decide)
  refine (wp_ilock_moved h.base hheld hm.mode).bind ?_
  rintro _ s2 ⟨h2, mv2, hl2, hv, _⟩
  have hk2 := h.kept_of_moved h2 mv2
  have hheld2 : Held (holders s2.ftable s2.proc) [] (s1.ftable f).ip := by
    rw [mv2.ftable, mv2.proc]
    exact hheld
  refine (hbody _ s2 hk2.kernel hheld2 hv ?_).bind ?_
  · rw [tree_lookup hl2, (mv2.steady _ hheld).1]
    exact hc.2
  · rintro x t ⟨hk, htab⟩
    have hheld3 : Held (holders t.ftable t.proc) [] (s1.ftable f).ip := by
      rw [htab.1, htab.2]
      exact hheld2
    refine (wp_iunlock hk.kernel.base hheld3).bind ?_
    rintro _ _ rfl
    rw [wp_pure]
    exact (hk2.trans hk).returned

lemma wp_itrunc_kept (h : Kernel sb s) (hk : Held (holders s.ftable s.proc) [] k)
    (hv : (s.itable k).valid = true) (hfile : (tree s).type (s.itable k).inum = .file) :
    Wp (itrunc k) (fun _ t => Kept sb s t ∧ SameTables s t) E s := by
  obtain ⟨hs, _⟩ := h.base.synced k hk.1 (hk.ref_pos h.base) hv
  refine (wp_itrunc_base h.base hk hv).imp ?_
  rintro _ t ⟨hb, hst, htr⟩
  refine ⟨h.kept hb ⟨htr.ftable, htr.proc⟩ hst fun _ _ => ?_, ⟨htr.ftable, htr.proc⟩⟩
  refine tree_truncated hs ?_ htr
  rw [h.base.type_eq hk hv, hfile]
  decide

/-! ## `open`, `mkdir` and `mknod` -/

lemma wp_iunlockput_gave (hg : Gave sb r s (some ip) u) :
    Wp (iunlockput ip) (fun _ t => Done sb r s t ∧ (Sane r s → Unchanged u t)) E u := by
  obtain ⟨hb, _, hst, htab, ho⟩ := hg
  refine (wp_iunlockput hb).imp ?_
  rintro _ t ⟨hb', hst', hcase⟩
  refine ⟨⟨hb', hst.trans hst', htab.trans (tables_of_put hcase), fun hs => ?_⟩, fun hs => ?_⟩
  · obtain ⟨ho, _⟩ := ho hs
    have hbusy : Busy r [] (tree u) u := ⟨rfl, ho.held, ho.slots⟩
    have hbusy' := hbusy.iput_quiet hb hb' hst' hcase (by simp)
    exact ⟨by rw [hbusy'.tree_eq]; exact ho.step, hbusy'.held, hbusy'.slots⟩
  · exact (hcase.resolve_right fun hf => (ho hs).1.held.not_last hb (by simp) hf.1).1.unchanged

lemma wp_filealloc (s : Fs) :
    Wp filealloc (fun o t => o = none ∧ t = s ∧ (∀ f < NFILE, (s.ftable f).ref ≠ 0) ∨
      ∃ f, o = some f ∧ f < NFILE ∧ (s.ftable f).ref = 0 ∧ t = setFile f { s.ftable f with ref := 1 } s) E s := by
  unfold filealloc
  rw [wp_get_bind]
  split
  · rename_i f hfind
    have hf := mem_range.mp (mem_of_find?_eq_some hfind)
    have h0 := find?_some hfind
    rw [modifyFile, wp_modify_bind, wp_pure]
    exact .inr ⟨f, rfl, hf, by simpa using h0, rfl⟩
  · rename_i hnone
    rw [find?_eq_none] at hnone
    rw [wp_pure]
    refine .inl ⟨rfl, rfl, fun f hf => ?_⟩
    simpa using hnone f (mem_range.mpr hf)

lemma wp_fileclose_new (hf : (s.ftable f).ref = 0) (ht : (s.ftable f).type = .none) :
    Wp (fileclose f) (fun _ t => t = s) E (setFile f { s.ftable f with ref := 1 } s) := by
  unfold fileclose
  rw [wp_get_bind]
  have hself : (setFile f { s.ftable f with ref := 1 } s).ftable f =
      { s.ftable f with ref := 1 } := by
    simp [setFile]
  rw [hself]
  dsimp only
  rw [if_neg (by omega), if_neg (by omega), modifyFile, wp_modify_bind, if_neg (by simp [ht]),
    wp_pure, hself]
  have : ({ s.ftable f with ref := 0, type := .none } : File) = s.ftable f := by
    rw [← hf, ← ht]
  simp [setFile, this]

/-- The file that `openFile` sets up, open on entry `ip`. -/
def openedFile (s : Fs) (omode : Omode) (ip f : Nat) : File where
  type := if (s.itable ip).type = .device then .device else .inode
  ref := 1
  readable := !omode.wronly
  writable := omode.wronly || omode.rdwr
  pipe := (s.ftable f).pipe
  ip := ip
  off := if (s.itable ip).type = .device then (s.ftable f).off else 0
  major := if (s.itable ip).type = .device then (s.itable ip).major else (s.ftable f).major

lemma Kernel.opened (h : Kernel sb s) (hp : p < NPROC) (hcwd : (s.proc p).cwd ≠ none)
    {f : Nat} (hf : f < NFILE) (h0 : (s.ftable f).ref = 0) (hfd : fd < NOFILE)
    (hno : (s.proc p).ofile fd = none) (hip : ip < NINODE) {y : File} (hy : y.ref = 1)
    (hyt : y.type = .inode ∨ y.type = .device) (hyi : y.ip = ip) :
    Tables (update s.ftable f y) (update s.proc p
        { s.proc p with ofile := update (s.proc p).ofile fd (some f) }) ∧
      ∀ j, holders (update s.ftable f y) (update s.proc p
        { s.proc p with ofile := update (s.proc p).ofile fd (some f) }) j =
          holders s.ftable s.proc j + (if j = ip then 1 else 0) := by
  have hmore : ∀ j, holders (update s.ftable f y) s.proc j =
      holders s.ftable s.proc j + (if j = ip then 1 else 0) := by
    intro j
    have := holders_file s.ftable s.proc hf y j
    have hnone : (s.ftable f).inode = none := by
      simp [File.inode, h.tables.closed f hf h0]
    have hsome : y.inode = some ip := by
      simp [File.inode, hyt, hyi]
    rw [hnone, hsome, ite_some, if_neg (by simp), Nat.add_zero] at this
    exact this
  refine ⟨h.tables.setFd hp hfd hcwd ?_ ?_ ?_ ?_, ?_⟩
  · rintro g hg
    cases hg
    exact hf
  · intro g _
    rw [hno, ite_some]
    by_cases hgf : g = f
    · subst hgf
      simp [hy, h0]
    · simp [hgf]
  · intro g hg hg0
    by_cases hgf : g = f
    · subst hgf
      rw [update_self, hy] at hg0
      omega
    · rw [update_of_ne hgf] at hg0 ⊢
      exact h.tables.closed g hg hg0
  · intro k hk
    rw [hmore] at hk
    by_cases hkip : k = ip
    · rw [hkip]
      exact hip
    · rw [if_neg hkip] at hk
      exact h.tables.slots k (by omega)
  · intro j
    rw [← hmore j]
    exact congrFun (holders_congr (fun _ => rfl) (cwd_update _ _)) j

/-- No descriptor of the process is free, or no file. -/
def TablesFull (s : Fs) (p : Nat) : Prop :=
  (∀ fd < NOFILE, (s.proc p).ofile fd ≠ none) ∨ ∀ f < NFILE, (s.ftable f).ref ≠ 0

lemma wp_openFile (h : Kernel sb s) (hp : p < NPROC) (hcwd : (s.proc p).cwd ≠ none)
    (omode : Omode) (hg : Gave sb (holders s.ftable s.proc) s (some ip) u)
    (hok : (omode.wronly || omode.rdwr) = true → Sane (holders s.ftable s.proc) s →
      (tree u).type (u.itable ip).inum ≠ .dir) :
    Wp (openFile p omode ip) (fun x t => Returned sb s t ∧ SameEnds s t ∧ (x = -1 →
      (Sane (holders s.ftable s.proc) s → Unchanged u t) ∧
        ((u.itable ip).type = .device ∨ TablesFull s p))) E u := by
  have hput : (u.itable ip).type = .device ∨ TablesFull s p →
      Wp (do iunlockput ip; return -1) (fun (x : Int) t => Returned sb s t ∧ SameEnds s t ∧ (x = -1 →
        (Sane (holders s.ftable s.proc) s → Unchanged u t) ∧
          ((u.itable ip).type = .device ∨ TablesFull s p))) E u :=
    fun hwhy => (wp_iunlockput_gave hg).bind fun _ t hd =>
      (wp_pure _).mpr ⟨h.returned hd.1, hd.1.tables.sameEnds, fun _ => ⟨hd.2, hwhy⟩⟩
  obtain ⟨hb, hv, hst, htab, ho⟩ := hg
  have hip := held_temp hb mem_cons_self
  unfold openFile
  rw [wp_get_bind]
  refine wp_ite (fun hc => hput (.inl hc.1)) (fun _ => ?_)
  refine (wp_filealloc u).bind ?_
  rintro o u1 (⟨rfl, rfl, hfull⟩ | ⟨f, rfl, hf, h0, rfl⟩)
  · rw [htab.1] at hfull
    exact hput (.inr (.inr hfull))
  rw [htab.1] at h0
  refine (wp_fdalloc p f).bind ?_
  rintro o u2 (⟨rfl, rfl, hfull⟩ | ⟨fd, rfl, hfd, hno, rfl⟩)
  · refine (wp_fileclose_new (by rw [htab.1]; exact h0)
      (by rw [htab.1]; exact h.tables.closed f hf h0)).bind ?_
    rintro _ _ rfl
    refine hput (.inr (.inl ?_))
    rw [← htab.2]
    exact hfull
  have hno' : (s.proc p).ofile fd = none := by
    rw [← htab.2]
    exact hno
  obtain ⟨htabs, hmore⟩ := h.opened hp hcwd hf h0 hfd hno' hip.1 (y := openedFile u omode ip f) rfl
    (by unfold openedFile; split <;> simp) rfl
  have hend : ∀ w, Base sb (holders s.ftable s.proc) [ip] w →
      Steady (holders s.ftable s.proc) [ip] u w →
      w.ftable = update s.ftable f (openedFile u omode ip f) →
      w.proc = update s.proc p
        { s.proc p with ofile := update (s.proc p).ofile fd (some f) } →
      tree w = tree u → Returned sb s w ∧ SameEnds s w := by
    intro w hw hstw hft hpr htree
    refine ⟨?_, fun g hg => ?_, fun q => ?_⟩
    rotate_left
    · rw [hft]
      by_cases hgf : g = f
      · subst hgf
        rw [update_self]
        unfold File.pipeEnd
        rw [if_neg (by unfold openedFile; split <;> simp),
          if_neg (by rw [h.tables.closed g hg h0]; simp)]
      · rw [update_of_ne hgf]
    · rw [hpr]
      exact cwd_update _ _ q
    have hfin := h.gained hw (hst.trans (hstw.mono (by simp))) hmore htabs (fun hs => ?_) ?_
    · rw [← hft, ← hpr] at hfin
      exact hfin
    · obtain ⟨ho, _⟩ := ho hs
      have hbusy : Busy (holders s.ftable s.proc) [] (tree u) w :=
        Busy.change ⟨rfl, ho.held, ho.slots⟩ hb hw hstw htree rfl (fun _ hx => hx)
          fun _ hne => absurd rfl hne
      exact ⟨by rw [htree]; exact ho.step, hbusy.held, hbusy.slots⟩
    · intro g hg hgt hgw
      by_cases hgf : g = f
      · subst hgf
        rw [update_self] at hgw ⊢
        refine .inr fun hs => ?_
        rw [htree, show (openedFile u omode ip g).ip = ip from rfl, (hstw ip hip).1]
        exact hok hgw hs
      · rw [update_of_ne hgf] at hgt hgw ⊢
        exact .inl ⟨hgt, hgw, rfl⟩
  have hrest : ∀ v, v = { u with
        ftable := update s.ftable f (openedFile u omode ip f),
        proc := update s.proc p
          { s.proc p with ofile := update (s.proc p).ofile fd (some f) } } →
      Wp (if omode.trunc = true ∧ (u.itable ip).type = .file then do
          itrunc ip
          iunlock ip
          return (fd : Int)
        else do
          iunlock ip
          return (fd : Int)) (fun x t => Returned sb s t ∧ SameEnds s t ∧ (x = -1 →
            (Sane (holders s.ftable s.proc) s → Unchanged u t) ∧
              ((u.itable ip).type = .device ∨ TablesFull s p))) E v := by
    rintro v rfl
    have hfd0 : ∀ P : Prop, (fd : Int) = -1 → P := fun P h0 => absurd h0 (by omega)
    have hbv := hb.setTables (update s.ftable f (openedFile u omode ip f))
      (update s.proc p
        { s.proc p with ofile := update (s.proc p).ofile fd (some f) })
    apply wp_ite <;> intro hc
    · refine (wp_itrunc_base hbv hip hv).bind ?_
      rintro _ w ⟨hw, hstw, htr⟩
      refine (wp_iunlock hw hip).bind ?_
      rintro _ _ rfl
      rw [wp_pure]
      rw [← and_assoc]
      refine ⟨hend _ hw hstw htr.ftable htr.proc ?_, hfd0 _⟩
      have htype : (u.itable ip).type ≠ .dir := by
        rw [hc.2]
        decide
      exact (tree_truncated (hbv.synced ip hip.1 (hip.ref_pos hbv) hv).1 htype htr).trans rfl
    · refine (wp_iunlock hbv hip).bind ?_
      rintro _ _ rfl
      rw [wp_pure]
      rw [← and_assoc]
      exact ⟨hend _ hbv (Steady.refl _ _ _) rfl rfl rfl, hfd0 _⟩
  rw [modifyFile, wp_modify_bind]
  refine hrest _ ?_
  simp [setFd, setFile, openedFile, htab.1, htab.2]

/-- The call makes no new file that it then cannot open. -/
def OpenRoom (sb : Superblock) (s : Fs) (p : Nat) (path : List UInt8) (omode : Omode) : Prop :=
  omode.create = true → ∀ ip u, (create sb p path .file 0 0).run s = .ok (some ip, u) →
    tree u ≠ tree s → ¬ TablesFull s p

section

variable (h : Kernel sb s) (hm : CallMode s E) (hE : Tolerates E) (hsb : sb.ninodes ≤ 65536)
  (hp : p < NPROC)
include h hm hE hsb hp

lemma wp_sys_open (hcwd : (s.proc p).cwd ≠ none)
    (path : List UInt8) (omode : Omode) :
    Wp (sys_open sb p path omode) (fun x t => Returned sb s t ∧ SameEnds s t ∧ (x = -1 →
      OpenRoom sb s p path omode → Sane (holders s.ftable s.proc) s → Unchanged s t)) E s := by
  apply wp_ite <;> intro hcreate
  · refine (wp_create h.base hm.mode hE (h.cwd_held hp) hsb path (.inr (.inl rfl)) 0 0).run.bind ?_
    rintro o u ⟨⟨hg, htype⟩, hrun⟩
    rcases o with _ | ip
    · rw [wp_pure]
      exact ⟨h.returned hg.1, hg.1.tables.sameEnds, fun _ _ => hg.2⟩
    · refine (wp_openFile h hp hcwd omode hg fun _ hs => (htype ip rfl rfl hs).1).imp ?_
      rintro x t ⟨hr, hends, hfail⟩
      refine ⟨hr, hends, fun hx hroom hs => ?_⟩
      obtain ⟨hut, hwhy⟩ := hfail hx
      obtain ⟨hb, hv, _, _, ho⟩ := hg
      rcases (ho hs).2 with hsu | hne
      · exact hsu.trans (hut hs)
      · refine absurd (hwhy.resolve_left fun hdev => ?_) (hroom hcreate ip u hrun hne)
        have hfile := (htype ip rfl rfl hs).2 hne
        rw [← hb.type_eq (held_temp hb mem_cons_self) hv, hdev] at hfile
        cases hfile
  · refine (wp_namei hE path h.base hm.mode (h.cwd_held hp)).bind ?_
    rintro o s1 ⟨mv1, hfound⟩
    rcases o with _ | ip
    · rw [wp_pure]
      exact ⟨h.returned (done_of_moved hfound mv1), mv1.tables.sameEnds,
        fun _ _ => unchanged_of_moved mv1⟩
    have hip := held_temp hfound mem_cons_self
    refine (wp_ilock_moved hfound hip (hm.mode.moved mv1)).bind ?_
    rintro _ s2 ⟨h2, mv2, _, hv, _⟩
    have mv12 : Moved (holders s.ftable s.proc) [] s s2 := mv1.trans (mv2.mono (by simp))
    rw [wp_get_bind]
    apply wp_ite <;> intro hc
    · refine (wp_iunlockput_moved h2).bind ?_
      rintro _ t ⟨hb, mv⟩
      rw [wp_pure]
      exact ⟨h.returned (done_of_moved hb (mv12.trans mv)), (mv12.trans mv).tables.sameEnds,
        fun _ _ => unchanged_of_moved (mv12.trans mv)⟩
    · refine (wp_openFile h hp hcwd omode (gave_of_moved h2 hv mv12) ?_).imp ?_
      · intro hwr _ hdir
        refine hc ⟨?_, ?_⟩
        · rw [h2.type_eq hip hv]
          exact hdir
        · rintro rfl
          simp [O_RDONLY] at hwr
      · rintro x t ⟨hr, hends, hfail⟩
        exact ⟨hr, hends, fun hx _ hs => (unchanged_of_moved mv12 hs).trans ((hfail hx).1 hs)⟩

lemma wp_create_put (path : List UInt8) {type : FileType}
    (htype : type = .dir ∨ type = .file ∨ type = .device) (major minor : Int) :
    Wp (do
      let r ← create sb p path type major minor
      match r with
      | none => return -1
      | some ip => do
        iunlockput ip
        return 0) (fun (x : Int) t => Returned sb s t ∧ (x = -1 →
          Sane (holders s.ftable s.proc) s → Unchanged s t)) E s := by
  refine (wp_create h.base hm.mode hE (h.cwd_held hp) hsb path htype major minor).bind ?_
  rintro o u ⟨hg, _⟩
  rcases o with _ | ip
  · rw [wp_pure]
    exact ⟨h.returned hg.1, fun _ => hg.2⟩
  · exact (wp_iunlockput_gave hg).bind fun _ t hd =>
      (wp_pure _).mpr ⟨h.returned hd.1, fun h0 => by cases h0⟩

end

/-! ## Every call -/

lemma wp_call (h : Kernel sb s) (hm : CallMode s E) (hE : Tolerates E)
    (hsb : sb.ninodes ≤ 65536) {c : Call} (hc : Allowed s p c) :
    Wp (call sb p c) (fun _ t => Returned sb s t) E s := by
  obtain ⟨hp, hcwd, hfork, hexit⟩ := hc
  have hdone : ∀ {m : M Int}, Wp m (fun _ t => Done sb (holders s.ftable s.proc) s t) E s →
      Wp m (fun _ t => Returned sb s t) E s :=
    fun hd => hd.imp fun _ t hd => h.returned hd
  cases c with
  | dup fd => exact (wp_sys_dup h hp hcwd fd).imp fun _ _ => And.left
  | read fd dst n => exact wp_sys_read h hm hE hp fd dst n
  | write fd src n => exact wp_sys_write h hm hE hp fd src n
  | close fd => exact wp_sys_close h hp hcwd fd
  | link old new =>
    exact hdone ((wp_sys_link h.base (hm.imp And.left id) hE (h.cwd_held hp) old new).imp
      fun _ _ => And.left)
  | unlink path =>
    exact hdone ((wp_sys_unlink h.base hm.mode hE (h.cwd_held hp) path).imp fun _ _ => And.left)
  | open_ path omode =>
    exact (wp_sys_open h hm hE hsb hp hcwd path omode).imp fun _ _ => And.left
  | mkdir path =>
    exact (wp_create_put h hm hE hsb hp path (.inl rfl) 0 0).imp fun _ _ => And.left
  | mknod path major minor =>
    exact (wp_create_put h hm hE hsb hp path (.inr (.inr rfl)) major minor).imp
      fun _ _ => And.left
  | chdir path => exact wp_sys_chdir h hm hE hp path
  | fork q =>
    obtain ⟨hq, hqno⟩ := hfork q rfl
    exact (wp_fork h hE hp hq hqno).imp fun _ _ => And.left
  | exit => exact (wp_exit h hE hp (hexit rfl)).imp fun _ _ => And.left
  | writei fd src off n =>
    rw [call]
    refine wp_onFile h hm hp fd fun k s1 h1 hk hv ht => ?_
    refine (wp_writei_kept h1 hk hv (fun _ => by rw [ht]; decide) src off n).imp ?_
    exact fun _ t ht => ⟨ht.1, ht.2.1⟩
  | itrunc fd =>
    rw [call]
    refine wp_onFile h hm hp fd fun k s1 h1 hk hv ht => ?_
    exact (wp_itrunc_kept h1 hk hv ht).bind fun _ _ hk => (wp_pure _).mpr hk

end xv6.fs
