-- Every entry of a directory names an inode in use, in the runs that make no call
-- while a removed directory is still in use. The kernel does allow such calls: a
-- process can stay in a directory whose parent is gone.
import Xv6.Parents
import Xv6.RootImage

open bytes ownership wp count

namespace xv6.fs

variable {sb : Superblock} {s t img : Fs}

/-! ## Runs that keep the tree good -/

/-- An image whose tree is good, and whose inodes all have links. -/
structure WellLinked (sb : Superblock) (img : Fs) : Prop extends WellFormed sb img where
  good : Good sb.ninodes (tree img)
  linked : ∀ i, (tree img).type i ≠ .free → (tree img).nlink i ≠ 0

/-- An image whose links are exact, and whose directories name their parents. -/
structure WellCounted (sb : Superblock) (img : Fs) : Prop extends WellLinked sb img where
  exactly : Exactly sb.ninodes (tree img)
  parented : Parented (tree img)

/-- Every directory in use has links, and every file has fewer than 32767. -/
def Tidy (sb : Superblock) (s : Fs) : Prop :=
  ∀ i < sb.ninodes, ((s.dinode i).type = .dir → (s.dinode i).nlink ≠ 0) ∧
    ((s.dinode i).type ≠ .dir → (s.dinode i).nlink < 32767)

instance (s : Fs) : Decidable (Tidy sb s) := by
  unfold Tidy
  infer_instance

lemma sane_of_good {r : Nat → Nat} (hsb : sb.ninodes ≤ 65536) (h : Good sb.ninodes (tree s))
    (hheld : HeldOK r [] s) (hslots : SlotsOK s) : Sane r s := by
  refine ⟨⟨h.closed, hheld, by rw [h.root]; decide, hslots⟩, h.nonneg, h.le, fun i hi => ?_⟩
  have := h.range i hi
  omega

lemma WellLinked.sane (h : WellLinked sb img) : Sane (fun _ => 0) img := by
  refine sane_of_good h.ninodes h.good (fun i hi hn => absurd hn (h.linked i hi)) ?_
  intro k _ hpos
  rw [h.tables] at hpos
  simp [blank] at hpos

/-- The state between two calls, when the tree is good. -/
structure Orderly (sb : Superblock) (s : Fs) : Prop where
  kernel : Kernel sb s
  sane : Sane (holders s.ftable s.proc) s
  writable : Writable s
  good : Good sb.ninodes (tree s)

def OffDangling (e : Stop) : Prop := e ≠ .panic "ilock: no type"

lemma tolerates_offDangling : Tolerates OffDangling := by
  rintro e h rfl
  exact h (by decide)

lemma Orderly.call (h : Orderly sb s) (hsb : sb.ninodes ≤ 65536) {p : Nat} {c : Call}
    (hc : Allowed s p c) : Wp (call sb p c) (fun _ t => Returned sb s t ∧
      Outcome sb.ninodes (holders t.ftable t.proc) s t ∧ Writable t) OffDangling s := by
  refine (wp_call h.kernel (.inl ⟨h.sane, h.writable⟩) tolerates_offDangling hsb hc).imp ?_
  exact fun _ t hr => ⟨hr, hr.outcome h.sane h.writable⟩

lemma Returned.orderly (hr : Returned sb s t) (hsb : sb.ninodes ≤ 65536)
    (ho : Outcome sb.ninodes (holders t.ftable t.proc) s t) (hw : Writable t)
    (hg : Good sb.ninodes (tree t)) : Orderly sb t :=
  ⟨hr.kernel, sane_of_good hsb hg ho.held ho.slots, hw, hg⟩

lemma WellLinked.boot (h : WellLinked sb img) (hboot : (userinit sb).run img = .ok ((), s)) :
    Orderly sb s ∧ tree s = tree img := by
  obtain ⟨hk, hs⟩ := (wp_userinit h.toWellFormed tolerates_offDangling
    (.inl h.sane.toSound)).of_ok hboot
  obtain ⟨hsane, hw, htree⟩ := hs h.sane
  exact ⟨⟨hk, hsane, hw, by rw [htree]; exact h.good⟩, htree⟩

lemma Tidy.linked (h : Tidy sb s) (hg : Good sb.ninodes (tree s)) :
    AllLinked (tree s) ∧ FewLinks (tree s) := by
  have hrange : ∀ i, (s.dinode i).type ≠ .free → i < sb.ninodes := fun i hi => (hg.range i hi).2
  refine ⟨fun d hd => ?_, fun i hi => ?_⟩
  · have hused : (s.dinode d).type ≠ .free := by
      rw [show (s.dinode d).type = .dir from hd]
      decide
    have hn : (tree s).nlink d = (s.dinode d).nlink := if_neg hused
    rw [hn]
    exact (h d (hrange d hused)).1 hd
  · by_cases hfree : (s.dinode i).type = .free
    · have hn : (tree s).nlink i = 0 := if_pos hfree
      rw [hn]
      decide
    · have hn : (tree s).nlink i = (s.dinode i).nlink := if_neg hfree
      rw [hn]
      exact (h i (hrange i hfree)).2 hi

/-- The tree between two calls of a tidy run. -/
structure Neat (sb : Superblock) (s : Fs) : Prop extends Orderly sb s where
  exactly : Exactly sb.ninodes (tree s)
  parented : Parented (tree s)

lemma RunWith.neat (h : WellCounted sb img) (hrun : RunWith (fun s _ => Tidy sb s) sb img s) :
    Neat sb s := by
  induction hrun with
  | boot hboot =>
    obtain ⟨ho, htree⟩ := h.toWellLinked.boot hboot
    exact ⟨ho, by rw [htree]; exact h.exactly, by rw [htree]; exact h.parented⟩
  | next _ hallowed hcall htidy ih =>
    obtain ⟨hlinked, hfew⟩ := htidy.linked ih.good
    obtain ⟨hr, ho, hw⟩ := (ih.toOrderly.call h.ninodes hallowed).of_ok hcall
    obtain ⟨hkeep, hpar⟩ := ih.parented.step ih.exactly hlinked ho.step
    have hx := ih.exactly.step ho.step (treelike_tree hr.kernel.base.owned) hkeep
      (fun d _ hd _ _ => hlinked d hd) hfew
    exact ⟨hr.orderly h.ninodes ho hw hx.toGood, hx, hpar⟩

/-- In a run whose calls are all made in tidy states every entry of every directory in use names an
inode in use, and no call finds a free inode where it locks one. -/
theorem entries_name_inodes_in_use (h : WellCounted sb img)
    (hrun : RunWith (fun s _ => Tidy sb s) sb img s) :
    (∀ d m, (s.dinode d).type = .dir → DIRENT * m + DIRENT ≤ (s.dinode d).size →
      (entryAt s d m).inum ≠ 0 → (s.dinode (entryAt s d m).inum).type ≠ .free) ∧
    ∀ p c, Allowed s p c → (call sb p c).run s ≠ .error (.panic "ilock: no type") := by
  have ho := (hrun.neat h).toOrderly
  refine ⟨fun d m hd hm hne => ?_, fun p c hallowed herr => ?_⟩
  · refine ho.good.closed d m ((entryAt s d m).inum, (entryAt s d m).name) ?_
    simp [tree, hd, hm, hne]
  · exact (ho.call h.ninodes hallowed).of_error herr rfl

lemma wellLinked_rootImage : WellLinked rootSb rootImage := by
  refine ⟨wellFormed_rootImage, good_rootImage, fun i hi => ?_⟩
  rw [type_rootImage] at hi
  rw [nlink_rootImage]
  split at hi
  · rename_i hr
    rw [if_pos hr]
    decide
  · exact absurd rfl hi

lemma exactly_rootImage : Exactly rootSb.ninodes (tree rootImage) := by
  have hroot : ∀ i, (tree rootImage).type i ≠ .free → i = ROOTINO := by
    intro i hi
    by_contra hne
    rw [type_rootImage, if_neg hne] at hi
    exact hi rfl
  refine ⟨good_rootImage, ?_, ?_, naming_rootImage _ _, ?_, ?_⟩
  · intro i hi
    unfold links
    rw [hroot i hi, naming_rootImage, subdirs_rootImage, nlink_rootImage]
    rfl
  · intro d _
    rw [naming_rootImage]
    exact Nat.zero_le 1
  · exact fun d _ _ _ m => proper_rootImage d m
  · intro d hd _
    rw [hroot d (by rw [hd]; decide)]
    exact .root

lemma parented_rootImage : Parented (tree rootImage) := by
  refine ⟨by rw [ent_rootImage]; rfl, fun c d hc _ => .inl ?_⟩
  by_contra hne
  rw [type_rootImage, if_neg hne] at hc
  cases hc

lemma wellCounted_rootImage : WellCounted rootSb rootImage :=
  ⟨wellLinked_rootImage, exactly_rootImage, parented_rootImage⟩

/-- "/a", "/a/b" and the file "/a/f" are made, the file gets a second name "/g" and loses its first,
the directories are removed, and the file, which is still open, loses its last name. -/
def tidyCalls : List (Nat × Call) :=
  [(0, .unlink [47, 103]), (0, .unlink [47, 97]), (0, .unlink [47, 97, 47, 98]),
    (0, .unlink [47, 97, 47, 102]), (0, .link [47, 97, 47, 102] [47, 103]),
    (0, .open_ [47, 97, 47, 102] { O_RDONLY with rdwr := true, create := true }),
    (0, .mkdir [47, 97, 47, 98]), (0, .mkdir [47, 97])]

theorem entries_name_inodes_in_use_tidy : ∃ s,
    RunWith (fun s _ => Tidy rootSb s) rootSb rootImage s ∧
    (s.dinode 4).type = .file ∧
    ∀ p c, Allowed s p c → (call rootSb p c).run s ≠ .error (.panic "ilock: no type") := by
  obtain ⟨s, hrun, hs⟩ := @exists_runWith (fun s _ => Tidy rootSb s) rootSb rootImage
    (fun s => decide (Tidy rootSb s))
    (fun s => decide ((s.dinode 4).type = .file)) (fun _ _ h => of_decide_eq_true h) tidyCalls
    (by decide +kernel)
  exact ⟨s, hrun, of_decide_eq_true hs, (entries_name_inodes_in_use wellCounted_rootImage hrun).2⟩

/-- "/a" and "/a/b" are made, the process enters "/a/b", and both are removed. -/
def orphanCalls : List (Nat × Call) :=
  [(0, .unlink [47, 97]), (0, .unlink [47, 97, 47, 98]), (0, .chdir [47, 97, 47, 98]),
    (0, .mkdir [47, 97, 47, 98]), (0, .mkdir [47, 97])]

/-- The directory of the process is still in use, its ".." is free, and to open ".." stops the
kernel. -/
def orphaned (s : Fs) : Bool :=
  (s.dinode 3).type = .dir && DIRENT * 1 + DIRENT ≤ (s.dinode 3).size &&
    (entryAt s 3 1).inum = 2 && (s.dinode 2).type = .free &&
    decide (Allowed s 0 (.open_ [46, 46] O_RDONLY)) &&
    stopOf ((call rootSb 0 (.open_ [46, 46] O_RDONLY)).run s) = some (.panic "ilock: no type")

/-- A process that stays in "/a/b" while both directories are removed has a ".." that names a
free inode, and stops the kernel when it opens it. -/
theorem a_removed_parent_dangles : ∃ s, Run rootSb rootImage s ∧
    (s.dinode 3).type = .dir ∧ DIRENT * 1 + DIRENT ≤ (s.dinode 3).size ∧
    (entryAt s 3 1).inum = 2 ∧ (s.dinode 2).type = .free ∧
    Allowed s 0 (.open_ [46, 46] O_RDONLY) ∧
    (call rootSb 0 (.open_ [46, 46] O_RDONLY)).run s = .error (.panic "ilock: no type") := by
  obtain ⟨s, hrun, hs⟩ := @exists_run rootSb rootImage orphaned orphanCalls
    (by decide +kernel)
  simp only [orphaned, Bool.and_eq_true, decide_eq_true_eq] at hs
  obtain ⟨⟨⟨⟨⟨h1, h2⟩, h3⟩, h4⟩, h5⟩, h6⟩ := hs
  exact ⟨s, hrun, h1, h2, h3, h4, h5, stopOf_eq_some h6⟩

end xv6.fs
