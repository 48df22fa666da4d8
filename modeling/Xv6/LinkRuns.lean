-- The link counts are exact, and every inode in use is held or can be reached, in
-- the runs that make no call while a removed directory is still in use. The kernel
-- does make entries in such a directory, and what they name is lost when it goes.
import Xv6.Dangling

open bytes ownership wp count

namespace xv6.fs

variable {sb : Superblock} {s t img : Fs} {n i : Nat} {T : Tree}

/-! ## The law -/

/-- How many entries name inode `i`, "." and ".." among them. -/
def entriesNaming (n : Nat) (T : Tree) (i : Nat) : Nat :=
  occ (entSet n) (fun x => (T.ent x.1 x.2).map Prod.fst) (some i)

lemma Good.entriesNaming_eq (h : Good n T) (hi : T.type i ≠ .dir) :
    entriesNaming n T i = naming n T i := by
  unfold entriesNaming naming occ
  congr 1
  refine Finset.filter_congr fun x _ => ?_
  rw [proper_eq_some]
  constructor
  · intro hx
    obtain ⟨⟨j, name⟩, he, rfl⟩ := Option.map_eq_some_iff.mp hx
    refine ⟨name, he, ?_⟩
    obtain ⟨e0, p, e1, hp⟩ := h.dots x.1 (h.dirs _ _ (by rw [he]; simp))
    have hx2 : x.2 = 0 ∨ x.2 = 1 ∨ 2 ≤ x.2 := by omega
    rcases hx2 with h0 | h1 | h2
    · rw [h0, e0] at he
      cases he
      exact absurd (h.dirs _ _ (by rw [e0]; simp)) hi
    · rw [h1, e1] at he
      cases he
      exact absurd hp hi
    · obtain ⟨n1, n2, _⟩ := h.names _ _ _ _ h2 he
      exact ⟨n1, n2⟩
  · rintro ⟨name, he, _⟩
    exact Option.map_eq_some_iff.mpr ⟨_, he, rfl⟩

/-- An entry of the inode table holds inode `i`. -/
def InMemory (s : Fs) (i : Nat) : Prop :=
  ∃ k < NINODE, 0 < (s.itable k).ref ∧ (s.itable k).inum = i

/-- In a run whose calls are all made in tidy states the link count of a file or a device is the number of the entries
that name it; that of a directory is the number of its names, and of the directories it names,
and one more for the root. No inode in use is both out of memory and out of reach. -/
theorem link_counts_are_exact (h : WellCounted sb img)
    (hrun : RunWith (fun s _ => Tidy sb s) sb img s) :
    (∀ i, (s.dinode i).type = .file ∨ (s.dinode i).type = .device →
      (s.dinode i).nlink = entriesNaming sb.ninodes (tree s) i) ∧
    (∀ d, (s.dinode d).type = .dir → (s.dinode d).nlink =
      naming sb.ninodes (tree s) d + subdirs (tree s) d + if d = ROOTINO then 1 else 0) ∧
    ∀ i, (s.dinode i).type ≠ .free → InMemory s i ∨ Reach (tree s) i := by
  obtain ⟨ho, hx, _⟩ := hrun.neat h
  have hnlink : ∀ i, (s.dinode i).type ≠ .free → (tree s).nlink i = (s.dinode i).nlink :=
    fun i hi => if_neg hi
  refine ⟨fun i hi => ?_, fun d hd => ?_, fun i hi => ?_⟩
  · have hused : (s.dinode i).type ≠ .free := by
      rcases hi with hi | hi <;> rw [hi] <;> decide
    have hdir : (tree s).type i ≠ .dir := by
      show (s.dinode i).type ≠ .dir
      rcases hi with hi | hi <;> rw [hi] <;> decide
    rw [← hnlink i hused, hx.exact i hused, hx.entriesNaming_eq hdir, hx.links_file hdir]
  · have hused : (s.dinode d).type ≠ .free := by
      rw [hd]
      decide
    rw [← hnlink d hused, hx.exact d hused]
    simp only [links, Nat.cast_add, Nat.cast_ite, Nat.cast_one, Nat.cast_zero]
  · by_cases hn : (tree s).nlink i = 0
    · have hheld := ho.sane.held i hi hn
      obtain ⟨k, hk, hr, hki⟩ := hheld.resolve_right List.not_mem_nil
      refine .inl ⟨k, hk, ?_, hki⟩
      have hrefs := ho.kernel.base.refs k hk
      rw [List.count_nil, Nat.add_zero] at hrefs
      rw [hrefs]
      exact hr
    · have hreach := hx.reach_of_links hi hn
      exact .inr hreach

/-- "/a" and the file "/a/f" are made, the file gets a second name "/g", and "/a/b" is made and
removed. -/
def countedCalls : List (Nat × Call) :=
  [(0, .unlink [47, 97, 47, 98]), (0, .mkdir [47, 97, 47, 98]),
    (0, .link [47, 97, 47, 102] [47, 103]),
    (0, .open_ [47, 97, 47, 102] { O_RDONLY with rdwr := true, create := true }),
    (0, .mkdir [47, 97])]

theorem link_counts_are_exact_counted : ∃ s,
    RunWith (fun s _ => Tidy rootSb s) rootSb rootImage s ∧ (s.dinode 3).nlink = 2 ∧
      entriesNaming rootSb.ninodes (tree s) 3 = 2 := by
  obtain ⟨s, hrun, hs⟩ := @exists_runWith (fun s _ => Tidy rootSb s) rootSb rootImage
    (fun s => decide (Tidy rootSb s))
    (fun s => decide ((s.dinode 3).type = .file ∧ (s.dinode 3).nlink = 2))
    (fun _ _ h => of_decide_eq_true h) countedCalls (by decide +kernel)
  obtain ⟨hfile, htwo⟩ := of_decide_eq_true hs
  have hcount := (link_counts_are_exact wellCounted_rootImage hrun).1 3 (.inl hfile)
  exact ⟨s, hrun, htwo, by omega⟩

/-! ## A file that is lost -/

/-- "/d" is made, entered and removed; "x" is made in it; and the process leaves. -/
def lostCalls : List (Nat × Call) :=
  [(0, .chdir [47]), (0, .close 0),
    (0, .open_ [120] { O_RDONLY with rdwr := true, create := true }), (0, .unlink [47, 100]),
    (0, .chdir [47, 100]), (0, .mkdir [47, 100])]

/-- Inode 3 is a file with one link, no entry of the inode table holds it, and the root, whose
entries do not name it, is the only directory. -/
def lost (s : Fs) : Bool :=
  (s.dinode 3).type = .file && (s.dinode 3).nlink = 1 &&
    ((List.range NINODE).all fun k => (s.itable k).inum ≠ 3 || (s.itable k).ref = 0) &&
    ((List.range rootSb.ninodes).all fun d => d = ROOTINO || (s.dinode d).type ≠ .dir) &&
    (s.dinode ROOTINO).size ≤ DIRENT * 3 &&
    ((List.range 3).all fun m => (entryAt s ROOTINO m).inum ≠ 3)

/-- What is made in a removed directory keeps its link when the directory goes, although no
entry names it: it can be neither reached nor freed. -/
theorem a_file_in_a_removed_directory_is_lost : ∃ s, Run rootSb rootImage s ∧
    (s.dinode 3).type = .file ∧ (s.dinode 3).nlink = 1 ∧
    entriesNaming rootSb.ninodes (tree s) 3 = 0 ∧ ¬ InMemory s 3 := by
  obtain ⟨s, hrun, hs⟩ := @exists_run rootSb rootImage lost lostCalls (by decide +kernel)
  simp only [lost, Bool.and_eq_true, decide_eq_true_eq, List.all_eq_true, List.mem_range,
    Bool.or_eq_true] at hs
  obtain ⟨⟨⟨⟨⟨h1, h2⟩, h3⟩, h4⟩, h5⟩, h6⟩ := hs
  refine ⟨s, hrun, h1, h2, ?_, ?_⟩
  · unfold entriesNaming
    rw [occ_eq_zero]
    rintro ⟨d, m⟩ hx he
    obtain ⟨hd, _⟩ := mem_entSet.mp hx
    simp only [tree] at he
    split at he
    · rename_i hc
      obtain ⟨hdir, hfits, _⟩ := hc
      obtain rfl := (h4 d hd).resolve_right fun hne => hne hdir
      have hm : m < 3 := by
        have hD : DIRENT = 16 := rfl
        rw [hD] at hfits h5
        omega
      exact h6 m hm (by simpa using he)
    · cases he
  · rintro ⟨k, hk, hpos, hki⟩
    rcases h3 k hk with hne | hz
    · exact hne hki
    · omega

end xv6.fs
