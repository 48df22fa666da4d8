-- The smallest image: a disk of the size that `mkfs` makes with nothing on it
-- but the root directory. The runs in it can be computed.
import Xv6.Runs
import Xv6.TreeLaws

open bytes ownership wp count

namespace xv6.fs

/-! ## The image -/

def rootSb : Superblock := { size := 2000, nblocks := 1954, ninodes := 200 }

/-- The first data block holds the two entries of the root. -/
def rootDinode : Dinode :=
  { type := .dir, major := 0, minor := 0, nlink := 1, size := 2 * DIRENT,
    addrs := fun pos => if pos = 0 then rootSb.nmeta else 0 }

def freeDinode : Dinode :=
  { type := .free, major := 0, minor := 0, nlink := 0, size := 0, addrs := fun _ => 0 }

def rootData (b : Nat) : Bytes := fun x =>
  if b = rootSb.nmeta then
    ((Dirent.bytes ⟨ROOTINO, if x / DIRENT = 0 then dot else dotdot⟩) (x % DIRENT)).getD 0
  else
    0

def rootImage : Fs :=
  blank (fun b => b ≤ rootSb.nmeta) (fun i => if i = ROOTINO then rootDinode else freeDinode)
    rootData

lemma refAt_rootImage (p : Nat × Nat) :
    refAt rootImage p = if p = (ROOTINO, 0) then rootSb.nmeta else 0 := by
  have hdin : rootImage.dinode p.1 = if p.1 = ROOTINO then rootDinode else freeDinode := rfl
  unfold refAt
  rw [hdin]
  by_cases hi : p.1 = ROOTINO
  · rw [if_pos hi]
    have hp : (p = (ROOTINO, 0)) ↔ p.2 = 0 := by
      constructor
      · rintro rfl
        rfl
      · intro h
        exact Prod.ext hi h
    simp only [hp, Dinode.place, rootDinode]
    by_cases h0 : p.2 = 0
    · simp [h0, NPLACE, NDIRECT]
    · simp [h0, NDIRECT]
  · rw [if_neg hi, place_of_free rfl, if_neg]
    rintro rfl
    exact hi rfl

lemma wellFormed_rootImage : WellFormed rootSb rootImage := by
  have hmeta : rootSb.nmeta = 46 := rfl
  have hsize : rootSb.size = 2000 := rfl
  have hused : ∀ i, (rootImage.dinode i).type ≠ .free → i = ROOTINO := by
    intro i hi
    by_contra hne
    exact hi (by simp [rootImage, blank, hne, freeDinode])
  have hroot : (rootImage.dinode ROOTINO).size = 2 * DIRENT := rfl
  refine ⟨⟨by decide, ⟨by decide, ?_, ?_, ?_⟩, ?_, ?_⟩, rfl, by decide⟩
  · intro p hp
    rw [refAt_rootImage] at hp ⊢
    split at hp
    · rename_i h1
      rw [if_pos h1, hmeta, hsize]
      omega
    · exact absurd rfl hp
  · intro p q hp hpq
    rw [refAt_rootImage] at hp
    rw [refAt_rootImage, refAt_rootImage] at hpq
    split at hp
    · rename_i h1
      rw [if_pos h1] at hpq
      split at hpq
      · rename_i h2
        rw [h1, h2]
      · rw [hmeta] at hpq
        omega
    · exact absurd rfl hp
  · intro b _
    have hbit : (rootImage.bitmap b = true) ↔ b ≤ 46 := by
      simp [rootImage, blank, hmeta]
    rw [hbit, hmeta]
    constructor
    · intro hb
      by_cases h46 : b = 46
      · exact .inr ⟨(ROOTINO, 0), by rw [refAt_rootImage, if_pos rfl, h46, hmeta]⟩
      · exact .inl (by omega)
    · rintro (hb | ⟨p, hp⟩)
      · omega
      · rw [refAt_rootImage, hmeta] at hp
        split at hp
        · omega
        · omega
  · intro i hi bn hbn
    obtain rfl := hused i hi
    rw [hroot] at hbn
    have hbn0 : bn = 0 := by
      have h1 : BSIZE = 1024 := rfl
      have h2 : DIRENT = 16 := rfl
      rw [h1, h2] at hbn
      omega
    subst hbn0
    unfold blockOf
    rw [refAt_rootImage, if_pos (by decide)]
    decide
  · intro i hi
    obtain rfl := hused i hi
    rw [hroot]
    decide

lemma ent_rootImage (d m : Nat) : (tree rootImage).ent d m =
    if d = ROOTINO ∧ m = 0 then some (ROOTINO, dot)
    else if d = ROOTINO ∧ m = 1 then some (ROOTINO, dotdot) else none := by
  by_cases hd : d = ROOTINO
  · subst hd
    have hm : m = 0 ∨ m = 1 ∨ 2 ≤ m := by omega
    rcases hm with rfl | rfl | hm
    · decide
    · decide
    · have hfits : ¬ DIRENT * m + DIRENT ≤ (rootImage.dinode ROOTINO).size := by
        have h1 : (rootImage.dinode ROOTINO).size = 32 := rfl
        have h2 : DIRENT = 16 := rfl
        rw [h1, h2]
        omega
      simp only [tree]
      rw [if_neg fun h => hfits h.2.1, if_neg (by omega), if_neg (by omega)]
  · have hfree : (rootImage.dinode d).type = .free := by
      simp [rootImage, blank, hd, freeDinode]
    simp [tree, hfree, hd]

lemma type_rootImage (i : Nat) :
    (tree rootImage).type i = if i = ROOTINO then .dir else .free := by
  by_cases hi : i = ROOTINO
  · subst hi
    rfl
  · simp [tree, rootImage, blank, hi, freeDinode]

lemma nlink_rootImage (i : Nat) :
    (tree rootImage).nlink i = if i = ROOTINO then 1 else 0 := by
  by_cases hi : i = ROOTINO
  · subst hi
    rfl
  · simp [tree, rootImage, blank, hi, freeDinode]

lemma proper_rootImage (d m : Nat) : proper ((tree rootImage).ent d m) = none := by
  rw [ent_rootImage]
  split
  · simp
  · split
    · simp
    · simp

lemma naming_rootImage (n i : Nat) : naming n (tree rootImage) i = 0 := by
  by_contra hne
  obtain ⟨d, m, _, _, hp⟩ := naming_pos.mp (Nat.pos_of_ne_zero hne)
  rw [proper_rootImage] at hp
  cases hp

lemma subdirs_rootImage (i : Nat) : subdirs (tree rootImage) i = 0 := by
  by_contra hne
  obtain ⟨m, _, hp⟩ := subdirs_pos.mp (Nat.pos_of_ne_zero hne)
  obtain ⟨j, hj, _⟩ := namesDir_iff.mp hp
  rw [proper_rootImage] at hj
  cases hj

lemma good_rootImage : Good rootSb.ninodes (tree rootImage) := by
  have hused : ∀ i, (tree rootImage).type i ≠ .free → i = ROOTINO := by
    intro i hi
    by_contra hne
    rw [type_rootImage, if_neg hne] at hi
    exact hi rfl
  refine ⟨treelike_tree wellFormed_rootImage.owned, ?_, ?_, ?_, ?_, ?_, ?_⟩
  · intro i hi
    rw [hused i hi]
    decide
  · rfl
  · intro d hd
    rw [hused d (by rw [hd]; decide), ent_rootImage, ent_rootImage]
    exact ⟨rfl, ROOTINO, rfl, rfl⟩
  · intro d m i name hm he
    rw [ent_rootImage, if_neg (by omega), if_neg (by omega)] at he
    cases he
  · intro i hi
    unfold links
    rw [naming_rootImage, subdirs_rootImage, nlink_rootImage]
    split
    · decide
    · decide
  · intro i
    rw [nlink_rootImage]
    split
    · decide
    · decide

/-! ## Runs that can be computed -/

instance (s : Fs) (p : Nat) : (c : Call) → Decidable (Allowed s p c)
  | .fork q => decidable_of_iff (p < NPROC ∧ (s.proc p).cwd ≠ none ∧ q < NPROC ∧
      (s.proc q).cwd = none) (by simp [Allowed])
  | .exit => decidable_of_iff (p < NPROC ∧ (s.proc p).cwd ≠ none ∧
      ∀ fd < NOFILE, (s.proc p).ofile fd = none) (by simp [Allowed])
  | .dup _ | .read _ _ _ | .write _ _ _ | .close _ | .link _ _ | .unlink _ | .open_ _ _ | .mkdir _
  | .mknod _ _ _ | .chdir _ | .writei _ _ _ _ | .itrunc _ =>
    decidable_of_iff (p < NPROC ∧ (s.proc p).cwd ≠ none) (by simp [Allowed])

/-- The state after the boot from the image and the calls, the last one first, if each is made in a
state that passes the test. -/
def runCalls (ok : Fs → Bool) (sb : Superblock) : List (Nat × Call) → Fs → Option Fs
  | [], img =>
    match (userinit sb).run img with
    | .ok (_, s) => some s
    | .error _ => none
  | (p, c) :: cs, img =>
    match runCalls ok sb cs img with
    | none => none
    | some s =>
      if Allowed s p c ∧ ok s = true then
        match (call sb p c).run s with
        | .ok (_, t) => some t
        | .error _ => none
      else
        none

lemma runCalls_run {C : Fs → Fs → Prop} {ok : Fs → Bool} (hok : ∀ s t, ok s = true → C s t)
    {sb : Superblock} {img s : Fs} {cs : List (Nat × Call)}
    (h : runCalls ok sb cs img = some s) : RunWith C sb img s := by
  induction cs generalizing s with
  | nil =>
    unfold runCalls at h
    split at h
    · rename_i hrun
      cases h
      exact .boot hrun
    · cases h
  | cons x cs ih =>
    obtain ⟨p, c⟩ := x
    unfold runCalls at h
    split at h
    · cases h
    · rename_i s' hs'
      split at h
      · rename_i hallowed
        split at h
        · rename_i hrun
          cases h
          exact .next (ih hs') hallowed.1 hrun (hok _ _ hallowed.2)
        · cases h
      · cases h

lemma RunWith.run {C : Fs → Fs → Prop} {sb : Superblock} {img s : Fs} (h : RunWith C sb img s) :
    Run sb img s := by
  induction h with
  | boot hboot => exact .boot hboot
  | next _ hallowed hcall _ ih => exact .next ih hallowed hcall

lemma exists_runWith {C : Fs → Fs → Prop} {sb : Superblock} {img : Fs} (ok P : Fs → Bool)
    (hok : ∀ s t, ok s = true → C s t) (cs : List (Nat × Call))
    (h : (runCalls ok sb cs img).any P = true) : ∃ s, RunWith C sb img s ∧ P s = true := by
  obtain ⟨s, hs, hP⟩ := (Option.any_eq_true _ _).mp h
  exact ⟨s, runCalls_run hok hs, hP⟩

lemma exists_run {sb : Superblock} {img : Fs} {P : Fs → Bool} (cs : List (Nat × Call))
    (h : (runCalls (fun _ => true) sb cs img).any P = true) : ∃ s, Run sb img s ∧ P s = true := by
  obtain ⟨s, hs, hP⟩ := exists_runWith (C := fun _ _ => True) (fun _ => true) P
    (fun _ _ _ => trivial) cs h
  exact ⟨s, hs.run, hP⟩

/-- How a call stops. -/
def stopOf {α : Type} (x : Except Stop α) : Option Stop :=
  match x with
  | .ok _ => none
  | .error e => some e

lemma stopOf_eq_some {α : Type} {x : Except Stop α} {e : Stop} (h : stopOf x = some e) :
    x = .error e := by
  cases x with
  | ok a => cases h
  | error e' =>
    cases h
    rfl

/-- The state after the boot from the smallest image. -/
def booted : Fs :=
  match (userinit rootSb).run rootImage with
  | .ok (_, s) => s
  | .error _ => rootImage

lemma booted_ok : (userinit rootSb).run rootImage = .ok ((), booted) := by rfl

/-- The first process opens the root directory. -/
def openedRoot : Fs :=
  match (call rootSb 0 (.open_ [slash] O_RDONLY)).run booted with
  | .ok (_, t) => t
  | .error _ => booted

lemma openedRoot_ok :
    (call rootSb 0 (.open_ [slash] O_RDONLY)).run booted = .ok (0, openedRoot) := by rfl

lemma allowed_openRoot : Allowed booted 0 (.open_ [slash] O_RDONLY) := by decide

lemma tree_booted : tree booted = tree rootImage := by rfl

lemma tree_openedRoot : tree openedRoot = tree rootImage := by rfl

end xv6.fs
