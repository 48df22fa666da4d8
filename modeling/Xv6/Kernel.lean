-- The open files and the processes: how often each file and each entry of the
-- inode table is held, and what every system call keeps of that.
import Xv6.Lib.Count
import Xv6.Create

open bytes ownership wp count Function

namespace xv6.fs

variable {sb : Superblock} {s t : Fs} {ts : List Nat} {k p f fd : Nat}
  {E : Stop → Prop} {ft : Nat → File} {pr : Nat → Proc}

/-! ## The tables -/

/-- The entry of the inode table that a file holds. -/
def File.inode (x : File) : Option Nat :=
  if x.type = .inode ∨ x.type = .device then some x.ip else none

/-- The end of a pipe that a file is: the pipe, and whether it is the end for writing. -/
def File.pipeEnd (x : File) : Option (Nat × Bool) :=
  if x.type = .pipe then some (x.pipe, x.writable) else none

@[irreducible] def fdSet : Finset (Nat × Nat) := Finset.range NPROC ×ˢ Finset.range NOFILE

/-- How many descriptors refer to file `f`. -/
def openCount (pr : Nat → Proc) (f : Nat) : Nat :=
  occ fdSet (fun x => (pr x.1).ofile x.2) (some f)

/-- How many current directories and files hold entry `k` of the inode table. -/
def holders (ft : Nat → File) (pr : Nat → Proc) (k : Nat) : Nat :=
  occ (Finset.range NPROC) (fun p => (pr p).cwd) (some k) +
    occ (Finset.range NFILE) (fun f => (ft f).inode) (some k)

structure Tables (ft : Nat → File) (pr : Nat → Proc) : Prop where
  files : ∀ f < NFILE, (ft f).ref = openCount pr f
  closed : ∀ f < NFILE, (ft f).ref = 0 → (ft f).type = .none
  fds : ∀ p < NPROC, ∀ fd < NOFILE, ∀ f, (pr p).ofile fd = some f → f < NFILE
  idle : ∀ p < NPROC, (pr p).cwd = none → ∀ fd < NOFILE, (pr p).ofile fd = none
  slots : ∀ k, 0 < holders ft pr k → k < NINODE

lemma holders_proc (ft : Nat → File) (pr : Nat → Proc) (hp : p < NPROC) (x : Proc) (k : Nat) :
    holders ft (update pr p x) k + (if (pr p).cwd = some k then 1 else 0) =
      holders ft pr k + (if x.cwd = some k then 1 else 0) := by
  have hcwd : (fun q => (update pr p x q).cwd) =
      update (fun q => (pr q).cwd) p x.cwd := by
    funext q
    by_cases hq : q = p
    · subst hq
      simp
    · simp [hq]
  have h := occ_update (f := fun q => (pr q).cwd) (Finset.mem_range.mpr hp) x.cwd (some k)
  unfold holders
  rw [hcwd]
  omega

lemma holders_file (ft : Nat → File) (pr : Nat → Proc) (hf : f < NFILE) (y : File) (k : Nat) :
    holders (update ft f y) pr k + (if (ft f).inode = some k then 1 else 0) =
      holders ft pr k + (if y.inode = some k then 1 else 0) := by
  have hinode : (fun g => (update ft f y g).inode) =
      update (fun g => (ft g).inode) f y.inode := by
    funext g
    by_cases hg : g = f
    · subst hg
      simp
    · simp [hg]
  have h := occ_update (f := fun g => (ft g).inode) (Finset.mem_range.mpr hf) y.inode (some k)
  unfold holders
  rw [hinode]
  omega

lemma holders_congr {ft' : Nat → File} {pr' : Nat → Proc} (hf : ∀ f, (ft' f).inode = (ft f).inode)
    (hp : ∀ p, (pr' p).cwd = (pr p).cwd) : holders ft' pr' = holders ft pr := by
  funext k
  unfold holders
  simp only [hf, hp]

lemma mem_fdSet {p fd : Nat} : (p, fd) ∈ fdSet ↔ p < NPROC ∧ fd < NOFILE := by
  unfold fdSet
  generalize NPROC = n
  generalize NOFILE = m
  simp

lemma openCount_fd (pr : Nat → Proc) (hp : p < NPROC) (hfd : fd < NOFILE) (v : Option Nat) (f : Nat) :
    openCount (update pr p { pr p with ofile := update (pr p).ofile fd v }) f +
        (if (pr p).ofile fd = some f then 1 else 0) =
      openCount pr f + (if v = some f then 1 else 0) := by
  have hrow : (fun x : Nat × Nat => (update pr p
      { pr p with ofile := update (pr p).ofile fd v } x.1).ofile x.2) =
      update (fun x : Nat × Nat => (pr x.1).ofile x.2) (p, fd) v := by
    funext x
    by_cases hx : x = (p, fd)
    · subst hx
      simp
    · rw [update_of_ne hx]
      by_cases hx1 : x.1 = p
      · have hx2 : x.2 ≠ fd := fun he => hx (Prod.ext hx1 he)
        rw [hx1, update_self]
        exact update_of_ne hx2 _ _
      · rw [update_of_ne hx1]
  unfold openCount
  rw [hrow]
  exact occ_update (f := fun x : Nat × Nat => (pr x.1).ofile x.2) (mem_fdSet.mpr ⟨hp, hfd⟩) v (some f)

lemma openCount_congr {pr' : Nat → Proc}
    (h : ∀ p < NPROC, ∀ fd < NOFILE, (pr' p).ofile fd = (pr p).ofile fd) :
    openCount pr' = openCount pr := by
  funext f
  apply occ_congr
  rintro ⟨p, fd⟩ hx
  obtain ⟨hp, hfd⟩ := mem_fdSet.mp hx
  exact h p hp fd hfd

lemma openCount_fork {q : Nat} (hq : q < NPROC) (hno : ∀ fd < NOFILE, (pr q).ofile fd = none)
    (x : Proc) (f : Nat) :
    openCount (update pr q x) f =
      openCount pr f + occ (Finset.range NOFILE) x.ofile (some f) := by
  have h := occ_row (A := Finset.range NPROC) (B := Finset.range NOFILE)
    (f := fun x => (pr x.1).ofile x.2)
    (g := fun y => (update pr q x y.1).ofile y.2) (Finset.mem_range.mpr hq)
    (fun y hy => by rw [update_of_ne hy]) (some f)
  have hzero : occ (Finset.range NOFILE) (fun j => (pr q).ofile j) (some f) = 0 := by
    rw [occ_eq_zero]
    intro j hj he
    rw [hno j (Finset.mem_range.mp hj)] at he
    cases he
  simp only [update_self] at h
  rw [hzero, Nat.add_zero] at h
  unfold openCount fdSet
  exact h

lemma Tables.ref_pos (h : Tables ft pr) (hp : p < NPROC) (hfd : fd < NOFILE)
    (hf : (pr p).ofile fd = some f) : 0 < (ft f).ref := by
  rw [h.files f (h.fds p hp fd hfd f hf)]
  unfold openCount
  rw [occ_pos]
  exact ⟨(p, fd), mem_fdSet.mpr ⟨hp, hfd⟩, hf⟩

lemma holders_pos_cwd (hp : p < NPROC) (h : (pr p).cwd = some k) : 0 < holders ft pr k := by
  have : 0 < occ (Finset.range NPROC) (fun p => (pr p).cwd) (some k) :=
    occ_pos.mpr ⟨p, Finset.mem_range.mpr hp, h⟩
  unfold holders
  omega

lemma holders_pos_file (hf : f < NFILE) (h : (ft f).type = .inode ∨ (ft f).type = .device) :
    0 < holders ft pr (ft f).ip := by
  have : 0 < occ (Finset.range NFILE) (fun f => (ft f).inode) (some (ft f).ip) :=
    occ_pos.mpr ⟨f, Finset.mem_range.mpr hf, by simp [File.inode, h]⟩
  unfold holders
  omega

/-! ## The kernel between two calls -/

/-- The state when no call is running. -/
structure Kernel (sb : Superblock) (s : Fs) : Prop where
  base : Base sb (holders s.ftable s.proc) [] s
  tables : Tables s.ftable s.proc

/-- A file that is open for writing is no directory. -/
def Writable (s : Fs) : Prop :=
  ∀ f < NFILE, (s.ftable f).type = .inode → (s.ftable f).writable = true →
    (tree s).type (s.itable (s.ftable f).ip).inum ≠ .dir

/-- A call that started in `s` has returned in `t`. -/
structure Returned (sb : Superblock) (s t : Fs) : Prop where
  kernel : Kernel sb t
  outcome : Sane (holders s.ftable s.proc) s → Writable s →
    Outcome sb.ninodes (holders t.ftable t.proc) s t ∧ Writable t

/-- The tree is sane, or a dangling entry may stop the call. -/
def CallMode (s : Fs) (E : Stop → Prop) : Prop :=
  Sane (holders s.ftable s.proc) s ∧ Writable s ∨ E (.panic "ilock: no type")

lemma CallMode.mode (h : CallMode s E) : Mode (holders s.ftable s.proc) s E :=
  h.imp (fun hs => hs.1.toSound) id

lemma Kernel.cwd_held (h : Kernel sb s) (hp : p < NPROC) :
    ∀ k, (s.proc p).cwd = some k → Held (holders s.ftable s.proc) [] k := by
  intro k hk
  have hpos : 0 < holders s.ftable _ _ := holders_pos_cwd hp hk
  exact ⟨h.tables.slots k hpos, .inl hpos⟩

lemma Kernel.file_held (h : Kernel sb s) (hf : f < NFILE)
    (ht : (s.ftable f).type = .inode ∨ (s.ftable f).type = .device) :
    Held (holders s.ftable s.proc) [] (s.ftable f).ip := by
  have hpos : 0 < holders _ s.proc _ := holders_pos_file hf ht
  exact ⟨h.tables.slots _ hpos, .inl hpos⟩

lemma Base.setTables {r : Nat → Nat} (h : Base sb r ts s) (ft : Nat → File) (pr : Nat → Proc) :
    Base sb r ts { s with ftable := ft, proc := pr } :=
  ⟨{ h.owned with }, h.distinct, h.synced, h.refs,
    h.temps⟩

lemma TreeStep.types {n : Nat} {T T' : Tree} (h : TreeStep n T T') (i : Nat) :
    T'.type i = T.type i ∨ T.type i = .free ∨ T'.type i = .free := by
  have hdrop : ∀ {j : Nat} {T T' : Tree}, Dropped j T T' →
      T'.type i = T.type i ∨ T'.type i = .free := by
    rintro j T T' (rfl | ⟨_, _, rfl⟩)
    · exact .inl rfl
    · by_cases hi : i = j
      · subst hi
        exact .inr (by simp [Tree.free, Tree.alloc])
      · exact .inl (by simp [Tree.free, Tree.alloc, hi])
  have halloc : ∀ {T : Tree} {j : Nat} {type : FileType}, T.type j = .free →
      (T.alloc j type).type i = T.type i ∨ T.type i = .free := by
    intro T j type hj
    by_cases hi : i = j
    · subst hi
      exact .inr hj
    · exact .inl (by simp [Tree.alloc, hi])
  cases h with
  | same => exact .inl rfl
  | drop j hd => exact (hdrop hd).imp id Or.inr
  | link => exact .inl rfl
  | create _ _ _ hfree _ _ _ => exact (halloc hfree).imp id Or.inl
  | mkdir _ _ _ hfree _ _ => exact (halloc hfree).imp id Or.inl
  | @unlink T1 _ d m j name _ _ _ _ _ _ _ hd hd' =>
    have hkeep : (T.unlinked d m j).type = T.type := by
      unfold Tree.unlinked Tree.clearEnt
      dsimp only
      split
      · rfl
      · rfl
    rcases hdrop hd' with h1 | h1
    · rcases hdrop hd with h2 | h2
      · exact .inl (by rw [h1, h2, hkeep])
      · exact .inr (.inr (by rw [h1, h2]))
    · exact .inr (.inr h1)

lemma Outcome.type_eq {r : Nat → Nat} {n : Nat} (h : Outcome n r s t) (hs : SlotsOK s)
    (hk : k < NINODE) (hi : (t.itable k).inum = (s.itable k).inum) (hpos : 0 < (s.itable k).ref)
    (hpos' : 0 < (t.itable k).ref) :
    (tree t).type (t.itable k).inum = (tree s).type (s.itable k).inum := by
  rw [hi]
  rcases h.step.types (s.itable k).inum with h1 | h1 | h1
  · exact h1
  · exact absurd h1 (hs k hk hpos).1
  · refine absurd ?_ (h.slots k hk hpos').1
    rw [hi]
    exact h1

lemma Kernel.returned (h : Kernel sb s) (hd : Done sb (holders s.ftable s.proc) s t) :
    Returned sb s t := by
  have hk : Kernel sb t := by
    refine ⟨?_, ?_⟩
    · rw [hd.tables.1, hd.tables.2]
      exact hd.base
    · rw [hd.tables.1, hd.tables.2]
      exact h.tables
  refine ⟨hk, fun hs hw => ?_⟩
  have ho := hd.outcome hs
  refine ⟨by rw [hd.tables.1, hd.tables.2]; exact ho, ?_⟩
  intro f hf ht hwr
  rw [hd.tables.1] at ht hwr ⊢
  have hheld := h.file_held hf (by rw [ht]; decide)
  rw [ho.type_eq hs.slots hheld.1 (hd.steady _ hheld).1 (hheld.ref_pos h.base)
    (hheld.ref_pos hd.base)]
  exact hw f hf ht hwr

end xv6.fs
