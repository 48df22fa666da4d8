-- The laws of the inode table: an inode has one entry, which counts the pointers
-- to it and agrees with the disk when nobody holds its lock, and an inode is
-- freed only when it has no links and one last pointer.
import Xv6.Inodes
import Xv6.Lib.Pointers

open cells machine List

namespace xv6.inodes

open fs (FileType Dinode)

variable {s t : State} {p q k j dev inum : Nat} {ninodes : Nat → Nat}

/-! ## How the acts are used -/

/-- As the callers in the kernel do: `iget` is called on inodes with links, an inode gets a type
when it is allocated and keeps it, `iupdate` follows every change before the inode is unlocked,
and the inode is unlocked before its pointer is put. -/
def Used (s : State) : Act → Prop
  | .iget _ dev inum => 0 < (s.disk dev inum).nlink ∨ ∃ k < NINODE, 0 < (s.entry k).ref ∧
      (s.entry k).dev = dev ∧ (s.entry k).inum = inum ∧ (s.entry k).valid = true ∧
      0 < (s.entry k).d.nlink
  | .ialloc _ _ type => type ≠ .free
  | .modify _ k d => d.type = (s.entry k).d.type
  | .iunlock _ k => (s.entry k).dirty = false
  | .iput p k => (s.entry k).lock ≠ some p
  | _ => True

instance (s : State) (a : Act) : Decidable (Used s a) := by
  cases a
  all_goals unfold Used
  all_goals infer_instance

/-! ## The pointers of all processes -/

def total (proc : Nat → Proc) (k : Nat) : Nat := pointers.total NPROC (fun p => (proc p).refs) k

lemma total_setPc (proc : Nat → Proc) (p : Nat) (pc : Pc) (k : Nat) :
    total (put proc p { proc p with pc := pc }) k = total proc k := by
  apply pointers.total_congr
  intro q
  by_cases hq : q = p
  · rw [hq, put_self]
  · rw [put_of_ne hq]

lemma total_point (hp : p < NPROC) (proc : Nat → Proc) (k j : Nat) :
    total (put proc p { pc := .idle, refs := k :: (proc p).refs }) j =
      total proc j + if j = k then 1 else 0 := by
  apply pointers.total_cons hp
  · rw [put_self]
  · intro q hq
    rw [put_of_ne hq]

lemma total_drop {proc : Nat → Proc} (hp : p < NPROC) (hk : k ∈ (proc p).refs) (j : Nat) :
    total (put proc p { pc := .idle, refs := (proc p).refs.erase k }) j =
      total proc j - if j = k then 1 else 0 := by
  apply pointers.total_erase hp hk
  · rw [put_self]
  · intro q hq
    rw [put_of_ne hq]

/-! ## The invariant -/

/-- In a part of a call that holds the lock of entry `k`. -/
def Pc.on (k : Nat) : Pc → Bool
  | .load j | .itrunc j | .free j | .invalidate j => j = k
  | _ => false

def Pc.ends (k : Nat) (pc : Pc) : Prop := pc = .drop k ∨ pc = .invalidate k

def State.block (s : State) (k : Nat) : Dinode := s.disk (s.entry k).dev (s.entry k).inum

/-- The inode is free, or `ialloc` has marked it and has no pointer to it yet. -/
def State.Vacant (s : State) (dev inum : Nat) : Prop :=
  (s.disk dev inum).type = .free ∨ ∃ q, (s.proc q).pc = .iget dev inum

structure Inv (s : State) : Prop where
  slot : ∀ p k, k ∈ (s.proc p).refs → p < NPROC ∧ k < NINODE
  count : ∀ k, (s.entry k).ref = total s.proc k
  unique : ∀ j k, 0 < (s.entry j).ref → 0 < (s.entry k).ref →
    (s.entry j).dev = (s.entry k).dev → (s.entry j).inum = (s.entry k).inum → j = k
  holder : ∀ k p, (s.entry k).lock = some p → k ∈ (s.proc p).refs
  clean : ∀ k, (s.entry k).dirty = true → ∃ p, (s.entry k).lock = some p ∧ (s.proc p).pc.on k = false
  filled : ∀ k p, (s.entry k).lock = some p → (s.proc p).pc.on k = false → (s.entry k).valid = true
  loading : ∀ p k, (s.proc p).pc = .load k → (s.entry k).lock = some p ∧ (s.entry k).valid = false
  freeing : ∀ p k, (s.proc p).pc = .itrunc k ∨ (s.proc p).pc = .free k →
    (s.entry k).lock = some p ∧ (s.entry k).valid = true ∧ (s.entry k).ref = 1 ∧
      (s.entry k).d.nlink = 0
  torn : ∀ p k, (s.proc p).pc = .invalidate k → (s.entry k).lock = some p ∧ (s.entry k).d.nlink = 0
  last : ∀ p k, (s.proc p).pc.ends k → (s.proc p).refs.count k = 1
  agree : ∀ k, 0 < (s.entry k).ref → (s.entry k).valid = true →
    (∀ p, (s.entry k).lock = some p → (s.proc p).pc ≠ .invalidate k) → (s.entry k).d.type ≠ .free ∧
      (s.block k).type = (s.entry k).d.type ∧ ((s.entry k).dirty = false → s.block k = (s.entry k).d)
  vacant : ∀ dev inum, s.Vacant dev inum → (s.disk dev inum).nlink = 0
  ended : ∀ k r, 0 < (s.entry k).ref → s.Vacant (s.entry k).dev (s.entry k).inum →
    k ∈ (s.proc r).refs → (s.proc r).pc.ends k
  held : ∀ k, 0 < (s.entry k).ref → s.Vacant (s.entry k).dev (s.entry k).inum →
    (s.entry k).valid = true → (s.entry k).lock ≠ none ∧
      ∀ r, (s.entry k).lock = some r → (s.proc r).pc = .invalidate k
  marked : ∀ q dev inum, (s.proc q).pc = .iget dev inum → (s.disk dev inum).type ≠ .free
  alone : ∀ q r dev inum, (s.proc q).pc = .iget dev inum → (s.proc r).pc = .iget dev inum → q = r
  typed : ∀ q dev type inum, (s.proc q).pc = .ialloc dev type inum → type ≠ .free
  released : ∀ p k, (s.proc p).pc = .drop k → (s.entry k).lock ≠ some p

lemma Inv.sole (hI : Inv s) (hr : (s.entry k).ref = 1) (hp : k ∈ (s.proc p).refs)
    (hq : k ∈ (s.proc q).refs) : p = q := by
  by_contra hne
  have h : 2 ≤ total s.proc k :=
    pointers.total_two (hI.slot p k hp).1 (hI.slot q k hq).1 hne hp hq
  have := hI.count k
  omega

lemma Inv.ref_pos (hI : Inv s) (hp : k ∈ (s.proc p).refs) : 0 < (s.entry k).ref := by
  rw [hI.count]
  exact pointers.total_pos (hI.slot p k hp).1 hp

lemma disk_setDisk (s : State) (dev inum : Nat) (d : Dinode) (a b : Nat) :
    (s.setDisk dev inum d).disk a b = if a = dev ∧ b = inum then d else s.disk a b := by
  simp only [State.setDisk, put_apply]
  split <;> simp_all [put_apply]

@[simp] lemma entry_setDisk (s : State) (dev inum : Nat) (d : Dinode) :
    (s.setDisk dev inum d).entry = s.entry := rfl

@[simp] lemma proc_setDisk (s : State) (dev inum : Nat) (d : Dinode) :
    (s.setDisk dev inum d).proc = s.proc := rfl

/-! ## What the acts keep -/

attribute [local grind =] Pc.on Pc.ends State.block State.Vacant

lemma Inv.count_setPc (hI : Inv s) {x : Inode} {pc : Pc} (hx : x.ref = (s.entry k).ref) (j : Nat) :
    (((s.setEntry k x).setPc p pc).entry j).ref = total ((s.setEntry k x).setPc p pc).proc j := by
  refine Eq.trans ?_ (total_setPc s.proc p pc j).symm
  rw [← hI.count]
  exact read_put (g := Inode.ref) hx j

lemma Inv.modify (hI : Inv s) {d : Dinode} (hl : (s.entry k).lock = some p)
    (hpc : (s.proc p).pc.on k = false) (hd : d.type = (s.entry k).d.type) :
    Inv (s.setEntry k { s.entry k with d := d, dirty := true }) := by
  have hall := hI
  cases hall
  constructor <;> simp only [State.setEntry, State.block, State.Vacant, put_apply]
  all_goals grind -ring -linarith [Pc.on, State.block, State.Vacant]

lemma Inv.setPc (hI : Inv s) {pc : Pc}
    (hp : (s.proc p).pc = .idle ∨ ∃ d t i, (s.proc p).pc = .ialloc d t i)
    (hpc : pc = .idle ∨ ∃ d t i, pc = .ialloc d t i ∧ t ≠ .free) : Inv (s.setPc p pc) := by
  have ht : ∀ k, total (s.setPc p pc).proc k = total s.proc k :=
    total_setPc s.proc p _
  have hall := hI
  cases hall
  constructor
  case count =>
    intro k
    rw [ht]
    exact hI.count k
  all_goals simp only [State.setPc, State.block, State.Vacant, put_apply]
  all_goals grind -ring -linarith

lemma Inv.mark (hI : Inv s) {d : Dinode} {type : FileType}
    (hp : (s.proc p).pc = .ialloc dev type inum) (hfree : (s.disk dev inum).type = .free)
    (hd : d.type = type)
    (hn : d.nlink = 0) : Inv ((s.setDisk dev inum d).setPc p (.iget dev inum)) := by
  have ht : ∀ k, total ((s.setDisk dev inum d).setPc p (.iget dev inum)).proc k = total s.proc k :=
    total_setPc s.proc p _
  have hall := hI
  cases hall
  constructor
  case count =>
    intro k
    rw [ht]
    exact hI.count k
  all_goals simp only [State.setPc, disk_setDisk, entry_setDisk, proc_setDisk, State.block, State.Vacant, put_apply]
  all_goals grind -ring -linarith

lemma Inv.ialloc (hI : Inv s) {type : FileType} (hp : (s.proc p).pc = .ialloc dev type inum) :
    Inv (ialloc ninodes s p dev type inum) := by
  unfold inodes.ialloc
  split
  · split
    · rename_i hfree
      exact hI.mark hp hfree rfl rfl
    · exact hI.setPc (.inr ⟨_, _, _, hp⟩) (.inr ⟨_, _, _, rfl, hI.typed _ _ _ _ hp⟩)
  · exact hI.setPc (.inr ⟨_, _, _, hp⟩) (.inl rfl)

lemma Inv.point (hI : Inv s) (hp : p < NPROC) (hk : k < NINODE) (href : 0 < (s.entry k).ref)
    (hfree : ∀ q, (s.proc q).pc ≠ .itrunc k ∧ (s.proc q).pc ≠ .free k)
    (hidle : (s.proc p).pc = .idle ∧ ¬ s.Vacant (s.entry k).dev (s.entry k).inum ∨
      (s.proc p).pc = .iget (s.entry k).dev (s.entry k).inum) :
    Inv ((s.setEntry k { s.entry k with ref := (s.entry k).ref + 1 }).point p k) := by
  have ht := total_point hp s.proc k
  have hall := hI
  cases hall
  constructor
  case count =>
    intro j
    simp only [State.point, State.setEntry, ht, put_apply]
    grind -ring -linarith
  all_goals simp only [State.point, State.setEntry, State.block, State.Vacant, put_apply]
  all_goals grind -ring -linarith

lemma Inv.recycle (hI : Inv s) (hp : p < NPROC) (hk : k < NINODE) (href : (s.entry k).ref = 0)
    (hnone : ∀ j, 0 < (s.entry j).ref → ¬ ((s.entry j).dev = dev ∧ (s.entry j).inum = inum))
    (hidle : (s.proc p).pc = .idle ∧ ¬ s.Vacant dev inum ∨ (s.proc p).pc = .iget dev inum) :
    Inv ((s.setEntry k { s.entry k with dev := dev, inum := inum, ref := 1, valid := false }).point p k) := by
  have ht := total_point hp s.proc k
  have hnot : ∀ q, k ∉ (s.proc q).refs := fun q hq => absurd (hI.ref_pos hq) (by omega)
  have hall := hI
  cases hall
  constructor
  case count =>
    intro j
    simp only [State.point, State.setEntry, ht, put_apply]
    grind -ring -linarith
  all_goals simp only [State.point, State.setEntry, State.block, State.Vacant, put_apply]
  all_goals grind -ring -linarith

lemma lookup_some (h : lookup s dev inum = some k) :
    k < NINODE ∧ 0 < (s.entry k).ref ∧ (s.entry k).dev = dev ∧ (s.entry k).inum = inum := by
  have hmem := mem_of_find?_eq_some h
  have htest := find?_some h
  simp only [mem_range, decide_eq_true_eq] at hmem htest
  exact ⟨hmem, htest⟩

lemma lookup_none (hI : Inv s) (h : lookup s dev inum = none) (hj : 0 < (s.entry j).ref) :
    ¬ ((s.entry j).dev = dev ∧ (s.entry j).inum = inum) := by
  intro hn
  have hlt : j < NINODE := by
    by_contra hge
    rw [hI.count] at hj
    obtain ⟨p, hp⟩ := pointers.exists_pointer hj
    exact hge (hI.slot p j hp).2
  have htest := find?_eq_none.mp h j (mem_range.mpr hlt)
  simp only [decide_eq_true_eq] at htest
  exact htest ⟨hj, hn⟩

lemma empty_some (h : empty s = some k) : k < NINODE ∧ (s.entry k).ref = 0 := by
  have hmem := mem_of_find?_eq_some h
  have htest := find?_some h
  simp only [mem_range, decide_eq_true_eq] at hmem htest
  exact ⟨hmem, htest⟩

section

variable (hI : Inv s)
include hI

lemma Inv.freed (hq : (s.proc q).pc = .itrunc k ∨ (s.proc q).pc = .free k) :
    (s.entry k).d.nlink = 0 ∧ s.block k = (s.entry k).d ∧
      ¬ s.Vacant (s.entry k).dev (s.entry k).inum := by
  obtain ⟨hl, hv, href, hn⟩ := hI.freeing q k hq
  have hon : (s.proc q).pc.on k = true := by rcases hq with h | h <;> simp [h, Pc.on]
  have hdirty : (s.entry k).dirty = false := by
    by_contra hd
    obtain ⟨r, hr, hoff⟩ := hI.clean k (by simpa using hd)
    rw [hl, Option.some.injEq] at hr
    rw [← hr, hon] at hoff
    cases hoff
  have hpc : ∀ r, (s.entry k).lock = some r → (s.proc r).pc ≠ .invalidate k := by
    intro r hr hinv
    rw [hl, Option.some.injEq] at hr
    rw [← hr] at hinv
    rcases hq with h | h <;> rw [h] at hinv <;> cases hinv
  refine ⟨hn, (hI.agree k (by omega) hv hpc).2.2 hdirty, fun hvac => ?_⟩
  exact hpc q hl ((hI.held k (by omega) hvac hv).2 q hl)

lemma Inv.iget (hp : p < NPROC) (he : iget s p dev inum = .ok t)
    (hn : (s.proc p).pc = .idle ∧ Used s (.iget p dev inum) ∨ (s.proc p).pc = .iget dev inum) :
    Inv t := by
  have hvac : (s.proc p).pc = .idle ∧ ¬ s.Vacant dev inum ∨ (s.proc p).pc = .iget dev inum := by
    refine hn.imp_left fun ⟨hidle, hused⟩ => ⟨hidle, fun hv => ?_⟩
    rcases hused with hlink | ⟨k, _, href, rfl, rfl, hvalid, hlink⟩
    · have := hI.vacant dev inum hv
      omega
    · obtain ⟨hl, hall⟩ := hI.held k href hv hvalid
      obtain ⟨r, hr⟩ := Option.ne_none_iff_exists'.mp hl
      have := (hI.torn r k (hall r hr)).2
      omega
  unfold inodes.iget at he
  split at he
  · rename_i k hk
    obtain ⟨hlt, href, rfl, rfl⟩ := lookup_some hk
    cases he
    refine hI.point hp hlt href (fun q => not_or.mp fun hq => ?_) hvac
    obtain ⟨hd, hb, hnv⟩ := hI.freed hq
    rcases hn with ⟨-, hlink | ⟨j, _, hj, hdev, hinum, -, hlink⟩⟩ | hmark
    · rw [← State.block, hb] at hlink
      omega
    · rw [hI.unique j k hj href hdev hinum] at hlink
      omega
    · exact hnv (.inr ⟨p, hmark⟩)
  · rename_i hnone
    split at he
    · cases he
    · rename_i k hk
      obtain ⟨hlt, href⟩ := empty_some hk
      cases he
      exact hI.recycle hp hlt href (fun j hj => lookup_none hI hnone hj) hvac

lemma Inv.idup (hidle : (s.proc p).pc = .idle) (hk : k ∈ (s.proc p).refs) :
    Inv (idup s p k) := by
  obtain ⟨hp, hlt⟩ := hI.slot p k hk
  refine hI.point hp hlt (hI.ref_pos hk) (fun q => not_or.mp fun hq => ?_) (.inl ⟨hidle, fun hv => ?_⟩)
  · obtain ⟨hl, -, href, -⟩ := hI.freeing q k hq
    have := hI.sole href hk (hI.holder k q hl)
    grind -ring -linarith
  · have := hI.ended k p (hI.ref_pos hk) hv hk
    grind -ring -linarith [Pc.ends]

lemma Inv.ilock (hidle : (s.proc p).pc = .idle) (hk : k ∈ (s.proc p).refs)
    (he : ilock s p k = .ok t) : Inv t := by
  unfold inodes.ilock at he
  split at he
  · cases he
  · split at he
    · cases he
    · rename_i hl
      cases he
      set pc : Pc := if (s.entry k).valid = false then .load k else .idle with hpc
      have hall := hI
      cases hall
      constructor
      case count => exact hI.count_setPc rfl
      all_goals simp only [State.setPc, State.setEntry, State.block, State.Vacant, put_apply]
      all_goals grind -ring -linarith

lemma Inv.load (hpc : (s.proc p).pc = .load k) (he : load s p k = .ok t) :
    Inv t := by
  simp only [inodes.load] at he
  split at he
  · cases he
  · rename_i hd
    cases he
    have hall := hI
    cases hall
    constructor
    case count => exact hI.count_setPc rfl
    all_goals simp only [State.setPc, State.setEntry, State.block, State.Vacant, put_apply]
    all_goals grind -ring -linarith

lemma Inv.iupdate (hl : (s.entry k).lock = some p) (hidle : (s.proc p).pc = .idle) :
    Inv (iupdate s k) := by
  have href := hI.ref_pos (hI.holder k p hl)
  have hall := hI
  cases hall
  constructor
  all_goals simp only [inodes.iupdate, State.setEntry, disk_setDisk, entry_setDisk, proc_setDisk, State.block, State.Vacant, put_apply]
  all_goals grind -ring -linarith

lemma Inv.iunlock (hidle : (s.proc p).pc = .idle) (hd : (s.entry k).dirty = false)
    (he : iunlock s p k = .ok t) : Inv t := by
  unfold inodes.iunlock at he
  split at he
  · cases he
  · cases he
    have hall := hI
    cases hall
    constructor
    all_goals simp only [State.setEntry, State.block, State.Vacant, put_apply]
    all_goals grind -ring -linarith

lemma Inv.drop (hpc : (s.proc p).pc = .idle ∨ (s.proc p).pc = .drop k)
    (hk : k ∈ (s.proc p).refs) (hl : (s.entry k).lock ≠ some p) : Inv (drop s p k) := by
  have ht := total_drop (hI.slot p k hk).1 hk
  have hmem : ∀ j, j ∈ (s.proc p).refs.erase k → j ∈ (s.proc p).refs :=
    fun j hj => mem_of_mem_erase hj
  have hkeep : ∀ j, j ≠ k → j ∈ (s.proc p).refs → j ∈ (s.proc p).refs.erase k :=
    fun j hj hm => (mem_erase_of_ne hj).mpr hm
  have hgone : (s.proc p).refs.count k = 1 → k ∉ (s.proc p).refs.erase k := by
    intro hone
    rw [← count_eq_zero, count_erase_self, hone]
  have hsole := fun k p q => @Inv.sole s p q k hI
  have hall := hI
  cases hall
  constructor
  case count =>
    intro j
    simp only [inodes.drop, State.setEntry, ht, put_apply]
    grind -ring -linarith
  all_goals simp only [inodes.drop, State.setEntry, State.block, State.Vacant, put_apply]
  all_goals grind -ring -linarith

lemma Inv.iput (hidle : (s.proc p).pc = .idle) (hk : k ∈ (s.proc p).refs)
    (hl : (s.entry k).lock ≠ some p) (he : iput s p k = .ok t) : Inv t := by
  unfold inodes.iput at he
  split at he
  · rename_i hlast
    split at he
    · cases he
    · rename_i hnone
      cases he
      have hall := hI
      cases hall
      constructor
      case count => exact hI.count_setPc rfl
      all_goals simp only [State.setPc, State.setEntry, State.block, State.Vacant, put_apply]
      all_goals grind -ring -linarith
  · cases he
    exact hI.drop (.inl hidle) hk hl

lemma Inv.write {d : Dinode} {pc : Pc} 
    (hpc : (s.proc p).pc = .itrunc k ∧ pc = .free k ∧ d.type = (s.entry k).d.type ∨
      (s.proc p).pc = .free k ∧ pc = .invalidate k)
    (hn : d.nlink = (s.entry k).d.nlink) :
    Inv (((s.setEntry k { s.entry k with d := d }).setDisk (s.entry k).dev (s.entry k).inum d).setPc p pc) := by
  obtain ⟨hd0, hblock, hvac⟩ := hI.freed (q := p) (k := k) (hpc.imp And.left And.left)
  obtain ⟨hl, hv, href, hd⟩ := hI.freeing p k (hpc.imp And.left And.left)
  have hone : (s.proc p).refs.count k = 1 := by
    have hmem := hI.holder k p hl
    have hsum := pointers.count_le_total (hI.slot p k hmem).1 (fun p => (s.proc p).refs) k
    have hpos := count_pos_iff.mpr hmem
    have hcount := hI.count k
    unfold total at hcount
    omega
  have hsole : ∀ q, k ∈ (s.proc q).refs → q = p := fun q hq => hI.sole href hq (hI.holder k p hl)
  have hall := hI
  cases hall
  constructor
  case count => exact hI.count_setPc rfl
  all_goals simp only [State.setPc, disk_setDisk, entry_setDisk, proc_setDisk, State.setEntry, State.block, State.Vacant, put_apply]
  all_goals grind -ring -linarith

lemma Inv.invalidate (hpc : (s.proc p).pc = .invalidate k) :
    Inv ((s.setEntry k { s.entry k with valid := false, lock := none }).setPc p (.drop k)) := by
  have hall := hI
  cases hall
  constructor
  case count => exact hI.count_setPc rfl
  all_goals simp only [State.setPc, State.setEntry, State.block, State.Vacant, put_apply]
  all_goals grind -ring -linarith

end

lemma Inv.start (disk : Nat → Nat → Dinode)
    (hdisk : ∀ dev inum, (disk dev inum).type = .free → (disk dev inum).nlink = 0) :
    Inv (start disk) := by
  constructor
  case count =>
    intro k
    simp [total, pointers.total, inodes.start]
  all_goals simp_all [inodes.start, State.Vacant, Pc.ends]

lemma Inv.step (hI : Inv s) (hp : p < NPROC) (he : step ninodes s p = .ok t) : Inv t := by
  unfold inodes.step at he
  split at he
  · cases he
  · rename_i hpc
    cases he
    exact hI.ialloc hpc
  · rename_i hpc
    exact hI.iget hp he (.inr hpc)
  · rename_i hpc
    exact hI.load hpc he
  · rename_i hpc
    cases he
    exact hI.write (.inl ⟨hpc, rfl, rfl⟩) rfl
  · rename_i hpc
    cases he
    exact hI.write (.inr ⟨hpc, rfl⟩) rfl
  · rename_i hpc
    cases he
    exact hI.invalidate hpc
  · rename_i k hpc
    cases he
    have hone := hI.last p k (.inl hpc)
    have hmem : k ∈ (s.proc p).refs := count_pos_iff.mp (by omega)
    exact hI.drop (.inr hpc) hmem (hI.released p k hpc)

lemma Inv.call (hI : Inv s) {a : Act} (hp : a.proc < NPROC) (hidle : (s.proc a.proc).pc = .idle)
    (hu : Used s a) (he : call s a = .ok t) : Inv t := by
  cases a <;> simp only [inodes.call, Act.proc] at he hp hidle <;> try split at he
  all_goals try cases he
  case iget => exact hI.iget hp he (.inl ⟨hidle, hu⟩)
  case ialloc => exact hI.setPc (.inl hidle) (.inr ⟨_, _, _, rfl, hu⟩)
  case idup hk => exact hI.idup hidle hk
  case ilock hk => exact hI.ilock hidle hk he
  case modify hl => exact hI.modify hl (by rw [hidle]; rfl) hu
  case iupdate hl => exact hI.iupdate hl hidle
  case iunlock => exact hI.iunlock hidle hu he
  case iput hk => exact hI.iput hidle hk hu he

/-! ## Freeing -/

/-- The process has the only pointer to the entry of the inode, which has no links. -/
def LastOf (s : State) (p dev inum : Nat) : Prop :=
  (s.disk dev inum).nlink = 0 ∧ ∃ k, (s.entry k).dev = dev ∧ (s.entry k).inum = inum ∧
    (s.entry k).ref = 1 ∧ (s.entry k).d.nlink = 0 ∧ k ∈ (s.proc p).refs

lemma iget_disk (he : iget s p dev inum = .ok t) : t.disk = s.disk := by
  unfold iget at he
  split at he
  · cases he
    rfl
  · split at he
    · cases he
    · cases he
      rfl

lemma ilock_disk (he : ilock s p k = .ok t) : t.disk = s.disk := by
  unfold ilock at he
  split at he
  · cases he
  · split at he
    · cases he
    · cases he
      rfl

lemma load_disk (he : load s p k = .ok t) : t.disk = s.disk := by
  simp only [load] at he
  split at he
  · cases he
  · cases he
    rfl

lemma iunlock_disk (he : iunlock s p k = .ok t) : t.disk = s.disk := by
  unfold iunlock at he
  split at he
  · cases he
  · cases he
    rfl

lemma iput_disk (he : iput s p k = .ok t) : t.disk = s.disk := by
  unfold iput at he
  split at he
  · split at he
    · cases he
    · cases he
      rfl
  · cases he
    rfl

lemma Inv.step_frees (hI : Inv s) (he : inodes.step ninodes s p = .ok t)
    (h0 : (s.disk dev inum).type ≠ .free) (h1 : (t.disk dev inum).type = .free) :
    LastOf s p dev inum := by
  have hsame : t.disk = s.disk → LastOf s p dev inum := fun h => absurd (h ▸ h1) h0
  unfold inodes.step at he
  split at he
  · cases he
  · rename_i d type i hpc
    have htype := hI.typed _ _ _ _ hpc
    cases he
    refine absurd h1 ?_
    simp only [inodes.ialloc]
    split
    · split
      · simp only [State.setPc, disk_setDisk]
        grind -ring -linarith
      · exact h0
    · exact h0
  · exact hsame (iget_disk he)
  · exact hsame (load_disk he)
  · rename_i k hpc
    obtain ⟨-, hb, -⟩ := hI.freed (.inl hpc)
    cases he
    simp only [itrunc, State.setPc, disk_setDisk, State.setEntry] at h1
    grind -ring -linarith [State.block]
  · rename_i k hpc
    obtain ⟨hn, hb, -⟩ := hI.freed (.inr hpc)
    obtain ⟨hl, -, href, -⟩ := hI.freeing p k (.inr hpc)
    have hk := hI.holder k p hl
    cases he
    simp only [freeInode, State.setPc, disk_setDisk, State.setEntry] at h1
    split at h1
    · rename_i hd
      exact ⟨by rw [hd.1, hd.2, ← State.block, hb, hn], k, hd.1.symm, hd.2.symm, href, hn, hk⟩
    · exact absurd h1 h0
  · cases he
    exact hsame rfl
  · cases he
    exact hsame rfl

lemma Inv.call_frees_none (hI : Inv s) {a : Act} (hidle : (s.proc a.proc).pc = .idle)
    (he : inodes.call s a = .ok t) (h0 : (s.disk dev inum).type ≠ .free) :
    (t.disk dev inum).type ≠ .free := by
  have hsame : t.disk = s.disk → (t.disk dev inum).type ≠ .free := fun h => h ▸ h0
  cases a <;> simp only [inodes.call, Act.proc] at he hidle <;> try split at he
  all_goals try cases he
  case iget => exact hsame (iget_disk he)
  case ialloc => exact hsame rfl
  case idup => exact hsame rfl
  case ilock => exact hsame (ilock_disk he)
  case modify => exact hsame rfl
  case iupdate p k hl =>
    have href := hI.ref_pos (hI.holder k p hl)
    have hv := hI.filled k p hl (by rw [hidle]; rfl)
    have htype := (hI.agree k href hv (by grind -ring -linarith)).1
    simp only [inodes.iupdate, State.setEntry, disk_setDisk]
    grind -ring -linarith
  case iunlock => exact hsame (iunlock_disk he)
  case iput => exact hsame (iput_disk he)

lemma Inv.exec (hI : Inv s) {a : Act} (hu : Used s a) (he : inodes.exec ninodes s a = .ok t) :
    Inv t ∧ ∀ dev inum, (s.disk dev inum).type ≠ .free → (t.disk dev inum).type = .free →
      LastOf s a.proc dev inum := by
  unfold inodes.exec at he
  split at he
  · rename_i hp
    split at he
    · exact ⟨hI.step hp he, fun _ _ => hI.step_frees he⟩
    · split at he
      · rename_i hidle
        exact ⟨hI.call hp hidle hu he, fun _ _ h0 h1 => absurd h1 (hI.call_frees_none hidle he h0)⟩
      · cases he
  · cases he

lemma Inv.run {disk : Nat → Nat → Dinode}
    (hdisk : ∀ dev inum, (disk dev inum).type = .free → (disk dev inum).nlink = 0)
    (h : Run (inodes.exec ninodes) Used (inodes.start disk) s) : Inv s :=
  h.invariant (I := Inv) (Inv.start disk hdisk) fun _ _ _ hI hu he => (hI.exec hu he).1

/-- In every run: an inode has at most one entry in use, whose count is that of the pointers to it
and which is the inode on the disk when it is valid and unlocked; and whenever an inode is freed,
it has no links and the process that frees it has the only pointer to its entry. -/
theorem inode_table_coherent (disk : Nat → Nat → Dinode)
    (hdisk : ∀ dev inum, (disk dev inum).type = .free → (disk dev inum).nlink = 0)
    (h : Run (inodes.exec ninodes) Used (inodes.start disk) s) :
    (∀ j k, 0 < (s.entry j).ref → 0 < (s.entry k).ref → (s.entry j).dev = (s.entry k).dev →
      (s.entry j).inum = (s.entry k).inum → j = k) ∧
    (∀ k, (s.entry k).ref = total s.proc k) ∧
    (∀ k, 0 < (s.entry k).ref → (s.entry k).valid = true → (s.entry k).lock = none →
      s.disk (s.entry k).dev (s.entry k).inum = (s.entry k).d) ∧
    (∀ a t dev inum, Used s a → inodes.exec ninodes s a = .ok t →
      (s.disk dev inum).type ≠ .free → (t.disk dev inum).type = .free →
      (s.disk dev inum).nlink = 0 ∧ ∃ k, (s.entry k).dev = dev ∧ (s.entry k).inum = inum ∧
        (s.entry k).ref = 1 ∧ ∀ q, k ∈ (s.proc q).refs ↔ q = a.proc) := by
  have hI := Inv.run hdisk h
  refine ⟨hI.unique, hI.count, fun k href hv hl => ?_, fun a t dev inum hu he h0 h1 => ?_⟩
  · have hd : (s.entry k).dirty = false := by
      by_contra hd
      obtain ⟨p, hp, -⟩ := hI.clean k (by simpa using hd)
      rw [hl] at hp
      cases hp
    exact (hI.agree k href hv (by simp [hl])).2.2 hd
  · obtain ⟨hn, k, hdev, hinum, href, -, hk⟩ := (hI.exec hu he).2 dev inum h0 h1
    refine ⟨hn, k, hdev, hinum, href, fun q => ⟨fun hq => hI.sole href hq hk, ?_⟩⟩
    intro hq
    rw [hq]
    exact hk

/-! ## Runs -/

/-- A disk with two files. -/
def twoFiles (dev inum : Nat) : Dinode :=
  { type := if dev = 1 ∧ (inum = 5 ∨ inum = 6) then .file else .free
    major := 0
    minor := 0
    nlink := if dev = 1 ∧ (inum = 5 ∨ inum = 6) then 1 else 0
    size := 0
    addrs := fun _ => 0 }

/-- A process frees an inode; before it has given its entry up, another allocates the inode. -/
def reallocated : List Act :=
  [.ialloc 0 1 .file, .step 0, .step 0, .ilock 0 0, .step 0, .iunlock 0 0, .iput 0 0, .step 0, .step 0,
    .ialloc 1 1 .file, .step 1, .step 1]

theorem inode_table_coherent_reallocated :
    ∃ s, Run (inodes.exec fun _ => 10) Used (inodes.start twoFiles) s ∧
      (s.proc 0).pc = .invalidate 0 ∧ (s.entry 0).ref = 2 ∧ total s.proc 0 = 2 := by
  obtain ⟨s, hrun, htest⟩ := exists_played (inodes.exec fun _ => 10) Used (inodes.start twoFiles)
    reallocated (fun s a => decide (Used s a))
    (fun s => (s.proc 0).pc = .invalidate 0 ∧ (s.entry 0).ref = 2)
    (fun _ _ h => of_decide_eq_true h) (by decide +kernel)
  simp only [decide_eq_true_eq] at htest
  refine ⟨s, hrun, htest.1, htest.2, ?_⟩
  rw [← (inode_table_coherent twoFiles (by simp [twoFiles]) hrun).2.1 0]
  exact htest.2

/-- Both files are opened, closed and the second is opened again, in the entry of the first. -/
def reopened : List Act :=
  [.iget 0 1 6, .iget 0 1 5, .ilock 0 1, .step 0, .iunlock 0 1, .iput 0 1, .iput 0 0,
    .iget 0 1 5, .ilock 0 0, .step 0,
    .modify 0 0 { type := .file, major := 0, minor := 0, nlink := 2, size := 0, addrs := fun _ => 0 },
    .iupdate 0 0, .iunlock 0 0]

/-- The entry of the second file is left valid and is not what is on the disk. -/
lemma reopened_is_stale : ∃ s, Run (inodes.exec fun _ => 10) Used (inodes.start twoFiles) s ∧
    (s.entry 1).valid = true ∧ (s.entry 1).lock = none ∧
    s.disk (s.entry 1).dev (s.entry 1).inum ≠ (s.entry 1).d := by
  obtain ⟨s, hrun, htest⟩ := exists_played (inodes.exec fun _ => 10) Used (inodes.start twoFiles)
    reopened (fun s a => decide (Used s a)) (fun s => (s.entry 1).valid ∧ (s.entry 1).lock = none ∧
      (s.disk (s.entry 1).dev (s.entry 1).inum).nlink ≠ (s.entry 1).d.nlink)
    (fun _ _ h => of_decide_eq_true h) (by decide +kernel)
  simp only [decide_eq_true_eq] at htest
  exact ⟨s, hrun, htest.1, htest.2.1, fun h => htest.2.2 (by rw [h])⟩

/-- A disk whose inode 1 is free and has a link. -/
def linkedFree (dev inum : Nat) : Dinode :=
  { twoFiles dev inum with nlink := if dev = 1 ∧ inum = 1 then 1 else 0 }

/-- Process 0 has a pointer to the free inode when process 1 allocates it; it then finds it without
links and begins to free it, and process 1 gets its pointer before that is done. -/
def freedUnderneath : List Act :=
  [.iget 0 1 1, .ialloc 1 1 .file, .step 1, .ilock 0 0, .step 0, .iunlock 0 0, .iput 0 0, .step 1,
    .step 0]

/-- An inode is freed to which another process has a pointer. -/
lemma linkedFree_is_freed : ∃ s t, Run (inodes.exec fun _ => 10) Used (inodes.start linkedFree) s ∧
    inodes.exec (fun _ => 10) s (.step 0) = .ok t ∧ (s.disk 1 1).type = .file ∧
    (t.disk 1 1).type = .free ∧ (s.entry 0).dev = 1 ∧ (s.entry 0).inum = 1 ∧
    0 ∈ (s.proc 1).refs := by
  obtain ⟨s, hrun, htest⟩ := exists_played (inodes.exec fun _ => 10) Used (inodes.start linkedFree)
    freedUnderneath (fun s a => decide (Used s a)) (fun s => decide ((s.disk 1 1).type = .file ∧
      (s.entry 0).dev = 1 ∧ (s.entry 0).inum = 1 ∧ 0 ∈ (s.proc 1).refs) &&
        (inodes.exec (fun _ => 10) s (.step 0)).toOption.any fun t : State =>
          decide ((t.disk 1 1).type = .free)) (fun _ _ h => of_decide_eq_true h) (by decide +kernel)
  rw [Bool.and_eq_true] at htest
  obtain ⟨h1, h2, h3, h4⟩ := of_decide_eq_true htest.1
  obtain ⟨t, ht, hfree⟩ := (Option.any_eq_true _ _).mp htest.2
  refine ⟨s, t, hrun, ?_, h1, of_decide_eq_true hfree, h2, h3, h4⟩
  cases he : inodes.exec (fun _ => 10) s (.step 0) with
  | error e =>
    rw [he] at ht
    cases ht
  | ok u =>
    rw [he] at ht
    cases ht
    rfl

/-- An entry without references can be valid and differ from the disk; and over a disk with a free
inode that has links, an inode is freed while another process has a pointer to it. -/
theorem free_entry_is_stale :
    (∃ s, Run (inodes.exec fun _ => 10) Used (inodes.start twoFiles) s ∧
      (s.entry 1).valid = true ∧ (s.entry 1).lock = none ∧
      s.disk (s.entry 1).dev (s.entry 1).inum ≠ (s.entry 1).d) ∧
    ∃ s t, Run (inodes.exec fun _ => 10) Used (inodes.start linkedFree) s ∧
      inodes.exec (fun _ => 10) s (.step 0) = .ok t ∧ (s.disk 1 1).type = .file ∧
      (t.disk 1 1).type = .free ∧ (s.entry 0).dev = 1 ∧ (s.entry 0).inum = 1 ∧
      0 ∈ (s.proc 1).refs :=
  ⟨reopened_is_stale, linkedFree_is_freed⟩

end xv6.inodes
