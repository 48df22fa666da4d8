-- The laws of the buffer cache: its list has every buffer once, a block has at
-- most one buffer, a buffer in use keeps its block, and `bread` returns what was
-- last written to the block. What keeps a changed buffer in the cache is the
-- process that holds it, and then the pin of the log until it is installed.
import Xv6.Buffers
import Xv6.Lib.Pointers

open bytes cells circular machine List

namespace xv6.buffers

variable {devOf : Nat → Nat} {s t : State} {p q i j b dev : Nat}

/-! ## How the acts are used -/

/-- As `log.c` and `fs.c` do: a block is always read under the same device (both the log and the
disk know it by its number alone), its holder calls `log_write` or `bwrite` after a change and
before `brelse`, and `install_trans` unpins the blocks of the log in order, each one in a buffer
that it holds and has written to the disk. -/
def Used (devOf : Nat → Nat) (s : State) : Act → Prop
  | .bread _ dev b => dev = devOf b
  | .log_write p i => (s.buf i).lock = some p
  | .brelse _ i => (s.buf i).unsaved = false
  | .end_op _ => 0 < s.log.outstanding
  | .bunpin p i => s.log.committing = true ∧ (s.buf i).lock = some p ∧ (s.buf i).dirty = false ∧
      s.log.lh[s.tail]? = some (s.buf i).blockno
  | .clear _ => s.log.committing = true ∧ s.tail = s.log.lh.length
  | .committed _ => s.log.committing = true ∧ s.log.lh = []
  | _ => True

instance (devOf : Nat → Nat) (s : State) (a : Act) : Decidable (Used devOf s a) := by
  cases a
  all_goals unfold Used
  all_goals infer_instance

/-! ## The invariant -/

def total (proc : Nat → Proc) (i : Nat) : Nat := pointers.total NPROC (fun p => (proc p).refs) i

/-- The log has pinned the buffer. -/
def State.Pinned (s : State) (i : Nat) : Prop :=
  (s.buf i).dev ≠ 0 ∧ (s.buf i).blockno ∈ s.log.lh.drop s.tail

instance (s : State) (i : Nat) : Decidable (s.Pinned i) := by unfold State.Pinned; infer_instance

/-- What was last written to the block, or what was on the disk. -/
def State.content (disk₀ : Nat → Bytes) (s : State) (b : Nat) : Bytes :=
  (s.written b).getD (disk₀ b)

structure Inv (devOf : Nat → Nat) (disk₀ : Nat → Bytes) (s : State) : Prop where
  ring : ∃ l, Cycle s.links head l ∧ l.Perm (List.range NBUF)
  named : ∀ i, (s.buf i).dev ≠ 0 → (s.buf i).dev = devOf (s.buf i).blockno ∧ i < NBUF
  unique : ∀ i j, (s.buf i).dev ≠ 0 → (s.buf j).dev ≠ 0 → (s.buf i).blockno = (s.buf j).blockno →
    i = j
  slot : ∀ p i, i ∈ (s.proc p).refs → p < NPROC ∧ (s.buf i).dev ≠ 0
  count : ∀ i, (s.buf i).refcnt = total s.proc i + if s.Pinned i then 1 else 0
  holder : ∀ i p, (s.buf i).lock = some p → i ∈ (s.proc p).refs
  filled : ∀ i p, (s.buf i).lock = some p → (s.buf i).valid = true ∨
    (s.proc p).pc = .read (s.buf i).dev (s.buf i).blockno i
  asked : ∀ p dev b i, (s.proc p).pc = .lock dev b i ∨ (s.proc p).pc = .read dev b i →
    i ∈ (s.proc p).refs ∧ (s.buf i).dev = dev ∧ (s.buf i).blockno = b
  reading : ∀ p dev b i, (s.proc p).pc = .read dev b i →
    (s.buf i).lock = some p ∧ (s.buf i).valid = false
  releasing : ∀ p i, (s.proc p).pc = .release i → i ∈ (s.proc p).refs ∧ (s.buf i).lock ≠ some p
  agree : ∀ i, (s.buf i).valid = true → (s.buf i).dev ≠ 0 ∧
    (s.buf i).data = s.content disk₀ (s.buf i).blockno
  clean : ∀ i, (s.buf i).valid = true → (s.buf i).dirty = false →
    s.disk (s.buf i).blockno = s.content disk₀ (s.buf i).blockno
  absent : ∀ b, (∀ i, (s.buf i).dev ≠ 0 → (s.buf i).blockno = b → (s.buf i).valid = false) →
    s.disk b = s.content disk₀ b
  kept : ∀ i, (s.buf i).dirty = true → (s.buf i).valid = true ∧
    (s.Pinned i ∨ (s.buf i).unsaved = true)
  unsaved : ∀ i, (s.buf i).unsaved = true → (s.buf i).lock ≠ none
  logged : ∀ b ∈ s.log.lh.drop s.tail, ∃ i, (s.buf i).dev ≠ 0 ∧ (s.buf i).blockno = b
  nodup : s.log.lh.Nodup
  early : s.log.committing = false → s.tail = 0
  working : 0 < s.log.outstanding → s.log.committing = false
  within : s.tail ≤ s.log.lh.length

variable {disk₀ : Nat → Bytes}

/-! ## The pointers of all processes -/

lemma total_setPc (proc : Nat → Proc) (p : Nat) (pc : Pc) (i : Nat) :
    total (put proc p { proc p with pc := pc }) i = total proc i := by
  apply pointers.total_congr
  intro q
  by_cases hq : q = p
  · rw [hq, put_self]
  · rw [put_of_ne hq]

lemma total_take (hp : p < NPROC) (proc : Nat → Proc) (pc : Pc) (i j : Nat) :
    total (put proc p { pc := pc, refs := i :: (proc p).refs }) j =
      total proc j + if j = i then 1 else 0 := by
  apply pointers.total_cons hp
  · rw [put_self]
  · intro q hq
    rw [put_of_ne hq]

lemma total_release {proc : Nat → Proc} (hp : p < NPROC) (hi : i ∈ (proc p).refs) (pc : Pc)
    (j : Nat) : total (put proc p { pc := pc, refs := (proc p).refs.erase i }) j =
      total proc j - if j = i then 1 else 0 := by
  apply pointers.total_erase hp hi
  · rw [put_self]
  · intro q hq
    rw [put_of_ne hq]

lemma Inv.ref_pos (hI : Inv devOf disk₀ s) (hp : i ∈ (s.proc p).refs) : 0 < (s.buf i).refcnt := by
  have h : 0 < total s.proc i := pointers.total_pos (hI.slot p i hp).1 hp
  rw [hI.count]
  omega

lemma Inv.idle (hI : Inv devOf disk₀ s) (h0 : (s.buf i).refcnt = 0) :
    (∀ p, i ∉ (s.proc p).refs) ∧ (s.buf i).lock = none ∧ ¬ s.Pinned i ∧
      (s.buf i).dirty = false ∧ (s.buf i).unsaved = false := by
  have hnot : ∀ p, i ∉ (s.proc p).refs := fun p hp => absurd (hI.ref_pos hp) (by omega)
  have hlock : (s.buf i).lock = none := by
    rcases hl : (s.buf i).lock with _ | p
    · rfl
    · exact absurd (hI.holder i p hl) (hnot p)
  have hpin : ¬ s.Pinned i := by
    intro hp
    have := hI.count i
    rw [if_pos hp] at this
    omega
  have hun : (s.buf i).unsaved = false := by
    by_contra hu
    exact hI.unsaved i (by simpa using hu) hlock
  refine ⟨hnot, hlock, hpin, ?_, hun⟩
  by_contra hd
  rcases (hI.kept i (by simpa using hd)).2 with h | h
  · exact hpin h
  · rw [hun] at h
    cases h

/-! ## The loops of `bget` -/

lemma Inv.cached (hI : Inv devOf disk₀ s) (hdev : dev ≠ 0) :
    (∃ i, s.cached dev b = some (some i) ∧ (s.buf i).dev = dev ∧ (s.buf i).blockno = b) ∨
      (s.cached dev b = some none ∧ ∀ i, ¬ ((s.buf i).dev = dev ∧ (s.buf i).blockno = b)) := by
  obtain ⟨l, hc, hl⟩ := hI.ring
  have hscan := hc.scan_next (fun i => (s.buf i).dev = dev ∧ (s.buf i).blockno = b) (n := NBUF + 1)
    (by simp [hl.length_eq])
  rw [State.cached, hscan]
  rcases hf : l.find? fun i => (s.buf i).dev = dev ∧ (s.buf i).blockno = b with _ | i
  · refine .inr ⟨rfl, fun i hi => ?_⟩
    have hmem : i ∈ l := by
      rw [hl.mem_iff, mem_range]
      exact (hI.named i (hi.1 ▸ hdev)).2
    have := find?_eq_none.mp hf i hmem
    simp only [decide_eq_true_eq] at this
    exact this hi
  · have htest := find?_some hf
    simp only [decide_eq_true_eq] at htest
    exact .inl ⟨i, rfl, htest⟩

lemma Inv.unused (hI : Inv devOf disk₀ s) :
    (∃ i, s.unused = some (some i) ∧ i < NBUF ∧ (s.buf i).refcnt = 0) ∨ s.unused = some none := by
  obtain ⟨l, hc, hl⟩ := hI.ring
  have hscan := hc.scan_prev (fun i => (s.buf i).refcnt = 0) (n := NBUF + 1)
    (by simp [hl.length_eq])
  rw [State.unused, hscan]
  rcases hf : l.reverse.find? fun i => (s.buf i).refcnt = 0 with _ | i
  · exact .inr rfl
  · have htest := find?_some hf
    have hmem := mem_of_find?_eq_some hf
    simp only [decide_eq_true_eq] at htest
    rw [mem_reverse, hl.mem_iff, mem_range] at hmem
    exact .inl ⟨i, rfl, hmem, htest⟩

/-! ## What the acts keep -/

attribute [local grind =] State.Pinned State.content

section

variable (hI : Inv devOf disk₀ s)
include hI

lemma Inv.logged_put {x : Buf} (hdev : x.dev = (s.buf i).dev)
    (hb : x.blockno = (s.buf i).blockno) : ∀ c ∈ s.log.lh.drop s.tail,
    ∃ k, (put s.buf i x k).dev ≠ 0 ∧ (put s.buf i x k).blockno = c := by
  intro c hc
  obtain ⟨k, hk⟩ := hI.logged c hc
  refine ⟨k, ?_⟩
  rw [read_put (g := Buf.dev) hdev, read_put (g := Buf.blockno) hb]
  exact hk

lemma Inv.hit (hp : p < NPROC) (hidle : (s.proc p).pc = .idle)
    (hdev : (s.buf i).dev = dev) (h0 : dev ≠ 0) (hb : (s.buf i).blockno = b) :
    Inv devOf disk₀
      ((s.setBuf i { s.buf i with refcnt := (s.buf i).refcnt + 1 }).take p dev b i) := by
  have ht := total_take hp s.proc (.lock dev b i) i
  have hall := hI
  cases hall
  constructor
  case ring => exact hI.ring
  case logged => exact hI.logged_put rfl rfl
  all_goals simp only [State.setBuf, State.take, State.Pinned, State.content, ht, put_apply]
  all_goals grind

lemma Inv.recycle (hp : p < NPROC) (hidle : (s.proc p).pc = .idle)
    (hi : i < NBUF) (h0 : (s.buf i).refcnt = 0) (hdev : dev = devOf b) (hd0 : dev ≠ 0)
    (hnone : ∀ j, ¬ ((s.buf j).dev = dev ∧ (s.buf j).blockno = b)) :
    Inv devOf disk₀ ((s.setBuf i { s.buf i with
      dev := dev
      blockno := b
      valid := false
      refcnt := 1 }).take p dev b i) := by
  have ht := total_take hp s.proc (.lock dev b i) i
  obtain ⟨hrefs, hlock, hpin, hclean, hsaved⟩ := hI.idle h0
  have hall := hI
  cases hall
  -- no block of the log has this number, as its buffer would be in the cache
  have hb : b ∉ s.log.lh.drop s.tail := by
    intro hb
    obtain ⟨j, hj, hjb⟩ := hI.logged b hb
    exact hnone j ⟨by rw [(hI.named j hj).1, hjb, hdev], hjb⟩
  have hz : total s.proc i = 0 := by
    have := hI.count i
    omega
  constructor
  case ring => exact hI.ring
  case logged =>
    intro c hc
    obtain ⟨k, hk⟩ := hI.logged c hc
    have hki : k ≠ i := by
      rintro rfl
      exact hpin ⟨hk.1, hk.2 ▸ hc⟩
    exact ⟨k, by simpa [State.setBuf, State.take, hki] using hk⟩
  case absent =>
    intro c hc
    by_cases hold : (s.buf i).valid = true ∧ (s.buf i).blockno = c
    · rw [← hold.2]
      exact hI.clean i hold.1 hclean
    · apply hI.absent
      intro j hj hjc
      by_cases hji : j = i
      · subst hji
        by_contra hv
        exact hold ⟨by simpa using hv, hjc⟩
      · have h := hc j
        simp only [State.setBuf, State.take, put_of_ne hji] at h
        exact h hj hjc
  all_goals simp only [State.setBuf, State.take, State.Pinned, State.content, ht, put_apply]
  all_goals grind

lemma Inv.bget (hp : p < NPROC) (hidle : (s.proc p).pc = .idle)
    (hdev : dev = devOf b) (h0 : dev ≠ 0) (he : bget s p dev b = .ok t) : Inv devOf disk₀ t := by
  unfold buffers.bget at he
  rcases hI.cached h0 (b := b) with ⟨i, hc, hd, hb⟩ | ⟨hc, hnone⟩
  · rw [hc] at he
    cases he
    exact hI.hit hp hidle hd h0 hb
  · rw [hc] at he
    rcases hI.unused with ⟨i, hu, hi, hr⟩ | hu
    · rw [hu] at he
      cases he
      exact hI.recycle hp hidle hi hr hdev h0 hnone
    · rw [hu] at he
      cases he

lemma Inv.acquiresleep (hpc : (s.proc p).pc = .lock dev b i)
    (he : acquiresleep s p dev b i = .ok t) : Inv devOf disk₀ t := by
  unfold buffers.acquiresleep at he
  split at he
  · cases he
  · rename_i hl
    cases he
    set pc : Pc := if (s.buf i).valid = false then .read dev b i else .idle with hpc'
    have ht := total_setPc s.proc p pc
    have hall := hI
    cases hall
    constructor
    case ring => exact hI.ring
    case logged => exact hI.logged_put rfl rfl
    all_goals simp only [State.setBuf, State.setPc, State.Pinned, State.content, ht, put_apply]
    all_goals grind

lemma Inv.read (hpc : (s.proc p).pc = .read dev b i) :
    Inv devOf disk₀ (read s p i) := by
  have ht := total_setPc s.proc p .idle
  have hall := hI
  cases hall
  have hdisk : s.disk (s.buf i).blockno = s.content disk₀ (s.buf i).blockno := by
    apply hI.absent
    grind
  constructor
  case ring => exact hI.ring
  case logged => exact hI.logged_put rfl rfl
  case absent =>
    intro c hc
    apply hI.absent
    intro j hj hjc
    have h := hc j
    simp only [buffers.read, State.setBuf, State.setPc, put_apply] at h
    grind
  all_goals simp only [buffers.read, State.setBuf, State.setPc, State.Pinned, State.content, ht, put_apply]
  all_goals grind

lemma Inv.modify (hidle : (s.proc p).pc = .idle)
    (hl : (s.buf i).lock = some p) (data : Bytes) : Inv devOf disk₀ (modify s i data) := by
  have hall := hI
  cases hall
  constructor
  case ring => exact hI.ring
  case logged => exact hI.logged_put rfl rfl
  case absent =>
    intro c hc
    simp only [buffers.modify, State.setBuf, State.content, put_apply] at hc ⊢
    have hne : c ≠ (s.buf i).blockno := by grind
    rw [if_neg hne]
    apply hI.absent
    grind
  all_goals simp only [buffers.modify, State.setBuf, State.Pinned, State.content, put_apply]
  all_goals grind

lemma Inv.bwrite (hidle : (s.proc p).pc = .idle)
    (he : bwrite s p i = .ok t) : Inv devOf disk₀ t := by
  unfold buffers.bwrite at he
  split at he
  · cases he
  · rename_i hl
    cases he
    have hall := hI
    cases hall
    constructor
    case ring => exact hI.ring
    case logged => exact hI.logged_put rfl rfl
    case absent =>
      intro c hc
      simp only [State.setBuf, State.content, put_apply] at hc ⊢
      have hne : c ≠ (s.buf i).blockno := by grind
      rw [if_neg hne]
      apply hI.absent
      grind
    all_goals simp only [State.setBuf, State.Pinned, State.content, put_apply]
    all_goals grind

lemma Inv.log_again (hidle : (s.proc p).pc = .idle)
    (hl : (s.buf i).lock = some p) (htail : s.tail = 0) (hmem : (s.buf i).blockno ∈ s.log.lh) :
    Inv devOf disk₀ (s.setBuf i { s.buf i with unsaved := false }) := by
  have hall := hI
  cases hall
  constructor
  case ring => exact hI.ring
  case logged => exact hI.logged_put rfl rfl
  all_goals simp only [State.setBuf, State.Pinned, State.content, put_apply]
  all_goals grind

lemma Inv.log_new (hidle : (s.proc p).pc = .idle)
    (hl : (s.buf i).lock = some p) (htail : s.tail = 0) (hnew : (s.buf i).blockno ∉ s.log.lh) :
    Inv devOf disk₀ { s.setBuf i { s.buf i with
        refcnt := (s.buf i).refcnt + 1, unsaved := false } with
      log := { s.log with lh := s.log.lh ++ [(s.buf i).blockno] } } := by
  have hdev := (hI.slot p i (hI.holder i p hl)).2
  have hall := hI
  cases hall
  constructor
  case ring => exact hI.ring
  case logged =>
    intro c hc
    change c ∈ (s.log.lh ++ [(s.buf i).blockno]).drop s.tail at hc
    rw [htail, drop_zero, mem_append, mem_singleton] at hc
    rcases hc with hc | rfl
    · obtain ⟨k, hk⟩ := hI.logged c (by rwa [htail, drop_zero])
      refine ⟨k, ?_⟩
      simp only [State.setBuf, put_apply]
      grind
    · exact ⟨i, by simpa [State.setBuf] using hdev⟩
  all_goals simp only [State.setBuf, State.Pinned, State.content, put_apply, htail, drop_zero]
  all_goals grind

lemma Inv.log_write (hidle : (s.proc p).pc = .idle)
    (hl : (s.buf i).lock = some p) (he : log_write s i = .ok t) : Inv devOf disk₀ t := by
  unfold buffers.log_write at he
  split at he
  · cases he
  · rename_i lg new hlw
    cases he
    obtain ⟨-, -, hout, hcase⟩ := log.log_write_ok hlw
    have htail := hI.early (hI.working (by omega))
    rcases hcase with ⟨hmem, rfl, rfl⟩ | ⟨hnew, rfl, rfl⟩
    · exact hI.log_again hidle hl htail hmem
    · exact hI.log_new hidle hl htail hnew

lemma Inv.brelse (hidle : (s.proc p).pc = .idle)
    (hs : (s.buf i).unsaved = false) (he : brelse s p i = .ok t) : Inv devOf disk₀ t := by
  unfold buffers.brelse at he
  split at he
  · cases he
  · rename_i hl
    cases he
    have ht := total_setPc s.proc p (.release i)
    have hall := hI
    cases hall
    constructor
    case ring => exact hI.ring
    case logged => exact hI.logged_put rfl rfl
    all_goals simp only [State.setBuf, State.setPc, State.Pinned, State.content, ht, put_apply]
    all_goals grind

lemma Inv.release (hpc : (s.proc p).pc = .release i) :
    Inv devOf disk₀ (release s p i) := by
  obtain ⟨hmem, hl⟩ := hI.releasing p i hpc
  have hi : i < NBUF := (hI.named i (hI.slot p i hmem).2).2
  have ht := total_release (hI.slot p i hmem).1 hmem .idle
  have hpos : 0 < total s.proc i := pointers.total_pos (hI.slot p i hmem).1 hmem
  have hkeep : ∀ j, j ∈ (s.proc p).refs.erase i → j ∈ (s.proc p).refs :=
    fun j hj => mem_of_mem_erase hj
  have hother : ∀ j, j ≠ i → j ∈ (s.proc p).refs → j ∈ (s.proc p).refs.erase i :=
    fun j hj hm => (mem_erase_of_ne hj).mpr hm
  have hall := hI
  cases hall
  constructor
  case ring =>
    obtain ⟨l, hc, hl⟩ := hI.ring
    have hil : i ∈ l := by rwa [hl.mem_iff, mem_range]
    simp only [buffers.release]
    split
    · have herase := hc.unlink hil
      have hnot : i ∉ head :: l.erase i := by
        have hn := hc.nodup
        rw [nodup_cons] at hn
        rw [mem_cons, not_or]
        exact ⟨fun h => hn.1 (h ▸ hil), hn.2.not_mem_erase⟩
      exact ⟨i :: l.erase i, herase.push hnot, (perm_cons_erase hil).symm.trans hl⟩
    · exact ⟨l, hc, hl⟩
  case logged => exact hI.logged_put rfl rfl
  all_goals simp only [buffers.release, State.setBuf, State.Pinned, State.content, ht, put_apply]
  all_goals grind

lemma Inv.bunpin (hidle : (s.proc p).pc = .idle)
    (hu : Used devOf s (.bunpin p i)) : Inv devOf disk₀ (bunpin s i) := by
  obtain ⟨hcom, hl, hd, htail⟩ := hu
  have hdev := (hI.slot p i (hI.holder i p hl)).2
  have hdrop : s.log.lh.drop s.tail = (s.buf i).blockno :: s.log.lh.drop (s.tail + 1) :=
    drop_eq_getElem?_toList_append.trans (by rw [htail]; rfl)
  have hnot : (s.buf i).blockno ∉ s.log.lh.drop (s.tail + 1) := by
    have := hI.nodup.sublist (drop_sublist s.tail s.log.lh)
    rw [hdrop, nodup_cons] at this
    exact this.1
  obtain ⟨ring, named, unique, slot, count, holder, filled, asked, reading, releasing,
    agree, clean, absent, kept, unsaved, logged, nodup, early, working, within⟩ := hI
  constructor
  case ring => exact ring
  case logged =>
    intro c hc
    obtain ⟨k, hk⟩ := logged c (by rw [hdrop]; exact mem_cons_of_mem _ hc)
    refine ⟨k, ?_⟩
    simp only [buffers.bunpin, State.setBuf, put_apply]
    grind
  all_goals simp only [buffers.bunpin, State.setBuf, State.Pinned, State.content, put_apply]
  all_goals simp only [State.Pinned, hdrop] at count kept
  all_goals grind

lemma Inv.setLog {lg : log.Log} {n : Nat}
    (hdrop : lg.lh.drop n = s.log.lh.drop s.tail) (hnodup : lg.lh.Nodup)
    (hearly : lg.committing = false → n = 0) (hwork : 0 < lg.outstanding → lg.committing = false)
    (hlen : n ≤ lg.lh.length) : Inv devOf disk₀ { s with log := lg, tail := n } := by
  have hpin : ∀ i, State.Pinned { s with log := lg, tail := n } i ↔ s.Pinned i := by
    intro i
    simp only [State.Pinned, hdrop]
  refine { hI with
    count := fun i => ?_
    kept := fun i hd => ?_
    logged := fun b hb => hI.logged b (hdrop ▸ hb)
    nodup := hnodup
    early := hearly
    working := hwork
    within := hlen }
  · simp only [hpin]
    exact hI.count i
  · rw [hpin]
    exact hI.kept i hd

lemma Inv.begin_op {lg : log.Log} (he : log.begin_op s.log = .ok lg) :
    Inv devOf disk₀ { s with log := lg } := by
  obtain ⟨hcom, -, rfl⟩ := log.begin_op_ok he
  exact hI.setLog rfl hI.nodup hI.early (fun _ => hcom) hI.within

lemma Inv.end_op {lg : log.Log} {c : Bool}
    (he : log.end_op s.log = .ok (lg, c)) : Inv devOf disk₀ { s with log := lg } := by
  obtain ⟨hcom, ⟨-, -, rfl⟩ | ⟨-, -, rfl⟩⟩ := log.end_op_ok he
  · exact hI.setLog rfl hI.nodup (fun _ => hI.early hcom) (fun h => absurd h (by simp)) hI.within
  · exact hI.setLog rfl hI.nodup hI.early (fun _ => hcom) hI.within

lemma Inv.clear (htail : s.tail = s.log.lh.length) :
    Inv devOf disk₀ { s with log := { s.log with lh := [] }, tail := 0 } := by
  refine hI.setLog ?_ nodup_nil (fun _ => rfl) hI.working (Nat.zero_le _)
  rw [htail, drop_length, drop_nil]

lemma Inv.committed (hlh : s.log.lh = []) :
    Inv devOf disk₀ { s with log := { s.log with committing := false } } := by
  refine hI.setLog rfl hI.nodup (fun _ => ?_) (fun _ => rfl) hI.within
  have := hI.within
  rw [hlh] at this
  exact Nat.le_zero.mp this

end

/-! ## Runs -/

lemma cycle_binit : Cycle binit head (List.range NBUF).reverse := by
  rw [← append_nil (List.range NBUF).reverse]
  refine Cycle.push_all (circular.Cycle.nil rfl rfl) nodup_range fun b hb => ?_
  rw [mem_range] at hb
  rw [mem_singleton]
  exact Nat.ne_of_lt hb

lemma Inv.start (devOf : Nat → Nat) (disk₀ : Nat → Bytes) (dev logstart nlog : Nat) :
    Inv devOf disk₀ (start disk₀ (log.initlog dev logstart nlog)) := by
  constructor
  case ring => exact ⟨_, cycle_binit, reverse_perm _⟩
  case count =>
    intro i
    simp [total, pointers.total, buffers.start, State.Pinned]
  all_goals simp [buffers.start, log.initlog, State.content]

lemma Inv.step (hI : Inv devOf disk₀ s) (he : step s p = .ok t) : Inv devOf disk₀ t := by
  unfold buffers.step at he
  split at he
  · cases he
  · rename_i hpc
    exact hI.acquiresleep hpc he
  · rename_i hpc
    cases he
    exact hI.read hpc
  · rename_i hpc
    cases he
    exact hI.release hpc

lemma Inv.call (hI : Inv devOf disk₀ s) (hdev : ∀ b, devOf b ≠ 0) {a : Act} (hp : a.proc < NPROC)
    (hidle : (s.proc a.proc).pc = .idle) (hu : Used devOf s a) (he : call s a = .ok t) :
    Inv devOf disk₀ t := by
  cases a with
  | bread p dev b => exact hI.bget hp hidle hu (hu ▸ hdev b) he
  | modify p i data =>
    simp only [buffers.call] at he
    split at he
    · rename_i hl
      cases he
      exact hI.modify hidle hl data
    · cases he
  | bwrite p i => exact hI.bwrite hidle he
  | log_write p i => exact hI.log_write hidle hu he
  | brelse p i => exact hI.brelse hidle hu he
  | begin_op p =>
    simp only [buffers.call] at he
    split at he
    · cases he
    · rename_i hlg
      cases he
      exact hI.begin_op hlg
  | end_op p =>
    simp only [buffers.call] at he
    split at he
    · cases he
    · rename_i hlg
      cases he
      exact hI.end_op hlg
  | bunpin p i =>
    cases he
    exact hI.bunpin hidle hu
  | clear p =>
    cases he
    exact hI.clear hu.2
  | committed p =>
    cases he
    exact hI.committed hu.2
  | step p => cases he

lemma Inv.exec (hI : Inv devOf disk₀ s) (hdev : ∀ b, devOf b ≠ 0) {a : Act} (hu : Used devOf s a)
    (he : exec s a = .ok t) : Inv devOf disk₀ t := by
  unfold buffers.exec at he
  split at he
  · rename_i hp
    split at he
    · exact hI.step he
    · split at he
      · rename_i hidle
        exact hI.call hdev hp hidle hu he
      · cases he
  · cases he

/-! ## What the calls do for their callers -/

/-- The buffer is for the same block, and still valid if it was. -/
def Keeps (x y : Buf) : Prop := y.dev = x.dev ∧ y.blockno = x.blockno ∧ (x.valid = true → y.valid = true)

lemma Keeps.put {f : Nat → Buf} {x : Buf} (h : Keeps (f i) x) (j : Nat) :
    Keeps (f j) (put f i x j) := by
  by_cases hj : j = i
  · rw [hj, put_self]
    exact h
  · rw [put_of_ne hj]
    exact ⟨rfl, rfl, id⟩

lemma Inv.bget_keeps (hI : Inv devOf disk₀ s) (h0 : dev ≠ 0) (he : buffers.bget s p dev b = .ok t)
    (hi : 0 < (s.buf i).refcnt) : Keeps (s.buf i) (t.buf i) := by
  unfold buffers.bget at he
  rcases hI.cached h0 (b := b) with ⟨k, hc, -⟩ | ⟨hc, -⟩
  · rw [hc] at he
    cases he
    refine Keeps.put (f := s.buf) ?_ i
    exact ⟨rfl, rfl, id⟩
  · rw [hc] at he
    rcases hI.unused with ⟨k, hu, -, hr⟩ | hu
    · rw [hu] at he
      cases he
      have hik : i ≠ k := by
        rintro rfl
        omega
      simp only [State.take, State.setBuf, put_of_ne hik]
      exact ⟨rfl, rfl, id⟩
    · rw [hu] at he
      cases he

lemma step_keeps (he : step s p = .ok t) (i : Nat) : Keeps (s.buf i) (t.buf i) := by
  unfold buffers.step at he
  split at he
  · cases he
  · unfold acquiresleep at he
    split at he
    · cases he
    · cases he
      refine Keeps.put (f := s.buf) ?_ i
      exact ⟨rfl, rfl, id⟩
  · cases he
    refine Keeps.put (f := s.buf) ?_ i
    exact ⟨rfl, rfl, fun _ => rfl⟩
  · cases he
    refine Keeps.put (f := s.buf) ?_ i
    exact ⟨rfl, rfl, id⟩

lemma Inv.exec_keeps (hI : Inv devOf disk₀ s) (hdev : ∀ b, devOf b ≠ 0) {a : Act}
    (hu : Used devOf s a) (he : buffers.exec s a = .ok t) (hi : 0 < (s.buf i).refcnt) :
    Keeps (s.buf i) (t.buf i) := by
  have hsame : Keeps (s.buf i) (s.buf i) := ⟨rfl, rfl, id⟩
  unfold buffers.exec at he
  split at he
  · split at he
    · exact step_keeps he i
    · split at he
      · cases a with
        | bread p dev b => exact hI.bget_keeps (hu ▸ hdev b) he hi
        | modify p k data =>
          simp only [buffers.call] at he
          split at he
          · cases he
            refine Keeps.put (f := s.buf) ?_ i
            exact ⟨rfl, rfl, id⟩
          · cases he
        | bwrite p k =>
          simp only [buffers.call, buffers.bwrite] at he
          split at he
          · cases he
          · cases he
            refine Keeps.put (f := s.buf) ?_ i
            exact ⟨rfl, rfl, id⟩
        | log_write p k =>
          simp only [buffers.call, buffers.log_write] at he
          split at he
          · cases he
          · cases he
            refine Keeps.put (f := s.buf) ?_ i
            exact ⟨rfl, rfl, id⟩
        | brelse p k =>
          simp only [buffers.call, buffers.brelse] at he
          split at he
          · cases he
          · cases he
            refine Keeps.put (f := s.buf) ?_ i
            exact ⟨rfl, rfl, id⟩
        | begin_op p =>
          simp only [buffers.call] at he
          split at he
          · cases he
          · cases he
            exact hsame
        | end_op p =>
          simp only [buffers.call] at he
          split at he
          · cases he
          · cases he
            exact hsame
        | bunpin p k =>
          cases he
          refine Keeps.put (f := s.buf) ?_ i
          exact ⟨rfl, rfl, id⟩
        | clear p =>
          cases he
          exact hsame
        | committed p =>
          cases he
          exact hsame
        | step p => cases he
      · cases he
  · cases he

lemma Inv.bread_returns (hI : Inv devOf disk₀ s)
    (hpc : (s.proc p).pc = .lock dev b i ∨ (s.proc p).pc = .read dev b i)
    (he : buffers.step s p = .ok t) (hidle : (t.proc p).pc = .idle) :
    (t.buf i).dev = dev ∧ (t.buf i).blockno = b ∧ (t.buf i).lock = some p ∧
      (t.buf i).data = t.content disk₀ b := by
  have hIt := hI.step he
  obtain ⟨-, hdev, hb⟩ := hI.asked p dev b i hpc
  obtain ⟨hd, hbl, -⟩ := step_keeps he i
  have hlock : (t.buf i).lock = some p := by
    unfold buffers.step at he
    rcases hpc with hpc | hpc
    · rw [hpc] at he
      simp only [buffers.acquiresleep] at he
      split at he
      · cases he
      · cases he
        simp [State.setPc, State.setBuf]
    · rw [hpc] at he
      cases he
      simpa [buffers.read, State.setPc, State.setBuf] using (hI.reading p dev b i hpc).1
  have hvalid : (t.buf i).valid = true := by
    rcases hIt.filled i p hlock with h | h
    · exact h
    · rw [hidle] at h
      cases h
  refine ⟨hd.trans hdev, hbl.trans hb, hlock, ?_⟩
  rw [(hIt.agree i hvalid).2, hbl, hb]

/-- In every run: the pointers are one circular list of all the buffers, a block has at most one
buffer, a buffer in use keeps its block, and `bread` returns what was last written to the block
through the cache, or what was on the disk. -/
theorem buffer_cache_refines_disk (devOf : Nat → Nat) (hdev : ∀ b, devOf b ≠ 0)
    (disk₀ : Nat → Bytes) (dev logstart nlog : Nat)
    (h : Run buffers.exec (Used devOf) (buffers.start disk₀ (log.initlog dev logstart nlog)) s) :
    (∃ l, Cycle s.links head l ∧ l.Perm (List.range NBUF)) ∧
    (∀ i j, i < NBUF → j < NBUF → (s.buf i).dev ≠ 0 → (s.buf i).dev = (s.buf j).dev →
      (s.buf i).blockno = (s.buf j).blockno → i = j) ∧
    (∀ a t i, Used devOf s a → buffers.exec s a = .ok t → 0 < (s.buf i).refcnt →
      (t.buf i).dev = (s.buf i).dev ∧ (t.buf i).blockno = (s.buf i).blockno ∧
        ((s.buf i).valid = true → (t.buf i).valid = true)) ∧
    (∀ p dev b i t, (s.proc p).pc = .lock dev b i ∨ (s.proc p).pc = .read dev b i →
      buffers.exec s (.step p) = .ok t → (t.proc p).pc = .idle →
      (t.buf i).dev = dev ∧ (t.buf i).blockno = b ∧ (t.buf i).lock = some p ∧
        (t.buf i).data = (t.written b).getD (disk₀ b)) := by
  have hI : Inv devOf disk₀ s := h.invariant (I := Inv devOf disk₀)
    (Inv.start devOf disk₀ dev logstart nlog) fun _ _ _ hI hu he => hI.exec hdev hu he
  refine ⟨hI.ring, ?_, ?_, ?_⟩
  · intro i j _ _ h0 hd hb
    exact hI.unique i j h0 (hd ▸ h0) hb
  · intro a t i hu he hi
    exact hI.exec_keeps hdev hu he hi
  · intro p dev b i t hpc he hidle
    have hp : p < NPROC := (hI.slot p i (hI.asked p dev b i hpc).1).1
    rw [buffers.exec, Act.proc, if_pos hp] at he
    exact hI.bread_returns hpc he hidle

/-! ## A run -/

/-- A block is changed and logged, other blocks are read, and it is read again. -/
def rereadActs : List Act :=
  [.begin_op 0, .bread 0 1 50, .step 0, .step 0, .modify 0 0 fun _ => 7, .log_write 0 0, .brelse 0 0,
    .step 0] ++
  ((List.range 4).flatMap fun b =>
    [.bread 1 1 (100 + b), .step 1, .step 1, .brelse 1 (1 + b % 29), .step 1]) ++ [.bread 2 1 50]

/-- Process 2 waits for the block, and gets it with its next step. -/
def rereads (s : State) : Bool :=
  (s.proc 2).pc = .lock 1 50 0 &&
    match buffers.exec s (.step 2) with
    | .ok t => (t.proc 2).pc = .idle && ((t.written 50).getD fun _ => 0) 0 = 7
    | .error _ => false

theorem buffer_cache_refines_disk_reread : ∃ s t,
    Run buffers.exec (Used fun _ => 1) (buffers.start (fun _ _ => 0) (log.initlog 1 2 30)) s ∧
      buffers.exec s (.step 2) = .ok t ∧ (t.buf 0).blockno = 50 ∧ (t.buf 0).data 0 = 7 := by
  obtain ⟨s, hrun, htest⟩ := exists_played buffers.exec (Used fun _ => 1)
    (buffers.start (fun _ _ => 0) (log.initlog 1 2 30)) rereadActs
    (fun s a => decide (Used (fun _ => 1) s a)) rereads (fun _ _ h => of_decide_eq_true h)
    (by decide +kernel)
  simp only [rereads, Bool.and_eq_true, decide_eq_true_eq] at htest
  obtain ⟨hpc, htest⟩ := htest
  split at htest
  · rename_i t he
    simp only [Bool.and_eq_true, decide_eq_true_eq] at htest
    have h := (buffer_cache_refines_disk (fun _ => 1) (by simp) _ 1 2 30 hrun).2.2.2 2 1 50 0 t
      (.inl hpc) he htest.1
    exact ⟨s, t, hrun, he, h.2.1, by rw [h.2.2.2]; exact htest.2⟩
  · cases htest

end xv6.buffers
