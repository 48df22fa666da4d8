-- The process table and the memory: what every process that is not unused has,
-- and which pages processes can share. A call changes one slot at a time.
import Xv6.UserAccess

open cells linked wp

namespace xv6.proc

open vm

variable {ld : Link} {use use' : Nat → Use} {l l' : List Nat} {tab : Nat → Tab} {v v' : Vm}
  {proc : Nat → Proc} {p q r x : Nat} {T T' : Tab}

/-! ## The invariant -/

def Holds (x : Proc) : Prop := x.state ≠ .UNUSED ∧ ¬ (x.state = .ZOMBIE ∧ x.isthread = true)

instance (x : Proc) : Decidable (Holds x) := inferInstanceAs (Decidable (_ ∧ _))

def Maps (x : Proc) (T : Tab) (y : Nat) : Prop := Covers T 0 (pages x.sz) y

def Proc.Blank (x : Proc) : Prop := x = { x.freed with killed := x.killed }

/-- What slot `p` has when it is not unused. -/
structure Slot (ld : Link) (use : Nat → Use) (mem : Nat → Nat → Nat) (p : Nat) (x : Proc)
    (T : Tab) : Prop where
  table : Table use mem x.pagetable T
  map : Map ld x.trapframe (pages x.sz) T
  frame : use x.trapframe = .frame p
  user : Holds x → ∀ y, Maps x T y → use y = .user

/-- The table of processes and the uses of the pages fit together. -/
structure Inv (ld : Link) (use : Nat → Use) (l : List Nat) (tab : Nat → Tab) (v : Vm)
    (proc : Nat → Proc) : Prop where
  heap : Heap ld use l v
  rooted : Rooted use
  unused : ∀ p, (proc p).state = .UNUSED → (proc p).Blank
  slots : ∀ p, NPROC ≤ p → (proc p).state = .UNUSED
  active : ∀ p, (proc p).state ≠ .UNUSED → Slot ld use v.mem p (proc p) (tab p)
  roots : ∀ p q, (proc p).state ≠ .UNUSED → (proc q).state ≠ .UNUSED →
    (proc p).pagetable = (proc q).pagetable → p = q
  apart : ∀ p q, p ≠ q → Holds (proc p) → Holds (proc q) → (proc p).isthread = false →
    ∀ y, Maps (proc p) (tab p) y → ¬ Maps (proc q) (tab q) y

/-- Every page is used by the slot that its use names, or free, or one of the pages `K` of the
kernel; and no unused slot is marked as a thread. -/
structure NoLeak (ld : Link) (K : List Nat) (use : Nat → Use) (tab : Nat → Tab)
    (proc : Nat → Proc) : Prop where
  known : ∀ y, IsPage ld y → use y ≠ .none
  arg : ∀ y, use y ≠ .arg
  kernel : ∀ y, use y = .kernel ↔ y ∈ K
  table : ∀ y r pl, use y = .table r pl → ∃ p, (proc p).state ≠ .UNUSED ∧ (proc p).pagetable = r
  frame : ∀ y p, use y = .frame p → (proc p).state ≠ .UNUSED ∧ (proc p).trapframe = y
  user : ∀ y, use y = .user → ∃ p, (proc p).state ≠ .UNUSED ∧ Maps (proc p) (tab p) y
  flag : ∀ p, (proc p).state = .UNUSED → (proc p).isthread = false

/-! ## Changes of one slot -/

/-- Slot `p` uses page `y`. -/
def Owns (p : Nat) (x : Proc) (T : Tab) (use : Nat → Use) (y : Nat) : Prop :=
  x.state ≠ .UNUSED ∧ ((∃ pl, use y = .table x.pagetable pl) ∨
    (use y = .frame p ∧ x.trapframe = y) ∨ (use y = .user ∧ Maps x T y))

/-- Slot `p` goes from `x` to `x'`. A page stays as it is, or the slot takes it or keeps it, or it
becomes free. When nothing is lost (`leak` is false) the slot keeps or frees what it had. -/
def Effect (leak : Prop) (p : Nat) (x : Proc) (T : Tab) (x' : Proc) (T' : Tab)
    (use use' : Nat → Use) (mem mem' : Nat → Nat → Nat) : Prop :=
  ∀ y, (use' y = use y ∧ (Owns p x T use y → leak) ∧ (use y ≠ .free → mem' y = mem y)) ∨
    (Owns p x' T' use' y ∧ (use y = .free ∨ Owns p x T use y ∧ use' y = use y)) ∨
    (use' y = .free ∧ (use y = .free ∨ Owns p x T use y))

variable {leak : Prop} {x' : Proc} {y : Nat}

variable {z : Proc}

lemma Owns.table {pl : Place} (h : Owns p z T use y) (hy : use y = .table r pl) :
    r = z.pagetable := by
  rcases h.2 with ⟨_, h1⟩ | ⟨h1, _⟩ | ⟨h1, _⟩ <;> rw [hy] at h1 <;> cases h1
  rfl

lemma Owns.frame (h : Owns p z T use y) (hy : use y = .frame q) :
    q = p ∧ z.trapframe = y := by
  rcases h.2 with ⟨_, h1⟩ | ⟨h1, h2⟩ | ⟨h1, _⟩ <;> rw [hy] at h1 <;> cases h1
  exact ⟨rfl, h2⟩

lemma Owns.user (h : Owns p z T use y) (hy : use y = .user) : Maps z T y := by
  rcases h.2 with ⟨_, h1⟩ | ⟨h1, _⟩ | ⟨_, h1⟩
  · rw [hy] at h1
    cases h1
  · rw [hy] at h1
    cases h1
  · exact h1

lemma Effect.other {x0 : Proc} (he : Effect leak p x0 T x' T' use use' v.mem v'.mem)
    (hf : use y ≠ .free) (hn : ¬ Owns p x0 T use y) : use' y = use y ∧ v'.mem y = v.mem y := by
  rcases he y with ⟨h1, _, h3⟩ | ⟨_, h1 | ⟨h1, _⟩⟩ | ⟨_, h1 | h1⟩
  · exact ⟨h1, h3 hf⟩
  · exact absurd h1 hf
  · exact absurd h1 hn
  · exact absurd h1 hf
  · exact absurd h1 hn

section

variable (hI : Inv ld use l tab v proc) (hqp : q ≠ p) (hq : (proc q).state ≠ .UNUSED)
include hI hqp hq

lemma Inv.not_owns_table {pl : Place} (hy : use y = .table (proc q).pagetable pl) :
    ¬ Owns p (proc p) (tab p) use y :=
  fun ho => hqp (hI.roots q p hq ho.1 (ho.table hy))

lemma Inv.not_owns_frame : ¬ Owns p (proc p) (tab p) use (proc q).trapframe :=
  fun ho => hqp (ho.frame (hI.active q hq).frame).1

lemma Inv.slot_other
    (he : Effect leak p (proc p) (tab p) x' T' use use' v.mem v'.mem)
    (hroot : x'.state ≠ .UNUSED → (proc q).pagetable ≠ x'.pagetable)
    (hfree : Holds (proc q) → ∀ y, Maps (proc q) (tab q) y → use' y ≠ .free) :
    Slot ld use' v'.mem q (proc q) (tab q) := by
  have hs := hI.active q hq
  have hkeep : ∀ y pl, use y = .table (proc q).pagetable pl → use' y = use y ∧ v'.mem y = v.mem y :=
    fun y pl hy => he.other (by rw [hy]; simp) (hI.not_owns_table hqp hq hy)
  refine ⟨hs.table.congr (fun y pl => ⟨fun hy => ?_, fun hy => ?_⟩) fun y pl hy => (hkeep y pl hy).2,
    hs.map, ?_, fun hh y hy => ?_⟩
  · rcases he y with ⟨h1, _, _⟩ | ⟨ho, _⟩ | ⟨h1, _⟩
    · rw [← h1]
      exact hy
    · exact absurd (ho.table hy) (hroot ho.1)
    · rw [hy] at h1
      cases h1
  · rw [(hkeep y pl hy).1]
    exact hy
  · rw [(he.other (by rw [hs.frame]; simp) (hI.not_owns_frame hqp hq)).1]
    exact hs.frame
  · have hu := hs.user hh y hy
    rcases he y with ⟨h1, _, _⟩ | ⟨_, h1 | ⟨_, h1⟩⟩ | ⟨h1, _⟩
    · rw [h1, hu]
    · rw [hu] at h1
      cases h1
    · rw [h1, hu]
    · exact absurd h1 (hfree hh y hy)

end

lemma Inv.effect (hI : Inv ld use l tab v proc)
    (he : Effect leak p (proc p) (tab p) x' T' use use' v.mem v'.mem) (hheap : Heap ld use' l' v')
    (hp : x'.state ≠ .UNUSED → p < NPROC)
    (hslot : x'.state ≠ .UNUSED → Slot ld use' v'.mem p x' T')
    (hun : x'.state = .UNUSED → x'.Blank)
    (hold : (∀ y pl, use' y ≠ .table (proc p).pagetable pl) ∨
      use' (proc p).pagetable = use (proc p).pagetable)
    (hroot : ∀ q, q ≠ p → (proc q).state ≠ .UNUSED → x'.state ≠ .UNUSED →
      (proc q).pagetable ≠ x'.pagetable)
    (hfree : ∀ q, q ≠ p → Holds (proc q) → ∀ y, Maps (proc q) (tab q) y → use' y ≠ .free)
    (hapart : Holds x' → ∀ q, q ≠ p → Holds (proc q) →
      (x'.isthread = false ∨ (proc q).isthread = false) →
      ∀ y, Maps x' T' y → ¬ Maps (proc q) (tab q) y) :
    Inv ld use' l' (put tab p T') v' (put proc p x') := by
  refine ⟨hheap, ?_, ?_, ?_, ?_, ?_, ?_⟩
  · intro y r pl hy
    rcases he y with ⟨h1, _, _⟩ | ⟨ho, _⟩ | ⟨h1, _⟩
    · rw [h1] at hy
      have hr := hI.rooted y r pl hy
      rcases he r with ⟨h2, _, _⟩ | ⟨_, h2 | ⟨_, h2⟩⟩ | ⟨h2, h3 | ho⟩
      · rw [h2, hr]
      · rw [hr] at h2
        cases h2
      · rw [h2, hr]
      · rw [hr] at h3
        cases h3
      · -- the root of the slot is free now, so no page of its table is left
        rcases hold with h4 | h4
        · rw [← ho.table hr] at h4
          exact absurd (h1.trans hy) (h4 y pl)
        · rw [← ho.table hr] at h4
          rw [h4, hr]
    · have ht := (hslot ho.1).table
      rw [ho.table hy]
      exact ht.use_at .root ht.root_ne
    · rw [hy] at h1
      cases h1
  · intro q hq
    by_cases hqp : q = p
    · rw [hqp, put_self] at hq ⊢
      exact hun hq
    · rw [put_of_ne hqp] at hq ⊢
      exact hI.unused q hq
  · intro q hq
    by_cases hqp : q = p
    · rw [hqp, put_self]
      by_contra hc
      have := hp hc
      omega
    · rw [put_of_ne hqp]
      exact hI.slots q hq
  · intro q hq
    by_cases hqp : q = p
    · rw [hqp, put_self] at hq ⊢
      rw [put_self]
      exact hslot hq
    · rw [put_of_ne hqp] at hq ⊢
      rw [put_of_ne hqp]
      exact hI.slot_other hqp hq he (hroot q hqp hq) (hfree q hqp)
  · intro a b ha hb hab
    by_cases hap : a = p
    · by_cases hbp : b = p
      · rw [hap, hbp]
      · rw [hap, put_self] at ha hab
        rw [put_of_ne hbp] at hb hab
        exact absurd hab.symm (hroot b hbp hb ha)
    · by_cases hbp : b = p
      · rw [put_of_ne hap] at ha hab
        rw [hbp, put_self] at hb hab
        exact absurd hab (hroot a hap ha hb)
      · rw [put_of_ne hap] at ha hab
        rw [put_of_ne hbp] at hb hab
        exact hI.roots a b ha hb hab
  · intro a b hab ha hb hth y
    by_cases hap : a = p
    · have hbp : b ≠ p := fun hbp => hab (hap.trans hbp.symm)
      rw [hap, put_self] at ha hth
      rw [put_of_ne hbp] at hb
      rw [hap, put_self, put_self, put_of_ne hbp, put_of_ne hbp]
      exact hapart ha b hbp hb (.inl hth) y
    · rw [put_of_ne hap] at ha hth
      rw [put_of_ne hap, put_of_ne hap]
      by_cases hbp : b = p
      · rw [hbp, put_self] at hb
        rw [hbp, put_self, put_self]
        exact fun h1 h2 => hapart hb a hap ha (.inr hth) y h2 h1
      · rw [put_of_ne hbp] at hb
        rw [put_of_ne hbp, put_of_ne hbp]
        exact hI.apart a b hab ha hb hth y

lemma NoLeak.effect {K : List Nat} (h : NoLeak ld K use tab proc)
    (he : Effect leak p (proc p) (tab p) x' T' use use' v.mem v'.mem) (hleak : ¬ leak)
    (hflag : x'.state = .UNUSED → x'.isthread = false) :
    NoLeak ld K use' (put tab p T') (put proc p x') := by
  -- a page in a use that no slot has stays as it is
  have hstay : ∀ y u, (∀ z T use', Owns p z T use' y → use' y ≠ u) → u ≠ .free →
      (use' y = u ↔ use y = u) := by
    intro y u hu hf
    rcases he y with ⟨h1, _, _⟩ | ⟨ho, h2⟩ | ⟨h1, h2⟩
    · rw [h1]
    · refine iff_of_false (hu _ _ _ ho) ?_
      rcases h2 with h2 | ⟨h2, _⟩
      · rw [h2]
        exact hf.symm
      · exact hu _ _ _ h2
    · refine iff_of_false (by rw [h1]; exact hf.symm) ?_
      rcases h2 with h2 | h2
      · rw [h2]
        exact hf.symm
      · exact hu _ _ _ h2
  refine ⟨fun y hy hu => ?_, fun y hu => ?_, fun y => ?_, fun y r pl hu => ?_, fun y q hu => ?_,
    fun y hu => ?_, fun q hq => ?_⟩
  · refine h.known y hy ((hstay y .none ?_ (by simp)).mp hu)
    rintro z T use' ⟨_, ho⟩ hc
    simp [hc] at ho
  · refine h.arg y ((hstay y .arg ?_ (by simp)).mp hu)
    rintro z T use' ⟨_, ho⟩ hc
    simp [hc] at ho
  · rw [← h.kernel y]
    refine hstay y .kernel ?_ (by simp)
    rintro z T use' ⟨_, ho⟩ hc
    simp [hc] at ho
  · rcases he y with ⟨h1, h2, _⟩ | ⟨ho, _⟩ | ⟨h1, _⟩
    · rw [h1] at hu
      obtain ⟨q, hq, hr⟩ := h.table y r pl hu
      have hqp : q ≠ p := by
        rintro rfl
        exact hleak (h2 ⟨hq, .inl ⟨pl, by rw [hr]; exact hu⟩⟩)
      exact ⟨q, by rw [put_of_ne hqp]; exact ⟨hq, hr⟩⟩
    · exact ⟨p, by rw [put_self]; exact ⟨ho.1, (ho.table hu).symm⟩⟩
    · rw [hu] at h1
      cases h1
  · rcases he y with ⟨h1, h2, _⟩ | ⟨ho, _⟩ | ⟨h1, _⟩
    · rw [h1] at hu
      obtain ⟨hq, htf⟩ := h.frame y q hu
      have hqp : q ≠ p := by
        rintro rfl
        exact hleak (h2 ⟨hq, .inr (.inl ⟨hu, htf⟩)⟩)
      rw [put_of_ne hqp]
      exact ⟨hq, htf⟩
    · obtain ⟨rfl, htf⟩ := ho.frame hu
      rw [put_self]
      exact ⟨ho.1, htf⟩
    · rw [hu] at h1
      cases h1
  · rcases he y with ⟨h1, h2, _⟩ | ⟨ho, _⟩ | ⟨h1, _⟩
    · rw [h1] at hu
      obtain ⟨q, hq, hm⟩ := h.user y hu
      have hqp : q ≠ p := by
        rintro rfl
        exact hleak (h2 ⟨hq, .inr (.inr ⟨hu, hm⟩)⟩)
      exact ⟨q, by rw [put_of_ne hqp, put_of_ne hqp]; exact ⟨hq, hm⟩⟩
    · exact ⟨p, by rw [put_self, put_self]; exact ⟨ho.1, ho.user hu⟩⟩
    · rw [hu] at h1
      cases h1
  · by_cases hqp : q = p
    · rw [hqp, put_self] at hq ⊢
      exact hflag hq
    · rw [put_of_ne hqp] at hq ⊢
      exact h.flag q hq

/-! ## Changes of fields -/

lemma effect_of_same (hstate : z.state ≠ .UNUSED) (hsz : z.sz = (proc p).sz)
    (hpt : z.pagetable = (proc p).pagetable) (htf : z.trapframe = (proc p).trapframe) :
    Effect False p (proc p) (tab p) z (tab p) use use v.mem v.mem := by
  intro y
  by_cases ho : Owns p (proc p) (tab p) use y
  · refine .inr (.inl ⟨⟨hstate, ?_⟩, .inr ⟨ho, rfl⟩⟩)
    have h := ho.2
    unfold Maps at h ⊢
    rw [hpt, htf, hsz]
    exact h
  · exact .inl ⟨rfl, fun h => absurd h ho, fun _ => rfl⟩

lemma Inv.setProc (hI : Inv ld use l tab v proc) (hstate : z.state ≠ .UNUSED)
    (hp : (proc p).state ≠ .UNUSED) (hsz : z.sz = (proc p).sz)
    (hpt : z.pagetable = (proc p).pagetable) (htf : z.trapframe = (proc p).trapframe)
    (hh : Holds z → Holds (proc p))
    (hth : Holds z → z.isthread = false → (proc p).isthread = false) :
    Inv ld use l tab v (put proc p z) := by
  have hmaps : ∀ y, Maps z (tab p) y ↔ Maps (proc p) (tab p) y := by
    intro y
    unfold Maps
    rw [hsz]
  rw [← put_eq_self (f := tab) (a := p) rfl]
  refine hI.effect (effect_of_same hstate hsz hpt htf) hI.heap (fun _ => ?_) (fun _ => ?_)
    (fun hc => absurd hc hstate) (.inr rfl)
    (fun q hqp hq _ hc => hqp (hI.roots q p hq hp (hc.trans hpt))) (fun q _ hq y hy => ?_)
    fun hz q hqp hq hf y hy hqy => ?_
  · by_contra hlt
    exact hp (hI.slots p (by omega))
  · have hs := hI.active p hp
    exact ⟨by rw [hpt]; exact hs.table, by rw [htf, hsz]; exact hs.map, by rw [htf]; exact hs.frame,
      fun hx y hy => hs.user (hh hx) y ((hmaps y).mp hy)⟩
  · rw [(hI.active q hq.1).user hq y hy]
    simp
  · rcases hf with hf | hf
    · exact hI.apart p q (Ne.symm hqp) (hh hz) hq (hth hz hf) y ((hmaps y).mp hy) hqy
    · exact hI.apart q p hqp hq (hh hz) hf y hqy ((hmaps y).mp hy)

lemma NoLeak.setProc {K : List Nat} (h : NoLeak ld K use tab proc) (hstate : z.state ≠ .UNUSED)
    (hsz : z.sz = (proc p).sz) (hpt : z.pagetable = (proc p).pagetable)
    (htf : z.trapframe = (proc p).trapframe) : NoLeak ld K use tab (put proc p z) := by
  rw [← put_eq_self (f := tab) (a := p) rfl]
  exact h.effect (effect_of_same (v := ⟨fun _ _ => 0, 0⟩) hstate hsz hpt htf) not_false
    fun hc => absurd hc hstate

lemma Inv.touched {S : Nat → Prop} (hI : Inv ld use l tab v proc) (ht : Touched S v v')
    (hS : ∀ y, S y → use y ≠ .free ∧ ∀ r pl, use y ≠ .table r pl) :
    Inv ld use l tab v' proc := by
  refine ⟨hI.heap.touched ht fun y hy => (hS y hy).1, hI.rooted, hI.unused, hI.slots,
    fun p hp => ?_, hI.roots, hI.apart⟩
  have hs := hI.active p hp
  exact ⟨hs.table.touched ht fun y hy => (hS y hy).2 _, hs.map, hs.frame, hs.user⟩

end xv6.proc
