-- `exec` for a process: the pages of the arguments, the new address space, and
-- the commit, which gives the old one back.
import Xv6.Loading
import Xv6.ProcCalls

open cells linked wp List

namespace xv6.proc

open vm

variable {ld : Link} {use use' use1 : Nat → Use} {l l' l1 : List Nat} {tab : Nat → Tab}
  {v v' v1 : Vm} {proc : Nat → Proc} {me p q r k n sz : Nat} {T T' : Tab} {s t : Sys}
  {E : Stop → Prop}

/-! ## The arguments -/

/-- The pages `ps` hold arguments. -/
def withArgs (use : Nat → Use) (ps : List Nat) (y : Nat) : Use := if y ∈ ps then .arg else use y

lemma withArgs_nil (use : Nat → Use) : withArgs use [] = use := by
  funext y
  exact if_neg not_mem_nil

variable {ps : List Nat}

lemma withArgs_of_not_mem {y : Nat} (h : y ∉ ps) : withArgs use ps y = use y :=
  if_neg h

lemma withArgs_of_mem {y : Nat} (h : y ∈ ps) : withArgs use ps y = .arg :=
  if_pos h

lemma withArgs_append (use : Nat → Use) (ps : List Nat) (x : Nat) :
    withArgs use (ps ++ [x]) = put (withArgs use ps) x .arg := by
  funext y
  by_cases hy : y = x
  · rw [hy, put_self, withArgs_of_mem (by simp)]
  · rw [put_of_ne hy]
    unfold withArgs
    simp [hy]

lemma withArgs_cons {x : Nat} (hx : use x = .free) (hn : x ∉ ps) :
    put (withArgs use (x :: ps)) x .free = withArgs use ps := by
  funext y
  by_cases hy : y = x
  · rw [hy, put_self, withArgs_of_not_mem hn, hx]
  · rw [put_of_ne hy]
    unfold withArgs
    simp [hy]

lemma Inv.reArg (hI : Inv ld use l tab v proc) (hheap : Heap ld use' l' v')
    (hsame : ∀ y, use y ≠ .free → use y ≠ .arg → use' y = use y ∧ v'.mem y = v.mem y)
    (hnew : ∀ y, use y = .free ∨ use y = .arg → use' y = .free ∨ use' y = .arg) :
    Inv ld use' l' tab v' proc := by
  have hiff : ∀ y u, u ≠ .free → u ≠ .arg → (use' y = u ↔ use y = u) := by
    intro y u h1 h2
    by_cases hy : use y = .free ∨ use y = .arg
    · refine iff_of_false ?_ ?_
      · rintro rfl
        rcases hnew y hy with hc | hc
        · exact h1 hc
        · exact h2 hc
      · rintro rfl
        rcases hy with hc | hc
        · exact h1 hc
        · exact h2 hc
    · rw [(hsame y (fun hc => hy (.inl hc)) fun hc => hy (.inr hc)).1]
  refine ⟨hheap, fun y r pl hy => ?_, hI.unused, hI.slots, fun p hp => ?_, hI.roots, hI.apart⟩
  · rw [hiff _ _ (by simp) (by simp)] at hy ⊢
    exact hI.rooted y r pl hy
  · have hs := hI.active p hp
    refine ⟨hs.table.congr (fun y pl => hiff _ _ (by simp) (by simp)) fun y pl hy => ?_, hs.map,
      (hiff _ _ (by simp) (by simp)).mpr hs.frame,
      fun hh y hy => (hiff _ _ (by simp) (by simp)).mpr (hs.user hh y hy)⟩
    exact (hsame y (by rw [hy]; simp) (by rw [hy]; simp)).2

/-- The pages of the arguments that `fetchArgs` took. -/
structure ArgPages (ld : Link) (use : Nat → Use) (tab : Nat → Tab) (v : Vm) (proc : Nat → Proc)
    (ps : List Nat) (v' : Vm) : Prop where
  nodup : ps.Nodup
  free : ∀ x ∈ ps, use x = .free
  inv : ∃ l', Inv ld (withArgs use ps) l' tab v' proc
  same : ∀ y, use y ≠ .free → v'.mem y = v.mem y

lemma ArgPages.snoc {ps : List Nat} {x : Nat} (h : ArgPages ld use tab v proc ps v1)
    (hx : withArgs use ps x = .free) (hmem : ∀ y, y ≠ x → v'.mem y = v1.mem y)
    (hheap : Heap ld (put (withArgs use ps) x .arg) l' v') :
    ArgPages ld use tab v proc (ps ++ [x]) v' := by
  have hn : x ∉ ps := by
    intro hc
    rw [withArgs_of_mem hc] at hx
    cases hx
  have hfree : use x = .free := by rwa [withArgs_of_not_mem hn] at hx
  obtain ⟨l1, hI⟩ := h.inv
  refine ⟨?_, ?_, ⟨l', ?_⟩, fun y hy => ?_⟩
  · rw [nodup_append]
    refine ⟨h.nodup, nodup_singleton x, ?_⟩
    rintro a ha b hb rfl
    rw [mem_singleton] at hb
    exact hn (hb ▸ ha)
  · intro y hy
    rcases mem_append.mp hy with hy | hy
    · exact h.free y hy
    · rw [mem_singleton] at hy
      rw [hy]
      exact hfree
  · rw [withArgs_append]
    refine hI.reArg hheap (fun y h1 h2 => ?_) fun y hy => ?_
    · have hyx : y ≠ x := by
        rintro rfl
        exact h1 hx
      exact ⟨put_of_ne hyx .., hmem y hyx⟩
    · by_cases hyx : y = x
      · exact .inr (by rw [hyx, put_self])
      · rw [put_of_ne hyx]
        exact hy
  · have hyx : y ≠ x := by
      rintro rfl
      exact hy hfree
    rw [hmem y hyx, h.same y hy]

lemma ArgPages.putPage {x : Nat} (h : ArgPages ld use tab v proc ps v1)
    (hx : x ∈ ps) (f : Nat → Nat) : ArgPages ld use tab v proc ps (v1.putPage x f) := by
  obtain ⟨l1, hI⟩ := h.inv
  refine ⟨h.nodup, h.free, ⟨l1, ?_⟩, fun y hy => ?_⟩
  · refine hI.touched (touched_putPage (S := fun y => y = x) rfl v1 f) ?_
    rintro y rfl
    rw [withArgs_of_mem hx]
    simp
  · rw [putPage_of_ne, h.same y hy]
    rintro rfl
    exact hy (h.free y hx)

lemma wp_fetchArgs {uargv : Nat → UArg} {i : Nat} {argv : List (Nat × List UInt8)}
    (h : ArgPages ld use tab v proc (argv.map Prod.fst) v1) :
    Wp (fetchArgs uargv n i argv) (fun res v' =>
      ArgPages ld use tab v proc (res.2.map Prod.fst) v') E v1 := by
  induction n generalizing i argv v1 with
  | zero =>
    unfold fetchArgs
    rw [wp_pure]
    exact h
  | succ n ih =>
    obtain ⟨l1, hI⟩ := h.inv
    unfold fetchArgs
    split
    · rw [wp_pure]
      exact h
    · rw [wp_pure]
      exact h
    · refine (wp_kalloc hI.heap).bind ?_
      rintro x v2 (⟨rfl, _, rfl⟩ | ⟨l2, _, hfree, hpage, hmem, hheap⟩)
      · rw [wp_pure, if_pos rfl]
        exact h
      · rw [wp_pure, if_neg hpage.ne_zero, map_append]
        exact h.snoc hfree hmem (hheap .arg (by simp))
    · rename_i bytes _
      refine (wp_kalloc hI.heap).bind ?_
      rintro x v2 (⟨rfl, _, rfl⟩ | ⟨l2, _, hfree, hpage, hmem, hheap⟩)
      · rw [if_pos rfl, wp_pure]
        exact h
      · have h2 := h.snoc hfree hmem (hheap .arg (by simp))
        rw [if_neg hpage.ne_zero]
        apply wp_ite <;> intro _
        · rw [wp_pure, map_append]
          exact h2
        · rw [wp_bind, wp_poke hpage.inRam]
          refine ih ?_
          rw [map_append]
          exact h2.putPage (by simp) _

lemma wp_freeArgs {argv : List (Nat × List UInt8)} (hnd : (argv.map Prod.fst).Nodup)
    (hfree : ∀ x ∈ argv.map Prod.fst, use x = .free)
    (h : Heap ld (withArgs use (argv.map Prod.fst)) l v) :
    Wp (freeArgs ld argv) (fun _ v' => (∃ l', Heap ld use l' v') ∧
      ∀ y, use y ≠ .free → v'.mem y = v.mem y) E v := by
  induction argv generalizing l v with
  | nil =>
    unfold freeArgs
    rw [wp_pure]
    rw [map_nil, withArgs_nil] at h
    exact ⟨⟨l, h⟩, fun _ _ => rfl⟩
  | cons a argv ih =>
    obtain ⟨x, bs⟩ := a
    rw [map_cons] at hnd hfree h
    rw [nodup_cons] at hnd
    have hx : withArgs use (x :: argv.map Prod.fst) x = .arg := withArgs_of_mem mem_cons_self
    have hxf := hfree x mem_cons_self
    refine (wp_kfree h (h.page x (by rw [hx]; simp)) (by rw [hx]; simp)).bind ?_
    rintro _ v1 ⟨hheap, hmem⟩
    rw [withArgs_cons hxf hnd.1] at hheap
    refine (ih hnd.2 (fun y hy => hfree y (mem_cons_of_mem x hy)) hheap).imp ?_
    rintro _ v2 ⟨hheap2, hmem2⟩
    refine ⟨hheap2, fun y hy => ?_⟩
    rw [hmem2 y hy, hmem y]
    rintro rfl
    exact hy hxf

lemma Inv.dropArgs (hI : Inv ld (withArgs use ps) l tab v proc)
    (hfree : ∀ x ∈ ps, use x = .free) (hheap : Heap ld use l' v')
    (hmem : ∀ y, use y ≠ .free → v'.mem y = v.mem y) : Inv ld use l' tab v' proc := by
  refine hI.reArg hheap (fun y h1 h2 => ?_) fun y hy => ?_
  · have hy : y ∉ ps := fun hc => h2 (withArgs_of_mem hc)
    rw [withArgs_of_not_mem hy] at h1 ⊢
    exact ⟨rfl, hmem y h1⟩
  · by_cases hps : y ∈ ps
    · exact .inl (hfree y hps)
    · rwa [withArgs_of_not_mem hps] at hy

/-! ## The commit -/

/-- No other process holds memory of process `p`. -/
def ExecSafe (proc : Nat → Proc) (tab : Nat → Tab) (p : Nat) : Prop :=
  ∀ q, q ≠ p → Holds (proc q) → ∀ y, Maps (proc p) (tab p) y → ¬ Maps (proc q) (tab q) y

/-- The slot after `exec`. -/
def Proc.loaded (x : Proc) (name : List UInt8) (r sz : Nat) : Proc :=
  { x with name := name, pagetable := r, sz := sz }

/-- The old address space is free, and the process has the new one. -/
lemma Inv.commit (hI : Inv ld use l tab v proc) (name : List UInt8) (hh : Holds (proc p))
    (hb : Loaded ld use v.mem r (proc p).trapframe (pages sz) T use1 l1 v1)
    (hf : Freed ld use1 v1 (fun y => Covers (tab p) 0 (pages (proc p).sz) y ∨
      ∃ pl, use1 y = .table (proc p).pagetable pl) (fun _ => False) use' l' v') :
    use' (proc p).trapframe = .frame p ∧ v'.mem (proc p).trapframe = v.mem (proc p).trapframe ∧
      (∀ y, use y = .free → use1 y ≠ .free → v'.mem y = v1.mem y) ∧
      Effect False p (proc p) (tab p) ((proc p).loaded name r sz) T use use' v.mem v'.mem ∧
      (ExecSafe proc tab p →
        Inv ld use' l' (put tab p T) v' (put proc p ((proc p).loaded name r sz))) := by
  have hs := hI.active p hh.1
  have hroot : ∀ q, (proc q).state ≠ .UNUSED → (proc q).pagetable ≠ r := by
    rintro q hq rfl
    have ht := (hI.active q hq).table
    exact hb.unused _ .root (ht.use_at .root ht.root_ne)
  -- what is freed was in use by the process
  have howns : ∀ y, (Covers (tab p) 0 (pages (proc p).sz) y ∨
      ∃ pl, use1 y = .table (proc p).pagetable pl) →
      (use y = .user ∧ Maps (proc p) (tab p) y) ∨ ∃ pl, use y = .table (proc p).pagetable pl := by
    rintro y (hy | ⟨pl, hy⟩)
    · exact .inl ⟨hs.user hh y hy, hy⟩
    · refine .inr ⟨pl, ?_⟩
      by_cases hyf : use y = .free
      · rcases hb.alloced.fresh y hyf with h1 | ⟨pl', h1⟩ | ⟨h1, _⟩
        · rw [hy] at h1
          cases h1
        · rw [hy] at h1
          injection h1 with hr _
          exact absurd hr (hroot p hh.1)
        · rw [hy] at h1
          cases h1
      · rwa [hb.alloced.keep y hyf] at hy
  have hkept : ∀ y, use y ≠ .free → (use y = .user → ¬ Maps (proc p) (tab p) y) →
      (∀ pl, use y ≠ .table (proc p).pagetable pl) → use' y = use y ∧ v'.mem y = v.mem y := by
    intro y h1 h2 h3
    have hk := hb.alloced.keep y h1
    have hn : ¬ (Covers (tab p) 0 (pages (proc p).sz) y ∨
        ∃ pl, use1 y = .table (proc p).pagetable pl) := by
      intro hc
      rcases howns y hc with ⟨h4, h5⟩ | ⟨pl, h4⟩
      · exact h2 h4 h5
      · exact h3 pl h4
    rw [hf.keep y hn, hk, hf.same y (by rw [hk]; exact h1) hn not_false,
      hb.alloced.same y h1 (hb.unused y)]
    exact ⟨rfl, rfl⟩
  have hfresh : ∀ y, use y = .free → use' y = use1 y ∧ (use1 y ≠ .free → v'.mem y = v1.mem y) := by
    intro y hy
    have hn : ¬ (Covers (tab p) 0 (pages (proc p).sz) y ∨
        ∃ pl, use1 y = .table (proc p).pagetable pl) := by
      intro hc
      rcases howns y hc with ⟨h4, _⟩ | ⟨pl, h4⟩
      · rw [hy] at h4
        cases h4
      · rw [hy] at h4
        cases h4
    exact ⟨hf.keep y hn, fun h1 => hf.same y h1 hn not_false⟩
  obtain ⟨hframe, hframe_mem⟩ := hkept (proc p).trapframe (by rw [hs.frame]; simp)
    (by rw [hs.frame]; simp) (by rw [hs.frame]; simp)
  rw [hs.frame] at hframe
  have hx' : ((proc p).loaded name r sz).state ≠ .UNUSED := hh.1
  have he : Effect False p (proc p) (tab p) ((proc p).loaded name r sz) T use use' v.mem v'.mem := by
    intro y
    by_cases hyf : use y = .free
    · obtain ⟨hu, _⟩ := hfresh y hyf
      rcases hb.alloced.fresh y hyf with h1 | h1 | ⟨h1, h2⟩
      · exact .inr (.inr ⟨hu.trans h1, .inl hyf⟩)
      · rw [← hu] at h1
        exact .inr (.inl ⟨⟨hx', .inl h1⟩, .inl hyf⟩)
      · rw [← hu] at h1
        exact .inr (.inl ⟨⟨hx', .inr (.inr ⟨h1, h2⟩)⟩, .inl hyf⟩)
    · by_cases hc : Covers (tab p) 0 (pages (proc p).sz) y ∨
          ∃ pl, use1 y = .table (proc p).pagetable pl
      · refine .inr (.inr ⟨hf.freed y hc, .inr ⟨hh.1, ?_⟩⟩)
        exact (howns y hc).symm.imp id Or.inr
      · have hno : ∀ pl, use y ≠ .table (proc p).pagetable pl := fun pl hpl =>
          hc (.inr ⟨pl, (hb.alloced.keep y hyf).trans hpl⟩)
        obtain ⟨h1, h2⟩ := hkept y hyf (fun _ hm => hc (.inl hm)) hno
        by_cases hy : y = (proc p).trapframe
        · refine .inr (.inl ⟨⟨hx', .inr (.inl ⟨?_, hy.symm⟩)⟩,
            Or.inr ⟨⟨hh.1, .inr (.inl ⟨?_, hy.symm⟩)⟩, h1⟩⟩)
          · rw [hy]
            exact hframe
          · rw [hy]
            exact hs.frame
        · refine .inl ⟨h1, ?_, fun _ => h2⟩
          rintro ⟨_, ⟨pl, h3⟩ | ⟨_, h3⟩ | ⟨_, h3⟩⟩
          · exact hno pl h3
          · exact hy h3.symm
          · exact hc (.inl h3)
  refine ⟨hframe, hframe_mem, fun y hy => (hfresh y hy).2, he, fun hsafe => hI.effect he hf.heap (fun _ => ?_) (fun _ => ?_)
    (fun hc => absurd hc hx') (.inl ?_) (fun q _ hq _ => hroot q hq) ?_ ?_⟩
  · by_contra hlt
    exact hh.1 (hI.slots p (by omega))
  · refine ⟨hb.table.congr (fun y pl => ?_) fun y pl hy => ?_, hb.map, hframe, ?_⟩
    · by_cases hyf : use y = .free
      · rw [(hfresh y hyf).1]
      · have h1 : use1 y ≠ .table r pl := by
          rw [hb.alloced.keep y hyf]
          exact hb.unused y pl
        refine iff_of_false (fun hc => ?_) h1
        rcases he y with ⟨h2, _⟩ | ⟨_, h2 | ⟨_, h2⟩⟩ | ⟨h2, _⟩
        · exact hb.unused y pl (h2.symm.trans hc)
        · exact hyf h2
        · exact hb.unused y pl (h2.symm.trans hc)
        · rw [h2] at hc
          cases hc
    · have hyf : use y = .free := by
        by_contra hyf
        rw [hb.alloced.keep y hyf] at hy
        exact hb.unused y pl hy
      exact (hfresh y hyf).2 (by rw [hy]; simp)
    · rintro _ y ⟨j, _, h2, rfl⟩
      have hj : j < pages sz := by simpa [Proc.loaded] using h2
      rw [(hfresh _ (hb.new j hj)).1]
      exact hb.user j hj
  · intro y pl hy
    by_cases hc : Covers (tab p) 0 (pages (proc p).sz) y ∨
        ∃ pl, use1 y = .table (proc p).pagetable pl
    · rw [hf.freed y hc] at hy
      cases hy
    · rw [hf.keep y hc] at hy
      exact hc (.inr ⟨pl, hy⟩)
  · intro q hqp hq y hy
    have hu := (hI.active q hq.1).user hq y hy
    rw [(hkept y (by rw [hu]; simp) (fun _ hm => hsafe q hqp hq y hm hy) (by rw [hu]; simp)).1, hu]
    simp
  · rintro _ q _ hq _ y ⟨j, _, h2, rfl⟩ hqy
    have hj : j < pages sz := by simpa [Proc.loaded] using h2
    have hu := (hI.active q hq.1).user hq _ hqy
    rw [hb.new j hj] at hu
    cases hu

lemma Effect.frame_mem {leak : Prop} {x x' : Proc} {mem mem0 mem' : Nat → Nat → Nat}
    (he : Effect leak p x T x' T' use use' mem mem') (hmem : ∀ y, y ≠ x.trapframe → mem y = mem0 y)
    (hx : x.state ≠ .UNUSED) (hu : use x.trapframe = .frame p) (hx' : x'.state ≠ .UNUSED)
    (hu' : use' x.trapframe = .frame p) (htf : x'.trapframe = x.trapframe) :
    Effect leak p x T x' T' use use' mem0 mem' := by
  intro y
  by_cases hy : y = x.trapframe
  · rw [hy]
    exact .inr (.inl ⟨⟨hx', .inr (.inl ⟨hu', htf⟩)⟩,
      Or.inr ⟨⟨hx, .inr (.inl ⟨hu, rfl⟩)⟩, hu'.trans hu.symm⟩⟩)
  · rw [← hmem y hy]
    exact he y

/-- Process `me` has the address space with root `r`, and its old one is free. -/
def Committed (ld : Link) (use : Nat → Use) (tab : Nat → Tab) (proc : Nat → Proc)
    (me r sz : Nat) (T : Tab) (v : Vm) (t : Sys) : Prop :=
  ∃ name use' l', t.proc = put proc me ((proc me).loaded name r sz) ∧ Heap ld use' l' t.vm ∧
    Effect False me (proc me) (tab me) ((proc me).loaded name r sz) T use use' v.mem t.vm.mem ∧
    (ExecSafe proc tab me → Inv ld use' l' (put tab me T) t.vm t.proc)

section exec

variable {path : List UInt8} {argv : List (List UInt8)}

lemma wp_execCommit {entry sp : Nat} (hv : s.vm = v1) (hI : Inv ld use l tab v s.proc)
    (hme : Holds (s.proc me))
    (hb : Loaded ld use v.mem r (s.proc me).trapframe (pages sz) T use1 l1 v1) :
    Wp (execCommit ld me path entry r sz sp) (fun _ t => t.globals = s.globals ∧
      t.nextpid = s.nextpid ∧ Committed ld use tab s.proc me r sz T v t ∧
      (∀ y, use y = .free → use1 y ≠ .free → t.vm.mem y = v1.mem y) ∧
      t.vm.mem (s.proc me).trapframe A1 = sp ∧ t.vm.mem (s.proc me).trapframe SP = sp) E s := by
  have hpage := (hI.frame_page hme.1).inRam
  have hfr := (hI.active me hme.1).frame
  have hfree : ∀ f, Wp (onVm (proc_freepagetable ld (s.proc me).pagetable (s.proc me).sz))
      (fun _ t => t.globals = s.globals ∧
        t.nextpid = s.nextpid ∧ Committed ld use tab s.proc me r sz T v t ∧
        (∀ y, use y = .free → use1 y ≠ .free → t.vm.mem y = v1.mem y) ∧
        t.vm.mem (s.proc me).trapframe = f) E
      { s with
        vm := v1.putPage (s.proc me).trapframe f
        proc := put s.proc me ((s.proc me).loaded (progName path) r sz) } := by
    intro f
    have hI1 := hI.putFrame hme.1 f
    have hb1 : Loaded ld use (v.putPage (s.proc me).trapframe f).mem r (s.proc me).trapframe
        (pages sz) T use1 l1 (v1.putPage (s.proc me).trapframe f) :=
      hb.putOld (by rw [hfr]; simp) (by rw [hfr]; simp) f
    have hs1 := hI1.active me hme.1
    have htab : Table use1 (v1.putPage (s.proc me).trapframe f).mem (s.proc me).pagetable (tab me) := by
      refine hs1.table.alloced hb1.alloced ?_
      rintro rfl
      exact hb1.unused _ .root (hs1.table.use_at .root hs1.table.root_ne)
    rw [wp_onVm]
    refine (wp_proc_freepagetable hb1.heap htab hs1.map fun k hk => ?_).imp ?_
    · have hu := hs1.user hme _ ⟨k, Nat.zero_le k, by omega, rfl⟩
      rw [hb1.alloced.keep _ (by rw [hu]; simp), hu]
    · rintro _ v2 ⟨use2, l2, hf⟩
      obtain ⟨hfr2, hmem, hnew, he, hI2⟩ := hI1.commit (progName path) hme hb1 hf
      refine ⟨rfl, rfl, ⟨progName path, use2, l2, rfl, hf.heap,
        he.frame_mem (fun y hy => putPage_of_ne hy f) hme.1 hfr hme.1 hfr2 rfl, hI2⟩,
        fun y hy h1 => ?_, by rw [hmem, putPage_self]⟩
      rw [hnew y hy h1, putPage_of_ne]
      rintro rfl
      rw [hfr] at hy
      cases hy
  unfold execCommit
  rw [wp_get_bind]
  rw [wp_bind, wp_onVm, wp_store hpage, wp_modifyProc_bind]
  rw [wp_bind, wp_onVm, wp_store hpage]
  rw [wp_bind, wp_onVm, wp_store hpage, hv]
  simp only [putPage_putPage]
  refine (hfree _).imp ?_
  rintro _ t ⟨hg, hpid, hc, hnew, htf⟩
  rw [htf, putPage_self, putPage_self]
  exact ⟨hg, hpid, hc, hnew, rfl, rfl⟩

lemma wp_execBad {tf : Nat} (h : (r = 0 ∧ ∃ l', Heap ld use l' s.vm ∧
      ∀ y, use y ≠ .free → s.vm.mem y = v.mem y) ∨
    (r ≠ 0 ∧ ∃ T use1 l1, Loaded ld use v.mem r tf (pages sz) T use1 l1 s.vm)) :
    Wp (execBad ld r sz) (fun res t => res = -1 ∧ t.globals = s.globals ∧ t.nextpid = s.nextpid ∧
      t.proc = s.proc ∧ ∃ l', Heap ld use l' t.vm ∧
        ∀ y, use y ≠ .free → t.vm.mem y = v.mem y) E s := by
  unfold execBad
  rcases h with ⟨rfl, l1, hheap, hmem⟩ | ⟨hr, T, use1, l1, hb⟩
  · rw [if_neg (by simp), wp_pure_bind, wp_pure]
    exact ⟨rfl, rfl, rfl, rfl, l1, hheap, hmem⟩
  · rw [if_pos hr, wp_bind, wp_onVm]
    refine (wp_proc_freepagetable hb.heap hb.table hb.map hb.user).imp ?_
    rintro _ v2 ⟨use2, l2, hf⟩
    rw [wp_pure]
    exact ⟨rfl, rfl, rfl, rfl, l2, hb.alloced.undo hb.unused hb.new hf⟩

lemma wp_exec {file : Option Prog} (hI : Inv ld use l tab s.vm s.proc) (hme : Holds (s.proc me)) :
    Wp (exec ld me path file argv) (fun res t => t.globals = s.globals ∧ t.nextpid = s.nextpid ∧
      ((res = -1 ∧ t.proc = s.proc ∧ ∃ l', Heap ld use l' t.vm ∧
          ∀ y, use y ≠ .free → t.vm.mem y = s.vm.mem y) ∨
        (0 ≤ res ∧ ∃ r sz T, Committed ld use tab s.proc me r sz T s.vm t ∧
          ∃ addrs sp, Arguments t.vm.mem r sz argv addrs sp ∧ res = argv.length ∧
            t.vm.mem (s.proc me).trapframe A1 = sp ∧
            t.vm.mem (s.proc me).trapframe SP = sp))) E s := by
  unfold exec
  rcases file with _ | f
  · dsimp only
    rw [wp_pure]
    exact ⟨rfl, rfl, .inl ⟨rfl, rfl, l, hI.heap, fun _ _ => rfl⟩⟩
  rw [wp_get_bind, wp_bind, wp_onVm]
  refine (wp_execLoad hI.heap hI.rooted _ f).imp ?_
  rintro ⟨r, sz, ok⟩ v1 hload
  dsimp only at hload ⊢
  apply wp_ite <;> intro hok
  · have hbuilt : (r = 0 ∧ ∃ l', Heap ld use l' v1 ∧ ∀ y, use y ≠ .free → v1.mem y = s.vm.mem y) ∨
        (r ≠ 0 ∧ ∃ T use1 l1, Loaded ld use s.vm.mem r (s.proc me).trapframe (pages sz) T use1 l1
          v1) := by
      rcases hload with ⟨h1, _, h2⟩ | ⟨h1, T1, use1, l1, hb, _⟩
      · exact .inl ⟨h1, h2⟩
      · exact .inr ⟨h1, T1, use1, l1, hb⟩
    refine (wp_execBad (s := { s with vm := v1 }) hbuilt).imp ?_
    rintro res t ⟨hres, hg, hpid, hproc, hheap⟩
    exact ⟨hg, hpid, .inl ⟨hres, hproc, hheap⟩⟩
  · rcases hload with ⟨_, hc, _⟩ | ⟨hr, T1, use1, l1, hb, hreach⟩
    · exact absurd hc hok
    rw [wp_bind, wp_onVm]
    refine (wp_pushArgs hb hreach argv).imp ?_
    rintro ⟨sz2, o⟩ v2 ⟨T2, use2, l2, hb2, hargs⟩
    rcases o with _ | ⟨argc, sp⟩
    · dsimp only at hb2 ⊢
      refine (wp_execBad (s := { s with vm := v2 }) (v := s.vm)
        (.inr ⟨hr, T2, use2, l2, hb2⟩)).imp ?_
      rintro res t ⟨hres, hg, hpid, hproc, hheap⟩
      exact ⟨hg, hpid, .inl ⟨hres, hproc, hheap⟩⟩
    · dsimp only at hb2 ⊢
      refine (wp_execCommit (s := { s with vm := v2 }) rfl hI hme hb2).bind ?_
      rintro _ t ⟨hg, hpid, hc, hnew, ha1, hsp⟩
      obtain ⟨rfl, addrs, hargs⟩ := hargs argc sp rfl
      rw [wp_pure]
      exact ⟨hg, hpid, .inr ⟨by omega, r, sz2, T2, hc, addrs, sp, hargs.keep hb2 hnew, rfl, ha1,
        hsp⟩⟩

lemma Effect.freeArgs {leak : Prop} {x x' : Proc} {ps : List Nat} {mem mem' : Nat → Nat → Nat}
    (he : Effect leak p x T x' T' (withArgs use ps) use' mem mem')
    (hfree : ∀ y ∈ ps, use y = .free) :
    Effect leak p x T x' T' use (fun y => if y ∈ ps then .free else use' y) mem mem' := by
  intro y
  by_cases hy : y ∈ ps
  · exact .inr (.inr ⟨if_pos hy, .inl (hfree y hy)⟩)
  · have h := he y
    unfold Owns at h ⊢
    rw [withArgs_of_not_mem hy] at h
    dsimp only
    rw [if_neg hy]
    exact h

lemma Effect.arg {leak : Prop} {x x' : Proc} {mem mem' : Nat → Nat → Nat} {y : Nat}
    (he : Effect leak p x T x' T' use use' mem mem') (hy : use y = .arg) : use' y = .arg := by
  rcases he y with ⟨h1, _⟩ | ⟨_, h1 | ⟨_, h1⟩⟩ | ⟨_, h1 | ⟨_, h1⟩⟩
  · exact h1.trans hy
  · rw [hy] at h1
    cases h1
  · exact h1.trans hy
  · rw [hy] at h1
    cases h1
  · rw [hy] at h1
    simp at h1

lemma wp_sys_exec {path : Option (List UInt8)} {file : Option Prog} {uargv : Nat → UArg}
    (hI : Inv ld use l tab s.vm s.proc) (hme : Holds (s.proc me)) :
    Wp (sys_exec ld me path file uargv) (fun res t => t.globals = s.globals ∧
      t.nextpid = s.nextpid ∧
      ((res = -1 ∧ t.proc = s.proc ∧ (∃ l', Inv ld use l' tab t.vm t.proc) ∧
          ∀ y, use y ≠ .free → t.vm.mem y = s.vm.mem y) ∨
        (0 ≤ res ∧ ∃ name r sz, t.proc = put s.proc me ((s.proc me).loaded name r sz) ∧
          (ExecSafe s.proc tab me → Stays ld True use tab s t)))) E s := by
  unfold sys_exec
  rcases path with _ | path
  · dsimp only
    rw [wp_pure]
    exact ⟨rfl, rfl, .inl ⟨rfl, rfl, ⟨l, hI⟩, fun _ _ => rfl⟩⟩
  have h0 : ArgPages ld use tab s.vm s.proc (([] : List (Nat × List UInt8)).map Prod.fst) s.vm :=
    ⟨nodup_nil, by simp, ⟨l, by rw [map_nil, withArgs_nil]; exact hI⟩, fun _ _ => rfl⟩
  rw [wp_bind, wp_onVm]
  refine (wp_fetchArgs h0).imp ?_
  rintro ⟨ok, argv⟩ v1 h1
  obtain ⟨l1, hI1⟩ := h1.inv
  dsimp only at h1 hI1 ⊢
  apply wp_ite <;> intro _
  · rw [wp_bind, wp_onVm]
    refine (wp_freeArgs h1.nodup h1.free hI1.heap).imp ?_
    rintro _ v2 ⟨⟨l2, hheap2⟩, hmem2⟩
    rw [wp_pure]
    exact ⟨rfl, rfl, .inl ⟨rfl, rfl, ⟨l2, hI1.dropArgs h1.free hheap2 hmem2⟩,
      fun y hy => (hmem2 y hy).trans (h1.same y hy)⟩⟩
  · refine (wp_exec (s := { s with vm := v1 }) hI1 hme).bind ?_
    rintro res t ⟨hg, hpid, ⟨hres, hproc, l2, hheap2, hmem2⟩ | ⟨hres, r, sz, T, hc, _⟩⟩
    · have hI2 := hI1.congr hheap2 hmem2
      rw [wp_bind, wp_onVm]
      refine (wp_freeArgs h1.nodup h1.free hheap2).imp ?_
      rintro _ v3 ⟨⟨l3, hheap3⟩, hmem3⟩
      rw [wp_pure]
      dsimp only at hproc
      refine ⟨hg, hpid, .inl ⟨hres, hproc, ⟨l3, ?_⟩, fun y hy => ?_⟩⟩
      · rw [hproc]
        exact hI2.dropArgs h1.free hheap3 hmem3
      · have hne : withArgs use (argv.map Prod.fst) y ≠ .free := by
          rw [withArgs_of_not_mem fun hc => hy (h1.free y hc)]
          exact hy
        exact ((hmem3 y hy).trans (hmem2 y hne)).trans (h1.same y hy)
    · obtain ⟨name, use2, l2, hproc, hheap2, he, hI2⟩ := hc
      dsimp only at hproc he hI2
      -- the arguments are still there, and are the last to be freed
      have hback : withArgs (fun y => if y ∈ argv.map Prod.fst then .free else use2 y)
          (argv.map Prod.fst) = use2 := by
        funext y
        by_cases hy : y ∈ argv.map Prod.fst
        · rw [withArgs_of_mem hy, he.arg (withArgs_of_mem hy)]
        · rw [withArgs_of_not_mem hy, if_neg hy]
      have hfree2 : ∀ x ∈ argv.map Prod.fst,
          (fun y => if y ∈ argv.map Prod.fst then Use.free else use2 y) x = .free :=
        fun x hx => if_pos hx
      rw [← hback] at hheap2 hI2
      rw [wp_bind, wp_onVm]
      refine (wp_freeArgs h1.nodup hfree2 hheap2).imp ?_
      rintro _ v3 ⟨⟨l3, hheap3⟩, hmem3⟩
      rw [wp_pure]
      refine ⟨hg, hpid, .inr ⟨hres, name, r, sz, hproc, fun hsafe => ?_⟩⟩
      refine ⟨_, l3, put tab me T, (hI2 hsafe).dropArgs hfree2 hheap3 hmem3, fun _ hL => ?_⟩
      have hL' := hL.effect (he.freeArgs h1.free) not_false fun hc => absurd hc hme.1
      rw [← hproc] at hL'
      show NoLeak ld t.kernel _ _ t.proc
      rw [kernel_eq hg]
      exact hL'

end exec

end xv6.proc
