-- A page table as the flat map from pages to entries that it stands for. Any
-- calls of `mappages`, `uvmunmap` and `uvmclear` change the entries that `walk`
-- finds as they change the map, as long as the pages that are freed are memory
-- that the caller got from `kalloc`.
import Xv6.Lib.Machine
import Xv6.UserAccess
import Xv6.Walks

open cells linked wp machine List

namespace xv6.vm

variable {ld : Link} {use : Nat → Use} {l : List Nat} {v : Vm} {r n m : Nat} {T : Tab}

/-! ## The calls -/

/-- A call on the page table. `kalloc` is for memory to map. -/
inductive MapCall where
  | kalloc
  | mappages (va size pa perm : Nat)
  | uvmunmap (va npages : Nat) (do_free : Bool)
  | uvmclear (va : Nat)

/-- The memory of the kernel, the pages that the caller has from `kalloc`, and the calls so far,
the newest first, with what they returned. -/
structure MapState where
  vm : Vm
  own : List Nat
  calls : List (MapCall × Bool)

def unmapCount (va npages : Nat) : Nat := rounds va (uint64 (va + npages * PGSIZE))

/-- The pages that a call of `uvmunmap` frees. -/
def freedBy (mem : Nat → Nat → Nat) (r va npages : Nat) : List Nat :=
  (List.range (unmapCount va npages)).map fun k => PTE2PA (entry mem r (va / PGSIZE + k))

/-- One call on the page table with root `r`. -/
def mapExec (ld : Link) (r : Nat) (s : MapState) (c : MapCall) : Except Stop MapState :=
  match c with
  | .kalloc =>
    match kalloc.run s.vm with
    | .error e => .error e
    | .ok (x, v) => .ok ⟨v, if x = 0 then s.own else x :: s.own, (c, x ≠ 0) :: s.calls⟩
  | .mappages va size pa perm =>
    match (mappages r va size pa perm).run s.vm with
    | .error e => .error e
    | .ok (ok, v) => .ok ⟨v, s.own, (c, ok) :: s.calls⟩
  | .uvmunmap va npages do_free =>
    match (uvmunmap ld r va npages do_free).run s.vm with
    | .error e => .error e
    | .ok (_, v) =>
      .ok ⟨v, if do_free = true then s.own.filter (· ∉ freedBy s.vm.mem r va npages) else s.own,
        (c, true) :: s.calls⟩
  | .uvmclear va =>
    match (uvmclear r va).run s.vm with
    | .error e => .error e
    | .ok (_, v) => .ok ⟨v, s.own, (c, true) :: s.calls⟩

/-- What callers see to: they map pages with flags, and what they let `uvmunmap` free is memory
that they own, mapped once. -/
def MapUse (r : Nat) (s : MapState) : MapCall → Prop
  | .mappages _ size pa perm => pa % PGSIZE = 0 ∧ pa + size ≤ 2 ^ 56 ∧ perm < 1024
  | .uvmunmap va npages true =>
    (freedBy s.vm.mem r va npages).Nodup ∧ ∀ x ∈ freedBy s.vm.mem r va npages, x ∈ s.own
  | _ => True

/-! ## The flat map -/

/-- The entry that `walk` finds for an address, or 0. -/
def lookup (pagetable va : Nat) : V Nat := do
  let r ← walk pagetable va false
  match r with
  | none => return 0
  | some (page, i) => load page i

def mapCount (va size : Nat) : Nat := (va + size - 1) / PGSIZE - va / PGSIZE + 1

/-- What calls make of a map from page numbers to entries. A call of `mappages` that fails has
mapped some of its first pages. -/
inductive Flat : List (MapCall × Bool) → (Nat → Nat) → Prop where
  | create : Flat [] fun _ => 0
  | kalloc {cs : List (MapCall × Bool)} {M : Nat → Nat} {b : Bool} :
      Flat cs M → Flat ((.kalloc, b) :: cs) M
  | mapped {cs : List (MapCall × Bool)} {M : Nat → Nat} {va size pa perm : Nat} :
      Flat cs M → Flat ((.mappages va size pa perm, true) :: cs)
        (mapAt M (va / PGSIZE) (mapCount va size) pa perm)
  | failed {cs : List (MapCall × Bool)} {M : Nat → Nat} {va size pa perm k : Nat} :
      Flat cs M → k < mapCount va size → Flat ((.mappages va size pa perm, false) :: cs)
        (mapAt M (va / PGSIZE) k pa perm)
  | unmapped {cs : List (MapCall × Bool)} {M : Nat → Nat} {va npages : Nat} {do_free b : Bool} :
      Flat cs M → Flat ((.uvmunmap va npages do_free, b) :: cs) fun k =>
        if va / PGSIZE ≤ k ∧ k < va / PGSIZE + unmapCount va npages then 0 else M k
  | cleared {cs : List (MapCall × Bool)} {M : Nat → Nat} {va : Nat} {b : Bool} :
      Flat cs M → Flat ((.uvmclear va, b) :: cs)
        (put M (va / PGSIZE) (clearUser (M (va / PGSIZE))))

lemma wp_lookup {E : Stop → Prop} {va : Nat} (h : Heap ld use l v) (ht : Table use v.mem r T)
    (hva : va < MAXVA) :
    Wp (lookup r va) (fun w v' => w = T.pte (va / PGSIZE) ∧ v' = v) E v := by
  refine (wp_walk_find h ht hva).bind ?_
  rintro o v1 ⟨rfl, rfl⟩
  by_cases hlow : T.low (va / PGSIZE / 2 ^ 18) (va / PGSIZE / 2 ^ 9 % 512) = 0
  · rw [if_pos hlow, wp_pure]
    refine ⟨?_, rfl⟩
    by_contra hne
    exact (ht.pte_low _ (Ne.symm hne)).2 hlow
  · have hpage : IsPage ld (T.low (va / PGSIZE / 2 ^ 18) (va / PGSIZE / 2 ^ 9 % 512)) :=
      ht.page (o := .low _ _) h hlow
    rw [if_neg hlow]
    dsimp only
    rw [← bind_pure (load _ _), wp_load_bind hpage.inRam, wp_pure]
    exact ⟨ht.pte_word hlow, rfl⟩

/-! ## The calls keep the table and the map together -/

/-- The table in memory stands for the flat map of the calls. -/
def Stands (ld : Link) (r : Nat) (s : MapState) : Prop :=
  ∃ use l T, Heap ld use l s.vm ∧ Table use s.vm.mem r T ∧ (∀ x ∈ s.own, use x = .user) ∧
    Flat s.calls T.pte

variable {s t : MapState}

lemma Stands.kalloc (hs : Stands ld r s) (he : mapExec ld r s .kalloc = .ok t) :
    Stands ld r t := by
  obtain ⟨use, l, T, hh, ht, hown, hflat⟩ := hs
  simp only [mapExec] at he
  split at he
  · cases he
  · rename_i x v hrun
    cases he
    rcases (wp_kalloc hh (E := fun _ => True)).of_ok hrun with
      ⟨rfl, -, rfl⟩ | ⟨l', -, hx, hpage, hmem, hheap⟩
    · exact ⟨use, l, T, hh, ht, hown, hflat.kalloc⟩
    · refine ⟨put use x .user, l', T, hheap .user (by simp), ?_, ?_, hflat.kalloc⟩
      · refine ht.congr (fun y pl => ?_) fun y pl hy => hmem y ?_
        · by_cases hyx : y = x
          · rw [hyx, put_self, hx]
            simp
          · rw [put_of_ne hyx]
        · rintro rfl
          rw [hx] at hy
          cases hy
      · intro y hy
        rw [if_neg hpage.ne_zero, mem_cons] at hy
        by_cases hyx : y = x
        · rw [hyx, put_self]
        · rw [put_of_ne hyx]
          exact hown y (hy.resolve_left hyx)

lemma wp_mappages_all {va size pa perm : Nat} (h : Heap ld use l v) (ht : Table use v.mem r T)
    (hsize : size ≤ 2 ^ 56) :
    Wp (mappages r va size pa perm) (fun ok v' => ∃ use' l' T', Heap ld use' l' v' ∧
      Table use' v'.mem r T' ∧ (∀ x, use x = .user → use' x = .user) ∧ match ok with
        | false => ∃ k < mapCount va size, T'.pte = mapAt T.pte (va / PGSIZE) k pa perm
        | true => T'.pte = mapAt T.pte (va / PGSIZE) (mapCount va size) pa perm)
      (fun _ => True) v := by
  have hP : PGSIZE = 4096 := rfl
  unfold mappages
  by_cases h0 : size = 0
  · rw [if_pos h0]
    exact (wp_throw _).mpr trivial
  rw [if_neg h0]
  by_cases hva : MAXVA ≤ PGROUNDDOWN va
  · unfold mappagesLoop walk
    rw [if_pos hva]
    exact wp_bind.mpr ((wp_throw _).mpr trivial)
  have hcount : mapRounds (PGROUNDDOWN va) (PGROUNDDOWN (uint64 (va + size - 1))) + 1 =
      mapCount va size := by
    unfold MAXVA PGROUNDDOWN at hva
    unfold mapRounds mapCount PGROUNDDOWN uint64
    rw [hP] at hva ⊢
    have hmod : (va + size - 1) % 2 ^ 64 = va + size - 1 := Nat.mod_eq_of_lt (by omega)
    rw [hmod, if_pos (by omega)]
    omega
  refine (wp_mappagesLoop h ht fun _ _ _ => .inl fun _ => trivial).imp ?_
  rintro (_ | _) v' ⟨use', l', T', hg, hres⟩
  · obtain ⟨-, k, hk, hT, -⟩ := hres
    exact ⟨use', l', T', hg.heap, hg.table, fun x hx => by rw [hg.ext.keep x (by simp [hx]), hx],
      k, by omega, hT⟩
  · refine ⟨use', l', T', hg.heap, hg.table, fun x hx => by rw [hg.ext.keep x (by simp [hx]), hx], ?_⟩
    rw [← hcount]
    exact hres.2

lemma Stands.mappages {va size pa perm : Nat} (hs : Stands ld r s)
    (hu : MapUse r s (.mappages va size pa perm))
    (he : mapExec ld r s (.mappages va size pa perm) = .ok t) : Stands ld r t := by
  obtain ⟨use, l, T, hh, ht, hown, hflat⟩ := hs
  simp only [mapExec] at he
  split at he
  · cases he
  · rename_i ok v hrun
    cases he
    obtain ⟨use', l', T', hh', ht', huser, hres⟩ :=
      (wp_mappages_all hh ht (by have := hu.2.1; omega)).of_ok hrun
    refine ⟨use', l', T', hh', ht', fun x hx => huser x (hown x hx), ?_⟩
    cases ok with
    | false =>
      obtain ⟨k, hk, hT⟩ := hres
      rw [hT]
      exact hflat.failed hk
    | true =>
      dsimp only at hres ⊢
      rw [hres]
      exact hflat.mapped

lemma wp_uvmunmap_all {va npages : Nat} {do_free : Bool} (h : Heap ld use l v)
    (ht : Table use v.mem r T)
    (hfree : do_free = true → (freedBy v.mem r va npages).Nodup ∧
      ∀ x ∈ freedBy v.mem r va npages, use x = .user) :
    Wp (uvmunmap ld r va npages do_free) (fun _ v' => ∃ use' l', Heap ld use' l' v' ∧
      Table use' v'.mem r (T.clear (va / PGSIZE) (unmapCount va npages)) ∧
      ∀ x, use x = .user → do_free = false ∨ x ∉ freedBy v.mem r va npages → use' x = .user)
      (fun _ => True) v := by
  unfold uvmunmap
  by_cases hal : va % PGSIZE ≠ 0
  · rw [if_pos hal]
    exact (wp_throw _).mpr trivial
  rw [if_neg hal]
  have hva : va / PGSIZE * PGSIZE = va := Nat.div_mul_cancel (Nat.dvd_of_mod_eq_zero (by simpa using hal))
  have hmem : ∀ k, va / PGSIZE ≤ k → k < va / PGSIZE + unmapCount va npages →
      PTE2PA (T.pte k) ∈ freedBy v.mem r va npages := by
    intro k hk1 hk2
    unfold freedBy
    rw [mem_map]
    refine ⟨k - va / PGSIZE, mem_range.mpr (by omega), ?_⟩
    rw [ht.entry_eq h, Nat.add_sub_cancel' hk1]
  have huser : do_free = true → ∀ k, va / PGSIZE ≤ k → k < va / PGSIZE + unmapCount va npages →
      use (PTE2PA (T.pte k)) = .user :=
    fun hf k hk1 hk2 => (hfree hf).2 _ (hmem k hk1 hk2)
  have hloop := wp_uvmunmapLoop (m := va / PGSIZE) (n := unmapCount va npages) (E := fun _ => True)
    h ht (fun _ _ _ => .inl fun _ => trivial) huser ?_
  · rw [hva] at hloop
    refine hloop.imp ?_
    rintro _ v' ⟨use', l', hs⟩
    refine ⟨use', l', hs.heap, hs.table, fun x hx hnot => ?_⟩
    rw [hs.keep, hx]
    rintro ⟨hf, k, hk1, hk2, rfl⟩
    rcases hnot with hnot | hnot
    · rw [hf] at hnot
      cases hnot
    · exact hnot (hmem k hk1 hk2)
  · intro hf j k hj1 hj2 hk1 hk2 he
    have hn := (hfree hf).1
    unfold freedBy at hn
    have hinj := inj_on_of_nodup_map hn (x := j - va / PGSIZE) (y := k - va / PGSIZE)
      (mem_range.mpr (by omega)) (mem_range.mpr (by omega))
      (by rw [ht.entry_eq h, ht.entry_eq h, Nat.add_sub_cancel' hj1, Nat.add_sub_cancel' hk1]; exact he)
    omega

lemma Stands.uvmunmap {va npages : Nat} {do_free : Bool} (hs : Stands ld r s)
    (hu : MapUse r s (.uvmunmap va npages do_free))
    (he : mapExec ld r s (.uvmunmap va npages do_free) = .ok t) : Stands ld r t := by
  obtain ⟨use, l, T, hh, ht, hown, hflat⟩ := hs
  simp only [mapExec] at he
  split at he
  · cases he
  · rename_i v hrun
    cases he
    obtain ⟨use', l', hh', ht', hkeep⟩ := (wp_uvmunmap_all hh ht fun hf => by
      subst hf
      exact ⟨hu.1, fun x hx => hown x (hu.2 x hx)⟩).of_ok hrun
    refine ⟨use', l', _, hh', ht', fun x hx => ?_, hflat.unmapped⟩
    cases do_free with
    | false => exact hkeep x (hown x hx) (.inl rfl)
    | true =>
      simp only [if_true, mem_filter, decide_eq_true_eq] at hx
      exact hkeep x (hown x hx.1) (.inr hx.2)

lemma Stands.uvmclear {va : Nat} (hs : Stands ld r s)
    (he : mapExec ld r s (.uvmclear va) = .ok t) : Stands ld r t := by
  obtain ⟨use, l, T, hh, ht, hown, hflat⟩ := hs
  simp only [mapExec] at he
  split at he
  · cases he
  · rename_i v hrun
    cases he
    obtain ⟨-, hh', ht', -⟩ :=
      (wp_uvmclear hh ht (.inl fun _ => trivial) (E := fun _ => True)).of_ok hrun
    exact ⟨use, l, _, hh', ht', hown, hflat.cleared⟩

lemma Stands.exec {c : MapCall} (hs : Stands ld r s) (hu : MapUse r s c)
    (he : mapExec ld r s c = .ok t) : Stands ld r t := by
  cases c with
  | kalloc => exact hs.kalloc he
  | mappages va size pa perm => exact hs.mappages hu he
  | uvmunmap va npages do_free => exact hs.uvmunmap hu he
  | uvmclear va => exact hs.uvmclear he

lemma stands_uvmcreate {v₀ : Vm} (hchain : Chain (fun x => v.mem x 0) v.freelist l)
    (hnodup : l.Nodup) (hpage : ∀ x ∈ l, IsPage ld x) (hrun : uvmcreate.run v = .ok (r, v₀))
    (h0 : r ≠ 0) : Stands ld r ⟨v₀, [], []⟩ := by
  have h : Heap ld (fun x => if x ∈ l then .free else .none) l v := by
    refine ⟨hchain, hnodup, fun x => ?_, fun x hx => ?_⟩
    · by_cases hx : x ∈ l <;> simp [hx]
    · by_contra hc
      have hxl : x ∉ l := fun hm => hc (hpage x hm)
      simp [hxl] at hx
  have hroot : Rooted fun x => if x ∈ l then Use.free else Use.none := by
    intro x r pl hx
    by_cases hm : x ∈ l <;> simp [hm] at hx
  rcases (wp_uvmcreate h hroot (E := fun _ => True)).of_ok hrun with ⟨hr, -⟩ | ⟨-, -, hg, -⟩
  · exact absurd hr h0
  · exact ⟨_, _, _, hg.heap, hg.table, by simp, Flat.create⟩

/-- In every run of calls on a page table that `uvmcreate` made, with any free list, `walk` finds for every address the
entry that the calls put into the flat map at its page, and the entries that `mappages` puts there
name the page and the flags of the call. -/
theorem page_table_refines_flat_map {v₀ : Vm}
    (hchain : Chain (fun x => v.mem x 0) v.freelist l) (hnodup : l.Nodup)
    (hpage : ∀ x ∈ l, IsPage ld x) (hrun : uvmcreate.run v = .ok (r, v₀)) (h0 : r ≠ 0)
    (hr : Run (mapExec ld r) (MapUse r) ⟨v₀, [], []⟩ s) :
    (∃ M, Flat s.calls M ∧ ∀ va < MAXVA, (lookup r va).run s.vm = .ok (M (va / PGSIZE), s.vm)) ∧
    ∀ pa perm, pa % PGSIZE = 0 → pa < 2 ^ 56 → perm < 1024 →
      PTE2PA (PA2PTE pa ||| perm ||| PTE_V) = pa ∧
      PTE_FLAGS (PA2PTE pa ||| perm ||| PTE_V) = perm ||| PTE_V := by
  have hs := hr.invariant (I := Stands ld r) (stands_uvmcreate hchain hnodup hpage hrun h0)
    fun _ _ _ hs hu he => hs.exec hu he
  obtain ⟨use, l, T, hh, ht, hown, hflat⟩ := hs
  refine ⟨⟨T.pte, hflat, fun va hva => ?_⟩, fun pa perm hal _ hperm => ?_⟩
  · have hw := wp_lookup hh ht hva (E := fun _ => False)
    rcases hrun' : (lookup r va).run s.vm with e | ⟨w, v'⟩
    · exact (hw.of_error hrun').elim
    · obtain ⟨rfl, rfl⟩ := hw.of_ok hrun'
      rfl
  · have hf : perm ||| PTE_V < 1024 := Nat.or_lt_two_pow (n := 10) hperm (by decide)
    rw [Nat.or_assoc]
    exact ⟨PTE2PA_or hal hf, PTE_FLAGS_or hf⟩

/-! ## A small memory -/

/-- A kernel of two pages, and six pages behind it on the free list. -/
def smallLink : Link where
  kend := KERNBASE + 2 * PGSIZE
  trampoline := KERNBASE
  aligned := by decide
  inside := by decide
  below := by decide

def smallPages : List Nat := (List.range 6).map fun i => KERNBASE + (2 + i) * PGSIZE

def smallVm : Vm where
  mem := fun x i => if i = 0 ∧ x ∈ smallPages.dropLast then x + PGSIZE else 0
  freelist := KERNBASE + 2 * PGSIZE

def smallRoot : Nat := KERNBASE + 2 * PGSIZE

def smallStart : MapState :=
  match uvmcreate.run smallVm with
  | .ok (_, v) => ⟨v, [], []⟩
  | .error _ => ⟨smallVm, [], []⟩

lemma smallStart_eq : uvmcreate.run smallVm = .ok (smallRoot, smallStart.vm) := by
  rfl

lemma chain_small : Chain (fun x => smallVm.mem x 0) smallVm.freelist smallPages := by
  decide

lemma smallPages_page : ∀ x ∈ smallPages, IsPage smallLink x := by
  unfold IsPage
  decide

def mapUse (r : Nat) (s : MapState) : MapCall → Bool
  | .mappages _ size pa perm => pa % PGSIZE = 0 ∧ pa + size ≤ 2 ^ 56 ∧ perm < 1024
  | .uvmunmap va npages true =>
    (freedBy s.vm.mem r va npages).Nodup ∧ ∀ x ∈ freedBy s.vm.mem r va npages, x ∈ s.own
  | _ => true

lemma mapUse_sound (r : Nat) (s : MapState) (c : MapCall) (h : mapUse r s c = true) :
    MapUse r s c := by
  rcases c with _ | _ | ⟨va, n, _ | _⟩ | _ <;> simp_all [mapUse, MapUse]

theorem page_table_refines_flat_map_small : ∃ s, Run (mapExec smallLink smallRoot) (MapUse smallRoot)
    smallStart s ∧ s.calls.length = 5 ∧ ∃ M, Flat s.calls M ∧
      (lookup smallRoot 0x2345).run s.vm = .ok (M 2, s.vm) := by
  obtain ⟨s, hrun, htest⟩ := exists_played (mapExec smallLink smallRoot) (MapUse smallRoot) smallStart
    [.kalloc, .kalloc, .mappages 0x1000 (2 * PGSIZE) (KERNBASE + 3 * PGSIZE) (PTE_R ||| PTE_U),
      .uvmclear 0x2000, .uvmunmap 0x1000 1 true] (mapUse smallRoot) (fun s => s.calls.length = 5)
    (mapUse_sound smallRoot) (by decide +kernel)
  obtain ⟨⟨M, hflat, hlookup⟩, -⟩ := page_table_refines_flat_map chain_small (by decide)
    smallPages_page smallStart_eq (by decide) hrun
  exact ⟨s, hrun, by simpa using htest, M, hflat, hlookup 0x2345 (by decide)⟩

/-- The conditions on `mappages` alone: any page may be freed by `uvmunmap`. -/
def MapAny : MapCall → Prop
  | .mappages _ size pa perm => pa % PGSIZE = 0 ∧ pa + size ≤ 2 ^ 56 ∧ perm < 1024
  | _ => True

/-- The root of the table is mapped and then freed with its mapping: no call panics, and then
`walk` runs into what the free page holds. -/
theorem freed_root_breaks_lookup : ∃ s, Run (mapExec smallLink smallRoot) (fun _ => MapAny)
    smallStart s ∧ ∃ va < MAXVA, ∀ w v, (lookup smallRoot va).run s.vm ≠ .ok (w, v) := by
  obtain ⟨s, hrun, htest⟩ := exists_played (mapExec smallLink smallRoot) (fun _ => MapAny) smallStart
    [.mappages 0 PGSIZE smallRoot PTE_R, .uvmunmap 0 1 true]
    (fun _ c => match c with
      | .mappages _ size pa perm => pa % PGSIZE = 0 ∧ pa + size ≤ 2 ^ 56 ∧ perm < 1024
      | _ => true)
    (fun s => match (lookup smallRoot 0x40000000).run s.vm with
      | .ok _ => false
      | .error _ => true)
    (fun s c h => by cases c <;> simp_all [MapAny]) (by decide +kernel)
  refine ⟨s, hrun, 0x40000000, by decide, fun w v h => ?_⟩
  rw [h] at htest
  cases htest

end xv6.vm
