-- `exec` builds an address space: the segments of the program, and a stack with
-- the arguments. Until the commit nothing but free pages is used for it.
import Xv6.UserBytes

open bytes cells linked wp List

namespace xv6.vm

variable {ld : Link} {use use' use0 : Nat → Use} {l l' : List Nat} {v v' : Vm}
  {r x k m n tf xperm : Nat} {mem0 : Nat → Nat → Nat} {T T' : Tab} {E : Stop → Prop}

/-! ## New memory -/

/-- What is built, when the memory that it maps is new as well. -/
structure Loaded (ld : Link) (use0 : Nat → Use) (mem0 : Nat → Nat → Nat) (r tf n : Nat)
    (T : Tab) (use : Nat → Use) (l : List Nat) (v : Vm) : Prop
    extends Built ld use0 mem0 r tf n T use l v where
  new : ∀ k < n, use0 (PTE2PA (T.pte k)) = .free

/-- The process can use the pages of its memory. -/
def Reached (T : Tab) (n : Nat) : Prop :=
  ∀ k < n, T.pte k &&& PTE_V ≠ 0 ∧ T.pte k &&& PTE_U ≠ 0 ∧ T.pte k < 2 ^ 64

lemma Built.extend (h : Built ld use0 mem0 r tf n T use l v)
    (he : Extended ld r use l v T xperm n m T' use' l' v') :
    Built ld use0 mem0 r tf (n + m) T' use' l' v' :=
  ⟨he.heap, he.table, h.map.extend he, he.user.user,
    h.alloced.trans (by rw [Nat.zero_add]; exact he.alloced)
      fun j _ hj => he.new.old j (.inl (by omega)), h.unused⟩

lemma Loaded.extend (hperm : xperm < 1024) (h : Loaded ld use0 mem0 r tf n T use l v)
    (he : Extended ld r use l v T xperm n m T' use' l' v') :
    Loaded ld use0 mem0 r tf (n + m) T' use' l' v' := by
  refine ⟨h.toBuilt.extend he, fun k hk => ?_⟩
  by_cases hkn : k < n
  · rw [he.new.old k (.inl hkn)]
    exact h.new k hkn
  · obtain ⟨x, hx, hfree, hpte⟩ := he.new.new k (by omega) (by omega)
    rw [hpte, PTE2PA_userPte hperm hx.1]
    exact h.alloced.free_of_free hfree

lemma userPte_lt (hperm : xperm < 1024) (hx : IsPage ld x) : userPte x xperm < 2 ^ 64 := by
  have hf : PTE_R ||| PTE_U ||| xperm ||| PTE_V < 1024 :=
    Nat.or_lt_two_pow (n := 10) (perm_flags hperm) (by decide)
  have hP : PHYSTOP = 2281701376 := rfl
  have hlt := hx.2.2
  unfold userPte
  rw [Nat.or_assoc (PA2PTE x), PA2PTE_or hf]
  unfold PGSIZE
  omega

lemma Reached.extend (hperm : xperm < 1024) (h : Reached T n)
    (he : NewPages ld use T T' xperm n m) : Reached T' (n + m) := by
  intro k hk
  by_cases hkn : k < n
  · rw [he.old k (.inl hkn)]
    exact h k hkn
  · obtain ⟨x, hx, _, hpte⟩ := he.new k (by omega) (by omega)
    rw [hpte]
    exact ⟨(leaf_userPte hperm).1.1, (leaf_userPte hperm).2, userPte_lt hperm hx⟩

lemma Built.sameMap (h : Built ld use0 mem0 r tf n T use l v)
    (hs : SameMap ld r use v T T' use' l' v') : Built ld use0 mem0 r tf n T' use' l' v' := by
  have ha : Alloced r use use' v.mem v'.mem T' n 0 := hs.ext.alloced T' n 0
  refine ⟨hs.heap, hs.table, ⟨?_, ?_, ?_, ?_, ?_, ?_⟩, fun k hk => ?_,
    h.alloced.trans (by rw [Nat.zero_add]; exact ha) fun j _ _ => by rw [hs.pte], h.unused⟩
  · rw [hs.pte]
    exact h.map.leaf
  · rw [hs.pte]
    exact h.map.page
  · rw [hs.pte]
    exact h.map.inj
  · rw [hs.pte]
    exact h.map.frame
  · rw [hs.pte]
    exact h.map.trampoline
  · rw [hs.pte]
    exact h.map.none
  · have hu := h.user k hk
    rw [hs.pte, hs.ext.keep _ (by rw [hu]; simp), hu]

section

variable (h : Loaded ld use0 mem0 r tf n T use l v)
include h

lemma Loaded.sameMap
    (hs : SameMap ld r use v T T' use' l' v') : Loaded ld use0 mem0 r tf n T' use' l' v' :=
  ⟨h.toBuilt.sameMap hs, by rw [hs.pte]; exact h.new⟩

lemma Loaded.putOld (hx : use0 x ≠ .free)
    (ht : ∀ r pl, use0 x ≠ .table r pl) (f : Nat → Nat) :
    Loaded ld use0 (put mem0 x f) r tf n T use l (v.putPage x f) := by
  have hk := h.alloced.keep x hx
  refine ⟨⟨h.heap.putPage (by rw [hk]; exact hx) f, ?_, h.map, h.user,
    ⟨h.alloced.keep, h.alloced.fresh, fun y hy hyt => ?_⟩, h.unused⟩, h.new⟩
  · refine h.table.congr (fun _ _ => Iff.rfl) fun y pl hy => putPage_of_ne ?_ f
    rintro rfl
    rw [hk] at hy
    exact ht r pl hy
  · by_cases hyx : y = x
    · rw [hyx, putPage_self, put_self]
    · rw [putPage_of_ne hyx, put_of_ne hyx, h.alloced.same y hy hyt]

lemma Loaded.touched (ht : Touched (Covers T 0 n) v v') :
    Loaded ld use0 mem0 r tf n T use l v' := by
  have hcov : ∀ x, Covers T 0 n x → use x = .user := by
    rintro x ⟨k, _, h2, rfl⟩
    exact h.user k (by omega)
  refine ⟨⟨h.heap.touched ht fun x hx => ?_, h.table.touched ht fun x hx => ?_, h.map, h.user,
    ⟨h.alloced.keep, h.alloced.fresh, fun x hx hxt => ?_⟩, h.unused⟩, h.new⟩
  · rw [hcov x hx]
    simp
  · rw [hcov x hx]
    simp
  · rw [ht.same x, h.alloced.same x hx hxt]
    rintro ⟨k, _, h2, rfl⟩
    exact hx (h.new k (by omega))

end

/-! ## The segments -/

section segments

variable {va sz offset i : Nat} {f : proc.Prog}

lemma wp_loadsegLoop (h : Heap ld use l v) (ht : Table use v.mem r T)
    (hu : ∀ k < n, use (PTE2PA (T.pte k)) = .user) (hreach : Reached T n) (hn : n ≤ NPAGES)
    (hva : va % PGSIZE = 0) (hi : i % PGSIZE = 0) (hk : (va + i) / PGSIZE + k ≤ n) :
    Wp (proc.loadsegLoop r va f offset sz k i) (fun _ v' => Touched (Covers T 0 n) v v') E v := by
  have hcov : ∀ x, Covers T 0 n x → use x = .user := by
    rintro x ⟨k, _, h2, rfl⟩
    exact hu k (by omega)
  induction k generalizing i v with
  | zero =>
    unfold proc.loadsegLoop
    rw [wp_pure]
    exact .refl ..
  | succ k ih =>
    have hNP : NPAGES = 32768 := rfl
    have hP : PGSIZE = 4096 := rfl
    have hM : MAXVA = 2 ^ 38 := rfl
    have hwrap : uint64 (va + i) = va + i := by
      unfold uint64
      rw [hP] at hk hva hi
      omega
    obtain ⟨hV, hU, _⟩ := hreach ((va + i) / PGSIZE) (by omega)
    unfold proc.loadsegLoop
    rw [hwrap]
    refine (wp_walkaddr h ht _).bind ?_
    rintro pa v1 ⟨rfl, hpa⟩
    rw [if_pos ⟨by rw [hP] at hk hva hi; omega, hV, hU⟩] at hpa
    have hcpa : Covers T 0 n pa := ⟨_, Nat.zero_le _, by omega, hpa.symm⟩
    have hpage : IsPage ld pa := h.page pa (by rw [hcov pa hcpa]; simp)
    rw [if_neg hpage.ne_zero]
    rw [wp_bind, wp_poke hpage.inRam]
    generalize hbs : f.readi ((offset + i) % 2 ^ 32) (if sz - i < PGSIZE then sz - i else PGSIZE) = bs
    have htouch := touched_putPage hcpa v1 (patch (v1.mem pa) 0 bs)
    apply wp_ite <;> intro _
    · rw [wp_pure]
      exact htouch
    · refine (ih (h.touched htouch fun x hx => ?_) (ht.touched htouch fun x hx => ?_) ?_ ?_).imp ?_
      · rw [hcov x hx]
        simp
      · rw [hcov x hx]
        simp
      · rw [hP] at hi ⊢
        omega
      · rw [hP] at hk ⊢
        omega
      · exact fun _ v2 h2 => htouch.trans h2

lemma flags2perm_lt (flags : Nat) : proc.flags2perm flags < 1024 := by
  unfold proc.flags2perm
  split <;> split <;> decide

lemma Loaded.size_lt (h : Loaded ld use0 mem0 r tf (pages sz) T use l v) : sz < 2 ^ 38 := by
  have hle := h.map.le
  have hNP : NPAGES = 32768 := rfl
  unfold pages PGSIZE at hle
  omega

lemma Loaded.userPages (h : Loaded ld use0 mem0 r tf n T use l v) : UserPages use T n :=
  h.map.userPages h.user

lemma Loaded.above (h : Loaded ld use0 mem0 r tf n T use l v) :
    ∀ j, n ≤ j → j < TOPPAGE → T.pte j = 0 :=
  fun j h1 h2 => h.map.none j h1 (by omega) (by omega)

lemma pages_mono {a b : Nat} (h : a ≤ b) : pages a ≤ pages b := by
  unfold pages PGSIZE
  omega

lemma wp_loadLoop (off : Nat) (h : Loaded ld use0 mem0 r tf (pages sz) T use l v)
    (hreach : Reached T (pages sz)) :
    Wp (proc.loadLoop ld r f k off sz) (fun res v' => ∃ T' use' l',
      Loaded ld use0 mem0 r tf (pages res.2) T' use' l' v' ∧ Reached T' (pages res.2)) E v := by
  induction k generalizing off sz T use l v with
  | zero =>
    unfold proc.loadLoop
    rw [wp_pure]
    exact ⟨T, use, l, h, hreach⟩
  | succ k ih =>
    unfold proc.loadLoop
    generalize f.readi off proc.PROGHDR = ph
    have hstop : Wp (pure (false, sz)) (fun (res : Bool × Nat) v' => ∃ T' use' l',
        Loaded ld use0 mem0 r tf (pages res.2) T' use' l' v' ∧ Reached T' (pages res.2)) E v := by
      rw [wp_pure]
      exact ⟨T, use, l, h, hreach⟩
    refine wp_ite (fun _ => hstop) (fun _ => ?_)
    refine wp_ite (fun _ => ih _ h hreach) (fun _ => ?_)
    refine wp_ite (fun _ => hstop) (fun hmemsz => ?_)
    refine wp_ite (fun _ => hstop) (fun hwrap => ?_)
    refine wp_ite (fun _ => hstop) (fun halign => ?_)
    have hvaddr : proc.field ph 16 8 < 2 ^ 64 := getLE_lt 8 _ _
    have hmemsz64 : proc.field ph 40 8 < 2 ^ 64 := getLE_lt 8 _ _
    generalize proc.field ph 16 8 = vaddr at *
    generalize proc.field ph 32 8 = filesz at *
    generalize proc.field ph 40 8 = memsz at *
    have hperm := flags2perm_lt (proc.field ph 4 4)
    refine (wp_uvmalloc hperm h.heap h.table h.userPages h.size_lt h.above).bind ?_
    rintro sz1 v1 ⟨use1, l1, T1, ⟨rfl, hs, _⟩ | ⟨hmax, hpos, he⟩⟩
    · rw [if_pos rfl, wp_pure]
      exact ⟨T1, use1, l1, h.sameMap hs, by unfold Reached; rw [hs.pte]; exact hreach⟩
    · rw [if_neg hpos]
      have hle : pages sz ≤ pages sz1 := pages_mono (by omega)
      have h1 := h.extend hperm he
      have hreach1 := hreach.extend hperm he.new
      rw [Nat.add_sub_cancel' hle] at h1 hreach1
      have hlt1 := h1.size_lt
      have hend : vaddr + filesz % 2 ^ 32 ≤ sz1 := by
        have hmod : filesz % 2 ^ 32 ≤ filesz := Nat.mod_le ..
        unfold uint64 at hmax hwrap
        omega
      have hcount : rounds 0 (filesz % 2 ^ 32) = pages (filesz % 2 ^ 32) := rfl
      have hseg : (vaddr + 0) / PGSIZE + rounds 0 (filesz % 2 ^ 32) ≤ pages sz1 := by
        rw [hcount]
        unfold pages
        have hP : PGSIZE = 4096 := rfl
        rw [hP] at halign ⊢
        omega
      refine (wp_loadsegLoop h1.heap h1.table h1.user hreach1 h1.map.le (by simpa using halign)
        (Nat.zero_mod _) hseg).bind ?_
      intro ok v2 ht
      have h2 := h1.touched ht
      refine wp_ite (fun _ => ?_) (fun _ => ih _ h2 hreach1)
      rw [wp_pure]
      exact ⟨T1, use1, l1, h2, hreach1⟩

lemma wp_execLoad (h : Heap ld use l v) (hroot : Rooted use) (tf : Nat) (f : proc.Prog) :
    Wp (proc.execLoad ld tf f) (fun res v' =>
      (res.1 = 0 ∧ res.2.2 = false ∧ ∃ l', Heap ld use l' v' ∧
        ∀ x, use x ≠ .free → v'.mem x = v.mem x) ∨
      (res.1 ≠ 0 ∧ ∃ T' use' l', Loaded ld use v.mem res.1 tf (pages res.2.1) T' use' l' v' ∧
        Reached T' (pages res.2.1))) E v := by
  have hnone : Wp (pure (0, 0, false)) (fun (res : Nat × Nat × Bool) v' =>
      (res.1 = 0 ∧ res.2.2 = false ∧ ∃ l', Heap ld use l' v' ∧
        ∀ x, use x ≠ .free → v'.mem x = v.mem x) ∨
      (res.1 ≠ 0 ∧ ∃ T' use' l', Loaded ld use v.mem res.1 tf (pages res.2.1) T' use' l' v' ∧
        Reached T' (pages res.2.1))) E v := by
    rw [wp_pure]
    exact .inl ⟨rfl, rfl, l, h, fun _ _ => rfl⟩
  unfold proc.execLoad
  generalize f.readi 0 proc.ELFHDR = elf
  refine wp_ite (fun _ => hnone) (fun _ => ?_)
  refine wp_ite (fun _ => hnone) (fun _ => ?_)
  refine (wp_proc_pagetable h hroot tf).bind ?_
  rintro r v1 (⟨rfl, _, l1, hheap1, hmem1⟩ | ⟨hr0, _, T1, use1, l1, hb, _⟩)
  · rw [if_pos rfl, wp_pure]
    exact .inl ⟨rfl, rfl, l1, hheap1, hmem1⟩
  · rw [if_neg hr0]
    have hload : Loaded ld use v.mem r tf (pages 0) T1 use1 l1 v1 := ⟨hb, by simp [pages, PGSIZE]⟩
    refine (wp_loadLoop _ hload (by simp [Reached, pages, PGSIZE])).bind ?_
    rintro ⟨ok, sz⟩ v2 ⟨T2, use2, l2, h2, hreach2⟩
    rw [wp_pure]
    exact .inr ⟨hr0, T2, use2, l2, h2, hreach2⟩

end segments

/-! ## The stack -/

section stack

variable {sz stackbase base top sp a argc : Nat} {mem mem' : Nat → Nat → Nat}
  {args argv : List (List UInt8)} {addrs : List Nat}

/-- Copies of the strings, from high addresses to low ones: the first one ends at or below `top`,
and the last one is at `sp`. -/
inductive Laid (mem : Nat → Nat → Nat) (r base top : Nat) :
    List (List UInt8) → List Nat → Nat → Prop where
  | nil : Laid mem r base top [] [] top
  | snoc {args : List (List UInt8)} {addrs : List Nat} {sp a : Nat} {arg : List UInt8} :
      Laid mem r base top args addrs sp → base ≤ a → a + (arg.length + 1) ≤ sp →
      (∀ i < arg.length + 1, Usable mem r (a + i)) →
      bytesAt mem r a (arg.length + 1) = arg ++ [0] →
      Laid mem r base top (args ++ [arg]) (addrs ++ [a]) a

lemma Laid.le_top (h : Laid mem r base top args addrs sp) : sp ≤ top := by
  induction h with
  | nil => exact Nat.le_refl _
  | snoc _ _ _ _ _ ih => omega

lemma Laid.length (h : Laid mem r base top args addrs sp) : addrs.length = args.length := by
  induction h with
  | nil => rfl
  | snoc _ _ _ _ _ ih => simp [ih]

lemma Laid.frame (h : Laid mem r base top args addrs sp)
    (hu : ∀ a, Usable mem r a → Usable mem' r a)
    (hs : ∀ a, Usable mem r a → sp ≤ a → byteAt mem' r a = byteAt mem r a) :
    Laid mem' r base top args addrs sp := by
  induction h with
  | nil => exact .nil
  | @snoc args addrs sp a arg _ hb hle hreach hbytes ih =>
    refine .snoc (ih fun b hb' hsb => hs b hb' (by omega)) hb hle (fun i hi => hu _ (hreach i hi)) ?_
    rw [← hbytes]
    apply map_congr_left
    intro i hi
    exact hs _ (hreach i (mem_range.mp hi)) (by omega)

lemma Laid.stored {bs : List UInt8} (h : Laid v.mem r base top args addrs sp)
    (hs : Space v.mem r) (hst : Stored r a bs v v') (hu : ∀ i < bs.length, Usable v.mem r (a + i))
    (hle : a + bs.length ≤ sp) : Laid v'.mem r base top args addrs sp :=
  h.frame (fun b hb => (usable_congr (hst.tables hs hu) b).mpr hb)
    fun _ hb hsb => hst.byteAt_of_not_mem hs hu hb (.inr (by omega))

lemma Laid.push {arg : List UInt8} (h : Laid v.mem r base top args addrs sp)
    (hs : Space v.mem r) (hst : Stored r a (arg ++ [0]) v v')
    (hu : ∀ i < (arg ++ [0]).length, Usable v.mem r (a + i)) (hb : base ≤ a)
    (hle : a + (arg ++ [0]).length ≤ sp) :
    Laid v'.mem r base top (args ++ [arg]) (addrs ++ [a]) a := by
  have hlen : (arg ++ [(0 : UInt8)]).length = arg.length + 1 := by simp
  refine .snoc (h.stored hs hst hu hle) hb (by omega) (fun i hi => ?_) ?_
  · exact (usable_congr (hst.tables hs hu) _).mpr (hu i (by omega))
  · rw [← hlen]
    exact hst.bytesAt hs hu

lemma sub64_of_usable {n : Nat} (hsp : sp ≤ MAXVA) (h0 : 0 < n)
    (hu : ∀ i < n, Usable mem r (proc.sub64 sp n - proc.sub64 sp n % 16 + i)) :
    n ≤ sp ∧ proc.sub64 sp n = sp - n := by
  have hlast := (hu (n - 1) (by omega)).1
  unfold MAXVA at hsp hlast
  unfold proc.sub64 uint64 at hlast ⊢
  omega

lemma wp_copyout_loaded (h : Loaded ld use0 mem0 r tf n T use l v) (a : Nat) (bs : List UInt8) :
    Wp (copyout r a bs) (fun ok v' => Loaded ld use0 mem0 r tf n T use l v' ∧
      (ok = true → (∀ i < bs.length, Usable v.mem r (a + i)) ∧ Stored r a bs v v')) E v := by
  have hs := h.map.space h.table h.heap h.user
  refine ((wp_copyout h.heap h.table h.map h.user a bs).and
    (wp_copyout_reach (E := E) hs a bs)).imp ?_
  rintro ok v1 ⟨ht, hok, hst⟩
  refine ⟨h.touched ht, fun htrue => ?_⟩
  rw [hok, decide_eq_true_eq] at htrue
  rw [htrue, take_length] at hst
  exact ⟨fun i hi => usable_of_lt_reach (by rw [htrue]; exact hi), hst⟩

lemma wp_pushLoop (h : Loaded ld use0 mem0 r tf n T use l v) (htop : top ≤ MAXVA)
    (args : List (List UInt8)) (hl : Laid v.mem r stackbase top argv addrs sp) :
    Wp (proc.pushLoop r stackbase args sp addrs) (fun res v' =>
      Loaded ld use0 mem0 r tf n T use l v' ∧ ∀ addrs' sp', res = some (addrs', sp') →
        Laid v'.mem r stackbase top (argv ++ args) addrs' sp') E v := by
  induction args generalizing sp argv addrs v with
  | nil =>
    unfold proc.pushLoop
    rw [wp_pure, append_nil]
    refine ⟨h, fun addrs' sp' he => ?_⟩
    injection he with he
    injection he with h1 h2
    rw [← h1, ← h2]
    exact hl
  | cons arg args ih =>
    apply wp_ite <;> intro _
    · rw [wp_pure]
      exact ⟨h, by simp⟩
    apply wp_ite <;> intro hbase
    · rw [wp_pure]
      exact ⟨h, by simp⟩
    refine (wp_copyout_loaded h _ _).bind ?_
    rintro ok v1 ⟨h1, hst⟩
    apply wp_ite <;> intro hok
    · rw [wp_pure]
      exact ⟨h1, by simp⟩
    obtain ⟨hu, hst⟩ := hst (by simpa using hok)
    have hlen : (arg ++ [(0 : UInt8)]).length = arg.length + 1 := by simp
    obtain ⟨hle, hsub⟩ := sub64_of_usable (n := arg.length + 1) (hl.le_top.trans htop)
      (by omega) (fun i hi => hu i (by omega))
    have hl1 := hl.push (h.map.space h.table h.heap h.user) hst hu (by omega) (by omega)
    have hrest := ih h1 hl1
    rw [append_assoc] at hrest
    exact hrest

lemma pointerBytes_cons (w : Nat) (ws : List Nat) : proc.pointerBytes (w :: ws) =
    ((List.range 8).map fun k => UInt8.ofNat (w / 256 ^ k)) ++ proc.pointerBytes ws := rfl

lemma length_pointerBytes (ws : List Nat) : (proc.pointerBytes ws).length = 8 * ws.length := by
  induction ws with
  | nil => rfl
  | cons w ws ih =>
    rw [pointerBytes_cons]
    simp only [length_append, length_map, length_range, ih, length_cons]
    omega

lemma pointerBytes_get {ws : List Nat} {i w : Nat} (h : ws[i]? = some w) {j : Nat} (hj : j < 8) :
    (proc.pointerBytes ws)[8 * i + j]? = some (UInt8.ofNat (w / 256 ^ j)) := by
  induction ws generalizing i with
  | nil => simp at h
  | cons c ws ih =>
    rw [pointerBytes_cons]
    cases i with
    | zero =>
      rw [getElem?_append_left (by simp; omega)]
      simp at h
      simp [h, hj]
    | succ i =>
      rw [getElem?_append_right (by simp; omega), length_map, length_range,
        show 8 * (i + 1) + j - 8 = 8 * i + j by omega]
      exact ih (by simpa using h)

def wordAt (mem : Nat → Nat → Nat) (r a : Nat) : Nat := getLE 8 (byteAt mem r) a

lemma Stored.wordAt {ws : List Nat} (h : Stored r a (proc.pointerBytes ws) v v')
    (hs : Space v.mem r) (hu : ∀ i < (proc.pointerBytes ws).length, Usable v.mem r (a + i))
    {i w : Nat} (hw : ws[i]? = some w) (hlt : w < 2 ^ 64) : wordAt v'.mem r (a + 8 * i) = w := by
  unfold vm.wordAt
  rw [getLE_of_bytes (v := w), Nat.mod_eq_of_lt (by omega)]
  intro j hj
  obtain ⟨hlen, hget⟩ := List.getElem?_eq_some_iff.mp (pointerBytes_get hw hj)
  rw [Nat.add_assoc, h.byteAt hs hu _ hlen, hget]

lemma getElem?_snoc {α : Type} {xs : List α} {x y : α} {i : Nat}
    (h : (xs ++ [x])[i]? = some y) : xs[i]? = some y ∨ i = xs.length ∧ y = x := by
  rcases Nat.lt_trichotomy i xs.length with hlt | heq | hgt
  · rw [getElem?_append_left hlt] at h
    exact .inl h
  · rw [heq, getElem?_concat_length] at h
    exact .inr ⟨heq, (Option.some.inj h).symm⟩
  · rw [getElem?_eq_none (by simp; omega)] at h
    cases h

lemma Laid.get (h : Laid mem r base top args addrs sp) {i : Nat} {arg : List UInt8}
    (ha : addrs[i]? = some a) (harg : args[i]? = some arg) :
    sp ≤ a ∧ a + (arg.length + 1) ≤ top ∧ (∀ j < arg.length + 1, Usable mem r (a + j)) ∧
      bytesAt mem r a (arg.length + 1) = arg ++ [0] := by
  induction h with
  | nil => simp at ha
  | @snoc args addrs sp b brg hl hb hle hu hbytes ih =>
    have hlen := hl.length
    have htop := hl.le_top
    rcases getElem?_snoc ha with ha | ⟨hi, rfl⟩
    · have hi := (List.getElem?_eq_some_iff.mp ha).1
      rw [getElem?_append_left (by omega)] at harg
      obtain ⟨h1, h2⟩ := ih ha harg
      exact ⟨by omega, h2⟩
    · rw [hi, hlen, getElem?_concat_length] at harg
      rw [← Option.some.inj harg]
      exact ⟨Nat.le_refl _, by omega, hu, hbytes⟩

lemma Laid.apart (h : Laid mem r base top args addrs sp) {i j b : Nat} {arg : List UInt8}
    (hij : i < j) (ha : addrs[i]? = some a) (hb : addrs[j]? = some b) (harg : args[j]? = some arg) :
    b + (arg.length + 1) ≤ a := by
  induction h with
  | nil => simp at ha
  | @snoc args addrs sp c crg hl hb' hle hu hbytes ih =>
    have hlen := hl.length
    rcases getElem?_snoc hb with hb | ⟨hj, rfl⟩
    · have hj := (List.getElem?_eq_some_iff.mp hb).1
      rw [getElem?_append_left (by omega)] at ha harg
      exact ih ha hb harg
    · rw [getElem?_append_left (by omega)] at ha
      rw [hj, hlen, getElem?_concat_length] at harg
      rw [← Option.some.inj harg]
      have hi := (List.getElem?_eq_some_iff.mp ha).1
      have hsp := (hl.get ha (getElem?_eq_getElem (by omega))).1
      omega

/-- The arguments of a program on its stack, the last page below `sz`: the pointers to the
strings and a null pointer at `sp`, and the strings above them. The page below is the guard. -/
structure Arguments (mem : Nat → Nat → Nat) (r sz : Nat) (argv : List (List UInt8))
    (addrs : List Nat) (sp : Nat) : Prop where
  page : sz % PGSIZE = 0
  guard : 2 * PGSIZE ≤ sz ∧ entry mem r (sz / PGSIZE - 2) &&& PTE_V ≠ 0 ∧
    entry mem r (sz / PGSIZE - 2) &&& PTE_U = 0
  aligned : sp % 16 = 0
  above : sz - PGSIZE ≤ sp
  fits : sp + 8 * (argv.length + 1) ≤ sz
  length : addrs.length = argv.length
  reached : ∀ j < 8 * (argv.length + 1), Usable mem r (sp + j)
  pointer : ∀ (i w : Nat), (addrs ++ [0])[i]? = some w → wordAt mem r (sp + 8 * i) = w
  string : ∀ (i a : Nat) (arg : List UInt8), addrs[i]? = some a → argv[i]? = some arg →
    sp + 8 * (argv.length + 1) ≤ a ∧ a + (arg.length + 1) ≤ sz ∧
      (∀ j < arg.length + 1, Usable mem r (a + j)) ∧
      bytesAt mem r a (arg.length + 1) = arg ++ [0]
  apart : ∀ (i j a b : Nat) (arg : List UInt8), i < j → addrs[i]? = some a → addrs[j]? = some b →
    argv[j]? = some arg → b + (arg.length + 1) ≤ a

lemma Laid.arguments {low : Nat} (h : Laid v.mem r base sz argv addrs low)
    (hs : Space v.mem r) (hst : Stored r sp (proc.pointerBytes (addrs ++ [0])) v v')
    (hu : ∀ i < (proc.pointerBytes (addrs ++ [0])).length, Usable v.mem r (sp + i))
    (hle : sp + 8 * (argv.length + 1) ≤ low) (hal : sp % 16 = 0) (habove : sz - PGSIZE ≤ sp)
    (hpage : sz % PGSIZE = 0) (hguard : 2 * PGSIZE ≤ sz ∧
      entry v.mem r (sz / PGSIZE - 2) &&& PTE_V ≠ 0 ∧ entry v.mem r (sz / PGSIZE - 2) &&& PTE_U = 0) :
    Arguments v'.mem r sz argv addrs sp := by
  have hlen := h.length
  have hplen : (proc.pointerBytes (addrs ++ [0])).length = 8 * (argv.length + 1) := by
    rw [length_pointerBytes]
    simp [hlen]
  have hsame := hst.tables hs hu
  have htop := h.le_top
  have h' := h.stored hs hst hu (by omega)
  refine ⟨hpage, ?_, hal, habove, by omega, hlen, fun j hj => ?_, fun i w hw => ?_,
    fun i a arg ha harg => ?_, fun i j a b arg hij ha hb harg => h'.apart hij ha hb harg⟩
  · rw [entry_congr hsame]
    exact hguard
  · exact (usable_congr hsame _).mpr (hu j (by omega))
  · apply hst.wordAt hs hu hw
    rcases getElem?_snoc hw with hw | ⟨_, rfl⟩
    · have hi := (List.getElem?_eq_some_iff.mp hw).1
      have hlt := ((h.get hw (getElem?_eq_getElem (by omega))).2.2.1 0 (by omega)).1
      unfold MAXVA at hlt
      omega
    · decide
  · obtain ⟨h1, h2⟩ := h'.get ha harg
    exact ⟨by omega, h2⟩

lemma Arguments.congr (h : Arguments mem r sz argv addrs sp)
    (hs : ∀ x, Visits mem r x → mem' x = mem x)
    (hp : ∀ a, Usable mem r a → mem' (userPage mem r a) = mem (userPage mem r a)) :
    Arguments mem' r sz argv addrs sp := by
  have hbyte : ∀ a, Usable mem r a → byteAt mem' r a = byteAt mem r a := by
    intro a ha
    unfold byteAt
    rw [userPage_congr hs, hp a ha]
  refine ⟨h.page, ?_, h.aligned, h.above, h.fits, h.length, fun j hj => ?_, fun i w hw => ?_,
    fun i a arg ha harg => ?_, h.apart⟩
  · rw [entry_congr hs]
    exact h.guard
  · exact (usable_congr hs _).mpr (h.reached j hj)
  · rw [← h.pointer i w hw]
    have hi := (List.getElem?_eq_some_iff.mp hw).1
    rw [length_append, length_singleton, h.length] at hi
    apply getLE_congr
    intro b h1 h2
    apply hbyte
    have hb := h.reached (b - sp) (by omega)
    rwa [Nat.add_sub_cancel' (by omega)] at hb
  · obtain ⟨h1, h2, h3, h4⟩ := h.string i a arg ha harg
    refine ⟨h1, h2, fun j hj => (usable_congr hs _).mpr (h3 j hj), ?_⟩
    rw [← h4]
    apply map_congr_left
    intro j hj
    exact hbyte _ (h3 j (mem_range.mp hj))

lemma Loaded.guard (h : Loaded ld use0 mem0 r tf n T use l v) (hreach : Reached T n)
    (hk : k < n) (hheap : Heap ld use l v')
    (htab : Table use v'.mem r { T with pte := put T.pte k (clearUser (T.pte k)) })
    (hmem : ∀ x, (∀ pl, use x ≠ .table r pl) → v'.mem x = v.mem x) :
    Loaded ld use0 mem0 r tf n { T with pte := put T.pte k (clearUser (T.pte k)) } use l v' := by
  have hle := h.map.le
  have hNP : NPAGES = 32768 := rfl
  have hTOP : TOPPAGE = 67108862 := rfl
  have hpa : ∀ j, PTE2PA (put T.pte k (clearUser (T.pte k)) j) = PTE2PA (T.pte j) := by
    intro j
    by_cases hjk : j = k
    · rw [hjk, put_self, PTE2PA_clearUser (hreach k hk).2.2]
    · rw [put_of_ne hjk]
  have hcov : ∀ x, Covers { T with pte := put T.pte k (clearUser (T.pte k)) } 0 n x ↔
      Covers T 0 n x := by
    intro x
    unfold Covers
    simp only [hpa]
  refine ⟨⟨hheap, htab, ⟨?_, ?_, ?_, ?_, ?_, ?_⟩, ?_, ⟨h.alloced.keep, ?_, ?_⟩, h.unused⟩, ?_⟩
  · intro j hj
    dsimp only
    by_cases hjk : j = k
    · rw [hjk, put_self]
      exact (h.map.leaf k hk).clearUser
    · rw [put_of_ne hjk]
      exact h.map.leaf j hj
  · intro j hj
    rw [hpa]
    exact h.map.page j hj
  · intro i j hi hj he
    dsimp only at he
    rw [hpa, hpa] at he
    exact h.map.inj i j hi hj he
  · dsimp only
    rw [put_of_ne (by omega)]
    exact h.map.frame
  · dsimp only
    rw [put_of_ne (by omega)]
    exact h.map.trampoline
  · intro j hj h1 h2
    dsimp only
    rw [put_of_ne (by omega)]
    exact h.map.none j hj h1 h2
  · intro j hj
    rw [hpa]
    exact h.user j hj
  · intro x hx
    rw [hcov]
    exact h.alloced.fresh x hx
  · intro x hx hxt
    have hkeep := h.alloced.keep x hx
    rw [hmem x (by rw [hkeep]; exact hxt), h.alloced.same x hx hxt]
  · intro j hj
    dsimp only
    rw [hpa]
    exact h.new j hj

lemma wp_pushArgs (h : Loaded ld use0 mem0 r tf (pages sz) T use l v)
    (hreach : Reached T (pages sz)) (argv : List (List UInt8)) :
    Wp (proc.pushArgs ld r sz argv) (fun res v' => ∃ T' use' l',
      Loaded ld use0 mem0 r tf (pages res.1) T' use' l' v' ∧
      ∀ argc sp, res.2 = some (argc, sp) → argc = argv.length ∧
        ∃ addrs, Arguments v'.mem r res.1 argv addrs sp) E v := by
  have hlt := h.size_lt
  have hup : pages (pages sz * PGSIZE) = pages sz := by
    unfold pages PGSIZE
    omega
  have hbound : pages sz * PGSIZE < 2 ^ 27 + 1 := by
    have hle := h.map.le
    have hNP : NPAGES = 32768 := rfl
    unfold PGSIZE
    omega
  have htop : uint64 (pages sz * PGSIZE + 2 * PGSIZE) = pages sz * PGSIZE + 2 * PGSIZE := by
    unfold uint64 PGSIZE at *
    omega
  unfold proc.pushArgs
  rw [PGROUNDUP_eq (by omega)]
  dsimp only
  rw [htop]
  rw [← hup] at h hreach
  generalize hsz' : pages sz * PGSIZE = sz' at *
  refine (wp_uvmalloc (by decide) h.heap h.table h.userPages h.size_lt h.above).bind ?_
  rintro sz1 v1 ⟨use1, l1, T1, ⟨rfl, hs, _⟩ | ⟨hmax, hpos, he⟩⟩
  · rw [if_pos rfl, wp_pure]
    exact ⟨T1, use1, l1, h.sameMap hs, by simp⟩
  have hsz1 : sz1 = sz' + 2 * PGSIZE := by
    rw [hmax]
    omega
  have hle : pages sz' ≤ pages sz1 := pages_mono (by omega)
  have h1 := h.extend (by decide) he
  have hreach1 := hreach.extend (by decide) he.new
  rw [Nat.add_sub_cancel' hle] at h1 hreach1
  have hlt1 := h1.size_lt
  have hpage : (sz1 - 2 * PGSIZE) / PGSIZE < pages sz1 := by
    unfold pages PGSIZE at *
    omega
  rw [if_neg hpos]
  refine (wp_uvmclear h1.heap h1.table (.inr ⟨by unfold MAXVA; omega, ?_⟩)).bind ?_
  · exact (h1.map.leaf _ hpage).ne_zero
  rintro _ v2 ⟨-, hheap2, htab2, hmem2⟩
  have h2 := h1.guard hreach1 hpage hheap2 htab2 hmem2
  have hmax1 : sz1 ≤ MAXVA := by
    unfold MAXVA
    omega
  refine (wp_pushLoop h2 hmax1 argv .nil).bind ?_
  rintro (_ | ⟨addrs, sp⟩) v3 ⟨h3, hl3⟩
  · dsimp only
    rw [wp_pure]
    exact ⟨_, _, _, h3, by simp⟩
  have hl := hl3 addrs sp rfl
  rw [nil_append] at hl
  apply wp_ite <;> intro hbase
  · rw [wp_pure]
    exact ⟨_, _, _, h3, by simp⟩
  refine (wp_copyout_loaded h3 _ _).bind ?_
  rintro ok v4 ⟨h4, hst⟩
  apply wp_ite <;> intro hok
  · rw [wp_pure]
    exact ⟨_, _, _, h4, by simp⟩
  obtain ⟨hu, hst⟩ := hst (by simpa using hok)
  have hlen : (proc.pointerBytes (addrs ++ [0])).length = (addrs.length + 1) * 8 := by
    rw [length_pointerBytes]
    simp [Nat.mul_comm]
  obtain ⟨hle, hsub⟩ := sub64_of_usable (n := (addrs.length + 1) * 8) (hl.le_top.trans hmax1)
    (by omega) (fun i hi => hu i (by omega))
  have hal := hl.length
  rw [wp_pure]
  refine ⟨_, _, _, h4, fun argc sp' he => ?_⟩
  injection he with he
  injection he with hc hsp
  refine ⟨by omega, addrs, ?_⟩
  rw [← hsp]
  have hguard := h3.table.entry_eq h3.heap ((sz1 - 2 * PGSIZE) / PGSIZE)
  dsimp only at hguard
  rw [put_self, show (sz1 - 2 * PGSIZE) / PGSIZE = sz1 / PGSIZE - 2 by unfold PGSIZE; omega] at hguard
  refine hl.arguments (h3.map.space h3.table h3.heap h3.user) hst hu (by omega) (by omega) (by omega)
    ?_ ⟨by omega, ?_⟩
  · unfold pages PGSIZE at *
    omega
  · rw [hguard, ← show (sz1 - 2 * PGSIZE) / PGSIZE = sz1 / PGSIZE - 2 by unfold PGSIZE; omega]
    exact ⟨(h1.map.leaf _ hpage).clearUser.1, clearUser_and_user _⟩

lemma Arguments.keep {w : Vm} (h : Arguments v.mem r sz argv addrs sp)
    (hb : Loaded ld use0 mem0 r tf n T use l v)
    (hsame : ∀ y, use0 y = .free → use y ≠ .free → w.mem y = v.mem y) :
    Arguments w.mem r sz argv addrs sp := by
  apply h.congr
  · intro x hx
    obtain ⟨pl, hpl⟩ := hb.table.visits hb.heap hx
    refine hsame x ?_ (by rw [hpl]; simp)
    by_contra hc
    rw [hb.alloced.keep x hc] at hpl
    exact hb.unused x pl hpl
  · intro a ha
    have hk := hb.map.usable_lt hb.table hb.heap ha
    unfold userPage
    rw [hb.table.entry_eq hb.heap]
    exact hsame _ (hb.new _ hk) (by rw [hb.user _ hk]; simp)

end stack

end xv6.vm
