-- The allocator on the break of its process. `sbrk` has a parameter of type int,
-- so a request that is too large asks for less than the allocator counts on.
import Xv6.UmallocRuns

open cells intervals wp

namespace xv6.umalloc

/-! ## The break -/

def toInt (k : Nat) : Int := (BitVec.ofNat 32 k).toInt

def growproc (sz : Nat) (n : Int) : Nat := if 0 ≤ sz + n then (sz + n).toNat else sz

def brk (start : Nat) : List Span → Nat
  | [] => start
  | (a, k) :: _ => growproc a (toInt k)

/-- What the calls so far leave as long as none of them is too large: the break is above the regions
and the base of the list, and the machine has less than 2^35 bytes. -/
def Below (start : Nat) (regions : List Span) : Prop :=
  16 ∣ brk start regions ∧ 4096 + 16 ≤ brk start regions ∧ total regions < 2 ^ 35 ∧
    ∀ r ∈ regions, r.1 + r.2 ≤ brk start regions

instance (start : Nat) (regions : List Span) : Decidable (Below start regions) :=
  inferInstanceAs (Decidable (_ ∧ _ ∧ _ ∧ _))

variable {start n : Nat} {grant : Nat → Bool} {s t : Sys} {F B : List Span}

lemma Below.apart {regions : List Span} (h : Below start regions) (k : Nat) :
    ∀ r ∈ regions, Apart (brk start regions, k) r := by
  intro r hr
  rw [apart_iff]
  intro x hx hxr
  rw [mem_points] at hx hxr
  have := h.2.2.2 r hr
  dsimp only at hx
  omega

lemma base_pos : 0 < 4096 := by decide

/-- `sys_sbrk` on a machine with less than 2^35 bytes: it gives the old break, and fails only when
it is to grow. Whether there are pages is for `grant` to say. A request of type uint is below 2^33
bytes; calls that follow one that is too large are not looked at. -/
def sysSbrk (start : Nat) (grant : Nat → Bool) : Env where
  base := 4096
  sbrk calls regions k :=
    if (toInt k ≤ 0 ∨ grant calls = true ∧ total regions + toInt k < 2 ^ 35) ∧ k < 2 ^ 33 ∧
      Below start regions then some (brk start regions) else none
  base_pos := base_pos
  fresh := by
    intro calls regions k a _ _ h
    rw [Option.ite_none_right_eq_some, Option.some.injEq] at h
    obtain ⟨⟨_, _, hbelow⟩, rfl⟩ := h
    exact ⟨hbelow.1, hbelow.2.1, hbelow.apart k⟩

lemma sysSbrk_some {calls k a : Nat} {regions : List Span} :
    (sysSbrk start grant).sbrk calls regions k = some a ↔
      ((toInt k ≤ 0 ∨ grant calls = true ∧ total regions + toInt k < 2 ^ 35) ∧ k < 2 ^ 33 ∧
        Below start regions) ∧ brk start regions = a := by
  unfold sysSbrk
  dsimp only
  rw [Option.ite_none_right_eq_some, Option.some.injEq]

lemma sysSbrk_bounded (start : Nat) (grant : Nat → Bool) : (sysSbrk start grant).Bounded := by
  intro calls regions k a h
  obtain ⟨⟨_, hk, _, _, htotal, _⟩, _⟩ := sysSbrk_some.mp h
  omega

lemma sysSbrk_fresh (start : Nat) (grant : Nat → Bool) (s : Sys) (k : Nat) :
    (sysSbrk start grant).Fresh s k := by
  intro a h
  obtain ⟨⟨_, _, hbelow⟩, rfl⟩ := sysSbrk_some.mp h
  exact ⟨hbelow.2.1, hbelow.apart k⟩

lemma toInt_of_lt {k : Nat} (hk : k < 2 ^ 31) : toInt k = k := by
  unfold toInt
  rw [BitVec.toInt_eq_toNat_bmod, BitVec.toNat_ofNat, Int.bmod_def]
  omega

lemma toInt_le {k : Nat} (hlow : 2 ^ 31 ≤ k) (hhigh : k ≤ 2 ^ 32 + 16) : toInt k ≤ 16 := by
  unfold toInt
  rw [BitVec.toInt_eq_toNat_bmod, BitVec.toNat_ofNat, Int.bmod_def]
  omega

lemma brk_cons {k : Nat} (hk : k < 2 ^ 31) (a : Nat) (regions : List Span) :
    brk start ((a, k) :: regions) = a + k := by
  have h0 : 0 ≤ (a : Int) + k := by omega
  simp only [brk, growproc, toInt_of_lt hk, if_pos h0]
  omega

lemma Below.grow {calls a k : Nat} {regions : List Span} (hk : k < 2 ^ 31) (h16 : 16 ∣ k)
    (ha : (sysSbrk start grant).sbrk calls regions k = some a) :
    Below start ((a, k) :: regions) ∧ brk start regions ≤ brk start ((a, k) :: regions) := by
  obtain ⟨⟨hgrant, _, hb16, hbase, htotal, habove⟩, rfl⟩ := sysSbrk_some.mp ha
  rw [toInt_of_lt hk] at hgrant
  unfold Below
  rw [brk_cons hk, total_cons]
  refine ⟨⟨by omega, by omega, by omega, fun r hr => ?_⟩, by omega⟩
  rcases List.mem_cons.mp hr with rfl | hr
  · exact le_rfl
  · have := habove r hr
    omega

/-! ## What the calls do to the break -/

lemma wp_free_regions (ap : Nat) :
    Wp (free ap) (fun _ t => t.regions = s.regions) (fun _ => True) s := by
  unfold free
  rw [wp_get_bind]
  dsimp only
  split
  · rw [wp_throw]
    trivial
  · rw [wp_set]

lemma Ended.below {p : Nat} (h : Ended (sysSbrk start grant) s (unitsFor n) F B p t)
    (hs : Below start s.regions) (hn : 16 * unitsFor n < 2 ^ 31) :
    Below start t.regions ∧ brk start s.regions ≤ brk start t.regions := by
  have hsame : t.regions = s.regions →
      Below start t.regions ∧ brk start s.regions ≤ brk start t.regions := by
    intro ht
    rw [ht]
    exact ⟨hs, le_rfl⟩
  rcases h.2 with ⟨_, _, _, ht, _⟩ | ⟨_, _, _, _, ⟨_, ht⟩ | ⟨_, h, ha, ht, _⟩⟩
  · exact hsame ht
  · exact hsame ht
  · rw [ht]
    exact Below.grow (coreUnits_lt hn) (Nat.dvd_mul_right ..) ha

lemma Run.below {ptr size : Nat → Nat} (hstart : Below start [])
    (hr : Run (sysSbrk start grant) ptr size s) :
    Below start s.regions ∧ ∃ B, List.Forall₂ Fits s.live B ∧ Inv (sysSbrk start grant) s B := by
  have he := sysSbrk_bounded start grant
  apply machine.Run.invariant hr
  · exact ⟨hstart, [], .nil, .inl ⟨rfl, rfl, rfl⟩⟩
  · rintro s c t ⟨hs, B, hf, hi⟩ hc hexec
    refine ⟨?_, ?_⟩
    · cases c with
      | malloc n =>
        unfold exec at hexec
        dsimp only at hexec
        split at hexec
        · rename_i p u hrun
          cases hexec
          obtain ⟨F, _, hw⟩ := wp_malloc hi he (sysSbrk_fresh start grant s _)
          have hu := ((hw.of_ok hrun).below hs hc).1
          split
          · exact hu
          · exact hu
        · cases hexec
      | free ap =>
        unfold exec at hexec
        dsimp only at hexec
        split at hexec
        · rename_i u hrun
          cases hexec
          have hu := (wp_free_regions ap).of_ok hrun
          rw [hu]
          exact hs
        · cases hexec
      | write p n ptr size =>
        cases hexec
        exact hs
    · obtain ⟨t', B', hexec', h⟩ := exec_inv hf hi he hc
      rw [hexec] at hexec'
      cases hexec'
      exact ⟨B', h⟩

/-! ## Which requests are served from below the break -/

/-- The headers that the rover comes by. -/
def OnList (s : Sys) (a : Nat) : Prop := s.heap.freep ≠ 0 ∧ ∃ k, s.heap.ptr^[k] s.heap.freep = a

/-- The request is small, a free block is large enough for it, or `sbrk` is asked for more memory
and fails. -/
def Served (e : Env) (s : Sys) (n : Nat) : Prop :=
  16 * unitsFor n < 2 ^ 31 ∨ (∃ a, OnList s a ∧ unitsFor n ≤ s.heap.size a) ∨
    0 < toInt (16 * coreUnits (unitsFor n)) ∧
      e.sbrk s.calls s.regions (16 * coreUnits (unitsFor n)) = none

lemma Listed.large_iff {e : Env} (h : Listed e s F B) (hn : 0 < n) :
    (∃ c ∈ F, 16 * n ≤ c.2) ↔ ∃ a, OnList s a ∧ n ≤ s.heap.size a := by
  rcases h with ⟨h0, rfl⟩ | hg
  · constructor
    · rintro ⟨c, hc, _⟩
      cases hc
    · rintro ⟨a, ⟨hne, _⟩, _⟩
      exact absurd h0 hne
  · constructor
    · rintro ⟨c, hc, hle⟩
      have hsize := hg.seg.size (List.mem_cons_of_mem _ hc)
      obtain ⟨j, _, hj⟩ := hg.cyclic.reach hg.rover
        (List.mem_cons_of_mem _ (List.mem_map_of_mem hc))
      exact ⟨c.1, ⟨hg.freep_pos, j, hj⟩, by omega⟩
    · rintro ⟨_, ⟨_, k, rfl⟩, hle⟩
      rcases List.mem_cons.mp (hg.cyclic.iterate_mem hg.rover k) with hbase | hmem
      · have hzero := hg.seg.size List.mem_cons_self
        rw [hbase] at hle
        dsimp only at hzero
        omega
      · obtain ⟨c, hc, heq⟩ := List.mem_map.mp hmem
        have hsize := hg.seg.size (List.mem_cons_of_mem _ hc)
        rw [← heq] at hle
        exact ⟨c, hc, by omega⟩

lemma Good.below_break {e : Env} {a : Nat} (hg : Good e t F ((a, 16 * unitsFor n) :: B))
    (h : Below start t.regions) : a + 16 + n ≤ brk start t.regions := by
  -- the last byte of the block lies in a region
  have hunits := le_unitsFor n
  have hlast : a + 16 * unitsFor n - 1 ∈ points (a, 16 * unitsFor n) := by
    rw [mem_points]
    dsimp only
    omega
  obtain ⟨r, hr, hx⟩ := (hg.laid.tiles.cover _).mp
    ⟨_, List.mem_append_right F List.mem_cons_self, hlast⟩
  have := h.2.2.2 r hr
  rw [mem_points] at hx
  omega

lemma Ended.safe_iff {p : Nat} (h : Ended (sysSbrk start grant) s (unitsFor n) F B p t)
    (hL : Listed (sysSbrk start grant) s F B) (hs : Below start s.regions) (hn : n < 2 ^ 32) :
    ((p = 0 ∨ p + n ≤ brk start t.regions) ∧ brk start s.regions ≤ brk start t.regions) ↔
      Served (sysSbrk start grant) s n := by
  have hunits : 16 * unitsFor n ≤ n + 31 := by
    unfold unitsFor
    omega
  have hlarge := hL.large_iff (n := unitsFor n) (Nat.succ_pos _)
  have hbelow := h.below hs
  rcases h.2 with ⟨rfl, _, hnone, ht, _⟩ | ⟨F', a, rfl, hg, ⟨hfound, ht⟩ | ⟨hsmall, h, hsome, ht, hend⟩⟩
  · refine iff_of_true ⟨.inl rfl, by rw [ht]⟩ ?_
    by_cases hlt : 16 * unitsFor n < 2 ^ 31
    · exact .inl hlt
    · -- `sbrk` fails only when it is to grow
      refine .inr (.inr ⟨?_, hnone⟩)
      by_contra hle
      have hcore : coreUnits (unitsFor n) = unitsFor n := if_neg (by omega)
      rw [sysSbrk_some.mpr ⟨⟨.inl (not_lt.mp hle), by omega, hs⟩, rfl⟩] at hnone
      cases hnone
  · rw [← ht] at hs
    exact iff_of_true ⟨.inr (hg.below_break hs), by rw [ht]⟩ (.inr (.inl (hlarge.mp hfound)))
  · by_cases hlt : 16 * unitsFor n < 2 ^ 31
    · obtain ⟨hb, hup⟩ := hbelow hlt
      exact iff_of_true ⟨.inr (hg.below_break hb), hup⟩ (.inl hlt)
    · refine iff_of_false ?_ ?_
      · -- the block ends behind what was asked for, and the break went up by 16 bytes at most
        rintro ⟨h0 | hle, _⟩
        · omega
        · have hcore : coreUnits (unitsFor n) = unitsFor n := if_neg (by omega)
          rw [hcore] at ht hend
          have hup := toInt_le (Nat.not_lt.mp hlt) (by omega)
          rw [ht] at hle
          change a + 16 + n ≤ growproc h (toInt (16 * unitsFor n)) at hle
          unfold growproc at hle
          split at hle
          · omega
          · omega
      · rintro (h1 | h2 | h3)
        · exact hlt h1
        · obtain ⟨c, hc, hle⟩ := hlarge.mpr h2
          have := hsmall c hc
          omega
        · rw [hsome] at h3
          cases h3.2

/-- In every state that a program reaches, `malloc` returns; it gives 0 or memory below the break
and does not lower the break exactly when the request with its header is below 2^31 bytes, or a free
block is large enough, or the argument that `sbrk` gets is positive and refused. -/
theorem malloc_stays_below_the_break_iff (hstart : Below start []) {ptr size : Nat → Nat}
    (hr : Run (sysSbrk start grant) ptr size s) (hn : n < 2 ^ 32) :
    ∃ p t, (malloc (sysSbrk start grant) n).run s = .ok (p, t) ∧
      (((p = 0 ∨ p + n ≤ brk start t.regions) ∧ brk start s.regions ≤ brk start t.regions) ↔
        Served (sysSbrk start grant) s n) := by
  obtain ⟨hbelow, B, _, hi⟩ := hr.below hstart
  obtain ⟨F, hL, hw⟩ := wp_malloc hi (sysSbrk_bounded start grant) (sysSbrk_fresh start grant s _)
  obtain ⟨p, t, hrun, hend⟩ := hw.exists_ok
  exact ⟨p, t, hrun, hend.safe_iff hL hbelow hn⟩

/-- Two blocks of 2^31 - 32 bytes are given back and become one free block, which serves a request
that is too large for `sbrk`. -/
def twoGivenBack : List Call :=
  [.malloc 2147483600, .malloc 2147483600, .free 65552, .free 2147549168]

theorem malloc_stays_below_the_break_iff_joined :
    ∃ s, Run (sysSbrk 65536 fun _ => true) (fun _ => 0) (fun _ => 0) s ∧
      ¬ 16 * unitsFor (2 ^ 31) < 2 ^ 31 ∧
      ∃ p t, (malloc (sysSbrk 65536 fun _ => true) (2 ^ 31)).run s = .ok (p, t) ∧
        (p = 0 ∨ p + 2 ^ 31 ≤ brk 65536 t.regions) ∧
        brk 65536 s.regions ≤ brk 65536 t.regions := by
  obtain ⟨s, hr, ht⟩ := exists_run (sysSbrk 65536 fun _ => true) twoGivenBack
    (fun s => s.heap.freep ≠ 0 ∧ unitsFor (2 ^ 31) ≤ s.heap.size s.heap.freep)
    (by decide +kernel)
  obtain ⟨hne, hle⟩ := of_decide_eq_true ht
  obtain ⟨p, t, hrun, hiff⟩ := malloc_stays_below_the_break_iff (by decide) hr
    (show 2 ^ 31 < 2 ^ 32 by decide)
  exact ⟨s, hr, by decide, p, t, hrun, hiff.mpr (.inr (.inl ⟨_, ⟨hne, 0, rfl⟩, hle⟩))⟩

/-- The first request is for 2^32 - 1 bytes: `sbrk` gets 16. -/
theorem huge_malloc_gives_memory_above_the_break :
    ∃ p t, (malloc (sysSbrk 65536 fun _ => true) (2 ^ 32 - 1)).run
        (umalloc.start (fun _ => 0) fun _ => 0) = .ok (p, t) ∧ p ≠ 0 ∧
      brk 65536 t.regions = p := by
  have h : ∃ r, (malloc (sysSbrk 65536 fun _ => true) (2 ^ 32 - 1)).run
      (umalloc.start (fun _ => 0) fun _ => 0) = .ok r ∧ r.1 ≠ 0 ∧ brk 65536 r.2.regions = r.1 := by
    refine ⟨_, rfl, ?_⟩
    decide +kernel
  obtain ⟨r, h⟩ := h
  exact ⟨r.1, r.2, h⟩

end xv6.umalloc
