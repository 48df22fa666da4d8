-- The copies between the kernel and a process do what a copy of single bytes
-- does. They check that the process can use an address, but not that it may
-- write there, so a system call can write to read-only pages.
import Xv6.UserBytes

open cells linked wp

namespace xv6.vm

variable {mem : Nat → Nat → Nat} {v v' : Vm} {r a b n len : Nat} {src : List UInt8}

/-! ## The copies are byte-wise -/

lemma copyout_runs (h : Space v.mem r) (a : Nat) (src : List UInt8) :
    ∃ v', (copyout r a src).run v =
        .ok (decide (reach v.mem r a src.length = src.length), v') ∧
      Stored r a (src.take (reach v.mem r a src.length)) v v' := by
  obtain ⟨ok, v', hrun, rfl, hst⟩ := (wp_copyout_reach h a src).exists_ok
  exact ⟨v', hrun, hst⟩

lemma copyin_runs (h : Readable v.mem r) (a len : Nat) :
    (copyin r a len).run v = .ok ((decide (reach v.mem r a len = len),
      bytesAt v.mem r a (reach v.mem r a len)), v) := by
  obtain ⟨res, v', hrun, rfl, rfl⟩ := (wp_copyin h a len).exists_ok
  exact hrun

/-- In a page table whose user pages are distinct pages of memory and no pages of the table,
`copyout` and `copyin` succeed if and only if the process can use every byte of the range.
`copyout` writes the bytes that come before the first page that it cannot use and nothing else,
and `copyin` reads the bytes of the range, those that a `copyout` has just written among them. -/
theorem copies_are_byte_by_byte (h : Space v.mem r) (a : Nat) (src : List UInt8) (len : Nat) :
    (∃ ok v' k, (copyout r a src).run v = .ok (ok, v') ∧
      (ok = true ↔ src.length = 0 ∨ ∀ i < src.length, Usable v.mem r (a + i)) ∧
      k ≤ src.length ∧ (∀ i < k, Usable v.mem r (a + i)) ∧
      (ok = true → k = src.length) ∧
      (ok = false → k < src.length ∧ ¬ Usable v.mem r (a + k) ∧ (k = 0 ∨ (a + k) % PGSIZE = 0)) ∧
      Stored r a (src.take k) v v' ∧
      (ok = true → (copyin r a src.length).run v' = .ok ((true, src), v'))) ∧
    ∃ ok bs, (copyin r a len).run v = .ok ((ok, bs), v) ∧
      (ok = true ↔ len = 0 ∨ ∀ i < len, Usable v.mem r (a + i)) ∧
      (ok = true → bs = bytesAt v.mem r a len) := by
  have hall : ∀ n, reach v.mem r a n = n ↔ n = 0 ∨ ∀ i < n, Usable v.mem r (a + i) := by
    intro n
    rw [reach_eq_iff]
    constructor
    · exact .inr
    · rintro (h0 | h1) i hi
      · omega
      · exact h1 i hi
  refine ⟨?_, ?_⟩
  · obtain ⟨v', hrun, hst⟩ := copyout_runs h a src
    have hle := reach_le v.mem r a src.length
    refine ⟨_, v', reach v.mem r a src.length, hrun, ?_, hle, fun i => usable_of_lt_reach, ?_, ?_,
      hst, ?_⟩
    · rw [decide_eq_true_eq, hall]
    · exact fun hok => of_decide_eq_true hok
    · intro hok
      have hlt := Nat.lt_of_le_of_ne hle (of_decide_eq_false hok)
      exact ⟨hlt, not_usable_reach hlt, or_iff_not_imp_left.mpr (reach_page_start hlt)⟩
    · intro hok
      have hk := of_decide_eq_true hok
      rw [hk, List.take_length] at hst
      have hu := reach_eq_iff.mp hk
      have htab := hst.tables h hu
      rw [copyin_runs (h.congr htab).toReadable, reach_congr htab, hk, hst.bytesAt h hu]
      simp
  · refine ⟨_, _, copyin_runs h.toReadable a len, ?_, ?_⟩
    · rw [decide_eq_true_eq, hall]
    · intro hok
      rw [of_decide_eq_true hok]

/-! ## A table that maps one page -/

/-- The pages of a small table, and a page of data. -/
def rootPage : Nat := KERNBASE
def midPage : Nat := KERNBASE + PGSIZE
def lowPage : Nat := KERNBASE + 2 * PGSIZE
def dataPage : Nat := KERNBASE + 3 * PGSIZE

/-- A memory that only holds the page table with the entry `w` for page 0. -/
def oneEntry (w : Nat) : Vm where
  mem := fun x i =>
    if i ≠ 0 then 0
    else if x = rootPage then dir midPage
    else if x = midPage then dir lowPage
    else if x = lowPage then w
    else 0
  freelist := 0

section one

variable {w x i : Nat}

lemma oneEntry_word (h : (oneEntry w).mem x i ≠ 0) : i = 0 := by
  by_contra hi
  exact h (if_pos hi)

lemma oneEntry_root : (oneEntry w).mem rootPage 0 = dir midPage := rfl

lemma oneEntry_mid : (oneEntry w).mem midPage 0 = dir lowPage := rfl

lemma oneEntry_low : (oneEntry w).mem lowPage 0 = w := rfl

lemma oneEntry_visits (h : Visits (oneEntry w).mem rootPage x) :
    x = rootPage ∨ x = midPage ∨ x = lowPage := by
  have hmid : PTE2PA (dir midPage) = midPage := by decide
  have hlow : PTE2PA (dir lowPage) = lowPage := by decide
  cases h with
  | root => exact .inl rfl
  | mid hi hv =>
    rw [oneEntry_word (valid_ne_zero hv), oneEntry_root, hmid]
    exact .inr (.inl rfl)
  | low hi hj hv hv' =>
    rw [oneEntry_word (valid_ne_zero hv), oneEntry_root, hmid] at hv' ⊢
    rw [oneEntry_word (valid_ne_zero hv'), oneEntry_mid, hlow]
    exact .inr (.inr rfl)

lemma oneEntry_entry (w n : Nat) : entry (oneEntry w).mem rootPage n = if n = 0 then w else 0 := by
  have hroot : ∀ i, lower (oneEntry w).mem rootPage i = if i = 0 then midPage else 0 := by
    intro i
    by_cases hi : i = 0
    · rw [hi, if_pos rfl, lower, oneEntry_root]
      decide
    · rw [if_neg hi]
      exact if_neg fun hc => hi (oneEntry_word (valid_ne_zero hc.2))
  have hmid : ∀ i, lower (oneEntry w).mem midPage i = if i = 0 then lowPage else 0 := by
    intro i
    by_cases hi : i = 0
    · rw [hi, if_pos rfl, lower, oneEntry_mid]
      decide
    · rw [if_neg hi]
      exact if_neg fun hc => hi (oneEntry_word (valid_ne_zero hc.2))
  have hm0 : midPage ≠ 0 := by decide
  have hl0 : lowPage ≠ 0 := by decide
  unfold entry
  rw [pageAt_low, hroot]
  by_cases h1 : n / 2 ^ 18 = 0
  · rw [if_pos h1, if_neg hm0, hmid]
    by_cases h2 : n / 2 ^ 9 % 512 = 0
    · rw [if_pos h2, if_neg hl0]
      by_cases h3 : n = 0
      · rw [if_pos h3, h3]
        exact oneEntry_low
      · rw [if_neg h3]
        exact if_pos (by omega)
    · rw [if_neg h2, if_pos rfl, if_neg (by omega)]
  · rw [if_neg h1, if_pos rfl, if_pos rfl, if_neg (by omega)]

lemma oneEntry_usable : Usable (oneEntry w).mem rootPage a ↔
    a < PGSIZE ∧ w &&& PTE_V ≠ 0 ∧ w &&& PTE_U ≠ 0 := by
  unfold Usable
  rw [oneEntry_entry]
  by_cases ha : a / PGSIZE = 0
  · have h1 : a < PGSIZE := by
      unfold PGSIZE at *
      omega
    have h2 : a < MAXVA := by
      unfold MAXVA PGSIZE at *
      omega
    rw [if_pos ha]
    simp [h1, h2]
  · have h1 : ¬ a < PGSIZE := by
      unfold PGSIZE at *
      omega
    rw [if_neg ha]
    simp [h1]

lemma oneEntry_page (h : a < PGSIZE) : userPage (oneEntry w).mem rootPage a = PTE2PA w := by
  unfold userPage
  rw [oneEntry_entry, Nat.div_eq_of_lt h, if_pos rfl]

lemma oneEntry_readable (h : inRam (PTE2PA w) = true) : Readable (oneEntry w).mem rootPage := by
  refine ⟨fun x hx => ?_, fun a ha => ?_⟩
  · rcases oneEntry_visits hx with rfl | rfl | rfl
    · decide
    · decide
    · decide
  · rw [oneEntry_page (oneEntry_usable.mp ha).1]
    exact h

lemma oneEntry_space (h : inRam (PTE2PA w) = true)
    (hne : PTE2PA w ≠ rootPage ∧ PTE2PA w ≠ midPage ∧ PTE2PA w ≠ lowPage) :
    Space (oneEntry w).mem rootPage := by
  refine ⟨oneEntry_readable h, fun a ha hv => ?_, fun a b ha hb _ => ?_⟩
  · rw [oneEntry_page (oneEntry_usable.mp ha).1] at hv
    rcases oneEntry_visits hv with h1 | h1 | h1
    · exact hne.1 h1
    · exact hne.2.1 h1
    · exact hne.2.2 h1
  · rw [Nat.div_eq_of_lt (oneEntry_usable.mp ha).1, Nat.div_eq_of_lt (oneEntry_usable.mp hb).1]

end one

theorem copies_are_byte_by_byte_at_the_end :
    Space (oneEntry (userPte dataPage PTE_W)).mem rootPage ∧
    ∃ ok v' k, (copyout rootPage 4095 [1, 2, 3]).run (oneEntry (userPte dataPage PTE_W)) =
        .ok (ok, v') ∧ k ≤ 3 ∧
      Stored rootPage 4095 ([1, 2, 3].take k) (oneEntry (userPte dataPage PTE_W)) v' := by
  have hs : Space (oneEntry (userPte dataPage PTE_W)).mem rootPage :=
    oneEntry_space (by decide) (by decide)
  obtain ⟨⟨ok, v', k, hrun, _, hk, _, _, _, hst, _⟩, _⟩ := copies_are_byte_by_byte hs 4095 [1, 2, 3] 0
  exact ⟨hs, ok, v', k, hrun, hk, hst⟩

/-- A table that maps its own last page for the process: a copy to the entry changes the map, and
the same range cannot be read back. -/
theorem copies_to_the_table_are_not_read_back :
    (∀ a b, Usable (oneEntry (userPte lowPage PTE_W)).mem rootPage a →
      Usable (oneEntry (userPte lowPage PTE_W)).mem rootPage b →
      userPage (oneEntry (userPte lowPage PTE_W)).mem rootPage a ≠ 0 ∧
      (userPage (oneEntry (userPte lowPage PTE_W)).mem rootPage a =
        userPage (oneEntry (userPte lowPage PTE_W)).mem rootPage b → a / PGSIZE = b / PGSIZE)) ∧
    (∀ i < 8, Usable (oneEntry (userPte lowPage PTE_W)).mem rootPage (0 + i)) ∧
    ∃ v', (copyout rootPage 0 [0, 0, 0, 0, 0, 0, 0, 0]).run (oneEntry (userPte lowPage PTE_W)) =
        .ok (true, v') ∧
      (copyin rootPage 0 8).run v' = .ok ((false, []), v') := by
  have hpte : PTE2PA (userPte lowPage PTE_W) = lowPage := by decide
  refine ⟨fun a b ha hb => ⟨?_, fun _ => ?_⟩, fun i hi => ?_, _, rfl, rfl⟩
  · rw [oneEntry_page (oneEntry_usable.mp ha).1, hpte]
    decide
  · rw [Nat.div_eq_of_lt (oneEntry_usable.mp ha).1, Nat.div_eq_of_lt (oneEntry_usable.mp hb).1]
  · rw [oneEntry_usable]
    refine ⟨?_, by decide, by decide⟩
    unfold PGSIZE
    omega

/-! ## Read-only pages -/

/-- The process may write to the address. -/
def Writable (mem : Nat → Nat → Nat) (r a : Nat) : Prop := entry mem r (a / PGSIZE) &&& PTE_W ≠ 0

/-- `copyout` leaves the pages that the process may not write as they are if and only if every
byte that it gets to goes to a page that the process may write, or is there already. -/
theorem copyout_spares_read_only_pages_iff (h : Space v.mem r) (a : Nat) (src : List UInt8) :
    (∃ ok v', (copyout r a src).run v = .ok (ok, v') ∧
      ∀ b, Usable v.mem r b → ¬ Writable v.mem r b → ∀ o,
        byte (v'.mem (userPage v.mem r b)) o = byte (v.mem (userPage v.mem r b)) o) ↔
    ∀ i < reach v.mem r a src.length,
      Writable v.mem r (a + i) ∨ src[i]? = some (byteAt v.mem r (a + i)) := by
  obtain ⟨v', hrun, hst⟩ := copyout_runs h a src
  have hle := reach_le v.mem r a src.length
  generalize hk : reach v.mem r a src.length = k at *
  have hlen : (src.take k).length = k := by
    rw [List.length_take]
    omega
  have hu : ∀ i < k, Usable v.mem r (a + i) := by
    rw [← hk]
    exact fun i => usable_of_lt_reach
  have hget : ∀ i < k, src[i]? = some (byte (v'.mem (userPage v.mem r (a + i))) ((a + i) % PGSIZE)) := by
    intro i hi
    rw [hst.bytes i (by omega), List.getElem_take, List.getElem?_eq_getElem]
  constructor
  · rintro ⟨ok, w, hrun', hsame⟩ i hi
    rw [hrun] at hrun'
    cases hrun'
    by_cases hw : Writable v.mem r (a + i)
    · exact .inl hw
    · right
      rw [hget i hi, hsame _ (hu i hi) hw]
      rfl
  · intro hc
    refine ⟨_, v', hrun, fun b hb hw o => ?_⟩
    by_cases hin : ∃ i < k, userPage v.mem r b = userPage v.mem r (a + i) ∧ o = (a + i) % PGSIZE
    · obtain ⟨i, hi, hp, rfl⟩ := hin
      have hdiv := h.inj _ _ hb (hu i hi) hp
      have hbyte := (hc i hi).resolve_left fun hc' => hw (by unfold Writable at *; rwa [hdiv])
      rw [hget i hi] at hbyte
      rw [hp]
      exact Option.some.inj hbyte
    · apply hst.same
      intro i hi hp ho
      exact hin ⟨i, by omega, hp, ho⟩

theorem copyout_spares_read_only_pages_of_data :
    ∃ ok v', (copyout rootPage 5 [7]).run (oneEntry (userPte dataPage PTE_W)) = .ok (ok, v') ∧
      ∀ b, Usable (oneEntry (userPte dataPage PTE_W)).mem rootPage b →
        ¬ Writable (oneEntry (userPte dataPage PTE_W)).mem rootPage b → ∀ o,
        byte (v'.mem (userPage (oneEntry (userPte dataPage PTE_W)).mem rootPage b)) o =
          byte ((oneEntry (userPte dataPage PTE_W)).mem
            (userPage (oneEntry (userPte dataPage PTE_W)).mem rootPage b)) o := by
  refine (copyout_spares_read_only_pages_iff (oneEntry_space (by decide) (by decide)) 5 [7]).mpr ?_
  intro i hi
  left
  have hi : i < 1 := Nat.lt_of_lt_of_le hi (reach_le ..)
  unfold Writable
  rw [oneEntry_entry, if_pos (by unfold PGSIZE; omega)]
  decide

/-- The text of a program is mapped with the flags of an executable segment. A copy to its first
byte succeeds and changes it. -/
theorem copyout_writes_text :
    Usable (oneEntry (userPte dataPage (proc.flags2perm 1))).mem rootPage 0 ∧
    ¬ Writable (oneEntry (userPte dataPage (proc.flags2perm 1))).mem rootPage 0 ∧
    userPage (oneEntry (userPte dataPage (proc.flags2perm 1))).mem rootPage 0 = dataPage ∧
    ∃ v', (copyout rootPage 0 [7]).run (oneEntry (userPte dataPage (proc.flags2perm 1))) =
        .ok (true, v') ∧
      byte ((oneEntry (userPte dataPage (proc.flags2perm 1))).mem dataPage) 0 = 0 ∧
      byte (v'.mem dataPage) 0 = 7 := by
  refine ⟨?_, ?_, ?_, _, rfl, by decide, by decide⟩
  · rw [oneEntry_usable]
    decide
  · unfold Writable
    rw [oneEntry_entry]
    decide
  · rw [oneEntry_page (by decide)]
    decide

end xv6.vm
