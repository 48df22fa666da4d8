-- The arguments of system calls, from `syscall.c`: the registers in the
-- trapframe of the process, and the strings that they point to.
import Xv6.CopyLaws

open cells linked wp List

namespace xv6.proc

open vm

/-! ## The functions -/

/-- The value of argument register `n`. -/
def argraw (p : Proc) (n : Nat) : V Nat :=
  if n < 6 then load p.trapframe (A0 + n) else throw (.panic "argraw")

def argaddr (p : Proc) (n : Nat) : V Nat := argraw p n

def strlen (buf : List UInt8) : Nat := (buf.takeWhile (· ≠ 0)).length

/-- What it returns, and the bytes that it wrote to its buffer. -/
def fetchstr (p : Proc) (addr : Nat) (max : Int) : V (Int × List UInt8) := do
  let (ok, buf) ← copyinstr p.pagetable addr (ofInt max)
  if ok = false then return (-1, buf) else return (int32 (strlen buf), buf)

def argstr (p : Proc) (n : Nat) (max : Int) : V (Int × List UInt8) := do
  let addr ← argaddr p n
  fetchstr p addr max

/-! ## Strings of a process -/

variable {mem : Nat → Nat → Nat} {v : Vm} {p : Proc} {r a k m n : Nat}

/-- The process has a string of length `k` at address `a`. -/
structure UserString (mem : Nat → Nat → Nat) (r a k : Nat) : Prop where
  usable : ∀ i ≤ k, Usable mem r (a + i)
  nonzero : ∀ i < k, byteAt mem r (a + i) ≠ 0
  zero : byteAt mem r (a + k) = 0

lemma UserString.unique (h : UserString mem r a k) (h' : UserString mem r a m) : k = m := by
  by_contra hne
  rcases Nat.lt_or_gt_of_ne hne with hlt | hlt
  · exact h'.nonzero k hlt h.zero
  · exact h.nonzero m hlt h'.zero

lemma exists_userString (hu : ∀ i ≤ k, Usable mem r (a + i)) (h0 : byteAt mem r (a + k) = 0) :
    ∃ m ≤ k, UserString mem r a m := by
  classical
  have hex : ∃ m, byteAt mem r (a + m) = 0 := ⟨k, h0⟩
  have hle : Nat.find hex ≤ k := Nat.find_min' hex h0
  exact ⟨Nat.find hex, hle, fun i hi => hu i (by omega), fun i hi => Nat.find_min hex hi,
    Nat.find_spec hex⟩

lemma cut_bytesAt (hk : k < n) (hne : ∀ i < k, byteAt mem r (a + i) ≠ 0)
    (h0 : byteAt mem r (a + k) = 0) :
    cut (bytesAt mem r a n) = (true, bytesAt mem r a (k + 1)) := by
  induction k generalizing a n with
  | zero =>
    obtain ⟨n, rfl⟩ : ∃ m, n = 1 + m := ⟨n - 1, by omega⟩
    have h1 : bytesAt mem r a 1 = [0] := by
      rw [← h0]
      rfl
    rw [bytesAt_add, h1]
    exact cut_cons_zero _
  | succ k ih =>
    obtain ⟨n, rfl⟩ : ∃ m, n = 1 + m := ⟨n - 1, by omega⟩
    have h1 : bytesAt mem r a 1 = [byteAt mem r a] := rfl
    have hstep : ∀ i, a + (i + 1) = a + 1 + i := fun i => by omega
    rw [bytesAt_add, h1, show k + 1 + 1 = 1 + (k + 1) by omega, bytesAt_add, h1]
    have hc : byteAt mem r a ≠ 0 := hne 0 (by omega)
    have hrest : cut (bytesAt mem r (a + 1) n) = (true, bytesAt mem r (a + 1) (k + 1)) := by
      apply ih (by omega)
      · intro i hi
        rw [← hstep]
        exact hne _ (by omega)
      · rw [← hstep]
        exact h0
    rw [singleton_append, singleton_append, cut_cons_of_ne hc, hrest]

lemma cut_bytesAt_none (h : ∀ i < n, byteAt mem r (a + i) ≠ 0) :
    cut (bytesAt mem r a n) = (false, bytesAt mem r a n) := by
  unfold cut
  rw [if_neg]
  intro hc
  obtain ⟨i, hi, he⟩ := mem_map.mp hc
  exact h i (mem_range.mp hi) he

lemma copyinstr_runs (h : Readable v.mem r) (a max : Nat) :
    (∃ k < max, UserString v.mem r a k ∧
      (copyinstr r a max).run v = .ok ((true, bytesAt v.mem r a (k + 1)), v)) ∨
    (∀ k < max, ¬ UserString v.mem r a k) ∧ ∃ dst, dst.length ≤ max ∧
      (copyinstr r a max).run v = .ok ((false, dst), v) := by
  obtain ⟨res, v', hrun, rfl, rfl⟩ := (wp_copyinstr h a max).exists_ok
  by_cases hex : ∃ k < max, UserString v'.mem r a k
  · left
    obtain ⟨k, hk, hs⟩ := hex
    refine ⟨k, hk, hs, ?_⟩
    rw [hrun, cut_bytesAt (k := k) ?_ hs.nonzero hs.zero]
    by_contra hc
    have hle := reach_le v'.mem r a max
    exact not_usable_reach (n := max) (by omega) (hs.usable _ (by omega))
  · right
    refine ⟨fun k hk hs => hex ⟨k, hk, hs⟩, bytesAt v'.mem r a (reach v'.mem r a max),
      by rw [length_bytesAt]; exact reach_le .., ?_⟩
    rw [hrun, cut_bytesAt_none fun i hi h0 => ?_]
    have hle := reach_le v'.mem r a max
    obtain ⟨m, hm, hs⟩ := exists_userString (k := i)
      (fun j hj => usable_of_lt_reach (n := max) (by omega)) h0
    exact hex ⟨m, by omega, hs⟩

lemma strlen_string (h : ∀ i < k, byteAt mem r (a + i) ≠ 0) (h0 : byteAt mem r (a + k) = 0) :
    strlen (bytesAt mem r a (k + 1)) = k := by
  have hcut := cut_bytesAt (n := k + 1) (by omega) h h0
  unfold cut at hcut
  have hmem : 0 ∈ bytesAt mem r a (k + 1) :=
    mem_map.mpr ⟨k, mem_range.mpr (by omega), h0⟩
  rw [if_pos hmem] at hcut
  have hlen := congrArg (fun q => q.2.length) hcut
  simp only [length_append, length_singleton, length_bytesAt] at hlen
  unfold strlen
  omega

lemma int32_of_small {x : Int} (h0 : 0 ≤ x) (h1 : x < 2 ^ 31) : int32 x = x := by
  unfold int32
  omega

lemma fetchstr_of_string {max : Int} (h : Readable v.mem p.pagetable) (hk : k < ofInt max)
    (hs : UserString v.mem p.pagetable a k) :
    (fetchstr p a max).run v = .ok ((int32 k, bytesAt v.mem p.pagetable a (k + 1)), v) := by
  rcases copyinstr_runs h a (ofInt max) with ⟨m, _, hm, hrun⟩ | ⟨hnone, _⟩
  · rw [← hs.unique hm] at hrun
    unfold fetchstr
    rw [StateT.run_bind, hrun]
    show Except.ok ((int32 (strlen (bytesAt v.mem p.pagetable a (k + 1))),
      bytesAt v.mem p.pagetable a (k + 1)), v) = _
    rw [strlen_string hs.nonzero hs.zero]
  · exact absurd hs (hnone k hk)

lemma fetchstr_runs (h : Readable v.mem p.pagetable) (addr : Nat) {max : Int} (h0 : 0 ≤ max)
    (h1 : max < 2 ^ 31) : ∃ ret buf, (fetchstr p addr max).run v = .ok ((ret, buf), v) ∧
      buf.length ≤ max.toNat ∧
      (ret = -1 ∨ ∃ k : Nat, ret = k ∧ k < max ∧ UserString v.mem p.pagetable addr k) := by
  have hmax : ofInt max = max.toNat := by
    unfold ofInt
    rw [Int.emod_eq_of_lt h0 (by omega)]
  rcases copyinstr_runs h addr (ofInt max) with ⟨k, hk, hs, _⟩ | ⟨_, dst, hlen, hrun⟩
  · have hrun := fetchstr_of_string h hk hs
    rw [int32_of_small (by omega) (by omega)] at hrun
    exact ⟨k, _, hrun, by simp; omega, .inr ⟨k, rfl, by omega, hs⟩⟩
  · refine ⟨-1, dst, ?_, by omega, .inl rfl⟩
    unfold fetchstr
    rw [StateT.run_bind, hrun]
    rfl

/-- In a page table whose user pages are in memory, `copyinstr` succeeds if and only if the process
has a NUL among the first `max` bytes and can use every byte up to it, and then it has copied the
bytes up to the first NUL. It never writes more than `max` bytes. `fetchstr` and `argstr` with a
`max` that is not negative return the length of the string or -1. -/
theorem copyinstr_copies_the_string (h : Readable v.mem p.pagetable) (a max : Nat) :
    (∃ ok dst, (copyinstr p.pagetable a max).run v = .ok ((ok, dst), v) ∧ dst.length ≤ max ∧
      (ok = true ↔ ∃ k < max, (∀ i ≤ k, Usable v.mem p.pagetable (a + i)) ∧
        byteAt v.mem p.pagetable (a + k) = 0) ∧
      (ok = true → ∃ k < max, UserString v.mem p.pagetable a k ∧
        dst = bytesAt v.mem p.pagetable a (k + 1))) ∧
    (∀ m : Int, 0 ≤ m → m < 2 ^ 31 → ∃ ret buf, (fetchstr p a m).run v = .ok ((ret, buf), v) ∧
      buf.length ≤ m.toNat ∧
      (ret = -1 ∨ ∃ k : Nat, ret = k ∧ k < m ∧ UserString v.mem p.pagetable a k)) ∧
    ∀ (n : Nat) (m : Int), n < 6 → inRam p.trapframe = true → 0 ≤ m → m < 2 ^ 31 →
      ∃ ret buf, (argstr p n m).run v = .ok ((ret, buf), v) ∧ buf.length ≤ m.toNat ∧
        (ret = -1 ∨ ∃ k : Nat, ret = k ∧ k < m ∧
          UserString v.mem p.pagetable (v.mem p.trapframe (A0 + n)) k) := by
  refine ⟨?_, fun m h0 h1 => fetchstr_runs h a h0 h1, fun n m hn htf h0 h1 => ?_⟩
  · rcases copyinstr_runs h a max with ⟨k, hk, hs, hrun⟩ | ⟨hnone, dst, hlen, hrun⟩
    · refine ⟨true, _, hrun, by simp; omega, ?_, fun _ => ⟨k, hk, hs, rfl⟩⟩
      exact iff_of_true rfl ⟨k, hk, hs.usable, hs.zero⟩
    · refine ⟨false, dst, hrun, hlen, iff_of_false (by simp) ?_, by simp⟩
      rintro ⟨k, hk, hu, hz⟩
      obtain ⟨m, hm, hs⟩ := exists_userString hu hz
      exact hnone m (by omega) hs
  · obtain ⟨ret, buf, hrun, hrest⟩ := fetchstr_runs h (v.mem p.trapframe (A0 + n)) h0 h1
    refine ⟨ret, buf, ?_, hrest⟩
    have harg : (argaddr p n).run v = .ok (v.mem p.trapframe (A0 + n), v) := by
      unfold argaddr argraw load
      simp [hn, htf]
      rfl
    unfold argstr
    rw [StateT.run_bind, harg]
    exact hrun

def zeroPage : Vm := oneEntry (userPte dataPage PTE_W)

def zeroProc : Proc := { Proc.zero with pagetable := rootPage, trapframe := dataPage, sz := PGSIZE }

theorem copyinstr_copies_the_empty_string :
    Readable zeroPage.mem rootPage ∧
    ∃ ok dst, (copyinstr rootPage 4095 2).run zeroPage = .ok ((ok, dst), zeroPage) ∧
      dst.length ≤ 2 := by
  have h : Readable zeroPage.mem zeroProc.pagetable := oneEntry_readable (by decide)
  obtain ⟨⟨ok, dst, hrun, hlen, _⟩, _⟩ := copyinstr_copies_the_string (p := zeroProc) h 4095 2
  exact ⟨h, ok, dst, hrun, hlen⟩

/-- A user page at address 0 of the machine is refused although it is mapped, and a negative `max`
is no bound: the length of the empty string is not less than -1. -/
theorem page_zero_and_negative_max_fail :
    (Usable (oneEntry (userPte 0 PTE_W)).mem rootPage 0 ∧
      byteAt (oneEntry (userPte 0 PTE_W)).mem rootPage 0 = 0 ∧
      (copyinstr rootPage 0 1).run (oneEntry (userPte 0 PTE_W)) =
        .ok ((false, []), oneEntry (userPte 0 PTE_W))) ∧
    Readable zeroPage.mem zeroProc.pagetable ∧
    ∃ buf, (fetchstr zeroProc 0 (-1)).run zeroPage = .ok ((0, buf), zeroPage) ∧
      ¬ ((0 : Int) = -1 ∨ (0 : Int) < -1) := by
  have hread : Readable zeroPage.mem zeroProc.pagetable := oneEntry_readable (by decide)
  have hstr : UserString zeroPage.mem zeroProc.pagetable 0 0 := by
    refine ⟨fun i hi => ?_, fun i hi => absurd hi (Nat.not_lt_zero _), ?_⟩
    · obtain rfl : i = 0 := by omega
      exact oneEntry_usable.mpr (by decide)
    · show byte (zeroPage.mem (userPage zeroPage.mem zeroProc.pagetable 0)) 0 = 0
      rw [show userPage zeroPage.mem zeroProc.pagetable 0 = _ from oneEntry_page (by decide)]
      decide
  have hmax : 0 < ofInt (-1) := by decide
  have hrun := fetchstr_of_string hread hmax hstr
  rw [int32_of_small (by decide) (by decide)] at hrun
  refine ⟨⟨?_, ?_, rfl⟩, hread, _, hrun, by decide⟩
  · rw [oneEntry_usable]
    decide
  · unfold byteAt
    rw [oneEntry_page (by decide)]
    decide

end xv6.proc
