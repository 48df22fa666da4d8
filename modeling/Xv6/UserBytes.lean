-- The memory of a process byte by byte. `copyout`, `copyin` and `copyinstr` go
-- through it in pieces of pages, and do what a copy of single bytes does, up to
-- the first address that the process cannot use.
import Xv6.UserAccess
import Xv6.Walks

open cells linked wp List

namespace xv6.vm

variable {mem mem' : Nat → Nat → Nat} {v v' v'' : Vm} {r x a b m n len fuel : Nat}
  {E : Stop → Prop}

/-! ## Bytes of a page -/

section bytes

variable {f : Nat → Nat} {w j k off o : Nat} {c : UInt8}

lemma setByte_div_self (w k : Nat) (c : UInt8) :
    setByte w k c / 256 ^ k = w / 256 ^ (k + 1) * 256 + c.toNat := by
  have hpos : 0 < 256 ^ k := by positivity
  have hlt : w % 256 ^ k < 256 ^ k := Nat.mod_lt _ hpos
  unfold setByte
  rw [show w / 256 ^ (k + 1) * 256 ^ (k + 1) + c.toNat * 256 ^ k + w % 256 ^ k =
      w % 256 ^ k + (w / 256 ^ (k + 1) * 256 + c.toNat) * 256 ^ k by ring,
    Nat.add_mul_div_right _ _ hpos, Nat.div_eq_of_lt hlt, Nat.zero_add]

lemma setByte_div_of_gt (h : k < j) (w : Nat) (c : UInt8) :
    setByte w k c / 256 ^ j = w / 256 ^ j := by
  obtain ⟨d, rfl⟩ := Nat.exists_eq_add_of_lt h
  have hc := c.toNat_lt
  have hk : setByte w k c / 256 ^ (k + 1) = w / 256 ^ (k + 1) := by
    rw [Nat.pow_succ (n := 256) (m := k), ← Nat.div_div_eq_div_mul, setByte_div_self,
      Nat.pow_succ]
    omega
  rw [show k + d + 1 = k + 1 + d by omega, Nat.pow_add, ← Nat.div_div_eq_div_mul, hk,
    Nat.div_div_eq_div_mul]

lemma setByte_div_of_lt (h : j < k) (w : Nat) (c : UInt8) :
    setByte w k c / 256 ^ j % 256 = w / 256 ^ j % 256 := by
  obtain ⟨d, rfl⟩ := Nat.exists_eq_add_of_lt h
  have hmod : setByte w (j + d + 1) c % 256 ^ (j + 1) = w % 256 ^ (j + 1) := by
    unfold setByte
    rw [show w / 256 ^ (j + d + 1 + 1) * 256 ^ (j + d + 1 + 1) + c.toNat * 256 ^ (j + d + 1) +
        w % 256 ^ (j + d + 1) = w % 256 ^ (j + d + 1) +
          256 ^ (j + 1) * (256 ^ d * (w / 256 ^ (j + d + 1 + 1) * 256 + c.toNat)) by ring,
      Nat.add_mul_mod_self_left]
    exact Nat.mod_mod_of_dvd _ (Nat.pow_dvd_pow _ (by omega))
  rw [← Nat.mod_mul_right_div_self, ← Nat.mod_mul_right_div_self, ← Nat.pow_succ, hmod]

lemma UInt8_ofNat_congr (h : m % 256 = n % 256) : UInt8.ofNat m = UInt8.ofNat n := by
  apply UInt8.toNat_inj.mp
  simpa using h

lemma byte_put (f : Nat → Nat) (off o : Nat) (c : UInt8) :
    byte (put f (off / 8) (setByte (f (off / 8)) (off % 8) c)) o =
      if o = off then c else byte f o := by
  unfold byte
  by_cases hw : o / 8 = off / 8
  · rw [hw, put_self]
    by_cases ho : o = off
    · rw [if_pos ho, ho, setByte_div_self]
      apply UInt8.toNat_inj.mp
      have hc := c.toNat_lt
      simp only [UInt8.toNat_ofNat']
      omega
    · rw [if_neg ho]
      apply UInt8_ofNat_congr
      by_cases hlt : o % 8 < off % 8
      · exact setByte_div_of_lt hlt _ _
      · rw [setByte_div_of_gt (by omega)]
  · rw [put_of_ne hw, if_neg fun hc => hw (by rw [hc])]

lemma byte_patch (f : Nat → Nat) (off o : Nat) (bs : List UInt8) :
    byte (patch f off bs) o =
      if off ≤ o ∧ o < off + bs.length then bs.getD (o - off) 0 else byte f o := by
  induction bs generalizing f off with
  | nil =>
    rw [patch, if_neg (by simp)]
  | cons c bs ih =>
    rw [patch, ih, byte_put]
    by_cases h0 : o = off
    · rw [if_neg (by omega), if_pos h0, if_pos (by simp; omega), h0]
      simp
    · by_cases h1 : off + 1 ≤ o ∧ o < off + 1 + bs.length
      · rw [if_pos h1, if_pos (by simp; omega), show o - off = o - (off + 1) + 1 by omega]
        simp
      · rw [if_neg h1, if_neg h0, if_neg (by simp; omega)]

end bytes

/-! ## The pages of a walk -/

lemma inRam_ne_zero (h : inRam x = true) : x ≠ 0 := by
  rintro rfl
  exact absurd h (by decide)

/-- A page that a walk of the table with root `r` reads. -/
inductive Visits (mem : Nat → Nat → Nat) (r : Nat) : Nat → Prop where
  | root : Visits mem r r
  | mid {i : Nat} : i < NPTE → mem r i &&& PTE_V ≠ 0 → Visits mem r (PTE2PA (mem r i))
  | low {i j : Nat} : i < NPTE → j < NPTE → mem r i &&& PTE_V ≠ 0 →
      mem (PTE2PA (mem r i)) j &&& PTE_V ≠ 0 →
      Visits mem r (PTE2PA (mem (PTE2PA (mem r i)) j))

lemma Visits.back (hs : ∀ x, Visits mem r x → mem' x = mem x) (h : Visits mem' r x) :
    Visits mem r x := by
  have hr : mem' r = mem r := hs r .root
  cases h with
  | root => exact .root
  | mid hi hv =>
    rw [hr] at hv ⊢
    exact .mid hi hv
  | low hi hj hv hv' =>
    rw [hr] at hv hv' ⊢
    rw [hs _ (.mid hi hv)] at hv' ⊢
    exact .low hi hj hv hv'

section lower

variable {i j P : Nat}

lemma lower_of_valid (hi : i < NPTE) (hv : mem P i &&& PTE_V ≠ 0) :
    lower mem P i = PTE2PA (mem P i) := if_pos ⟨hi, hv⟩

lemma lower_ne_zero (h : lower mem P i ≠ 0) : i < NPTE ∧ mem P i &&& PTE_V ≠ 0 := by
  by_contra hc
  exact h (if_neg hc)

lemma pageAt_low : pageAt mem r (.low i j) =
    if lower mem r i = 0 then 0 else lower mem (lower mem r i) j := rfl

lemma visits_lower (h : lower mem r i ≠ 0) : Visits mem r (lower mem r i) := by
  obtain ⟨hi, hv⟩ := lower_ne_zero h
  rw [lower_of_valid hi hv]
  exact .mid hi hv

lemma visits_pageAt (h : pageAt mem r (.low i j) ≠ 0) :
    Visits mem r (pageAt mem r (.low i j)) := by
  rw [pageAt_low] at h ⊢
  by_cases h1 : lower mem r i = 0
  · rw [if_pos h1] at h
    exact absurd rfl h
  · rw [if_neg h1] at h ⊢
    obtain ⟨hi, hv⟩ := lower_ne_zero h1
    obtain ⟨hj, hv'⟩ := lower_ne_zero h
    rw [lower_of_valid hj hv']
    rw [lower_of_valid hi hv] at hv' ⊢
    exact .low hi hj hv hv'

end lower

lemma entry_congr (hs : ∀ x, Visits mem r x → mem' x = mem x) (n : Nat) :
    entry mem' r n = entry mem r n := by
  have hlower : ∀ x, Visits mem r x → ∀ i, lower mem' x i = lower mem x i := by
    intro x hx i
    unfold lower
    rw [hs x hx]
  have hpage : ∀ i j, pageAt mem' r (.low i j) = pageAt mem r (.low i j) := by
    intro i j
    rw [pageAt_low, pageAt_low, hlower r .root]
    by_cases h0 : lower mem r i = 0
    · rw [if_pos h0, if_pos h0]
    · rw [if_neg h0, if_neg h0, hlower _ (visits_lower h0)]
  unfold entry
  rw [hpage]
  by_cases h0 : pageAt mem r (.low (n / 2 ^ 18) (n / 2 ^ 9 % 512)) = 0
  · rw [if_pos h0, if_pos h0]
  · rw [if_neg h0, if_neg h0, hs _ (visits_pageAt h0)]

/-! ## Addresses of a process -/

/-- The process can use the address. -/
def Usable (mem : Nat → Nat → Nat) (r a : Nat) : Prop :=
  a < MAXVA ∧ entry mem r (a / PGSIZE) &&& PTE_V ≠ 0 ∧ entry mem r (a / PGSIZE) &&& PTE_U ≠ 0

instance (mem : Nat → Nat → Nat) (r a : Nat) : Decidable (Usable mem r a) :=
  inferInstanceAs (Decidable (_ ∧ _ ∧ _))

def userPage (mem : Nat → Nat → Nat) (r a : Nat) : Nat := PTE2PA (entry mem r (a / PGSIZE))

/-- The byte at the address. -/
def byteAt (mem : Nat → Nat → Nat) (r a : Nat) : UInt8 :=
  byte (mem (userPage mem r a)) (a % PGSIZE)

/-- The page table and what a process can use are in memory. -/
structure Readable (mem : Nat → Nat → Nat) (r : Nat) : Prop where
  tables : ∀ x, Visits mem r x → inRam x = true
  pages : ∀ a, Usable mem r a → inRam (userPage mem r a) = true

/-- The pages that a process can use are distinct, and none is a page of the table. -/
structure Space (mem : Nat → Nat → Nat) (r : Nat) : Prop extends Readable mem r where
  apart : ∀ a, Usable mem r a → ¬ Visits mem r (userPage mem r a)
  inj : ∀ a b, Usable mem r a → Usable mem r b → userPage mem r a = userPage mem r b →
    a / PGSIZE = b / PGSIZE

lemma Usable.of_page (h : Usable mem r a) (hab : b / PGSIZE = a / PGSIZE) : Usable mem r b := by
  obtain ⟨h1, h2, h3⟩ := h
  refine ⟨?_, by rwa [hab], by rwa [hab]⟩
  unfold MAXVA PGSIZE at *
  omega

lemma userPage_of_page (hab : b / PGSIZE = a / PGSIZE) : userPage mem r b = userPage mem r a := by
  unfold userPage
  rw [hab]

lemma usable_congr (hs : ∀ x, Visits mem r x → mem' x = mem x) (a : Nat) :
    Usable mem' r a ↔ Usable mem r a := by
  unfold Usable
  rw [entry_congr hs]

lemma userPage_congr (hs : ∀ x, Visits mem r x → mem' x = mem x) (a : Nat) :
    userPage mem' r a = userPage mem r a := by
  unfold userPage
  rw [entry_congr hs]

lemma Space.congr (h : Space mem r) (hs : ∀ x, Visits mem r x → mem' x = mem x) :
    Space mem' r := by
  refine ⟨⟨fun x hx => h.tables x (hx.back hs), fun a ha => ?_⟩, fun a ha hv => ?_,
    fun a b ha hb he => ?_⟩
  · rw [userPage_congr hs]
    exact h.pages a ((usable_congr hs a).mp ha)
  · rw [userPage_congr hs] at hv
    exact h.apart a ((usable_congr hs a).mp ha) (hv.back hs)
  · rw [userPage_congr hs, userPage_congr hs] at he
    exact h.inj a b ((usable_congr hs a).mp ha) ((usable_congr hs b).mp hb) he

lemma Space.same (h : Space mem r) (ha : Usable mem r a) (hb : Usable mem r b)
    (hp : userPage mem r a = userPage mem r b) (ho : a % PGSIZE = b % PGSIZE) : a = b := by
  have hn := h.inj a b ha hb hp
  unfold PGSIZE at *
  omega

lemma wp_walkLevel_read {P i : Nat} (hP : inRam P = true) (hi : i < NPTE)
    (hne : v.mem P i &&& PTE_V ≠ 0 → PTE2PA (v.mem P i) ≠ 0) :
    Wp (walkLevel P i false) (fun o v' => v' = v ∧
      o = if lower v.mem P i = 0 then none else some (lower v.mem P i)) E v := by
  unfold walkLevel
  rw [wp_load_bind hP]
  by_cases hv : v.mem P i &&& PTE_V ≠ 0
  · rw [if_pos hv, wp_pure, lower_of_valid hi hv, if_neg (hne hv)]
    exact ⟨rfl, rfl⟩
  · have h0 : lower v.mem P i = 0 := if_neg fun hc => hv hc.2
    rw [if_neg hv, if_pos rfl, wp_pure, if_pos h0]
    exact ⟨rfl, rfl⟩

lemma wp_walk_read {va : Nat} (h : ∀ x, Visits v.mem r x → inRam x = true) (hva : va < MAXVA) :
    Wp (walk r va false) (fun o v' => v' = v ∧
      o = if pageAt v.mem r (.low (va / PGSIZE / 2 ^ 18) (va / PGSIZE / 2 ^ 9 % 512)) = 0 then none
        else some (pageAt v.mem r (.low (va / PGSIZE / 2 ^ 18) (va / PGSIZE / 2 ^ 9 % 512)),
          va / PGSIZE % 512)) E v := by
  obtain ⟨hx2, hx1, hx0⟩ := PX_page (show va < 2 ^ 39 by unfold MAXVA at hva; omega)
  have hi : va / PGSIZE / 2 ^ 18 < NPTE := by
    unfold MAXVA at hva
    unfold PGSIZE NPTE
    omega
  have hj : va / PGSIZE / 2 ^ 9 % 512 < NPTE := Nat.mod_lt _ (by decide)
  rw [walk, if_neg (by omega), hx2, hx1, hx0, pageAt_low]
  refine (wp_walkLevel_read (h r .root) hi fun hv => inRam_ne_zero (h _ (.mid hi hv))).bind ?_
  rintro o v1 ⟨rfl, rfl⟩
  by_cases h1 : lower v1.mem r (va / PGSIZE / 2 ^ 18) = 0
  · rw [if_pos h1]
    simp only [h1, wp_pure]
    simp
  · have hin := h _ (visits_lower h1)
    rw [if_neg h1]
    simp only [if_neg h1]
    refine (wp_walkLevel_read hin hj fun hv => ?_).bind ?_
    · obtain ⟨hi', hv'⟩ := lower_ne_zero h1
      rw [lower_of_valid hi' hv'] at hv ⊢
      exact inRam_ne_zero (h _ (.low hi' hj hv' hv))
    · rintro o v2 ⟨rfl, rfl⟩
      by_cases h2 : lower v2.mem (lower v2.mem r (va / PGSIZE / 2 ^ 18)) (va / PGSIZE / 2 ^ 9 % 512) = 0
      · simp only [h2, if_true, wp_pure, and_self]
      · simp only [h2, if_false, wp_pure, and_self]

lemma wp_walkaddr_usable (h : ∀ x, Visits v.mem r x → inRam x = true) (va : Nat) :
    Wp (walkaddr r va) (fun pa v' => v' = v ∧
      pa = if Usable v.mem r va then userPage v.mem r va else 0) E v := by
  unfold walkaddr
  by_cases hva : MAXVA ≤ va
  · rw [if_pos hva, wp_pure, if_neg fun hc => absurd hc.1 (by omega)]
    exact ⟨rfl, rfl⟩
  rw [if_neg hva]
  refine (wp_walk_read h (by omega)).bind ?_
  rintro o v1 ⟨rfl, rfl⟩
  by_cases hp : pageAt v1.mem r (.low (va / PGSIZE / 2 ^ 18) (va / PGSIZE / 2 ^ 9 % 512)) = 0
  · have h0 : entry v1.mem r (va / PGSIZE) = 0 := if_pos hp
    rw [if_pos hp]
    rw [wp_pure, if_neg fun hc => hc.2.1 (by rw [h0]; exact Nat.zero_and _)]
    exact ⟨rfl, rfl⟩
  · have he : entry v1.mem r (va / PGSIZE) =
        v1.mem (pageAt v1.mem r (.low (va / PGSIZE / 2 ^ 18) (va / PGSIZE / 2 ^ 9 % 512)))
          (va / PGSIZE % 512) := if_neg hp
    rw [if_neg hp]
    rw [wp_load_bind (h _ (visits_pageAt hp)), ← he]
    by_cases hV : entry v1.mem r (va / PGSIZE) &&& PTE_V = 0
    · rw [if_pos hV, wp_pure, if_neg fun hc => hc.2.1 hV]
      exact ⟨rfl, rfl⟩
    · by_cases hU : entry v1.mem r (va / PGSIZE) &&& PTE_U = 0
      · rw [if_neg hV, if_pos hU, wp_pure, if_neg fun hc => hc.2.2 hU]
        exact ⟨rfl, rfl⟩
      · rw [if_neg hV, if_neg hU, wp_pure, if_pos ⟨by omega, hV, hU⟩]
        exact ⟨rfl, rfl⟩

/-! ## How far a copy gets -/

/-- How many of `n` addresses from `a` on come before the first that the process cannot use. -/
def reach (mem : Nat → Nat → Nat) (r a : Nat) : Nat → Nat
  | 0 => 0
  | n + 1 => if Usable mem r a then reach mem r (a + 1) n + 1 else 0

lemma reach_le (mem : Nat → Nat → Nat) (r a n : Nat) : reach mem r a n ≤ n := by
  induction n generalizing a with
  | zero => exact Nat.le_refl 0
  | succ n ih =>
    unfold reach
    have h1 := ih (a + 1)
    split
    · omega
    · omega

lemma usable_of_lt_reach {i : Nat} (h : i < reach mem r a n) : Usable mem r (a + i) := by
  induction n generalizing a i with
  | zero => exact absurd h (Nat.not_lt_zero _)
  | succ n ih =>
    unfold reach at h
    split at h
    · rename_i hu
      cases i with
      | zero => exact hu
      | succ i =>
        rw [show a + (i + 1) = a + 1 + i by omega]
        exact ih (by omega)
    · exact absurd h (Nat.not_lt_zero _)

lemma not_usable_reach (h : reach mem r a n < n) : ¬ Usable mem r (a + reach mem r a n) := by
  induction n generalizing a with
  | zero => exact absurd h (Nat.not_lt_zero _)
  | succ n ih =>
    unfold reach at h ⊢
    split at h
    · rename_i hu
      rw [if_pos hu, show a + (reach mem r (a + 1) n + 1) = a + 1 + reach mem r (a + 1) n by omega]
      exact ih (by omega)
    · rename_i hu
      rw [if_neg hu]
      exact hu

lemma reach_eq_iff : reach mem r a n = n ↔ ∀ i < n, Usable mem r (a + i) := by
  constructor
  · intro h i hi
    exact usable_of_lt_reach (n := n) (by omega)
  · intro h
    by_contra hc
    have hlt := Nat.lt_of_le_of_ne (reach_le mem r a n) hc
    exact not_usable_reach hlt (h _ hlt)

lemma reach_of_not_usable (h : ¬ Usable mem r a) : reach mem r a n = 0 := by
  cases n with
  | zero => rfl
  | succ n => exact if_neg h

lemma reach_add (hu : Usable mem r a) (hm : a % PGSIZE + m ≤ PGSIZE) (hmn : m ≤ n) :
    reach mem r a n = m + reach mem r (a + m) (n - m) := by
  induction m generalizing a n with
  | zero => simp
  | succ m ih =>
    obtain ⟨n, rfl⟩ : ∃ k, n = k + 1 := ⟨n - 1, by omega⟩
    rw [reach, if_pos hu]
    by_cases h0 : m = 0
    · subst h0
      simp
      omega
    · have hmod : (a + 1) % PGSIZE = a % PGSIZE + 1 := by
        unfold PGSIZE at *
        omega
      have hdiv : (a + 1) / PGSIZE = a / PGSIZE := by
        unfold PGSIZE at *
        omega
      rw [ih (hu.of_page hdiv) (by omega) (by omega), show a + 1 + m = a + (m + 1) by omega,
        show n + 1 - (m + 1) = n - m by omega]
      omega

lemma reach_page_start (h : reach mem r a n < n) (h0 : reach mem r a n ≠ 0) :
    (a + reach mem r a n) % PGSIZE = 0 := by
  by_contra hc
  apply not_usable_reach h
  have hu : Usable mem r (a + (reach mem r a n - 1)) := usable_of_lt_reach (n := n) (by omega)
  apply hu.of_page
  unfold PGSIZE at *
  omega

lemma reach_congr (hs : ∀ x, Visits mem r x → mem' x = mem x) (a n : Nat) :
    reach mem' r a n = reach mem r a n := by
  induction n generalizing a with
  | zero => rfl
  | succ n ih =>
    unfold reach
    simp only [usable_congr hs, ih]

/-! ## Pieces of a page -/

lemma sub_PGROUNDDOWN (a : Nat) : a - PGROUNDDOWN a = a % PGSIZE := by
  unfold PGROUNDDOWN PGSIZE
  omega

lemma usable_PGROUNDDOWN : Usable mem r (PGROUNDDOWN a) ↔ Usable mem r a := by
  have hdiv : PGROUNDDOWN a / PGSIZE = a / PGSIZE := by
    unfold PGROUNDDOWN PGSIZE
    omega
  exact ⟨fun h => h.of_page hdiv.symm, fun h => h.of_page hdiv⟩

lemma userPage_PGROUNDDOWN : userPage mem r (PGROUNDDOWN a) = userPage mem r a := by
  apply userPage_of_page
  unfold PGROUNDDOWN PGSIZE
  omega

lemma next_page (hu : Usable mem r a) :
    uint64 (PGROUNDDOWN a + PGSIZE) = a + (PGSIZE - a % PGSIZE) := by
  have h1 := hu.1
  unfold uint64 PGROUNDDOWN PGSIZE MAXVA at *
  omega

lemma wp_copyPage (h : ∀ x, Visits v.mem r x → inRam x = true) (a : Nat) :
    Wp (walkaddr r (PGROUNDDOWN a)) (fun pa v' => v' = v ∧
      pa = if Usable v.mem r a then userPage v.mem r a else 0) E v := by
  refine (wp_walkaddr_usable h _).imp ?_
  rintro pa v1 ⟨rfl, rfl⟩
  rw [userPage_PGROUNDDOWN]
  exact ⟨rfl, if_congr usable_PGROUNDDOWN rfl rfl⟩

/-! ## `copyin` -/

/-- `n` bytes of the process from address `a` on. -/
def bytesAt (mem : Nat → Nat → Nat) (r a n : Nat) : List UInt8 :=
  (List.range n).map fun i => byteAt mem r (a + i)

@[simp] lemma length_bytesAt (mem : Nat → Nat → Nat) (r a n : Nat) :
    (bytesAt mem r a n).length = n := by
  simp [bytesAt]

lemma bytesAt_add (mem : Nat → Nat → Nat) (r a m n : Nat) :
    bytesAt mem r a (m + n) = bytesAt mem r a m ++ bytesAt mem r (a + m) n := by
  simp [bytesAt, range_add, Nat.add_assoc]

lemma bytesAt_page (h : a % PGSIZE + n ≤ PGSIZE) :
    ((List.range n).map fun i => byte (mem (userPage mem r a)) (a % PGSIZE + i)) =
      bytesAt mem r a n := by
  apply map_congr_left
  intro i hi
  have hi := mem_range.mp hi
  have hdiv : (a + i) / PGSIZE = a / PGSIZE := by
    unfold PGSIZE at *
    omega
  have hmod : (a + i) % PGSIZE = a % PGSIZE + i := by
    unfold PGSIZE at *
    omega
  rw [byteAt, userPage_of_page hdiv, hmod]

lemma wp_peek_bind {α : Type} {Q : α → Vm → Prop} {pa off : Nat} (h : inRam pa = true)
    (f : List UInt8 → V α) : Wp (peek pa off n >>= f) Q E v ↔
      Wp (f ((List.range n).map fun i => byte (v.mem pa) (off + i))) Q E v := by
  unfold peek
  simp [h]

lemma wp_copyinLoop (h : Readable v.mem r) (hf : len ≤ fuel) (a : Nat) :
    Wp (copyinLoop r fuel a len) (fun res v' => v' = v ∧
      res = (decide (reach v.mem r a len = len), bytesAt v.mem r a (reach v.mem r a len))) E v := by
  induction fuel generalizing a len with
  | zero =>
    have h0 : len = 0 := by omega
    subst h0
    unfold copyinLoop
    rw [wp_pure]
    exact ⟨rfl, rfl⟩
  | succ fuel ih =>
    unfold copyinLoop
    by_cases h0 : len = 0
    · subst h0
      rw [if_pos rfl, wp_pure]
      exact ⟨rfl, rfl⟩
    rw [if_neg h0]
    refine (wp_copyPage h.tables a).bind ?_
    rintro pa v1 ⟨rfl, rfl⟩
    by_cases hu : Usable v1.mem r a
    · have hin := h.pages a hu
      have hmod : a % PGSIZE < PGSIZE := Nat.mod_lt _ (by decide)
      rw [if_pos hu, if_neg (inRam_ne_zero hin), sub_PGROUNDDOWN, wp_peek_bind hin,
        bytesAt_page (by omega), next_page hu]
      have hreach := reach_add (n := len)
        (m := min (PGSIZE - a % PGSIZE) len) hu (by omega) (by omega)
      by_cases hlast : len ≤ PGSIZE - a % PGSIZE
      · rw [Nat.min_eq_right hlast] at hreach ⊢
        rw [Nat.sub_self] at hreach ⊢
        refine (ih (Nat.zero_le _) _).bind ?_
        rintro ⟨ok, rest⟩ v2 ⟨rfl, heq⟩
        obtain ⟨rfl, rfl⟩ := Prod.mk.inj heq
        rw [wp_pure, hreach]
        simp [reach, bytesAt]
      · rw [Nat.min_eq_left (by omega)] at hreach ⊢
        refine (ih (by omega) _).bind ?_
        rintro ⟨ok, rest⟩ v2 ⟨rfl, heq⟩
        obtain ⟨rfl, rfl⟩ := Prod.mk.inj heq
        rw [wp_pure, hreach, bytesAt_add]
        refine ⟨rfl, Prod.ext ?_ rfl⟩
        apply decide_eq_decide.mpr
        omega
    · rw [if_neg hu, if_pos rfl, wp_pure, reach_of_not_usable hu]
      refine ⟨rfl, ?_⟩
      simp [bytesAt, Ne.symm h0]

lemma wp_copyin (h : Readable v.mem r) (a len : Nat) :
    Wp (copyin r a len) (fun res v' => v' = v ∧
      res = (decide (reach v.mem r a len = len), bytesAt v.mem r a (reach v.mem r a len))) E v :=
  wp_copyinLoop h (Nat.le_refl _) a

/-! ## `copyout` -/

/-- The bytes are written from address `a` on, and nothing else changes. -/
structure Stored (r a : Nat) (bs : List UInt8) (v v' : Vm) : Prop where
  freelist : v'.freelist = v.freelist
  pages : ∀ x, (∀ i < bs.length, x ≠ userPage v.mem r (a + i)) → v'.mem x = v.mem x
  bytes : ∀ i (hi : i < bs.length),
    byte (v'.mem (userPage v.mem r (a + i))) ((a + i) % PGSIZE) = bs[i]
  same : ∀ x o, (∀ i < bs.length, x = userPage v.mem r (a + i) → o ≠ (a + i) % PGSIZE) →
    byte (v'.mem x) o = byte (v.mem x) o

lemma Stored.nil (r a : Nat) (v : Vm) : Stored r a [] v v :=
  ⟨rfl, fun _ _ => rfl, fun _ hi => absurd hi (Nat.not_lt_zero _), fun _ _ _ => rfl⟩

variable {bs : List UInt8}

lemma Stored.tables (h : Stored r a bs v v') (hs : Space v.mem r)
    (hu : ∀ i < bs.length, Usable v.mem r (a + i)) :
    ∀ x, Visits v.mem r x → v'.mem x = v.mem x := by
  intro x hx
  refine h.pages x fun i hi he => ?_
  rw [he] at hx
  exact hs.apart _ (hu i hi) hx

lemma Stored.append {bs cs : List UInt8} (h : Stored r a bs v v')
    (h' : Stored r (a + bs.length) cs v' v'') (hs : Space v.mem r)
    (hu : ∀ i < bs.length + cs.length, Usable v.mem r (a + i)) : Stored r a (bs ++ cs) v v'' := by
  have hpage : ∀ b, userPage v'.mem r b = userPage v.mem r b :=
    userPage_congr (h.tables hs fun i hi => hu i (by omega))
  have hlen : (bs ++ cs).length = bs.length + cs.length := length_append
  refine ⟨h'.freelist.trans h.freelist, fun x hx => ?_, fun i hi => ?_, fun x o hx => ?_⟩
  · rw [h'.pages x fun i hi => ?_, h.pages x fun i hi => hx i (by omega)]
    rw [hpage, Nat.add_assoc]
    exact hx _ (by omega)
  · by_cases hb : i < bs.length
    · rw [getElem_append_left hb, ← h.bytes i hb]
      apply h'.same
      intro j hj hp ho
      rw [hpage, Nat.add_assoc] at hp
      rw [Nat.add_assoc] at ho
      have heq := hs.same (hu i (by omega)) (hu (bs.length + j) (by omega)) hp ho
      omega
    · have hb' : i - bs.length < cs.length := by omega
      rw [getElem_append_right (by omega), ← h'.bytes (i - bs.length) hb', hpage]
      rw [show a + bs.length + (i - bs.length) = a + i by omega]
  · rw [h'.same x o fun i hi hp => ?_, h.same x o fun i hi => hx i (by omega)]
    rw [hpage, Nat.add_assoc] at hp
    rw [Nat.add_assoc]
    exact hx _ (by omega) hp

lemma stored_patch (h : a % PGSIZE + bs.length ≤ PGSIZE) (v : Vm) :
    Stored r a bs v (v.putPage (userPage v.mem r a)
      (patch (v.mem (userPage v.mem r a)) (a % PGSIZE) bs)) := by
  have hdiv : ∀ i < bs.length, userPage v.mem r (a + i) = userPage v.mem r a := by
    intro i hi
    apply userPage_of_page
    unfold PGSIZE at *
    omega
  have hmod : ∀ i < bs.length, (a + i) % PGSIZE = a % PGSIZE + i := by
    intro i hi
    unfold PGSIZE at *
    omega
  refine ⟨rfl, fun x hx => ?_, fun i hi => ?_, fun x o hx => ?_⟩
  · by_cases hb : bs = []
    · subst hb
      by_cases hxp : x = userPage v.mem r a
      · rw [hxp, putPage_self, patch]
      · exact putPage_of_ne hxp _
    · exact putPage_of_ne (hx 0 (length_pos_iff.mpr hb)) _
  · rw [hdiv i hi, hmod i hi, putPage_self, byte_patch, if_pos (by omega), Nat.add_sub_cancel_left]
    exact getD_eq_getElem _ _ hi
  · by_cases hxp : x = userPage v.mem r a
    · rw [hxp, putPage_self, byte_patch, if_neg]
      intro hc
      have hi : o - a % PGSIZE < bs.length := by omega
      refine hx _ hi (hxp.trans (hdiv _ hi).symm) ?_
      rw [hmod _ hi]
      omega
    · rw [putPage_of_ne hxp]

lemma wp_copyoutLoop_reach {src : List UInt8} (h : Space v.mem r) (hf : src.length ≤ fuel)
    (a : Nat) : Wp (copyoutLoop r fuel a src) (fun ok v' =>
      ok = decide (reach v.mem r a src.length = src.length) ∧
      Stored r a (src.take (reach v.mem r a src.length)) v v') E v := by
  induction fuel generalizing a src v with
  | zero =>
    have h0 : src = [] := length_eq_zero_iff.mp (by omega)
    subst h0
    unfold copyoutLoop
    rw [wp_pure]
    exact ⟨rfl, .nil ..⟩
  | succ fuel ih =>
    unfold copyoutLoop
    by_cases h0 : src.length = 0
    · have hnil := length_eq_zero_iff.mp h0
      subst hnil
      rw [if_pos h0, wp_pure]
      exact ⟨rfl, .nil ..⟩
    rw [if_neg h0]
    refine (wp_copyPage h.tables a).bind ?_
    rintro pa v1 ⟨rfl, rfl⟩
    by_cases hu : Usable v1.mem r a
    · have hin := h.pages a hu
      have hmod : a % PGSIZE < PGSIZE := Nat.mod_lt _ (by decide)
      rw [if_pos hu, if_neg (inRam_ne_zero hin), sub_PGROUNDDOWN, wp_bind, wp_poke hin,
        next_page hu]
      generalize hm : min (PGSIZE - a % PGSIZE) src.length = m
      have hlen : (src.take m).length = m := by
        rw [length_take]
        omega
      have hst := stored_patch (r := r)
        (show a % PGSIZE + (src.take m).length ≤ PGSIZE by omega) v1
      have hus : ∀ i < (src.take m).length, Usable v1.mem r (a + i) := by
        intro i hi
        apply hu.of_page
        unfold PGSIZE at *
        omega
      have htab := hst.tables h hus
      have hreach := reach_add (n := src.length) (m := m) hu (by omega) (by omega)
      have hdrop : (src.drop m).length = src.length - m := length_drop
      -- the address of the next round only matters when there is one
      have hnext : reach v1.mem r (a + (PGSIZE - a % PGSIZE)) (src.length - m) =
          reach v1.mem r (a + m) (src.length - m) ∧
          (a + (PGSIZE - a % PGSIZE) = a + m ∨ src.length - m = 0) := by
        by_cases hlast : src.length - m = 0
        · rw [hlast]
          exact ⟨rfl, .inr rfl⟩
        · have he : PGSIZE - a % PGSIZE = m := by omega
          rw [he]
          exact ⟨rfl, .inl rfl⟩
      refine (ih (h.congr htab) (show (src.drop m).length ≤ _ by omega) _).imp ?_
      rintro ok v2 ⟨hok, hst2⟩
      rw [reach_congr htab, hdrop, hnext.1] at hok hst2
      rw [hreach, take_add]
      refine ⟨?_, hst.append ?_ h ?_⟩
      · rw [hok]
        apply decide_eq_decide.mpr
        omega
      · rw [hlen]
        rcases hnext.2 with he | he
        · rwa [he] at hst2
        · rw [he] at hst2 ⊢
          simp only [reach, take_zero] at hst2 ⊢
          exact ⟨hst2.freelist, fun x _ => hst2.pages x (by simp),
            fun i hi => absurd hi (Nat.not_lt_zero _), fun x o _ => hst2.same x o (by simp)⟩
      · intro i hi
        apply usable_of_lt_reach (n := src.length)
        rw [hreach]
        rw [hlen, length_take] at hi
        omega
    · rw [if_neg hu, if_pos rfl, wp_pure, reach_of_not_usable hu]
      refine ⟨?_, by rw [take_zero]; exact .nil ..⟩
      simp [Ne.symm h0]

lemma wp_copyout_reach (h : Space v.mem r) (a : Nat) (src : List UInt8) :
    Wp (copyout r a src) (fun ok v' =>
      ok = decide (reach v.mem r a src.length = src.length) ∧
      Stored r a (src.take (reach v.mem r a src.length)) v v') E v :=
  wp_copyoutLoop_reach h (Nat.le_refl _) a

section

variable (h : Stored r a bs v v') (hs : Space v.mem r)
  (hu : ∀ i < bs.length, Usable v.mem r (a + i))
include h hs hu

lemma Stored.byteAt (i : Nat) (hi : i < bs.length) :
    byteAt v'.mem r (a + i) = bs[i] := by
  unfold vm.byteAt
  rw [userPage_congr (h.tables hs hu), h.bytes i hi]

lemma Stored.bytesAt :
    bytesAt v'.mem r a bs.length = bs := by
  apply ext_getElem (by simp)
  intro i hi hi'
  simp only [vm.bytesAt, getElem_map, getElem_range]
  exact h.byteAt hs hu i hi'

lemma Stored.byteAt_of_not_mem (hb : Usable v.mem r b)
    (hout : b < a ∨ a + bs.length ≤ b) : vm.byteAt v'.mem r b = vm.byteAt v.mem r b := by
  unfold vm.byteAt
  rw [userPage_congr (h.tables hs hu)]
  apply h.same
  intro i hi hp ho
  have heq := hs.same hb (hu i hi) hp ho
  omega

end

/-! ## `copyinstr` -/

/-- The bytes up to a first NUL, and whether there is one. -/
def cut (bs : List UInt8) : Bool × List UInt8 :=
  if 0 ∈ bs then (true, bs.takeWhile (· ≠ 0) ++ [0]) else (false, bs)

lemma cut_cons_zero (bs : List UInt8) : cut (0 :: bs) = (true, [0]) := by
  simp [cut]

lemma cut_cons_of_ne {c : UInt8} (hc : c ≠ 0) (bs : List UInt8) :
    cut (c :: bs) = ((cut bs).1, c :: (cut bs).2) := by
  unfold cut
  by_cases h : 0 ∈ bs
  · simp [h, hc]
  · simp [h, Ne.symm hc]

lemma cut_append_of_mem (h : (cut bs).1 = true) (cs : List UInt8) :
    cut (bs ++ cs) = cut bs := by
  induction bs with
  | nil => simp [cut] at h
  | cons c bs ih =>
    rw [cons_append]
    by_cases hc : c = 0
    · rw [hc, cut_cons_zero, cut_cons_zero]
    · rw [cut_cons_of_ne hc] at h ⊢
      rw [cut_cons_of_ne hc, ih h]

lemma cut_append_of_not_mem (h : (cut bs).1 = false) (cs : List UInt8) :
    cut (bs ++ cs) = ((cut cs).1, (cut bs).2 ++ (cut cs).2) := by
  induction bs with
  | nil => simp [cut]
  | cons c bs ih =>
    rw [cons_append]
    by_cases hc : c = 0
    · rw [hc, cut_cons_zero] at h
      cases h
    · rw [cut_cons_of_ne hc] at h ⊢
      rw [cut_cons_of_ne hc, ih h]
      rfl

lemma wp_peekByte_bind {α : Type} {Q : α → Vm → Prop} {pa off : Nat} (h : inRam pa = true)
    (f : UInt8 → V α) :
    Wp (peekByte pa off >>= f) Q E v ↔ Wp (f (byte (v.mem pa) off)) Q E v := by
  unfold peekByte
  rw [bind_assoc, wp_load_bind h]
  exact Iff.rfl

lemma wp_copyinstrPage {pa : Nat} (h : inRam pa = true) (n off : Nat) :
    Wp (copyinstrPage pa n off) (fun res v' => v' = v ∧
      res = cut ((List.range n).map fun i => byte (v.mem pa) (off + i))) E v := by
  induction n generalizing off with
  | zero =>
    unfold copyinstrPage
    rw [wp_pure]
    exact ⟨rfl, rfl⟩
  | succ n ih =>
    have hmap : ((List.range (n + 1)).map fun i => byte (v.mem pa) (off + i)) =
        byte (v.mem pa) off :: (List.range n).map fun i => byte (v.mem pa) (off + 1 + i) := by
      rw [range_succ_eq_map, map_cons, map_map]
      congr 1
      apply map_congr_left
      intro i _
      show byte (v.mem pa) (off + (i + 1)) = _
      rw [show off + (i + 1) = off + 1 + i by omega]
    unfold copyinstrPage
    rw [wp_peekByte_bind h, hmap]
    by_cases hc : byte (v.mem pa) off = 0
    · rw [if_pos hc, hc, cut_cons_zero, wp_pure]
      exact ⟨rfl, rfl⟩
    · rw [if_neg hc, cut_cons_of_ne hc]
      refine (ih (off + 1)).bind ?_
      rintro ⟨g, rest⟩ v1 ⟨rfl, heq⟩
      rw [← heq]
      exact (wp_pure _).mpr ⟨rfl, rfl⟩

lemma wp_copyinstrLoop {max : Nat} (h : Readable v.mem r) (hf : max ≤ fuel) (a : Nat) :
    Wp (copyinstrLoop r fuel a max) (fun res v' => v' = v ∧
      res = cut (bytesAt v.mem r a (reach v.mem r a max))) E v := by
  induction fuel generalizing a max with
  | zero =>
    have h0 : max = 0 := by omega
    subst h0
    unfold copyinstrLoop
    rw [wp_pure]
    exact ⟨rfl, rfl⟩
  | succ fuel ih =>
    unfold copyinstrLoop
    by_cases h0 : max = 0
    · subst h0
      rw [if_pos rfl, wp_pure]
      exact ⟨rfl, rfl⟩
    rw [if_neg h0]
    refine (wp_copyPage h.tables a).bind ?_
    rintro pa v1 ⟨rfl, rfl⟩
    by_cases hu : Usable v1.mem r a
    · have hin := h.pages a hu
      have hmod : a % PGSIZE < PGSIZE := Nat.mod_lt _ (by decide)
      rw [if_pos hu, if_neg (inRam_ne_zero hin), sub_PGROUNDDOWN, next_page hu]
      generalize hm : min (PGSIZE - a % PGSIZE) max = m
      have hreach := reach_add (n := max) (m := m) hu (by omega) (by omega)
      refine (wp_copyinstrPage hin _ _).bind ?_
      rintro ⟨g, bs⟩ v2 ⟨rfl, heq⟩
      rw [bytesAt_page (by omega)] at heq
      rw [hreach, bytesAt_add]
      cases g with
      | true =>
        rw [cut_append_of_mem (by rw [← heq]), ← heq]
        exact (wp_pure _).mpr ⟨rfl, rfl⟩
      | false =>
        rw [cut_append_of_not_mem (by rw [← heq]), ← heq]
        refine (ih (by omega) _).bind ?_
        rintro ⟨ok, rest⟩ v3 ⟨rfl, heq'⟩
        refine (wp_pure _).mpr ⟨rfl, ?_⟩
        by_cases hlast : max - m = 0
        · rw [hlast] at heq' ⊢
          rw [show cut (bytesAt v3.mem r (a + m) (reach v3.mem r (a + m) 0)) = (ok, rest) from
            heq'.symm]
        · rw [show a + (PGSIZE - a % PGSIZE) = a + m by omega] at heq'
          rw [← heq']
    · rw [if_neg hu, if_pos rfl, wp_pure, reach_of_not_usable hu]
      exact ⟨rfl, rfl⟩

lemma wp_copyinstr (h : Readable v.mem r) (a max : Nat) :
    Wp (copyinstr r a max) (fun res v' => v' = v ∧
      res = cut (bytesAt v.mem r a (reach v.mem r a max))) E v :=
  wp_copyinstrLoop h (Nat.le_refl _) a

/-! ## The tables of processes -/

section processes

variable {ld : Link} {use : Nat → Use} {l : List Nat} {T : Tab} {tf : Nat}

lemma Table.visits (ht : Table use v.mem r T) (h : Heap ld use l v) (hx : Visits v.mem r x) :
    ∃ pl, use x = .table r pl := by
  have hdir : ∀ p, p % PGSIZE = 0 → dir p &&& PTE_V ≠ 0 → p ≠ 0 ∧ PTE2PA (dir p) = p := by
    intro p hp hv
    have h0 : p ≠ 0 := by
      rintro rfl
      exact hv (Nat.zero_and _)
    exact ⟨h0, (dir_valid h0 hp).2.2⟩
  have hal : ∀ pl, T.at r pl % PGSIZE = 0 := by
    intro pl
    by_cases h0 : T.at r pl = 0
    · rw [h0]
      rfl
    · exact (ht.page h h0).1
  have hmid : ∀ i < NPTE, v.mem r i &&& PTE_V ≠ 0 → T.mid i ≠ 0 ∧ PTE2PA (v.mem r i) = T.mid i := by
    intro i hi hv
    have hw : v.mem r i = dir (T.mid i) := ht.words .root ht.root_ne i hi
    rw [hw] at hv ⊢
    exact hdir _ (hal (.mid i)) hv
  cases hx with
  | root => exact ⟨.root, ht.use_at .root ht.root_ne⟩
  | @mid i hi hv =>
    obtain ⟨h0, he⟩ := hmid i hi hv
    rw [he]
    exact ⟨.mid i, ht.use_at (.mid i) h0⟩
  | @low i j hi hj hv hv' =>
    obtain ⟨h0, he⟩ := hmid i hi hv
    rw [he] at hv' ⊢
    have hw : v.mem (T.mid i) j = dir (T.low i j) := ht.words (.mid i) h0 j hj
    rw [hw] at hv' ⊢
    obtain ⟨h1, he'⟩ := hdir (T.low i j) (hal (.low i j)) hv'
    rw [he']
    exact ⟨.low i j, ht.use_at (.low i j) h1⟩

lemma Map.usable_lt (hm : Map ld tf n T) (ht : Table use v.mem r T) (h : Heap ld use l v)
    (ha : Usable v.mem r a) : a / PGSIZE < n := by
  apply hm.user_lt
  rw [← ht.entry_eq h]
  exact ha.2.2

lemma Map.space (hm : Map ld tf n T) (ht : Table use v.mem r T) (h : Heap ld use l v)
    (hu : ∀ k < n, use (PTE2PA (T.pte k)) = .user) : Space v.mem r := by
  have hpage : ∀ a, userPage v.mem r a = PTE2PA (T.pte (a / PGSIZE)) := by
    intro a
    unfold userPage
    rw [ht.entry_eq h]
  have huse : ∀ a, Usable v.mem r a → use (userPage v.mem r a) = .user := by
    intro a ha
    rw [hpage]
    exact hu _ (hm.usable_lt ht h ha)
  refine ⟨⟨fun x hx => ?_, fun a ha => ?_⟩, fun a ha hv => ?_, fun a b ha hb he => ?_⟩
  · obtain ⟨pl, hpl⟩ := ht.visits h hx
    exact (h.page x (by rw [hpl]; simp)).inRam
  · exact (h.page _ (by rw [huse a ha]; simp)).inRam
  · obtain ⟨pl, hpl⟩ := ht.visits h hv
    rw [huse a ha] at hpl
    cases hpl
  · rw [hpage, hpage] at he
    exact hm.inj _ _ (hm.usable_lt ht h ha) (hm.usable_lt ht h hb) he

end processes

end xv6.vm
