-- Names as the kernel has them in memory: byte strings that end at a zero or
-- after DIRSIZ bytes. The directory functions over `strncmp` and `strncpy` of
-- string.c are those over the names that the bytes stand for.
import Xv6.Directory

open bytes xv6.fs List

namespace xv6.raw

/-! ## Strings -/

def next (p : Bytes) : Bytes := fun i => p (i + 1)

def str (n : Nat) (p : Bytes) : Name := ((List.range n).map p).takeWhile (· ≠ 0)

def strncmp : Nat → Bytes → Bytes → Int
  | 0, _, _ => 0
  | n + 1, p, q =>
    if p 0 ≠ 0 ∧ p 0 = q 0 then strncmp n (next p) (next q)
    else ((p 0).toNat : Int) - (q 0).toNat

/-- The `n` bytes that `strncpy` writes. After a zero it fills up with zeros. -/
def strncpy : Nat → Bytes → List UInt8
  | 0, _ => []
  | n + 1, t => t 0 :: if t 0 ≠ 0 then strncpy n (next t) else List.replicate n 0

lemma str_succ (n : Nat) (p : Bytes) :
    str (n + 1) p = if p 0 = 0 then [] else p 0 :: str n (next p) := by
  unfold str
  rw [range_succ_eq_map, map_cons, map_map, takeWhile_cons]
  by_cases h : p 0 = 0
  · simp [h]
  · simp only [h, ne_eq, not_false_eq_true, decide_true, if_true, if_false]
    rfl

lemma strncmp_eq_zero (n : Nat) (p q : Bytes) : strncmp n p q = 0 ↔ str n p = str n q := by
  induction n generalizing p q with
  | zero => simp [strncmp, str]
  | succ n ih =>
    rw [strncmp, str_succ, str_succ]
    by_cases hpq : p 0 = q 0
    · by_cases h0 : p 0 = 0
      · simp [h0, ← hpq]
      · rw [if_pos ⟨h0, hpq⟩, ih, if_neg h0, ← hpq, if_neg h0]
        simp
    · rw [if_neg fun h => hpq h.2]
      have hne : ((p 0).toNat : Int) - (q 0).toNat ≠ 0 := by
        intro h
        exact hpq (UInt8.toNat_inj.mp (by omega))
      have hstr : (if p 0 = 0 then [] else p 0 :: str n (next p)) ≠
          if q 0 = 0 then [] else q 0 :: str n (next q) := by
        grind
      exact iff_of_false hne hstr

lemma strncpy_getD (n : Nat) (t : Bytes) (i : Nat) :
    (strncpy n t).getD i 0 = (str n t).getD i 0 := by
  induction n generalizing t i with
  | zero => simp [strncpy, str]
  | succ n ih =>
    rw [strncpy, str_succ]
    by_cases h0 : t 0 = 0
    · rcases i with _ | i
      · simp [h0]
      · simp only [h0, getD_cons_succ, getD_nil, ne_eq, not_true_eq_false, if_false,
          if_true]
        grind
    · rcases i with _ | i
      · simp [h0]
      · simp only [h0, getD_cons_succ, ne_eq, not_false_eq_true, if_true, if_false]
        exact ih _ _

lemma str_getD (n : Nat) (l : List UInt8) :
    str n (fun i => l.getD i 0) = (l.take n).takeWhile (· ≠ 0) := by
  induction n generalizing l with
  | zero => simp [str]
  | succ n ih =>
    rw [str_succ]
    rcases l with _ | ⟨c, l⟩
    · simp
    · rw [show next (fun i => (c :: l).getD i 0) = fun i => l.getD i 0 from rfl, ih]
      by_cases hc : c = 0
      · simp [hc]
      · simp [hc]

lemma length_str (n : Nat) (p : Bytes) : (str n p).length ≤ n := by
  have h := (takeWhile_sublist (fun c : UInt8 => decide (c ≠ 0))
    (l := (List.range n).map p)).length_le
  rw [length_map, length_range] at h
  exact h

lemma zero_notMem_str (n : Nat) (p : Bytes) : (0 : UInt8) ∉ str n p := by
  intro h
  have := mem_takeWhile_imp h
  simp at this

/-! ## Names -/

def cname (p : Bytes) : Name := str DIRSIZ p

lemma goodName_cname (p : Bytes) : GoodName (cname p) :=
  ⟨length_str DIRSIZ p, zero_notMem_str DIRSIZ p⟩

def namecmp (s t : Bytes) : Int := strncmp DIRSIZ s t

/-! ## Directories -/

def inumOf (bs : List UInt8) : Nat := (bs.getD 0 0).toNat + 256 * (bs.getD 1 0).toNat

def nameOf (bs : List UInt8) : Bytes := fun i => (bs.drop 2).getD i 0

/-- The bytes of the entry that `dirlink` writes. The number becomes a `ushort`. -/
def dirent (inum : Nat) (name : Bytes) : List UInt8 :=
  UInt8.ofNat inum :: UInt8.ofNat (inum / 256) :: strncpy DIRSIZ name

def dirlookupLoop (sb : Superblock) (dp : Nat) (name : Bytes) : List Nat → M (Option (Nat × Nat))
  | [] => return none
  | off :: offs => do
    let r ← readi sb dp (fun _ => true) off DIRENT
    if r.1 = DIRENT then
      if inumOf r.2 = 0 then
        dirlookupLoop sb dp name offs
      else if namecmp name (nameOf r.2) = 0 then do
        let ip ← iget (inumOf r.2)
        return some (ip, off)
      else
        dirlookupLoop sb dp name offs
    else
      throw (.panic "dirlookup read")

def dirlookup (sb : Superblock) (dp : Nat) (name : Bytes) : M (Option (Nat × Nat)) := do
  let s ← get
  if (s.itable dp).type ≠ .dir then
    throw (.panic "dirlookup not DIR")
  else
    dirlookupLoop sb dp name (offsets 0 (s.itable dp).size)

def dirlink (sb : Superblock) (dp : Nat) (name : Bytes) (inum : Nat) : M Int := do
  let r ← dirlookup sb dp name
  match r with
  | some (ip, _) => do
    iput ip
    return -1
  | none => do
    let s ← get
    let size := (s.itable dp).size
    let off ← dirlinkLoop sb dp (DIRENT * ((size + (DIRENT - 1)) / DIRENT)) (offsets 0 size)
    let r ← writei sb dp (fun i => some ((dirent inum name).getD i 0)) off DIRENT
    if r = DIRENT then return 0 else return -1

/-- The part of `sys_unlink` in which the entry of a name goes. -/
def clear (sb : Superblock) (dp : Nat) (name : Bytes) : M Int := do
  let r ← dirlookup sb dp name
  match r with
  | none => return -1
  | some (ip, off) => do
    let r ← writei sb dp (fun _ => some 0) off DIRENT
    if r = DIRENT then do
      iput ip
      return 0
    else
      throw (.panic "unlink: writei")

lemma cname_nameOf (bs : List UInt8) : cname (nameOf bs) = (Dirent.ofBytes bs).name :=
  str_getD DIRSIZ (bs.drop 2)

lemma namecmp_nameOf (name : Bytes) (bs : List UInt8) :
    namecmp name (nameOf bs) = 0 ↔
      fs.namecmp (cname name) (Dirent.ofBytes bs).name = true := by
  rw [← cname_nameOf]
  unfold fs.namecmp
  rw [decide_eq_true_iff]
  exact strncmp_eq_zero DIRSIZ name (nameOf bs)

lemma dirlookupLoop_eq (sb : Superblock) (dp : Nat) (name : Bytes) (offs : List Nat) :
    dirlookupLoop sb dp name offs = fs.dirlookupLoop sb dp (cname name) offs := by
  induction offs with
  | nil => rfl
  | cons off offs ih =>
    unfold dirlookupLoop fs.dirlookupLoop readDirent
    rw [bind_assoc]
    congr 1
    funext r
    by_cases hfull : r.1 = DIRENT
    · rw [if_pos hfull, if_pos hfull, pure_bind, ih]
      simp only [namecmp_nameOf]
      rfl
    · rw [if_neg hfull, if_neg hfull]
      rfl

lemma dirlookup_eq (sb : Superblock) (dp : Nat) (name : Bytes) :
    dirlookup sb dp name = fs.dirlookup sb dp (cname name) := by
  unfold dirlookup fs.dirlookup
  simp only [dirlookupLoop_eq]

lemma dirent_getD (inum : Nat) (name : Bytes) :
    (fun i => some ((dirent inum name).getD i 0)) = Dirent.bytes ⟨inum, cname name⟩ := by
  funext i
  unfold dirent Dirent.bytes
  congr 1
  rcases i with _ | _ | i
  · rfl
  · rfl
  · rw [getD_cons_succ, getD_cons_succ, strncpy_getD, if_neg (by omega),
      if_neg (by omega)]
    rfl

lemma dirlink_eq (sb : Superblock) (dp : Nat) (name : Bytes) (inum : Nat) :
    dirlink sb dp name inum = fs.dirlink sb dp (cname name) inum := by
  unfold dirlink
  rw [dirlookup_eq, dirent_getD]
  rfl

end xv6.raw
