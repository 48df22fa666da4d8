-- `user/grep.c`. The matcher is compared with the language that its pattern
-- denotes, and the loop that reads a file through a buffer of 1024 bytes with the
-- lines of the file. A C string is the list of its bytes before the NUL.
import Mathlib.Computability.Language
import Mathlib.Data.List.TakeWhile

open Computability List

namespace xv6.grep

abbrev Str := List UInt8

def caret : UInt8 := '^'.toUInt8
def dollar : UInt8 := '$'.toUInt8
def dot : UInt8 := '.'.toUInt8
def star : UInt8 := '*'.toUInt8
def newline : UInt8 := '\n'.toUInt8

/-! ## The matcher -/

def admits (c t : UInt8) : Bool := c = dot || c = t

/-- The loop of `matchstar`, where `here` is `matchhere` of the pattern behind the star. -/
def matchstar (c : UInt8) (here : Str → Bool) : Str → Bool
  | [] => here []
  | t :: text => here (t :: text) || (admits c t && matchstar c here text)

/-- The last test of `matchhere`. -/
def matchone (c : UInt8) (here : Str → Bool) : Str → Bool
  | [] => false
  | t :: text => admits c t && here text

def matchhere : Str → Str → Bool
  | [], _ => true
  | [c], text => if c = dollar then text.isEmpty else matchone c (matchhere []) text
  | c :: d :: re, text =>
    if d = star then matchstar c (matchhere re) text else matchone c (matchhere (d :: re)) text

/-- The loop of `match`. -/
def matchany (re : Str) : Str → Bool
  | [] => matchhere re []
  | t :: text => matchhere re (t :: text) || matchany re text

/-- The function `match`. -/
def matchre : Str → Str → Bool
  | [], text => matchany [] text
  | c :: re, text => if c = caret then matchhere re text else matchany (c :: re) text

/-! ## The language of a pattern -/

inductive Item where
  | one (c : UInt8)
  | starred (c : UInt8)
  deriving DecidableEq

structure Pattern where
  atStart : Bool
  items : List Item
  atEnd : Bool
  deriving DecidableEq

/-- The items of a pattern behind its caret, and whether a dollar ends it. -/
def items : Str → List Item × Bool
  | [] => ([], false)
  | [c] => if c = dollar then ([], true) else ([.one c], false)
  | c :: d :: re =>
    if d = star then (.starred c :: (items re).1, (items re).2)
    else (.one c :: (items (d :: re)).1, (items (d :: re)).2)

def parse : Str → Pattern
  | [] => ⟨false, [], false⟩
  | c :: re =>
    if c = caret then ⟨true, (items re).1, (items re).2⟩
    else ⟨false, (items (c :: re)).1, (items (c :: re)).2⟩

def admitted (c : UInt8) : Language UInt8 := {w | ∃ t, admits c t = true ∧ w = [t]}

def Item.language : Item → Language UInt8
  | .one c => admitted c
  | .starred c => (admitted c)∗

def language (is : List Item) : Language UInt8 := is.foldr (fun i l => i.language * l) 1

def rest (atEnd : Bool) : Language UInt8 := {w | atEnd = true → w = []}

variable {c t : UInt8} {re text : Str} {here : Str → Bool} {M : Language UInt8}

lemma nil_mem_admitted_mul : [] ∉ admitted c * M := by
  intro h
  obtain ⟨a, ⟨t, _, rfl⟩, b, _, h⟩ := Language.mem_mul.mp h
  cases h

lemma cons_mem_admitted_mul :
    t :: text ∈ admitted c * M ↔ admits c t = true ∧ text ∈ M := by
  rw [Language.mem_mul]
  constructor
  · rintro ⟨a, ⟨t', ht, rfl⟩, b, hb, h⟩
    cases h
    exact ⟨ht, hb⟩
  · rintro ⟨ht, hb⟩
    exact ⟨[t], ⟨t, ht, rfl⟩, text, hb, rfl⟩

lemma matchone_iff (hM : ∀ text, here text = true ↔ text ∈ M) :
    matchone c here text = true ↔ text ∈ admitted c * M := by
  cases text with
  | nil => simp [matchone, nil_mem_admitted_mul]
  | cons t text => simp [matchone, cons_mem_admitted_mul, hM]

lemma matchstar_iff (hM : ∀ text, here text = true ↔ text ∈ M) :
    matchstar c here text = true ↔ text ∈ (admitted c)∗ * M := by
  -- a star is nothing, or one character and a star
  have hstar : (admitted c)∗ * M = M + admitted c * ((admitted c)∗ * M) := by
    rw [← mul_assoc]
    conv_lhs => rw [← Language.one_add_self_mul_kstar_eq_kstar, add_mul, one_mul]
  induction text with
  | nil =>
    rw [hstar, Language.mem_add]
    simp [matchstar, hM, nil_mem_admitted_mul]
  | cons t text ih =>
    rw [hstar, Language.mem_add, cons_mem_admitted_mul]
    simp [matchstar, hM, ih]

lemma matchhere_iff (re text : Str) :
    matchhere re text = true ↔ text ∈ language (items re).1 * rest (items re).2 := by
  have hend : ∀ text, matchhere [] text = true ↔ text ∈ rest false := by
    intro text
    simp only [matchhere, true_iff]
    intro h
    cases h
  induction re using items.induct generalizing text with
  | case1 => simp [hend, items, language]
  | case2 =>
    simp only [matchhere, items, language, foldr_nil, one_mul, if_true, List.isEmpty_iff]
    exact ⟨fun h _ => h, fun h => h rfl⟩
  | case3 c hc =>
    simp only [matchhere, items, if_neg hc, language, foldr_cons, foldr_nil, mul_one]
    exact matchone_iff hend
  | case4 c re ih =>
    simp only [matchhere, items, if_true, language, foldr_cons, mul_assoc]
    exact matchstar_iff ih
  | case5 c d re hd ih =>
    simp only [matchhere, items, if_neg hd, language, foldr_cons, mul_assoc]
    exact matchone_iff ih

lemma matchany_iff (re text : Str) :
    matchany re text = true ↔ ∃ front back, text = front ++ back ∧ matchhere re back = true := by
  induction text with
  | nil => simp [matchany]
  | cons t text ih =>
    simp only [matchany, Bool.or_eq_true, ih, cons_eq_append_iff]
    constructor
    · rintro (h | ⟨front, back, rfl, h⟩)
      · exact ⟨[], _, .inl ⟨rfl, rfl⟩, h⟩
      · exact ⟨t :: front, back, .inr ⟨front, rfl, rfl⟩, h⟩
    · rintro ⟨_, _, ⟨rfl, rfl⟩ | ⟨front, rfl, rfl⟩, h⟩
      · exact .inl h
      · exact .inr ⟨front, _, rfl, h⟩

/-- The matcher returns, with 1 exactly if a part of the text is a word of the items: a part at the
start for a caret, a part at the end for a dollar. -/
theorem match_finds_the_language (re text : Str) :
    matchre re text = true ↔ ∃ front word back, text = front ++ word ++ back ∧
      word ∈ language (parse re).items ∧ ((parse re).atStart = true → front = []) ∧
      ((parse re).atEnd = true → back = []) := by
  have hhere : ∀ re text, matchhere re text = true ↔ ∃ word back, text = word ++ back ∧
      word ∈ language (items re).1 ∧ ((items re).2 = true → back = []) := by
    intro re text
    rw [matchhere_iff, Language.mem_mul]
    constructor
    · rintro ⟨word, hw, back, hb, h⟩
      exact ⟨word, back, h.symm, hw, hb⟩
    · rintro ⟨word, back, h, hw, hb⟩
      exact ⟨word, hw, back, hb, h.symm⟩
  have hany : ∀ re, matchany re text = true ↔ ∃ front word back, text = front ++ word ++ back ∧
      word ∈ language (items re).1 ∧ ((items re).2 = true → back = []) := by
    intro re
    simp only [matchany_iff, hhere]
    constructor
    · rintro ⟨front, _, rfl, word, back, rfl, h⟩
      exact ⟨front, word, back, (List.append_assoc ..).symm, h⟩
    · rintro ⟨front, word, back, rfl, h⟩
      exact ⟨front, word ++ back, List.append_assoc .., word, back, rfl, h⟩
  cases re with
  | nil => simp [matchre, parse, hany, items]
  | cons c re =>
    by_cases hc : c = caret
    · simp [matchre, parse, hc, hhere]
    · simp [matchre, parse, hc, hany]

/-! ## The lines of a file -/

def bufsize : Nat := 1024

/-- The inner loop of `grep` with the one of `strchr`, which has passed `line` and comes to `p`: the
lines that are written, and what is left when there is no newline any more. -/
def scan (re : Str) : Str → Str → List Str × Str
  | line, [] => ([], line)
  | line, c :: p =>
    if c = newline then
      let (out, left) := scan re [] p
      (if matchre re line = true then (line ++ [newline]) :: out else out, left)
    else scan re (line ++ [c]) p

def read (want k : Nat) (file : Str) : Nat := min (max want 1) (min k file.length)

/-- The outer loop of `grep`, with the unfinished line at the front of the buffer and what the file
still has. The reads give as many bytes as `want` says. -/
def grepLoop (re : Str) (want : Nat → Nat) (i : Nat) (buf file : Str) : List Str :=
  let n := read (want i) (bufsize - buf.length - 1) file
  if hn : 0 < n then
    let (out, left) := scan re [] (buf ++ file.take n)
    out ++ grepLoop re want (i + 1) left (file.drop n)
  else []
termination_by file.length
decreasing_by
  have : n ≤ file.length := (min_le_right _ _).trans (min_le_right _ _)
  rw [List.length_drop]
  omega

def grep (re : Str) (want : Nat → Nat) (file : Str) : List Str := grepLoop re want 0 [] file

/-- Bytes without a newline in front of some lines. -/
def before (a : Str) : List Str × Str → List Str × Str
  | ([], left) => ([], a ++ left)
  | (l :: ls, left) => ((a ++ l) :: ls, left)

/-- The lines that end in a newline, without it, and what follows the last of them. -/
def lines : Str → List Str × Str
  | [] => ([], [])
  | c :: s => if c = newline then ([] :: (lines s).1, (lines s).2) else before [c] (lines s)

/-- What `grep` is to write for some lines. -/
def matching (re : Str) (ls : List Str) : List Str :=
  (ls.filter fun l => matchre re l).map (· ++ [newline])

variable {a : Str}

lemma before_append (a b : Str) (x : List Str × Str) :
    before (a ++ b) x = before a (before b x) := by
  rcases x with ⟨_ | _, _⟩ <;> simp [before]

lemma before_nil (x : List Str × Str) : before [] x = x := by
  rcases x with ⟨_ | _, _⟩ <;> rfl

lemma lines_before (ha : newline ∉ a) (s : Str) : lines (a ++ s) = before a (lines s) := by
  induction a with
  | nil => exact (before_nil _).symm
  | cons c a ih =>
    rw [mem_cons, not_or] at ha
    rw [cons_append, lines, if_neg (Ne.symm ha.1), ih ha.2, ← before_append]
    rfl

lemma lines_append (a b : Str) :
    lines (a ++ b) = ((lines a).1 ++ (lines ((lines a).2 ++ b)).1, (lines ((lines a).2 ++ b)).2) := by
  induction a with
  | nil => rfl
  | cons c a ih =>
    by_cases hc : c = newline
    · simp [lines, hc, ih]
    · rcases h : lines a with ⟨_ | _, _⟩
      · simp [lines, hc, h, ih, before]
      · simp [lines, hc, h, ih, before]

lemma lines_sizes (s : Str) : newline ∉ (lines s).2 ∧ (lines s).2.length ≤ s.length ∧
    ∀ l ∈ (lines s).1, l.length < s.length := by
  induction s with
  | nil => simp [lines]
  | cons c s ih =>
    obtain ⟨h1, h2, h3⟩ := ih
    by_cases hc : c = newline
    · simp only [lines, hc, if_true, forall_mem_cons, length_nil, length_cons]
      exact ⟨h1, by omega, by omega, fun l hl => (h3 l hl).trans (Nat.lt_succ_self _)⟩
    · rcases h : lines s with ⟨_ | ⟨l, ls⟩, left⟩
      · simp_all [lines, before, Ne.symm hc]
      · simp only [h, forall_mem_cons] at h1 h2 h3
        simp only [lines, hc, h, before, if_false, forall_mem_cons, length_append,
          length_cons, length_nil]
        exact ⟨h1, by omega, by omega, fun l hl => (h3.2 l hl).trans (Nat.lt_succ_self _)⟩

lemma scan_eq (re line p : Str) : scan re line p =
    (matching re (before line (lines p)).1, (before line (lines p)).2) := by
  induction p generalizing line with
  | nil => simp [scan, lines, before, matching]
  | cons c p ih =>
    by_cases hc : c = newline
    · simp only [scan, lines, hc, if_true, ih, before_nil]
      by_cases hm : matchre re line = true
      · simp [matching, before, hm]
      · simp [matching, before, hm]
    · simp only [scan, lines, hc, if_false, ih, before_append]

def short (l : Str) : Bool := l.length + 1 < bufsize

lemma grepLoop_eq (re : Str) (want : Nat → Nat) (i : Nat) (buf file : Str)
    (hbuf : newline ∉ buf) (hlen : buf.length < bufsize) :
    grepLoop re want i buf file = matching re ((lines (buf ++ file)).1.takeWhile short) := by
  unfold grepLoop
  dsimp only
  split
  · rename_i hn
    have hle : read (want i) (bufsize - buf.length - 1) file ≤ bufsize - buf.length - 1 :=
      (min_le_right _ _).trans (min_le_left _ _)
    have hfile : read (want i) (bufsize - buf.length - 1) file ≤ file.length :=
      (min_le_right _ _).trans (min_le_right _ _)
    generalize read (want i) (bufsize - buf.length - 1) file = n at hn hle hfile
    have hm : (buf ++ file.take n).length < bufsize := by
      rw [length_append, length_take]
      omega
    obtain ⟨hleft, hleftlen, hlines⟩ := lines_sizes (buf ++ file.take n)
    have hdrop : (file.drop n).length < file.length := by
      rw [length_drop]
      omega
    have hshort : ∀ l ∈ (lines (buf ++ file.take n)).1, short l = true := by
      intro l hl
      have := hlines l hl
      simp only [short, decide_eq_true_eq]
      omega
    have hsplit := lines_append (buf ++ file.take n) (file.drop n)
    rw [append_assoc, take_append_drop] at hsplit
    rw [scan_eq, before_nil, grepLoop_eq re want (i + 1) _ (file.drop n) hleft (by omega), hsplit,
      takeWhile_append_of_pos hshort]
    simp [matching]
  · rename_i hn
    have hend : bufsize ≤ buf.length + 1 ∨ file = [] := by
      rw [← length_eq_zero_iff]
      unfold read at hn
      omega
    rw [lines_before hbuf]
    rcases hend with hfull | rfl
    · rcases lines file with ⟨_ | ⟨l, _⟩, _⟩
      · rfl
      · have : short (buf ++ l) = false := by
          simp only [short, decide_eq_false_iff_not, length_append]
          omega
        simp [before, this, matching]
    · rfl
termination_by file.length

/-- `grep` writes the matching lines exactly if none of them stands behind a line that does not fit
into the buffer, or is one. -/
theorem grep_writes_the_matching_lines_iff (re : Str) (want : Nat → Nat) (file : Str) :
    grep re want file = matching re (lines file).1 ↔
      ∀ l ∈ (lines file).1.dropWhile short, matchre re l = false := by
  have hgrep : grep re want file = matching re ((lines file).1.takeWhile short) :=
    grepLoop_eq re want 0 [] file (by simp) (by decide)
  have hsplit : matching re (lines file).1 = matching re ((lines file).1.takeWhile short) ++
      matching re ((lines file).1.dropWhile short) := by
    unfold matching
    rw [← List.map_append, ← List.filter_append, List.takeWhile_append_dropWhile]
  rw [hgrep, hsplit]
  simp [matching, List.filter_eq_nil_iff]

lemma lines_one (ha : newline ∉ a) : (lines (a ++ [newline])).1 = [a] := by
  rw [lines_before ha]
  simp [lines, before]

lemma grep_long (ha : newline ∉ a) (hlen : bufsize ≤ a.length + 1) (want : Nat → Nat) :
    grep re want (a ++ [newline]) = [] := by
  have hfull : short a = false := by
    simp only [short, decide_eq_false_iff_not]
    omega
  unfold grep
  rw [grepLoop_eq re want 0 [] _ (by simp) (by decide), nil_append, lines_one ha]
  simp [hfull, matching]

/-- A line as long as the buffer matches and is not printed. -/
theorem grep_drops_a_long_line :
    grep [97] (fun _ => 512) (List.replicate 1023 97 ++ [newline]) ≠
      matching [97] (lines (List.replicate 1023 97 ++ [newline])).1 := by
  have hline : newline ∉ List.replicate 1023 (97 : UInt8) := by
    rw [List.mem_replicate]
    decide
  have hmatch : matchre [97] (List.replicate 1023 97) = true := by
    rw [List.replicate_succ]
    rfl
  rw [grep_long hline (by rw [List.length_replicate]; decide), lines_one hline, matching,
    List.filter_cons_of_pos hmatch, List.map_cons]
  exact (List.cons_ne_nil _ _).symm

end xv6.grep
