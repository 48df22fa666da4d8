-- The user program `find`. A directory is the sequence of entries that `read` gives, with names
-- of 14 bytes that may lack a terminator. `find` prints the path of each file and device below
-- its start whose last component is the word, once and nothing else, as long as the path of each
-- directory leaves room for a name of full length.
import Mathlib.Data.List.GetD
import Mathlib.Data.List.Nodup
import Mathlib.Data.List.TakeWhile

open List

namespace xv6.find

def DIRSIZ : Nat := 14
def BUFSIZE : Nat := 512
def SLASH : UInt8 := 47
def DOT : UInt8 := 46

abbrev Str := List UInt8

def cstr (bs : Str) : Str := bs.takeWhile (· ≠ 0)

def text (name : Str) : Str := cstr (name.take DIRSIZ ++ [0])

/-! ## Directories -/

mutual
/-- What `open` gives: a file or a device, or a directory. -/
inductive Node where
  | leaf (device : Bool)
  | dir (es : Entries)
/-- The entries of a directory. A link has nothing below it: it is free, "." or "..". -/
inductive Entries where
  | nil
  | link (inum : Nat) (name : Str) (rest : Entries)
  | entry (inum : Nat) (name : Str) (node : Node) (rest : Entries)
end

abbrev Skipped (inum : Nat) (name : Str) : Prop :=
  inum = 0 ∨ text name = [DOT] ∨ text name = [DOT, DOT]

def join (path name : Str) : Str := path ++ SLASH :: name

def Entries.names : Entries → List Str
  | .nil => []
  | .link _ _ rest => rest.names
  | .entry _ name _ rest => text name :: rest.names

mutual
def Node.WellFormed : Node → Prop
  | .leaf _ => True
  | .dir es => es.WellFormed
/-- Only free entries, "." and ".." have nothing below, and the other names are distinct. -/
def Entries.WellFormed : Entries → Prop
  | .nil => True
  | .link inum name rest => Skipped inum name ∧ rest.WellFormed
  | .entry inum name n rest => ¬ Skipped inum name ∧ SLASH ∉ text name ∧
      text name ∉ rest.names ∧ n.WellFormed ∧ rest.WellFormed
end

mutual
/-- Every path of the tree has the property, which may ask whether it is that of a directory. -/
def Node.Every (P : Bool → Str → Prop) (path : Str) : Node → Prop
  | .leaf _ => P false path
  | .dir es => P true path ∧ es.Every P path
def Entries.Every (P : Bool → Str → Prop) (path : Str) : Entries → Prop
  | .nil => True
  | .link _ _ rest => rest.Every P path
  | .entry _ name n rest => n.Every P (join path (text name)) ∧ rest.Every P path
end

mutual
/-- The names lead to a file or a device. -/
def Node.Leads : Node → List Str → Prop
  | .leaf _, ns => ns = []
  | .dir es, ns => es.Leads ns
def Entries.Leads : Entries → List Str → Prop
  | .nil, _ => False
  | .link _ _ rest, ns => rest.Leads ns
  | .entry _ name n rest, ns => (∃ ms, ns = text name :: ms ∧ n.Leads ms) ∨ rest.Leads ns
end

def pathOf (path : Str) (ns : List Str) : Str :=
  path ++ ns.flatMap fun n => SLASH :: n

/-! ## The program -/

inductive Out where
  | path (p : Str)
  | tooLong
  | cannotStat (p : Str)
  deriving DecidableEq

/-- The place after the last slash that is before place `i`, or the start. -/
def afterSlash (path : Str) : Nat → Nat
  | 0 => 0
  | i + 1 => if path.getD i 0 = SLASH then i + 1 else afterSlash path i

def fmtname (path : Str) : Str :=
  let p := path.drop (afterSlash path (path.length + 1))
  if p.length ≥ DIRSIZ then p else cstr (p ++ [0])

mutual
def find (str path : Str) : Node → List Out
  | .leaf _ => if str = fmtname path then [.path path] else []
  | .dir es =>
    if path.length + 1 + DIRSIZ + 1 > BUFSIZE then [.tooLong] else findLoop str path es
/-- The loop over the entries; `stat` fails where there is nothing. -/
def findLoop (str path : Str) : Entries → List Out
  | .nil => []
  | .link inum name rest =>
    if Skipped inum name then findLoop str path rest
    else .cannotStat (join path (text name)) :: findLoop str path rest
  | .entry inum name n rest =>
    if Skipped inum name then findLoop str path rest
    else find str (join path (text name)) n ++ findLoop str path rest
end

/-! ## Paths -/

theorem text_ne_zero {name : Str} {b : UInt8} (h : b ∈ text name) : b ≠ 0 := by
  simpa using mem_takeWhile_imp h

theorem pathOf_cons (path n : Str) (ns : List Str) :
    pathOf path (n :: ns) = pathOf (join path n) ns := by
  simp [pathOf, join]

theorem afterSlash_join (path : Str) {n : Str} (h : SLASH ∉ n) (k : Nat) :
    afterSlash (join path n) (path.length + 1 + k) = path.length + 1 := by
  induction k with
  | zero => simp [afterSlash, join]
  | succ k ih =>
    have hne : (join path n).getD (path.length + 1 + k) 0 ≠ SLASH := by
      intro hc
      rw [join, getD_append_right _ _ _ _ (by omega),
        show path.length + 1 + k - path.length = k + 1 by omega, getD_cons_succ] at hc
      by_cases hk : k < n.length
      · rw [getD_eq_getElem _ _ hk] at hc
        exact h (hc ▸ getElem_mem hk)
      · rw [getD_eq_default _ _ (by omega)] at hc
        cases hc
    rw [← Nat.add_assoc, afterSlash, if_neg hne, ih]

theorem fmtname_join (path : Str) {n : Str} (h : SLASH ∉ n) (h0 : ∀ b ∈ n, b ≠ 0) :
    fmtname (join path n) = n := by
  have hlen : (join path n).length + 1 = path.length + 1 + (n.length + 1) := by
    simp [join]
    omega
  have hdrop : (join path n).drop (path.length + 1) = n := by
    simp [join, drop_append]
  dsimp only [fmtname]
  rw [hlen, afterSlash_join path h, hdrop]
  split
  · rfl
  · rw [cstr, takeWhile_append_of_pos (by simpa using h0)]
    simp

theorem pathOf_head {path n m : Str} {ns ms : List Str} (hn : SLASH ∉ n) (hm : SLASH ∉ m)
    (h : pathOf path (n :: ns) = pathOf path (m :: ms)) : n = m := by
  have hfirst : ∀ {n : Str}, SLASH ∉ n → ∀ ns : List Str,
      (n ++ ns.flatMap fun m => SLASH :: m).takeWhile (· ≠ SLASH) = n := by
    intro n hn ns
    rw [takeWhile_append_of_pos (by simpa using fun b hb (hc : b = SLASH) => hn (hc ▸ hb))]
    cases ns <;> simp
  simp only [pathOf, flatMap_cons, cons_append, append_cancel_left_eq,
    List.cons.injEq, true_and] at h
  rw [← hfirst hn ns, h, hfirst hm ms]

/-! ## What is found -/

theorem Entries.leads_head : ∀ {es : Entries} {ns : List Str}, es.WellFormed →
    es.Leads ns → ∃ m ms, ns = m :: ms ∧ m ∈ es.names ∧ SLASH ∉ m
  | .nil, _, _, h => by simp [Entries.Leads] at h
  | .link _ _ rest, ns, hw, h => by
    exact rest.leads_head hw.2 h
  | .entry _ name n rest, ns, hw, h => by
    simp only [Entries.names, mem_cons]
    rcases h with ⟨ms, hns, -⟩ | h
    · exact ⟨_, ms, hns, .inl rfl, hw.2.1⟩
    · obtain ⟨m, ms, hns, hm, hs⟩ := rest.leads_head hw.2.2.2.2 h
      exact ⟨m, ms, hns, .inr hm, hs⟩

/-- The path of a directory leaves room for a slash, a name and its end. -/
def Room (isdir : Bool) (path : Str) : Prop :=
  isdir = true → path.length + 1 + DIRSIZ + 1 ≤ BUFSIZE

theorem find_dir {es : Entries} {path : Str} (hr : Room true path) (str : Str) :
    find str path (.dir es) = findLoop str path es := by
  have h := hr rfl
  simp only [find]
  rw [if_neg (by omega)]

mutual
theorem Node.find_spec {n : Node} (hw : n.WellFormed) (str : Str) {path name : Str}
    (hr : n.Every Room path) (hn : fmtname path = name) :
    (∀ o, o ∈ find str path n ↔ ∃ ns, n.Leads ns ∧ (name :: ns).getLast? = some str ∧
      o = .path (pathOf path ns)) ∧ (find str path n).Nodup := by
  match n with
  | .leaf _ =>
    subst hn
    by_cases h : str = fmtname path
    · simp [find, Node.Leads, pathOf, h]
    · simp [find, Node.Leads, pathOf, h, Ne.symm h]
  | .dir es =>
    simp only [Node.WellFormed, Node.Every] at hw hr
    rw [find_dir hr.1]
    refine ⟨fun o => ?_, (es.findLoop_spec hw str hr.2).2⟩
    rw [(es.findLoop_spec hw str hr.2).1 o]
    refine exists_congr fun ns => and_congr_right fun h => ?_
    obtain ⟨m, ms, rfl, -⟩ := es.leads_head hw h
    rw [getLast?_cons_cons]
theorem Entries.findLoop_spec {es : Entries} (hw : es.WellFormed) (str : Str) {path : Str}
    (hr : es.Every Room path) :
    (∀ o, o ∈ findLoop str path es ↔ ∃ ns, es.Leads ns ∧ ns.getLast? = some str ∧
      o = .path (pathOf path ns)) ∧ (findLoop str path es).Nodup := by
  match es with
  | .nil => simp [findLoop, Entries.Leads]
  | .link inum name rest =>
    simp only [findLoop, Entries.Leads]
    rw [if_pos hw.1]
    exact rest.findLoop_spec hw.2 str hr
  | .entry inum name n rest =>
    simp only [Entries.WellFormed, Entries.Every] at hw hr
    obtain ⟨hin, hnd⟩ := n.find_spec hw.2.2.2.1 str hr.1
      (fmtname_join path hw.2.1 fun b => text_ne_zero)
    obtain ⟨hin', hnd'⟩ := rest.findLoop_spec hw.2.2.2.2 str hr.2
    simp only [findLoop, Entries.Leads]
    rw [if_neg hw.1]
    refine ⟨fun o => ?_, List.Nodup.append hnd hnd' fun o h1 h2 => ?_⟩
    · rw [mem_append, hin o, hin' o]
      constructor
      · rintro (⟨ms, h, hs, ho⟩ | ⟨ns, h, hs, ho⟩)
        · exact ⟨_, .inl ⟨ms, rfl, h⟩, hs, by rw [ho, pathOf_cons]⟩
        · exact ⟨ns, .inr h, hs, ho⟩
      · rintro ⟨ns, ⟨ms, rfl, h⟩ | h, hs, ho⟩
        · exact .inl ⟨ms, h, hs, by rw [ho, pathOf_cons]⟩
        · exact .inr ⟨ns, h, hs, ho⟩
    · -- a path below this entry and one below a later entry differ in their first name
      obtain ⟨ms, -, -, ho⟩ := (hin o).mp h1
      obtain ⟨ns, hns, -, ho'⟩ := (hin' o).mp h2
      obtain ⟨k, ks, rfl, hk, hslash⟩ := rest.leads_head hw.2.2.2.2 hns
      rw [ho, ← pathOf_cons, Out.path.injEq] at ho'
      exact hw.2.2.1 (pathOf_head hw.2.1 hslash ho' ▸ hk)
end

/-- Where every path fits the buffer, `find` prints the path of each entry of the name, at every
depth, and each path once. -/
theorem find_lists_the_matches (es : Entries) (str path : Str) (hw : es.WellFormed)
    (hr : (Node.dir es).Every Room path) :
    (∀ o, o ∈ find str path (.dir es) ↔
      ∃ ns, es.Leads ns ∧ ns.getLast? = some str ∧ o = .path (pathOf path ns)) ∧
    (find str path (.dir es)).Nodup := by
  simp only [Node.Every] at hr
  rw [find_dir hr.1]
  exact es.findLoop_spec hw str hr.2

def oneFile : Entries := .link 1 [DOT] (.entry 2 [97] (.leaf false) .nil)

theorem oneFile_wellFormed : oneFile.WellFormed := by
  simp [oneFile, Entries.WellFormed, Node.WellFormed, Entries.names]
  decide

theorem oneFile_leads : oneFile.Leads [[97]] := by
  simp [oneFile, Entries.Leads, Node.Leads]
  decide

/-- A file in a subdirectory. -/
def nested : Entries := .link 1 [DOT] (.entry 2 [98] (.dir oneFile) .nil)

theorem find_lists_one_file :
    .path [100, SLASH, 98, SLASH, 97] ∈ find [97] [100] (.dir nested) := by
  refine ((find_lists_the_matches nested [97] [100] ?_ ?_).1 _).mpr ⟨[[98], [97]], ?_, rfl, rfl⟩
  · simp [nested, oneFile, Entries.WellFormed, Node.WellFormed, Entries.names]
    decide
  · simp [nested, oneFile, Entries.Every, Node.Every, Room]
    decide
  · simp [nested, oneFile, Entries.Leads, Node.Leads]
    decide

/-- A path of 497 bytes fits the buffer, and yet what lies below it is not listed. -/
theorem find_stops_at_a_long_path :
    oneFile.WellFormed ∧ oneFile.Leads [[97]] ∧
    (Node.dir oneFile).Every (fun _ p => p.length + 1 ≤ BUFSIZE) (List.replicate 497 100) ∧
    find [97] (List.replicate 497 100) (.dir oneFile) = [.tooLong] := by
  refine ⟨oneFile_wellFormed, oneFile_leads, ?_⟩
  have hlen : (List.replicate 497 (100 : UInt8)).length = 497 := List.length_replicate
  generalize List.replicate 497 (100 : UInt8) = path at hlen
  constructor
  · have htext : (text [97]).length = 1 := by decide
    simp [oneFile, Entries.Every, Node.Every, join, hlen, htext, BUFSIZE]
  · simp [find, DIRSIZ, BUFSIZE, hlen]

end xv6.find
