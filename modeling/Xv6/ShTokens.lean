-- The tokens of a line, as `gettoken` and `peek` find them. The cursor stands
-- for the tokens that are left, so the rest of the parser need not look at
-- characters.
import Xv6.Sh
import Xv6.Lib.Wp
import Mathlib.Data.List.DropRight
import Mathlib.Data.List.GetD
import Mathlib.Data.List.TakeWhile
import Mathlib.Order.Basic

open wp List

namespace xv6.sh

/-! ## The tokens of a line -/

abbrev Word := List UInt8

inductive Tok where
  | bar
  | lpar
  | rpar
  | semi
  | amp
  | lt
  | gt
  | app
  | word (w : Word)
  deriving DecidableEq

/-- The first token of characters that do not start with a blank, and what comes after. -/
def lex : List UInt8 → Option (Tok × List UInt8)
  | [] => none
  | c :: cs =>
    if c = BAR then some (.bar, cs)
    else if c = LPAR then some (.lpar, cs)
    else if c = RPAR then some (.rpar, cs)
    else if c = SEMI then some (.semi, cs)
    else if c = AMP then some (.amp, cs)
    else if c = LT then some (.lt, cs)
    else if c = GT then
      if cs.head? = some GT then some (.app, cs.tail) else some (.gt, cs)
    else some (.word (c :: cs.takeWhile isWord), cs.dropWhile isWord)

lemma lex_length {cs rest : List UInt8} {t : Tok} (h : lex cs = some (t, rest)) :
    rest.length < cs.length := by
  cases cs with
  | nil => cases h
  | cons c cs =>
    have hdrop := (dropWhile_suffix (l := cs) isWord).length_le
    have htail : cs.tail.length ≤ cs.length := by simp
    simp only [lex] at h
    simp only [length_cons]
    split_ifs at h <;> cases h <;> omega

/-- The tokens of a line: the longest first token, and so on. -/
def tokens (cs : List UInt8) : List Tok :=
  match h : lex (cs.dropWhile isSpace) with
  | none => []
  | some (t, rest) =>
    have _hlt := lex_length h
    t :: tokens rest
termination_by cs.length
decreasing_by
  have h2 := (List.dropWhile_suffix (l := cs) isSpace).length_le
  omega

lemma tokens_none {cs : List UInt8} (h : lex (cs.dropWhile isSpace) = none) : tokens cs = [] := by
  rw [tokens]
  split
  · rfl
  · rename_i h'
    rw [h] at h'
    cases h'

lemma tokens_some {cs rest : List UInt8} {t : Tok}
    (h : lex (cs.dropWhile isSpace) = some (t, rest)) : tokens cs = t :: tokens rest := by
  rw [tokens]
  split
  · rename_i h'
    rw [h] at h'
    cases h'
  · rename_i h'
    rw [h] at h'
    cases h'
    rfl

lemma tokens_dropWhile (cs : List UInt8) : tokens (cs.dropWhile isSpace) = tokens cs := by
  cases h : lex (cs.dropWhile isSpace) with
  | none =>
    rw [tokens_none h, tokens_none]
    rw [dropWhile_idempotent]
    exact h
  | some r =>
    rw [tokens_some h, tokens_some]
    rw [dropWhile_idempotent]
    exact h

lemma tokens_length (cs : List UInt8) : (tokens cs).length ≤ cs.length := by
  induction hn : cs.length using Nat.strongRecOn generalizing cs with
  | ind n ih =>
    cases h : lex (cs.dropWhile isSpace) with
    | none =>
      rw [tokens_none h]
      exact Nat.zero_le _
    | some r =>
      have h1 := lex_length h
      have h2 := (dropWhile_suffix (l := cs) isSpace).length_le
      have h3 := ih r.2.length (by omega) r.2 rfl
      rw [tokens_some h, length_cons]
      omega

/-! ## The cursor and the tokens -/

def rest (buf : List UInt8) (es s : Nat) : List UInt8 := (buf.take es).drop s

/-- The line ends at `es`, at its first zero. -/
structure Ends (buf : List UInt8) (es : Nat) : Prop where
  le : es ≤ buf.length
  inside : ∀ s < es, buf.getD s 0 ≠ 0
  nul : buf.getD es 0 = 0

lemma takeWhile_append_drop (p : UInt8 → Bool) (buf : List UInt8) :
    buf.take (buf.takeWhile p).length = buf.takeWhile p := by
  conv =>
    lhs
    arg 2
    rw [← takeWhile_append_dropWhile (p := p) (l := buf)]
  exact take_left' rfl

lemma ends_strlen (buf : List UInt8) : Ends buf (strlen buf) := by
  have hget : ∀ n, buf.getD n 0 =
      (buf.takeWhile (· ≠ 0) ++ buf.dropWhile (· ≠ 0)).getD n 0 := by
    intro n
    rw [takeWhile_append_dropWhile]
  unfold strlen
  refine ⟨?_, ?_, ?_⟩
  · exact (List.takeWhile_prefix _).length_le
  · intro s hs
    have hmem := getElem_mem hs
    rw [hget, getD_append _ _ _ _ hs, getD_eq_getElem _ _ hs]
    simpa using mem_takeWhile_imp hmem
  · rw [hget, getD_append_right _ _ _ _ (le_refl _), Nat.sub_self]
    cases hd : buf.dropWhile fun c => decide (c ≠ 0) with
    | nil => rfl
    | cons c cs =>
      have hne : buf.dropWhile (fun c => decide (c ≠ 0)) ≠ [] := by
        rw [hd]
        exact cons_ne_nil _ _
      have hhead := head_dropWhile_not (fun c : UInt8 => decide (c ≠ 0)) hne
      simp only [hd, head_cons] at hhead
      simpa using hhead

section
variable {buf : List UInt8} {es : Nat} (hl : Ends buf es)
include hl

lemma rest_cons {s : Nat} (h : s < es) :
    rest buf es s = buf.getD s 0 :: rest buf es (s + 1) := by
  have hlen : s < (buf.take es).length := by
    rw [length_take]
    have := hl.le
    omega
  unfold rest
  rw [drop_eq_getElem_cons hlen]
  congr 1
  rw [getElem_take, getD_eq_getElem _ _ (by have := hl.le; omega)]

omit hl in
lemma rest_nil {s : Nat} (h : es ≤ s) : rest buf es s = [] := by
  apply drop_eq_nil_of_le
  rw [length_take]
  omega

lemma rest_length (s : Nat) : (rest buf es s).length = es - s := by
  have := hl.le
  unfold rest
  rw [length_drop, length_take]
  omega

lemma scan_spec (p : UInt8 → Bool) {n s : Nat} (hn : es - s ≤ n) (hs : s ≤ es) :
    rest buf es (scan buf es p n s) = (rest buf es s).dropWhile p ∧
      scan buf es p n s = s + ((rest buf es s).takeWhile p).length := by
  induction n generalizing s with
  | zero =>
    have hse : s = es := by omega
    subst hse
    simp [scan, rest_nil (le_refl s)]
  | succ n ih =>
    unfold scan
    by_cases hlt : s < es
    · rw [rest_cons hl hlt]
      by_cases hp : p (buf.getD s 0) = true
      · rw [if_pos ⟨hlt, hp⟩, dropWhile_cons_of_pos hp, takeWhile_cons_of_pos hp]
        obtain ⟨h1, h2⟩ := ih (s := s + 1) (by omega) (by omega)
        refine ⟨h1, ?_⟩
        rw [h2, length_cons]
        omega
      · rw [if_neg (fun h => hp h.2), dropWhile_cons_of_neg hp, takeWhile_cons_of_neg hp,
          rest_cons hl hlt]
        exact ⟨rfl, rfl⟩
    · rw [if_neg (fun h => hlt h.1), rest_nil (by omega)]
      exact ⟨rfl, rfl⟩

lemma scan_le (p : UInt8 → Bool) {n s : Nat} (hn : es - s ≤ n) (hs : s ≤ es) :
    scan buf es p n s ≤ es := by
  have h1 := (scan_spec hl p hn hs).2
  have h2 := (List.takeWhile_prefix (l := rest buf es s) p).length_le
  have h3 := rest_length hl s
  omega

/-- The cursor is in the line, and these tokens are left. -/
structure At (buf : List UInt8) (es s : Nat) (ts : List Tok) : Prop where
  le : s ≤ es
  toks : tokens (rest buf es s) = ts

omit hl in
lemma At.skip (hl : Ends buf es) {s : Nat} {ts : List Tok} (h : At buf es s ts) :
    At buf es (skipSpace buf es s) ts := by
  refine ⟨scan_le hl _ (le_refl _) h.le, ?_⟩
  unfold skipSpace
  rw [(scan_spec hl isSpace (le_refl _) h.le).1, tokens_dropWhile, h.toks]

lemma At.length_le {s : Nat} {ts : List Tok} (h : At buf es s ts) : ts.length ≤ es := by
  have h1 := tokens_length (rest buf es s)
  have h2 := rest_length hl s
  rw [h.toks] at h1
  omega

end

/-! ## The functions that read tokens -/

/-- What `gettoken` returns for a token. -/
def Tok.code : Tok → UInt8
  | .bar => BAR
  | .lpar => LPAR
  | .rpar => RPAR
  | .semi => SEMI
  | .amp => AMP
  | .lt => LT
  | .gt => GT
  | .app => APPEND
  | .word _ => WORD

/-- The first character of a token that is a symbol. -/
def Tok.lead : Tok → UInt8
  | .bar => BAR
  | .lpar => LPAR
  | .rpar => RPAR
  | .semi => SEMI
  | .amp => AMP
  | .lt => LT
  | .gt => GT
  | .app => GT
  | .word _ => 0

def text (buf : List UInt8) (x : Span) : Word := (buf.take x.2).drop x.1

/-- A span is a whole word of the line. -/
structure Spans (buf : List UInt8) (es : Nat) (x : Span) : Prop where
  start : x.1 ≤ x.2
  le : x.2 ≤ es
  chars : ∀ i, x.1 ≤ i → i < x.2 → isWord (buf.getD i 0) = true
  stop : x.2 = es ∨ isWord (buf.getD x.2 0) = false

section
variable {buf : List UInt8} {es : Nat} (hl : Ends buf es)
include hl

lemma rest_getD {s i : Nat} (h : s + i < es) : (rest buf es s).getD i 0 = buf.getD (s + i) 0 := by
  have hlen : s + i < buf.length := lt_of_lt_of_le h hl.le
  have hrest : i < (rest buf es s).length := by
    rw [rest_length hl]
    omega
  rw [getD_eq_getElem _ _ hrest, getD_eq_getElem _ _ hlen]
  simp [rest]

lemma spans_scan {s : Nat} (hs : s ≤ es) :
    Spans buf es (s, scan buf es isWord (es - s) s) ∧
      text buf (s, scan buf es isWord (es - s) s) = (rest buf es s).takeWhile isWord := by
  obtain ⟨h1, h2⟩ := scan_spec hl isWord (le_refl (es - s)) hs
  have hle := scan_le hl isWord (le_refl (es - s)) hs
  have hsplit : (rest buf es s).takeWhile isWord ++ (rest buf es s).dropWhile isWord =
      rest buf es s := takeWhile_append_dropWhile
  generalize scan buf es isWord (es - s) s = k at *
  refine ⟨⟨by simp only; omega, hle, ?_, ?_⟩, ?_⟩
  · intro i hi hik
    simp only at hi hik
    have hin : i - s < ((rest buf es s).takeWhile isWord).length := by omega
    have hget := rest_getD hl (show s + (i - s) < es by omega)
    rw [Nat.add_sub_cancel' hi, ← hsplit, getD_append _ _ _ _ hin,
      getD_eq_getElem _ _ hin] at hget
    rw [← hget]
    exact mem_takeWhile_imp (getElem_mem hin)
  · by_cases hk : k = es
    · exact .inl hk
    · right
      have hcons := rest_cons hl (lt_of_le_of_ne hle hk)
      rw [h1] at hcons
      have hne : (rest buf es s).dropWhile isWord ≠ [] := by
        rw [hcons]
        exact cons_ne_nil _ _
      have hhead := head_dropWhile_not isWord hne
      simpa only [hcons, head_cons] using hhead
  · have htake : (buf.take k).drop s = (rest buf es s).take (k - s) := by
      unfold rest
      rw [← drop_take, take_take, Nat.min_eq_left hle]
    have hlen : k - s = ((rest buf es s).takeWhile isWord).length := by omega
    unfold text
    rw [htake, hlen]
    conv =>
      lhs
      arg 2
      rw [← hsplit]
    exact take_left' rfl

variable {c : UInt8} {cs : List UInt8}

lemma head_rest_eq {s : Nat} (hs : s ≤ es) (hc : c ≠ 0) :
    (rest buf es s).head? = some c ↔ buf.getD s 0 = c := by
  by_cases hlt : s < es
  · rw [rest_cons hl hlt, head?_cons, Option.some_inj]
  · have hse : s = es := by omega
    subst hse
    rw [rest_nil (le_refl s), hl.nul]
    constructor
    · intro h
      cases h
    · intro h
      exact absurd h.symm hc

lemma rest_tail {s : Nat} (hs : s ≤ es) : (rest buf es s).tail = rest buf es (s + 1) := by
  by_cases hlt : s < es
  · rw [rest_cons hl hlt, tail_cons]
  · rw [rest_nil (by omega), rest_nil (by omega), tail_nil]

omit hl in
lemma lex_symbol (cs : List UInt8) (h : c ∈ [BAR, LPAR, RPAR, SEMI, AMP, LT]) :
    ∃ t, lex (c :: cs) = some (t, cs) ∧ t.code = c ∧ t.lead = c ∧ ∀ w, t ≠ .word w := by
  simp only [mem_cons, not_mem_nil, or_false] at h
  rcases h with rfl | rfl | rfl | rfl | rfl | rfl
  · exact ⟨.bar, rfl, rfl, rfl, fun _ => by simp⟩
  · exact ⟨.lpar, rfl, rfl, rfl, fun _ => by simp⟩
  · exact ⟨.rpar, rfl, rfl, rfl, fun _ => by simp⟩
  · exact ⟨.semi, rfl, rfl, rfl, fun _ => by simp⟩
  · exact ⟨.amp, rfl, rfl, rfl, fun _ => by simp⟩
  · exact ⟨.lt, rfl, rfl, rfl, fun _ => by simp⟩

omit hl in
lemma lex_app (h : cs.head? = some GT) :
    lex (GT :: cs) = some (.app, cs.tail) := by
  simp only [lex, if_pos h]
  rfl

omit hl in
lemma lex_gt (h : cs.head? ≠ some GT) : lex (GT :: cs) = some (.gt, cs) := by
  simp only [lex, if_neg h]
  rfl

omit hl in
lemma lex_word (cs : List UInt8) (h : c ∉ [BAR, LPAR, RPAR, SEMI, AMP, LT])
    (hgt : c ≠ GT) :
    lex (c :: cs) = some (.word (c :: cs.takeWhile isWord), cs.dropWhile isWord) := by
  simp only [mem_cons, not_mem_nil, or_false, not_or] at h
  obtain ⟨h1, h2, h3, h4, h5, h6⟩ := h
  simp [lex, h1, h2, h3, h4, h5, h6, hgt]

omit hl in
lemma isWord_of_plain (hsp : isSpace c = false)
    (hsym : c ∉ [BAR, LPAR, RPAR, SEMI, AMP, LT]) (hgt : c ≠ GT) : isWord c = true := by
  simp only [isSpace, decide_eq_false_iff_not] at hsp
  simp only [mem_cons, not_mem_nil, or_false, not_or] at hsym
  obtain ⟨h1, h2, h3, h4, h5, h6⟩ := hsym
  simp [isWord, hsp, symbols, h1, h2, h3, h4, h5, h6, hgt]

omit hl in
lemma lex_lead {cs r : List UInt8} {t : Tok} (h : lex (c :: cs) = some (t, r)) :
    t.lead = c ∧ c ∈ symbols ∨ t.lead = 0 ∧ c ∉ symbols := by
  by_cases hsym : c ∈ [BAR, LPAR, RPAR, SEMI, AMP, LT]
  · obtain ⟨t', hlex, _, hlead, _⟩ := lex_symbol cs hsym
    rw [hlex] at h
    cases h
    left
    refine ⟨hlead, ?_⟩
    revert hsym
    simp only [mem_cons, not_mem_nil, or_false, symbols]
    tauto
  · by_cases hgt : c = GT
    · subst hgt
      left
      refine ⟨?_, by decide⟩
      by_cases happ : cs.head? = some GT
      · rw [lex_app happ] at h
        cases h
        rfl
      · rw [lex_gt happ] at h
        cases h
        rfl
    · rw [lex_word cs hsym hgt] at h
      cases h
      right
      refine ⟨rfl, ?_⟩
      simp only [mem_cons, not_mem_nil, or_false, not_or] at hsym
      obtain ⟨h1, h2, h3, h4, h5, h6⟩ := hsym
      simp [symbols, h1, h2, h3, h4, h5, h6, hgt]

lemma tokenAt_some {s : Nat} (hs : s < es) (hsp : isSpace (buf.getD s 0) = false) :
    ∃ t, lex (rest buf es s) = some (t, rest buf es (tokenAt buf es s).eq) ∧
      (tokenAt buf es s).ret = t.code ∧ (tokenAt buf es s).eq ≤ es ∧
      ∀ w, t = .word w → Spans buf es ((tokenAt buf es s).q, (tokenAt buf es s).eq) ∧
        text buf ((tokenAt buf es s).q, (tokenAt buf es s).eq) = w := by
  have hc0 := hl.inside s hs
  unfold tokenAt
  simp only [if_neg hc0]
  by_cases hsym : buf.getD s 0 ∈ [BAR, LPAR, RPAR, SEMI, AMP, LT]
  · obtain ⟨t, hlex, hcode, _, hno⟩ := lex_symbol (rest buf es (s + 1)) hsym
    rw [if_pos hsym, rest_cons hl hs]
    exact ⟨t, hlex, hcode.symm, hs, fun w hw => absurd hw (hno w)⟩
  · rw [if_neg hsym]
    by_cases hgt : buf.getD s 0 = GT
    · have hnext := head_rest_eq hl (show s + 1 ≤ es by omega) (show GT ≠ 0 by decide)
      rw [if_pos hgt, rest_cons hl hs, hgt]
      by_cases happ : buf.getD (s + 1) 0 = GT
      · have hlt : s + 1 < es := by
          by_contra hge
          have hse : s + 1 = es := by omega
          rw [hse, hl.nul] at happ
          cases happ
        rw [if_pos happ]
        refine ⟨.app, ?_, rfl, hlt, fun w hw => by cases hw⟩
        rw [← rest_tail hl (show s + 1 ≤ es by omega)]
        exact lex_app (hnext.mpr happ)
      · rw [if_neg happ]
        refine ⟨.gt, ?_, rfl, hs, fun w hw => by cases hw⟩
        exact lex_gt fun h => happ (hnext.mp h)
    · -- neither a blank nor a symbol: the word starts here
      have hword := isWord_of_plain hsp hsym hgt
      obtain ⟨hspan, htext⟩ := spans_scan hl (Nat.le_of_lt hs)
      obtain ⟨hscan, _⟩ := scan_spec hl isWord (le_refl (es - s)) (Nat.le_of_lt hs)
      rw [rest_cons hl hs, takeWhile_cons_of_pos hword] at htext
      rw [rest_cons hl hs, dropWhile_cons_of_pos hword] at hscan
      rw [if_neg hgt, rest_cons hl hs, lex_word _ hsym hgt, ← hscan]
      refine ⟨_, rfl, rfl, hspan.le, fun w hw => ?_⟩
      cases hw
      exact ⟨hspan, htext⟩

variable {s : Nat} {ts : List Tok} {E : Fail → Prop}

lemma skipSpace_stop (hs : s ≤ es) : skipSpace buf es s = es ∨
    skipSpace buf es s < es ∧ isSpace (buf.getD (skipSpace buf es s) 0) = false := by
  have hle := scan_le hl isSpace (le_refl (es - s)) hs
  have hrest := (scan_spec hl isSpace (le_refl (es - s)) hs).1
  unfold skipSpace
  by_cases he : scan buf es isSpace (es - s) s = es
  · exact .inl he
  · have hlt := lt_of_le_of_ne hle he
    refine .inr ⟨hlt, ?_⟩
    have hcons := rest_cons hl hlt
    rw [hrest] at hcons
    have hne : (rest buf es s).dropWhile isSpace ≠ [] := by
      rw [hcons]
      exact cons_ne_nil _ _
    have hhead := head_dropWhile_not isSpace hne
    simpa only [hcons, head_cons] using hhead

lemma tokens_at_token (hs : s < es) (hsp : isSpace (buf.getD s 0) = false) :
    tokens (rest buf es s) = match lex (rest buf es s) with
      | none => []
      | some (t, r) => t :: tokens r := by
  have hdrop : (rest buf es s).dropWhile isSpace = rest buf es s := by
    rw [rest_cons hl hs]
    exact dropWhile_cons_of_neg (by rw [hsp]; decide)
  cases h : lex (rest buf es s) with
  | none => exact tokens_none (by rw [hdrop]; exact h)
  | some r => exact tokens_some (by rw [hdrop]; exact h)

lemma wp_gettoken_nil (h : At buf es s []) :
    Wp (gettoken buf es) (fun t s' => t.ret = 0 ∧ At buf es s' []) E s := by
  have hskip := h.skip hl
  have hend : skipSpace buf es s = es := by
    rcases skipSpace_stop hl h.le with he | ⟨hlt, hsp⟩
    · exact he
    · obtain ⟨t, hlex, _⟩ := tokenAt_some hl hlt hsp
      have := hskip.toks
      rw [tokens_at_token hl hlt hsp, hlex] at this
      cases this
  have htok : tokenAt buf es es = ⟨0, es, es⟩ := by
    unfold tokenAt
    simp only [hl.nul, if_true]
  unfold gettoken
  rw [wp_get_bind, wp_set_bind, wp_pure, hend, htok]
  rw [hend] at hskip
  exact ⟨rfl, hskip.skip hl⟩

lemma wp_gettoken_cons {t : Tok} (h : At buf es s (t :: ts)) :
    Wp (gettoken buf es) (fun k s' => k.ret = t.code ∧ At buf es s' ts ∧
      ∀ w, t = .word w → Spans buf es (k.q, k.eq) ∧ text buf (k.q, k.eq) = w) E s := by
  have hskip := h.skip hl
  have hstart : skipSpace buf es s < es ∧ isSpace (buf.getD (skipSpace buf es s) 0) = false := by
    rcases skipSpace_stop hl h.le with he | hlt
    · have := hskip.toks
      rw [he, rest_nil (le_refl _), tokens_none rfl] at this
      cases this
    · exact hlt
  obtain ⟨t', hlex, hret, hle, hword⟩ := tokenAt_some hl hstart.1 hstart.2
  have htoks := hskip.toks
  rw [tokens_at_token hl hstart.1 hstart.2, hlex] at htoks
  injection htoks with h1 h2
  subst h1
  unfold gettoken
  rw [wp_get_bind, wp_set_bind, wp_pure]
  have hat : At buf es (tokenAt buf es (skipSpace buf es s)).eq ts := ⟨hle, h2⟩
  exact ⟨hret, hat.skip hl, hword⟩

def leads (toks : List UInt8) : List Tok → Bool
  | [] => false
  | t :: _ => t.lead ∈ toks

lemma wp_peek {toks : List UInt8} (hsym : toks ⊆ symbols) (h : At buf es s ts) :
    Wp (peek buf es toks) (fun b s' => b = leads toks ts ∧ At buf es s' ts) E s := by
  have hskip := h.skip hl
  unfold peek
  rw [wp_get_bind, wp_set_bind, wp_pure]
  refine ⟨?_, hskip⟩
  rcases skipSpace_stop hl h.le with he | ⟨hlt, hsp⟩
  · have htoks := hskip.toks
    rw [he, rest_nil (le_refl _), tokens_none rfl] at htoks
    rw [he, hl.nul, ← htoks]
    simp [leads]
  · obtain ⟨t, hlex, _⟩ := tokenAt_some hl hlt hsp
    have htoks := hskip.toks
    rw [tokens_at_token hl hlt hsp, hlex] at htoks
    have hc0 := hl.inside _ hlt
    rw [rest_cons hl hlt] at hlex
    rw [← htoks]
    simp only [leads, ne_eq, hc0, not_false_eq_true, true_and]
    rcases lex_lead hlex with ⟨hlead, _⟩ | ⟨hlead, hno⟩
    · rw [hlead]
    · have h0 : (0 : UInt8) ∉ symbols := by decide
      have h1 : (0 : UInt8) ∉ toks := fun h => h0 (hsym h)
      have h2 := fun h => hno (hsym h)
      rw [hlead]
      exact decide_eq_decide.mpr (iff_of_false h2 h1)

end

end xv6.sh
