-- The line as a whole. `nulterminate` puts its zeros behind words only, so the
-- words of the command are strings afterwards, and `parsecmd` accepts exactly
-- the lines that the grammar derives.
import Xv6.ShGrammar

open wp List

namespace xv6.sh

/-! ## The zeros behind the words -/

/-- The words of a command. -/
def Cmd.words {α : Type} : Cmd α → List α
  | .exec argv => argv
  | .redir cmd file _ _ => cmd.words ++ [file]
  | .pipe left right => left.words ++ right.words
  | .list left right => left.words ++ right.words
  | .back cmd => cmd.words

lemma Cmd.All.mem {α : Type} {P : α → Prop} {c : Cmd α} (h : c.All P) : ∀ x ∈ c.words, P x := by
  induction c with
  | exec argv => exact h
  | redir cmd file mode fd ih =>
    intro x hx
    rcases mem_append.mp hx with hx | hx
    · exact ih h.1 x hx
    · rw [mem_singleton.mp hx]
      exact h.2
  | pipe left right ih ih' =>
    intro x hx
    rcases mem_append.mp hx with hx | hx
    · exact ih h.1 x hx
    · exact ih' h.2 x hx
  | list left right ih ih' =>
    intro x hx
    rcases mem_append.mp hx with hx | hx
    · exact ih h.1 x hx
    · exact ih' h.2 x hx
  | back cmd ih => exact ih h

lemma Cmd.map_congr {α β : Type} {f g : α → β} {c : Cmd α} (h : ∀ x ∈ c.words, f x = g x) :
    c.map f = c.map g := by
  induction c with
  | exec argv => exact congrArg Cmd.exec (map_congr_left h)
  | redir cmd file mode fd ih =>
    simp only [Cmd.map]
    rw [ih fun x hx => h x (mem_append_left _ hx),
      h file (mem_append_right _ (mem_singleton_self _))]
  | pipe left right ih ih' =>
    simp only [Cmd.map]
    rw [ih fun x hx => h x (mem_append_left _ hx),
      ih' fun x hx => h x (mem_append_right _ hx)]
  | list left right ih ih' =>
    simp only [Cmd.map]
    rw [ih fun x hx => h x (mem_append_left _ hx),
      ih' fun x hx => h x (mem_append_right _ hx)]
  | back cmd ih =>
    simp only [Cmd.map]
    rw [ih h]

def zeros (ws : List Span) (buf : List UInt8) : List UInt8 := ws.foldl (fun b w => b.set w.2 0) buf

lemma nulterminate_eq (c : Cmd Span) (buf : List UInt8) :
    nulterminate c buf = zeros c.words buf := by
  induction c generalizing buf with
  | exec argv => rfl
  | redir cmd file mode fd ih =>
    simp only [nulterminate, ih, Cmd.words, zeros, foldl_append, foldl_cons,
      foldl_nil]
  | pipe left right ih ih' => simp only [nulterminate, ih, ih', Cmd.words, zeros, foldl_append]
  | list left right ih ih' => simp only [nulterminate, ih, ih', Cmd.words, zeros, foldl_append]
  | back cmd ih => exact ih buf

lemma getD_zeros (ws : List Span) (buf : List UInt8) (i : Nat) :
    (zeros ws buf).getD i 0 = if ∃ w ∈ ws, w.2 = i then 0 else buf.getD i 0 := by
  induction ws generalizing buf with
  | nil => simp [zeros]
  | cons w ws ih =>
    rw [show zeros (w :: ws) buf = zeros ws (buf.set w.2 0) from rfl, ih]
    by_cases hw : w.2 = i
    · have hset : (buf.set w.2 0).getD i 0 = 0 := by
        rw [← hw]
        simp only [getD_eq_getElem?_getD, getElem?_set_self']
        cases buf[w.2]? <;> rfl
      rw [hset, ite_self, if_pos ⟨w, mem_cons_self .., hw⟩]
    · have hset : (buf.set w.2 0).getD i 0 = buf.getD i 0 := by
        simp only [getD_eq_getElem?_getD, getElem?_set_ne hw]
      have hiff : (∃ v ∈ w :: ws, v.2 = i) ↔ ∃ v ∈ ws, v.2 = i := by
        simp [hw]
      rw [hset]
      simp only [hiff]

lemma length_zeros (ws : List Span) (buf : List UInt8) : (zeros ws buf).length = buf.length := by
  induction ws generalizing buf with
  | nil => rfl
  | cons w ws ih =>
    rw [show zeros (w :: ws) buf = zeros ws (buf.set w.2 0) from rfl, ih, length_set]

def cstr (buf : List UInt8) (q : Nat) : Word := (buf.drop q).takeWhile (· ≠ 0)

lemma cstr_eq {buf : List UInt8} {q n : Nat} (hle : q + n ≤ buf.length)
    (hin : ∀ i < n, buf.getD (q + i) 0 ≠ 0) (hend : buf.getD (q + n) 0 = 0) :
    cstr buf q = (buf.drop q).take n := by
  induction n generalizing q with
  | zero =>
    unfold cstr
    rw [take_zero]
    by_cases hq : q < buf.length
    · rw [drop_eq_getElem_cons hq, takeWhile_cons_of_neg]
      rw [Nat.add_zero, getD_eq_getElem _ _ hq] at hend
      simp [hend]
    · rw [drop_eq_nil_of_le (by omega)]
      rfl
  | succ n ih =>
    have hq : q < buf.length := by omega
    have h0 := hin 0 (by omega)
    rw [Nat.add_zero, getD_eq_getElem _ _ hq] at h0
    have hnext := ih (q := q + 1) (by omega)
      (fun i hi => by rw [Nat.add_assoc, Nat.add_comm 1 i]; exact hin (i + 1) (by omega))
      (by rw [Nat.add_assoc, Nat.add_comm 1 n]; exact hend)
    unfold cstr at hnext ⊢
    rw [drop_eq_getElem_cons hq, takeWhile_cons_of_pos (by simpa using h0),
      take_succ_cons, hnext]

lemma cstr_zeros {buf : List UInt8} {es : Nat} (hl : Ends buf es) {ws : List Span}
    (hws : ∀ w ∈ ws, Spans buf es w) {x : Span} (hx : x ∈ ws) :
    cstr (zeros ws buf) x.1 = text buf x := by
  have hsx := hws x hx
  have hle := hl.le
  have h1 := hsx.start
  have h2 := hsx.le
  have hkeep : ∀ i, x.1 ≤ i → i < x.2 → (zeros ws buf).getD i 0 = buf.getD i 0 := by
    intro i hi hi'
    rw [getD_zeros, if_neg]
    rintro ⟨w, hw, rfl⟩
    rcases (hws w hw).stop with he | hno
    · omega
    · rw [hsx.chars _ hi hi'] at hno
      cases hno
  have hsum : x.1 + (x.2 - x.1) = x.2 := by omega
  rw [cstr_eq (n := x.2 - x.1) (by rw [length_zeros]; omega)]
  · unfold text
    rw [drop_take]
    apply ext_getElem
    · simp only [length_take, length_drop, length_zeros]
    · intro i hi hi'
      simp only [length_take, length_drop] at hi'
      have hb : x.1 + i < buf.length := by omega
      have hz : x.1 + i < (zeros ws buf).length := by
        rw [length_zeros]
        exact hb
      have hk := hkeep (x.1 + i) (by omega) (by omega)
      rw [getD_eq_getElem _ _ hb, getD_eq_getElem _ _ hz] at hk
      simpa using hk
  · intro i hi
    rw [hkeep _ (by omega) (by omega)]
    exact hl.inside _ (by omega)
  · rw [hsum, getD_zeros, if_pos ⟨x, hx, rfl⟩]

def Cmd.strings (c : Cmd Span) (buf : List UInt8) : Cmd Word := c.map fun w => cstr buf w.1

lemma Reads.strings {buf : List UInt8} {es : Nat} (hl : Ends buf es) {c : Cmd Span} {d : Cmd Word}
    (h : Reads buf es c d) : c.strings (nulterminate c buf) = d := by
  rw [nulterminate_eq, ← h.map]
  exact Cmd.map_congr fun x hx => cstr_zeros hl h.all.mem hx

/-! ## The whole line -/

lemma at_start {buf : List UInt8} {es : Nat} : At buf es 0 (tokens (buf.take es)) :=
  ⟨Nat.zero_le _, by rw [rest, drop_zero]⟩

lemma tokens_left {buf : List UInt8} {es s : Nat} (hl : Ends buf es) {ts : List Tok}
    (h : At buf es s ts) (hs : skipSpace buf es s = es) : ts = [] := by
  have := (h.skip hl).toks
  rw [hs, rest_nil (le_refl _), tokens_none rfl] at this
  exact this.symm

lemma skipSpace_of_nil {buf : List UInt8} {es s : Nat} (hl : Ends buf es) (h : At buf es s []) :
    skipSpace buf es s = es := by
  rcases skipSpace_stop hl h.le with he | ⟨hlt, hsp⟩
  · exact he
  · obtain ⟨t, hlex, _⟩ := tokenAt_some hl hlt hsp
    have := (h.skip hl).toks
    rw [tokens_at_token hl hlt hsp, hlex] at this
    cases this

lemma sound_parsewhole {buf : List UInt8} {es : Nat} (hl : Ends buf es) :
    Wp (parsewhole buf es) (fun c _ => ∃ d, Derives .line (tokens (buf.take es)) d ∧
      Reads buf es c d) Ran 0 := by
  have hlen := at_start.length_le hl
  refine ((sound_all hl _).line at_start (by omega)).bind ?_
  rintro c s ⟨us, vs, d, hts, hat, hd, hc⟩
  unfold peek
  rw [wp_bind, wp_get_bind, wp_set_bind, wp_pure, wp_get_bind]
  apply wp_ite <;> intro hs
  · rw [wp_throw]
    exact ran_panic _
  · rw [wp_pure]
    have hnil := tokens_left hl hat (not_not.mp hs)
    rw [hnil, append_nil] at hts
    rw [hts]
    exact ⟨d, hd, hc⟩

lemma complete_parsewhole {buf : List UInt8} {es : Nat} (hl : Ends buf es) {d : Cmd Word}
    (hd : Derives .line (tokens (buf.take es)) d) :
    Wp (parsewhole buf es) (fun c _ => Reads buf es c d) (fun _ => False) 0 := by
  have hlen := at_start.length_le hl
  have hat : At buf es 0 (tokens (buf.take es) ++ []) := by
    rw [append_nil]
    exact at_start
  refine (complete_parse hl hd hat (fun t ht => by cases ht) (n := 4 * es + 4) ?_).bind ?_
  · simp only [append_nil, Part.depth]
    omega
  · rintro c s ⟨hc, h₁⟩
    unfold peek
    rw [wp_bind, wp_get_bind, wp_set_bind, wp_pure, wp_get_bind]
    rw [if_neg (not_not.mpr (skipSpace_of_nil hl h₁)), wp_pure]
    exact hc

lemma take_strlen (line : List UInt8) : line.take (strlen line) = line.takeWhile (· ≠ 0) :=
  takeWhile_append_drop _ line

/-- The parser ends on every line, and gives a command exactly when the tokens of the line
derive one, which is that command with its words. -/
theorem parser_accepts_its_grammar (line : List UInt8) :
    parsecmd line ≠ .error .rounds ∧ ∀ d, (∃ c buf, parsecmd line = .ok (c, buf) ∧
      c.strings buf = d) ↔ Derives .line (tokens (line.takeWhile (· ≠ 0))) d := by
  have hl := ends_strlen line
  have hsound := sound_parsewhole hl
  rw [take_strlen] at hsound
  refine ⟨?_, fun d => ⟨?_, fun hd => ?_⟩⟩
  · intro h
    unfold parsecmd at h
    split at h
    · cases h
    · rename_i e hrun
      cases h
      exact hsound.of_error hrun rfl
  · rintro ⟨c, buf, h, rfl⟩
    unfold parsecmd at h
    split at h
    · rename_i c' s hrun
      cases h
      obtain ⟨d, hd, hc⟩ := hsound.of_ok hrun
      rw [hc.strings hl]
      exact hd
    · cases h
  · rw [← take_strlen] at hd
    obtain ⟨c, s, hrun, hc⟩ := (complete_parsewhole hl hd).exists_ok
    refine ⟨c, nulterminate c line, ?_, hc.strings hl⟩
    unfold parsecmd
    rw [hrun]

end xv6.sh
