-- The grammar of the shell and its parser. Each function takes a prefix of the
-- tokens that it derives, and a derivation leads the functions to its own tree.
import Xv6.ShTokens

open wp List

namespace xv6.sh

/-! ## The grammar -/

def Way.tok : Way → Tok
  | .input => .lt
  | .output => .gt
  | .append => .app

def redirToks (rs : List (Redir Word)) : List Tok := rs.flatMap fun r => [r.way.tok, .word r.file]

/-- The words of a command, each with the redirections after it. -/
def argToks (args : List (Word × List (Redir Word))) : List Tok :=
  args.flatMap fun a => .word a.1 :: redirToks a.2

def backs {α : Type} : Nat → Cmd α → Cmd α
  | 0, c => c
  | n + 1, c => backs n (.back c)

inductive Part where
  | line
  | pipe
  | exec

/-- The tokens derive from a part of the grammar, and denote a command. -/
inductive Derives : Part → List Tok → Cmd Word → Prop where
  | line {ts : List Tok} {c : Cmd Word} (n : Nat) : Derives .pipe ts c →
      Derives .line (ts ++ List.replicate n .amp) (backs n c)
  | seq {ts us : List Tok} {c d : Cmd Word} (n : Nat) : Derives .pipe ts c → Derives .line us d →
      Derives .line (ts ++ List.replicate n .amp ++ .semi :: us) (.list (backs n c) d)
  | one {ts : List Tok} {c : Cmd Word} : Derives .exec ts c → Derives .pipe ts c
  | bar {ts us : List Tok} {c d : Cmd Word} : Derives .exec ts c → Derives .pipe us d →
      Derives .pipe (ts ++ .bar :: us) (.pipe c d)
  | block {ts : List Tok} {c : Cmd Word} (rs : List (Redir Word)) : Derives .line ts c →
      Derives .exec (.lpar :: ts ++ .rpar :: redirToks rs) (wrap c rs)
  | simple (rs : List (Redir Word)) (args : List (Word × List (Redir Word))) :
      args.length < MAXARGS →
      Derives .exec (redirToks rs ++ argToks args)
        (wrap (.exec (args.map Prod.fst)) (rs ++ args.flatMap Prod.snd))

/-! ## Commands over places and over words -/

def Redir.map {α β : Type} (f : α → β) (r : Redir α) : Redir β := ⟨r.way, f r.file⟩

def Cmd.map {α β : Type} (f : α → β) : Cmd α → Cmd β
  | .exec argv => .exec (argv.map f)
  | .redir cmd file mode fd => .redir (cmd.map f) (f file) mode fd
  | .pipe left right => .pipe (left.map f) (right.map f)
  | .list left right => .list (left.map f) (right.map f)
  | .back cmd => .back (cmd.map f)

/-- Every word of the command has the property. -/
def Cmd.All {α : Type} (P : α → Prop) : Cmd α → Prop
  | .exec argv => ∀ x ∈ argv, P x
  | .redir cmd file _ _ => cmd.All P ∧ P file
  | .pipe left right => left.All P ∧ right.All P
  | .list left right => left.All P ∧ right.All P
  | .back cmd => cmd.All P

lemma map_wrap {α β : Type} (f : α → β) (c : Cmd α) (rs : List (Redir α)) :
    (wrap c rs).map f = wrap (c.map f) (rs.map (Redir.map f)) := by
  induction rs generalizing c with
  | nil => rfl
  | cons r rs ih => exact ih _

lemma all_wrap {α : Type} {P : α → Prop} {c : Cmd α} {rs : List (Redir α)} (hc : c.All P)
    (hrs : ∀ r ∈ rs, P r.file) : (wrap c rs).All P := by
  induction rs generalizing c with
  | nil => exact hc
  | cons r rs ih =>
    apply ih
    · exact ⟨hc, hrs r (mem_cons_self ..)⟩
    · intro r' hr'
      exact hrs r' (mem_cons_of_mem _ hr')

section
variable (buf : List UInt8) (es : Nat)

/-- The places of the command are words of the line, and give this command. -/
structure Reads (c : Cmd Span) (d : Cmd Word) : Prop where
  map : c.map (text buf) = d
  all : c.All (Spans buf es)

structure ReadsWords (ws : List Span) (vs : List Word) : Prop where
  map : ws.map (text buf) = vs
  all : ∀ w ∈ ws, Spans buf es w

structure ReadsRedirs (rs : List (Redir Span)) (qs : List (Redir Word)) : Prop where
  map : rs.map (Redir.map (text buf)) = qs
  all : ∀ r ∈ rs, Spans buf es r.file

end

section
variable {buf : List UInt8} {es : Nat}

lemma ReadsRedirs.append {rs rs' : List (Redir Span)} {qs qs' : List (Redir Word)}
    (h : ReadsRedirs buf es rs qs) (h' : ReadsRedirs buf es rs' qs') :
    ReadsRedirs buf es (rs ++ rs') (qs ++ qs') := by
  refine ⟨by rw [map_append, h.map, h'.map], ?_⟩
  intro r hr
  rcases mem_append.mp hr with hr | hr
  · exact h.all r hr
  · exact h'.all r hr

lemma ReadsWords.append {ws ws' : List Span} {vs vs' : List Word}
    (h : ReadsWords buf es ws vs) (h' : ReadsWords buf es ws' vs') :
    ReadsWords buf es (ws ++ ws') (vs ++ vs') := by
  refine ⟨by rw [map_append, h.map, h'.map], ?_⟩
  intro w hw
  rcases mem_append.mp hw with hw | hw
  · exact h.all w hw
  · exact h'.all w hw

lemma readsRedirs_nil : ReadsRedirs buf es [] [] := ⟨rfl, fun _ h => by cases h⟩

lemma readsWords_nil : ReadsWords buf es [] [] := ⟨rfl, fun _ h => by cases h⟩

lemma readsRedirs_one {x : Span} {w : Word} (way : Way) (hx : Spans buf es x)
    (hw : text buf x = w) : ReadsRedirs buf es [⟨way, x⟩] [⟨way, w⟩] := by
  subst hw
  refine ⟨rfl, ?_⟩
  intro r hr
  rw [mem_singleton.mp hr]
  exact hx

lemma readsWords_one {x : Span} {w : Word} (hx : Spans buf es x) (hw : text buf x = w) :
    ReadsWords buf es [x] [w] := by
  subst hw
  refine ⟨rfl, ?_⟩
  intro y hy
  rw [mem_singleton.mp hy]
  exact hx

lemma Reads.wrap {c : Cmd Span} {d : Cmd Word} {rs : List (Redir Span)} {qs : List (Redir Word)}
    (h : Reads buf es c d) (hr : ReadsRedirs buf es rs qs) :
    Reads buf es (sh.wrap c rs) (sh.wrap d qs) :=
  ⟨by rw [map_wrap, h.map, hr.map], all_wrap h.all hr.all⟩

lemma ReadsWords.exec {ws : List Span} {vs : List Word} (h : ReadsWords buf es ws vs) :
    Reads buf es (.exec ws) (.exec vs) := ⟨congrArg Cmd.exec h.map, h.all⟩

lemma Reads.back {c : Cmd Span} {d : Cmd Word} (h : Reads buf es c d) :
    Reads buf es (.back c) (.back d) := ⟨congrArg Cmd.back h.map, h.all⟩

lemma Reads.pipe {c c' : Cmd Span} {d d' : Cmd Word} (h : Reads buf es c d)
    (h' : Reads buf es c' d') : Reads buf es (.pipe c c') (.pipe d d') :=
  ⟨congrArg₂ Cmd.pipe h.map h'.map, h.all, h'.all⟩

lemma Reads.list {c c' : Cmd Span} {d d' : Cmd Word} (h : Reads buf es c d)
    (h' : Reads buf es c' d') : Reads buf es (.list c c') (.list d d') :=
  ⟨congrArg₂ Cmd.list h.map h'.map, h.all, h'.all⟩

end

/-! ## What is parsed is derived -/

lemma way_of_lead {t : Tok} (h : t.lead ∈ [LT, GT]) :
    ∃ way, wayOf t.code = some way ∧ way.tok = t := by
  cases t with
  | lt => exact ⟨.input, rfl, rfl⟩
  | gt => exact ⟨.output, rfl, rfl⟩
  | app => exact ⟨.append, rfl, rfl⟩
  | word w => exact absurd h (by simp [Tok.lead]; decide)
  | _ => exact absurd h (by decide)

lemma lead_inj {t u : Tok} (h : t.lead = u.lead) (h0 : u.lead ≠ 0) (hgt : u.lead ≠ GT) :
    t = u := by
  cases t with
  | word w => exact absurd h.symm h0
  | _ =>
    cases u <;>
      first
      | rfl
      | exact absurd rfl h0
      | exact absurd rfl hgt
      | exact absurd h (by decide)

lemma eq_of_leads {u : Tok} {ts : List Tok} (h : leads [u.lead] ts = true) (h0 : u.lead ≠ 0)
    (hgt : u.lead ≠ GT) : ∃ us, ts = u :: us := by
  cases ts with
  | nil => cases h
  | cons t ts =>
    have hlead : t.lead ∈ [u.lead] := of_decide_eq_true h
    exact ⟨ts, by rw [lead_inj (mem_singleton.mp hlead) h0 hgt]⟩

lemma code_ne_zero (t : Tok) : t.code ≠ 0 := by
  cases t with
  | word w => exact show WORD ≠ 0 by decide
  | _ => decide

lemma word_of_code {t : Tok} (h : t.code = WORD) : ∃ w, t = .word w := by
  cases t with
  | word w => exact ⟨w, rfl⟩
  | _ => exact absurd h (by decide)

def Ran (e : Fail) : Prop := e ≠ .rounds

lemma ran_panic (text : String) : Ran (.panic text) := by
  intro h
  cases h

section
variable {buf : List UInt8} {es : Nat} (hl : Ends buf es)
include hl

variable {s : Nat} {ts : List Tok}

lemma sound_parseredirs (n : Nat) (acc : List (Redir Span))
    (h : At buf es s ts) (hn : ts.length < n) :
    Wp (parseredirs buf es n acc) (fun out s' => ∃ rs qs vs, out = acc ++ rs ∧
      ReadsRedirs buf es rs qs ∧ ts = redirToks qs ++ vs ∧ At buf es s' vs) Ran s := by
  induction n generalizing s ts acc with
  | zero => omega
  | succ n ih =>
    refine (wp_peek hl (by decide) h).bind ?_
    rintro b s₁ ⟨hb, h₁⟩
    apply wp_ite <;> intro hyes
    · rw [hb] at hyes
      cases ts with
      | nil => cases hyes
      | cons t ts =>
        obtain ⟨way, hway, htok⟩ := way_of_lead (of_decide_eq_true hyes)
        refine (wp_gettoken_cons hl h₁).bind ?_
        rintro k s₂ ⟨hk, h₂, _⟩
        cases ts with
        | nil =>
          refine (wp_gettoken_nil hl h₂).bind ?_
          rintro f s₃ ⟨hf, _⟩
          rw [if_pos (by rw [hf]; decide), wp_throw]
          exact ran_panic _
        | cons u ts =>
          refine (wp_gettoken_cons hl h₂).bind ?_
          rintro f s₃ ⟨hf, h₃, hspan⟩
          apply wp_ite <;> intro hword
          · rw [wp_throw]
            exact ran_panic _
          · rw [not_not, hf] at hword
            obtain ⟨w, rfl⟩ := word_of_code hword
            obtain ⟨hx, hw⟩ := hspan w rfl
            rw [hk, hway]
            simp only [length_cons] at hn
            refine (ih _ h₃ (by omega)).imp ?_
            rintro out s' ⟨rs, qs, vs, rfl, hr, rfl, hat⟩
            refine ⟨⟨way, (f.q, f.eq)⟩ :: rs, ⟨way, w⟩ :: qs, vs, by simp, ?_, ?_, hat⟩
            · exact (readsRedirs_one way hx hw).append hr
            · rw [← htok]
              rfl
    · rw [wp_pure]
      exact ⟨[], [], ts, by simp, readsRedirs_nil, rfl, h₁⟩

lemma sound_parseargs (n : Nat) (argv : List Span) (acc : List (Redir Span)) (h : At buf es s ts)
    (hn : ts.length < n) (hargv : argv.length < MAXARGS) :
    Wp (parseargs buf es n argv acc) (fun out s' => ∃ ws rs args vs, out = (argv ++ ws, acc ++ rs) ∧
      ReadsWords buf es ws (args.map Prod.fst) ∧ ReadsRedirs buf es rs (args.flatMap Prod.snd) ∧
      argv.length + args.length < MAXARGS ∧ ts = argToks args ++ vs ∧ At buf es s' vs) Ran s := by
  induction n generalizing s ts argv acc with
  | zero => omega
  | succ n ih =>
    have hnone : ∀ {s'}, At buf es s' ts → ∃ (ws : List Span) (rs : List (Redir Span))
        (args : List (Word × List (Redir Word))) (vs : List Tok),
        (argv, acc) = (argv ++ ws, acc ++ rs) ∧
        ReadsWords buf es ws (args.map Prod.fst) ∧ ReadsRedirs buf es rs (args.flatMap Prod.snd) ∧
        argv.length + args.length < MAXARGS ∧ ts = argToks args ++ vs ∧ At buf es s' vs :=
      fun hat => ⟨[], [], [], ts, by simp, readsWords_nil, readsRedirs_nil, hargv, rfl, hat⟩
    refine (wp_peek hl (by decide) h).bind ?_
    rintro b s₁ ⟨_, h₁⟩
    apply wp_ite <;> intro _
    · rw [wp_pure]
      exact hnone h₁
    · cases ts with
      | nil =>
        refine (wp_gettoken_nil hl h₁).bind ?_
        rintro k s₂ ⟨hk, h₂⟩
        rw [if_pos hk, wp_pure]
        exact hnone h₂
      | cons t ts =>
        refine (wp_gettoken_cons hl h₁).bind ?_
        rintro k s₂ ⟨hk, h₂, hspan⟩
        rw [if_neg (by rw [hk]; exact code_ne_zero t)]
        apply wp_ite <;> intro hword
        · rw [wp_throw]
          exact ran_panic _
        · rw [not_not, hk] at hword
          obtain ⟨w, rfl⟩ := word_of_code hword
          obtain ⟨hx, hw⟩ := hspan w rfl
          apply wp_ite <;> intro hfew
          · rw [wp_throw]
            exact ran_panic _
          · have hle := h₂.length_le hl
            refine (sound_parseredirs hl (es + 1) acc h₂ (by omega)).bind ?_
            rintro out s₃ ⟨rs, qs, us, rfl, hr, rfl, h₃⟩
            simp only [length_cons, length_append] at hn
            refine (ih _ _ h₃ (by omega) (by simp; omega)).imp ?_
            rintro out s' ⟨ws, rs', args, vs, rfl, hws, hrs, hlen, rfl, hat⟩
            refine ⟨(k.q, k.eq) :: ws, rs ++ rs', (w, qs) :: args, vs, by simp, ?_, ?_, ?_, ?_, hat⟩
            · exact (readsWords_one hx hw).append hws
            · exact hr.append hrs
            · simp only [length_append, length_cons, length_nil] at hlen ⊢
              omega
            · simp [argToks]

lemma sound_parseback (n : Nat) (cmd : Cmd Span) (d : Cmd Word)
    (h : At buf es s ts) (hn : ts.length < n) (hc : Reads buf es cmd d) :
    Wp (parseback buf es n cmd) (fun out s' => ∃ m vs, Reads buf es out (backs m d) ∧
      ts = List.replicate m .amp ++ vs ∧ At buf es s' vs) Ran s := by
  induction n generalizing s ts cmd d with
  | zero => omega
  | succ n ih =>
    refine (wp_peek hl (by decide) h).bind ?_
    rintro b s₁ ⟨hb, h₁⟩
    apply wp_ite <;> intro hyes
    · rw [hb] at hyes
      obtain ⟨us, rfl⟩ := eq_of_leads (u := .amp) hyes (by decide) (by decide)
      refine (wp_gettoken_cons hl h₁).bind ?_
      rintro k s₂ ⟨_, h₂, _⟩
      simp only [length_cons] at hn
      refine (ih _ _ h₂ (by omega) hc.back).imp ?_
      rintro out s' ⟨m, vs, hout, rfl, hat⟩
      exact ⟨m + 1, vs, hout, by simp [replicate_succ], hat⟩
    · rw [wp_pure]
      exact ⟨0, ts, hc, by simp, h₁⟩

end

/-- A prefix of the tokens was taken, and derives the command. -/
def Parsed (buf : List UInt8) (es : Nat) (part : Part) (ts : List Tok) (c : Cmd Span) (s : Nat) :
    Prop :=
  ∃ us vs d, ts = us ++ vs ∧ At buf es s vs ∧ Derives part us d ∧ Reads buf es c d

/-- What is shown of the four functions together. Each call of one by the other has less to
read or is further down in this order. -/
structure Sound (buf : List UInt8) (es n : Nat) : Prop where
  line : ∀ {s ts}, At buf es s ts → 4 * ts.length + 4 ≤ n →
    Wp (parseline buf es n) (Parsed buf es .line ts) Ran s
  pipe : ∀ {s ts}, At buf es s ts → 4 * ts.length + 3 ≤ n →
    Wp (parsepipe buf es n) (Parsed buf es .pipe ts) Ran s
  exec : ∀ {s ts}, At buf es s ts → 4 * ts.length + 2 ≤ n →
    Wp (parseexec buf es n) (Parsed buf es .exec ts) Ran s
  block : ∀ {s ts}, At buf es s ts → 4 * ts.length + 1 ≤ n →
    Wp (parseblock buf es n) (Parsed buf es .exec ts) Ran s

section
variable {buf : List UInt8} {es : Nat} (hl : Ends buf es)
include hl

variable {n s : Nat} {ts : List Tok}

section

variable (ih : Sound buf es n) (h : At buf es s ts)
include ih h

lemma sound_parseline (hn : 4 * ts.length + 3 ≤ n) :
    Wp (parseline buf es (n + 1)) (Parsed buf es .line ts) Ran s := by
  refine (ih.pipe h hn).bind ?_
  rintro c s₁ ⟨us, vs, d, rfl, h₁, hd, hc⟩
  have hle := h₁.length_le hl
  refine (sound_parseback hl (es + 1) c d h₁ (by omega) hc).bind ?_
  rintro c₂ s₂ ⟨m, ws, hc₂, rfl, h₂⟩
  refine (wp_peek hl (by decide) h₂).bind ?_
  rintro b s₃ ⟨hb, h₃⟩
  apply wp_ite <;> intro hyes
  · rw [hb] at hyes
    obtain ⟨xs, rfl⟩ := eq_of_leads (u := .semi) hyes (by decide) (by decide)
    refine (wp_gettoken_cons hl h₃).bind ?_
    rintro k s₄ ⟨_, h₄, _⟩
    simp only [length_append, length_cons] at hn
    refine (ih.line h₄ (by omega)).bind ?_
    rintro c₅ s₅ ⟨ys, zs, e, rfl, h₅, he, hc₅⟩
    rw [wp_pure]
    exact ⟨_, zs, _, by simp, h₅, Derives.seq m hd he, hc₂.list hc₅⟩
  · rw [wp_pure]
    exact ⟨_, ws, _, by simp, h₃, Derives.line m hd, hc₂⟩

lemma sound_parsepipe (hn : 4 * ts.length + 2 ≤ n) :
    Wp (parsepipe buf es (n + 1)) (Parsed buf es .pipe ts) Ran s := by
  refine (ih.exec h hn).bind ?_
  rintro c s₁ ⟨us, vs, d, rfl, h₁, hd, hc⟩
  refine (wp_peek hl (by decide) h₁).bind ?_
  rintro b s₂ ⟨hb, h₂⟩
  apply wp_ite <;> intro hyes
  · rw [hb] at hyes
    obtain ⟨xs, rfl⟩ := eq_of_leads (u := .bar) hyes (by decide) (by decide)
    refine (wp_gettoken_cons hl h₂).bind ?_
    rintro k s₃ ⟨_, h₃, _⟩
    simp only [length_append, length_cons] at hn
    refine (ih.pipe h₃ (by omega)).bind ?_
    rintro c₄ s₄ ⟨ys, zs, e, rfl, h₄, he, hc₄⟩
    rw [wp_pure]
    exact ⟨_, zs, _, by simp, h₄, Derives.bar hd he, hc.pipe hc₄⟩
  · rw [wp_pure]
    exact ⟨us, vs, d, rfl, h₂, Derives.one hd, hc⟩

lemma sound_parseblock (hn : 4 * ts.length ≤ n) :
    Wp (parseblock buf es (n + 1)) (Parsed buf es .exec ts) Ran s := by
  refine (wp_peek hl (by decide) h).bind ?_
  rintro b s₁ ⟨hb, h₁⟩
  apply wp_ite <;> intro hyes
  · rw [hb] at hyes
    obtain ⟨xs, rfl⟩ := eq_of_leads (u := .lpar) hyes (by decide) (by decide)
    refine (wp_gettoken_cons hl h₁).bind ?_
    rintro k s₂ ⟨_, h₂, _⟩
    refine (ih.line h₂ (by omega)).bind ?_
    rintro c s₃ ⟨us, vs, d, rfl, h₃, hd, hc⟩
    refine (wp_peek hl (by decide) h₃).bind ?_
    rintro b₄ s₄ ⟨hb₄, h₄⟩
    apply wp_ite <;> intro hyes₄
    · rw [hb₄] at hyes₄
      obtain ⟨ys, rfl⟩ := eq_of_leads (u := .rpar) hyes₄ (by decide) (by decide)
      refine (wp_gettoken_cons hl h₄).bind ?_
      rintro k₅ s₅ ⟨_, h₅, _⟩
      have hle := h₅.length_le hl
      refine (sound_parseredirs hl (es + 1) [] h₅ (by omega)).bind ?_
      rintro out s₆ ⟨rs, qs, zs, rfl, hr, rfl, h₆⟩
      rw [wp_pure]
      exact ⟨_, zs, _, by simp, h₆, Derives.block qs hd, hc.wrap hr⟩
    · rw [wp_throw]
      exact ran_panic _
  · rw [wp_throw]
    exact ran_panic _

lemma sound_parseexec (hn : 4 * ts.length + 1 ≤ n) :
    Wp (parseexec buf es (n + 1)) (Parsed buf es .exec ts) Ran s := by
  refine (wp_peek hl (by decide) h).bind ?_
  rintro b s₁ ⟨_, h₁⟩
  refine wp_ite (fun _ => ih.block h₁ hn) (fun _ => ?_)
  have hle := h₁.length_le hl
  refine (sound_parseredirs hl (es + 1) [] h₁ (by omega)).bind ?_
  rintro out s₂ ⟨rs, qs, us, rfl, hr, rfl, h₂⟩
  simp only [length_append] at hle
  refine (sound_parseargs hl (es + 1) [] _ h₂ (by omega) (by decide)).bind ?_
  rintro out s₃ ⟨ws, rs', args, vs, rfl, hws, hrs, hlen, rfl, h₃⟩
  rw [wp_pure]
  simp only [length_nil, Nat.zero_add] at hlen
  exact ⟨_, vs, _, by simp, h₃, Derives.simple qs args hlen, hws.exec.wrap (hr.append hrs)⟩

end

lemma sound_all (n : Nat) : Sound buf es n := by
  induction n with
  | zero =>
    exact ⟨fun _ _ => by omega, fun _ _ => by omega, fun _ _ => by omega, fun _ _ => by omega⟩
  | succ n ih =>
    exact ⟨fun h hn => sound_parseline hl ih h (by omega),
      fun h hn => sound_parsepipe hl ih h (by omega),
      fun h hn => sound_parseexec hl ih h (by omega),
      fun h hn => sound_parseblock hl ih h (by omega)⟩

end

/-! ## What is derived is parsed -/

lemma redirToks_length (qs : List (Redir Word)) : (redirToks qs).length = 2 * qs.length := by
  induction qs with
  | nil => rfl
  | cons q qs ih =>
    rw [show redirToks (q :: qs) = q.way.tok :: .word q.file :: redirToks qs from rfl]
    simp only [length_cons]
    omega

lemma argToks_length (args : List (Word × List (Redir Word))) :
    args.length ≤ (argToks args).length := by
  induction args with
  | nil => exact Nat.zero_le _
  | cons a args ih =>
    rw [show argToks (a :: args) = (.word a.1 :: redirToks a.2) ++ argToks args from rfl]
    simp only [length_append, length_cons]
    omega

/-- The token ends a part of the grammar: after the part it cannot belong to it. -/
def Part.stops : Part → List Tok
  | .line => [.rpar]
  | .pipe => [.rpar, .amp, .semi]
  | .exec => [.rpar, .amp, .semi, .bar]

def Part.Before (part : Part) (vs : List Tok) : Prop := ∀ t ∈ vs.head?, t ∈ part.stops

section
variable {buf : List UInt8} {es : Nat} (hl : Ends buf es)
include hl

variable {s : Nat} {vs : List Tok}

lemma complete_parseredirs (n : Nat) (acc : List (Redir Span)) (qs : List (Redir Word))
    (h : At buf es s (redirToks qs ++ vs)) (hn : qs.length < n)
    (hv : leads [LT, GT] vs = false) :
    Wp (parseredirs buf es n acc) (fun out s' => ∃ rs, out = acc ++ rs ∧
      ReadsRedirs buf es rs qs ∧ At buf es s' vs) (fun _ => False) s := by
  induction qs generalizing n acc s with
  | nil =>
    cases n with
    | zero => omega
    | succ n =>
      refine (wp_peek hl (by decide) h).bind ?_
      rintro b s₁ ⟨hb, h₁⟩
      rw [show redirToks [] ++ vs = vs from rfl] at hb h₁
      rw [hb, hv, if_neg (by decide), wp_pure]
      exact ⟨[], by simp, readsRedirs_nil, h₁⟩
  | cons q qs ih =>
    cases n with
    | zero => omega
    | succ n =>
      have htoks : redirToks (q :: qs) ++ vs =
          q.way.tok :: .word q.file :: (redirToks qs ++ vs) := rfl
      rw [htoks] at h
      refine (wp_peek hl (by decide) h).bind ?_
      rintro b s₁ ⟨hb, h₁⟩
      have hlead : q.way.tok.lead ∈ [LT, GT] := by
        cases q.way <;> decide
      have hway : wayOf q.way.tok.code = some q.way := by
        cases q.way <;> rfl
      rw [hb, leads, if_pos (decide_eq_true hlead)]
      refine (wp_gettoken_cons hl h₁).bind ?_
      rintro k s₂ ⟨hk, h₂, _⟩
      refine (wp_gettoken_cons hl h₂).bind ?_
      rintro f s₃ ⟨hf, h₃, hspan⟩
      obtain ⟨hx, hw⟩ := hspan _ rfl
      rw [if_neg (by rw [hf]; exact not_not.mpr rfl), hk, hway]
      rw [length_cons] at hn
      refine (ih n _ h₃ (by omega)).imp ?_
      rintro out s' ⟨rs, rfl, hr, hat⟩
      exact ⟨⟨q.way, (f.q, f.eq)⟩ :: rs, by simp, (readsRedirs_one q.way hx hw).append hr, hat⟩

omit hl in
lemma Part.Before.not_leads {part : Part} (h : part.Before vs)
    {toks : List UInt8} (ht : ∀ t ∈ part.stops, t.lead ∉ toks) : leads toks vs = false := by
  cases vs with
  | nil => rfl
  | cons t vs => exact decide_eq_false (ht t (h t rfl))

omit hl in
lemma not_leads_args {args : List (Word × List (Redir Word))}
    {toks : List UInt8} (h0 : (0 : UInt8) ∉ toks) (h : leads toks vs = false) :
    leads toks (argToks args ++ vs) = false := by
  cases args with
  | nil => exact h
  | cons a args => exact decide_eq_false h0

lemma complete_parseargs (n : Nat) (argv : List Span) (acc : List (Redir Span))
    (args : List (Word × List (Redir Word)))
    (h : At buf es s (argToks args ++ vs)) (hn : args.length < n)
    (hlen : argv.length + args.length < MAXARGS) (hv : Part.exec.Before vs) :
    Wp (parseargs buf es n argv acc) (fun out s' => ∃ ws rs, out = (argv ++ ws, acc ++ rs) ∧
      ReadsWords buf es ws (args.map Prod.fst) ∧ ReadsRedirs buf es rs (args.flatMap Prod.snd) ∧
      At buf es s' vs) (fun _ => False) s := by
  induction args generalizing n argv acc s with
  | nil =>
    cases n with
    | zero => omega
    | succ n =>
      have hnone : ∀ {s'}, At buf es s' vs → ∃ (ws : List Span) (rs : List (Redir Span)),
          (argv, acc) = (argv ++ ws, acc ++ rs) ∧ ReadsWords buf es ws [] ∧
          ReadsRedirs buf es rs [] ∧ At buf es s' vs :=
        fun hat => ⟨[], [], by simp, readsWords_nil, readsRedirs_nil, hat⟩
      refine (wp_peek hl (by decide) h).bind ?_
      rintro b s₁ ⟨hb, h₁⟩
      rw [show argToks [] ++ vs = vs from rfl] at hb h₁
      cases vs with
      | nil =>
        rw [hb, leads, if_neg (by decide)]
        refine (wp_gettoken_nil hl h₁).bind ?_
        rintro k s₂ ⟨hk, h₂⟩
        rw [if_pos hk, wp_pure]
        exact hnone h₂
      | cons t vs =>
        have hlead : ∀ t ∈ Part.exec.stops, t.lead ∈ [BAR, RPAR, AMP, SEMI] := by decide
        rw [hb, leads, if_pos (decide_eq_true (hlead t (hv t rfl))), wp_pure]
        exact hnone h₁
  | cons a args ih =>
    cases n with
    | zero => omega
    | succ n =>
      have htoks : argToks (a :: args) ++ vs =
          .word a.1 :: (redirToks a.2 ++ (argToks args ++ vs)) := by
        simp [argToks]
      rw [htoks] at h
      rw [length_cons] at hn hlen
      refine (wp_peek hl (by decide) h).bind ?_
      rintro b s₁ ⟨hb, h₁⟩
      have hno : (0 : UInt8) ∉ [BAR, RPAR, AMP, SEMI] := by decide
      rw [hb, show leads _ (Tok.word a.1 :: _) = false from decide_eq_false hno,
        if_neg (by decide)]
      refine (wp_gettoken_cons hl h₁).bind ?_
      rintro k s₂ ⟨hk, h₂, hspan⟩
      obtain ⟨hx, hw⟩ := hspan _ rfl
      have hword : k.ret = WORD := hk
      rw [if_neg (by rw [hword]; decide), if_neg (not_not.mpr hword), if_neg (by omega)]
      have hle := h₂.length_le hl
      have hcount := redirToks_length a.2
      rw [length_append] at hle
      have hvs : leads [LT, GT] (argToks args ++ vs) = false :=
        not_leads_args (by decide) (hv.not_leads (by decide))
      refine (complete_parseredirs hl (es + 1) acc a.2 h₂ (by omega) hvs).bind ?_
      rintro out s₃ ⟨rs, rfl, hr, h₃⟩
      refine (ih n _ _ h₃ (by omega) (by simp; omega)).imp ?_
      rintro out s' ⟨ws, rs', rfl, hws, hrs, hat⟩
      exact ⟨(k.q, k.eq) :: ws, rs ++ rs', by simp, (readsWords_one hx hw).append hws,
        hr.append hrs, hat⟩

lemma complete_parseback (n m : Nat) (cmd : Cmd Span) (d : Cmd Word)
    (h : At buf es s (List.replicate m .amp ++ vs)) (hn : m < n) (hc : Reads buf es cmd d)
    (hv : leads [AMP] vs = false) :
    Wp (parseback buf es n cmd) (fun out s' => Reads buf es out (backs m d) ∧ At buf es s' vs)
      (fun _ => False) s := by
  induction m generalizing n cmd d s with
  | zero =>
    cases n with
    | zero => omega
    | succ n =>
      refine (wp_peek hl (by decide) h).bind ?_
      rintro b s₁ ⟨hb, h₁⟩
      rw [show List.replicate 0 Tok.amp ++ vs = vs from rfl] at hb h₁
      rw [hb, hv, if_neg (by decide), wp_pure]
      exact ⟨hc, h₁⟩
  | succ m ih =>
    cases n with
    | zero => omega
    | succ n =>
      rw [replicate_succ, cons_append] at h
      refine (wp_peek hl (by decide) h).bind ?_
      rintro b s₁ ⟨hb, h₁⟩
      rw [hb, show leads [AMP] (Tok.amp :: _) = true from rfl, if_pos rfl]
      refine (wp_gettoken_cons hl h₁).bind ?_
      rintro k s₂ ⟨_, h₂, _⟩
      exact ih n _ _ h₂ (by omega) hc.back

end

/-- The function for a part of the grammar. -/
def parse (buf : List UInt8) (es : Nat) : Part → Nat → M (Cmd Span)
  | .line => parseline buf es
  | .pipe => parsepipe buf es
  | .exec => parseexec buf es

def Part.depth : Part → Nat
  | .line => 4
  | .pipe => 3
  | .exec => 2

section
variable {buf : List UInt8} {es : Nat} (hl : Ends buf es)
include hl

variable {s : Nat} {us vs : List Tok}

lemma wp_peek_take {α : Type} {u : Tok} {f : Token → M α} {g : M α}
    {Q : α → Nat → Prop} {E : Fail → Prop} (hsym : [u.lead] ⊆ symbols) (h : At buf es s (u :: us))
    (hf : ∀ k s', At buf es s' us → Wp (f k) Q E s') :
    Wp (do
      if ← peek buf es [u.lead] then do
        let k ← gettoken buf es
        f k
      else
        g) Q E s := by
  refine (wp_peek hl hsym h).bind ?_
  rintro b s₁ ⟨hb, h₁⟩
  rw [hb, leads, if_pos (decide_eq_true (mem_singleton_self _))]
  refine (wp_gettoken_cons hl h₁).bind ?_
  rintro k s₂ ⟨_, h₂, _⟩
  exact hf k s₂ h₂

lemma wp_peek_pass {α : Type} {toks : List UInt8} {f g : M α}
    {Q : α → Nat → Prop} {E : Fail → Prop} (hsym : toks ⊆ symbols) (h : At buf es s us)
    (hno : leads toks us = false) (hg : ∀ s', At buf es s' us → Wp g Q E s') :
    Wp (do if ← peek buf es toks then f else g) Q E s := by
  refine (wp_peek hl hsym h).bind ?_
  rintro b s₁ ⟨hb, h₁⟩
  rw [hb, hno, if_neg (by decide)]
  exact hg s₁ h₁

omit hl in
lemma before_amps {m : Nat} (hv : Part.pipe.Before vs) :
    Part.pipe.Before (List.replicate m .amp ++ vs) := by
  cases m with
  | zero => exact hv
  | succ m =>
    intro t ht
    cases ht
    decide

omit hl in
lemma Part.Before.mono {part part' : Part} (h : part.Before vs)
    (hp : part.stops ⊆ part'.stops) : part'.Before vs := fun t ht => hp (h t ht)

/-- A derivation is parsed to its own command. The tokens after it must not go on with it. -/
lemma complete_parse {part : Part} {d : Cmd Word} (hd : Derives part us d)
    {n s : Nat} (h : At buf es s (us ++ vs)) (hv : part.Before vs)
    (hn : 4 * (us ++ vs).length + part.depth ≤ n) :
    Wp (parse buf es part n) (fun c s' => Reads buf es c d ∧ At buf es s' vs) (fun _ => False)
      s := by
  have hlen := h.length_le hl
  induction hd generalizing n s vs with
  | @line ts c m _ ih =>
    obtain ⟨n, rfl⟩ := Nat.exists_eq_add_of_le (show 1 ≤ n by simp only [Part.depth] at hn; omega)
    rw [Nat.add_comm 1 n] at hn ⊢
    rw [append_assoc] at h hn hlen
    simp only [parse, Part.depth] at ih hn ⊢
    simp only [length_append, length_replicate] at hlen
    refine (ih h (before_amps (hv.mono (by decide))) (by omega) (by simp; omega)).bind ?_
    rintro c₁ s₁ ⟨hc₁, h₁⟩
    have hamp : leads [AMP] vs = false := hv.not_leads (by decide)
    refine (complete_parseback hl (es + 1) m c₁ c h₁ (by omega) hc₁ hamp).bind ?_
    rintro c₂ s₂ ⟨hc₂, h₂⟩
    refine wp_peek_pass hl (by decide) h₂ (hv.not_leads (by decide)) fun s₃ h₃ => ?_
    rw [wp_pure]
    exact ⟨hc₂, h₃⟩
  | @seq ts us c d m _ _ ih ih' =>
    obtain ⟨n, rfl⟩ := Nat.exists_eq_add_of_le (show 1 ≤ n by simp only [Part.depth] at hn; omega)
    rw [Nat.add_comm 1 n] at hn ⊢
    rw [append_assoc, append_assoc, cons_append] at h hn hlen
    simp only [parse, Part.depth] at ih ih' hn ⊢
    simp only [length_append, length_replicate, length_cons] at hlen hn
    have hsemi : Part.pipe.Before (.semi :: (us ++ vs)) := by
      intro t ht
      cases ht
      decide
    refine (ih h (before_amps hsemi) (by simp; omega) (by simp; omega)).bind ?_
    rintro c₁ s₁ ⟨hc₁, h₁⟩
    refine (complete_parseback hl (es + 1) m c₁ c h₁ (by omega) hc₁ rfl).bind ?_
    rintro c₂ s₂ ⟨hc₂, h₂⟩
    refine wp_peek_take hl (u := .semi) (by decide) h₂ fun k s₃ h₃ => ?_
    refine (ih' h₃ hv (by simp; omega) (by simp; omega)).bind ?_
    rintro c₄ s₄ ⟨hc₄, h₄⟩
    rw [wp_pure]
    exact ⟨hc₂.list hc₄, h₄⟩
  | @one ts c _ ih =>
    obtain ⟨n, rfl⟩ := Nat.exists_eq_add_of_le (show 1 ≤ n by simp only [Part.depth] at hn; omega)
    rw [Nat.add_comm 1 n] at hn ⊢
    simp only [parse, Part.depth] at ih hn ⊢
    refine (ih h (hv.mono (by decide)) (by omega) hlen).bind ?_
    rintro c₁ s₁ ⟨hc₁, h₁⟩
    refine wp_peek_pass hl (by decide) h₁ (hv.not_leads (by decide)) fun s₂ h₂ => ?_
    rw [wp_pure]
    exact ⟨hc₁, h₂⟩
  | @bar ts us c d _ _ ih ih' =>
    obtain ⟨n, rfl⟩ := Nat.exists_eq_add_of_le (show 1 ≤ n by simp only [Part.depth] at hn; omega)
    rw [Nat.add_comm 1 n] at hn ⊢
    rw [append_assoc, cons_append] at h hn hlen
    simp only [parse, Part.depth] at ih ih' hn ⊢
    simp only [length_append, length_cons] at hlen hn
    have hbar : Part.exec.Before (.bar :: (us ++ vs)) := by
      intro t ht
      cases ht
      decide
    refine (ih h hbar (by simp; omega) (by simp; omega)).bind ?_
    rintro c₁ s₁ ⟨hc₁, h₁⟩
    refine wp_peek_take hl (u := .bar) (by decide) h₁ fun k s₂ h₂ => ?_
    refine (ih' h₂ hv (by simp; omega) (by simp; omega)).bind ?_
    rintro c₃ s₃ ⟨hc₃, h₃⟩
    rw [wp_pure]
    exact ⟨hc₁.pipe hc₃, h₃⟩
  | @block ts c rs _ ih =>
    obtain ⟨n, rfl⟩ := Nat.exists_eq_add_of_le (show 2 ≤ n by simp only [Part.depth] at hn; omega)
    rw [Nat.add_comm 2 n] at hn ⊢
    rw [append_assoc, cons_append, cons_append] at h hn hlen
    simp only [parse, Part.depth] at ih hn ⊢
    simp only [length_append, length_cons] at hlen hn
    have hrpar : Part.line.Before (.rpar :: (redirToks rs ++ vs)) := by
      intro t ht
      cases ht
      decide
    have hcount := redirToks_length rs
    refine (wp_peek hl (by decide) h).bind ?_
    rintro b s₁ ⟨hb, h₁⟩
    rw [hb, show leads [LPAR] (Tok.lpar :: _) = true from rfl, if_pos rfl]
    refine wp_peek_take hl (u := .lpar) (by decide) h₁ fun k s₂ h₂ => ?_
    refine (ih h₂ hrpar (by simp; omega) (by simp; omega)).bind ?_
    rintro c₃ s₃ ⟨hc₃, h₃⟩
    refine wp_peek_take hl (u := .rpar) (by decide) h₃ fun k₄ s₄ h₄ => ?_
    refine (complete_parseredirs hl (es + 1) [] rs h₄ (by omega) (hv.not_leads (by decide))).bind ?_
    rintro out s₅ ⟨qs, rfl, hq, h₅⟩
    rw [wp_pure]
    exact ⟨hc₃.wrap hq, h₅⟩
  | simple rs args hfew =>
    obtain ⟨n, rfl⟩ := Nat.exists_eq_add_of_le (show 1 ≤ n by simp only [Part.depth] at hn; omega)
    rw [Nat.add_comm 1 n] at hn ⊢
    rw [append_assoc] at h hlen
    simp only [parse]
    simp only [length_append] at hlen
    have hcount := redirToks_length rs
    have hargs := argToks_length args
    have hlpar : leads [LPAR] (redirToks rs ++ (argToks args ++ vs)) = false := by
      cases rs with
      | nil => exact not_leads_args (by decide) (hv.not_leads (by decide))
      | cons r rs =>
        have hway : r.way.tok.lead ∉ [LPAR] := by
          cases r.way <;> decide
        exact decide_eq_false hway
    refine wp_peek_pass hl (by decide) h hlpar fun s₁ h₁ => ?_
    refine (complete_parseredirs hl (es + 1) [] rs h₁ (by omega)
      (not_leads_args (by decide) (hv.not_leads (by decide)))).bind ?_
    rintro out s₂ ⟨qs, rfl, hq, h₂⟩
    refine (complete_parseargs hl (es + 1) [] _ args h₂ (by omega) (by simpa using hfew) hv).bind ?_
    rintro out s₃ ⟨ws, qs', rfl, hws, hqs, h₃⟩
    rw [wp_pure]
    exact ⟨hws.exec.wrap (hq.append hqs), h₃⟩

end

end xv6.sh
