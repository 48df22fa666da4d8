-- The parser of the shell, `sh.c`. The functions share a cursor into the line
-- and stop at its end; a word is a pair of places in the line until
-- `nulterminate` writes the zeros behind the words.
import Mathlib.Tactic.Common

namespace xv6.sh

def whitespace : List UInt8 := [32, 9, 13, 10, 11]

def LT : UInt8 := 60
def BAR : UInt8 := 124
def GT : UInt8 := 62
def AMP : UInt8 := 38
def SEMI : UInt8 := 59
def LPAR : UInt8 := 40
def RPAR : UInt8 := 41

def symbols : List UInt8 := [LT, BAR, GT, AMP, SEMI, LPAR, RPAR]

def APPEND : UInt8 := 43

def WORD : UInt8 := 97

def MAXARGS : Nat := 10

/-! ## Commands -/

/-- How a redirection opens its file. -/
inductive Way where
  | input
  | output
  | append
  deriving DecidableEq

/-- The mode for `open`: `O_RDONLY`, `O_WRONLY|O_CREATE|O_TRUNC` or `O_WRONLY|O_CREATE`. -/
def Way.mode : Way → Nat
  | .input => 0
  | .output => 0x001 + 0x200 + 0x400
  | .append => 0x001 + 0x200

def Way.fd : Way → Nat
  | .input => 0
  | .output => 1
  | .append => 1

/-- A command, over the words in it. -/
inductive Cmd (α : Type) where
  | exec (argv : List α)
  | redir (cmd : Cmd α) (file : α) (mode fd : Nat)
  | pipe (left right : Cmd α)
  | list (left right : Cmd α)
  | back (cmd : Cmd α)
  deriving DecidableEq

structure Redir (α : Type) where
  way : Way
  file : α

/-- The command with redirections around it, the first one innermost. -/
def wrap {α : Type} (cmd : Cmd α) (rs : List (Redir α)) : Cmd α :=
  rs.foldl (fun c r => .redir c r.file r.way.mode r.way.fd) cmd

abbrev Span := Nat × Nat

/-! ## Tokens -/

/-- The parser stops with a text. A loop or a recursion with too few rounds is `rounds`. -/
inductive Fail where
  | panic (text : String)
  | rounds
  deriving DecidableEq

abbrev M := StateT Nat (Except Fail)

/-- A loop that goes on over characters with a property, up to the end of the line. -/
def scan (buf : List UInt8) (es : Nat) (p : UInt8 → Bool) : Nat → Nat → Nat
  | 0, s => s
  | n + 1, s => if s < es ∧ p (buf.getD s 0) = true then scan buf es p n (s + 1) else s

def isSpace (c : UInt8) : Bool := c ∈ whitespace

def isWord (c : UInt8) : Bool := c ∉ whitespace ∧ c ∉ symbols

def skipSpace (buf : List UInt8) (es s : Nat) : Nat := scan buf es isSpace (es - s) s

structure Token where
  ret : UInt8
  q : Nat
  eq : Nat

/-- The token at place `s`, which is no blank. -/
def tokenAt (buf : List UInt8) (es s : Nat) : Token :=
  let c := buf.getD s 0
  if c = 0 then
    ⟨0, s, s⟩
  else if c ∈ [BAR, LPAR, RPAR, SEMI, AMP, LT] then
    ⟨c, s, s + 1⟩
  else if c = GT then
    if buf.getD (s + 1) 0 = GT then ⟨APPEND, s, s + 2⟩ else ⟨c, s, s + 1⟩
  else
    ⟨WORD, s, scan buf es isWord (es - s) s⟩

def gettoken (buf : List UInt8) (es : Nat) : M Token := do
  let s ← get
  let t := tokenAt buf es (skipSpace buf es s)
  set (skipSpace buf es t.eq)
  return t

def peek (buf : List UInt8) (es : Nat) (toks : List UInt8) : M Bool := do
  let s ← get
  set (skipSpace buf es s)
  let c := buf.getD (skipSpace buf es s) 0
  return c ≠ 0 ∧ c ∈ toks

/-! ## The parser -/

/-- The `switch` of `parseredirs`. -/
def wayOf (tok : UInt8) : Option Way :=
  if tok = LT then some .input
  else if tok = GT then some .output
  else if tok = APPEND then some .append
  else none

/-- The redirections from the cursor on, after those in `rs`. The command itself may still
get words, so the redirections are put around it at the end. -/
def parseredirs (buf : List UInt8) (es : Nat) : Nat → List (Redir Span) → M (List (Redir Span))
  | 0, _ => throw .rounds
  | n + 1, rs => do
    if ← peek buf es [LT, GT] then do
      let tok ← gettoken buf es
      let f ← gettoken buf es
      if f.ret ≠ WORD then
        throw (.panic "missing file for redirection")
      else
        match wayOf tok.ret with
        | some way => parseredirs buf es n (rs ++ [⟨way, (f.q, f.eq)⟩])
        | none => parseredirs buf es n rs
    else
      return rs

/-- The loop of `parseexec` over the words. -/
def parseargs (buf : List UInt8) (es : Nat) :
    Nat → List Span → List (Redir Span) → M (List Span × List (Redir Span))
  | 0, _, _ => throw .rounds
  | n + 1, argv, rs => do
    if ← peek buf es [BAR, RPAR, AMP, SEMI] then
      return (argv, rs)
    else do
      let t ← gettoken buf es
      if t.ret = 0 then
        return (argv, rs)
      else if t.ret ≠ WORD then
        throw (.panic "syntax")
      else if argv.length + 1 ≥ MAXARGS then
        throw (.panic "too many args")
      else do
        let rs ← parseredirs buf es (es + 1) rs
        parseargs buf es n (argv ++ [(t.q, t.eq)]) rs

/-- The loop of `parseline`. -/
def parseback (buf : List UInt8) (es : Nat) : Nat → Cmd Span → M (Cmd Span)
  | 0, _ => throw .rounds
  | n + 1, cmd => do
    if ← peek buf es [AMP] then do
      let _ ← gettoken buf es
      parseback buf es n (.back cmd)
    else
      return cmd

mutual

def parseline (buf : List UInt8) (es : Nat) : Nat → M (Cmd Span)
  | 0 => throw .rounds
  | n + 1 => do
    let cmd ← parsepipe buf es n
    let cmd ← parseback buf es (es + 1) cmd
    if ← peek buf es [SEMI] then do
      let _ ← gettoken buf es
      let right ← parseline buf es n
      return .list cmd right
    else
      return cmd

def parsepipe (buf : List UInt8) (es : Nat) : Nat → M (Cmd Span)
  | 0 => throw .rounds
  | n + 1 => do
    let cmd ← parseexec buf es n
    if ← peek buf es [BAR] then do
      let _ ← gettoken buf es
      let right ← parsepipe buf es n
      return .pipe cmd right
    else
      return cmd

def parseblock (buf : List UInt8) (es : Nat) : Nat → M (Cmd Span)
  | 0 => throw .rounds
  | n + 1 => do
    if ← peek buf es [LPAR] then do
      let _ ← gettoken buf es
      let cmd ← parseline buf es n
      if ← peek buf es [RPAR] then do
        let _ ← gettoken buf es
        let rs ← parseredirs buf es (es + 1) []
        return wrap cmd rs
      else
        throw (.panic "syntax - missing )")
    else
      throw (.panic "parseblock")

def parseexec (buf : List UInt8) (es : Nat) : Nat → M (Cmd Span)
  | 0 => throw .rounds
  | n + 1 => do
    if ← peek buf es [LPAR] then
      parseblock buf es n
    else do
      let rs ← parseredirs buf es (es + 1) []
      let r ← parseargs buf es (es + 1) [] rs
      return wrap (.exec r.1) r.2

end

/-- Writes a zero behind each word of the command. -/
def nulterminate : Cmd Span → List UInt8 → List UInt8
  | .exec argv, buf => argv.foldl (fun b w => b.set w.2 0) buf
  | .redir cmd file _ _, buf => (nulterminate cmd buf).set file.2 0
  | .pipe left right, buf => nulterminate right (nulterminate left buf)
  | .list left right, buf => nulterminate right (nulterminate left buf)
  | .back cmd, buf => nulterminate cmd buf

def strlen (buf : List UInt8) : Nat := (buf.takeWhile (· ≠ 0)).length

/-- The part of `parsecmd` before `nulterminate`. -/
def parsewhole (buf : List UInt8) (es : Nat) : M (Cmd Span) := do
  let cmd ← parseline buf es (4 * es + 4)
  let _ ← peek buf es []
  let s ← get
  if s ≠ es then throw (.panic "syntax") else return cmd

/-- The command, and the line with the zeros in it. -/
def parsecmd (buf : List UInt8) : Except Fail (Cmd Span × List UInt8) :=
  match (parsewhole buf (strlen buf)).run 0 with
  | .ok (cmd, _) => .ok (cmd, nulterminate cmd buf)
  | .error e => .error e

end xv6.sh
