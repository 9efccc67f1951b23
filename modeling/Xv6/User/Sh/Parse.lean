import Xv6.Lib.Machine

/-!
# The parser of the shell

`gettoken`, `peek` and the functions of `sh.c` from `parsecmd` on.  A pointer
into the line is what follows it up to the NUL that ends the line, and the strings
of a command are pairs of offsets, its start and its end.  The loops and the
recursion carry fuel.
-/

namespace Xv6
namespace Sh

open Lib Lib.Run

def MAXARGS : Nat := 10

def O_RDONLY : Nat := 0x000
def O_WRONLY : Nat := 0x001
def O_CREATE : Nat := 0x200

/-- Commands over strings `W`. -/
inductive Cmd (W : Type) where
  | exec (argv : List W)
  | redir (cmd : Cmd W) (file : W) (mode fd : Nat)
  | pipe (left right : Cmd W)
  | list (left right : Cmd W)
  | back (cmd : Cmd W)
deriving DecidableEq, Repr

/-- `argv[i]` and `eargv[i]`, or `file` and `efile`. -/
abbrev Span : Type := Nat × Nat

inductive Stop where
  | panic (msg : String)
  -- A write past the end of `argv`.
  | overrun
  | fuel
deriving DecidableEq, Repr

abbrev Parser (α : Type) : Type := Run Stop (List Char) α

def whitespace : List Char := [' ', '\t', '\r', '\n', '\x0b']
def symbols : List Char := ['<', '|', '>', '&', ';', '(', ')']

def skip (s : List Char) : List Char := s.dropWhile (fun c => c ∈ whitespace)

def isWord (c : Char) : Bool := c ∉ whitespace ∧ c ∉ symbols

/-- What `gettoken` returns for the token at `s`, and the end of the token. -/
def lex : List Char -> Char × List Char
  | [] => ('\x00', [])
  | '|' :: s => ('|', s)
  | '(' :: s => ('(', s)
  | ')' :: s => (')', s)
  | ';' :: s => (';', s)
  | '&' :: s => ('&', s)
  | '<' :: s => ('<', s)
  | '>' :: '>' :: s => ('+', s)
  | '>' :: s => ('>', s)
  | s => ('a', s.dropWhile isWord)

def gettoken (es : Nat) : Parser (Char × Span) := fun s =>
  let q := skip s
  let eq := (lex q).2
  .ok (((lex q).1, es - q.length, es - eq.length), skip eq)

def peek (toks : List Char) : Parser Bool := fun s =>
  let s := skip s
  match s with
  | [] => .ok (false, s)
  | c :: _ => .ok (c ∈ toks, s)

/-- The `switch` of `parseredirs`. -/
def redirect (tok : Char) (cmd : Cmd Span) (q : Span) : Cmd Span :=
  match tok with
  | '<' => .redir cmd q O_RDONLY 0
  | '>' => .redir cmd q (O_WRONLY ||| O_CREATE) 1
  | '+' => .redir cmd q (O_WRONLY ||| O_CREATE) 1
  | _ => cmd

def parseredirs (es : Nat) : Nat -> Cmd Span -> Parser (Cmd Span)
  | 0, _ => stop .fuel
  | n + 1, cmd => do
      if ← peek ['<', '>'] then
        let (tok, _) ← gettoken es
        let (ret, q) ← gettoken es
        if ret ≠ 'a' then
          stop (.panic "missing file for redirection")
        else
          parseredirs es n (redirect tok cmd q)
      else
        pure cmd

/-- The `EXEC` node below the redirections gets another argument. -/
def Cmd.addArg {W : Type} (q : W) : Cmd W -> Cmd W
  | .exec argv => .exec (argv ++ [q])
  | .redir cmd file mode fd => .redir (cmd.addArg q) file mode fd
  | cmd => cmd

/-- The NUL after the last argument. -/
def endArgs (argc : Nat) (ret : Cmd Span) : Parser (Cmd Span) :=
  if MAXARGS ≤ argc then stop .overrun else pure ret

/-- The loop of `parseexec`. -/
def parseargs (es : Nat) : Nat -> Nat -> Cmd Span -> Parser (Cmd Span)
  | 0, _, _ => stop .fuel
  | n + 1, argc, ret => do
      if ← peek ['|', ')', '&', ';'] then
        endArgs argc ret
      else
        let (tok, q) ← gettoken es
        if tok = '\x00' then
          endArgs argc ret
        else if tok ≠ 'a' then
          stop (.panic "syntax")
        else if MAXARGS ≤ argc then
          stop .overrun
        else if MAXARGS ≤ argc + 1 then
          stop (.panic "too many args")
        else
          let ret ← parseredirs es n (ret.addArg q)
          parseargs es n (argc + 1) ret

/-- `line` is the call of `parseline`. -/
def parseblock (es : Nat) (line : Parser (Cmd Span)) (n : Nat) :
    Parser (Cmd Span) := do
  if ← peek ['('] then
    let _ ← gettoken es
    let cmd ← line
    if ← peek [')'] then
      let _ ← gettoken es
      parseredirs es n cmd
    else
      stop (.panic "syntax - missing )")
  else
    stop (.panic "parseblock")

def parseexec (es : Nat) (line : Parser (Cmd Span)) (n : Nat) :
    Parser (Cmd Span) := do
  if ← peek ['('] then
    parseblock es line n
  else
    let ret ← parseredirs es n (.exec [])
    parseargs es n 0 ret

def parsepipe (es : Nat) (line : Parser (Cmd Span)) :
    Nat -> Parser (Cmd Span)
  | 0 => stop .fuel
  | n + 1 => do
      let cmd ← parseexec es line n
      if ← peek ['|'] then
        let _ ← gettoken es
        let right ← parsepipe es line n
        pure (.pipe cmd right)
      else
        pure cmd

/-- The loop of `parseline`. -/
def parseback (es : Nat) : Nat -> Cmd Span -> Parser (Cmd Span)
  | 0, _ => stop .fuel
  | n + 1, cmd => do
      if ← peek ['&'] then
        let _ ← gettoken es
        parseback es n (.back cmd)
      else
        pure cmd

def parseline (es : Nat) : Nat -> Parser (Cmd Span)
  | 0 => stop .fuel
  | n + 1 => do
      let cmd ← parsepipe es (parseline es n) n
      let cmd ← parseback es n cmd
      if ← peek [';'] then
        let _ ← gettoken es
        let right ← parseline es n
        pure (.list cmd right)
      else
        pure cmd

def nulterminate : Cmd Span -> List Char -> List Char
  | .exec argv, buf => argv.foldl (fun buf q => buf.set q.2 '\x00') buf
  | .redir cmd file _ _, buf => (nulterminate cmd buf).set file.2 '\x00'
  | .pipe left right, buf => nulterminate right (nulterminate left buf)
  | .list left right, buf => nulterminate right (nulterminate left buf)
  | .back cmd, buf => nulterminate cmd buf

def cstring (buf : List Char) (q : Nat) : List Char :=
  (buf.drop q).takeWhile (fun c => c ≠ '\x00')

/-- The part of `parsecmd` up to the test for leftovers. -/
def parsewhole (es fuel : Nat) : Parser (Cmd Span) := do
  let cmd ← parseline es fuel
  let _ ← peek []
  pure cmd

/-- The command and the line with its strings terminated. -/
def parsecmd (fuel : Nat) (buf : List Char) :
    Except Stop (Cmd Span × List Char) :=
  let line := cstring buf 0
  match parsewhole line.length fuel line with
  | .error e => .error e
  | .ok (cmd, s) =>
      if s ≠ [] then .error (.panic "syntax")
      else .ok (cmd, nulterminate cmd buf)

end Sh
end Xv6
