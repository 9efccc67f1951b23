import Xv6.User.Sh.Parse

/-!
# The grammar of the shell
-/

namespace Xv6
namespace Sh

open Lib Lib.Run

inductive Token where
  | word (w : List Char)
  | lt | gt | app | bar | amp | semi | lpar | rpar
deriving DecidableEq, Repr

/-- The token for what `gettoken` returns and the characters of the token. -/
def Token.of (w : List Char) : Char -> Option Token
  | 'a' => some (.word w)
  | '<' => some .lt
  | '>' => some .gt
  | '+' => some .app
  | '|' => some .bar
  | '&' => some .amp
  | ';' => some .semi
  | '(' => some .lpar
  | ')' => some .rpar
  | _ => none

def Token.code : Token -> Char
  | .word _ => 'a'
  | .lt => '<'
  | .gt => '>'
  | .app => '+'
  | .bar => '|'
  | .amp => '&'
  | .semi => ';'
  | .lpar => '('
  | .rpar => ')'

def Token.lead : Token -> Option Char
  | .word _ => none
  | .lt => some '<'
  | .gt => some '>'
  | .app => some '>'
  | .bar => some '|'
  | .amp => some '&'
  | .semi => some ';'
  | .lpar => some '('
  | .rpar => some ')'

/-- A redirection: what `redircmd` is called with. -/
structure Redir (W : Type) where
  file : W
  mode : Nat
  fd : Nat

def Redir.of {W : Type} (w : W) : Token -> Option (Redir W)
  | .lt => some ⟨w, O_RDONLY, 0⟩
  | .gt => some ⟨w, O_WRONLY ||| O_CREATE, 1⟩
  | .app => some ⟨w, O_WRONLY ||| O_CREATE, 1⟩
  | _ => none

/-- The command with its redirections, the last one outermost. -/
def Cmd.wrap {W : Type} (cmd : Cmd W) (rs : List (Redir W)) : Cmd W :=
  rs.foldl (fun cmd r => .redir cmd r.file r.mode r.fd) cmd

/-- `redir*`, with `redir := ('<'|'>'|'>>') word`. -/
inductive Redirs : List Token -> List (Redir (List Char)) -> Prop where
  | nil : Redirs [] []
  | cons {op : Token} {w : List Char} {r : Redir (List Char)}
      {ts : List Token} {rs : List (Redir (List Char))}
      (hop : Redir.of w op = some r) (h : Redirs ts rs) :
      Redirs (op :: .word w :: ts) (r :: rs)

/-- `(word redir*)*`. -/
inductive Words : List Token -> List (List Char) ->
    List (Redir (List Char)) -> Prop where
  | nil : Words [] [] []
  | cons {w : List Char} {ts ts' : List Token} {ws : List (List Char)}
      {rs rs' : List (Redir (List Char))} (hrs : Redirs ts rs)
      (h : Words ts' ws rs') :
      Words (.word w :: (ts ++ ts')) (w :: ws) (rs ++ rs')

inductive Nonterminal where
  | line | pipe | exec

/-- The token sequences of a nonterminal and their commands. -/
inductive Derives : Nonterminal -> List Token -> Cmd (List Char) -> Prop where
  -- line := pipe '&'* [';' line]
  | line {ts : List Token} {cmd : Cmd (List Char)} (n : Nat)
      (h : Derives .pipe ts cmd) :
      Derives .line (ts ++ List.replicate n .amp) (Cmd.back^[n] cmd)
  | list {ts ts' : List Token} {cmd cmd' : Cmd (List Char)} (n : Nat)
      (h : Derives .pipe ts cmd) (h' : Derives .line ts' cmd') :
      Derives .line (ts ++ (List.replicate n .amp ++ .semi :: ts'))
        (.list (Cmd.back^[n] cmd) cmd')
  -- pipe := exec ['|' pipe]
  | exec {ts : List Token} {cmd : Cmd (List Char)} (h : Derives .exec ts cmd) :
      Derives .pipe ts cmd
  | pipe {ts ts' : List Token} {cmd cmd' : Cmd (List Char)}
      (h : Derives .exec ts cmd) (h' : Derives .pipe ts' cmd') :
      Derives .pipe (ts ++ .bar :: ts') (.pipe cmd cmd')
  -- exec := '(' line ')' redir* | redir* (word redir*)*
  | block {ts ts' : List Token} {cmd : Cmd (List Char)}
      {rs : List (Redir (List Char))} (h : Derives .line ts cmd)
      (hrs : Redirs ts' rs) :
      Derives .exec (.lpar :: (ts ++ .rpar :: ts')) (cmd.wrap rs)
  | words {ts ts' : List Token} {ws : List (List Char)}
      {rs rs' : List (Redir (List Char))} (hrs : Redirs ts rs)
      (hws : Words ts' ws rs') (hlen : ws.length ≤ MAXARGS - 1) :
      Derives .exec (ts ++ ts') ((Cmd.exec ws).wrap (rs ++ rs'))

/-- Two commands of one shape with related strings. -/
inductive Cmd.Rel {V W : Type} (R : V -> W -> Prop) :
    Cmd V -> Cmd W -> Prop where
  | exec {vs : List V} {ws : List W} (h : List.Forall₂ R vs ws) :
      Rel R (.exec vs) (.exec ws)
  | redir {c : Cmd V} {d : Cmd W} {v : V} {w : W} {mode fd : Nat}
      (h : Rel R c d) (hfile : R v w) :
      Rel R (.redir c v mode fd) (.redir d w mode fd)
  | pipe {c c' : Cmd V} {d d' : Cmd W} (h : Rel R c d) (h' : Rel R c' d') :
      Rel R (.pipe c c') (.pipe d d')
  | list {c c' : Cmd V} {d d' : Cmd W} (h : Rel R c d) (h' : Rel R c' d') :
      Rel R (.list c c') (.list d d')
  | back {c : Cmd V} {d : Cmd W} (h : Rel R c d) : Rel R (.back c) (.back d)

/-!
## Tokens of a line
-/

section lex

variable {c : Char} {r s : List Char}

theorem not_mem_of_skip (h : skip s = c :: r) : c ∉ whitespace := by
  have hhead := List.head?_dropWhile_not
    (fun c => decide (c ∈ whitespace)) s
  unfold skip at h
  rw [h] at hhead
  exact of_decide_eq_false hhead

theorem lex_word (hc : isWord c = true) :
    lex (c :: r) = ('a', (c :: r).dropWhile isWord) := by
  unfold lex
  split
  all_goals first | rfl | (exfalso; revert hc; simp_all [isWord, symbols])

/-- The token `t` with the characters `w` stands before `eq`. -/
structure Lexes (q : List Char) (t : Token) (w eq : List Char) : Prop where
  text : q = w ++ eq
  ne : w ≠ []
  of : Token.of w t.code = some t
  lead : (exists c, q.head? = some c ∧ t.lead = some c) ∨
    (t = .word w ∧ (forall c, c ∈ w -> isWord c = true) ∧
      forall c, eq.head? = some c -> isWord c = false)

theorem lexes_symbol {t : Token} (hcode : t.lead = some c)
    (hof : Token.of [c] t.code = some t) : Lexes (c :: r) t [c] r where
  text := rfl
  ne := List.cons_ne_nil c []
  of := hof
  lead := Or.inl ⟨c, rfl, hcode⟩

theorem lex_gt (h : r.head? ≠ some '>') : lex ('>' :: r) = ('>', r) := by
  unfold lex
  split
  all_goals simp_all

theorem lex_spec (hc : c ∉ whitespace) : exists t w,
    (lex (c :: r)).1 = t.code ∧ Lexes (c :: r) t w (lex (c :: r)).2 := by
  rcases Decidable.em (c ∈ symbols) with hs | hs
  · simp only [symbols, List.mem_cons, List.not_mem_nil, or_false] at hs
    rcases hs with rfl | rfl | rfl | rfl | rfl | rfl | rfl
    · exact ⟨.lt, _, rfl, lexes_symbol rfl rfl⟩
    · exact ⟨.bar, _, rfl, lexes_symbol rfl rfl⟩
    · rcases Decidable.em (r.head? = some '>') with hr | hr
      · rcases List.head?_eq_some_iff.mp hr with ⟨r, rfl⟩
        exact ⟨.app, ['>', '>'], rfl, rfl, by simp, rfl,
          Or.inl ⟨'>', rfl, rfl⟩⟩
      · rw [lex_gt hr]
        exact ⟨.gt, _, rfl, lexes_symbol rfl rfl⟩
    · exact ⟨.amp, _, rfl, lexes_symbol rfl rfl⟩
    · exact ⟨.semi, _, rfl, lexes_symbol rfl rfl⟩
    · exact ⟨.lpar, _, rfl, lexes_symbol rfl rfl⟩
    · exact ⟨.rpar, _, rfl, lexes_symbol rfl rfl⟩
  · have hword : isWord c = true := decide_eq_true ⟨hc, hs⟩
    rw [lex_word hword]
    refine ⟨.word ((c :: r).takeWhile isWord), _, rfl,
      List.takeWhile_append_dropWhile.symm, ?_, rfl, Or.inr ⟨rfl, ?_, ?_⟩⟩
    · rw [List.takeWhile_cons_of_pos hword]
      exact List.cons_ne_nil _ _
    · exact fun d hd => List.mem_takeWhile_imp hd
    · intro d hd
      have hhead := List.head?_dropWhile_not isWord (c :: r)
      rw [hd] at hhead
      exact hhead

theorem Lexes.length_lt {q w eq : List Char} {t : Token}
    (h : Lexes q t w eq) : eq.length < q.length := by
  have hpos := List.length_pos_iff.mpr h.ne
  rw [h.text, List.length_append]
  lia

end lex

/-- The tokens that `gettoken` finds in a line. -/
def tokens (s : List Char) : List Token :=
  match _h : skip s with
  | [] => []
  | c :: r =>
      let eq := (lex (c :: r)).2
      match Token.of ((c :: r).take ((c :: r).length - eq.length))
          (lex (c :: r)).1 with
      | none => []
      | some t => t :: tokens eq
termination_by s.length
decreasing_by
  rcases lex_spec (r := r) (not_mem_of_skip _h) with ⟨t, w, _, hlex⟩
  have hlt := hlex.length_lt
  have hle := List.length_dropWhile_le (fun c => decide (c ∈ whitespace)) s
  unfold skip at _h
  rw [_h] at hle
  lia

section tokens

variable {c : Char} {q r s w eq line : List Char} {t : Token}

theorem tokens_of_skip_nil (h : skip s = []) : tokens s = [] := by
  unfold tokens
  split
  case h_1 => rfl
  case h_2 c r h' =>
    rw [h] at h'
    cases h'

theorem tokens_eq (h : skip s = c :: r) : tokens s =
    match Token.of ((c :: r).take ((c :: r).length -
      (lex (c :: r)).2.length)) (lex (c :: r)).1 with
    | none => []
    | some t => t :: tokens (lex (c :: r)).2 := by
  conv_lhs => unfold tokens
  split
  case h_1 h' =>
    rw [h] at h'
    cases h'
  case h_2 c' r' h' =>
    rw [h] at h'
    cases h'
    rfl

theorem tokens_skip : tokens (skip s) = tokens s := by
  have hskip : skip (skip s) = skip s := List.dropWhile_idempotent _ _
  cases h : skip s with
  | nil => rw [tokens_of_skip_nil h, tokens_of_skip_nil rfl]
  | cons c r =>
      rw [h] at hskip
      rw [tokens_eq h, tokens_eq hskip]

theorem tokens_of_skip_cons (h : skip s = c :: r) : exists t w,
    (lex (c :: r)).1 = t.code ∧ Lexes (c :: r) t w (lex (c :: r)).2 ∧
      tokens s = t :: tokens (lex (c :: r)).2 := by
  rcases lex_spec (r := r) (not_mem_of_skip h) with ⟨t, w, hcode, hlex⟩
  refine ⟨t, w, hcode, hlex, ?_⟩
  have hw : (c :: r).take ((c :: r).length - (lex (c :: r)).2.length) = w := by
    have htext := hlex.text
    generalize (lex (c :: r)).2 = eq at htext
    rw [htext, List.length_append, Nat.add_sub_cancel, List.take_left]
  rw [tokens_eq h, hw, hcode, hlex.of]

/-- The pointer `s` into the line stands before the tokens `ts`. -/
structure At (line s : List Char) (ts : List Token) : Prop where
  suffix : s <:+ line
  tokens : tokens s = ts

/-- The string `p` of the line is the word `w`, and ends where the word does. -/
def Spells (line : List Char) (p : Span) (w : List Char) : Prop :=
  exists pre rest, line = pre ++ (w ++ rest) ∧
    p = (pre.length, pre.length + w.length) ∧
    (forall c, c ∈ w -> isWord c = true) ∧
    forall c, rest.head? = some c -> isWord c = false

def starts (toks : List Char) : List Token -> Bool
  | [] => false
  | t :: _ => t.lead.any (fun c => c ∈ toks)

variable {ts : List Token} {E : Stop -> Prop}

theorem wp_peek {toks : List Char} (h : At line s ts)
    (htoks : forall c, c ∈ toks -> c ∈ symbols) :
    wp (peek toks) (fun b s' => b = starts toks ts ∧ At line s' ts) E s := by
  have hskip : At line (skip s) ts :=
    ⟨(List.dropWhile_suffix _).trans h.suffix, tokens_skip.trans h.tokens⟩
  unfold wp peek
  dsimp only
  cases hs : skip s with
  | nil =>
      rw [hs] at hskip
      have hts : ts = [] := by
        rw [← h.tokens]
        exact tokens_of_skip_nil hs
      rw [hts] at hskip ⊢
      exact ⟨rfl, hskip⟩
  | cons c r =>
      rw [hs] at hskip
      refine ⟨?_, hskip⟩
      rcases tokens_of_skip_cons hs with ⟨t, w, _, hlex, htokens⟩
      rw [← h.tokens, htokens]
      show decide (c ∈ toks) = t.lead.any (fun c => decide (c ∈ toks))
      rcases hlex.lead with ⟨d, hd, hlead⟩ | ⟨rfl, hw, _⟩
      · cases hd
        rw [hlead]
        rfl
      · have hcw : c ∈ w := by
          have htext := hlex.text
          cases w with
          | nil => exact absurd rfl hlex.ne
          | cons d w =>
              rw [(List.cons.inj htext).1]
              exact List.mem_cons_self
        have hword : c ∉ whitespace ∧ c ∉ symbols :=
          of_decide_eq_true (hw c hcw)
        exact decide_eq_false (fun hmem => hword.2 (htoks c hmem))

theorem wp_gettoken {t : Token} (h : At line s (t :: ts)) :
    wp (gettoken line.length) (fun r s' => r.1 = t.code ∧
      (forall w, t = .word w -> Spells line r.2 w) ∧ At line s' ts) E s := by
  unfold wp gettoken
  dsimp only
  cases hs : skip s with
  | nil =>
      have hnil := tokens_of_skip_nil hs
      rw [h.tokens] at hnil
      cases hnil
  | cons c r =>
      rcases tokens_of_skip_cons hs with ⟨t', w, hcode, hlex, htokens⟩
      rw [h.tokens] at htokens
      rcases List.cons.inj htokens with ⟨rfl, rfl⟩
      have hq : c :: r <:+ line := by
        rw [← hs]
        exact (List.dropWhile_suffix _).trans h.suffix
      rcases hq with ⟨pre, hpre⟩
      have htext := hlex.text
      refine ⟨hcode, ?_, ?_, tokens_skip⟩
      · rintro w' rfl
        rcases hlex.lead with ⟨d, _, hd⟩ | ⟨hw', hw, hend⟩
        · cases hd
        · cases hw'
          refine ⟨pre, (lex (c :: r)).2, ?_, ?_, hw, hend⟩
          · rw [← htext, hpre]
          · generalize (lex (c :: r)).2 = eq at htext
            rw [← hpre, htext]
            simp only [List.length_append]
            exact Prod.ext (by dsimp only; lia) (by dsimp only; lia)
      · refine (List.dropWhile_suffix _).trans ⟨pre ++ w, ?_⟩
        rw [List.append_assoc, ← htext, hpre]

theorem wp_gettoken_end (h : At line s []) :
    wp (gettoken line.length) (fun r s' => r.1 = '\x00' ∧ At line s' []) E
      s := by
  unfold wp gettoken
  dsimp only
  cases hs : skip s with
  | nil =>
      refine ⟨rfl, ?_, tokens_of_skip_nil rfl⟩
      exact List.nil_suffix
  | cons c r =>
      rcases tokens_of_skip_cons hs with ⟨t, w, _, _, htokens⟩
      rw [h.tokens] at htokens
      cases htokens

end tokens

end Sh
end Xv6
