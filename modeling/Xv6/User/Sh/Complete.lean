import Xv6.User.Sh.Sound

/-!
# What the functions do not reject

Each function reads every sequence of its nonterminal, if what comes after it
can follow it in a line.
-/

namespace Xv6
namespace Sh

open Lib Lib.Run

section complete

variable {line s : List Char} {ts ts₁ : List Token} {n : Nat}
  {cmd : Cmd Span} {d : Cmd (List Char)}

/-- The symbols that can follow a nonterminal. -/
def follow : Nonterminal -> List Char
  | .line => [')']
  | .pipe => [')', '&', ';']
  | .exec => ['|', ')', '&', ';']

def Follows (nt : Nonterminal) (ts : List Token) : Prop :=
  ts = [] ∨ starts (follow nt) ts = true

theorem Follows.starts_false {nt : Nonterminal} {toks : List Char}
    (h : Follows nt ts) (hdisj : forall c, c ∈ follow nt -> c ∉ toks) :
    starts toks ts = false := by
  rcases h with rfl | h
  · rfl
  · rcases starts_cons h with ⟨t, ts, c, rfl, hlead, hc⟩
    show t.lead.any (fun c => decide (c ∈ toks)) = false
    rw [hlead]
    exact decide_eq_false (hdisj c hc)

theorem redirect_of {op : Token} {w : List Char} {r : Redir (List Char)}
    (h : Redir.of w op = some r) :
    r.file = w ∧ (forall ts, starts ['<', '>'] (op :: ts) = true) ∧
      forall cmd q, redirect op.code cmd q = .redir cmd q r.mode r.fd := by
  cases op with
  | lt | gt | app =>
      cases h
      exact ⟨rfl, fun _ => rfl, fun _ _ => rfl⟩
  | word w | bar | amp | semi | lpar | rpar => cases h

theorem code_of_word (w : List Char) : ¬ (Token.word w).code ≠ 'a' :=
  not_not.mpr rfl

theorem complete_parseredirs {rs : List (Redir (List Char))}
    (hrs : Redirs ts₁ rs) (h : At line s (ts₁ ++ ts))
    (hts : starts ['<', '>'] ts = false) (hcmd : cmd.Rel (Spells line) d) :
    wp (parseredirs line.length n cmd) (fun cmd' s' =>
      cmd'.Rel (Spells line) (d.wrap rs) ∧ At line s' ts) (· = .fuel) s := by
  induction hrs generalizing s cmd d n with
  | nil =>
      cases n with
      | zero => exact rfl
      | succ n =>
          unfold parseredirs
          refine wp_look h (by simp [symbols]) (fun s₁ h₁ => ?_)
          rw [List.nil_append, hts, if_neg (by decide)]
          exact ⟨hcmd, h₁⟩
  | @cons op w r ts₁ rs hop _ ih =>
      cases n with
      | zero => exact rfl
      | succ n =>
          unfold parseredirs
          refine wp_look h (by simp [symbols]) (fun s₁ h₁ => ?_)
          rcases redirect_of hop with ⟨rfl, hstarts, hnode⟩
          rw [List.cons_append, hstarts, if_pos rfl]
          refine wp_next h₁ (fun _ s₂ _ h₂ => ?_)
          refine wp_next h₂ (fun q s₃ hq h₃ => ?_)
          dsimp only
          rw [if_neg (code_of_word r.file), hnode]
          exact ih h₃ (.redir hcmd (hq _ rfl))

theorem starts_words {toks : List Char} {ws : List (List Char)}
    {rs : List (Redir (List Char))} (hws : Words ts₁ ws rs)
    (hts : starts toks ts = false) : starts toks (ts₁ ++ ts) = false := by
  cases hws with
  | nil => exact hts
  | cons _ _ => rfl

theorem starts_redirs {toks : List Char} {rs : List (Redir (List Char))}
    (hrs : Redirs ts₁ rs) (hlt : '<' ∉ toks) (hgt : '>' ∉ toks)
    (hts : starts toks ts = false) : starts toks (ts₁ ++ ts) = false := by
  cases hrs with
  | nil => exact hts
  | @cons op _ _ _ _ hop _ =>
      cases op with
      | lt => exact decide_eq_false hlt
      | gt | app => exact decide_eq_false hgt
      | word w | bar | amp | semi | lpar | rpar => cases hop

theorem complete_parseargs {argc : Nat} {ws ws' : List (List Char)}
    {rs rs' : List (Redir (List Char))} (hws : Words ts₁ ws' rs')
    (h : At line s (ts₁ ++ ts)) (hts : Follows .exec ts)
    (hcmd : cmd.Rel (Spells line) ((Cmd.exec ws).wrap rs))
    (hargc : ws.length = argc) (hlen : (ws ++ ws').length < MAXARGS) :
    wp (parseargs line.length n argc cmd) (fun cmd' s' =>
      cmd'.Rel (Spells line) ((Cmd.exec (ws ++ ws')).wrap (rs ++ rs')) ∧
        At line s' ts) (· = .fuel) s := by
  induction hws generalizing s cmd argc ws rs n with
  | nil =>
      rw [List.append_nil] at hlen ⊢
      rw [List.append_nil]
      rw [hargc] at hlen
      cases n with
      | zero => exact rfl
      | succ n =>
          unfold parseargs
          refine wp_look h (by simp [symbols]) (fun s₁ h₁ => ?_)
          rw [List.nil_append] at h₁ ⊢
          rcases hts with rfl | hts
          · rw [if_neg (by decide)]
            refine wp_next_end h₁ (fun q s₂ h₂ => ?_)
            dsimp only
            rw [if_pos rfl, endArgs_eq hlen]
            exact ⟨hcmd, h₂⟩
          · rw [show starts ['|', ')', '&', ';'] ts = true from hts,
              if_pos rfl, endArgs_eq hlen]
            exact ⟨hcmd, h₁⟩
  | @cons w ts₁ ts₂ ws₂ rs₁ rs₂ hrs hws ih =>
      cases n with
      | zero => exact rfl
      | succ n =>
          unfold parseargs
          refine wp_look h (by simp [symbols]) (fun s₁ h₁ => ?_)
          rw [List.cons_append, List.append_assoc] at h₁
          rw [List.cons_append, show starts ['|', ')', '&', ';']
            (Token.word w :: (ts₁ ++ ts₂ ++ ts)) = false from rfl,
            if_neg (by decide)]
          refine wp_next h₁ (fun q s₂ hq h₂ => ?_)
          have hmax : argc + 1 < MAXARGS := by
            rw [List.length_append, List.length_cons] at hlen
            lia
          dsimp only
          rw [if_neg (code_ne _), if_neg (code_of_word w),
            if_neg (by lia), if_neg (by lia), wp_bind]
          have hnext : starts ['<', '>'] (ts₂ ++ ts) = false :=
            starts_words hws (hts.starts_false (by simp [follow]))
          refine wp_post (complete_parseredirs hrs h₂ hnext
            (hcmd.addArg (hq w rfl))) ?_
          rintro cmd₁ s₃ ⟨hcmd₁, h₃⟩
          rw [← wrap_append] at hcmd₁
          have hrest : wp (parseargs line.length n (argc + 1) cmd₁)
              (fun cmd' s' => cmd'.Rel (Spells line)
                ((Cmd.exec (ws ++ [w] ++ ws₂)).wrap (rs ++ rs₁ ++ rs₂)) ∧
                  At line s' ts) (· = .fuel) s₃ :=
            ih h₃ hcmd₁ (by rw [List.length_append, hargc]; rfl)
              (by rwa [List.append_assoc])
          rwa [List.append_assoc, List.append_assoc] at hrest

/-- The call for a nonterminal. -/
def parser (es m n : Nat) : Nonterminal -> Parser (Cmd Span)
  | .line => parseline es n
  | .pipe => parsepipe es (parseline es m) n
  | .exec => parseexec es (parseline es m) n

/-- The call for `nt` reads the tokens `ts₁` as `d`, if it has the fuel. -/
def Completes (line : List Char) (nt : Nonterminal) (ts₁ : List Token)
    (d : Cmd (List Char)) : Prop :=
  forall m n s ts, At line s (ts₁ ++ ts) -> Follows nt ts ->
    wp (parser line.length m n nt) (fun cmd s' =>
      cmd.Rel (Spells line) d ∧ At line s' ts) (· = .fuel) s

theorem Follows.mono {nt nt' : Nonterminal} (h : Follows nt ts)
    (hsub : forall c, c ∈ follow nt -> c ∈ follow nt') : Follows nt' ts := by
  rcases h with rfl | h
  · exact Or.inl rfl
  · rcases starts_cons h with ⟨t, ts, c, rfl, hlead, hc⟩
    right
    show t.lead.any (fun c => decide (c ∈ follow nt')) = true
    rw [hlead]
    exact decide_eq_true (hsub c hc)

theorem complete_block {ts₂ : List Token} {rs : List (Redir (List Char))}
    (hline : Completes line .line ts₁ d) (hrs : Redirs ts₂ rs) :
    Completes line .exec (.lpar :: (ts₁ ++ .rpar :: ts₂)) (d.wrap rs) := by
  intro m n s ts h hts
  show wp (parseexec _ _ _) _ _ s
  unfold parseexec
  refine wp_look h (by simp [symbols]) (fun s₁ h₁ => ?_)
  rw [List.cons_append, show starts ['(']
    (.lpar :: (ts₁ ++ .rpar :: ts₂ ++ ts)) = true from rfl, if_pos rfl]
  unfold parseblock
  refine wp_take (t := .lpar) rfl h₁ (fun s₂ h₂ => ?_)
  rw [wp_bind]
  have h₂ : At line s₂ (ts₁ ++ .rpar :: (ts₂ ++ ts)) := by
    simpa using h₂
  refine wp_post (hline m m s₂ _ h₂ (Or.inr rfl)) ?_
  rintro cmd s₃ ⟨hcmd, h₃⟩
  refine wp_take (t := .rpar) rfl h₃ (fun s₄ h₄ => ?_)
  exact complete_parseredirs hrs h₄ (hts.starts_false (by simp [follow])) hcmd

theorem complete_words {ts₂ : List Token} {ws : List (List Char)}
    {rs rs' : List (Redir (List Char))} (hrs : Redirs ts₁ rs)
    (hws : Words ts₂ ws rs') (hlen : ws.length ≤ MAXARGS - 1) :
    Completes line .exec (ts₁ ++ ts₂) ((Cmd.exec ws).wrap (rs ++ rs')) := by
  intro m n s ts h hts
  show wp (parseexec _ _ _) _ _ s
  unfold parseexec
  rw [List.append_assoc] at h
  refine wp_look h (by simp [symbols]) (fun s₁ h₁ => ?_)
  have hopen : starts ['('] (ts₁ ++ (ts₂ ++ ts)) = false :=
    starts_redirs hrs (by decide) (by decide)
      (starts_words hws (hts.starts_false (by simp [follow])))
  rw [hopen, if_neg (by decide), wp_bind]
  refine wp_post (complete_parseredirs hrs h₁
    (starts_words hws (hts.starts_false (by simp [follow]))) (.exec .nil)) ?_
  rintro cmd s₂ ⟨hcmd, h₂⟩
  have hargs := complete_parseargs (n := n) hws h₂ hts hcmd rfl
    (Nat.lt_of_le_sub_one (by decide) hlen)
  exact hargs

theorem complete_parseback (j : Nat)
    (h : At line s (List.replicate j .amp ++ ts))
    (hts : starts ['&'] ts = false) (hcmd : cmd.Rel (Spells line) d) :
    wp (parseback line.length n cmd) (fun cmd' s' =>
      cmd'.Rel (Spells line) (Cmd.back^[j] d) ∧ At line s' ts)
      (· = .fuel) s := by
  induction j generalizing s cmd d n with
  | zero =>
      cases n with
      | zero => exact rfl
      | succ n =>
          unfold parseback
          exact wp_skip (t := .amp) rfl h hts (fun _ h₁ => ⟨hcmd, h₁⟩)
  | succ j ih =>
      cases n with
      | zero => exact rfl
      | succ n =>
          unfold parseback
          rw [List.replicate_succ, List.cons_append] at h
          exact wp_take (t := .amp) rfl h (fun _ h₁ => ih h₁ (.back hcmd))

theorem complete_backs {m j : Nat} {α : Type} {f : Cmd Span -> Parser α}
    {Q : α -> List Char -> Prop}
    (hpipe : Completes line .pipe ts₁ d)
    (h : At line s (ts₁ ++ (List.replicate j .amp ++ ts)))
    (hts : Follows .pipe ts) (hamp : starts ['&'] ts = false)
    (hf : forall cmd s', cmd.Rel (Spells line) (Cmd.back^[j] d) ->
      At line s' ts -> wp (f cmd) Q (· = .fuel) s') :
    wp (parsepipe line.length (parseline line.length m) n >>= fun cmd =>
      parseback line.length n cmd >>= f) Q (· = .fuel) s := by
  have hfollows : Follows .pipe (List.replicate j .amp ++ ts) := by
    cases j with
    | zero => exact hts
    | succ j => exact Or.inr rfl
  rw [wp_bind]
  refine wp_post (hpipe m n s _ h hfollows) ?_
  rintro cmd s₁ ⟨hcmd, h₁⟩
  rw [wp_bind]
  refine wp_post (complete_parseback j h₁ hamp hcmd) ?_
  rintro cmd' s₂ ⟨hcmd', h₂⟩
  exact hf cmd' s₂ hcmd' h₂

theorem completes_of_derives {nt : Nonterminal} (hd : Derives nt ts₁ d) :
    Completes line nt ts₁ d := by
  induction hd with
  | @line ts₁ d j _ ih =>
      intro m n s ts h hts
      cases n with
      | zero => exact rfl
      | succ n =>
          rw [List.append_assoc] at h
          show wp (parseline _ (n + 1)) _ _ s
          unfold parseline
          refine complete_backs ih h (hts.mono (by simp [follow]))
            (hts.starts_false (by simp [follow])) (fun cmd s₁ hcmd h₁ => ?_)
          exact wp_skip (t := .semi) rfl h₁
            (hts.starts_false (by simp [follow])) (fun _ h₂ => ⟨hcmd, h₂⟩)
  | @list ts₁ ts₂ d d' j _ _ ih ih' =>
      intro m n s ts h hts
      cases n with
      | zero => exact rfl
      | succ n =>
          have h : At line s (ts₁ ++ (List.replicate j .amp ++
              .semi :: (ts₂ ++ ts))) := by
            simpa using h
          show wp (parseline _ (n + 1)) _ _ s
          unfold parseline
          refine complete_backs ih h (Or.inr rfl) rfl
            (fun cmd s₁ hcmd h₁ => ?_)
          refine wp_take (t := .semi) rfl h₁ (fun s₂ h₂ => ?_)
          rw [wp_bind]
          refine wp_post (ih' n n s₂ ts h₂ hts) ?_
          rintro cmd' s₃ ⟨hcmd', h₃⟩
          exact ⟨.list hcmd hcmd', h₃⟩
  | exec _ ih =>
      intro m n s ts h hts
      cases n with
      | zero => exact rfl
      | succ n =>
          show wp (parsepipe _ _ (n + 1)) _ _ s
          unfold parsepipe
          rw [wp_bind]
          refine wp_post (ih m n s ts h (hts.mono (by simp [follow]))) ?_
          rintro cmd s₁ ⟨hcmd, h₁⟩
          exact wp_skip (t := .bar) rfl h₁
            (hts.starts_false (by simp [follow])) (fun _ h₂ => ⟨hcmd, h₂⟩)
  | @pipe ts₁ ts₂ d d' _ _ ih ih' =>
      intro m n s ts h hts
      cases n with
      | zero => exact rfl
      | succ n =>
          rw [List.append_assoc, List.cons_append] at h
          show wp (parsepipe _ _ (n + 1)) _ _ s
          unfold parsepipe
          rw [wp_bind]
          refine wp_post (ih m n s _ h (Or.inr rfl)) ?_
          rintro cmd s₁ ⟨hcmd, h₁⟩
          refine wp_take (t := .bar) rfl h₁ (fun s₂ h₂ => ?_)
          rw [wp_bind]
          refine wp_post (ih' m n s₂ ts h₂ hts) ?_
          rintro cmd' s₃ ⟨hcmd', h₃⟩
          exact ⟨.pipe hcmd hcmd', h₃⟩
  | block _ hrs ih => exact complete_block ih hrs
  | words hrs hws hlen => exact complete_words hrs hws hlen

end complete

end Sh
end Xv6
