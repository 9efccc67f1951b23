import Xv6.User.Sh.Grammar

/-!
# What the functions accept

Each function reads a sequence of its nonterminal or stops.  It runs out of fuel
only if there are too many tokens for it.
-/

namespace Xv6
namespace Sh

open Lib Lib.Run

section sound

variable {α : Type} {line s : List Char} {ts : List Token} {n : Nat}
  {E : Stop -> Prop} {cmd : Cmd Span} {d : Cmd (List Char)}

theorem wp_look {toks : List Char} {f : Bool -> Parser α}
    {Q : α -> List Char -> Prop} (h : At line s ts)
    (htoks : forall c, c ∈ toks -> c ∈ symbols)
    (hf : forall s', At line s' ts -> wp (f (starts toks ts)) Q E s') :
    wp (peek toks >>= f) Q E s := by
  rw [wp_bind]
  refine wp_post (wp_peek h htoks) ?_
  rintro b s' ⟨rfl, h'⟩
  exact hf s' h'

theorem wp_next {t : Token} {f : Char × Span -> Parser α}
    {Q : α -> List Char -> Prop} (h : At line s (t :: ts))
    (hf : forall q s', (forall w, t = .word w -> Spells line q w) ->
      At line s' ts -> wp (f (t.code, q)) Q E s') :
    wp (gettoken line.length >>= f) Q E s := by
  rw [wp_bind]
  refine wp_post (wp_gettoken h) ?_
  rintro ⟨c, q⟩ s' ⟨rfl, hq, h'⟩
  exact hf q s' hq h'

theorem wp_next_end {f : Char × Span -> Parser α}
    {Q : α -> List Char -> Prop} (h : At line s [])
    (hf : forall q s', At line s' [] -> wp (f ('\x00', q)) Q E s') :
    wp (gettoken line.length >>= f) Q E s := by
  rw [wp_bind]
  refine wp_post (wp_gettoken_end h) ?_
  rintro ⟨c, q⟩ s' ⟨rfl, h'⟩
  exact hf q s' h'

/-- The stops allowed on `k` tokens: a panic, or no fuel if `B k`. -/
def Halts (B : Nat -> Prop) (k : Nat) (e : Stop) : Prop :=
  (exists msg, e = .panic msg) ∨ e = .fuel ∧ B k

theorem Halts.mono {B B' : Nat -> Prop} {k k' : Nat} {e : Stop}
    (h : Halts B k e) (hB : B k -> B' k') : Halts B' k' e := by
  rcases h with hpanic | ⟨hfuel, hk⟩
  · exact Or.inl hpanic
  · exact Or.inr ⟨hfuel, hB hk⟩

theorem starts_cons {toks : List Char} (h : starts toks ts = true) :
    exists t ts' c, ts = t :: ts' ∧ t.lead = some c ∧ c ∈ toks := by
  cases ts with
  | nil => cases h
  | cons t ts =>
      have hany : t.lead.any (fun c => decide (c ∈ toks)) = true := h
      cases hlead : t.lead with
      | none =>
          rw [hlead] at hany
          cases hany
      | some c =>
          rw [hlead] at hany
          exact ⟨t, ts, c, rfl, hlead, of_decide_eq_true hany⟩

theorem of_lead {c : Char} {t : Token} (h : t.lead = some c) (hc : c ≠ '>') :
    Token.of [] c = some t := by
  cases t with
  | word w => cases h
  | gt | app =>
      cases h
      exact absurd rfl hc
  | lt | bar | amp | semi | lpar | rpar =>
      cases h
      rfl

theorem starts_one {c : Char} {t : Token} (ht : t.lead = some c)
    (hc : c ≠ '>') (h : starts [c] ts = true) :
    exists ts', ts = t :: ts' := by
  rcases starts_cons h with ⟨t', ts', d, rfl, hlead, hd⟩
  rw [List.mem_singleton.mp hd] at hlead
  have heq := (of_lead ht hc).symm.trans (of_lead hlead hc)
  rw [Option.some.inj heq]
  exact ⟨ts', rfl⟩

section branch

variable {c : Char} {t : Token} {f g : Parser α} {Q : α -> List Char -> Prop}

theorem lead_mem_symbols (ht : t.lead = some c) :
    forall d, d ∈ [c] -> d ∈ symbols := by
  intro d hd
  rw [List.mem_singleton.mp hd]
  cases t with
  | word w => cases ht
  | lt | gt | app | bar | amp | semi | lpar | rpar =>
      cases ht
      decide

theorem wp_skip (ht : t.lead = some c) (h : At line s ts)
    (hts : starts [c] ts = false)
    (hg : forall s', At line s' ts -> wp g Q E s') :
    wp (peek [c] >>= fun b =>
      if b = true then gettoken line.length >>= fun _ => f else g) Q E s := by
  refine wp_look h (lead_mem_symbols ht) (fun s₁ h₁ => ?_)
  rw [hts, if_neg (by decide)]
  exact hg s₁ h₁

theorem wp_take (ht : t.lead = some c) (h : At line s (t :: ts))
    (hf : forall s', At line s' ts -> wp f Q E s') :
    wp (peek [c] >>= fun b =>
      if b = true then gettoken line.length >>= fun _ => f else g) Q E s := by
  refine wp_look h (lead_mem_symbols ht) (fun s₁ h₁ => ?_)
  have hstarts : starts [c] (t :: ts) = true := by
    show t.lead.any (fun d => decide (d ∈ [c])) = true
    rw [ht]
    exact decide_eq_true (List.mem_singleton.mpr rfl)
  rw [hstarts, if_pos rfl]
  exact wp_next h₁ (fun _ s₂ _ h₂ => hf s₂ h₂)

theorem wp_symbol (ht : t.lead = some c) (hc : c ≠ '>') (h : At line s ts)
    (hg : forall s', At line s' ts -> wp g Q E s')
    (hf : forall ts' s', ts = t :: ts' -> At line s' ts' -> wp f Q E s') :
    wp (peek [c] >>= fun b =>
      if b = true then gettoken line.length >>= fun _ => f else g) Q E s := by
  cases hstarts : starts [c] ts with
  | false => exact wp_skip ht h hstarts hg
  | true =>
      rcases starts_one ht hc hstarts with ⟨ts', rfl⟩
      exact wp_take ht h (fun s' => hf ts' s' rfl)

end branch

theorem starts_redir (h : starts ['<', '>'] ts = true) (q : Span)
    (cmd : Cmd Span) :
    exists op ts' mode fd, ts = op :: ts' ∧
      redirect op.code cmd q = .redir cmd q mode fd ∧
      forall w : List Char, Redir.of w op = some ⟨w, mode, fd⟩ := by
  rcases starts_cons h with ⟨t, ts', c, rfl, hlead, hc⟩
  cases t with
  | lt | gt | app => exact ⟨_, _, _, _, rfl, rfl, fun _ => rfl⟩
  | word w => cases hlead
  | bar | amp | semi | lpar | rpar =>
      cases hlead
      exact absurd hc (by decide)

theorem code_word {t : Token} (h : t.code = 'a') : exists w, t = .word w := by
  cases t with
  | word w => exact ⟨w, rfl⟩
  | lt | gt | app | bar | amp | semi | lpar | rpar =>
      exact absurd h (by decide)

section wrap

variable {V W : Type} {R : V -> W -> Prop} {c : Cmd V} {d : Cmd W}

theorem wrap_append (d : Cmd W) (rs rs' : List (Redir W)) :
    d.wrap (rs ++ rs') = (d.wrap rs).wrap rs' := List.foldl_append ..

theorem Cmd.Rel.addArg {v : V} {w : W} {ws : List W} {rs : List (Redir W)}
    (h : c.Rel R ((Cmd.exec ws).wrap rs)) (hv : R v w) :
    (c.addArg v).Rel R ((Cmd.exec (ws ++ [w])).wrap rs) := by
  induction rs using List.reverseRecOn generalizing c with
  | nil =>
      cases h with
      | exec h => exact .exec (List.rel_append (R := R) h (.cons hv .nil))
  | append_singleton rs r ih =>
      rw [wrap_append] at h ⊢
      cases h with
      | redir h hfile => exact .redir (ih h) hfile

end wrap

theorem sound_parseredirs (h : At line s ts) (hcmd : cmd.Rel (Spells line) d) :
    wp (parseredirs line.length n cmd) (fun cmd' s' => exists ts₁ rs ts',
        ts = ts₁ ++ ts' ∧ Redirs ts₁ rs ∧
          cmd'.Rel (Spells line) (d.wrap rs) ∧ At line s' ts')
      (Halts (fun k => n < k + 1) ts.length) s := by
  induction n generalizing s ts cmd d with
  | zero => exact Or.inr ⟨rfl, by lia⟩
  | succ n ih =>
      unfold parseredirs
      refine wp_look h (by simp [symbols]) (fun s₁ h₁ => ?_)
      cases hstarts : starts ['<', '>'] ts with
      | false =>
          rw [if_neg (by decide)]
          exact ⟨[], [], ts, rfl, .nil, hcmd, h₁⟩
      | true =>
          rw [if_pos rfl]
          rcases starts_cons hstarts with ⟨op, ts, _, rfl, _⟩
          refine wp_next h₁ (fun _ s₂ _ h₂ => ?_)
          dsimp only
          cases ts with
          | nil =>
              refine wp_next_end h₂ (fun q s₃ h₃ => ?_)
              dsimp only
              rw [if_pos (show ('\x00' : Char) ≠ 'a' by decide)]
              exact Or.inl ⟨_, rfl⟩
          | cons t ts =>
              refine wp_next h₂ (fun q s₃ hq h₃ => ?_)
              dsimp only
              rcases Decidable.em (t.code = 'a') with ht | ht
              · rw [if_neg (not_not.mpr ht)]
                rcases code_word ht with ⟨w, rfl⟩
                rcases starts_redir hstarts q cmd with
                  ⟨_, _, mode, fd, hts, hnode, hop⟩
                rcases List.cons.inj hts with ⟨rfl, _⟩
                rw [hnode]
                refine wp_mono (ih h₃ (.redir hcmd (hq w rfl))) ?_ ?_
                · rintro cmd' s' ⟨ts₁, rs, ts', rfl, hrs, hrel, h'⟩
                  exact ⟨_, _, ts', rfl, .cons (hop w) hrs, hrel, h'⟩
                · exact fun e he => he.mono (by grind)
              · rw [if_pos ht]
                exact Or.inl ⟨_, rfl⟩

theorem endArgs_eq {argc : Nat} (h : argc < MAXARGS) :
    endArgs argc cmd = pure cmd := if_neg (Nat.not_le.mpr h)

theorem code_ne (t : Token) : t.code ≠ '\x00' := by
  cases t with
  | word w => exact show ('a' : Char) ≠ '\x00' by decide
  | lt | gt | app | bar | amp | semi | lpar | rpar =>
      unfold Token.code
      decide

theorem sound_parseargs {argc : Nat} {ws : List (List Char)}
    {rs : List (Redir (List Char))} (h : At line s ts)
    (hcmd : cmd.Rel (Spells line) ((Cmd.exec ws).wrap rs))
    (hargc : ws.length = argc) (hlt : argc < MAXARGS) :
    wp (parseargs line.length n argc cmd)
      (fun cmd' s' => exists ts₁ ws' rs' ts', ts = ts₁ ++ ts' ∧
        Words ts₁ ws' rs' ∧ (ws ++ ws').length ≤ MAXARGS - 1 ∧
        cmd'.Rel (Spells line) ((Cmd.exec (ws ++ ws')).wrap (rs ++ rs')) ∧
        At line s' ts')
      (Halts (fun k => n < k + 1) ts.length) s := by
  induction n generalizing s ts cmd argc ws rs with
  | zero => exact Or.inr ⟨rfl, by lia⟩
  | succ n ih =>
      -- no more words
      have hend : forall s' ts, At line s' ts ->
          wp (endArgs argc cmd) (fun cmd' s' => exists ts₁ ws' rs' ts',
            ts = ts₁ ++ ts' ∧ Words ts₁ ws' rs' ∧
            (ws ++ ws').length ≤ MAXARGS - 1 ∧
            cmd'.Rel (Spells line) ((Cmd.exec (ws ++ ws')).wrap (rs ++ rs')) ∧
            At line s' ts') (Halts (fun k => n + 1 < k + 1) ts.length) s' := by
        intro s' ts h'
        rw [endArgs_eq hlt]
        refine ⟨[], [], [], ts, rfl, .nil, ?_, ?_, h'⟩
        · rw [List.append_nil]
          lia
        · rw [List.append_nil, List.append_nil]
          exact hcmd
      unfold parseargs
      refine wp_look h (by simp [symbols]) (fun s₁ h₁ => ?_)
      cases hstarts : starts ['|', ')', '&', ';'] ts with
      | true =>
          rw [if_pos rfl]
          exact hend s₁ ts h₁
      | false =>
          rw [if_neg (by decide)]
          cases ts with
          | nil =>
              refine wp_next_end h₁ (fun q s₂ h₂ => ?_)
              dsimp only
              rw [if_pos rfl]
              exact hend s₂ [] h₂
          | cons t ts =>
              refine wp_next h₁ (fun q s₂ hq h₂ => ?_)
              dsimp only
              rw [if_neg (code_ne t)]
              rcases Decidable.em (t.code = 'a') with ht | ht
              · rw [if_neg (not_not.mpr ht), if_neg (Nat.not_le.mpr hlt)]
                rcases Nat.lt_or_ge (argc + 1) MAXARGS with hmax | hmax
                · rw [if_neg (Nat.not_le.mpr hmax), wp_bind]
                  rcases code_word ht with ⟨w, rfl⟩
                  refine wp_mono (sound_parseredirs h₂
                    (hcmd.addArg (hq w rfl))) ?_
                    (fun e he => he.mono (by grind))
                  rintro cmd₁ s₃ ⟨ts₁, rs₁, ts, rfl, hrs₁, hcmd₁, h₃⟩
                  rw [← wrap_append] at hcmd₁
                  refine wp_mono (ih h₃ hcmd₁
                    (by rw [List.length_append, hargc]; rfl) hmax) ?_
                    (fun e he => he.mono (by grind))
                  rintro cmd₂ s₄ ⟨ts₂, ws₂, rs₂, ts, rfl, hws₂, hlen, hcmd₂, h₄⟩
                  refine ⟨.word w :: (ts₁ ++ ts₂), w :: ws₂, rs₁ ++ rs₂, ts,
                    by simp, .cons hrs₁ hws₂, ?_, ?_, h₄⟩
                  · rwa [List.append_assoc] at hlen
                  · rwa [List.append_assoc, List.append_assoc] at hcmd₂
                · rw [if_pos hmax]
                  exact Or.inl ⟨_, rfl⟩
              · rw [if_pos ht]
                exact Or.inl ⟨_, rfl⟩

/-- What the function `p` returns is derived from the tokens that it read. -/
def Sounds (line : List Char) (nt : Nonterminal) (p : Parser (Cmd Span))
    (B : Nat -> Prop) : Prop :=
  forall s ts, At line s ts ->
    wp p (fun cmd s' => exists ts₁ d ts', ts = ts₁ ++ ts' ∧
        Derives nt ts₁ d ∧ cmd.Rel (Spells line) d ∧ At line s' ts')
      (Halts B ts.length) s

variable {m : Nat} {p : Parser (Cmd Span)}

theorem sound_parseblock (hp : Sounds line .line p (fun k => m < k + 3)) :
    Sounds line .exec (parseblock line.length p n)
      (fun k => n < k + 1 ∨ m < k + 2) := by
  intro s ts h
  unfold parseblock
  refine wp_symbol (t := .lpar) rfl (by decide) h ?_ ?_
  · exact fun _ _ => Or.inl ⟨_, rfl⟩
  · rintro ts s₁ rfl h₁
    rw [wp_bind]
    refine wp_mono (hp s₁ ts h₁) ?_ (fun e he => he.mono (by grind))
    rintro cmd s₂ ⟨ts₁, d, ts, rfl, hd, hcmd, h₂⟩
    refine wp_symbol (t := .rpar) rfl (by decide) h₂ ?_ ?_
    · exact fun _ _ => Or.inl ⟨_, rfl⟩
    · rintro ts s₃ rfl h₃
      refine wp_mono (sound_parseredirs h₃ hcmd) ?_
        (fun e he => he.mono (by grind))
      rintro cmd' s₄ ⟨ts₂, rs, ts, rfl, hrs, hcmd', h₄⟩
      exact ⟨_, _, ts, by simp, .block hd hrs, hcmd', h₄⟩

theorem sound_parseexec (hp : Sounds line .line p (fun k => m < k + 3)) :
    Sounds line .exec (parseexec line.length p n)
      (fun k => n < k + 1 ∨ m < k + 2) := by
  intro s ts h
  unfold parseexec
  refine wp_look h (by simp [symbols]) (fun s₁ h₁ => ?_)
  cases starts ['('] ts with
  | true =>
      rw [if_pos rfl]
      exact sound_parseblock hp s₁ ts h₁
  | false =>
      rw [if_neg (by decide), wp_bind]
      refine wp_mono (sound_parseredirs (d := .exec []) h₁ (.exec .nil)) ?_
        (fun e he => he.mono (by grind))
      rintro cmd s₂ ⟨ts₁, rs, ts, rfl, hrs, hcmd, h₂⟩
      refine wp_mono (sound_parseargs h₂ hcmd rfl (by decide)) ?_
        (fun e he => he.mono (by grind))
      rintro cmd' s₃ ⟨ts₂, ws, rs', ts, rfl, hws, hlen, hcmd', h₃⟩
      exact ⟨_, _, ts, by simp, .words hrs hws hlen, hcmd', h₃⟩

theorem sound_parsepipe (hp : Sounds line .line p (fun k => m < k + 3)) :
    Sounds line .pipe (parsepipe line.length p n)
      (fun k => n < k + 2 ∨ m < k + 2) := by
  induction n with
  | zero => exact fun s ts _ => Or.inr ⟨rfl, by lia⟩
  | succ n ih =>
      intro s ts h
      unfold parsepipe
      rw [wp_bind]
      refine wp_mono (sound_parseexec hp s ts h) ?_
        (fun e he => he.mono (by grind))
      rintro cmd s₁ ⟨ts₁, d, ts, rfl, hd, hcmd, h₁⟩
      refine wp_symbol (t := .bar) rfl (by decide) h₁ ?_ ?_
      · exact fun _ h₂ => ⟨ts₁, d, ts, rfl, .exec hd, hcmd, h₂⟩
      · rintro ts s₂ rfl h₂
        rw [wp_bind]
        refine wp_mono (ih s₂ ts h₂) ?_ (fun e he => he.mono (by grind))
        rintro cmd' s₃ ⟨ts₂, d', ts, rfl, hd', hcmd', h₃⟩
        exact ⟨_, _, ts, by simp, .pipe hd hd', .pipe hcmd hcmd', h₃⟩

theorem sound_parseback (h : At line s ts) (hcmd : cmd.Rel (Spells line) d) :
    wp (parseback line.length n cmd) (fun cmd' s' => exists j ts',
        ts = List.replicate j .amp ++ ts' ∧
          cmd'.Rel (Spells line) (Cmd.back^[j] d) ∧ At line s' ts')
      (Halts (fun k => n < k + 1) ts.length) s := by
  induction n generalizing s ts cmd d with
  | zero => exact Or.inr ⟨rfl, by lia⟩
  | succ n ih =>
      unfold parseback
      refine wp_symbol (t := .amp) rfl (by decide) h ?_ ?_
      · exact fun _ h₁ => ⟨0, ts, rfl, hcmd, h₁⟩
      · rintro ts s₁ rfl h₁
        refine wp_mono (ih h₁ (.back hcmd)) ?_
          (fun e he => he.mono (by grind))
        rintro cmd' s₂ ⟨j, ts, rfl, hcmd', h₂⟩
        exact ⟨j + 1, ts, by rw [List.replicate_succ]; rfl, hcmd', h₂⟩

theorem sound_parseline :
    Sounds line .line (parseline line.length n) (fun k => n < k + 3) := by
  induction n with
  | zero => exact fun s ts _ => Or.inr ⟨rfl, by lia⟩
  | succ n ih =>
      intro s ts h
      unfold parseline
      rw [wp_bind]
      refine wp_mono (sound_parsepipe ih s ts h) ?_
        (fun e he => he.mono (by grind))
      rintro cmd s₁ ⟨ts₁, d, ts, rfl, hd, hcmd, h₁⟩
      rw [wp_bind]
      refine wp_mono (sound_parseback h₁ hcmd) ?_
        (fun e he => he.mono (by grind))
      rintro cmd s₂ ⟨j, ts, rfl, hcmd, h₂⟩
      refine wp_symbol (t := .semi) rfl (by decide) h₂ ?_ ?_
      · exact fun _ h₃ => ⟨_, _, ts, by simp, .line j hd, hcmd, h₃⟩
      · rintro ts s₃ rfl h₃
        rw [wp_bind]
        refine wp_mono (ih s₃ ts h₃) ?_ (fun e he => he.mono (by grind))
        rintro cmd' s₄ ⟨ts₂, d', ts, rfl, hd', hcmd', h₄⟩
        exact ⟨_, _, ts, by simp, .list j hd hd', .list hcmd hcmd', h₄⟩

end sound

end Sh
end Xv6
