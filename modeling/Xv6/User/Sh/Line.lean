import Xv6.User.Sh.Complete

/-!
# The whole line
-/

namespace Xv6
namespace Sh

open Lib Lib.Run

/-!
## The strings of the command

`nulterminate` writes behind words only, so that no word changes and each one
ends in a NUL.
-/

section strings

variable {line buf w : List Char} {p : Span} {cmd : Cmd Span}
  {d : Cmd (List Char)}

/-- The characters of words are those of the line. -/
def Intact (src buf : List Char) : Prop :=
  forall (i : Nat) c, src[i]? = some c -> isWord c = true -> buf[i]? = some c

/-- Nothing follows the string `p`. -/
def Ends (buf : List Char) (p : Span) : Prop :=
  forall c, buf[p.2]? = some c -> c = '\x00'

theorem Ends.set {i : Nat} (h : Ends buf p) :
    Ends (buf.set i '\x00') p := by
  intro c hc
  rw [List.getElem?_set] at hc
  split at hc
  · split at hc
    · exact (Option.some.inj hc).symm
    · cases hc
  · exact h c hc

theorem ends_set : Ends (buf.set p.2 '\x00') p := by
  intro c hc
  rw [List.getElem?_set_self'] at hc
  cases hbuf : buf[p.2]? with
  | none =>
      rw [hbuf] at hc
      cases hc
  | some c' =>
      rw [hbuf] at hc
      exact (Option.some.inj hc).symm

theorem Spells.next (hp : Spells line p w) {c : Char}
    (hc : (line)[p.2]? = some c) : isWord c = false := by
  rcases hp with ⟨pre, rest, hline, rfl, _, hend⟩
  apply hend
  rw [hline, ← List.append_assoc, List.getElem?_append_right (by simp)] at hc
  simp only [List.length_append, Nat.sub_self] at hc
  rw [List.head?_eq_getElem?]
  exact hc

theorem Spells.inside (hp : Spells line p w) {i : Nat} (hi : p.1 ≤ i)
    (hlt : i < p.2) : exists c, (line)[i]? = some c ∧ isWord c = true := by
  rcases hp with ⟨pre, rest, rfl, rfl, hword, _⟩
  dsimp only at hi hlt
  have hlen : i - pre.length < w.length := by lia
  refine ⟨w[i - pre.length], ?_, hword _ (List.getElem_mem hlen)⟩
  rw [List.getElem?_append_right hi, List.getElem?_append_left hlen,
    List.getElem?_eq_getElem hlen]

theorem Intact.set (h : Intact line buf) (hp : Spells line p w) :
    Intact line (buf.set p.2 '\x00') := by
  intro i c hi hc
  have hne : p.2 ≠ i := by
    intro heq
    rw [← heq] at hi
    rw [hp.next hi] at hc
    cases hc
  rw [List.getElem?_set_ne hne]
  exact h i c hi hc

/-- The string `p` is the word `w` and ends in `buf`. -/
def Terminated (line buf : List Char) (p : Span) (w : List Char) : Prop :=
  Spells line p w ∧ Ends buf p

theorem terminated_foldl {argv : List Span} {ws : List (List Char)}
    (hargv : List.Forall₂ (Spells line) argv ws) (h : Intact line buf) :
    Intact line (argv.foldl (fun buf q => buf.set q.2 '\x00') buf) ∧
      (forall p, Ends buf p ->
        Ends (argv.foldl (fun buf q => buf.set q.2 '\x00') buf) p) ∧
      List.Forall₂ (Terminated line
        (argv.foldl (fun buf q => buf.set q.2 '\x00') buf)) argv ws := by
  induction hargv generalizing buf with
  | nil => exact ⟨h, fun _ hp => hp, .nil⟩
  | @cons q w argv ws hq _ ih =>
      rcases ih (h.set hq) with ⟨hintact, hends, hargv⟩
      exact ⟨hintact, fun p hp => hends p hp.set,
        .cons ⟨hq, hends q ends_set⟩ hargv⟩

theorem Cmd.Rel.mono {V W : Type} {R R' : V -> W -> Prop} {c : Cmd V}
    {d : Cmd W} (h : c.Rel R d) (hR : forall v w, R v w -> R' v w) :
    c.Rel R' d := by
  induction h with
  | exec h => exact .exec (h.imp hR)
  | redir _ hfile ih => exact .redir ih (hR _ _ hfile)
  | pipe _ _ ih ih' => exact .pipe ih ih'
  | list _ _ ih ih' => exact .list ih ih'
  | back _ ih => exact .back ih

theorem nulterminate_spec (hcmd : cmd.Rel (Spells line) d)
    (h : Intact line buf) :
    Intact line (nulterminate cmd buf) ∧
      (forall p, Ends buf p -> Ends (nulterminate cmd buf) p) ∧
      cmd.Rel (Terminated line (nulterminate cmd buf)) d := by
  induction hcmd generalizing buf with
  | exec hargv =>
      rcases terminated_foldl hargv h with ⟨hintact, hends, hargv⟩
      exact ⟨hintact, hends, .exec hargv⟩
  | redir _ hfile ih =>
      rcases ih h with ⟨hintact, hends, hrel⟩
      refine ⟨hintact.set hfile, fun p hp => (hends p hp).set,
        .redir (hrel.mono ?_) ⟨hfile, ends_set⟩⟩
      exact fun p w hp => ⟨hp.1, hp.2.set⟩
  | pipe _ _ ih ih' =>
      rcases ih h with ⟨hintact, hends, hrel⟩
      rcases ih' hintact with ⟨hintact', hends', hrel'⟩
      refine ⟨hintact', fun p hp => hends' p (hends p hp),
        .pipe (hrel.mono ?_) hrel'⟩
      exact fun p w hp => ⟨hp.1, hends' p hp.2⟩
  | list _ _ ih ih' =>
      rcases ih h with ⟨hintact, hends, hrel⟩
      rcases ih' hintact with ⟨hintact', hends', hrel'⟩
      refine ⟨hintact', fun p hp => hends' p (hends p hp),
        .list (hrel.mono ?_) hrel'⟩
      exact fun p w hp => ⟨hp.1, hends' p hp.2⟩
  | back _ ih =>
      rcases ih h with ⟨hintact, hends, hrel⟩
      exact ⟨hintact, hends, .back hrel⟩

theorem cstring_eq (h : Intact line buf) (hp : Terminated line buf p w)
    (hline : forall c, c ∈ line -> c ≠ '\x00') : cstring buf p.1 = w := by
  rcases hp with ⟨⟨pre, rest, rfl, rfl, hword, _⟩, hends⟩
  have htake : (buf.drop pre.length).take w.length = w := by
    apply List.ext_getElem?
    intro i
    rcases Nat.lt_or_ge i w.length with hi | hi
    · rw [List.getElem?_take_of_lt hi, List.getElem?_drop,
        List.getElem?_eq_getElem hi]
      apply h (pre.length + i)
      · rw [List.getElem?_append_right (by lia), Nat.add_sub_cancel_left,
          List.getElem?_append_left hi, List.getElem?_eq_getElem hi]
      · exact hword _ (List.getElem_mem hi)
    · rw [List.getElem?_eq_none hi,
        List.getElem?_eq_none (by rw [List.length_take]; lia)]
  have hrest : (buf.drop (pre.length + w.length)).takeWhile
      (fun c => decide (c ≠ '\x00')) = [] := by
    cases hdrop : buf.drop (pre.length + w.length) with
    | nil => rfl
    | cons c r =>
        have hc : c = '\x00' := by
          apply hends
          dsimp only
          rw [← List.head?_drop, hdrop]
          rfl
        rw [hc, List.takeWhile_cons_of_neg (by decide)]
  unfold cstring
  dsimp only
  rw [← List.take_append_drop w.length (buf.drop pre.length), htake,
    List.drop_drop, List.takeWhile_append_of_pos, hrest, List.append_nil]
  intro c hc
  exact decide_eq_true (hline c (by simp [hc]))

def Cmd.map {V W : Type} (f : V -> W) : Cmd V -> Cmd W
  | .exec argv => .exec (argv.map f)
  | .redir cmd file mode fd => .redir (cmd.map f) (f file) mode fd
  | .pipe left right => .pipe (left.map f) (right.map f)
  | .list left right => .list (left.map f) (right.map f)
  | .back cmd => .back (cmd.map f)

theorem Cmd.Rel.map_eq {V W : Type} {f : V -> W} {c : Cmd V} {d : Cmd W}
    (h : c.Rel (fun v w => f v = w) d) : c.map f = d := by
  induction h with
  | exec h =>
      unfold Cmd.map
      congr 1
      induction h with
      | nil => rfl
      | cons hv _ ih => rw [List.map_cons, hv, ih]
  | redir _ hfile ih =>
      unfold Cmd.map
      rw [ih, hfile]
  | pipe _ _ ih ih' | list _ _ ih ih' =>
      unfold Cmd.map
      rw [ih, ih']
  | back _ ih =>
      unfold Cmd.map
      rw [ih]

theorem nulterminate_rel (hcmd : cmd.Rel (Spells (cstring buf 0)) d) :
    cmd.Rel (fun q w => Spells (cstring buf 0) q w ∧
      cstring (nulterminate cmd buf) q.1 = w) d := by
  have hintact : Intact (cstring buf 0) buf := by
    intro i c hi _
    rcases List.takeWhile_prefix (l := buf) (fun c => decide (c ≠ '\x00')) with
      ⟨rest, hrest⟩
    rcases List.getElem?_eq_some_iff.mp hi with ⟨hlt, _⟩
    rw [← hrest]
    show (cstring buf 0 ++ rest)[i]? = some c
    rw [List.getElem?_append_left hlt]
    exact hi
  have hline : forall c, c ∈ cstring buf 0 -> c ≠ '\x00' := by
    intro c hc
    exact of_decide_eq_true (List.mem_takeWhile_imp
      (p := fun c => decide (c ≠ '\x00')) hc)
  rcases nulterminate_spec hcmd hintact with ⟨hintact', _, hrel⟩
  exact hrel.mono (fun p w hp => ⟨hp.1, cstring_eq hintact' hp hline⟩)

theorem nulterminate_map (hcmd : cmd.Rel (Spells (cstring buf 0)) d) :
    cmd.map (fun q => cstring (nulterminate cmd buf) q.1) = d :=
  ((nulterminate_rel hcmd).mono (fun _ _ h => h.2)).map_eq

def Cmd.strings {W : Type} : Cmd W -> List W
  | .exec argv => argv
  | .redir cmd file _ _ => file :: cmd.strings
  | .pipe left right => left.strings ++ right.strings
  | .list left right => left.strings ++ right.strings
  | .back cmd => cmd.strings

theorem Cmd.Rel.of_mem {V W : Type} {R : V -> W -> Prop} {c : Cmd V}
    {d : Cmd W} (h : c.Rel R d) {q : V} (hq : q ∈ c.strings) :
    exists w, R q w := by
  induction h with
  | exec h =>
      induction h with
      | nil => cases hq
      | @cons _ w _ _ hv _ ih =>
          rcases List.mem_cons.mp hq with rfl | hq
          · exact ⟨w, hv⟩
          · exact ih hq
  | @redir _ _ _ w _ _ _ hfile ih =>
      rcases List.mem_cons.mp hq with rfl | hq
      · exact ⟨w, hfile⟩
      · exact ih hq
  | pipe _ _ ih ih' | list _ _ ih ih' =>
      exact (List.mem_append.mp hq).elim ih ih'
  | back _ ih => exact ih hq

end strings

/-!
## The whole line
-/

section parsecmd

variable {buf s : List Char} {fuel : Nat}

theorem length_tokens_le : (tokens s).length ≤ s.length := by
  induction hn : s.length using Nat.strong_induction_on generalizing s with
  | h n ih =>
      cases hs : skip s with
      | nil =>
          rw [tokens_of_skip_nil hs]
          exact Nat.zero_le n
      | cons c r =>
          rcases tokens_of_skip_cons hs with ⟨t, w, _, hlex, htokens⟩
          have hlt := hlex.length_lt
          have hle := List.length_dropWhile_le
            (fun c => decide (c ∈ whitespace)) s
          unfold skip at hs
          rw [hs] at hle
          have hrest := ih (lex (c :: r)).2.length (by lia) rfl
          rw [htokens, List.length_cons]
          lia

theorem skip_nil_iff : skip s = [] ↔ tokens s = [] := by
  constructor
  · exact tokens_of_skip_nil
  · intro htokens
    cases hs : skip s with
    | nil => rfl
    | cons c r =>
        rcases tokens_of_skip_cons hs with ⟨t, w, _, _, hcons⟩
        rw [htokens] at hcons
        cases hcons

theorem parsewhole_eq {es : Nat} :
    parsewhole es fuel s =
      match parseline es fuel s with
      | .ok (cmd, s') => .ok (cmd, skip s')
      | .error e => .error e := by
  unfold parsewhole
  rw [bind_run]
  cases parseline es fuel s with
  | error e => rfl
  | ok r =>
      dsimp only
      rw [bind_run]
      unfold peek
      dsimp only
      cases skip r.2 with
      | nil | cons c s => rfl

theorem parsewhole_sound :
    wp (parsewhole s.length fuel) (fun cmd s' => s' = [] ->
        exists d, Derives .line (tokens s) d ∧ cmd.Rel (Spells s) d)
      (fun e => s.length + 3 ≤ fuel -> exists msg, e = .panic msg) s := by
  have hsound : wp (parseline s.length fuel) _ _ s :=
    sound_parseline s (tokens s) ⟨List.suffix_rfl, rfl⟩
  have hle := length_tokens_le (s := s)
  unfold wp at hsound ⊢
  rw [parsewhole_eq]
  cases hrun : parseline s.length fuel s with
  | error e =>
      rw [hrun] at hsound
      intro hfuel
      rcases hsound with hpanic | ⟨_, hlt⟩
      · exact hpanic
      · lia
  | ok r =>
      rw [hrun] at hsound
      rcases hsound with ⟨ts, d, ts', hts, hd, hcmd, hat⟩
      intro hnil
      have hts' : ts' = [] := by
        rw [← hat.tokens]
        exact skip_nil_iff.mp hnil
      rw [hts, hts', List.append_nil]
      exact ⟨d, hd, hcmd⟩

theorem parsewhole_complete {d : Cmd (List Char)}
    (hd : Derives .line (tokens s) d) :
    wp (parsewhole s.length fuel) (fun cmd s' => s' = [] ∧
        cmd.Rel (Spells s) d) (· = .fuel) s := by
  have hcomplete : wp (parseline s.length fuel) (fun cmd s' =>
      cmd.Rel (Spells s) d ∧ At s s' []) (· = .fuel) s :=
    completes_of_derives hd 0 fuel s []
      ⟨List.suffix_rfl, (List.append_nil _).symm⟩ (Or.inl rfl)
  unfold wp at hcomplete ⊢
  rw [parsewhole_eq]
  cases hrun : parseline s.length fuel s with
  | error e =>
      rw [hrun] at hcomplete
      exact hcomplete
  | ok r =>
      rw [hrun] at hcomplete
      exact ⟨skip_nil_iff.mpr hcomplete.2.tokens, hcomplete.1⟩

theorem parsecmd_grammar (hfuel : buf.length + 3 ≤ fuel) :
    (forall d, (exists cmd buf', parsecmd fuel buf = .ok (cmd, buf') ∧
        cmd.map (fun q => cstring buf' q.1) = d) ↔
      Derives .line (tokens (cstring buf 0)) d) ∧
    ((forall d, ¬ Derives .line (tokens (cstring buf 0)) d) ->
      exists msg, parsecmd fuel buf = .error (.panic msg)) := by
  have hlen : (cstring buf 0).length ≤ buf.length :=
    (List.takeWhile_prefix (l := buf) _).length_le
  have hsound : wp (parsewhole (cstring buf 0).length fuel) _ _
      (cstring buf 0) := parsewhole_sound
  have hcomplete : forall d, Derives .line (tokens (cstring buf 0)) d ->
      wp (parsewhole (cstring buf 0).length fuel) (fun cmd s' => s' = [] ∧
        cmd.Rel (Spells (cstring buf 0)) d) (· = .fuel) (cstring buf 0) :=
    fun d hd => parsewhole_complete hd
  unfold wp at hsound hcomplete
  unfold parsecmd
  dsimp only
  cases hrun : parsewhole (cstring buf 0).length fuel (cstring buf 0) with
  | error e =>
      rw [hrun] at hsound hcomplete
      rcases hsound (by lia) with ⟨msg, rfl⟩
      refine ⟨fun d => ⟨?_, fun hd => ?_⟩, fun _ => ⟨msg, rfl⟩⟩
      · rintro ⟨cmd, buf', hok, _⟩
        cases hok
      · cases hcomplete d hd
  | ok r =>
      rw [hrun] at hsound hcomplete
      rcases eq_or_ne r.2 [] with hnil | hne
      · dsimp only
        rw [if_neg (not_not.mpr hnil)]
        rcases hsound hnil with ⟨d₀, hd₀, hcmd₀⟩
        refine ⟨fun d => ⟨?_, fun hd => ?_⟩, fun hnone => absurd hd₀ (hnone d₀)⟩
        · rintro ⟨cmd, buf', hok, rfl⟩
          cases hok
          rw [nulterminate_map hcmd₀]
          exact hd₀
        · exact ⟨_, _, rfl, nulterminate_map (hcomplete d hd).2⟩
      · dsimp only
        rw [if_pos hne]
        refine ⟨fun d => ⟨?_, fun hd => ?_⟩, fun _ => ⟨_, rfl⟩⟩
        · rintro ⟨cmd, buf', hok, _⟩
          cases hok
        · exact absurd (hcomplete d hd).1 hne

theorem parsecmd_grammar_pipe :
    Derives .line (tokens (cstring "ls|wc>f".toList 0))
      (.pipe (.exec ["ls".toList])
        (.redir (.exec ["wc".toList]) "f".toList 0x201 1)) := by
  have hgrammar := parsecmd_grammar
    (show "ls|wc>f".toList.length + 3 ≤ 10 by decide)
  exact (hgrammar.1 _).mp ⟨_, _, rfl, by decide +kernel⟩

/-- Every string of the command is, after `nulterminate`, the text of its token,
and no token is ended inside one of them. -/
theorem parsecmd_keeps_words {cmd : Cmd Span} {buf' : List Char}
    (h : parsecmd fuel buf = .ok (cmd, buf')) :
    (forall q, q ∈ cmd.strings -> exists w, Spells (cstring buf 0) q w ∧
      cstring buf' q.1 = w) ∧
    forall q r, q ∈ cmd.strings -> r ∈ cmd.strings ->
      ¬ (r.1 ≤ q.2 ∧ q.2 < r.2) := by
  have hsound : wp (parsewhole (cstring buf 0).length fuel) _ _
      (cstring buf 0) := parsewhole_sound
  unfold wp at hsound
  unfold parsecmd at h
  dsimp only at h
  cases hrun : parsewhole (cstring buf 0).length fuel (cstring buf 0) with
  | error e =>
      rw [hrun] at h
      cases h
  | ok r =>
      rw [hrun] at h hsound
      dsimp only at h
      split at h
      · cases h
      · rename_i hnil
        cases h
        rcases hsound (not_not.mp hnil) with ⟨d, _, hcmd⟩
        have hrel := nulterminate_rel hcmd
        constructor
        · exact fun q hq => hrel.of_mem hq
        · intro q r hq hr hin
          rcases hrel.of_mem hq with ⟨w, hw, _⟩
          rcases hrel.of_mem hr with ⟨w', hw', _⟩
          rcases hw'.inside hin.1 hin.2 with ⟨c, hc, hword⟩
          rw [hw.next hc] at hword
          cases hword

theorem parsecmd_keeps_words_pipe :
    exists cmd buf', parsecmd 10 "ls|wc>f".toList = .ok (cmd, buf') ∧
      forall q r, q ∈ cmd.strings -> r ∈ cmd.strings ->
        ¬ (r.1 ≤ q.2 ∧ q.2 < r.2) := by
  have h : parsecmd 10 "ls|wc>f".toList = .ok
      (.pipe (.exec [(0, 2)]) (.redir (.exec [(3, 5)]) (6, 7) 0x201 1),
        "ls\x00wc\x00f".toList) := by
    decide +kernel
  exact ⟨_, _, h, (parsecmd_keeps_words h).2⟩

/-- The NUL after the first word is where the token `|` was. -/
theorem nulterminate_overwrites_symbol :
    exists cmd buf' q, parsecmd 10 "ls|wc".toList = .ok (cmd, buf') ∧
      q ∈ cmd.strings ∧
        gettoken 5 "|wc".toList = .ok (('|', (2, 3)), "wc".toList) ∧
          2 ≤ q.2 ∧ q.2 < 3 := by
  have h : parsecmd 10 "ls|wc".toList = .ok
      (.pipe (.exec [(0, 2)]) (.exec [(3, 5)]), "ls\x00wc".toList) := by
    decide +kernel
  exact ⟨_, _, (0, 2), h, by decide, by decide +kernel, by decide, by decide⟩

end parsecmd

end Sh
end Xv6
