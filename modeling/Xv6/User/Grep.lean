import Mathlib.Computability.Language

/-!
# The pattern matcher and the line loop of grep

A C string is the list of its bytes before the NUL.  The matcher decides a
language of patterns; the line loop keeps a line that has no end yet for the
next read, unless it has seen no newline at all.
-/

namespace Xv6
namespace Grep

def caret : UInt8 := 0x5e

def dot : UInt8 := 0x2e

def star : UInt8 := 0x2a

def dollar : UInt8 := 0x24

def newline : UInt8 := 0x0a

/-!
## The matcher
-/

mutual

def matchhere (re text : List UInt8) : Bool :=
  match re with
  | [] => true
  | c :: re =>
      if re.head? = some star then matchstar c re.tail text
      else if c = dollar ∧ re = [] then text.isEmpty
      else
        match text with
        | [] => false
        | t :: text => if c = dot ∨ c = t then matchhere re text else false
termination_by (re.length, text.length, 0)
decreasing_by
  · have hle : re.tail.length ≤ re.length := by
      rw [List.length_tail]
      exact Nat.sub_le ..
    exact Prod.Lex.left _ _ (Nat.lt_succ_of_le hle)
  · exact Prod.Lex.left _ _ (Nat.lt_succ_self _)

def matchstar (c : UInt8) (re text : List UInt8) : Bool :=
  if matchhere re text then true
  else
    match text with
    | [] => false
    | t :: text => if t = c ∨ c = dot then matchstar c re text else false
termination_by (re.length, text.length, 1)

end

def matchLoop (re : List UInt8) : List UInt8 -> Bool
  | [] => matchhere re []
  | t :: text => if matchhere re (t :: text) then true else matchLoop re text

def «match» (re text : List UInt8) : Bool :=
  if re.head? = some caret then matchhere re.tail text else matchLoop re text

/-!
## The language of a pattern
-/

inductive Item where
  | one (c : UInt8)
  | many (c : UInt8)

/-- What a pattern says: its items, and whether they are bound to the start and
to the end of the text. -/
structure Pattern where
  atStart : Bool
  items : List Item
  atEnd : Bool

def Pattern.cons (i : Item) (p : Pattern) : Pattern :=
  { p with items := i :: p.items }

/-- A pattern after its caret. -/
def parseItems : List UInt8 -> Pattern
  | [] => ⟨false, [], false⟩
  | [c] => if c = dollar then ⟨false, [], true⟩ else ⟨false, [.one c], false⟩
  | c :: d :: re =>
      if d = star then (parseItems re).cons (.many c)
      else (parseItems (d :: re)).cons (.one c)

def parse (re : List UInt8) : Pattern :=
  if re.head? = some caret then { parseItems re.tail with atStart := true }
  else parseItems re

/-- The single characters that `c` stands for. -/
def chars (c : UInt8) : Language UInt8 :=
  {w | exists t, w = [t] ∧ (c = dot ∨ c = t)}

def Item.language : Item -> Language UInt8
  | .one c => chars c
  | .many c => KStar.kstar (chars c)

def Pattern.language (p : Pattern) : Language UInt8 :=
  (p.items.map Item.language).prod

/-- The text has a part in the language, where the pattern allows it. -/
def Pattern.Finds (p : Pattern) (text : List UInt8) : Prop :=
  exists before w after, text = before ++ w ++ after ∧ w ∈ p.language ∧
    (p.atStart = true -> before = []) ∧ (p.atEnd = true -> after = [])

/-- The text starts with such a part. -/
def Pattern.Starts (p : Pattern) (text : List UInt8) : Prop :=
  exists w after, text = w ++ after ∧ w ∈ p.language ∧
    (p.atEnd = true -> after = [])

theorem starts_nil {p : Pattern} (h : p.items = []) (text : List UInt8) :
    p.Starts text ↔ (p.atEnd = true -> text = []) := by
  have hone : p.language = 1 := by
    rw [Pattern.language, h]
    rfl
  constructor
  · intro hstarts
    rcases hstarts with ⟨w, after, htext, hw, hend⟩
    rw [hone, Language.mem_one] at hw
    rw [htext, hw]
    exact hend
  · intro hend
    refine ⟨[], text, rfl, ?_, hend⟩
    rw [hone, Language.mem_one]

theorem mem_chars_mul {c : UInt8} {l : Language UInt8} {w : List UInt8} :
    w ∈ chars c * l ↔
      exists t rest, w = t :: rest ∧ (c = dot ∨ c = t) ∧ rest ∈ l := by
  rw [Language.mem_mul]
  constructor
  · intro h
    rcases h with ⟨_, ⟨t, rfl, ht⟩, rest, hrest, hw⟩
    exact ⟨t, rest, hw.symm, ht, hrest⟩
  · intro h
    rcases h with ⟨t, rest, hw, ht, hrest⟩
    exact ⟨[t], ⟨t, rfl, ht⟩, rest, hrest, hw.symm⟩

theorem starts_one (p : Pattern) (c : UInt8) (text : List UInt8) :
    (p.cons (.one c)).Starts text ↔
      exists t rest, text = t :: rest ∧ (c = dot ∨ c = t) ∧ p.Starts rest := by
  have hlanguage : (p.cons (.one c)).language = chars c * p.language :=
    List.prod_cons
  unfold Pattern.Starts
  rw [hlanguage]
  constructor
  · intro h
    rcases h with ⟨w, after, htext, hw, hend⟩
    rcases mem_chars_mul.mp hw with ⟨t, rest, rfl, ht, hrest⟩
    exact ⟨t, rest ++ after, htext, ht, rest, after, rfl, hrest, hend⟩
  · intro h
    rcases h with ⟨t, _, htext, ht, rest, after, rfl, hrest, hend⟩
    exact ⟨t :: rest, after, htext,
      mem_chars_mul.mpr ⟨t, rest, rfl, ht, hrest⟩, hend⟩

theorem starts_many (p : Pattern) (c : UInt8) (text : List UInt8) :
    (p.cons (.many c)).Starts text ↔ p.Starts text ∨
      exists t rest, text = t :: rest ∧ (c = dot ∨ c = t) ∧
        (p.cons (.many c)).Starts rest := by
  have hlanguage : (p.cons (.many c)).language =
      p.language + chars c * (p.cons (.many c)).language := by
    show (List.map _ (_ :: _)).prod = _ + _ * (List.map _ (_ :: _)).prod
    rw [List.map_cons, List.prod_cons, ← mul_assoc]
    show KStar.kstar (chars c) * _ = p.language + _
    rw [← Language.one_add_self_mul_kstar_eq_kstar (chars c), add_mul, one_mul]
    rfl
  constructor
  · intro h
    rcases h with ⟨w, after, htext, hw, hend⟩
    rw [hlanguage, Language.mem_add, mem_chars_mul] at hw
    rcases hw with hw | ⟨t, rest, rfl, ht, hrest⟩
    · exact Or.inl ⟨w, after, htext, hw, hend⟩
    · exact Or.inr ⟨t, rest ++ after, htext, ht, rest, after, rfl, hrest, hend⟩
  · intro h
    rcases h with ⟨w, after, htext, hw, hend⟩ |
      ⟨t, _, htext, ht, rest, after, rfl, hrest, hend⟩
    · refine ⟨w, after, htext, ?_, hend⟩
      rw [hlanguage, Language.mem_add]
      exact Or.inl hw
    · refine ⟨t :: rest, after, htext, ?_, hend⟩
      rw [hlanguage, Language.mem_add, mem_chars_mul]
      exact Or.inr ⟨t, rest, rfl, ht, hrest⟩

/-!
## The matcher decides the language
-/

theorem matchstar_iff {re : List UInt8} {p : Pattern}
    (h : forall text, matchhere re text = true ↔ p.Starts text) (c : UInt8)
    (text : List UInt8) :
    matchstar c re text = true ↔ (p.cons (.many c)).Starts text := by
  induction text with
  | nil =>
      rw [starts_many, matchstar, ← h]
      simp
  | cons t text ih =>
      rw [starts_many, matchstar, ← h]
      simp [ih, or_comm, @eq_comm _ t c]

theorem matchhere_iff (re text : List UInt8) :
    matchhere re text = true ↔ (parseItems re).Starts text := by
  induction re using parseItems.induct generalizing text with
  | case1 =>
      rw [matchhere, parseItems, starts_nil rfl]
      simp
  | case2 =>
      rw [matchhere.eq_def, parseItems, if_pos rfl, starts_nil rfl]
      simp
  | case3 c hc =>
      rw [parseItems, if_neg hc]
      show _ ↔ (Pattern.cons (.one c) ⟨false, [], false⟩).Starts text
      rw [starts_one]
      cases text with
      | nil => simp [hc, matchhere]
      | cons t text => simp [hc, matchhere, starts_nil]
  | case4 c re ih =>
      rw [matchhere.eq_def, parseItems, if_pos rfl]
      exact matchstar_iff ih c text
  | case5 c d re hd ih =>
      rw [parseItems, if_neg hd, starts_one]
      cases text with
      | nil => simp [hd, matchhere]
      | cons t text => simp [hd, ih, matchhere]

theorem matchLoop_iff (re text : List UInt8) :
    matchLoop re text = true ↔ exists before rest, text = before ++ rest ∧
      (parseItems re).Starts rest := by
  induction text with
  | nil =>
      rw [matchLoop, matchhere_iff]
      simp
  | cons t text ih =>
      rw [matchLoop]
      simp only [matchhere_iff, Bool.if_true_left, Bool.or_eq_true,
        decide_eq_true_eq, ih]
      constructor
      · intro h
        rcases h with h | ⟨before, rest, rfl, h⟩
        · exact ⟨[], t :: text, rfl, h⟩
        · exact ⟨t :: before, rest, rfl, h⟩
      · intro h
        rcases h with ⟨before, rest, htext, h⟩
        cases before with
        | nil =>
            cases htext
            exact Or.inl h
        | cons _ before =>
            cases htext
            exact Or.inr ⟨before, rest, rfl, h⟩

theorem parseItems_atStart (re : List UInt8) :
    (parseItems re).atStart = false := by
  induction re using parseItems.induct with
  | case1 | case2 => rfl
  | case3 c hc => rw [parseItems, if_neg hc]
  | case4 c re ih =>
      rw [parseItems, if_pos rfl]
      exact ih
  | case5 c d re hd ih =>
      rw [parseItems, if_neg hd]
      exact ih

/-- The matcher answers for every pattern and text, and says whether the text
has a part in the language of the pattern. -/
theorem match_iff (re text : List UInt8) :
    «match» re text = true ↔ (parse re).Finds text := by
  unfold «match» parse Pattern.Finds
  split
  · rw [matchhere_iff]
    constructor
    · intro h
      rcases h with ⟨w, after, htext, hw, hend⟩
      exact ⟨[], w, after, htext, hw, fun _ => rfl, hend⟩
    · intro h
      rcases h with ⟨before, w, after, htext, hw, hstart, hend⟩
      cases hstart rfl
      exact ⟨w, after, htext, hw, hend⟩
  · rw [matchLoop_iff]
    constructor
    · intro h
      rcases h with ⟨before, rest, htext, w, after, hrest, hw, hend⟩
      refine ⟨before, w, after, ?_, hw, fun h => ?_, hend⟩
      · rw [htext, hrest, List.append_assoc]
      · rw [parseItems_atStart] at h
        cases h
    · intro h
      rcases h with ⟨before, w, after, htext, hw, _, hend⟩
      refine ⟨before, w ++ after, ?_, w, after, rfl, hw, hend⟩
      rw [htext, List.append_assoc]

/-!
## The line loop
-/

/-- The first `c` of a string: what stands before it and what comes after. -/
def strchr (c : UInt8) : List UInt8 -> Option (List UInt8 × List UInt8)
  | [] => none
  | x :: s =>
      if x = 0 then none
      else if x = c then some ([], s)
      else (strchr c s).map (fun r => (x :: r.1, r.2))

theorem strchr_eq_some {c : UInt8} {s line rest : List UInt8}
    (h : strchr c s = some (line, rest)) :
    s = line ++ c :: rest ∧ c ∉ line := by
  induction s generalizing line with
  | nil => cases h
  | cons x s ih =>
      rw [strchr] at h
      split at h
      · cases h
      · split at h
        · rename_i hx
          cases h
          exact ⟨congrArg (· :: rest) hx, List.not_mem_nil⟩
        · rename_i hx
          rcases Option.map_eq_some_iff.mp h with ⟨r, hr, heq⟩
          cases heq
          rcases ih hr with ⟨hs, hc⟩
          refine ⟨congrArg (x :: ·) hs, ?_⟩
          rw [List.mem_cons, not_or]
          exact ⟨fun h => hx h.symm, hc⟩

theorem strchr_eq_none {c : UInt8} {s : List UInt8} (hnul : 0 ∉ s)
    (h : strchr c s = none) : c ∉ s := by
  induction s with
  | nil => exact List.not_mem_nil
  | cons x s ih =>
      rw [List.mem_cons, not_or] at hnul ⊢
      rw [strchr, if_neg (fun h => hnul.1 h.symm)] at h
      split at h
      · cases h
      · rename_i hx
        exact ⟨fun h => hx h.symm, ih hnul.2 (Option.map_eq_none_iff.mp h)⟩

/-- The inner loop of `grep`: what it writes, and the string that is left. -/
def grepLines (re p : List UInt8) : List UInt8 × List UInt8 :=
  match h : strchr newline p with
  | none => ([], p)
  | some (line, rest) =>
      have _ : rest.length < p.length := by
        rw [(strchr_eq_some h).1]
        simp
        lia
      let r := grepLines re rest
      ((if «match» re line then line ++ [newline] else []) ++ r.1, r.2)
termination_by p.length

/-- The body of `grep`'s outer loop: what it writes, and the buffer after it.
`buf` is what the buffer holds when the `read` returns `chunk`. -/
def grepRead (re buf chunk : List UInt8) : List UInt8 × List UInt8 :=
  let r := grepLines re (buf ++ chunk)
  (r.1, if r.2.length = (buf ++ chunk).length then [] else r.2)

/-- The outer loop over what the reads return. -/
def grepLoop (re : List UInt8) : List UInt8 -> List (List UInt8) -> List UInt8
  | _, [] => []
  | buf, chunk :: chunks =>
      (grepRead re buf chunk).1 ++
        grepLoop re (grepRead re buf chunk).2 chunks

def grep (re : List UInt8) (chunks : List (List UInt8)) : List UInt8 :=
  grepLoop re [] chunks

/-!
## What grep is to write
-/

def lines (input : List UInt8) : List (List UInt8) :=
  (input.splitOn newline).dropLast

def matching (re input : List UInt8) : List UInt8 :=
  ((lines input).filter («match» re)).flatMap (· ++ [newline])

def unended (s : List UInt8) : List UInt8 :=
  (s.splitOn newline).getLast (List.splitOn_ne_nil _ _)

/-- What the buffer keeps after a read: the line that has no end yet, if some
line was seen to end. -/
def kept (s : List UInt8) : List UInt8 :=
  if newline ∈ s then unended s else []

/-- No `read` returns more than `sizeof(buf) - m - 1` bytes, nor nothing. -/
def Fits : List UInt8 -> List (List UInt8) -> Prop
  | _, [] => True
  | buf, chunk :: chunks =>
      chunk ≠ [] ∧ buf.length + chunk.length ≤ 1024 - 1 ∧
        Fits (kept (buf ++ chunk)) chunks

structure Splits (input : List UInt8) (chunks : List (List UInt8)) : Prop where
  flatten : chunks.flatten = input
  fits : Fits [] chunks
  noNul : 0 ∉ input

/-- No newline comes after a read without one. -/
def Whole (chunks : List (List UInt8)) : Prop :=
  chunks.Pairwise (fun chunk later => newline ∈ later -> newline ∈ chunk)

/-!
## Lines
-/

section Lines

variable {s t : List UInt8}

theorem exists_last_newline (h : newline ∈ s) :
    exists a u, s = a ++ newline :: u ∧ newline ∉ u := by
  induction s with
  | nil => cases h
  | cons x s ih =>
      rcases Decidable.em (newline ∈ s) with hs | hs
      · rcases ih hs with ⟨a, u, rfl, hu⟩
        exact ⟨x :: a, u, rfl, hu⟩
      · rcases List.mem_cons.mp h with hx | hmem
        · exact ⟨[], s, congrArg (· :: s) hx.symm, hs⟩
        · exact absurd hmem hs

theorem unended_append_cons (a u : List UInt8) :
    unended (a ++ newline :: u) = unended u := by
  unfold unended
  simp only [List.splitOn_append_cons_self]
  exact List.getLast_append_of_ne_nil _ (List.splitOn_ne_nil _ _)

theorem unended_of_notMem (h : newline ∉ s) : unended s = s := by
  unfold unended
  simp only [List.splitOn_eq_singleton h, List.getLast_singleton]

theorem lines_of_notMem (h : newline ∉ s) : lines s = [] := by
  rw [lines, List.splitOn_eq_singleton h]
  rfl

theorem lines_append_cons (a u : List UInt8) :
    lines (a ++ newline :: u) = a.splitOn newline ++ lines u := by
  rw [lines, List.splitOn_append_cons_self,
    List.dropLast_append_of_ne_nil (List.splitOn_ne_nil _ _)]
  rfl

theorem matching_of_notMem (re : List UInt8) (h : newline ∉ s) :
    matching re s = [] := by
  rw [matching, lines_of_notMem h]
  rfl

theorem matching_append (re t : List UInt8) (h : newline ∈ s) :
    matching re (s ++ t) = matching re s ++ matching re (unended s ++ t) := by
  rcases exists_last_newline h with ⟨a, u, rfl, hu⟩
  rw [unended_append_cons, unended_of_notMem hu, List.append_assoc,
    List.cons_append]
  unfold matching
  rw [lines_append_cons, lines_append_cons, lines_of_notMem hu,
    List.append_nil, List.filter_append, List.flatMap_append]

theorem matching_line (re : List UInt8) {line : List UInt8}
    (h : newline ∉ line) (rest : List UInt8) :
    matching re (line ++ newline :: rest) =
      (if «match» re line then line ++ [newline] else []) ++
        matching re rest := by
  unfold matching
  rw [lines_append_cons, List.splitOn_eq_singleton h, List.singleton_append,
    List.filter_cons]
  split
  · rw [List.flatMap_cons]
  · rfl

theorem matching_nil_append (hs : newline ∉ s) (ht : newline ∈ t) :
    matching [] (s ++ t) = s ++ matching [] t := by
  have hmatch : forall line, «match» [] line = true := by
    intro line
    cases line with
    | nil | cons x line => simp [«match», matchLoop, matchhere]
  rcases List.eq_append_cons_of_mem ht with ⟨line, rest, rfl, hline⟩
  have hlong : newline ∉ s ++ line := by
    rw [List.mem_append, not_or]
    exact ⟨hs, hline⟩
  rw [← List.append_assoc, matching_line [] hlong, matching_line [] hline,
    if_pos (hmatch _), if_pos (hmatch _)]
  simp

end Lines

/-!
## The loop on any reads
-/

section Loop

variable {re buf : List UInt8} {chunks : List (List UInt8)}

theorem grepLines_eq (re : List UInt8) {p : List UInt8} (hnul : 0 ∉ p) :
    grepLines re p = (matching re p, unended p) := by
  fun_induction grepLines re p with
  | case1 p h =>
      have hp := strchr_eq_none hnul h
      rw [matching_of_notMem re hp, unended_of_notMem hp]
  | case2 p line rest h _ r ih =>
      rcases strchr_eq_some h with ⟨hp, hline⟩
      have hrest : 0 ∉ rest := by
        intro hmem
        rw [hp] at hnul
        exact hnul (List.mem_append_right _ (List.mem_cons_of_mem _ hmem))
      have hr : r = (matching re rest, unended rest) := ih hrest
      rw [hr, hp, matching_line re hline, unended_append_cons]

theorem grepRead_eq (re : List UInt8) {buf chunk : List UInt8}
    (hnul : 0 ∉ buf ++ chunk) :
    grepRead re buf chunk =
      (matching re (buf ++ chunk), kept (buf ++ chunk)) := by
  unfold grepRead kept
  simp only [grepLines_eq re hnul]
  congr 1
  generalize buf ++ chunk = s
  rcases Decidable.em (newline ∈ s) with h | h
  · rcases exists_last_newline h with ⟨a, u, rfl, hu⟩
    rw [if_pos h, if_neg]
    rw [unended_append_cons, unended_of_notMem hu, List.length_append,
      List.length_cons]
    lia
  · rw [if_neg h, unended_of_notMem h, if_pos rfl]

theorem newline_notMem_kept (s : List UInt8) : newline ∉ kept s := by
  unfold kept
  split
  · rename_i h
    rcases exists_last_newline h with ⟨a, u, rfl, hu⟩
    rw [unended_append_cons, unended_of_notMem hu]
    exact hu
  · exact List.not_mem_nil

theorem kept_subset (s : List UInt8) : kept s ⊆ s := by
  unfold kept
  split
  · rename_i h
    rcases exists_last_newline h with ⟨a, u, rfl, hu⟩
    rw [unended_append_cons, unended_of_notMem hu]
    intro x hx
    exact List.mem_append_right _ (List.mem_cons_of_mem _ hx)
  · exact List.nil_subset _

/-- The state of the loop: the buffer holds a part of a line, and no NUL is in
it or to come. -/
structure Reading (buf : List UInt8) (chunks : List (List UInt8)) : Prop where
  noNul : 0 ∉ buf ++ chunks.flatten
  part : newline ∉ buf

variable {chunk : List UInt8}

theorem Reading.grepRead (h : Reading buf (chunk :: chunks)) (re : List UInt8) :
    grepRead re buf chunk =
      (matching re (buf ++ chunk), kept (buf ++ chunk)) := by
  apply grepRead_eq
  intro hmem
  apply h.noNul
  rw [List.flatten_cons, ← List.append_assoc]
  exact List.mem_append_left _ hmem

theorem Reading.next (h : Reading buf (chunk :: chunks)) :
    Reading (kept (buf ++ chunk)) chunks := by
  refine ⟨fun hmem => h.noNul ?_, newline_notMem_kept _⟩
  rw [List.flatten_cons, ← List.append_assoc]
  rcases List.mem_append.mp hmem with hmem | hmem
  · exact List.mem_append_left _ (kept_subset _ hmem)
  · exact List.mem_append_right _ hmem

theorem Reading.matching_next (h : newline ∈ chunk) (re buf rest : List UInt8) :
    matching re (buf ++ (chunk ++ rest)) =
      matching re (buf ++ chunk) ++
        matching re (kept (buf ++ chunk) ++ rest) := by
  have hmem : newline ∈ buf ++ chunk := List.mem_append_right _ h
  rw [← List.append_assoc, matching_append re rest hmem, kept, if_pos hmem]

theorem Reading.forgets (h : Reading buf (chunk :: chunks))
    (hchunk : newline ∉ chunk) (re : List UInt8) :
    newline ∉ buf ++ chunk ∧
      grepLoop re buf (chunk :: chunks) = grepLoop re [] chunks := by
  have hpart : newline ∉ buf ++ chunk := by
    rw [List.mem_append, not_or]
    exact ⟨h.part, hchunk⟩
  rw [grepLoop, h.grepRead re, matching_of_notMem re hpart, kept,
    if_neg hpart]
  exact ⟨hpart, rfl⟩

theorem newline_notMem_later (h : Whole (chunk :: chunks))
    (hchunk : newline ∉ chunk) : newline ∉ chunks.flatten := by
  intro hmem
  rcases List.mem_flatten.mp hmem with ⟨later, hlater, hin⟩
  exact hchunk ((List.pairwise_cons.mp h).1 later hlater hin)

theorem Reading.right (h : Reading buf chunks) (hwhole : Whole chunks)
    (re : List UInt8) :
    grepLoop re buf chunks = matching re (buf ++ chunks.flatten) := by
  induction chunks generalizing buf with
  | nil =>
      rw [List.flatten_nil, List.append_nil, matching_of_notMem re h.part]
      rfl
  | cons chunk chunks ih =>
      rcases Decidable.em (newline ∈ chunk) with hchunk | hchunk
      · rw [grepLoop, h.grepRead re, ih h.next (List.pairwise_cons.mp hwhole).2,
          List.flatten_cons, Reading.matching_next hchunk]
      · rcases h.forgets hchunk re with ⟨hpart, hloop⟩
        have hlater := newline_notMem_later hwhole hchunk
        have hnext : Reading [] chunks := by
          have hnext := h.next
          rwa [kept, if_neg hpart] at hnext
        rw [hloop, ih hnext (List.pairwise_cons.mp hwhole).2, List.nil_append,
          matching_of_notMem re hlater, List.flatten_cons,
          ← List.append_assoc, matching_of_notMem re]
        rw [List.mem_append, not_or]
        exact ⟨hpart, hlater⟩

theorem Reading.length_le (h : Reading buf chunks) :
    (grepLoop [] buf chunks).length ≤
      (matching [] (buf ++ chunks.flatten)).length := by
  induction chunks generalizing buf with
  | nil => exact Nat.zero_le _
  | cons chunk chunks ih =>
      rw [List.flatten_cons]
      rcases Decidable.em (newline ∈ chunk) with hchunk | hchunk
      · rw [grepLoop, h.grepRead [], Reading.matching_next hchunk,
          List.length_append, List.length_append]
        exact Nat.add_le_add_left (ih h.next) _
      · rcases h.forgets hchunk [] with ⟨hpart, hloop⟩
        have hnext := h.next
        rw [kept, if_neg hpart] at hnext
        rw [hloop, ← List.append_assoc]
        rcases Decidable.em (newline ∈ chunks.flatten) with hlater | hlater
        · rw [matching_nil_append hpart hlater, List.length_append]
          exact Nat.le_add_left_of_le (ih hnext)
        · have hnone := ih hnext
          rw [List.nil_append, matching_of_notMem [] hlater] at hnone
          exact Nat.le_trans hnone (Nat.zero_le _)

theorem Reading.whole (h : Reading buf chunks) (hne : [] ∉ chunks)
    (hright : grepLoop [] buf chunks = matching [] (buf ++ chunks.flatten)) :
    Whole chunks := by
  induction chunks generalizing buf with
  | nil => exact List.Pairwise.nil
  | cons chunk chunks ih =>
      rw [List.mem_cons, not_or] at hne
      rcases Decidable.em (newline ∈ chunk) with hchunk | hchunk
      · rw [grepLoop, h.grepRead [], List.flatten_cons,
          Reading.matching_next hchunk] at hright
        exact List.Pairwise.cons (fun _ _ _ => hchunk)
          (ih h.next hne.2 (List.append_cancel_left hright))
      · rcases h.forgets hchunk [] with ⟨hpart, hloop⟩
        have hnext := h.next
        rw [kept, if_neg hpart] at hnext
        have hlater : newline ∉ chunks.flatten := by
          intro hlater
          have hle := hnext.length_le
          rw [← hloop, hright, List.flatten_cons, ← List.append_assoc,
            matching_nil_append hpart hlater, List.nil_append,
            List.length_append, List.length_append] at hle
          have hpos := List.length_pos_iff.mpr (Ne.symm hne.1)
          lia
        apply List.pairwise_of_forall_mem_list
        intro _ _ later hmem hin
        rcases List.mem_cons.mp hmem with rfl | hmem
        · exact absurd hin hchunk
        · exact absurd (List.mem_flatten.mpr ⟨later, hmem, hin⟩) hlater

end Loop

theorem ne_nil_of_fits {buf : List UInt8} {chunks : List (List UInt8)}
    (h : Fits buf chunks) : [] ∉ chunks := by
  induction chunks generalizing buf with
  | nil => exact List.not_mem_nil
  | cons chunk chunks ih =>
      rw [List.mem_cons, not_or]
      exact ⟨h.1.symm, ih h.2.2⟩

/-- `grep` writes the matching lines of its input, whatever the pattern, exactly
when no read that ends no line comes before one that ends a line. -/
theorem grep_right_iff {input : List UInt8} {chunks : List (List UInt8)}
    (h : Splits input chunks) :
    (forall re, grep re chunks = matching re input) ↔ Whole chunks := by
  have hstart : Reading [] chunks := by
    refine ⟨?_, List.not_mem_nil⟩
    rw [List.nil_append, h.flatten]
    exact h.noNul
  rw [← h.flatten]
  constructor
  · intro hright
    exact hstart.whole (ne_nil_of_fits h.fits) (hright [])
  · intro hwhole re
    exact hstart.right hwhole re

/-- The buffer keeps the start of the second line for the second read. -/
theorem grep_right_two_lines :
    grep [] [[0x61, newline, 0x62], [0x61, newline]] =
      matching [] [0x61, newline, 0x62, 0x61, newline] := by
  have hsplits : Splits [0x61, newline, 0x62, 0x61, newline]
      [[0x61, newline, 0x62], [0x61, newline]] :=
    ⟨rfl, ⟨by decide, by decide, by decide, by decide, trivial⟩, by decide⟩
  have hwhole : Whole [[0x61, newline, 0x62], [0x61, newline]] := by
    simp [Whole]
  exact (grep_right_iff hsplits).mpr hwhole []

/-- The line "ab", read in two parts, is written as "b". -/
theorem grep_splits_line :
    Splits [0x61, 0x62, newline] [[0x61], [0x62, newline]] ∧
      grep [] [[0x61], [0x62, newline]] = [0x62, newline] ∧
        matching [] [0x61, 0x62, newline] = [0x61, 0x62, newline] := by
  have hmatch : «match» [] [0x61, 0x62] = true := by
    simp [«match», matchLoop, matchhere]
  refine ⟨⟨rfl, ⟨by decide, by decide, by decide, by decide, trivial⟩,
    by decide⟩, ?_, ?_⟩
  · simp [grep, grepLoop, grepRead, grepLines, strchr, «match», matchLoop,
      matchhere, newline]
  · rw [matching, show lines _ = [[0x61, 0x62]] from rfl,
      List.filter_cons_of_pos hmatch]
    rfl

end Grep
end Xv6
