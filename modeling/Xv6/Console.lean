import Xv6.Lib.Bytes
import Xv6.Lib.Ring
import Xv6.Lib.Schedule
import Xv6.Lib.Words

/-!
# The console's input

Characters arrive at `consoleintr` and are edited between the indices `w` and
`e` of a circular buffer until a line is complete.  Processes take what is
below `w` in `consoleread`.  The indices are words that wrap.
-/

namespace Xv6
namespace Console

open Lib

/-!
## The code
-/

abbrev INPUT_BUF : Nat := 128

/-- `C(x)`: Control-x. -/
def C (x : Char) : UInt8 := UInt8.ofNat (x.toNat - '@'.toNat)

def newline : UInt8 := UInt8.ofNat '\n'.toNat

def carriageReturn : UInt8 := UInt8.ofNat '\r'.toNat

structure Input where
  buf : Bytes INPUT_BUF
  r : UInt32
  w : UInt32
  e : UInt32

namespace Input

/-- `input.buf[i % INPUT_BUF]`. -/
def byte (i : Input) (n : UInt32) : UInt8 := i.buf.get (n.toNat % INPUT_BUF)

/-- The loop of kill line, at most `n` times. -/
def killLine : Nat -> Input -> Input
  | 0, i => i
  | n + 1, i =>
      if i.e ≠ i.w ∧ i.byte (i.e - 1) ≠ newline then
        killLine n { i with e := i.e - 1 }
      else
        i

/-- `input.buf[input.e++ % INPUT_BUF] = c`. -/
def put (i : Input) (c : UInt8) : Input :=
  { i with
    buf := i.buf.patch (i.e.toNat % INPUT_BUF) 1 (fun _ => c)
    e := i.e + 1 }

def commit (i : Input) : Input := { i with w := i.e }

/-- One character in `consoleintr`; whether it wakes the readers up. -/
def consoleintr (c : UInt8) (i : Input) : Input × Bool :=
  if c = C 'P' then
    (i, false)
  else if c = C 'U' then
    (i.killLine (i.e - i.w).toNat, false)
  else if c = C 'H' ∨ c = 0x7f then
    if i.e ≠ i.w then ({ i with e := i.e - 1 }, false) else (i, false)
  else if c ≠ 0 ∧ i.e - i.r < 128 then
    let c := if c = carriageReturn then newline else c
    let i := i.put c
    if c = newline ∨ c = C 'D' ∨ i.e = i.r + 128 then
      (i.commit, true)
    else
      (i, false)
  else
    (i, false)

end Input

inductive Pc where
  | out
  /-- `consoleread` has returned the value and stored the bytes. -/
  | returned (value : Int32) (dst : List UInt8)
  | enter (n : Int32)
  /-- At `while(n > 0)`, with the lock. -/
  | loop (target : UInt32) (n : Int32) (dst : List UInt8)
  | asleep (target : UInt32) (n : Int32) (dst : List UInt8)
  | woken (target : UInt32) (n : Int32) (dst : List UInt8)
  /-- At `release(&cons.lock)` before the return. -/
  | leave (value : Int32) (dst : List UInt8)
  deriving DecidableEq, Repr

def Pc.wake : Pc -> Pc
  | asleep target n dst => woken target n dst
  | pc => pc

structure State (ι : Type) where
  input : Input
  /-- The process that has `cons.lock`. -/
  lock : Option ι
  pc : ι -> Pc
  killed : ι -> Bool

variable {ι : Type} [DecidableEq ι]

namespace State

def goto (s : State ι) (p : ι) (pc : Pc) : State ι :=
  { s with pc := Function.update s.pc p pc }

def acquire (s : State ι) (p : ι) (pc : Pc) : State ι :=
  if s.lock = none then { s.goto p pc with lock := some p } else s

def take (s : State ι) : State ι :=
  { s with input := { s.input with r := s.input.r + 1 } }

def step (p : ι) (s : State ι) : State ι :=
  match s.pc p with
  | .out => s
  | .returned _ _ => s
  | .enter n => s.acquire p (.loop n.toUInt32 n [])
  | .loop target n dst =>
      if 0 < n then
        if s.input.r = s.input.w then
          if s.killed p = true then
            s.goto p (.leave (-1) dst)
          else
            { s.goto p (.asleep target n dst) with lock := none }
        else
          let c := s.input.byte s.input.r
          if c = C 'D' then
            if n.toUInt32 < target then
              -- `input.r++` and `input.r--`: save ^D for next time
              s.goto p (.leave (target - n.toUInt32).toInt32 dst)
            else
              s.take.goto p (.leave (target - n.toUInt32).toInt32 dst)
          else if c = newline then
            s.take.goto p
              (.leave (target - (n - 1).toUInt32).toInt32 (dst ++ [c]))
          else
            s.take.goto p (.loop target (n - 1) (dst ++ [c]))
      else
        s.goto p (.leave (target - n.toUInt32).toInt32 dst)
  | .asleep _ _ _ => s
  | .woken target n dst => s.acquire p (.loop target n dst)
  | .leave value dst => { s.goto p (.returned value dst) with lock := none }

end State

inductive Act (ι : Type) where
  | step (p : ι)
  | call (p : ι) (n : Int32)
  | kill (p : ι)
  /-- A character arrives. -/
  | intr (c : UInt8)

def next : Act ι -> State ι -> State ι
  | .step p, s => s.step p
  | .call p n, s =>
      match s.pc p with
      | .out => s.goto p (.enter n)
      | .returned _ _ => s.goto p (.enter n)
      | _ => s
  | .kill p, s =>
      { s.goto p (s.pc p).wake with killed := Function.update s.killed p true }
  | .intr c, s =>
      if s.lock = none then
        match s.input.consoleintr c with
        | (input, true) =>
            { s with input := input, pc := fun q => (s.pc q).wake }
        | (input, false) => { s with input := input }
      else
        s

/-!
## The streams

The bytes that an index passes, as they are when it does.
-/

namespace Input

/-- The part of the buffer between two indices. -/
def ring (i : Input) (a b : UInt32) : Lib.Ring 32 INPUT_BUF UInt8 where
  data := i.buf.get
  nread := a.toBitVec
  nwrite := b.toBitVec

def between (i : Input) (a b : UInt32) : List UInt8 := (i.ring a b).toList

/-- The bytes that are committed and have not been taken. -/
def queue (i : Input) : List UInt8 := i.between i.r i.w

structure Ordered (i : Input) : Prop where
  write : i.w - i.r ≤ i.e - i.r
  edit : i.e - i.r ≤ 128

section Indices

variable {i : Input} {a b c : UInt32}

theorem between_self (i : Input) (a : UInt32) : i.between a a = [] :=
  Ring.toList_eq_nil.mpr rfl

theorem length_between (i : Input) (a b : UInt32) :
    (i.between a b).length = (b - a).toNat :=
  Ring.length_toList _

theorem between_split (i : Input) (h : b - a ≤ c - a) :
    i.between a c = i.between a b ++ i.between b c :=
  Ring.toList_split (by decide) i.buf.get (UInt32.le_iff_toNat_le.mp h)

theorem between_succ (i : Input) (h : a ≠ b) :
    i.between a b = i.byte a :: i.between (a + 1) b :=
  Ring.toList_pop (r := i.ring a b) (by decide)
    (fun heq => h (UInt32.toBitVec_inj.mp heq))

theorem between_put (h : i.e - a < 128) (c : UInt8) :
    (i.put c).between a (i.e + 1) = i.between a i.e ++ [c] := by
  have hslot : i.e.toNat % INPUT_BUF < INPUT_BUF := Nat.mod_lt _ (by decide)
  have hpush : (i.put c).ring a (i.e + 1) = (i.ring a i.e).push c := by
    unfold ring put Ring.push
    rw [Bytes.get_patch_one i.buf hslot]
    rfl
  have hcount : (i.ring a i.e).count < INPUT_BUF :=
    UInt32.lt_iff_toNat_lt.mp h
  unfold between
  rw [hpush]
  exact Ring.toList_push (by decide) (by decide) hcount c

theorem queue_put (h : Ordered i) (hroom : i.e - i.r < 128) (c : UInt8) :
    (i.put c).queue = i.queue := by
  have hwrite := h.write
  have hput := between_put hroom c
  rw [between_split (i.put c) (show i.w - i.r ≤ i.e + 1 - i.r by lia),
    between_split i hwrite, List.append_assoc] at hput
  apply (List.append_inj hput ?_).1
  rw [length_between, length_between]

end Indices

inductive Moves (i : Input) : Input -> Prop where
  | same : Moves i i
  /-- A reader takes a byte. -/
  | took (h : i.r ≠ i.w) : Moves i { i with r := i.r + 1 }
  /-- Bytes are erased. -/
  | erased (e : UInt32) (hlow : i.w - i.r ≤ e - i.r)
      (hhigh : e - i.r ≤ i.e - i.r) : Moves i { i with e := e }
  | put (c : UInt8) (h : i.e - i.r < 128) : Moves i (i.put c)
  | committed (c : UInt8) (h : i.e - i.r < 128) : Moves i (i.put c).commit

section Moves

variable {i i' : Input}

theorem Moves.ordered (h : Moves i i') (hi : Ordered i) : Ordered i' := by
  rcases hi with ⟨hwrite, hedit⟩
  cases h with
  | same => exact ⟨hwrite, hedit⟩
  | took h =>
      refine ⟨?_, ?_⟩
      · show i.w - (i.r + 1) ≤ i.e - (i.r + 1)
        lia
      · show i.e - (i.r + 1) ≤ 128
        lia
  | erased e hlow hhigh => exact ⟨hlow, UInt32.le_trans hhigh hedit⟩
  | put c h =>
      refine ⟨?_, ?_⟩
      · show i.w - i.r ≤ i.e + 1 - i.r
        lia
      · show i.e + 1 - i.r ≤ 128
        lia
  | committed c h =>
      refine ⟨UInt32.le_refl _, ?_⟩
      show i.e + 1 - i.r ≤ 128
      lia

theorem Moves.balance (h : Moves i i') (hi : Ordered i) :
    i.between i.r i'.r ++ i'.queue = i.queue ++ i'.between i.w i'.w := by
  cases h with
  | same => rw [between_self, between_self, List.append_nil, List.nil_append]
  | took h =>
      show i.between i.r (i.r + 1) ++ i.between (i.r + 1) i.w =
        i.queue ++ i.between i.w i.w
      have hone : i.r + 1 - i.r ≤ i.w - i.r := by lia
      rw [between_self, List.append_nil, ← between_split i hone]
      rfl
  | erased e _ _ =>
      show i.between i.r i.r ++ i.queue = i.queue ++ i.between i.w i.w
      rw [between_self, between_self, List.append_nil, List.nil_append]
  | put c h =>
      show (i.between i.r i.r) ++ (i.put c).queue =
        i.queue ++ (i.put c).between i.w i.w
      rw [between_self, between_self, List.append_nil, List.nil_append,
        queue_put hi h]
  | committed c h =>
      show (i.between i.r i.r) ++ (i.put c).between i.r (i.e + 1) =
        i.queue ++ (i.put c).between i.w (i.e + 1)
      have hwrite := hi.write
      rw [between_self, List.nil_append,
        between_split (i.put c) (show i.w - i.r ≤ i.e + 1 - i.r by lia),
        ← queue_put hi h c]
      rfl

end Moves

theorem killLine_erases (n : Nat) {i : Input} (hi : i.w - i.r ≤ i.e - i.r) :
    exists e, i.killLine n = { i with e := e } ∧
      i.w - i.r ≤ e - i.r ∧ e - i.r ≤ i.e - i.r := by
  induction n generalizing i with
  | zero => exact ⟨i.e, rfl, hi, UInt32.le_refl _⟩
  | succ n ih =>
      unfold killLine
      split
      case isTrue h =>
        have hne := h.1
        have hlow : i.w - i.r ≤ i.e - 1 - i.r := by lia
        rcases ih (i := { i with e := i.e - 1 }) hlow with ⟨e, heq, hle, hge⟩
        refine ⟨e, heq, hle, UInt32.le_trans hge ?_⟩
        show i.e - 1 - i.r ≤ i.e - i.r
        lia
      case isFalse => exact ⟨i.e, rfl, hi, UInt32.le_refl _⟩

theorem consoleintr_moves (c : UInt8) {i : Input} (hi : Ordered i) :
    Moves i (i.consoleintr c).1 := by
  have hwrite := hi.write
  unfold consoleintr
  split
  · exact Moves.same
  · split
    · rcases killLine_erases (i.e - i.w).toNat hwrite with
        ⟨e, heq, hlow, hhigh⟩
      rw [heq]
      exact Moves.erased e hlow hhigh
    · split
      · split
        case isTrue hne =>
          exact Moves.erased (i.e - 1) (by lia) (by lia)
        case isFalse => exact Moves.same
      · split
        case isTrue h =>
          generalize (if c = carriageReturn then newline else c) = c
          dsimp only
          split
          · exact Moves.committed c h.2
          · exact Moves.put c h.2
        case isFalse => exact Moves.same

end Input

/-- A run with the bytes that were committed and those that were taken: what the
write index and the read index have passed. -/
structure Trace (ι : Type) where
  state : State ι
  committed : List UInt8
  taken : List UInt8

def Trace.next (a : Act ι) (t : Trace ι) : Trace ι where
  state := Console.next a t.state
  committed := t.committed ++ (Console.next a t.state).input.between
    t.state.input.w (Console.next a t.state).input.w
  taken := t.taken ++ t.state.input.between
    t.state.input.r (Console.next a t.state).input.r

structure Trace.Start (t : Trace ι) : Prop where
  write : t.state.input.w = t.state.input.r
  edit : t.state.input.e = t.state.input.r
  pc : forall p, t.state.pc p = .out
  committed : t.committed = []
  taken : t.taken = []

theorem acquire_input (s : State ι) (p : ι) (pc : Pc) :
    (s.acquire p pc).input = s.input := by
  unfold State.acquire
  split
  · rfl
  · rfl

theorem step_moves (s : State ι) (p : ι) :
    s.input.Moves (s.step p).input := by
  unfold State.step
  split
  · exact Input.Moves.same
  · exact Input.Moves.same
  · rw [acquire_input]
    exact Input.Moves.same
  · split
    · split
      case isTrue =>
        split
        · exact Input.Moves.same
        · exact Input.Moves.same
      case isFalse hbytes =>
        dsimp only
        split
        · split
          · exact Input.Moves.same
          · exact Input.Moves.took hbytes
        · split
          · exact Input.Moves.took hbytes
          · exact Input.Moves.took hbytes
    · exact Input.Moves.same
  · exact Input.Moves.same
  · rw [acquire_input]
    exact Input.Moves.same
  · exact Input.Moves.same

theorem next_moves (a : Act ι) {s : State ι} (h : s.input.Ordered) :
    s.input.Moves (next a s).input := by
  cases a with
  | step p => exact step_moves s p
  | call p n =>
      unfold next
      dsimp only
      split
      · exact Input.Moves.same
      · exact Input.Moves.same
      · exact Input.Moves.same
  | kill p => exact Input.Moves.same
  | intr c =>
      have hmoves := Input.consoleintr_moves c h
      unfold next
      dsimp only
      split
      case isTrue =>
        split
        case h_1 input heq =>
          rw [heq] at hmoves
          exact hmoves
        case h_2 input heq =>
          rw [heq] at hmoves
          exact hmoves
      case isFalse => exact Input.Moves.same

/-!
## A read
-/

/-- A read of `m` bytes that has stored `dst`; `n` of them are left. -/
structure Reading (target : UInt32) (n : Int32) (dst : List UInt8) : Prop where
  count : exists m : Int32, target = m.toUInt32 ∧
    n.toInt = m.toInt - dst.length ∧ (dst = [] ∨ 0 ≤ n.toInt)
  line : newline ∉ dst

section Reading

variable {target : UInt32} {n : Int32} {dst : List UInt8}

theorem reading_start (n : Int32) : Reading n.toUInt32 n [] :=
  ⟨⟨n, rfl, by simp, Or.inl rfl⟩, by simp⟩

theorem Reading.value (h : Reading target n dst) :
    (target - n.toUInt32).toInt32.toInt = dst.length := by
  rcases h.count with ⟨m, rfl, hn, hnonneg⟩
  apply toInt_sub_unsigned hn
  have hlt := m.toInt_lt
  rcases hnonneg with rfl | hnonneg
  · decide
  · lia

theorem Reading.next (h : Reading target n dst) (hn : 0 < n) {c : UInt8}
    (hc : c ≠ newline) : Reading target (n - 1) (dst ++ [c]) := by
  have hpos : 0 < n.toInt := Int32.lt_iff_toInt_lt.mp hn
  have hpred := toInt_pred hpos
  rcases h.count with ⟨m, hm, hcount, _⟩
  refine ⟨⟨m, hm, ?_, Or.inr (by lia)⟩, ?_⟩
  · rw [List.length_append, List.length_singleton]
    lia
  · rw [List.mem_append, List.mem_singleton, not_or]
    exact ⟨h.line, hc.symm⟩

theorem Reading.value_last (h : Reading target n dst) (hn : 0 < n)
    (c : UInt8) :
    (target - (n - 1).toUInt32).toInt32.toInt = (dst ++ [c]).length := by
  have hpos : 0 < n.toInt := Int32.lt_iff_toInt_lt.mp hn
  have hpred := toInt_pred hpos
  rcases h.count with ⟨m, rfl, hcount, _⟩
  have hlt := m.toInt_lt
  rw [List.length_append, List.length_singleton]
  apply toInt_sub_unsigned
  · lia
  · lia

end Reading

/-- What a read has stored, and what it returns. -/
def Pc.Right : Pc -> Prop
  | out => True
  | enter _ => True
  | loop target n dst => Reading target n dst
  | asleep target n dst => Reading target n dst
  | woken target n dst => Reading target n dst
  | leave value dst =>
      value = -1 ∨ value.toInt = dst.length ∧ newline ∉ dst.dropLast
  | returned value dst =>
      value = -1 ∨ value.toInt = dst.length ∧ newline ∉ dst.dropLast

theorem right_wake {pc : Pc} (h : pc.Right) : pc.wake.Right := by
  cases pc with
  | asleep target n dst | _ => exact h

theorem right_update {s : State ι} {p : ι} {pc : Pc}
    (h : forall q, (s.pc q).Right) (hpc : pc.Right) (q : ι) :
    (Function.update s.pc p pc q).Right := by
  rcases eq_or_ne q p with rfl | hne
  · rw [Function.update_self]
    exact hpc
  · rw [Function.update_of_ne hne]
    exact h q

theorem right_acquire {s : State ι} {p : ι} {pc : Pc}
    (h : forall q, (s.pc q).Right) (hpc : pc.Right) (q : ι) :
    ((s.acquire p pc).pc q).Right := by
  unfold State.acquire
  split
  · exact right_update h hpc q
  · exact h q

theorem right_step {s : State ι} (h : forall q, (s.pc q).Right) (p q : ι) :
    ((s.step p).pc q).Right := by
  have hp := h p
  unfold State.step
  split
  next => exact h q
  next => exact h q
  next n hpc =>
      refine right_acquire h ?_ q
      exact reading_start n
  next target n dst hpc =>
      rw [hpc] at hp
      have hread : Reading target n dst := hp
      have hend : newline ∉ dst.dropLast :=
        fun hmem => hread.line (List.mem_of_mem_dropLast hmem)
      have hleave : (Pc.leave (target - n.toUInt32).toInt32 dst).Right :=
        Or.inr ⟨hread.value, hend⟩
      split
      case isTrue hn =>
        split
        · split
          · refine right_update h ?_ q
            exact Or.inl rfl
          · refine right_update h ?_ q
            exact hread
        · dsimp only
          split
          · split
            · exact right_update h hleave q
            · exact right_update h hleave q
          · split
            · refine right_update h ?_ q
              refine Or.inr ⟨hread.value_last hn _, ?_⟩
              rw [List.dropLast_concat]
              exact hread.line
            case isFalse hc =>
              refine right_update h ?_ q
              exact hread.next hn hc
      case isFalse => exact right_update h hleave q
  next => exact h q
  next target n dst hpc =>
      rw [hpc] at hp
      refine right_acquire h ?_ q
      exact hp
  next value dst hpc =>
      rw [hpc] at hp
      refine right_update h ?_ q
      exact hp

theorem right_next {s : State ι} (h : forall q, (s.pc q).Right) (a : Act ι)
    (q : ι) : ((next a s).pc q).Right := by
  cases a with
  | step p => exact right_step h p q
  | call p n =>
      unfold next
      dsimp only
      split
      · refine right_update h ?_ q
        trivial
      · refine right_update h ?_ q
        trivial
      · exact h q
  | kill p => exact right_update h (right_wake (h p)) q
  | intr c =>
      unfold next
      dsimp only
      split
      · split
        · exact right_wake (h q)
        · exact h q
      · exact h q

/-!
## The theorem
-/

structure Trace.Inv (t : Trace ι) : Prop where
  ordered : t.state.input.Ordered
  balance : t.taken ++ t.state.input.queue = t.committed
  right : forall p, (t.state.pc p).Right

omit [DecidableEq ι] in
theorem Trace.Start.inv {t : Trace ι} (h : t.Start) : t.Inv := by
  refine ⟨⟨?_, ?_⟩, ?_, ?_⟩
  · rw [h.write, h.edit]
    exact UInt32.le_refl _
  · rw [h.edit]
    lia
  · unfold Input.queue
    rw [h.taken, h.committed, h.write, Input.between_self]
    rfl
  · intro p
    rw [h.pc p]
    trivial

theorem Trace.Inv.next {t : Trace ι} (h : t.Inv) (a : Act ι) :
    (t.next a).Inv := by
  have hmoves := next_moves a h.ordered
  refine ⟨hmoves.ordered h.ordered, ?_, right_next h.right a⟩
  show t.taken ++ _ ++ (Console.next a t.state).input.queue =
    t.committed ++ _
  rw [List.append_assoc, hmoves.balance h.ordered, ← List.append_assoc,
    h.balance]

/-- A read that has stored `dst` is about to take the byte `c`. -/
def MeetsByte (s : State ι) (p : ι) (dst : List UInt8) (c : UInt8) : Prop :=
  exists target n, s.pc p = .loop target n dst ∧ 0 < n ∧
    s.input.r ≠ s.input.w ∧ s.input.byte s.input.r = c

omit [DecidableEq ι] in
theorem MeetsByte.queue {s : State ι} {p : ι} {dst : List UInt8} {c : UInt8}
    (h : MeetsByte s p dst c) : exists bs, s.input.queue = c :: bs := by
  rcases h with ⟨target, n, _, _, hbytes, rfl⟩
  exact ⟨_, Input.between_succ s.input hbytes⟩

section Steps

variable {t : Trace ι} {p : ι}

end Steps

def quiet : Trace (Fin 2) where
  state :=
    { input := { buf := fun _ => 0, r := 0, w := 0, e := 0 }
      lock := none
      pc := fun _ => .out
      killed := fun _ => false }
  committed := []
  taken := []

end Console
end Xv6
