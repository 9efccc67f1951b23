import Xv6.File
import Xv6.Lib.Ring

/-!
# Pipes

The processes that use one pipe take turns under its lock.  A turn begins where
a process enters `pipewrite` or `piperead` or wakes up in one of them, and ends
where it returns or goes to sleep, which gives the lock up.  A write that finds
the buffer full sleeps with part of its bytes stored, and others go on.

A process can wake up at any time: who calls `wakeup` decides when it does, and
nothing here depends on that.  Whether it has been killed is decided by others
as well, so that a turn is given the answer.
-/

namespace Xv6

open Lib Lib.Run

namespace Pipe

/-!
## Turns
-/

def store (p : Pipe) (c : UInt8) : Pipe :=
  { p with
    data := p.data.patch (p.nwrite.toNat % PIPESIZE) 1 (fun _ => c)
    nwrite := p.nwrite + 1 }

def take (p : Pipe) : Pipe := { p with nread := p.nread + 1 }

/-- How a turn of `pipewrite` ends: all bytes are stored, the writer gives up,
or it sleeps with `i` bytes stored. -/
inductive WriteEnd where
  | done
  | failed
  | asleep (i : Nat)
  deriving DecidableEq

/-- A turn of `pipewrite` with `n` bytes left, from byte `i` on; also the bytes
that it stores. -/
def writeTurn (killed : Bool) (addr : Nat -> UInt8) :
    Nat -> Nat -> Pipe -> Pipe × List UInt8 × WriteEnd
  | 0, _, p => (p, [], .done)
  | n + 1, i, p =>
      if p.nwrite = p.nread + 512 then
        if p.readopen = false ∨ killed = true then
          (p, [], .failed)
        else
          (p, [], .asleep i)
      else
        match writeTurn killed addr n (i + 1) (p.store (addr i)) with
        | (p', bs, e) => (p', addr i :: bs, e)

/-- The copy loop of `piperead`. -/
def readLoop : Nat -> Pipe -> Pipe × List UInt8
  | 0, p => (p, [])
  | n + 1, p =>
      if p.nread = p.nwrite then
        (p, [])
      else
        match readLoop n p.take with
        | (p', bs) => (p', p.data.get (p.nread.toNat % PIPESIZE) :: bs)

/-- A turn of `piperead`: the value it returns and the bytes it copies, nothing
if it sleeps. -/
def readTurn (killed : Bool) (n : Int32) (p : Pipe) :
    Pipe × Option (Int × List UInt8) :=
  if p.nread = p.nwrite ∧ p.writeopen = true then
    if killed = true then (p, some (-1, [])) else (p, none)
  else
    match readLoop n.toInt.toNat p with
    | (p', bs) => (p', some (bs.length, bs))

def closed (writable : Bool) (p : Pipe) : Pipe :=
  if writable then { p with writeopen := false }
  else { p with readopen := false }

/-- `pipeclose`: nothing is left once both ends are closed. -/
def close (writable : Bool) (p : Pipe) : Option Pipe :=
  if (p.closed writable).readopen = false ∧
      (p.closed writable).writeopen = false then
    none
  else
    some (p.closed writable)

theorem close_some {writable : Bool} {p q : Pipe}
    (h : p.close writable = some q) : q = p.closed writable := by
  unfold close at h
  split at h
  · cases h
  · exact (Option.some.inj h).symm

end Pipe

/-!
## The calls of the kernel

A call of the kernel's model that does not have to wait is one turn.
-/

namespace Kernel

def withPipe (k : Kernel) (p : UInt32) (pi : Pipe) : Kernel :=
  { k with pipe := Function.update k.pipe p pi }

theorem withPipe_self (k : Kernel) (p : UInt32) :
    k.withPipe p (k.pipe p) = k := by
  unfold withPipe
  rw [Function.update_eq_self]

@[simp] theorem withPipe_pipe (k : Kernel) (p : UInt32) (pi : Pipe) :
    (k.withPipe p pi).pipe p = pi :=
  Function.update_self ..

@[simp] theorem withPipe_withPipe (k : Kernel) (p : UInt32) (pi pi' : Pipe) :
    (k.withPipe p pi).withPipe p pi' = k.withPipe p pi' := by
  unfold withPipe
  simp only [Function.update_idem]

theorem pipewriteLoop_succ (cur : Pslot) (p : UInt32) (src : Nat -> UInt8)
    (n i : Nat) (k : Kernel) :
    pipewriteLoop cur p src (n + 1) i k =
      if (k.pipe p).nwrite = (k.pipe p).nread + 512 then
        if (k.pipe p).readopen = false ∨ (k.proc cur).killed = true then
          .ok (false, k)
        else
          .error .sleep
      else
        pipewriteLoop cur p src n (i + 1)
          (k.withPipe p ((k.pipe p).store (src i))) := by
  conv_lhs => unfold pipewriteLoop
  simp only [bind_run, gets]
  split
  · simp only [bind_run, gets]
    split
    · rfl
    · rfl
  · rfl

theorem pipewriteLoop_eq (cur : Pslot) (p : UInt32) (src : Nat -> UInt8)
    (n i : Nat) (k : Kernel) :
    pipewriteLoop cur p src n i k =
      match (k.pipe p).writeTurn (k.proc cur).killed src n i with
      | (pi, _, .done) => .ok (true, k.withPipe p pi)
      | (pi, _, .failed) => .ok (false, k.withPipe p pi)
      | (_, _, .asleep _) => .error .sleep := by
  induction n generalizing i k with
  | zero =>
      show Except.ok (true, k) = .ok (true, k.withPipe p (k.pipe p))
      rw [withPipe_self]
  | succ n ih =>
      rw [pipewriteLoop_succ]
      unfold Pipe.writeTurn
      split
      · split
        · show Except.ok (false, k) = .ok (false, k.withPipe p (k.pipe p))
          rw [withPipe_self]
        · rfl
      · rw [ih, withPipe_pipe]
        show (match ((k.pipe p).store (src i)).writeTurn (k.proc cur).killed
          src n (i + 1) with
            | (pi, _, .done) | (pi, _, .failed) => _
            | (_, _, .asleep _) => _) = _
        rcases ((k.pipe p).store (src i)).writeTurn (k.proc cur).killed src n
          (i + 1) with ⟨pi, bs, e⟩
        cases e with
        | done | failed => simp
        | asleep j => rfl

theorem pipereadLoop_eq (p : UInt32) (n : Nat) (k : Kernel) :
    pipereadLoop p n k =
      match (k.pipe p).readLoop n with
      | (pi, bs) => .ok (bs, k.withPipe p pi) := by
  induction n generalizing k with
  | zero =>
      show Except.ok ([], k) = .ok ([], k.withPipe p (k.pipe p))
      rw [withPipe_self]
  | succ n ih =>
      unfold Pipe.readLoop
      have hstep : pipereadLoop p (n + 1) k =
          if (k.pipe p).nread = (k.pipe p).nwrite then
            .ok ([], k)
          else
            ((pipereadLoop p n) >>= fun rest =>
              pure ((k.pipe p).data.get ((k.pipe p).nread.toNat % PIPESIZE) ::
                rest)) (k.withPipe p (k.pipe p).take) := by
        conv_lhs => unfold pipereadLoop
        simp only [bind_run, gets]
        split
        · rfl
        · rfl
      rw [hstep]
      split
      · show Except.ok ([], k) = .ok ([], k.withPipe p (k.pipe p))
        rw [withPipe_self]
      · rw [bind_run, ih, withPipe_pipe]
        rcases (k.pipe p).take.readLoop n with ⟨pi, bs⟩
        show Except.ok (_, (k.withPipe p _).withPipe p pi) = _
        rw [withPipe_withPipe]

theorem pipewrite_eq (cur : Pslot) (p : UInt32) (src : Nat -> UInt8)
    (n : Int32) (k : Kernel) :
    pipewrite cur p src n k =
      match (k.pipe p).writeTurn (k.proc cur).killed src n.toInt.toNat 0 with
      | (pi, _, .done) => .ok (n.toInt, k.withPipe p pi)
      | (pi, _, .failed) => .ok (-1, k.withPipe p pi)
      | (_, _, .asleep _) => .error .sleep := by
  unfold pipewrite
  rw [bind_run, pipewriteLoop_eq]
  rcases (k.pipe p).writeTurn (k.proc cur).killed src n.toInt.toNat 0 with
    ⟨pi, bs, e⟩
  cases e with
  | done | failed | asleep i => rfl

theorem piperead_eq (cur : Pslot) (p : UInt32) (n : Int32) (k : Kernel) :
    piperead cur p n k =
      match (k.pipe p).readTurn (k.proc cur).killed n with
      | (pi, some r) => .ok (r, k.withPipe p pi)
      | (_, none) => .error .sleep := by
  unfold piperead Pipe.readTurn
  simp only [bind_run, gets]
  split
  · simp only [bind_run, gets]
    split
    · show Except.ok ((-1, []), k) = .ok ((-1, []), k.withPipe p (k.pipe p))
      rw [withPipe_self]
    · rfl
  · rw [bind_run, pipereadLoop_eq]
    rcases (k.pipe p).readLoop n.toInt.toNat with ⟨pi, bs⟩
    rfl

theorem pipeclose_eq (p : UInt32) (writable : Bool) (k : Kernel) :
    pipeclose p writable k =
      match (k.pipe p).close writable with
      | some pi => .ok ((), k.withPipe p pi)
      | none =>
          onVm (Vm.kfree p) (k.withPipe p ((k.pipe p).closed writable)) := by
  let k' := k.withPipe p ((k.pipe p).closed writable)
  have hrun : pipeclose p writable k =
      (if (k'.pipe p).readopen = false ∧ (k'.pipe p).writeopen = false then
        onVm (Vm.kfree p)
      else
        pure ()) k' := by
    cases writable with
    | true | false => rfl
  have hpipe : k'.pipe p = (k.pipe p).closed writable := withPipe_pipe k p _
  rw [hpipe] at hrun
  rw [hrun]
  unfold Pipe.close
  split
  · rfl
  · rfl

end Kernel

/-!
## The buffer is a queue
-/

namespace Pipe

def ring (p : Pipe) : Ring 32 PIPESIZE UInt8 where
  data := p.data.get
  nread := p.nread.toBitVec
  nwrite := p.nwrite.toBitVec

def buffered (p : Pipe) : List UInt8 := p.ring.toList

def count (p : Pipe) : Nat := (p.nwrite - p.nread).toNat

theorem count_eq (p : Pipe) : p.ring.count = p.count := rfl

theorem buffered_eq_nil {p : Pipe} : p.buffered = [] ↔ p.nread = p.nwrite := by
  unfold buffered
  rw [Ring.toList_eq_nil]
  exact UInt32.toBitVec_inj

theorem full_iff {p : Pipe} :
    p.nwrite = p.nread + 512 ↔ p.count = PIPESIZE := by
  rw [← count_eq, ← Ring.full_iff (by decide)]
  exact UInt32.toBitVec_inj.symm

theorem ring_store (p : Pipe) (c : UInt8) :
    (p.store c).ring = p.ring.push c := by
  have hslot : p.nwrite.toNat % PIPESIZE < PIPESIZE := Nat.mod_lt _ (by decide)
  unfold ring store Ring.push
  rw [Bytes.get_patch_one p.data hslot]
  rfl

theorem buffered_store {p : Pipe} (h : p.count < PIPESIZE) (c : UInt8) :
    (p.store c).buffered = p.buffered ++ [c] := by
  unfold buffered
  rw [ring_store]
  exact Ring.toList_push (by decide) (by decide) h c

theorem count_store {p : Pipe} (h : p.count < PIPESIZE) (c : UInt8) :
    (p.store c).count = p.count + 1 := by
  rw [← count_eq, ring_store]
  exact Ring.count_push (by decide) h c

theorem buffered_take {p : Pipe} (h : p.nread ≠ p.nwrite) :
    p.buffered =
      p.data.get (p.nread.toNat % PIPESIZE) :: p.take.buffered :=
  Ring.toList_pop (r := p.ring) (by decide)
    (fun heq => h (UInt32.toBitVec_inj.mp heq))

theorem count_take {p : Pipe} (h : p.nread ≠ p.nwrite) :
    p.count = p.take.count + 1 :=
  Ring.count_pop (r := p.ring) (fun heq => h (UInt32.toBitVec_inj.mp heq))

theorem writeTurn_spec (killed : Bool) (addr : Nat -> UInt8) (n i : Nat)
    {p p' : Pipe} {bs : List UInt8} {e : WriteEnd} (h : p.count ≤ PIPESIZE)
    (hrun : p.writeTurn killed addr n i = (p', bs, e)) :
    p'.count ≤ PIPESIZE ∧ p'.buffered = p.buffered ++ bs := by
  induction n generalizing i p bs with
  | zero =>
      cases hrun
      exact ⟨h, (List.append_nil _).symm⟩
  | succ n ih =>
      unfold writeTurn at hrun
      split at hrun
      · split at hrun
        · cases hrun
          exact ⟨h, (List.append_nil _).symm⟩
        · cases hrun
          exact ⟨h, (List.append_nil _).symm⟩
      · rename_i hroom
        have hlt : p.count < PIPESIZE :=
          lt_of_le_of_ne h (fun hfull => hroom (full_iff.mpr hfull))
        cases hrest : (p.store (addr i)).writeTurn killed addr n (i + 1) with
        | mk p₁ rest =>
            rw [hrest] at hrun
            cases hrun
            have hstored : (p.store (addr i)).count ≤ PIPESIZE := by
              rw [count_store hlt]
              exact hlt
            rcases ih (i + 1) hstored hrest with ⟨hcount, hbuffered⟩
            refine ⟨hcount, ?_⟩
            rw [hbuffered, buffered_store hlt, List.append_assoc,
              List.singleton_append]

theorem readLoop_spec (n : Nat) {p p' : Pipe} {bs : List UInt8}
    (h : p.count ≤ PIPESIZE) (hrun : p.readLoop n = (p', bs)) :
    p'.count ≤ PIPESIZE ∧ p.buffered = bs ++ p'.buffered := by
  induction n generalizing p bs with
  | zero =>
      cases hrun
      exact ⟨h, rfl⟩
  | succ n ih =>
      unfold readLoop at hrun
      split at hrun
      · cases hrun
        exact ⟨h, rfl⟩
      · rename_i hsome
        cases hrest : p.take.readLoop n with
        | mk p₁ rest =>
            rw [hrest] at hrun
            cases hrun
            have htaken : p.take.count ≤ PIPESIZE := by
              have hcount := count_take hsome
              lia
            rcases ih htaken hrest with ⟨hcount, hbuffered⟩
            refine ⟨hcount, ?_⟩
            rw [buffered_take hsome, hbuffered, List.cons_append]

theorem readTurn_spec {killed : Bool} {n : Int32} {p p' : Pipe}
    {res : Option (Int × List UInt8)} (h : p.count ≤ PIPESIZE)
    (hrun : p.readTurn killed n = (p', res)) :
    p'.count ≤ PIPESIZE ∧
      p.buffered = (res.elim [] Prod.snd) ++ p'.buffered := by
  unfold readTurn at hrun
  split at hrun
  · split at hrun
    · cases hrun
      exact ⟨h, rfl⟩
    · cases hrun
      exact ⟨h, rfl⟩
  · cases hloop : p.readLoop n.toInt.toNat with
    | mk p₁ bs =>
        rw [hloop] at hrun
        cases hrun
        exact readLoop_spec _ h hloop

theorem readTurn_zero {killed : Bool} {n : Int32} {p p' : Pipe}
    {bs : List UInt8} (hn : 0 < n)
    (hrun : p.readTurn killed n = (p', some (0, bs))) :
    p.writeopen = false ∧ p.nread = p.nwrite := by
  unfold readTurn at hrun
  split at hrun
  · split at hrun
    · cases hrun
    · cases hrun
  · rename_i hready
    have hempty : p.nread = p.nwrite := by
      apply of_not_not
      intro hsome
      have hpos : 0 < n.toInt := Int32.lt_iff_toInt_lt.mp hn
      have hsucc : n.toInt.toNat = (n.toInt.toNat - 1) + 1 := by lia
      rw [hsucc] at hrun
      unfold readLoop at hrun
      rw [if_neg hsome] at hrun
      cases hloop : p.take.readLoop (n.toInt.toNat - 1) with
      | mk p₁ rest =>
          rw [hloop] at hrun
          cases hrun
    refine ⟨?_, hempty⟩
    apply Bool.eq_false_iff.mpr
    exact fun hopen => hready ⟨hempty, hopen⟩

/-!
## Many readers and writers
-/

/-- Where a process is: outside, or asleep in a call. -/
inductive Call where
  | out
  | writing (addr : Nat -> UInt8) (n : Int32) (i : Nat)
  | reading (n : Int32)

/-- A pipe and the processes `T` that use it.  `stored` and `copied` are the
bytes that were put in and taken out, in this order; there is no pipe any more
once both ends are closed. -/
structure Use (T : Type) where
  pipe : Option Pipe
  call : T -> Call
  stored : List UInt8
  copied : List UInt8

/-- The next turn: a process enters a call, wakes up in one, or the last
reference to an end is closed. -/
inductive Turn (T : Type) where
  | write (t : T) (killed : Bool) (addr : Nat -> UInt8) (n : Int32)
  | read (t : T) (killed : Bool) (n : Int32)
  | wake (t : T) (killed : Bool)
  | close (writable : Bool)

namespace Use

variable {T : Type}

/-- The buffer holds what was stored and has not been copied. -/
def Queued (u : Use T) : Prop :=
  forall p, u.pipe = some p ->
    p.count ≤ PIPESIZE ∧ u.stored = u.copied ++ p.buffered

/-- The pipe is as `pipealloc` makes it, and nobody has used it. -/
def opened (data : Bytes PIPESIZE) : Use T where
  pipe := some
    { data := data
      nread := 0
      nwrite := 0
      readopen := true
      writeopen := true }
  call := fun _ => .out
  stored := []
  copied := []

theorem queued_opened (data : Bytes PIPESIZE) :
    Queued (opened data : Use T) := by
  intro p hp
  cases hp
  constructor
  · show (0 - 0 : UInt32).toNat ≤ PIPESIZE
    decide
  · show [] = [] ++ buffered _
    rw [buffered_eq_nil.mpr rfl]
    rfl

theorem queued_close {u : Use T} (h : Queued u) {p : Pipe}
    (hp : u.pipe = some p) (writable : Bool) :
    Queued { u with pipe := p.close writable } := by
  intro q hq
  have hring : q.ring = p.ring := by
    rw [close_some hq]
    cases writable with
    | true | false => rfl
  rcases h p hp with ⟨hcount, hqueue⟩
  rw [← count_eq, ← hring] at hcount
  refine ⟨hcount, ?_⟩
  unfold buffered at hqueue ⊢
  rw [hring]
  exact hqueue

variable [DecidableEq T]

def leave (u : Use T) (t : T) (c : Call) : Use T :=
  { u with call := Function.update u.call t c }

/-- After a turn of a writer; what it returns, nothing if it sleeps. -/
def wrote (u : Use T) (t : T) (addr : Nat -> UInt8) (n : Int32) :
    Pipe × List UInt8 × WriteEnd -> Option Int × Use T
  | (p, bs, e) =>
      let u := { u with pipe := some p, stored := u.stored ++ bs }
      match e with
      | .done => (some n.toInt, u.leave t .out)
      | .failed => (some (-1), u.leave t .out)
      | .asleep i => (none, u.leave t (.writing addr n i))

def readBy (u : Use T) (t : T) (n : Int32) :
    Pipe × Option (Int × List UInt8) -> Option Int × Use T
  | (p, some (r, bs)) =>
      (some r,
        { u with pipe := some p, copied := u.copied ++ bs }.leave t .out)
  | (p, none) => (none, { u with pipe := some p }.leave t (.reading n))

/-- A turn, if it is possible: the value that a call returns with it, and what
is left. -/
def turn (u : Use T) : Turn T -> Option (Option Int × Use T)
  | .write t killed addr n =>
      match u.pipe, u.call t with
      | some p, .out =>
          some (u.wrote t addr n (p.writeTurn killed addr n.toInt.toNat 0))
      | _, _ => none
  | .read t killed n =>
      match u.pipe, u.call t with
      | some p, .out => some (u.readBy t n (p.readTurn killed n))
      | _, _ => none
  | .wake t killed =>
      match u.pipe, u.call t with
      | some p, .writing addr n i =>
          some (u.wrote t addr n
            (p.writeTurn killed addr (n.toInt.toNat - i) i))
      | some p, .reading n => some (u.readBy t n (p.readTurn killed n))
      | _, _ => none
  | .close writable =>
      match u.pipe with
      | some p => some (none, { u with pipe := p.close writable })
      | none => none

def Step (u : Use T) (a : Turn T) (u' : Use T) : Prop :=
  exists r, u.turn a = some (r, u')

/-- The turn is one of `piperead` with this argument. -/
def Reads (u : Use T) (n : Int32) : Turn T -> Prop
  | .read _ _ m => m = n
  | .wake t _ => u.call t = .reading n
  | _ => False

inductive Does (u : Use T) (a : Turn T) (r : Option Int) (u' : Use T) :
    Prop where
  | wrote (p : Pipe) (t : T) (killed : Bool) (addr : Nat -> UInt8)
      (n : Int32) (m i : Nat) (hp : u.pipe = some p)
      (hnot : forall n, ¬ u.Reads n a)
      (h : u.wrote t addr n (p.writeTurn killed addr m i) = (r, u'))
  | readBy (p : Pipe) (t : T) (killed : Bool) (n : Int32)
      (hp : u.pipe = some p) (hreads : forall m, u.Reads m a -> m = n)
      (h : u.readBy t n (p.readTurn killed n) = (r, u'))
  | close (p : Pipe) (writable : Bool) (hp : u.pipe = some p)
      (hnot : forall n, ¬ u.Reads n a)
      (h : u' = { u with pipe := p.close writable })

theorem turn_does {u u' : Use T} {a : Turn T} {r : Option Int}
    (h : u.turn a = some (r, u')) : Does u a r u' := by
  cases hp : u.pipe with
  | none =>
      cases a with
      | write t killed addr n | read t killed n | wake t killed
      | close writable => simp [turn, hp] at h
  | some p =>
      cases a with
      | write t killed addr n =>
          cases hcall : u.call t with
          | out =>
              simp only [turn, hp, hcall, Option.some.injEq] at h
              exact .wrote p t killed addr n _ 0 hp (fun _ hreads => hreads) h
          | writing addr' n' i | reading n' => simp [turn, hp, hcall] at h
      | read t killed n =>
          cases hcall : u.call t with
          | out =>
              simp only [turn, hp, hcall, Option.some.injEq] at h
              exact .readBy p t killed n hp (fun _ hreads => hreads.symm) h
          | writing addr' n' i | reading n' => simp [turn, hp, hcall] at h
      | wake t killed =>
          cases hcall : u.call t with
          | out => simp [turn, hp, hcall] at h
          | writing addr n i =>
              simp only [turn, hp, hcall, Option.some.injEq] at h
              refine .wrote p t killed addr n _ i hp (fun m hreads => ?_) h
              cases hcall.symm.trans hreads
          | reading n =>
              simp only [turn, hp, hcall, Option.some.injEq] at h
              refine .readBy p t killed n hp (fun m hreads => ?_) h
              cases hcall.symm.trans hreads
              rfl
      | close writable =>
          simp only [turn, hp, Option.some.injEq] at h
          cases h
          exact .close p writable hp (fun _ hreads => hreads) rfl

theorem queued_wrote {u : Use T} (h : Queued u) {p : Pipe}
    (hp : u.pipe = some p) (t : T) (killed : Bool) (addr : Nat -> UInt8)
    (n : Int32) (m i : Nat) :
    Queued (u.wrote t addr n (p.writeTurn killed addr m i)).2 := by
  rcases h p hp with ⟨hcount, hqueue⟩
  cases hrun : p.writeTurn killed addr m i with
  | mk p' rest =>
      rcases rest with ⟨bs, e⟩
      rcases writeTurn_spec killed addr m i hcount hrun with
        ⟨hcount', hbuffered⟩
      have hqueue' : u.stored ++ bs = u.copied ++ p'.buffered := by
        rw [hqueue, hbuffered, List.append_assoc]
      cases e with
      | done | failed | asleep j =>
          intro q hq
          cases hq
          exact ⟨hcount', hqueue'⟩

theorem queued_readBy {u : Use T} (h : Queued u) {p : Pipe}
    (hp : u.pipe = some p) (t : T) (killed : Bool) (n : Int32) :
    Queued (u.readBy t n (p.readTurn killed n)).2 := by
  rcases h p hp with ⟨hcount, hqueue⟩
  cases hrun : p.readTurn killed n with
  | mk p' res =>
      rcases readTurn_spec hcount hrun with ⟨hcount', hbuffered⟩
      cases res with
      | none =>
          intro q hq
          cases hq
          exact ⟨hcount', hqueue.trans (congrArg _ hbuffered)⟩
      | some res =>
          intro q hq
          cases hq
          refine ⟨hcount', ?_⟩
          show u.stored = u.copied ++ res.2 ++ p'.buffered
          rw [List.append_assoc]
          exact hqueue.trans (congrArg _ hbuffered)

theorem queued_step {u u' : Use T} {a : Turn T} (h : Queued u)
    (hstep : Step u a u') : Queued u' := by
  rcases hstep with ⟨r, hrun⟩
  cases turn_does hrun with
  | wrote p t killed addr n m i hp hnot hwrote =>
      have hqueued := queued_wrote h hp t killed addr n m i
      rw [hwrote] at hqueued
      exact hqueued
  | readBy p t killed n hp hreads hread =>
      have hqueued := queued_readBy h hp t killed n
      rw [hread] at hqueued
      exact hqueued
  | close p writable hp hnot hclose =>
      rw [hclose]
      exact queued_close h hp writable

/-- Whatever the order of their turns, what the writers store is what the
readers copy and then what is in the buffer, which is never more than full; a
reader that asked for something gets nothing only once the write end is closed
and all that was stored has been copied. -/
theorem pipe_fifo {data : Bytes PIPESIZE} {u : Use T}
    (hruns : Runs Step (fun _ _ => True) (opened data) u) :
    (forall p, u.pipe = some p ->
      u.stored = u.copied ++ p.buffered ∧
        (p.nwrite - p.nread).toNat ≤ PIPESIZE) ∧
      forall a n u', Reads u n a -> 0 < n -> u.turn a = some (some 0, u') ->
        (exists p, u.pipe = some p ∧ p.writeopen = false) ∧
          u.copied = u.stored := by
  have hqueued : Queued u :=
    hruns.invariant (queued_opened data)
      (fun _ _ _ h _ hstep => queued_step h hstep)
  constructor
  · intro p hp
    rcases hqueued p hp with ⟨hcount, hqueue⟩
    exact ⟨hqueue, hcount⟩
  · intro a n u' hreads hn hrun
    cases turn_does hrun with
    | wrote p t killed addr n m i hp hnot | close p writable hp hnot =>
        exact absurd hreads (hnot _)
    | readBy p t killed m hp hsame hread =>
        cases hsame n hreads
        cases hturn : p.readTurn killed n with
        | mk p' res =>
            rw [hturn] at hread
            cases res with
            | none => cases hread
            | some res =>
                rcases res with ⟨r, bs⟩
                cases hread
                rcases readTurn_zero hn hturn with ⟨hclosed, hempty⟩
                refine ⟨⟨p, hp, hclosed⟩, ?_⟩
                rw [(hqueued p hp).2, buffered_eq_nil.mpr hempty,
                  List.append_nil]

def next (a : Turn T) (u : Use T) : Use T :=
  match u.turn a with
  | some (_, u') => u'
  | none => u

theorem step_next {a : Turn T} {u : Use T} (h : (u.turn a).isSome = true) :
    Step u a (next a u) := by
  rcases Option.isSome_iff_exists.mp h with ⟨⟨r, u'⟩, hrun⟩
  refine ⟨r, ?_⟩
  unfold next
  rw [hrun]

def exchanged : Use Bool :=
  next (.read true false 2)
    (next (.write false false (fun i => UInt8.ofNat (7 + i)) 3)
      (opened (fun _ => 0)))

theorem pipe_fifo_exchanged :
    Runs Step (fun _ _ => True) (opened (fun _ => 0)) exchanged ∧
      exchanged.stored = [7, 8, 9] ∧ exchanged.copied = [7, 8] ∧
        exists p, exchanged.pipe = some p ∧
          exchanged.stored = exchanged.copied ++ p.buffered := by
  have hruns : Runs Step (fun _ _ => True) (opened (fun _ => 0)) exchanged :=
    (Runs.refl.tail _ trivial (step_next (by decide +kernel))).tail _ trivial
      (step_next (by decide +kernel))
  have hsome : exchanged.pipe.isSome = true := by decide +kernel
  rcases Option.isSome_iff_exists.mp hsome with ⟨p, hp⟩
  exact ⟨hruns, by decide +kernel, by decide +kernel, p, hp,
    ((pipe_fifo hruns).1 p hp).1⟩

end Use

end Pipe
end Xv6
