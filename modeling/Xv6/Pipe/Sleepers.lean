import Xv6.Pipe
import Xv6.Lib.Schedule

/-!
# Who sleeps on a pipe

Any number of processes call `pipewrite`, `piperead` and `pipeclose` on one
pipe, and any of them may be killed.  A step is what the code does between two
accesses to a lock or to a field of the pipe.  `sleep` takes `ptable.lock`
before it gives the lock of the pipe back, and `wakeup` and `kill` take
`ptable.lock` as well.

`pipeclose` ends here where it gives the lock back.  Once both ends are closed
the page is freed, and no process has a file of the pipe then.
-/

namespace Xv6
namespace PipeUsers

open Lib

/-!
## The code
-/

inductive Chan where
  | nread
  | nwrite
  deriving DecidableEq, Repr

/-- A call that sleeps: the bytes of `addr` that `pipewrite` has not stored yet,
or the number of bytes that `piperead` wants. -/
inductive Wait where
  | write (bs : List UInt8)
  | read (n : Int32)
  deriving DecidableEq, Repr

def Wait.chan : Wait -> Chan
  | write _ => .nwrite
  | read _ => .nread

inductive Pc where
  | out
  | writeEnter (bs : List UInt8)
  /-- At the loops of `pipewrite`; whether it has stored no byte since it took
  the lock. -/
  | writeLoop (fresh : Bool) (bs : List UInt8)
  | writeWake (bs : List UInt8)
  | writeDone
  | readEnter (n : Int32)
  | readWait (n : Int32)
  | readLoop (n : Nat)
  | readDone
  | closeEnter (writable : Bool)
  | closeMark (writable : Bool)
  /-- The end is marked as closed; at `wakeup`. -/
  | closeWake (writable : Bool)
  | leave
  | sleepEnter (w : Wait)
  | sleepRelease (w : Wait)
  | sleepDoze (w : Wait)
  /-- The state is `SLEEPING`, and `ptable.lock` has been given back. -/
  | asleep (w : Wait)
  /-- The state is no longer `SLEEPING`; `sleep` takes the lock of the pipe. -/
  | woken (w : Wait)
  deriving DecidableEq, Repr

namespace Pc

def wake (chan : Chan) : Pc -> Pc
  | asleep w => if w.chan = chan then woken w else asleep w
  | pc => pc

def kill : Pc -> Pc
  | asleep w => woken w
  | pc => pc

def resume : Wait -> Pc
  | .write bs => writeLoop true bs
  | .read n => readWait n

end Pc

structure State (ι : Type) where
  pipe : Pipe
  lock : Option ι
  ptable : Option ι
  pc : ι -> Pc
  killed : ι -> Bool

variable {ι : Type} [DecidableEq ι]

namespace State

def goto (s : State ι) (p : ι) (pc : Pc) : State ι :=
  { s with pc := Function.update s.pc p pc }

theorem goto_self (s : State ι) (p : ι) (pc : Pc) : (s.goto p pc).pc p = pc :=
  Function.update_self ..

theorem goto_of_ne (s : State ι) {p q : ι} (hq : q ≠ p) (pc : Pc) :
    (s.goto p pc).pc q = s.pc q :=
  Function.update_of_ne hq ..

def acquire (s : State ι) (p : ι) (pc : Pc) : State ι :=
  if s.lock = none then { s.goto p pc with lock := some p } else s

def wakeup (s : State ι) (p : ι) (chan : Chan) (pc : Pc) : State ι :=
  if s.ptable = none then
    { s with pc := Function.update (fun q => (s.pc q).wake chan) p pc }
  else
    s

def step (p : ι) (s : State ι) : State ι :=
  match s.pc p with
  | .out => s
  | .writeEnter bs => s.acquire p (.writeLoop true bs)
  | .writeLoop _ [] => s.goto p .writeDone
  | .writeLoop _ (b :: bs) =>
      if s.pipe.nwrite = s.pipe.nread + 512 then
        if s.pipe.readopen = false ∨ s.killed p = true then
          s.goto p .leave
        else
          s.goto p (.writeWake (b :: bs))
      else
        { s.goto p (.writeLoop false bs) with pipe := s.pipe.store b }
  | .writeWake bs => s.wakeup p .nread (.sleepEnter (.write bs))
  | .writeDone => s.wakeup p .nread .leave
  | .readEnter n => s.acquire p (.readWait n)
  | .readWait n =>
      if s.pipe.nread = s.pipe.nwrite ∧ s.pipe.writeopen = true then
        if s.killed p = true then
          s.goto p .leave
        else
          s.goto p (.sleepEnter (.read n))
      else
        s.goto p (.readLoop n.toInt.toNat)
  | .readLoop 0 => s.goto p .readDone
  | .readLoop (n + 1) =>
      if s.pipe.nread = s.pipe.nwrite then
        s.goto p .readDone
      else
        { s.goto p (.readLoop n) with pipe := s.pipe.take }
  | .readDone => s.wakeup p .nwrite .leave
  | .closeEnter writable => s.acquire p (.closeMark writable)
  | .closeMark writable =>
      { s.goto p (.closeWake writable) with pipe := s.pipe.closed writable }
  | .closeWake true => s.wakeup p .nread .leave
  | .closeWake false => s.wakeup p .nwrite .leave
  | .leave => { s.goto p .out with lock := none }
  | .sleepEnter w =>
      if s.ptable = none then
        { s.goto p (.sleepRelease w) with ptable := some p }
      else
        s
  | .sleepRelease w => { s.goto p (.sleepDoze w) with lock := none }
  | .sleepDoze w => { s.goto p (.asleep w) with ptable := none }
  | .asleep _ => s
  | .woken w => s.acquire p (.resume w)

end State

inductive Call where
  | write (bs : List UInt8)
  | read (n : Int32)
  | close (writable : Bool)

def Call.enter : Call -> Pc
  | write bs => .writeEnter bs
  | read n => .readEnter n
  | close writable => .closeEnter writable

inductive Act (ι : Type) where
  | step (p : ι)
  | call (p : ι) (c : Call)
  | kill (p : ι)

def next : Act ι -> State ι -> State ι
  | .step p, s => s.step p
  | .call p c, s => if s.pc p = .out then s.goto p c.enter else s
  | .kill p, s =>
      if s.ptable = none then
        { s.goto p (s.pc p).kill with
          killed := Function.update s.killed p true }
      else
        s

/-!
## What sleepers wait for
-/

/-- What a call finds when it goes to sleep on the channel. -/
def Blocked (p : Pipe) : Chan -> Prop
  | .nread => p.nread = p.nwrite ∧ p.writeopen = true
  | .nwrite => p.nwrite = p.nread + 512 ∧ p.readopen = true

/-- While the lock of the pipe is free, whoever sleeps has to. -/
def Settled (s : State ι) : Prop :=
  s.lock = none -> forall q w, s.pc q = .asleep w -> Blocked s.pipe w.chan

namespace Pc

def holds : Pc -> Bool
  | writeLoop _ _ => true
  | writeWake _ => true
  | writeDone => true
  | readWait _ => true
  | readLoop _ => true
  | readDone => true
  | closeMark _ => true
  | closeWake _ => true
  | leave => true
  | sleepEnter _ => true
  | sleepRelease _ => true
  | _ => false

def manages : Pc -> Bool
  | sleepRelease _ => true
  | sleepDoze _ => true
  | _ => false

def waits : Pc -> Option Chan
  | writeWake _ => some .nwrite
  | sleepEnter w => some w.chan
  | sleepRelease w => some w.chan
  | sleepDoze w => some w.chan
  | asleep w => some w.chan
  | _ => none

def owes : Pc -> Option Chan
  | writeLoop false _ => some .nread
  | writeWake _ => some .nread
  | writeDone => some .nread
  | readLoop _ => some .nwrite
  | readDone => some .nwrite
  | closeWake true => some .nread
  | closeWake false => some .nwrite
  | _ => none

theorem holds_of_owes {pc : Pc} {chan : Chan} (h : pc.owes = some chan) :
    pc.holds = true := by
  cases pc with
  | writeLoop fresh bs | writeWake bs | writeDone | readLoop n | readDone
  | closeWake writable => rfl
  | _ => cases h

theorem locks_of_waits {pc : Pc} {chan : Chan} (h : pc.waits = some chan) :
    pc.holds = true ∨ pc.manages = true ∨
      exists w, pc = asleep w ∧ w.chan = chan := by
  cases pc with
  | writeWake bs | sleepEnter w | sleepRelease w => exact Or.inl rfl
  | sleepDoze w => exact Or.inr (Or.inl rfl)
  | asleep w => exact Or.inr (Or.inr ⟨w, rfl, Option.some.inj h⟩)
  | _ => cases h

theorem wake_eq (chan : Chan) (pc : Pc) :
    pc.wake chan = pc ∨ exists w, pc = asleep w ∧ pc.wake chan = woken w := by
  cases pc with
  | asleep w =>
      rcases eq_or_ne w.chan chan with heq | hne
      · exact Or.inr ⟨w, rfl, if_pos heq⟩
      · exact Or.inl (if_neg hne)
  | _ => exact Or.inl rfl

theorem kill_eq (pc : Pc) :
    pc.kill = pc ∨ exists w, pc = asleep w ∧ pc.kill = woken w := by
  cases pc with
  | asleep w => exact Or.inr ⟨w, rfl, rfl⟩
  | _ => exact Or.inl rfl

end Pc

/-- Each lock is held by the code that has taken it, and who waits finds the pipe
as it has to be, or is woken up before the lock of the pipe is free. -/
structure Inv (s : State ι) : Prop where
  held : forall p, (s.pc p).holds = true -> s.lock = some p
  managed : forall p, (s.pc p).manages = true -> s.ptable = some p
  blocked : forall q chan, (s.pc q).waits = some chan ->
    Blocked s.pipe chan ∨ exists p, (s.pc p).owes = some chan

omit [DecidableEq ι] in
theorem Inv.settled {s : State ι} (h : Inv s) : Settled s := by
  intro hlock q w hq
  have hwaits : (s.pc q).waits = some w.chan := by
    rw [hq]
    rfl
  rcases h.blocked q w.chan hwaits with hblocked | ⟨p, howes⟩
  · exact hblocked
  · have hheld := h.held p (Pc.holds_of_owes howes)
    rw [hlock] at hheld
    cases hheld

section Steps

variable {s s' : State ι} {p : ι} {pc pc' : Pc}

omit [DecidableEq ι] in
theorem Inv.move (h : Inv s) (hself : s'.pc p = pc')
    (hother : forall q, q ≠ p -> s'.pc q = s.pc q ∨
      exists w, s.pc q = .asleep w ∧ s'.pc q = .woken w)
    (hholds : pc'.holds = true -> s'.lock = some p)
    (hlock : forall q, q ≠ p -> s.lock = some q -> s'.lock = some q)
    (hmanages : pc'.manages = true -> s'.ptable = some p)
    (hptable : forall q, q ≠ p -> s.ptable = some q -> s'.ptable = some q)
    (hkept : forall q chan, (s'.pc q).waits = some chan ->
      Blocked s.pipe chan ∨ (s.pc p).owes = some chan ->
        Blocked s'.pipe chan ∨ pc'.owes = some chan)
    (hwaits : forall chan, pc'.waits = some chan ->
      Blocked s'.pipe chan ∨ (s.pc p).waits = some chan) : Inv s' := by
  -- whoever waited before is still blocked, or is owed a wakeup
  have hbefore : forall q chan, (s'.pc q).waits = some chan ->
      (s.pc q).waits = some chan ->
        Blocked s'.pipe chan ∨ exists r, (s'.pc r).owes = some chan := by
    intro q chan hq' hq
    have hmine : Blocked s.pipe chan ∨ (s.pc p).owes = some chan ->
        Blocked s'.pipe chan ∨ exists r, (s'.pc r).owes = some chan := by
      intro hor
      rcases hkept q chan hq' hor with hblocked | howes
      · exact Or.inl hblocked
      · exact Or.inr ⟨p, by rw [hself]; exact howes⟩
    rcases h.blocked q chan hq with hblocked | ⟨r, howes⟩
    · exact hmine (Or.inl hblocked)
    · rcases eq_or_ne r p with rfl | hr
      · exact hmine (Or.inr howes)
      · rcases hother r hr with hsame | ⟨w, hasleep, _⟩
        · exact Or.inr ⟨r, by rw [hsame]; exact howes⟩
        · rw [hasleep] at howes
          cases howes
  constructor
  · intro q hq
    rcases eq_or_ne q p with rfl | hne
    · exact hholds (by rw [← hself]; exact hq)
    · rcases hother q hne with hsame | ⟨w, _, hwoken⟩
      · rw [hsame] at hq
        exact hlock q hne (h.held q hq)
      · rw [hwoken] at hq
        cases hq
  · intro q hq
    rcases eq_or_ne q p with rfl | hne
    · exact hmanages (by rw [← hself]; exact hq)
    · rcases hother q hne with hsame | ⟨w, _, hwoken⟩
      · rw [hsame] at hq
        exact hptable q hne (h.managed q hq)
      · rw [hwoken] at hq
        cases hq
  · intro q chan hq
    rcases eq_or_ne q p with rfl | hne
    · rcases hwaits chan (by rw [← hself]; exact hq) with hblocked | hbef
      · exact Or.inl hblocked
      · exact hbefore q chan hq hbef
    · rcases hother q hne with hsame | ⟨w, _, hwoken⟩
      · exact hbefore q chan hq (by rw [← hsame]; exact hq)
      · rw [hwoken] at hq
        cases hq

theorem Inv.goto (h : Inv s) (hpc : s.pc p = pc) {pipe : Pipe}
    (hholds : pc'.holds = true -> pc.holds = true)
    (hmanages : pc'.manages = true -> pc.manages = true)
    (hkept : forall chan, Blocked s.pipe chan ∨ pc.owes = some chan ->
      Blocked pipe chan ∨ pc'.owes = some chan)
    (hwaits : forall chan, pc'.waits = some chan ->
      Blocked pipe chan ∨ pc.waits = some chan) :
    Inv { s.goto p pc' with pipe := pipe } := by
  subst hpc
  refine h.move (s.goto_self p pc') ?_ ?_ ?_ ?_ ?_ ?_ hwaits
  · exact fun q hq => Or.inl (s.goto_of_ne hq pc')
  · exact fun hp => h.held p (hholds hp)
  · exact fun q _ hq => hq
  · exact fun hp => h.managed p (hmanages hp)
  · exact fun q _ hq => hq
  · exact fun _ chan _ hor => hkept chan hor

theorem Inv.lock (h : Inv s) (hpc : s.pc p = pc) {lock ptable : Option ι}
    (hholds : pc'.holds = true -> lock = some p)
    (hlock : lock = s.lock ∨ lock = some p ∧ s.lock = none ∨
      pc.holds = true ∧ lock = none)
    (hmanages : pc'.manages = true -> ptable = some p)
    (hptable : ptable = s.ptable ∨ ptable = some p ∧ s.ptable = none ∨
      pc.manages = true ∧ ptable = none)
    (howes : pc.owes = none)
    (hwaits : forall chan, pc'.waits = some chan -> pc.waits = some chan) :
    Inv { s.goto p pc' with lock := lock, ptable := ptable } := by
  subst hpc
  refine h.move (s.goto_self p pc') ?_ hholds ?_ hmanages ?_ ?_ ?_
  · exact fun q hq => Or.inl (s.goto_of_ne hq pc')
  · intro q hq hqlock
    rcases hlock with hsame | ⟨_, hfree⟩ | ⟨hp, _⟩
    · exact hsame.trans hqlock
    · rw [hfree] at hqlock
      cases hqlock
    · rw [h.held p hp] at hqlock
      exact absurd (Option.some.inj hqlock).symm hq
  · intro q hq hqtable
    rcases hptable with hsame | ⟨_, hfree⟩ | ⟨hp, _⟩
    · exact hsame.trans hqtable
    · rw [hfree] at hqtable
      cases hqtable
    · rw [h.managed p hp] at hqtable
      exact absurd (Option.some.inj hqtable).symm hq
  · intro q chan _ hor
    rw [howes] at hor
    rcases hor with hblocked | hnone
    · exact Or.inl hblocked
    · cases hnone
  · exact fun chan hchan => Or.inr (hwaits chan hchan)

theorem Inv.acquire (h : Inv s) (hpc : s.pc p = pc) (howes : pc.owes = none)
    (hmanages : pc'.manages = false) (hwaits : pc'.waits = none) :
    Inv (s.acquire p pc') := by
  unfold State.acquire
  split
  case isFalse => exact h
  case isTrue hfree =>
    refine h.lock hpc (fun _ => rfl) (Or.inr (Or.inl ⟨rfl, hfree⟩)) ?_
      (Or.inl rfl) howes ?_
    · intro hp
      rw [hmanages] at hp
      cases hp
    · intro chan hp
      rw [hwaits] at hp
      cases hp

theorem Inv.wakeup (h : Inv s) (hpc : s.pc p = pc) {chan : Chan}
    (howes : pc.owes = some chan) (hmanages : pc'.manages = false)
    (hwaits : forall c, pc'.waits = some c ->
      c ≠ chan ∧ pc.waits = some c) :
    Inv (s.wakeup p chan pc') := by
  subst hpc
  have hlock := h.held p (Pc.holds_of_owes howes)
  unfold State.wakeup
  split
  case isFalse => exact h
  case isTrue hfree =>
    have hself : Function.update (fun q => (s.pc q).wake chan) p pc' p = pc' :=
      Function.update_self ..
    have hother : forall q, q ≠ p ->
        Function.update (fun q => (s.pc q).wake chan) p pc' q =
          (s.pc q).wake chan :=
      fun q hq => Function.update_of_ne hq ..
    refine h.move hself ?_ (fun _ => hlock) (fun q _ hq => hq) ?_
      (fun q _ hq => hq) ?_ (fun c hc => Or.inr (hwaits c hc).2)
    · intro q hq
      rw [show State.pc _ q = _ from hother q hq]
      exact (s.pc q).wake_eq chan
    · intro hp
      rw [hmanages] at hp
      cases hp
    · intro q c hq hor
      have hne : c ≠ chan := by
        rcases eq_or_ne q p with rfl | hqp
        · rw [show State.pc _ q = _ from hself] at hq
          exact (hwaits c hq).1
        · rw [show State.pc _ q = _ from hother q hqp] at hq
          rintro rfl
          rcases (s.pc q).wake_eq c with hsame | ⟨w, _, hwoken⟩
          · rw [hsame] at hq
            rcases Pc.locks_of_waits hq with hholds | hman | ⟨w, hw, hchan⟩
            · have hheld := h.held q hholds
              rw [hlock] at hheld
              exact hqp (Option.some.inj hheld).symm
            · have htable := h.managed q hman
              rw [hfree] at htable
              cases htable
            · rw [hw, Pc.wake, if_pos hchan] at hsame
              cases hsame
          · rw [hwoken] at hq
            cases hq
      rcases hor with hblocked | hmine
      · exact Or.inl hblocked
      · rw [howes] at hmine
        exact absurd (Option.some.inj hmine).symm hne

/-- A `pipewrite` that has stored a byte since it took the lock and finds the
buffer full has a reader and has not been killed. -/
def SleepsWhenFull (s : State ι) : Act ι -> Prop
  | .step p => forall b bs, s.pc p = .writeLoop false (b :: bs) ->
      s.pipe.nwrite = s.pipe.nread + 512 ->
        s.pipe.readopen = true ∧ s.killed p = false
  | _ => True

theorem write_inv (h : Inv s) {fresh : Bool} {b : UInt8} {bs : List UInt8}
    (hpc : s.pc p = .writeLoop fresh (b :: bs))
    (hC : SleepsWhenFull s (.step p)) : Inv (s.step p) := by
  unfold State.step
  rw [hpc]
  dsimp only
  split
  case isTrue hfull =>
    split
    case isTrue hgives =>
      refine h.goto hpc (fun _ => rfl) nofun ?_ nofun
      intro chan hor
      cases fresh with
      | true => exact hor.imp_right nofun
      | false =>
          rcases hC b bs hpc hfull with ⟨hopen, halive⟩
          rw [hopen, halive] at hgives
          exact absurd hgives (by decide)
    case isFalse hsleeps =>
      refine h.goto hpc (fun _ => rfl) nofun ?_ ?_
      · intro chan hor
        cases fresh with
        | true => exact hor.imp_right nofun
        | false => exact hor
      · intro chan hchan
        cases hchan
        left
        refine ⟨hfull, ?_⟩
        simpa using (not_or.mp hsleeps).1
  case isFalse hroom =>
    refine h.goto hpc (fun _ => rfl) nofun ?_ nofun
    intro chan hor
    cases chan with
    | nread => exact Or.inr rfl
    | nwrite =>
        rcases hor with hblocked | howes
        · exact absurd hblocked.1 hroom
        · cases fresh with
          | true | false => cases howes

theorem readWait_inv (h : Inv s) {n : Int32} (hpc : s.pc p = .readWait n) :
    Inv (s.step p) := by
  unfold State.step
  rw [hpc]
  dsimp only
  split
  case isTrue hempty =>
    split
    case isTrue =>
      exact h.goto hpc (fun _ => rfl) nofun (fun _ hor => hor) nofun
    case isFalse =>
      refine h.goto hpc (fun _ => rfl) nofun (fun _ hor => hor) ?_
      intro chan hchan
      cases hchan
      exact Or.inl hempty
  case isFalse =>
    exact h.goto hpc (fun _ => rfl) nofun (fun _ hor => hor.imp_right nofun)
      nofun

theorem readLoop_inv (h : Inv s) {n : Nat} (hpc : s.pc p = .readLoop n) :
    Inv (s.step p) := by
  unfold State.step
  rw [hpc]
  cases n with
  | zero => exact h.goto hpc (fun _ => rfl) nofun (fun _ hor => hor) nofun
  | succ n =>
      dsimp only
      split
      case isTrue =>
        exact h.goto hpc (fun _ => rfl) nofun (fun _ hor => hor) nofun
      case isFalse hbytes =>
        refine h.goto hpc (fun _ => rfl) nofun ?_ nofun
        intro chan hor
        cases chan with
        | nwrite => exact Or.inr rfl
        | nread =>
            rcases hor with hblocked | howes
            · exact absurd hblocked.1 hbytes
            · cases howes

theorem closeMark_inv (h : Inv s) {writable : Bool}
    (hpc : s.pc p = .closeMark writable) : Inv (s.step p) := by
  unfold State.step
  rw [hpc]
  refine h.goto hpc (fun _ => rfl) nofun ?_ nofun
  intro chan hor
  have hblocked : Blocked s.pipe chan := hor.resolve_right nofun
  cases writable with
  | true =>
      cases chan with
      | nread => exact Or.inr rfl
      | nwrite => exact Or.inl hblocked
  | false =>
      cases chan with
      | nread => exact Or.inl hblocked
      | nwrite => exact Or.inr rfl

theorem step_inv (h : Inv s) (hC : SleepsWhenFull s (.step p)) :
    Inv (s.step p) := by
  cases hpc : s.pc p with
  | writeLoop fresh bs =>
      cases bs with
      | cons b bs => exact write_inv h hpc hC
      | nil =>
          unfold State.step
          rw [hpc]
          refine h.goto hpc (fun _ => rfl) nofun ?_ nofun
          intro chan hor
          cases fresh with
          | true => exact hor.imp_right nofun
          | false => exact hor
  | readWait n => exact readWait_inv h hpc
  | readLoop n => exact readLoop_inv h hpc
  | closeMark writable => exact closeMark_inv h hpc
  | out | asleep w =>
      unfold State.step
      rw [hpc]
      exact h
  | writeEnter bs | readEnter n | closeEnter writable =>
      unfold State.step
      rw [hpc]
      exact h.acquire hpc rfl rfl rfl
  | woken w =>
      unfold State.step
      rw [hpc]
      cases w with
      | write bs | read n => exact h.acquire hpc rfl rfl rfl
  | writeWake bs =>
      unfold State.step
      rw [hpc]
      refine h.wakeup hpc rfl rfl ?_
      intro chan hchan
      cases hchan
      exact ⟨Chan.noConfusion, rfl⟩
  | writeDone | readDone =>
      unfold State.step
      rw [hpc]
      exact h.wakeup hpc rfl rfl nofun
  | closeWake writable =>
      unfold State.step
      rw [hpc]
      cases writable with
      | true | false => exact h.wakeup hpc rfl rfl nofun
  | leave =>
      unfold State.step
      rw [hpc]
      exact h.lock hpc nofun (Or.inr (Or.inr ⟨rfl, rfl⟩)) nofun (Or.inl rfl)
        rfl nofun
  | sleepEnter w =>
      unfold State.step
      rw [hpc]
      dsimp only
      split
      case isTrue hfree =>
        exact h.lock hpc (fun _ => h.held p (by rw [hpc]; rfl)) (Or.inl rfl)
          (fun _ => rfl) (Or.inr (Or.inl ⟨rfl, hfree⟩)) rfl (fun _ hw => hw)
      case isFalse => exact h
  | sleepRelease w =>
      unfold State.step
      rw [hpc]
      exact h.lock hpc nofun (Or.inr (Or.inr ⟨rfl, rfl⟩))
        (fun _ => h.managed p (by rw [hpc]; rfl)) (Or.inl rfl) rfl
        (fun _ hw => hw)
  | sleepDoze w =>
      unfold State.step
      rw [hpc]
      exact h.lock hpc nofun (Or.inl rfl) nofun (Or.inr (Or.inr ⟨rfl, rfl⟩))
        rfl (fun _ hw => hw)

end Steps

structure Start (s : State ι) : Prop where
  lock : s.lock = none
  ptable : s.ptable = none
  pc : forall p, s.pc p = .out

omit [DecidableEq ι] in
theorem Start.inv {s : State ι} (h : Start s) : Inv s := by
  constructor
  · intro p hp
    rw [h.pc p] at hp
    cases hp
  · intro p hp
    rw [h.pc p] at hp
    cases hp
  · intro p chan hp
    rw [h.pc p] at hp
    cases hp

theorem next_inv {s : State ι} {a : Act ι} (h : Inv s)
    (hC : SleepsWhenFull s a) : Inv (next a s) := by
  cases a with
  | step p => exact step_inv h hC
  | call p c =>
      unfold next
      dsimp only
      split
      case isTrue hout =>
        cases c with
        | write bs | close writable =>
            exact h.goto hout nofun nofun (fun _ hor => hor) nofun
        | read n => exact h.goto hout nofun nofun (fun _ hor => hor) nofun
      case isFalse => exact h
  | kill p =>
      unfold next
      dsimp only
      split
      case isTrue hfree =>
        refine h.move (s.goto_self p (s.pc p).kill) ?_ ?_ (fun _ _ hq => hq)
          ?_ (fun _ _ hq => hq) ?_ ?_
        · exact fun q hq => Or.inl (s.goto_of_ne hq _)
        · intro hp
          rcases (s.pc p).kill_eq with hsame | ⟨w, _, hwoken⟩
          · exact h.held p (by rw [← hsame]; exact hp)
          · rw [hwoken] at hp
            cases hp
        · intro hp
          rcases (s.pc p).kill_eq with hsame | ⟨w, _, hwoken⟩
          · exact h.managed p (by rw [← hsame]; exact hp)
          · rw [hwoken] at hp
            cases hp
        · intro q chan _ hor
          rcases (s.pc p).kill_eq with hsame | ⟨w, hasleep, _⟩
          · rw [hsame]
            exact hor
          · rw [hasleep] at hor
            exact hor.imp_right nofun
        · intro chan hchan
          rcases (s.pc p).kill_eq with hsame | ⟨w, _, hwoken⟩
          · rw [hsame] at hchan
            exact Or.inr hchan
          · rw [hwoken] at hchan
            cases hchan
      case isFalse => exact h

/-!
## The theorem
-/

section GivesUp

variable {s : State ι} {p q : ι} {b : UInt8} {bs : List UInt8}

theorem gives_up (hpc : s.pc p = .writeLoop false (b :: bs))
    (hfull : s.pipe.nwrite = s.pipe.nread + 512)
    (hgives : s.pipe.readopen = false ∨ s.killed p = true) :
    exists s', Interleaves next (next (.step p) s) s' ∧ s'.lock = none ∧
      s'.pipe = s.pipe ∧ forall q, q ≠ p -> s'.pc q = s.pc q := by
  have hleave : next (.step p) s = s.goto p .leave := by
    show s.step p = _
    unfold State.step
    rw [hpc]
    dsimp only
    rw [if_pos hfull, if_pos hgives]
  have hout : next (.step p) (s.goto p .leave) =
      { (s.goto p .leave).goto p .out with lock := none } := by
    show (s.goto p .leave).step p = _
    unfold State.step
    rw [s.goto_self p .leave]
  rw [hleave]
  refine ⟨_, Interleaves.single (.step p) hout, rfl, rfl, ?_⟩
  intro q hq
  exact ((s.goto p .leave).goto_of_ne hq .out).trans (s.goto_of_ne hq .leave)

omit [DecidableEq ι] in
theorem not_settled {w : Wait} (hlock : s.lock = none)
    (hfull : s.pipe.nwrite = s.pipe.nread + 512) (hq : s.pc q = .asleep w)
    (hw : w.chan = .nread) : ¬ Settled s := by
  intro h
  have hblocked := h hlock q w hq
  rw [hw] at hblocked
  have hempty := hblocked.1
  rw [hfull] at hempty
  grind

theorem reader_left (h : Inv s) (hpc : s.pc p = .writeLoop false (b :: bs))
    (hfull : s.pipe.nwrite = s.pipe.nread + 512)
    (hgives : s.pipe.readopen = false ∨ s.killed p = true)
    (hq : (s.pc q).waits = some .nread) :
    exists s', Interleaves next (next (.step p) s) s' ∧ ¬ Settled s' := by
  have hne : q ≠ p := by
    rintro rfl
    rw [hpc] at hq
    cases hq
  have hlock := h.held p (by rw [hpc]; rfl)
  rcases gives_up hpc hfull hgives with ⟨s', hruns, hfree, hpipe, hother⟩
  have hfull' : s'.pipe.nwrite = s'.pipe.nread + 512 := by
    rw [hpipe]
    exact hfull
  have hsame := hother q hne
  cases hpcq : s.pc q with
  | asleep w =>
      rw [hpcq] at hq hsame
      exact ⟨s', hruns, not_settled hfree hfull' hsame (Option.some.inj hq)⟩
  | sleepDoze w =>
      -- it does not look at the pipe again before it is asleep
      rw [hpcq] at hq hsame
      have hdoze : next (.step q) s' =
          { s'.goto q (.asleep w) with ptable := none } := by
        show s'.step q = _
        unfold State.step
        rw [hsame]
      refine ⟨_, hruns.trans (Interleaves.single (.step q) hdoze), ?_⟩
      exact not_settled (q := q) (w := w) hfree hfull' (s'.goto_self q _)
        (Option.some.inj hq)
  | _ =>
      rw [hpcq] at hq
      first
        | cases hq
        | have hheld := h.held q (by rw [hpcq]; rfl)
          rw [hlock] at hheld
          exact absurd (Option.some.inj hheld).symm hne

end GivesUp

/-- As long as no `pipewrite` gives up after it has stored bytes, nobody sleeps on
the pipe who does not have to.  Where one does while a process waits on
`&p->nread`, that process can be left asleep with bytes to read. -/
theorem sleepers_blocked {ι : Type} [DecidableEq ι] {s₀ s : State ι}
    (hstart : Start s₀) (hruns : Runs (Moves next) SleepsWhenFull s₀ s) :
    Settled s ∧ forall a, ¬ SleepsWhenFull s a ->
      (exists q, (s.pc q).waits = some .nread) ->
        exists s', Interleaves next (next a s) s' ∧ ¬ Settled s' := by
  have hinv : Inv s := by
    apply hruns.invariant hstart.inv
    rintro s a _ h hC rfl
    exact next_inv h hC
  refine ⟨hinv.settled, ?_⟩
  rintro a hC ⟨q, hq⟩
  cases a with
  | call p c | kill p => exact absurd trivial hC
  | step p =>
      simp only [SleepsWhenFull, not_forall] at hC
      rcases hC with ⟨b, bs, hpc, hfull, hgives⟩
      refine reader_left hinv hpc hfull ?_ hq
      rcases Decidable.em (s.killed p = true) with hkilled | halive
      · exact Or.inr hkilled
      · left
        rcases hopen : s.pipe.readopen with _ | _
        · rfl
        · exact absurd ⟨hopen, by simpa using halive⟩ hgives

def newPipe : State (Fin 2) where
  pipe :=
    { data := fun _ => 0
      nread := 0
      nwrite := 0
      readopen := true
      writeopen := true }
  lock := none
  ptable := none
  pc := fun _ => .out
  killed := fun _ => false

theorem newPipe_start : Start newPipe := ⟨rfl, rfl, fun _ => rfl⟩

def readerSleeps : List (Act (Fin 2)) :=
  .call ⟨0, Nat.two_pos⟩ (.read 1) ::
    List.replicate 5 (.step ⟨0, Nat.two_pos⟩)

theorem sleepers_blocked_reader : Start newPipe ∧
    (schedule next readerSleeps newPipe).pc 0 = .asleep (.read 1) ∧
      Settled (schedule next readerSleeps newPipe) := by
  have hruns : Runs (Moves next) SleepsWhenFull newPipe
      (schedule next readerSleeps newPipe) := by
    apply runs_schedule Runs.refl
    exact ⟨trivial, nofun, nofun, nofun, nofun, nofun, trivial⟩
  exact ⟨newPipe_start, by decide, (sleepers_blocked newPipe_start hruns).1⟩

/-- The second one is killed while it writes 513 bytes.  It stores 512 of them
and returns. -/
def writerKilled : List (Act (Fin 2)) :=
  readerSleeps ++
    [.call ⟨1, Nat.one_lt_two⟩ (.write (List.replicate 513 65)),
      .kill ⟨1, Nat.one_lt_two⟩] ++
    List.replicate 515 (.step ⟨1, Nat.one_lt_two⟩)

/-- Nobody uses the pipe any more, it is full, and the reader sleeps. -/
theorem killed_writer_leaves_reader_asleep :
    exists s, Interleaves next newPipe s ∧ s.lock = none ∧
      s.pc 0 = .asleep (.read 1) ∧ s.pc 1 = .out ∧
        s.pipe.nwrite - s.pipe.nread = 512 ∧ ¬ Settled s := by
  have hlock : (schedule next writerKilled newPipe).lock = none := by
    decide +kernel
  have hreader : (schedule next writerKilled newPipe).pc 0 =
      .asleep (.read 1) := by
    decide +kernel
  have hwrite : (schedule next writerKilled newPipe).pipe.nwrite = 512 := by
    decide +kernel
  have hread : (schedule next writerKilled newPipe).pipe.nread = 0 := by
    decide +kernel
  refine ⟨_, interleaves_schedule writerKilled newPipe, hlock, hreader,
    by decide +kernel, ?_, ?_⟩
  · rw [hwrite, hread]
    decide
  · apply not_settled hlock ?_ hreader rfl
    rw [hwrite, hread]
    decide

end PipeUsers
end Xv6
