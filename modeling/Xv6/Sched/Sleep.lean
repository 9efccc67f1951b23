import Xv6.Proc.Effect

/-!
# No wakeup is lost

Consumers test a condition on shared data under a lock `lk` and call
`sleep(chan, lk)` where it is false.  Producers make the condition true under
`lk` and call `wakeup(chan)`, before or after they give `lk` back.  Any code may
take `ptable.lock` in between and change the process table.  A step is what the
code does between two accesses to a lock.
-/

namespace Xv6
namespace Kernel

open Lib Lib.Run

inductive Lock where
  | ptable
  | data
  deriving DecidableEq, Repr

inductive Pc where
  | out
  | manages
  | holds
  | owes
  | released
  /-- In `wakeup`, with `ptable.lock`; with `lk` too if it was `kept`. -/
  | waking (kept : Bool)
  | woke (kept : Bool)
  /-- The condition is false; at the start of `sleep`. -/
  | refused
  | locked
  /-- `sleep` has given `lk` back. -/
  | falling
  | asleep
  | awake
  | relock
  deriving DecidableEq, Repr

namespace Pc

def hasLk : Pc -> Bool
  | holds => true
  | owes => true
  | waking kept => kept
  | woke kept => kept
  | refused => true
  | locked => true
  | _ => false

def hasPtable : Pc -> Bool
  | manages => true
  | waking _ => true
  | woke _ => true
  | locked => true
  | falling => true
  | awake => true
  | _ => false

def has (lk : Lock) (pc : Pc) (l : Lock) : Prop :=
  pc.hasLk = true ∧ l = lk ∨ pc.hasPtable = true ∧ l = .ptable

def owing : Pc -> Bool
  | owes => true
  | released => true
  | waking _ => true
  | _ => false

end Pc

inductive LockEvent where
  | acquire (l : Lock)
  | release (l : Lock)
  | work
  deriving DecidableEq, Repr

def SleepsOn (chan : Chan) (k : Kernel) (p : Pslot) : Prop :=
  (k.proc p).state = .SLEEPING ∧ (k.proc p).chan = some chan

section Code

variable {σ : Type} (lk : Lock) (chan : Chan) (cond : σ -> Prop)

inductive CodeStep (k : Kernel) (x : σ) :
    Pc -> LockEvent -> Kernel -> σ -> Pc -> Prop where
  -- the rest of the kernel
  | manage : CodeStep k x .out (.acquire .ptable) k x .manages
  | table {k' : Kernel} (h : forall p, SleepsOn chan k' p -> SleepsOn chan k p) :
      CodeStep k x .manages .work k' x .manages
  | unmanage : CodeStep k x .manages (.release .ptable) k x .out
  -- under lk
  | enter : CodeStep k x .out (.acquire lk) k x .holds
  | leave : CodeStep k x .holds (.release lk) k x .out
  | consume {x' : σ} (h : cond x' -> cond x) :
      CodeStep k x .holds .work k x' .holds
  | produce {x' : σ} : CodeStep k x .holds .work k x' .owes
  | produceMore {x' : σ} : CodeStep k x .owes .work k x' .owes
  -- wakeup before lk is given back; if lk is ptable.lock it is wakeup1
  | wakeup (h : lk ≠ .ptable) :
      CodeStep k x .owes (.acquire .ptable) k x (.waking true)
  | wakeup1 (h : lk = .ptable) : CodeStep k x .owes .work k x (.waking true)
  -- wakeup after lk is given back
  | produced : CodeStep k x .owes (.release lk) k x .released
  | wakeupLater :
      CodeStep k x .released (.acquire .ptable) k x (.waking false)
  | wakes {kept : Bool} {k' : Kernel}
      (hk : Kernel.wakeup chan k = .ok ((), k')) :
      CodeStep k x (.waking kept) .work k' x (.woke kept)
  | wokeUp (h : lk ≠ .ptable) :
      CodeStep k x (.woke true) (.release .ptable) k x .holds
  | wokeUp1 (h : lk = .ptable) : CodeStep k x (.woke true) .work k x .holds
  | wokeLater : CodeStep k x (.woke false) (.release .ptable) k x .out
  -- sleep
  | test (h : ¬ cond x) : CodeStep k x .holds .work k x .refused
  | sleeplock1 (h : lk ≠ .ptable) :
      CodeStep k x .refused (.acquire .ptable) k x .locked
  | sleepRelease (h : lk ≠ .ptable) :
      CodeStep k x .locked (.release lk) k x .falling
  | sleepSame (h : lk = .ptable) : CodeStep k x .refused .work k x .falling
  | sleeplock2 (h : lk ≠ .ptable) :
      CodeStep k x .awake (.release .ptable) k x .relock
  | sleepReacquire : CodeStep k x .relock (.acquire lk) k x .holds
  | awakeSame (h : lk = .ptable) : CodeStep k x .awake .work k x .holds

end Code

/-- The kernel with the shared data, the two locks with the threads that hold
them, and the places of the threads.  A thread is a process, or one of the
schedulers and interrupt handlers in `ι`. -/
structure Sync (ι σ : Type) where
  kernel : Kernel
  shared : σ
  lock : Lock -> Option (Pslot ⊕ ι)
  pc : Pslot ⊕ ι -> Pc

section Machine

variable {ι σ : Type} [DecidableEq ι]

def Sync.allows (s : Sync ι σ) (t : Pslot ⊕ ι) : LockEvent -> Prop
  | .acquire l => s.lock l = none
  | .release l => s.lock l = some t
  | .work => True

def Sync.lockAfter (s : Sync ι σ) (t : Pslot ⊕ ι) :
    LockEvent -> Lock -> Option (Pslot ⊕ ι)
  | .acquire l => Function.update s.lock l (some t)
  | .release l => Function.update s.lock l none
  | .work => s.lock

variable (lk : Lock) (chan : Chan) (cond : σ -> Prop)

inductive SyncStep (s : Sync ι σ) (t : Pslot ⊕ ι) : Sync ι σ -> Prop where
  | code {e : LockEvent} {k' : Kernel} {x' : σ} {pc' : Pc}
      (hallows : s.allows t e)
      (h : CodeStep lk chan cond s.kernel s.shared (s.pc t) e k' x' pc') :
      SyncStep s t
        { kernel := k'
          shared := x'
          lock := s.lockAfter t e
          pc := Function.update s.pc t pc' }
  | sleep {p : Pslot} {c : ι} {k' : Kernel} (ht : t = .inl p)
      (hpc : s.pc t = .falling) (hc : s.pc (.inr c) = .out)
      (hk : Kernel.sleep p chan s.kernel = .ok ((), k')) :
      SyncStep s t
        { kernel := k'
          shared := s.shared
          lock := Function.update s.lock .ptable (some (.inr c))
          pc := Function.update (Function.update s.pc (.inr c) .manages) t
            .asleep }
  | dispatch {p : Pslot} {k' : Kernel} (hpc : s.pc t = .manages)
      (hp : s.pc (.inl p) = .asleep)
      (hrunnable : (s.kernel.proc p).state = .RUNNABLE)
      (hk : Kernel.dispatch p s.kernel = .ok ((), k')) :
      SyncStep s t
        { kernel := k'
          shared := s.shared
          lock := Function.update s.lock .ptable (some (.inl p))
          pc := Function.update (Function.update s.pc t .out) (.inl p) .awake }

structure Sync.Start (s : Sync ι σ) : Prop where
  lock : forall l, s.lock l = none
  pc : forall t, s.pc t = .out
  awake : forall p, ¬ SleepsOn chan s.kernel p

end Machine

/-!
## The locks
-/

section Locks

variable {ι σ : Type} {lk : Lock} {chan : Chan} {cond : σ -> Prop}
  {k k' : Kernel} {x x' : σ} {pc pc' : Pc}

theorem codeStep_acquire {l : Lock}
    (h : CodeStep lk chan cond k x pc (.acquire l) k' x' pc') (l' : Lock)
    (hl' : pc'.has lk l') : pc.has lk l' ∨ l' = l := by
  unfold Pc.has at hl' ⊢
  cases h with
  | manage | enter | wakeup _ | wakeupLater | sleeplock1 _ | sleepReacquire =>
      simpa [Pc.hasLk, Pc.hasPtable] using hl'

theorem codeStep_release {l : Lock}
    (h : CodeStep lk chan cond k x pc (.release l) k' x' pc') (l' : Lock)
    (hl' : pc'.has lk l') : pc.has lk l' ∧ l' ≠ l := by
  unfold Pc.has at hl' ⊢
  cases h with
  | unmanage | leave | produced | wokeLater | sleeplock2 _ =>
      simp [Pc.hasLk, Pc.hasPtable] at hl'
  | wokeUp hlk | sleepRelease hlk =>
      simp only [Pc.hasLk, Pc.hasPtable] at hl' ⊢
      grind

theorem codeStep_work
    (h : CodeStep lk chan cond k x pc .work k' x' pc') (l' : Lock)
    (hl' : pc'.has lk l') : pc.has lk l' := by
  unfold Pc.has at hl' ⊢
  cases h with
  | table _ | consume _ | produce | produceMore | wakes _ | test _ => exact hl'
  | wakeup1 hlk | wokeUp1 hlk => simpa [Pc.hasLk, Pc.hasPtable, hlk] using hl'
  | sleepSame hlk | awakeSame hlk =>
      simpa [Pc.hasLk, Pc.hasPtable, hlk] using hl'

def Sync.Locked (lk : Lock) (s : Sync ι σ) : Prop :=
  forall t l, (s.pc t).has lk l -> s.lock l = some t

variable [DecidableEq ι] {s s' : Sync ι σ} {t : Pslot ⊕ ι}

theorem code_locked {e : LockEvent} (hlocked : s.Locked lk)
    (hallows : s.allows t e)
    (h : CodeStep lk chan cond s.kernel s.shared (s.pc t) e k' x' pc') :
    Sync.Locked lk
      { kernel := k'
        shared := x'
        lock := s.lockAfter t e
        pc := Function.update s.pc t pc' } := by
  intro u l hu
  -- another thread stays where it is, so it keeps its locks
  have hother : u ≠ t -> s.lock l = some u := by
    intro hne
    apply hlocked u l
    rw [← Function.update_of_ne hne pc' s.pc]
    exact hu
  have hself : u = t -> pc'.has lk l := by
    rintro rfl
    have hpc : Function.update s.pc u pc' u = pc' := Function.update_self u _ _
    rw [← hpc]
    exact hu
  cases e with
  | acquire l' =>
      show Function.update s.lock l' (some t) l = _
      rcases eq_or_ne u t with rfl | hne
      · rcases codeStep_acquire h l (hself rfl) with hold | rfl
        · rcases eq_or_ne l l' with rfl | hl
          · exact Function.update_self l _ _
          · rw [Function.update_of_ne hl]
            exact hlocked u l hold
        · exact Function.update_self l _ _
      · have hl : l ≠ l' := by
          rintro rfl
          cases (hother hne).symm.trans hallows
        rw [Function.update_of_ne hl]
        exact hother hne
  | release l' =>
      show Function.update s.lock l' none l = _
      rcases eq_or_ne u t with rfl | hne
      · rcases codeStep_release h l (hself rfl) with ⟨hold, hl⟩
        rw [Function.update_of_ne hl]
        exact hlocked u l hold
      · have hl : l ≠ l' := by
          rintro rfl
          cases (hother hne).symm.trans hallows
          exact hne rfl
        rw [Function.update_of_ne hl]
        exact hother hne
  | work =>
      rcases eq_or_ne u t with rfl | hne
      · exact hlocked u l (codeStep_work h l (hself rfl))
      · exact hother hne

omit [DecidableEq ι] in
theorem handed_locked {u : Pslot ⊕ ι} {pcs : Pslot ⊕ ι -> Pc}
    (hlocked : s.Locked lk) (ht : (s.pc t).has lk .ptable)
    (hpct : forall l, ¬ (pcs t).has lk l)
    (hpcu : forall l, (pcs u).has lk l -> l = .ptable)
    (hother : forall v, v ≠ t -> v ≠ u -> pcs v = s.pc v) :
    Sync.Locked lk
      { kernel := k'
        shared := x'
        lock := Function.update s.lock .ptable (some u)
        pc := pcs } := by
  intro v l hv
  change (pcs v).has lk l at hv
  show Function.update s.lock .ptable (some u) l = _
  rcases eq_or_ne v t with rfl | hvt
  · exact absurd hv (hpct l)
  · rcases eq_or_ne v u with rfl | hvu
    · rw [hpcu l hv]
      exact Function.update_self _ _ _
    · rw [hother v hvt hvu] at hv
      have hl : l ≠ .ptable := by
        rintro rfl
        cases (hlocked v .ptable hv).symm.trans (hlocked t .ptable ht)
        exact hvt rfl
      rw [Function.update_of_ne hl]
      exact hlocked v l hv

theorem syncStep_locked (hlocked : s.Locked lk)
    (hstep : SyncStep lk chan cond s t s') : s'.Locked lk := by
  cases hstep with
  | code hallows h => exact code_locked hlocked hallows h
  | @sleep p c k' ht hpc hc hk =>
      subst ht
      apply handed_locked hlocked (t := .inl p) (u := .inr c)
      · rw [hpc]
        exact Or.inr ⟨rfl, rfl⟩
      · intro l
        rw [Function.update_self]
        simp [Pc.has, Pc.hasLk, Pc.hasPtable]
      · intro l
        rw [Function.update_of_ne Sum.inr_ne_inl, Function.update_self]
        simp [Pc.has, Pc.hasLk, Pc.hasPtable]
      · intro v hvt hvu
        rw [Function.update_of_ne hvt, Function.update_of_ne hvu]
  | @dispatch p k' hpc hp hrunnable hk =>
      have hne : t ≠ .inl p := by
        rintro rfl
        cases hpc.symm.trans hp
      apply handed_locked hlocked (t := t) (u := .inl p)
      · rw [hpc]
        exact Or.inr ⟨rfl, rfl⟩
      · intro l
        rw [Function.update_of_ne hne, Function.update_self]
        simp [Pc.has, Pc.hasLk, Pc.hasPtable]
      · intro l
        rw [Function.update_self]
        simp [Pc.has, Pc.hasLk, Pc.hasPtable]
      · intro v hvt hvu
        rw [Function.update_of_ne hvu, Function.update_of_ne hvt]

end Locks

/-!
## The wakeups
-/

section Wakeups

variable {ι σ : Type} {lk : Lock} {chan : Chan} {cond : σ -> Prop}
  {k k' : Kernel} {x x' : σ} {pc pc' : Pc}

theorem wakeup_awake (hk : wakeup chan k = .ok ((), k')) (p : Pslot) :
    ¬ SleepsOn chan k' p := by
  cases hk
  rintro ⟨hstate, hchan⟩
  change (wake (some chan) (k.proc p)).state = _ at hstate
  change (wake (some chan) (k.proc p)).chan = _ at hchan
  have hsleeps : (k.proc p).state = .SLEEPING := by
    rcases wake_state (k.proc p) (some chan) with hsame | ⟨hsleeping, _⟩
    · exact hsame.symm.trans hstate
    · exact hsleeping
  rw [wake_eq] at hchan
  unfold wake at hstate
  rw [if_pos ⟨hsleeps, hchan⟩] at hstate
  cases hstate

structure CodeEffect (chan : Chan) (cond : σ -> Prop) (k : Kernel) (x : σ)
    (pc : Pc) (k' : Kernel) (x' : σ) (pc' : Pc) : Prop where
  shared : x' = x ∨ pc.hasLk = true
  tested : pc' = .refused ∨ pc' = .locked ∨ pc' = .falling -> ¬ cond x'
  sleeps : forall p, SleepsOn chan k' p -> SleepsOn chan k p
  produces : cond x' -> cond x ∨ pc'.owing = true
  pays : pc.owing = true -> pc'.owing = true ∨
    pc.hasPtable = true ∧ forall p, ¬ SleepsOn chan k' p

theorem CodeEffect.of_same
    (htested : pc' = .refused ∨ pc' = .locked ∨ pc' = .falling -> ¬ cond x)
    (howing : pc.owing = true -> pc'.owing = true) :
    CodeEffect chan cond k x pc k x pc' where
  shared := Or.inl rfl
  tested := htested
  sleeps := fun _ h => h
  produces := Or.inl
  pays := fun h => Or.inl (howing h)

theorem codeStep_effect {e : LockEvent}
    (htested : pc = .refused ∨ pc = .locked -> ¬ cond x)
    (h : CodeStep lk chan cond k x pc e k' x' pc') :
    CodeEffect chan cond k x pc k' x' pc' := by
  cases h with
  | manage => exact CodeEffect.of_same (by simp) (by simp [Pc.owing])
  | table hk =>
      exact ⟨Or.inl rfl, by simp, hk, Or.inl, by simp [Pc.owing]⟩
  | unmanage | enter | leave | wokeUp _ | wokeUp1 _ | wokeLater
  | sleeplock2 _ | sleepReacquire | awakeSame _ =>
      exact CodeEffect.of_same (by simp) (by simp [Pc.owing])
  | consume hx =>
      exact ⟨Or.inr rfl, by simp, fun _ hp => hp, fun hc => Or.inl (hx hc),
        by simp [Pc.owing]⟩
  | produce =>
      exact ⟨Or.inr rfl, by simp, fun _ hp => hp, fun _ => Or.inr rfl,
        by simp [Pc.owing]⟩
  | produceMore =>
      exact ⟨Or.inr rfl, by simp, fun _ hp => hp, fun _ => Or.inr rfl,
        fun _ => Or.inl rfl⟩
  | wakeup _ | wakeup1 _ | produced | wakeupLater =>
      exact CodeEffect.of_same (by simp) (fun _ => rfl)
  | wakes hk =>
      have hawake := wakeup_awake hk
      exact ⟨Or.inl rfl, by simp, fun p hp => absurd hp (hawake p), Or.inl,
        fun _ => Or.inr ⟨rfl, hawake⟩⟩
  | test hx => exact CodeEffect.of_same (fun _ => hx) (by simp [Pc.owing])
  | sleeplock1 _ | sleepSame _ =>
      exact CodeEffect.of_same (fun _ => htested (Or.inl rfl))
        (by simp [Pc.owing])
  | sleepRelease _ =>
      exact CodeEffect.of_same (fun _ => htested (Or.inr rfl))
        (by simp [Pc.owing])

structure Sync.Sound (lk : Lock) (chan : Chan) (cond : σ -> Prop)
    (s : Sync ι σ) : Prop where
  locked : s.Locked lk
  tested : forall t, s.pc t = .refused ∨ s.pc t = .locked -> ¬ cond s.shared
  /-- A thread about to sleep has `ptable.lock`, so the wakeup it might miss is
  still to come. -/
  owed : ((exists t, s.pc t = .falling) ∨ exists p, SleepsOn chan s.kernel p) ->
    cond s.shared -> exists t, (s.pc t).owing = true

theorem start_sound {s : Sync ι σ} (h : s.Start chan) :
    s.Sound lk chan cond := by
  constructor
  · intro t l hhas
    rw [h.pc t] at hhas
    simp [Pc.has, Pc.hasLk, Pc.hasPtable] at hhas
  · intro t ht
    rw [h.pc t] at ht
    simp at ht
  · rintro (⟨t, ht⟩ | ⟨p, hp⟩)
    · rw [h.pc t] at ht
      cases ht
    · exact absurd hp (h.awake p)

variable [DecidableEq ι] {s s' : Sync ι σ} {t : Pslot ⊕ ι}

theorem code_sound {e : LockEvent} (hsound : s.Sound lk chan cond)
    (hallows : s.allows t e)
    (h : CodeStep lk chan cond s.kernel s.shared (s.pc t) e k' x' pc') :
    Sync.Sound lk chan cond
      { kernel := k'
        shared := x'
        lock := s.lockAfter t e
        pc := Function.update s.pc t pc' } := by
  have heffect := codeStep_effect (hsound.tested t) h
  have hself : Function.update s.pc t pc' t = pc' := Function.update_self t _ _
  have hother : forall u, u ≠ t -> Function.update s.pc t pc' u = s.pc u :=
    fun u hu => Function.update_of_ne hu _ _
  constructor
  · exact code_locked hsound.locked hallows h
  · intro u hu
    change Function.update s.pc t pc' u = _ ∨
      Function.update s.pc t pc' u = _ at hu
    show ¬ cond x'
    rcases eq_or_ne u t with rfl | hne
    · rw [hself] at hu
      apply heffect.tested
      rcases hu with hu | hu
      · exact Or.inl hu
      · exact Or.inr (Or.inl hu)
    · rw [hother u hne] at hu
      rcases heffect.shared with rfl | hlk
      · exact hsound.tested u hu
      · -- both threads would have `lk`
        have hulk : (s.pc u).hasLk = true := by
          rcases hu with hu | hu
          · rw [hu]
            rfl
          · rw [hu]
            rfl
        have hut := (hsound.locked u lk (Or.inl ⟨hulk, rfl⟩)).symm.trans
          (hsound.locked t lk (Or.inl ⟨hlk, rfl⟩))
        exact absurd (Option.some.inj hut) hne
  · intro hneedy hcond
    change ((exists u, Function.update s.pc t pc' u = _) ∨
      exists p, SleepsOn chan k' p) at hneedy
    change cond x' at hcond
    show exists u, (Function.update s.pc t pc' u).owing = true
    have hfalling : forall u, Function.update s.pc t pc' u = .falling ->
        u ≠ t ∧ s.pc u = .falling := by
      intro u hu
      rcases eq_or_ne u t with rfl | hne
      · rw [hself] at hu
        exact absurd hcond (heffect.tested (Or.inr (Or.inr hu)))
      · rw [hother u hne] at hu
        exact ⟨hne, hu⟩
    rcases heffect.produces hcond with hbefore | howing
    · have howed : exists u, (s.pc u).owing = true := by
        apply hsound.owed _ hbefore
        rcases hneedy with ⟨u, hu⟩ | ⟨p, hp⟩
        · exact Or.inl ⟨u, (hfalling u hu).2⟩
        · exact Or.inr ⟨p, heffect.sleeps p hp⟩
      rcases howed with ⟨v, hv⟩
      rcases eq_or_ne v t with rfl | hne
      · rcases heffect.pays hv with howing | ⟨hptable, hawake⟩
        · exact ⟨v, by rw [hself]; exact howing⟩
        · -- nobody sleeps, and nobody else has `ptable.lock`
          rcases hneedy with ⟨u, hu⟩ | ⟨p, hp⟩
          · rcases hfalling u hu with ⟨huv, hu⟩
            have huptable : (s.pc u).hasPtable = true := by
              rw [hu]
              rfl
            have heq :=
              (hsound.locked u .ptable (Or.inr ⟨huptable, rfl⟩)).symm.trans
                (hsound.locked v .ptable (Or.inr ⟨hptable, rfl⟩))
            exact absurd (Option.some.inj heq) huv
          · exact absurd hp (hawake p)
      · exact ⟨v, by rw [hother v hne]; exact hv⟩
    · exact ⟨t, by rw [hself]; exact howing⟩

omit [DecidableEq ι] in
theorem handed_sound {u : Pslot ⊕ ι} {pcs : Pslot ⊕ ι -> Pc}
    {l : Lock -> Option (Pslot ⊕ ι)} (hsound : s.Sound lk chan cond)
    (hlocked : Sync.Locked lk
      { kernel := k', shared := s.shared, lock := l, pc := pcs })
    (ht : (s.pc t).owing = false ∧ (s.pc u).owing = false)
    (hpcs : forall v, v = t ∨ v = u ->
      pcs v ≠ .refused ∧ pcs v ≠ .locked ∧ pcs v ≠ .falling)
    (hother : forall v, v ≠ t -> v ≠ u -> pcs v = s.pc v)
    (hneedy : (exists p, SleepsOn chan k' p) ->
      (exists v, s.pc v = .falling) ∨ exists p, SleepsOn chan s.kernel p) :
    Sync.Sound lk chan cond
      { kernel := k', shared := s.shared, lock := l, pc := pcs } := by
  have hplace : forall v, pcs v = s.pc v ∨
      pcs v ≠ .refused ∧ pcs v ≠ .locked ∧ pcs v ≠ .falling := by
    intro v
    rcases eq_or_ne v t with hv | hvt
    · exact Or.inr (hpcs v (Or.inl hv))
    · rcases eq_or_ne v u with hv | hvu
      · exact Or.inr (hpcs v (Or.inr hv))
      · exact Or.inl (hother v hvt hvu)
  constructor
  · exact hlocked
  · intro v hv
    change pcs v = _ ∨ pcs v = _ at hv
    rcases hplace v with heq | ⟨hrefused, hlock, _⟩
    · rw [heq] at hv
      exact hsound.tested v hv
    · rcases hv with hv | hv
      · exact absurd hv hrefused
      · exact absurd hv hlock
  · intro hsleeper hcond
    have howed : exists v, (s.pc v).owing = true := by
      apply hsound.owed _ hcond
      rcases hsleeper with ⟨v, hv⟩ | hsleeper
      · rcases hplace v with heq | ⟨_, _, hfalling⟩
        · exact Or.inl ⟨v, heq.symm.trans hv⟩
        · exact absurd hv hfalling
      · exact hneedy hsleeper
    rcases howed with ⟨v, hv⟩
    have hvt : v ≠ t := by
      rintro rfl
      rw [ht.1] at hv
      cases hv
    have hvu : v ≠ u := by
      rintro rfl
      rw [ht.2] at hv
      cases hv
    refine ⟨v, ?_⟩
    show (pcs v).owing = true
    rw [hother v hvt hvu]
    exact hv

theorem syncStep_sound (hsound : s.Sound lk chan cond)
    (hstep : SyncStep lk chan cond s t s') : s'.Sound lk chan cond := by
  have hlocked := syncStep_locked hsound.locked hstep
  cases hstep with
  | code hallows h => exact code_sound hsound hallows h
  | @sleep p c k' ht hpc hc hk =>
      apply handed_sound (u := .inr c) (t := t) hsound hlocked
      · rw [hpc, hc]
        exact ⟨rfl, rfl⟩
      · subst ht
        rintro v (rfl | rfl)
        · simp
        · simp
      · intro v hvt hvu
        rw [Function.update_of_ne hvt, Function.update_of_ne hvu]
      · exact fun _ => Or.inl ⟨t, hpc⟩
  | @dispatch p k' hpc hp hrunnable hk =>
      have hne : t ≠ .inl p := by
        rintro rfl
        cases hpc.symm.trans hp
      apply handed_sound (u := .inl p) (t := t) hsound hlocked
      · rw [hpc, hp]
        exact ⟨rfl, rfl⟩
      · rintro v (rfl | rfl)
        · simp [hne]
        · simp
      · intro v hvt hvu
        rw [Function.update_of_ne hvu, Function.update_of_ne hvt]
      · rintro ⟨q, hstate, hchan⟩
        right
        cases hk
        rcases eq_or_ne q p with rfl | hq
        · simp at hstate
        · simp only [Function.update_of_ne hq] at hstate hchan
          exact ⟨q, hstate, hchan⟩

end Wakeups

/-- In every state that can be reached, with any number of threads and whether
`lk` is `ptable.lock` or not, a process that sleeps on the channel while the
condition is true has a wakeup to come. -/
theorem no_lost_wakeup {ι σ : Type} [DecidableEq ι] (lk : Lock) (chan : Chan)
    (cond : σ -> Prop) {s₀ s : Sync ι σ} (hstart : s₀.Start chan)
    (hruns : Runs (fun s t s' => SyncStep lk chan cond s t s')
      (fun _ _ => True) s₀ s)
    (p : Pslot) (hp : SleepsOn chan s.kernel p) (hcond : cond s.shared) :
    exists t, (s.pc t).owing = true := by
  have hsound : s.Sound lk chan cond := hruns.invariant (start_sound hstart)
    (fun _ _ _ h _ hstep => syncStep_sound h hstep)
  exact hsound.owed (Or.inr ⟨p, hp⟩) hcond

/-- The start of a run in which `init` waits on the channel `0` for a flag that
has a lock of its own. -/
def bootSync : Sync (Fin 2) Bool where
  kernel := boot
  shared := false
  lock := fun _ => none
  pc := fun _ => .out

abbrev FlagStep (s : Sync (Fin 2) Bool) (t : Pslot ⊕ Fin 2)
    (s' : Sync (Fin 2) Bool) : Prop :=
  SyncStep .data (.addr 0) (fun x => x = true) s t s'

theorem bootSync_start : bootSync.Start (.addr 0) where
  lock := fun _ => rfl
  pc := fun _ => rfl
  awake := by
    rintro p ⟨hstate, _⟩
    rcases eq_or_ne p 0 with rfl | hp
    · revert hstate
      decide
    · rw [show bootSync.kernel.proc p = zeroProc from if_neg hp] at hstate
      cases hstate

theorem bootSync_runs : exists s : Sync (Fin 2) Bool,
    Runs FlagStep (fun _ _ => True) bootSync s ∧
      SleepsOn (.addr 0) s.kernel 0 ∧ s.shared = true ∧
        s.lock .ptable = none ∧ s.lock .data = none := by
  have hdata : Lock.data ≠ .ptable := Lock.noConfusion
  have hentered : Runs FlagStep (fun _ _ => True) bootSync _ :=
    Runs.refl.tail (.inl 0) trivial
      (SyncStep.code (e := .acquire .data) rfl CodeStep.enter)
  have htested := hentered.tail (.inl 0) trivial
    (SyncStep.code (e := .work) trivial (CodeStep.test Bool.noConfusion))
  have hlocked := htested.tail (.inl 0) trivial
    (SyncStep.code (e := .acquire .ptable) rfl (CodeStep.sleeplock1 hdata))
  have hfalling := hlocked.tail (.inl 0) trivial
    (SyncStep.code (e := .release .data) (show Sync.lock _ _ = _ by decide)
      (CodeStep.sleepRelease hdata))
  have hasleep := hfalling.tail (.inl 0) trivial
    (SyncStep.sleep (c := 0) rfl rfl rfl rfl)
  have hfree := hasleep.tail (.inr 0) trivial
    (SyncStep.code (e := .release .ptable) (show Sync.lock _ _ = _ by decide)
      CodeStep.unmanage)
  have hhandler := hfree.tail (.inr 1) trivial
    (SyncStep.code (e := .acquire .data) rfl CodeStep.enter)
  have hset := hhandler.tail (.inr 1) trivial
    (@SyncStep.code _ _ _ _ _ _ _ _ .work _ true _ trivial CodeStep.produce)
  have hreleased := hset.tail (.inr 1) trivial
    (SyncStep.code (e := .release .data) (show Sync.lock _ _ = _ by decide)
      CodeStep.produced)
  exact ⟨_, hreleased, ⟨rfl, rfl⟩, rfl, rfl, rfl⟩

theorem no_lost_wakeup_flag : exists s : Sync (Fin 2) Bool,
    Runs FlagStep (fun _ _ => True) bootSync s ∧
      SleepsOn (.addr 0) s.kernel 0 ∧ s.shared = true ∧
        exists t, (s.pc t).owing = true := by
  rcases bootSync_runs with ⟨s, hruns, hsleeps, hflag, _⟩
  exact ⟨s, hruns, hsleeps, hflag,
    no_lost_wakeup .data (.addr 0) (fun x => x = true) bootSync_start hruns 0
      hsleeps hflag⟩

end Kernel
end Xv6
