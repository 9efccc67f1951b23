import Xv6.Lib.Links
import Xv6.Lib.Schedule
import Xv6.Ide

/-!
# The queue of the disk

The first requests are done, one after the other, and the rest are the queue.
-/

namespace Xv6
namespace Ide

open Lib

variable {ι : Type} [DecidableEq ι]

/-- The disk after `memide.c` has done the requests in order. -/
def memDisk (d : Disk) (requests : List Request) : Disk :=
  requests.foldl (fun d r => (Memide.sync r.buf d).2) d

def State.queue (s : State ι) : List Bslot :=
  (s.requests.drop s.completed).map Request.b

/-- The disk as the requests that are done leave it. -/
def State.done (s : State ι) (d : Disk) : Disk :=
  memDisk d (s.requests.take s.completed)

/-- The data of a read, which the disk has for the handler. -/
def Buf.answer (b : Buf) (d : Disk) : Option Block :=
  if b.dirty then none else some (d b.blockno.toNat)

def Pc.request : Pc -> Option (Bslot × Nat)
  | out => none
  | loop b k => some (b, k)
  | asleep b k => some (b, k)
  | woken b k => some (b, k)

/-- The disk works on the first request that is not done. -/
inductive Serves (d : Disk) (s : State ι) : Prop where
  | idle (hnone : s.requests[s.completed]? = none) (hdevice : s.device = .idle)
      (hdisk : s.disk = s.done d)
  | busy (r : Request) (hfirst : s.requests[s.completed]? = some r)
      (hdevice : s.device = .busy r.buf.command) (hdisk : s.disk = s.done d)
  | ready (r : Request) (hfirst : s.requests[s.completed]? = some r)
      (hdevice : s.device = .ready (r.buf.answer (s.done d)))
      (hdisk : s.disk = (Memide.sync r.buf (s.done d)).2)

structure Inv (d : Disk) (s : State ι) : Prop where
  linked : Linked s.qnext s.idequeue s.queue
  nodup : s.queue.Nodup
  completed : s.completed ≤ s.requests.length
  proper : forall r, r ∈ s.requests -> r.buf.synced = false ∧
    r.buf.dev = 1 ∧ r.buf.blockno.toNat < FSSIZE
  queued : forall k r, s.completed ≤ k -> s.requests[k]? = some r ->
    s.buf r.b = r.buf ∧ exists p, (s.pc p).request = some (r.b, k)
  waits : forall p b k, (s.pc p).request = some (b, k) ->
    s.owner b = some p ∧ exists r, s.requests[k]? = some r ∧ r.b = b ∧
      (k < s.completed -> s.buf b =
        (Memide.sync r.buf (memDisk d (s.requests.take k))).1)
  asleep : forall p b k, s.pc p = .asleep b k -> s.completed ≤ k
  serves : Serves d s
  havedisk1 : s.havedisk1 = true
  panic : s.panic = none ∨ s.panic = some "iderw: nothing to do"

section Lemmas

variable {d : Disk} {s : State ι}

theorem memDisk_take_succ (d : Disk) {requests : List Request} {k : Nat}
    {r : Request} (h : requests[k]? = some r) :
    memDisk d (requests.take (k + 1)) =
      (Memide.sync r.buf (memDisk d (requests.take k))).2 := by
  unfold memDisk
  rw [List.take_add_one, h, List.foldl_append]
  rfl

omit [DecidableEq ι] in
theorem queue_nil (h : s.requests[s.completed]? = none) : s.queue = [] := by
  unfold State.queue
  rw [List.drop_eq_nil_of_le (List.getElem?_eq_none_iff.mp h)]
  rfl

omit [DecidableEq ι] in
theorem queue_cons {r : Request} (h : s.requests[s.completed]? = some r) :
    s.queue = r.b :: (s.requests.drop (s.completed + 1)).map Request.b := by
  rcases List.getElem?_eq_some_iff.mp h with ⟨hlt, hr⟩
  unfold State.queue
  rw [List.drop_eq_getElem_cons hlt, List.map_cons, hr]

omit [DecidableEq ι] in
theorem Serves.congr {s' : State ι} (h : Serves d s)
    (hrequests : s'.requests = s.requests)
    (hcompleted : s'.completed = s.completed) (hdevice : s'.device = s.device)
    (hdisk : s'.disk = s.disk) : Serves d s' := by
  have hdone : s'.done d = s.done d := by
    unfold State.done
    rw [hrequests, hcompleted]
  cases h with
  | idle hnone hdev hd =>
      apply Serves.idle
      · rw [hrequests, hcompleted]
        exact hnone
      · exact hdevice.trans hdev
      · rw [hdisk, hdone]
        exact hd
  | busy r hfirst hdev hd =>
      apply Serves.busy r
      · rw [hrequests, hcompleted]
        exact hfirst
      · exact hdevice.trans hdev
      · rw [hdisk, hdone]
        exact hd
  | ready r hfirst hdev hd =>
      apply Serves.ready r
      · rw [hrequests, hcompleted]
        exact hfirst
      · rw [hdone]
        exact hdevice.trans hdev
      · rw [hdisk, hdone]
        exact hd

theorem finished_answer (b : Buf) (d : Disk) :
    State.finished b (b.answer d) = (Memide.sync b d).1 := by
  unfold State.finished Buf.answer Memide.sync
  split
  · rfl
  case isFalse h =>
    rw [Bool.not_eq_true] at h
    rw [h]
    rfl

theorem sync_synced (b : Buf) (d : Disk) :
    (Memide.sync b d).1.synced = true := by
  unfold Memide.sync Buf.synced
  split
  · rfl
  case isFalse h =>
    rw [Bool.not_eq_true] at h
    show (true && !b.dirty) = true
    rw [h]
    rfl

omit [DecidableEq ι] in
theorem mem_queue {b : Bslot} : b ∈ s.queue ↔
    exists k r, s.completed ≤ k ∧ s.requests[k]? = some r ∧ r.b = b := by
  unfold State.queue
  rw [List.mem_map]
  constructor
  · rintro ⟨r, hr, hb⟩
    rcases List.mem_iff_getElem?.mp hr with ⟨i, hi⟩
    rw [List.getElem?_drop] at hi
    exact ⟨s.completed + i, r, Nat.le_add_right _ _, hi, hb⟩
  · rintro ⟨k, r, hk, hr, hb⟩
    refine ⟨r, List.mem_iff_getElem?.mpr ⟨k - s.completed, ?_⟩, hb⟩
    rw [List.getElem?_drop, Nat.add_sub_cancel' hk]
    exact hr

omit [DecidableEq ι] in
theorem Inv.head (h : Inv d s) {r : Request}
    (hr : s.requests[s.completed]? = some r) : s.idequeue = some r.b := by
  have hlinked := h.linked
  rw [queue_cons hr] at hlinked
  cases hq : s.idequeue with
  | none =>
      rw [hq] at hlinked
      cases hlinked
  | some b =>
      rw [hq] at hlinked
      cases hlinked
      rfl

omit [DecidableEq ι] in
theorem Inv.ne_of_unused (h : Inv d s) {p : ι} {b c : Bslot} {k : Nat}
    (hp : (s.pc p).request = some (c, k)) (hb : s.unused b = true) :
    c ≠ b := by
  rintro rfl
  unfold State.unused at hb
  rw [(h.waits p c k hp).1] at hb
  dsimp only at hb
  split at hb
  next hout =>
    rw [hout] at hp
    cases hp
  · cases hb

omit [DecidableEq ι] in
theorem Inv.not_queued (h : Inv d s) {b : Bslot} (hb : s.unused b = true) :
    b ∉ s.queue := by
  intro hmem
  rcases mem_queue.mp hmem with ⟨k, r, hk, hr, hrb⟩
  rcases (h.queued k r hk hr).2 with ⟨p, hp⟩
  exact h.ne_of_unused hp hb hrb

end Lemmas

/-!
## The steps
-/

section Steps

variable {d : Disk} {s : State ι}

omit [DecidableEq ι] in
theorem Inv.owner (h : Inv d s) {b : Bslot} {o : Option ι}
    (hb : s.unused b = true) :
    Inv d { s with owner := Function.update s.owner b o } := by
  refine { h with waits := ?_, serves := ?_ }
  · intro p c k hp
    rcases h.waits p c k hp with ⟨howner, hrest⟩
    refine ⟨?_, hrest⟩
    have hne := h.ne_of_unused hp hb
    rw [← howner]
    exact Function.update_of_ne hne ..
  · exact h.serves.congr rfl rfl rfl rfl

omit [DecidableEq ι] in
theorem Inv.change (h : Inv d s) {b : Bslot} (buf : Buf)
    (hb : s.unused b = true) :
    Inv d { s with buf := Function.update s.buf b buf } := by
  refine { h with queued := ?_, waits := ?_, serves := ?_ }
  · intro k r hk hr
    rcases h.queued k r hk hr with ⟨hbuf, p, hp⟩
    refine ⟨?_, p, hp⟩
    have hne := h.ne_of_unused hp hb
    rw [← hbuf]
    exact Function.update_of_ne hne ..
  · intro p c k hp
    rcases h.waits p c k hp with ⟨howner, r, hr, hrb, hdone⟩
    refine ⟨howner, r, hr, hrb, ?_⟩
    have hne := h.ne_of_unused hp hb
    intro hk
    rw [← hdone hk]
    exact Function.update_of_ne hne ..
  · exact h.serves.congr rfl rfl rfl rfl

theorem wake_request (b : Bslot) (pc : Pc) :
    (pc.wake b).request = pc.request := by
  cases pc with
  | asleep c k =>
      show Pc.request (if c = b then .woken c k else .asleep c k) = _
      split
      · rfl
      · rfl
  | _ => rfl

theorem Inv.goto (h : Inv d s) {p : ι} {pc : Pc} (o : Option ι)
    (hpc : pc.request = (s.pc p).request)
    (hasleep : forall b k, pc = .asleep b k -> s.completed ≤ k) :
    Inv d { s with idelock := o, pc := Function.update s.pc p pc } := by
  have hrequest : forall q,
      (Function.update s.pc p pc q).request = (s.pc q).request := by
    intro q
    rcases eq_or_ne q p with rfl | hne
    · rw [Function.update_self]
      exact hpc
    · rw [Function.update_of_ne hne]
  refine { h with queued := ?_, waits := ?_, asleep := ?_, serves := ?_ }
  · intro k r hk hr
    rcases h.queued k r hk hr with ⟨hbuf, q, hq⟩
    exact ⟨hbuf, q, (hrequest q).trans hq⟩
  · exact fun q b k hq => h.waits q b k ((hrequest q).symm.trans hq)
  · intro q b k hq
    rcases eq_or_ne q p with rfl | hne
    · exact hasleep b k ((Function.update_self ..).symm.trans hq)
    · exact h.asleep q b k ((Function.update_of_ne hne ..).symm.trans hq)
  · exact h.serves.congr rfl rfl rfl rfl

omit [DecidableEq ι] in
theorem Inv.synced_iff (h : Inv d s) {p : ι} {b : Bslot} {k : Nat}
    (hp : (s.pc p).request = some (b, k)) :
    (s.buf b).synced = true ↔ k < s.completed := by
  rcases h.waits p b k hp with ⟨_, r, hr, rfl, hdone⟩
  constructor
  · intro hsynced
    rcases lt_or_ge k s.completed with hlt | hge
    · exact hlt
    · have hnot := (h.proper r (List.mem_of_getElem? hr)).1
      rw [(h.queued k r hge hr).1, hnot] at hsynced
      cases hsynced
  · intro hlt
    rw [hdone hlt]
    exact sync_synced _ _

theorem Inv.leave (h : Inv d s) {p : ι} {b : Bslot} {k : Nat}
    (hp : (s.pc p).request = some (b, k)) (hsynced : (s.buf b).synced = true) :
    Inv d { s with idelock := none, pc := Function.update s.pc p .out } := by
  have hlt := (h.synced_iff hp).mp hsynced
  refine { h with queued := ?_, waits := ?_, asleep := ?_, serves := ?_ }
  · intro j r hj hr
    rcases h.queued j r hj hr with ⟨hbuf, q, hq⟩
    have hne : q ≠ p := by
      rintro rfl
      have hsame := Option.some.inj (hq.symm.trans hp)
      have hjk : j = k := congrArg Prod.snd hsame
      lia
    refine ⟨hbuf, q, ?_⟩
    rw [← hq]
    exact congrArg Pc.request (Function.update_of_ne hne ..)
  · intro q c j hq
    rcases eq_or_ne q p with rfl | hne
    · rw [show State.pc _ q = Pc.out from Function.update_self ..] at hq
      cases hq
    · rw [show State.pc _ q = s.pc q from Function.update_of_ne hne ..] at hq
      exact h.waits q c j hq
  · intro q c j hq
    rcases eq_or_ne q p with rfl | hne
    · rw [show State.pc _ q = Pc.out from Function.update_self ..] at hq
      cases hq
    · rw [show State.pc _ q = s.pc q from Function.update_of_ne hne ..] at hq
      exact h.asleep q c j hq
  · exact h.serves.congr rfl rfl rfl rfl

theorem Inv.step (h : Inv d s) (p : ι) : Inv d (s.step p) := by
  unfold State.step
  split
  next b k hpc =>
    have hp : (s.pc p).request = some (b, k) := by rw [hpc]; rfl
    split
    case isTrue hsynced => exact h.leave hp hsynced
    case isFalse hnot =>
      refine h.goto none hp.symm ?_
      intro c j hcj
      cases hcj
      rw [h.synced_iff hp] at hnot
      exact Nat.le_of_not_lt hnot
  next b k hpc =>
    split
    · refine h.goto (some p) ?_ nofun
      rw [hpc]
      rfl
    · exact h
  · exact h

omit [DecidableEq ι] in
theorem execute_command {b : Buf} (h : s.device = .busy b.command) :
    s.execute =
      { s with
        disk := (Memide.sync b s.disk).2
        device := .ready (b.answer s.disk) } := by
  unfold State.execute Memide.sync Buf.answer
  rw [h]
  unfold Buf.command
  cases b.dirty with
  | true | false => rfl

omit [DecidableEq ι] in
theorem Inv.execute (h : Inv d s) : Inv d s.execute := by
  cases h.serves with
  | idle _ hdevice _ | ready _ _ hdevice _ =>
      unfold State.execute
      rw [hdevice]
      exact h
  | busy r hfirst hdevice hdisk =>
      rw [execute_command hdevice, hdisk]
      exact { h with serves := Serves.ready r hfirst rfl rfl }

omit [DecidableEq ι] in
theorem Inv.finish (h : Inv d s) {r : Request}
    (hfirst : s.requests[s.completed]? = some r)
    (hdisk : s.disk = (Memide.sync r.buf (s.done d)).2) (next : Device)
    (hnext : s.requests[s.completed + 1]? = none ∧ next = .idle ∨
      exists r', s.requests[s.completed + 1]? = some r' ∧
        next = .busy r'.buf.command) :
    Inv d
      { s with
        idequeue := s.qnext r.b
        buf := Function.update s.buf r.b (Memide.sync r.buf (s.done d)).1
        pc := fun q => (s.pc q).wake r.b
        device := next
        completed := s.completed + 1 } := by
  have hqueue := queue_cons hfirst
  have hlt := (List.getElem?_eq_some_iff.mp hfirst).1
  have hnodup := h.nodup
  rw [hqueue, List.nodup_cons] at hnodup
  rcases (h.queued s.completed r le_rfl hfirst).2 with ⟨p, hp⟩
  -- the other requests in the queue are for other buffers
  have hother : forall k r', s.completed + 1 ≤ k ->
      s.requests[k]? = some r' -> r'.b ≠ r.b := by
    intro k r' hk hr' heq
    apply hnodup.1
    rw [List.mem_map]
    refine ⟨r', List.mem_iff_getElem?.mpr ⟨k - (s.completed + 1), ?_⟩, heq⟩
    rw [List.getElem?_drop, Nat.add_sub_cancel' hk]
    exact hr'
  -- and so are those that are done, whose processes have not returned
  have hcall : forall q k, (s.pc q).request = some (r.b, k) ->
      k = s.completed := by
    intro q k hq
    have hqp : q = p := Option.some.inj
      ((h.waits q r.b k hq).1.symm.trans (h.waits p r.b _ hp).1)
    subst hqp
    exact congrArg Prod.snd (Option.some.inj (hq.symm.trans hp))
  have hdone : memDisk d (s.requests.take (s.completed + 1)) =
      (Memide.sync r.buf (s.done d)).2 :=
    memDisk_take_succ d hfirst
  refine ⟨?_, hnodup.2, hlt, h.proper, ?_, ?_, ?_, ?_, h.havedisk1, h.panic⟩
  · have hlinked := h.linked
    rw [h.head hfirst, hqueue] at hlinked
    cases hlinked with
    | cons hrest => exact hrest
  · intro k r' hk hr'
    rcases h.queued k r' (Nat.le_of_succ_le hk) hr' with ⟨hbuf, q, hq⟩
    refine ⟨?_, q, ?_⟩
    · rw [← hbuf]
      exact Function.update_of_ne (hother k r' hk hr') ..
    · rw [← hq]
      exact wake_request r.b (s.pc q)
  · intro q b k hq
    rw [show Pc.request _ = _ from wake_request r.b (s.pc q)] at hq
    rcases h.waits q b k hq with ⟨howner, r', hr', rfl, hbefore⟩
    refine ⟨howner, r', hr', rfl, ?_⟩
    intro hk
    rcases eq_or_ne r'.b r.b with heq | hne
    · have hkc := hcall q k (heq ▸ hq)
      subst hkc
      cases Option.some.inj (hr'.symm.trans hfirst)
      exact Function.update_self ..
    · have hkc : k ≠ s.completed := by
        rintro rfl
        cases Option.some.inj (hr'.symm.trans hfirst)
        exact hne rfl
      rw [← hbefore (by lia)]
      exact Function.update_of_ne hne ..
  · intro q b k hq
    have hq : (s.pc q).wake r.b = .asleep b k := hq
    cases hpc : s.pc q with
    | asleep c j =>
        rw [hpc] at hq
        have hif : (if c = r.b then Pc.woken c j else Pc.asleep c j) =
            .asleep b k := hq
        split at hif
        · cases hif
        case isFalse hne =>
          cases hif
          have hle := h.asleep q b k hpc
          have hkc : k ≠ s.completed := by
            rintro rfl
            rcases h.waits q b s.completed (by rw [hpc]; rfl) with
              ⟨_, r', hr', rfl, _⟩
            cases Option.some.inj (hr'.symm.trans hfirst)
            exact hne rfl
          show s.completed + 1 ≤ k
          lia
    | _ =>
        rw [hpc] at hq
        cases hq
  · rcases hnext with ⟨hnone, rfl⟩ | ⟨r', hr', rfl⟩
    · exact Serves.idle hnone rfl (hdisk.trans hdone.symm)
    · exact Serves.busy r' hr' rfl (hdisk.trans hdone.symm)

omit [DecidableEq ι] in
theorem idestart_eq {b : Bslot} {buf : Buf} (hbuf : s.buf b = buf)
    (hblock : buf.blockno.toNat < FSSIZE) :
    s.idestart b = { s with device := .busy buf.command } := by
  subst hbuf
  exact if_neg (Nat.not_le.mpr hblock)

omit [DecidableEq ι] in
theorem Inv.intr (h : Inv d s) {data : Option Block}
    (hdevice : s.device = .ready data) : Inv d (s.ideintr data) := by
  cases h.serves with
  | idle _ hdev _ | busy r _ hdev _ =>
      rw [hdevice] at hdev
      cases hdev
  | ready r hfirst hdev hdisk =>
      rw [hdevice] at hdev
      cases hdev
      have hhead := h.head hfirst
      have hsame := (h.queued s.completed r le_rfl hfirst).1
      -- the pointer of the head says whether there is a next request
      have hlinked := h.linked
      rw [hhead, queue_cons hfirst] at hlinked
      cases hlinked with
      | cons hrest =>
          have hfinished : State.finished (s.buf r.b)
              (r.buf.answer (s.done d)) =
                (Memide.sync r.buf (s.done d)).1 := by
            rw [hsame]
            exact finished_answer r.buf (s.done d)
          unfold State.ideintr
          rw [hhead]
          dsimp only
          rw [hfinished]
          cases hnext : s.qnext r.b with
          | none =>
              rw [hnext] at hrest
              have hnone : s.requests[s.completed + 1]? = none := by
                have hnil := List.map_eq_nil_iff.mp
                  (Linked.nil_iff.mp hrest)
                exact List.getElem?_eq_none_iff.mpr
                  (List.drop_eq_nil_iff.mp hnil)
              have hinv := h.finish hfirst hdisk .idle (Or.inl ⟨hnone, rfl⟩)
              rw [hnext] at hinv
              exact hinv
          | some c =>
              rw [hnext] at hrest
              rcases Linked.some_iff.mp hrest with ⟨l, hl, _⟩
              rcases List.map_eq_cons_iff.mp hl with ⟨r', rs, hdrop, rfl, _⟩
              have hr' : s.requests[s.completed + 1]? = some r' := by
                have hzero := congrArg (fun l => l[0]?) hdrop
                rw [List.getElem?_drop, Nat.add_zero] at hzero
                exact hzero
              have hne : r'.b ≠ r.b := by
                have hnodup := h.nodup
                rw [queue_cons hfirst, List.nodup_cons, hl] at hnodup
                intro heq
                exact hnodup.1 (by rw [heq]; exact List.mem_cons_self)
              have hbuf : Function.update s.buf r.b
                  (Memide.sync r.buf (s.done d)).1 r'.b = r'.buf :=
                (Function.update_of_ne hne ..).trans
                  (h.queued _ r' (Nat.le_succ _) hr').1
              have hinv := h.finish hfirst hdisk (.busy r'.buf.command)
                (Or.inr ⟨r', hr', rfl⟩)
              rw [hnext] at hinv
              have hblock :=
                (h.proper r' (List.mem_of_getElem? hr')).2.2
              refine Eq.mpr (congrArg (Inv d) (idestart_eq ?_ hblock)) hinv
              exact hbuf

omit [DecidableEq ι] in
theorem append_linked {l : List Bslot} {b : Bslot}
    (h : Linked s.qnext s.idequeue l) (hnodup : l.Nodup) (hb : b ∉ l) :
    exists qnext idequeue,
      s.append b = { s with qnext := qnext, idequeue := idequeue } ∧
        Linked qnext idequeue (l ++ [b]) ∧ (idequeue = some b ↔ l = []) := by
  have hnone : Function.update s.qnext b none b = none :=
    Function.update_self ..
  have hlinked := h.update_of_not_mem hb none
  unfold State.append
  cases hhead : s.idequeue with
  | none =>
      rw [hhead] at h
      rw [Linked.nil_iff.mp h]
      refine ⟨_, _, rfl, ?_, by simp⟩
      apply Linked.cons
      rw [hnone]
      exact Linked.nil
  | some c =>
      rw [hhead] at hlinked
      rcases Linked.some_iff.mp hlinked with ⟨l', hl, _⟩
      have hne : l ≠ [] := by
        rw [hl]
        exact List.cons_ne_nil c l'
      rcases (List.eq_nil_or_concat l).resolve_left hne with
        ⟨init, last, hconcat⟩
      rw [List.concat_eq_append] at hconcat
      have hlength : l.length ≤ NBUF + 1 :=
        Nat.le_succ_of_le (by simpa using hnodup.length_le_card)
      have hlast : lastFrom (Function.update s.qnext b none) NBUF c =
          some last := by
        rw [Linked.lastFrom_eq hlinked hlength, hconcat,
          List.getLast?_concat]
      dsimp only
      rw [hlast]
      refine ⟨_, _, rfl, ?_, ?_⟩
      · rw [hconcat] at hlinked hnodup hb ⊢
        rw [List.append_assoc]
        exact hlinked.append hnodup hb hnone
      · constructor
        · intro heq
          cases heq
          exact absurd (by rw [hl]; exact List.mem_cons_self) hb
        · exact fun hnil => absurd hnil hne

omit [DecidableEq ι] in
theorem enqueued_queue {r : Request} {requests : List Request} {n : Nat}
    (h : n ≤ requests.length) :
    ((requests ++ [r]).drop n).map Request.b =
      (requests.drop n).map Request.b ++ [r.b] := by
  rw [List.drop_append_of_le_length h, List.map_append]
  rfl

/-- The state in which `iderw` has queued its buffer. -/
def State.enqueued (s : State ι) (p : ι) (b : Bslot)
    (qnext : Bslot -> Option Bslot) (idequeue : Option Bslot)
    (device : Device) : State ι :=
  { s with
    qnext := qnext
    idequeue := idequeue
    device := device
    idelock := some p
    pc := Function.update s.pc p (.loop b s.requests.length)
    requests := s.requests ++ [⟨b, s.buf b⟩] }

section Enqueue

variable {p : ι} {b : Bslot} {qnext : Bslot -> Option Bslot}
  {idequeue : Option Bslot} {device : Device}

/-- The disk is started if the queue was empty. -/
theorem Inv.iderw_eq (h : Inv d s) (howner : s.owner b = some p)
    (hsynced : (s.buf b).synced = false)
    (hblock : (s.buf b).blockno.toNat < FSSIZE)
    (hidle : s.idelock = none) (hb : b ∉ s.queue) :
    exists qnext idequeue device,
      s.iderw p b = s.enqueued p b qnext idequeue device ∧
        Linked qnext idequeue (s.queue ++ [b]) ∧
        (s.queue = [] ∧ device = .busy (s.buf b).command ∨
          s.queue ≠ [] ∧ device = s.device) := by
  rcases append_linked h.linked h.nodup hb with
    ⟨qnext, idequeue, happend, hlinked, hfirst⟩
  unfold State.iderw
  rw [if_neg (not_not.mpr howner), if_neg (by rw [hsynced]; decide),
    if_neg (by rw [h.havedisk1]; simp), if_pos hidle, happend]
  dsimp only
  rcases eq_or_ne s.queue [] with hnil | hne
  · refine ⟨qnext, idequeue, _, ?_, hlinked, Or.inl ⟨hnil, rfl⟩⟩
    rw [if_pos (hfirst.mpr hnil)]
    have hstarted := idestart_eq (b := b)
      (s := { s with qnext := qnext, idequeue := idequeue }) rfl hblock
    rw [hstarted]
    rfl
  · refine ⟨qnext, idequeue, _, ?_, hlinked, Or.inr ⟨hne, rfl⟩⟩
    rw [if_neg (fun heq => hne (hfirst.mp heq))]
    rfl

theorem enqueued_last {k : Nat} (h : k = s.requests.length) :
    (s.enqueued p b qnext idequeue device).requests[k]? =
      some ⟨b, s.buf b⟩ := by
  rw [h]
  exact List.getElem?_concat_length

theorem enqueued_old {k : Nat} {r : Request} (h : s.requests[k]? = some r) :
    (s.enqueued p b qnext idequeue device).requests[k]? = some r :=
  (List.getElem?_append_left (List.getElem?_eq_some_iff.mp h).1).trans h

theorem enqueued_take {k : Nat} (h : k ≤ s.requests.length) :
    (s.enqueued p b qnext idequeue device).requests.take k =
      s.requests.take k :=
  List.take_append_of_le_length h

theorem Inv.enqueued_serves (h : Inv d s)
    (hdevice : s.queue = [] ∧ device = .busy (s.buf b).command ∨
      s.queue ≠ [] ∧ device = s.device) :
    Serves d (s.enqueued p b qnext idequeue device) := by
  have hdone : (s.enqueued p b qnext idequeue device).done d = s.done d :=
    congrArg (memDisk d) (enqueued_take h.completed)
  rcases hdevice with ⟨hnil, rfl⟩ | ⟨hne, rfl⟩
  · have hlength : s.completed = s.requests.length :=
      le_antisymm h.completed
        (List.drop_eq_nil_iff.mp (List.map_eq_nil_iff.mp hnil))
    cases h.serves with
    | idle _ _ hdisk =>
        exact Serves.busy ⟨b, s.buf b⟩ (enqueued_last hlength) rfl
          (hdisk.trans hdone.symm)
    | busy r hr _ _ | ready r hr _ _ =>
        rw [queue_cons hr] at hnil
        cases hnil
  · cases h.serves with
    | idle hnone _ _ => exact absurd (queue_nil hnone) hne
    | busy r hr hdev hdisk =>
        exact Serves.busy r (enqueued_old hr) hdev (hdisk.trans hdone.symm)
    | ready r hr hdev hdisk =>
        rw [← hdone] at hdev hdisk
        exact Serves.ready r (enqueued_old hr) hdev hdisk

theorem Inv.enqueue (h : Inv d s) (hout : s.pc p = .out)
    (howner : s.owner b = some p) (hsynced : (s.buf b).synced = false)
    (hdev : (s.buf b).dev = 1) (hblock : (s.buf b).blockno.toNat < FSSIZE)
    (hidle : s.idelock = none) : Inv d (s.iderw p b) := by
  have hunused : s.unused b = true := by
    unfold State.unused
    rw [howner]
    dsimp only
    rw [hout]
  have hb := h.not_queued hunused
  rcases h.iderw_eq howner hsynced hblock hidle hb with
    ⟨qnext, idequeue, device, heq, hlinked, hdevice⟩
  rw [heq]
  have hqueue : (s.enqueued p b qnext idequeue device).queue =
      s.queue ++ [b] := enqueued_queue h.completed
  have hself : (s.enqueued p b qnext idequeue device).pc p =
      .loop b s.requests.length := Function.update_self ..
  have hother : forall q, q ≠ p ->
      (s.enqueued p b qnext idequeue device).pc q = s.pc q :=
    fun q hq => Function.update_of_ne hq ..
  refine ⟨?_, ?_, ?_, ?_, ?_, ?_, ?_, h.enqueued_serves hdevice,
    h.havedisk1, h.panic⟩
  · rw [hqueue]
    exact hlinked
  · rw [hqueue]
    exact List.nodup_append_comm.mp (List.nodup_cons.mpr ⟨hb, h.nodup⟩)
  · exact le_trans h.completed (by simp [State.enqueued])
  · intro r hr
    rcases List.mem_append.mp hr with hr | hr
    · exact h.proper r hr
    · rw [List.mem_singleton.mp hr]
      exact ⟨hsynced, hdev, hblock⟩
  · intro k r hk hr
    rcases lt_or_ge k s.requests.length with hlt | hge
    · have hr : s.requests[k]? = some r :=
        (List.getElem?_append_left hlt).symm.trans hr
      rcases h.queued k r hk hr with ⟨hbuf, q, hq⟩
      refine ⟨hbuf, q, ?_⟩
      have hqp : q ≠ p := by
        rintro rfl
        rw [hout] at hq
        cases hq
      rw [hother q hqp]
      exact hq
    · have hkl : k = s.requests.length := by
        have hlt := (List.getElem?_eq_some_iff.mp hr).1
        rw [State.enqueued, List.length_append, List.length_singleton] at hlt
        lia
      subst hkl
      cases Option.some.inj (hr.symm.trans (enqueued_last rfl))
      refine ⟨rfl, p, ?_⟩
      rw [hself]
      rfl
  · intro q c k hq
    rcases eq_or_ne q p with rfl | hqp
    · rw [hself] at hq
      cases hq
      refine ⟨howner, _, enqueued_last rfl, rfl, ?_⟩
      intro hk
      exact absurd h.completed (Nat.not_le.mpr hk)
    · rw [hother q hqp] at hq
      rcases h.waits q c k hq with ⟨hc, r, hr, hrc, hdone⟩
      refine ⟨hc, r, enqueued_old hr, hrc, ?_⟩
      intro hk
      rw [enqueued_take (List.getElem?_eq_some_iff.mp hr).1.le]
      exact hdone hk
  · intro q c k hq
    rcases eq_or_ne q p with rfl | hqp
    · rw [hself] at hq
      cases hq
    · rw [hother q hqp] at hq
      exact h.asleep q c k hq

end Enqueue

theorem Inv.act (h : Inv d s) {a : Act ι} (hC : Proper s a) :
    Inv d (s.act a) := by
  cases a with
  | lock p b =>
      unfold State.act
      dsimp only
      split
      next hfree =>
        refine h.owner ?_
        unfold State.unused
        rw [hfree]
      · exact h
  | unlock p b =>
      unfold State.act
      dsimp only
      split
      next hout =>
        split
        case isTrue howner =>
          refine h.owner ?_
          unfold State.unused
          rw [howner]
          dsimp only
          rw [hout]
        case isFalse => exact h
      · exact h
  | change b buf =>
      unfold State.act
      dsimp only
      split
      case isTrue hunused => exact h.change buf hunused
      case isFalse => exact h
  | iderw p b =>
      rcases hC with ⟨howner, hdev, hblock⟩
      unfold State.act
      dsimp only
      split
      next hout =>
        cases hsynced : (s.buf b).synced with
        | false =>
            rcases eq_or_ne s.idelock none with hidle | hheld
            · exact h.enqueue hout howner hsynced hdev hblock hidle
            · unfold State.iderw
              rw [if_neg (not_not.mpr howner),
                if_neg (by rw [hsynced]; decide),
                if_neg (by rw [h.havedisk1]; simp), if_neg hheld]
              exact h
        | true =>
            unfold State.iderw
            rw [if_neg (not_not.mpr howner), if_pos hsynced]
            exact { h with
              serves := h.serves.congr rfl rfl rfl rfl
              panic := Or.inr rfl }
      · exact h
  | step p => exact h.step p
  | disk => exact h.execute
  | intr =>
      unfold State.act
      dsimp only
      split
      next data hdevice =>
        split
        · exact h.intr hdevice
        · exact h
      · exact h

theorem next_inv (h : Inv d s) {a : Act ι} (hC : Proper s a) :
    Inv d (next a s) := by
  unfold next
  split
  · exact h.act hC
  · exact h

end Steps

end Ide
end Xv6
