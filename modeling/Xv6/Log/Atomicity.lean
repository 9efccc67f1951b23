import Xv6.Log.Code

/-!
# Crash atomicity of the log

A commit writes the log blocks, then the header, then the home blocks, then
an empty header.  The disk is described by two predicates: `Clean`, where the
on-disk header is empty and the home area holds a given world, and `Committed`,
where the header and the log blocks determine that world even though the home
area may be partly installed.  Every block write of `commit` and of
`recover_from_log` keeps the disk inside their union.
-/

namespace Xv6

open Lib Lib.Crash

/-!
## Copy loops
-/

namespace Bio

theorem bread_boot (d : Nat -> Block) : (boot d).bread = d := rfl

theorem bread_bwrite (io : Bio) (b : Nat) (v : Block) :
    (io.bwrite b v).bread = Function.update io.bread b v := by
  funext c
  by_cases h : c = b
  · subst h
    simp [bread, bwrite]
  · simp [bread, bwrite, h]

/-- The writes a copy loop issues when no destination is a later source. -/
def copies (io : Bio) (n : Nat) (src dst : Nat -> Nat) : List (Nat × Block) :=
  (List.range n).map (fun tail => (dst tail, io.bread (src tail)))

theorem copies_dst (io : Bio) (n : Nat) (src dst : Nat -> Nat) :
    (io.copies n src dst).map Prod.fst = (List.range n).map dst := by
  simp [copies]

theorem copyBlocks_spec (io : Bio) {n : Nat} {src dst : Nat -> Nat}
    (hsep : forall i j, i < n -> j < n -> dst i ≠ src j) :
    (io.copyBlocks n src dst).trace = io.trace ++ io.copies n src dst ∧
      (io.copyBlocks n src dst).disk =
        replay io.disk (io.copies n src dst) ∧
      (io.copyBlocks n src dst).bread =
        replay io.bread (io.copies n src dst) := by
  induction n with
  | zero => simp [copyBlocks, copies]
  | succ n ih =>
      have hsep' : forall i j, i < n -> j < n -> dst i ≠ src j :=
        fun i j hi hj => hsep i j (by lia) (by lia)
      obtain ⟨htrace, hdisk, hbread⟩ := ih hsep'
      have hstep : io.copyBlocks (n + 1) src dst =
          (io.copyBlocks n src dst).bwrite (dst n)
            ((io.copyBlocks n src dst).bread (src n)) := by
        simp [copyBlocks, List.range_succ]
      have hcopies : io.copies (n + 1) src dst =
          io.copies n src dst ++ [(dst n, io.bread (src n))] := by
        simp [copies, List.range_succ]
      -- The source of the last copy was not overwritten by the earlier ones.
      have hsrc : (io.copyBlocks n src dst).bread (src n) =
          io.bread (src n) := by
        rw [hbread]
        apply replay_of_not_mem
        rw [copies_dst]
        intro hmem
        rcases List.mem_map.mp hmem with ⟨i, hi, heq⟩
        exact hsep i n (Nat.lt_succ_of_lt (List.mem_range.mp hi)) (Nat.lt_succ_self n) heq
      rw [hstep, hcopies, hsrc]
      refine ⟨?_, ?_, ?_⟩
      · simp [bwrite, htrace]
      · simp [bwrite, hdisk, replay_append]
      · rw [bread_bwrite, hbread, replay_append]
        rfl

end Bio

/-!
## Header codec
-/

namespace Logheader

theorem storeLoop_u32 (lh : Logheader) (b : Block) {m : Nat}
    (hm : m ≤ LOGSIZE) :
    let b' := (List.range m).foldl
      (fun b i => b.setU32 (4 + 4 * i) (UInt32.ofNat (lh.blockAt i))) b
    b'.u32 0 = b.u32 0 ∧
      forall i, i < m -> b'.u32 (4 + 4 * i) = UInt32.ofNat (lh.blockAt i) := by
  induction m with
  | zero => simp
  | succ m ih =>
      obtain ⟨hzero, hentry⟩ := ih (by lia)
      simp only [List.range_succ, List.foldl_append, List.foldl_cons,
        List.foldl_nil]
      constructor
      · rw [Bytes.u32_setU32_of_disjoint _ _ (by lia), hzero]
      · intro i hi
        rcases Nat.lt_succ_iff_lt_or_eq.mp hi with hlt | rfl
        · rw [Bytes.u32_setU32_of_disjoint _ _ (by lia), hentry i hlt]
        · rw [Bytes.u32_setU32 _ _ (by lia)]

theorem headN_store (lh : Logheader) (b : Block)
    (h0 : 0 ≤ lh.n) (hn : lh.n ≤ LOGSIZE) : headN (lh.store b) = lh.n := by
  have hloop := storeLoop_u32 lh
    (b.setU32 0 (Int32.ofInt lh.n).toUInt32) (m := lh.n.toNat) (by lia)
  unfold headN store
  rw [hloop.1, Bytes.u32_setU32 b _ (by lia), Int32.toInt32_toUInt32]
  exact Int32.toInt_ofInt_of_le (by lia) (by lia)

theorem headBlock_store (lh : Logheader) (b : Block)
    (hn : lh.n ≤ LOGSIZE) {i : Nat} (hi : i < lh.n.toNat) :
    (headBlock (lh.store b) i).toNat = lh.blockAt i := by
  have hloop := storeLoop_u32 lh
    (b.setU32 0 (Int32.ofInt lh.n).toUInt32) (m := lh.n.toNat) (by lia)
  have hiLog : i < LOGSIZE := by lia
  unfold headBlock store
  rw [hloop.2 i hi]
  simp [blockAt, hiLog]

end Logheader

/-!
## Worlds
-/

namespace Log

open Logheader

/-- The blocks of the on-disk log: the header and the log blocks. -/
def LogArea (log : Log) (b : Nat) : Prop :=
  log.start ≤ b ∧ b < log.start + log.size

/-- The header of a transaction that may be committed: distinct home blocks
outside the log area, few enough for the header and for the log. -/
structure Committable (log : Log) : Prop where
  nonneg : 0 ≤ log.lh.n
  fits : log.lh.n ≤ LOGSIZE
  room : log.lh.n ≤ (log.size : Int) - 1
  distinct : log.homes.Nodup
  outside : forall b, b ∈ log.homes -> ¬ log.LogArea b

def SameHome (log : Log) (d w : Nat -> Block) : Prop :=
  forall b, ¬ log.LogArea b -> d b = w b

def installed (log : Log) (io : Bio) : Nat -> Block :=
  fun b => if b ∈ log.homes then io.bread b else io.disk b

/-- The on-disk header is empty and the home area holds `w`. -/
structure Clean (log : Log) (w d : Nat -> Block) : Prop where
  head : headN (d log.start) = 0
  home : log.SameHome d w

/-- The on-disk header and log blocks hold the transaction that leads to the
world `w`, and the home area is partly installed. -/
structure Committed (log : Log) (w d : Nat -> Block) : Prop where
  head : headN (d log.start) = log.lh.n
  block : forall i, i < log.lh.n.toNat ->
    (headBlock (d log.start) i).toNat = log.lh.blockAt i
  body : forall i, i < log.lh.n.toNat ->
    d (log.start + i + 1) = w (log.lh.blockAt i)
  rest : forall b, ¬ log.LogArea b -> b ∉ log.homes -> d b = w b

def Recoverable (log : Log) (w d : Nat -> Block) : Prop :=
  log.Clean w d ∨ log.Committed w d

theorem start_mem_logArea {log : Log} (h : log.Committable) :
    log.LogArea log.start := by
  have := h.nonneg
  have := h.room
  constructor <;> lia

theorem body_mem_logArea {log : Log} (h : log.Committable) {i : Nat}
    (hi : i < log.lh.n.toNat) : log.LogArea (log.start + i + 1) := by
  have := h.room
  constructor <;> lia

theorem blockAt_mem_homes {log : Log} {i : Nat} (hi : i < log.lh.n.toNat) :
    log.lh.blockAt i ∈ log.homes :=
  List.mem_map.mpr ⟨i, List.mem_range.mpr hi, rfl⟩

theorem blockAt_ne_of_logArea {log : Log} (h : log.Committable) {i b : Nat}
    (hi : i < log.lh.n.toNat) (hb : log.LogArea b) :
    log.lh.blockAt i ≠ b := by
  intro heq
  exact h.outside _ (blockAt_mem_homes hi) (heq ▸ hb)

/-!
## Single writes
-/

theorem clean_update_head {log : Log} (h : log.Committable)
    {w d : Nat -> Block} {hdr : Block} (hhdr : headN hdr = 0)
    (hhome : log.SameHome d w) :
    log.Clean w (Function.update d log.start hdr) := by
  constructor
  · rw [Function.update_self, hhdr]
  · intro b hb
    have hne : b ≠ log.start := by
      intro heq
      exact hb (heq ▸ start_mem_logArea h)
    rw [Function.update_of_ne hne]
    exact hhome b hb

theorem clean_update_body {log : Log} (h : log.Committable)
    {w d : Nat -> Block} {i : Nat} (hi : i < log.lh.n.toNat) (v : Block)
    (hclean : log.Clean w d) :
    log.Clean w (Function.update d (log.start + i + 1) v) := by
  constructor
  · rw [Function.update_of_ne (by lia)]
    exact hclean.head
  · intro b hb
    have hne : b ≠ log.start + i + 1 := by
      intro heq
      exact hb (heq ▸ body_mem_logArea h hi)
    rw [Function.update_of_ne hne]
    exact hclean.home b hb

theorem committed_update_home {log : Log} (h : log.Committable)
    {w d : Nat -> Block} {i : Nat} (hi : i < log.lh.n.toNat)
    (hcom : log.Committed w d) :
    log.Committed w
      (Function.update d (log.lh.blockAt i) (w (log.lh.blockAt i))) := by
  have hstart : log.start ≠ log.lh.blockAt i :=
    (blockAt_ne_of_logArea h hi (start_mem_logArea h)).symm
  constructor
  · rw [Function.update_of_ne hstart]
    exact hcom.head
  · intro j hj
    rw [Function.update_of_ne hstart]
    exact hcom.block j hj
  · intro j hj
    have hbody : log.start + j + 1 ≠ log.lh.blockAt i :=
      (blockAt_ne_of_logArea h hi (body_mem_logArea h hj)).symm
    rw [Function.update_of_ne hbody]
    exact hcom.body j hj
  · intro b hb hhome
    have hne : b ≠ log.lh.blockAt i := by
      intro heq
      exact hhome (heq ▸ blockAt_mem_homes hi)
    rw [Function.update_of_ne hne]
    exact hcom.rest b hb hhome

/-!
## Recovery
-/

/-- The writes that install the transaction leading to `w`. -/
def homeWrites (log : Log) (w : Nat -> Block) : List (Nat × Block) :=
  (List.range log.lh.n.toNat).map
    (fun i => (log.lh.blockAt i, w (log.lh.blockAt i)))

theorem homeWrites_fst (log : Log) (w : Nat -> Block) :
    (log.homeWrites w).map Prod.fst = log.homes := by
  simp [homeWrites, homes]

theorem keeps_committed_homeWrites {log : Log} (h : log.Committable)
    (w : Nat -> Block) : Keeps (log.Committed w) (log.homeWrites w) := by
  intro wr hwr d hd
  rcases List.mem_map.mp hwr with ⟨i, hi, rfl⟩
  exact committed_update_home h (List.mem_range.mp hi) hd

theorem sameHome_replay_homeWrites {log : Log} (h : log.Committable)
    {w d : Nat -> Block} (hcom : log.Committed w d) :
    log.SameHome (replay d (log.homeWrites w)) w := by
  intro b hb
  by_cases hhome : b ∈ log.homes
  · rcases List.mem_map.mp hhome with ⟨i, hi, rfl⟩
    have hmem : (log.lh.blockAt i, w (log.lh.blockAt i)) ∈ log.homeWrites w :=
      List.mem_map.mpr ⟨i, hi, rfl⟩
    have hnodup : ((log.homeWrites w).map Prod.fst).Nodup := by
      rw [homeWrites_fst]
      exact h.distinct
    exact replay_of_mem hnodup hmem
  · have hnot : b ∉ (log.homeWrites w).map Prod.fst := by
      rw [homeWrites_fst]
      exact hhome
    rw [replay_of_not_mem hnot]
    exact hcom.rest b hb hhome

/-- The writes of installing a committed transaction and clearing the header:
a crash among them leaves a recoverable disk, and all of them a clean one. -/
theorem install_recoverable {log : Log} (h : log.Committable)
    {w d : Nat -> Block} {hdr : Block} (hhdr : headN hdr = 0)
    (hcom : log.Committed w d) (k : Nat) :
    log.Recoverable w
      (replay d ((log.homeWrites w ++ [(log.start, hdr)]).take k)) := by
  have hkeeps := keeps_committed_homeWrites h w
  rcases take_append_cases (log.homeWrites w) [(log.start, hdr)] k with
    ⟨_, htake⟩ | ⟨hk, htake⟩
  · rw [htake]
    exact Or.inr ((hkeeps.take k).replay hcom)
  · have hone : [(log.start, hdr)].take (k - (log.homeWrites w).length) =
        [(log.start, hdr)] :=
      List.take_of_length_le (by simp; lia)
    rw [htake, hone, replay_append]
    exact Or.inl
      (clean_update_head h hhdr (sameHome_replay_homeWrites h hcom))

theorem install_clean {log : Log} (h : log.Committable)
    {w d : Nat -> Block} {hdr : Block} (hhdr : headN hdr = 0)
    (hcom : log.Committed w d) :
    log.Clean w (replay d (log.homeWrites w ++ [(log.start, hdr)])) := by
  rw [replay_append]
  exact clean_update_head h hhdr (sameHome_replay_homeWrites h hcom)

theorem headN_store_clear (log : Log) (b : Block) :
    headN (log.clear.lh.store b) = 0 :=
  headN_store log.clear.lh b (by simp [clear]) (by simp [clear])

theorem installTrans_spec {log log' : Log} (h : log.Committable)
    (hstart : log'.start = log.start) (hn : log'.lh.n = log.lh.n)
    (hblock : forall i, i < log.lh.n.toNat ->
      log'.lh.blockAt i = log.lh.blockAt i)
    {w : Nat -> Block} (io : Bio)
    (hbody : forall i, i < log.lh.n.toNat ->
      io.bread (log.start + i + 1) = w (log.lh.blockAt i)) :
    (log'.installTrans io).trace = io.trace ++ log.homeWrites w ∧
      (log'.installTrans io).disk = replay io.disk (log.homeWrites w) := by
  have hsep : forall i j, i < log.lh.n.toNat -> j < log.lh.n.toNat ->
      log'.lh.blockAt i ≠ log.start + j + 1 := by
    intro i j hi hj
    rw [hblock i hi]
    exact blockAt_ne_of_logArea h hi (body_mem_logArea h hj)
  have hspec := io.copyBlocks_spec hsep
  have hcopies : io.copies log.lh.n.toNat (fun tail => log.start + tail + 1)
      log'.lh.blockAt = log.homeWrites w := by
    unfold Bio.copies homeWrites
    apply List.map_congr_left
    intro i hi
    have hi' := List.mem_range.mp hi
    rw [hblock i hi', hbody i hi']
  unfold installTrans
  rw [hn, hstart]
  rw [hcopies] at hspec
  exact ⟨hspec.1, hspec.2.1⟩

theorem writeHead_trace (log : Log) (io : Bio) :
    (log.writeHead io).trace =
      io.trace ++ [(log.start, log.lh.store (io.bread log.start))] := rfl

theorem writeHead_disk (log : Log) (io : Bio) :
    (log.writeHead io).disk =
      Function.update io.disk log.start
        (log.lh.store (io.bread log.start)) := rfl

theorem installTrans_empty {log : Log} (h : log.lh.n = 0) (io : Bio) :
    log.installTrans io = io := by
  simp [installTrans, h, Bio.copyBlocks]

theorem blockAt_load (lh : Logheader) (hb : Block) {i : Nat}
    (hi : i < LOGSIZE) (hlt : (i : Int) < headN hb) :
    (lh.load hb).blockAt i = (headBlock hb i).toNat := by
  simp only [load, blockAt, hi, hlt, dif_pos, if_pos]

theorem readHead_boot (log : Log) (d : Nat -> Block) :
    log.readHead (Bio.boot d) =
      { log with lh := log.lh.load (d log.start) } := by
  rw [readHead, Bio.bread_boot]

theorem recoverFromLog_bio (log : Log) (io : Bio) :
    (log.recoverFromLog io).2 =
      (log.readHead io).clear.writeHead ((log.readHead io).installTrans io) :=
  rfl

theorem recoverFromLog_of_clean {log rl : Log} (h : log.Committable)
    {w d : Nat -> Block} (hstart : rl.start = log.start)
    (hn : rl.lh.n = 0) (hclean : log.Clean w d) :
    let io := rl.clear.writeHead (rl.installTrans (Bio.boot d))
    io.disk = replay d io.trace ∧ log.Clean w io.disk ∧
      forall k, log.Recoverable w (replay d (io.trace.take k)) := by
  intro io
  have hcs : rl.clear.start = log.start := hstart
  have hdisk : io.disk =
      Function.update d log.start (rl.clear.lh.store (d log.start)) := by
    show (rl.clear.writeHead (rl.installTrans (Bio.boot d))).disk = _
    rw [installTrans_empty hn, writeHead_disk, hcs, Bio.bread_boot]
    rfl
  have htrace : io.trace =
      [(log.start, rl.clear.lh.store (d log.start))] := by
    show (rl.clear.writeHead (rl.installTrans (Bio.boot d))).trace = _
    rw [installTrans_empty hn, writeHead_trace, hcs, Bio.bread_boot]
    rfl
  have hdone := clean_update_head h
    (headN_store_clear rl (d log.start)) hclean.home
  rw [hdisk, htrace]
  refine ⟨rfl, hdone, ?_⟩
  intro k
  cases k with
  | zero => exact Or.inl hclean
  | succ k =>
      rw [List.take_succ_cons, List.take_nil]
      exact Or.inl hdone

theorem recoverFromLog_of_committed {log rl : Log} (h : log.Committable)
    {w d : Nat -> Block} (hstart : rl.start = log.start)
    (hn : rl.lh.n = log.lh.n)
    (hblock : forall i, i < log.lh.n.toNat ->
      rl.lh.blockAt i = log.lh.blockAt i)
    (hcom : log.Committed w d) :
    let io := rl.clear.writeHead (rl.installTrans (Bio.boot d))
    io.disk = replay d io.trace ∧ log.Clean w io.disk ∧
      forall k, log.Recoverable w (replay d (io.trace.take k)) := by
  intro io
  have hcs : rl.clear.start = log.start := hstart
  obtain ⟨hitrace, hidisk⟩ := installTrans_spec h hstart hn hblock
    (Bio.boot d) hcom.body
  obtain ⟨hdr, hhdr, hdisk, htrace⟩ : exists hdr, headN hdr = 0 ∧
      io.disk = Function.update (replay d (log.homeWrites w)) log.start hdr ∧
      io.trace = log.homeWrites w ++ [(log.start, hdr)] := by
    refine ⟨_, headN_store_clear rl
      ((rl.installTrans (Bio.boot d)).bread log.start), ?_, ?_⟩
    · show (rl.clear.writeHead (rl.installTrans (Bio.boot d))).disk = _
      rw [writeHead_disk, hcs, hidisk]
      rfl
    · show (rl.clear.writeHead (rl.installTrans (Bio.boot d))).trace = _
      rw [writeHead_trace, hcs, hitrace]
      rfl
  have hdone := install_clean h hhdr hcom
  rw [replay_append, replay_cons, replay_nil] at hdone
  rw [hdisk, htrace]
  refine ⟨?_, hdone, fun k => install_recoverable h hhdr hcom k⟩
  rw [replay_append, replay_cons, replay_nil]

theorem recoverFromLog_writes {log : Log} (h : log.Committable)
    (lh : Logheader) {w d : Nat -> Block} (hd : log.Recoverable w d) :
    let io := (recoverFromLog { log with lh := lh } (Bio.boot d)).2
    io.disk = replay d io.trace ∧ log.Clean w io.disk ∧
      forall k, log.Recoverable w (replay d (io.trace.take k)) := by
  rw [recoverFromLog_bio, readHead_boot]
  rcases hd with hclean | hcom
  · exact recoverFromLog_of_clean h rfl hclean.head hclean
  · refine recoverFromLog_of_committed h rfl hcom.head ?_ hcom
    intro i hi
    have hfits := h.fits
    have hhead := hcom.head
    rw [← hcom.block i hi]
    exact blockAt_load lh (d log.start) (by lia) (by lia)

/-- Booting after a crash: `recover_from_log` runs, possibly cut by further
crashes at any of its block writes, until one run completes.  The in-memory
header a boot starts with is arbitrary. -/
inductive Recovered (log : Log) : (Nat -> Block) -> (Nat -> Block) -> Prop where
  | complete (lh : Logheader) (d : Nat -> Block) :
      Recovered log d (recoverFromLog { log with lh := lh } (Bio.boot d)).2.disk
  | cut (lh : Logheader) {d d' d'' : Nat -> Block} :
      CrashOf d (recoverFromLog { log with lh := lh } (Bio.boot d)).2.trace d' ->
      Recovered log d' d'' ->
      Recovered log d d''

theorem Recovered.clean {log : Log} (h : log.Committable)
    {w d d' : Nat -> Block} (hrec : log.Recovered d d')
    (hd : log.Recoverable w d) : log.Clean w d' := by
  induction hrec with
  | complete lh d => exact (recoverFromLog_writes h lh hd).2.1
  | cut lh hcrash _hrest ih =>
      apply ih
      rcases hcrash with ⟨k, _hk, rfl⟩
      exact (recoverFromLog_writes h lh hd).2.2 k

/-!
## Commit
-/

def bodyWrites (log : Log) (io : Bio) : List (Nat × Block) :=
  io.copies log.lh.n.toNat log.lh.blockAt (fun tail => log.start + tail + 1)

theorem bodyWrites_length (log : Log) (io : Bio) :
    (log.bodyWrites io).length = log.lh.n.toNat := by
  simp [bodyWrites, Bio.copies]

theorem bodyWrites_fst (log : Log) (io : Bio) :
    (log.bodyWrites io).map Prod.fst =
      (List.range log.lh.n.toNat).map (fun tail => log.start + tail + 1) :=
  io.copies_dst _ _ _

theorem keeps_clean_bodyWrites {log : Log} (h : log.Committable) (io : Bio)
    (w : Nat -> Block) : Keeps (log.Clean w) (log.bodyWrites io) := by
  intro wr hwr d hd
  rcases List.mem_map.mp hwr with ⟨i, hi, rfl⟩
  exact clean_update_body h (List.mem_range.mp hi) _ hd

theorem replay_bodyWrites_body {log : Log} (d : Nat -> Block) (io : Bio)
    {i : Nat} (hi : i < log.lh.n.toNat) :
    replay d (log.bodyWrites io) (log.start + i + 1) =
      log.installed io (log.lh.blockAt i) := by
  have hnodup : ((log.bodyWrites io).map Prod.fst).Nodup := by
    rw [bodyWrites_fst]
    refine (List.nodup_range).map ?_
    intro i j hij
    lia
  have hmem : (log.start + i + 1, io.bread (log.lh.blockAt i)) ∈
      log.bodyWrites io :=
    List.mem_map.mpr ⟨i, List.mem_range.mpr hi, rfl⟩
  have hhome := blockAt_mem_homes hi
  simpa [installed, hhome] using replay_of_mem (d := d) hnodup hmem

theorem committed_of_bodyWrites {log : Log} (h : log.Committable) (io : Bio)
    (b : Block) :
    log.Committed (log.installed io)
      (replay io.disk (log.bodyWrites io ++
        [(log.start, log.lh.store b)])) := by
  rw [replay_append]
  simp only [replay_cons, replay_nil]
  constructor
  · rw [Function.update_self, headN_store log.lh b h.nonneg h.fits]
  · intro i hi
    rw [Function.update_self, headBlock_store log.lh b h.fits hi]
  · intro i hi
    rw [Function.update_of_ne (by lia), replay_bodyWrites_body io.disk io hi]
  · intro c hc hhome
    have hne : c ≠ log.start := by
      intro heq
      exact hc (heq ▸ start_mem_logArea h)
    have hnot : c ∉ (log.bodyWrites io).map Prod.fst := by
      rw [bodyWrites_fst]
      intro hmem
      rcases List.mem_map.mp hmem with ⟨i, hi, rfl⟩
      exact hc (body_mem_logArea h (List.mem_range.mp hi))
    rw [Function.update_of_ne hne, replay_of_not_mem hnot]
    simp [installed, hhome]

theorem writeLog_spec {log : Log} (h : log.Committable) (io : Bio) :
    (log.writeLog io).trace = io.trace ++ log.bodyWrites io ∧
      (log.writeLog io).bread = replay io.bread (log.bodyWrites io) := by
  have hsep : forall i j, i < log.lh.n.toNat -> j < log.lh.n.toNat ->
      log.start + i + 1 ≠ log.lh.blockAt j := by
    intro i j hi hj
    exact (blockAt_ne_of_logArea h hj (body_mem_logArea h hi)).symm
  obtain ⟨htrace, _hdisk, hbread⟩ := io.copyBlocks_spec hsep
  exact ⟨htrace, hbread⟩

theorem commit_trace {log : Log} (h : log.Committable) (io : Bio)
    (hn : 0 < log.lh.n) :
    exists hdr, headN hdr = 0 ∧
      (log.commit io).2.trace = io.trace ++
        (log.bodyWrites io ++ [(log.start, log.lh.store (io.bread log.start))] ++
          (log.homeWrites (log.installed io) ++ [(log.start, hdr)])) := by
  obtain ⟨htrace, hbread⟩ := writeLog_spec h io
  have hstart : (log.writeLog io).bread log.start = io.bread log.start := by
    rw [hbread]
    apply replay_of_not_mem
    rw [bodyWrites_fst]
    intro hmem
    rcases List.mem_map.mp hmem with ⟨i, _hi, heq⟩
    lia
  have hbody : forall i, i < log.lh.n.toNat ->
      (log.writeHead (log.writeLog io)).bread (log.start + i + 1) =
        log.installed io (log.lh.blockAt i) := by
    intro i hi
    unfold writeHead
    rw [Bio.bread_bwrite, Function.update_of_ne (by lia), hbread,
      replay_bodyWrites_body io.bread io hi]
  have hinst := installTrans_spec h rfl rfl (fun _ _ => rfl)
    (log.writeHead (log.writeLog io)) hbody
  refine ⟨_, headN_store_clear log ((log.installTrans
    (log.writeHead (log.writeLog io))).bread log.start), ?_⟩
  simp only [commit, hn, if_true]
  rw [writeHead_trace, hinst.1, writeHead_trace, hstart, htrace]
  simp only [List.append_assoc]
  rfl

/-- The disk after the first `k` block writes of a commit. -/
def crashDisk (log : Log) (disk : Nat -> Block) (buf : Nat -> Option Block)
    (k : Nat) : Nat -> Block :=
  replay disk ((log.commit ⟨disk, buf, []⟩).2.trace.take k)

theorem crashDisk_clean {log : Log} (h : log.Committable)
    {disk : Nat -> Block} (buf : Nat -> Option Block)
    (hhead : headN (disk log.start) = 0) {k : Nat}
    (hk : k ≤ log.lh.n.toNat) :
    log.Clean disk (log.crashDisk disk buf k) := by
  have hclean : log.Clean disk disk := ⟨hhead, fun _ _ => rfl⟩
  by_cases hn : 0 < log.lh.n
  · obtain ⟨hdr, _hhdr, htrace⟩ := commit_trace h ⟨disk, buf, []⟩ hn
    have hlen := log.bodyWrites_length ⟨disk, buf, []⟩
    unfold crashDisk
    rw [htrace, List.nil_append, List.append_assoc,
      List.take_append_of_le_length (by lia)]
    exact ((keeps_clean_bodyWrites h _ disk).take k).replay hclean
  · have hzero : k = 0 := by lia
    subst hzero
    exact hclean

theorem crashDisk_recoverable {log : Log} (h : log.Committable)
    (disk : Nat -> Block) (buf : Nat -> Option Block)
    (hhead : headN (disk log.start) = 0) {k : Nat}
    (hk : log.lh.n.toNat < k) :
    log.Recoverable (log.installed ⟨disk, buf, []⟩)
      (log.crashDisk disk buf k) := by
  by_cases hn : 0 < log.lh.n
  · obtain ⟨hdr, hhdr, htrace⟩ := commit_trace h ⟨disk, buf, []⟩ hn
    have hlen := log.bodyWrites_length ⟨disk, buf, []⟩
    have hcom := committed_of_bodyWrites h ⟨disk, buf, []⟩
      ((⟨disk, buf, []⟩ : Bio).bread log.start)
    unfold crashDisk
    rw [htrace, List.nil_append, List.take_append,
      List.take_of_length_le (by simp; lia), replay_append]
    exact install_recoverable h hhdr hcom _
  · -- An empty transaction issues no write and installs nothing.
    have hzero : log.lh.n.toNat = 0 := by lia
    have hcommit : (log.commit ⟨disk, buf, []⟩).2 = ⟨disk, buf, []⟩ := by
      simp only [commit, hn, if_false]
    have hinst : log.installed ⟨disk, buf, []⟩ = disk := by
      funext b
      simp [installed, homes, hzero]
    unfold crashDisk
    rw [hcommit, hinst, List.take_nil, replay_nil]
    exact Or.inl ⟨hhead, fun _ _ => rfl⟩

/-- Crash atomicity.  A commit is cut after its first `k` block writes and any
number of recoveries follow, each possibly cut as well, the last one complete.
The home area then holds the old world or the new one, the new one as soon as
the first header write was among the `k` writes, and the on-disk header is
empty again. -/
theorem commit_crash_atomic {log : Log} (h : log.Committable)
    (disk : Nat -> Block) (buf : Nat -> Option Block)
    (hhead : headN (disk log.start) = 0) (k : Nat) {d' : Nat -> Block}
    (hrec : log.Recovered (log.crashDisk disk buf k) d') :
    (log.SameHome d' disk ∨
        log.SameHome d' (log.installed ⟨disk, buf, []⟩)) ∧
      (log.lh.n.toNat < k ->
        log.SameHome d' (log.installed ⟨disk, buf, []⟩)) ∧
      headN (d' log.start) = 0 := by
  rcases Nat.lt_or_ge log.lh.n.toNat k with hlt | hle
  · have hclean := hrec.clean h (crashDisk_recoverable h disk buf hhead hlt)
    exact ⟨Or.inr hclean.home, fun _ => hclean.home, hclean.head⟩
  · have hclean := hrec.clean h (Or.inl (crashDisk_clean h buf hhead hle))
    exact ⟨Or.inl hclean.home, fun hlt => absurd hlt (by lia), hclean.head⟩

/-- A transaction of the blocks 100, 101 and 102 in the log that `mkfs` lays
out. -/
def threeBlockLog : Log where
  start := 2
  size := 30
  outstanding := 0
  committing := true
  lh := { n := 3, block := fun i => UInt32.ofNat (100 + i.val) }

theorem threeBlockLog_committable : threeBlockLog.Committable where
  nonneg := by decide
  fits := by decide
  room := by decide
  distinct := by decide
  outside := by
    have hhigh : forall b, b ∈ threeBlockLog.homes -> 2 + 30 ≤ b := by decide
    exact fun b hb harea => Nat.not_lt.mpr (hhigh b hb) harea.2

/-- A blank disk whose cache holds new contents: the commit is cut after the
header write, the first recovery after two of its writes, and the second one
installs the blocks. -/
theorem commit_crash_atomic_threeBlocks :
    let buf : Nat -> Option Block := fun b => some (fun _ => UInt8.ofNat b)
    let d := threeBlockLog.crashDisk (fun _ _ => 0) buf 4
    let d₁ := replay d
      ((threeBlockLog.recoverFromLog (Bio.boot d)).2.trace.take 2)
    let d' := (threeBlockLog.recoverFromLog (Bio.boot d₁)).2.disk
    threeBlockLog.lh.n.toNat < 4 ∧
      threeBlockLog.SameHome d'
        (threeBlockLog.installed ⟨fun _ _ => 0, buf, []⟩) ∧
      headN (d' threeBlockLog.start) = 0 := by
  intro buf d d₁ d'
  have hhead : headN (fun _ => 0) = 0 := by decide
  have hcut : 2 ≤ (threeBlockLog.recoverFromLog (Bio.boot d)).2.trace.length := by
    decide +kernel
  have hres := commit_crash_atomic threeBlockLog_committable (fun _ _ => 0) buf
    hhead 4 (Recovered.cut threeBlockLog.lh ⟨2, hcut, rfl⟩
      (Recovered.complete threeBlockLog.lh d₁))
  exact ⟨by decide, hres.2.1 (by decide), hres.2.2⟩

end Log
end Xv6
