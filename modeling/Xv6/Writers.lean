import Xv6.Filewrite

/-!
# Writers that share an open file

Processes that share an open file through `fork` or `dup` share its offset.
`filewrite` stores a few blocks at a time, each under the lock of the inode, and
others may come between.  The offset is read and moved under that lock too, so
that each of the pieces goes to the end of the file.
-/

namespace Xv6
namespace Kernel

open Lib Lib.Run

/-- The regular file in slot `ip` holds `bytes`, and the offset of `f` is at its
end. -/
structure AtEnd (k : Kernel) (f : Fslot) (ip : Slot) (bytes : List UInt8) :
    Prop where
  slot : (k.file f).ip = ip
  only : k.fs.Only ip
  own : k.fs.Own
  type : (k.fs.dinode (k.fs.icache ip).inum).type = T_FILE
  content : (k.fs.dinode (k.fs.icache ip).inum).content k.fs.disk = bytes
  off : (k.file f).off.toNat = bytes.length

def piece (src : Nat -> UInt8) (n : Nat) : List UInt8 :=
  (List.range n).map src

section Piece

variable {k : Kernel} {f : Fslot} {ip : Slot} {bytes : List UInt8}

theorem content_length (di : Dinode) (d : Nat -> Block) :
    (di.content d).length = di.size.toNat := by
  simp [Dinode.content]

theorem AtEnd.openInode (h : k.AtEnd f ip bytes) : k.OpenInode f ip := by
  refine ⟨h.slot, h.only, h.own, ?_⟩
  rw [show (k.din ip).type = T_FILE from h.type]
  decide

theorem filewriteOp_at_end (h : k.AtEnd f ip bytes) (cur : Pslot)
    (src : Nat -> UInt8) {n : Nat} (hpos : 0 < n) (hn : n < 2 ^ 31) :
    wp (filewriteOp cur f ip src n)
      (fun r k' => r = (n : Int) -> k'.AtEnd f ip (bytes ++ piece src n))
      (fun _ => True) k := by
  have htype : (k.din ip).type = T_FILE := h.type
  have hcontent : k.contentOf ip = bytes := h.content
  have hfile : (k.din ip).type ≠ T_DEV := by
    rw [htype]
    decide
  apply wp_post (wp_filewriteOp h.openInode cur src hpos hn)
  intro r k' hend hr
  have haccepts : Fs.Accepts (k.din ip) (k.file f).off.toNat n := by
    apply by_contradiction
    intro hno
    have hrefused := (hend.refused hno).1
    lia
  refine ⟨hend.opened.slot, hend.opened.only, hend.opened.own,
    hend.type.trans htype, ?_, ?_⟩
  · have hpiece := hend.content hfile haccepts
    rw [hcontent, h.off] at hpiece
    refine hpiece.trans ?_
    unfold Fs.splice
    rw [List.take_length, List.drop_eq_nil_of_le (Nat.le_add_right _ _),
      List.append_nil]
    rfl
  · have hbig : MAXFILE * BSIZE < 2 ^ 32 := by decide
    have hmoved := (hend.taken haccepts).2
    unfold Fs.Accepts at haccepts
    rw [if_neg hfile] at haccepts
    rw [hmoved, UInt32.toNat_add, UInt32.toNat_ofNat_of_lt' (by lia),
      Nat.mod_eq_of_lt (by lia), h.off]
    simp [piece]

end Piece

/-!
## Many writers
-/

/-- A call of `filewrite` by `cur` that has written `i` of its `n` bytes. -/
structure WriteCall where
  cur : Pslot
  src : Nat -> UInt8
  n : Int32
  i : Nat

/-- The size of the next piece of a call. -/
def WriteCall.n1 (c : WriteCall) : Nat :=
  min (c.n.toInt.toNat - c.i) writeMax

def WriteCall.wrote (c : WriteCall) : WriteCall := { c with i := c.i + c.n1 }

/-- The kernel and the calls that were made so far.  `pieces` are the pieces
that were written, each with the number of its call, in the order in which the
inode was locked for them. -/
structure Writers where
  k : Kernel
  calls : List WriteCall
  pieces : List (Nat × List UInt8)

namespace Writers

def bytes (w : Writers) : List UInt8 := (w.pieces.map Prod.snd).flatten

def piecesOf (w : Writers) (c : Nat) : List (List UInt8) :=
  (w.pieces.filter (fun x => x.1 = c)).map Prod.snd

/-- A process enters `filewrite`, or the next piece of a call is written. -/
inductive Act where
  | enter (cur : Pslot) (src : Nat -> UInt8) (n : Int32)
  | piece (c : Nat)

/-- A step of the writers of the open file `f`; a piece is written if `writei`
returns what it was asked for. -/
inductive Step (f : Fslot) : Writers -> Act -> Writers -> Prop where
  | enter {w : Writers} (cur : Pslot) (src : Nat -> UInt8) (n : Int32) :
      Step f w (.enter cur src n)
        { w with calls := w.calls ++ [⟨cur, src, n, 0⟩] }
  | piece {w : Writers} {k' : Kernel} {c : Nat} {call : WriteCall}
      (hcall : w.calls[c]? = some call) (hmore : call.i < call.n.toInt.toNat)
      (hrun : filewriteOp call.cur f (w.k.file f).ip
        (fun j => call.src (call.i + j)) call.n1 w.k =
          .ok ((call.n1 : Int), k')) :
      Step f w (.piece c)
        { k := k'
          calls := w.calls.set c call.wrote
          pieces := w.pieces ++
            [(c, Kernel.piece (fun j => call.src (call.i + j)) call.n1)] }

/-- What was written is what the calls have written so far, each in its
order. -/
structure Ordered (w : Writers) (f : Fslot) (ip : Slot) : Prop where
  file : w.k.AtEnd f ip w.bytes
  known : forall x, x ∈ w.pieces -> x.1 < w.calls.length
  calls : forall c call, w.calls[c]? = some call ->
    (w.piecesOf c).flatten = Kernel.piece call.src call.i ∧
      call.i ≤ call.n.toInt.toNat
  total : w.bytes.length = (w.calls.map WriteCall.i).sum

end Writers

theorem piece_add (src : Nat -> UInt8) (m n : Nat) :
    piece src (m + n) = piece src m ++ piece (fun j => src (m + j)) n := by
  unfold piece
  rw [List.range_add, List.map_append, List.map_map]
  rfl

theorem piece_length (src : Nat -> UInt8) (n : Nat) :
    (piece src n).length = n := by
  simp [piece]

theorem sum_map_set {α : Type} {l : List α} {c : Nat} {x y : α} (g : α -> Nat)
    (h : l[c]? = some x) :
    ((l.set c y).map g).sum + g x = (l.map g).sum + g y := by
  induction l generalizing c with
  | nil => cases h
  | cons z rest ih =>
      cases c with
      | zero =>
          cases h
          simp only [List.set_cons_zero, List.map_cons, List.sum_cons]
          lia
      | succ c =>
          have hrest := ih h
          simp only [List.set_cons_succ, List.map_cons, List.sum_cons]
          lia

namespace Writers

variable {f : Fslot} {ip : Slot} {w w' : Writers} {a : Act}

theorem ordered_enter (h : w.Ordered f ip) (cur : Pslot) (src : Nat -> UInt8)
    (n : Int32) :
    Ordered { w with calls := w.calls ++ [⟨cur, src, n, 0⟩] } f ip := by
  constructor
  · exact h.file
  · intro x hx
    have hlt := h.known x hx
    rw [List.length_append]
    lia
  · intro c call hc
    rcases Nat.lt_or_ge c w.calls.length with hlt | hge
    · rw [List.getElem?_append_left hlt] at hc
      exact h.calls c call hc
    · -- the new call has written nothing
      rw [List.getElem?_append_right hge] at hc
      have hzero : c - w.calls.length = 0 := by
        have hlen := (List.getElem?_eq_some_iff.mp hc).1
        rw [List.length_singleton] at hlen
        lia
      rw [hzero] at hc
      cases hc
      have hnone : w.pieces.filter (fun x => x.1 = c) = [] := by
        apply List.filter_eq_nil_iff.mpr
        intro x hx heq
        have hlt := h.known x hx
        have heq' := of_decide_eq_true heq
        lia
      constructor
      · show ((w.pieces.filter (fun x => x.1 = c)).map Prod.snd).flatten = []
        rw [hnone]
        rfl
      · exact Nat.zero_le _
  · show w.bytes.length = _
    rw [h.total, List.map_append, List.sum_append]
    rfl

theorem piecesOf_snoc {c : Nat} {bs : List UInt8}
    (h : w'.pieces = w.pieces ++ [(c, bs)]) (c' : Nat) :
    w'.piecesOf c' = w.piecesOf c' ++ if c = c' then [bs] else [] := by
  unfold piecesOf
  rw [h, List.filter_append, List.map_append]
  split
  · simp [*]
  · simp [*]

theorem bytes_snoc {c : Nat} {bs : List UInt8}
    (h : w'.pieces = w.pieces ++ [(c, bs)]) : w'.bytes = w.bytes ++ bs := by
  unfold bytes
  rw [h]
  simp

theorem WriteCall.n1_bounds {c : WriteCall} (h : c.i < c.n.toInt.toNat) :
    0 < c.n1 ∧ c.n1 < 2 ^ 31 ∧ c.n1 ≤ c.n.toInt.toNat - c.i := by
  unfold WriteCall.n1 writeMax
  lia

theorem ordered_piece (h : w.Ordered f ip) {k' : Kernel} {c : Nat}
    {call : WriteCall} (hcall : w.calls[c]? = some call)
    (hmore : call.i < call.n.toInt.toNat)
    (hrun : filewriteOp call.cur f (w.k.file f).ip
      (fun j => call.src (call.i + j)) call.n1 w.k =
        .ok ((call.n1 : Int), k')) :
    Ordered
      { k := k'
        calls := w.calls.set c call.wrote
        pieces := w.pieces ++
          [(c, Kernel.piece (fun j => call.src (call.i + j)) call.n1)] }
      f ip := by
  rcases WriteCall.n1_bounds hmore with ⟨hsome, hfits, hle⟩
  have hlt : c < w.calls.length := (List.getElem?_eq_some_iff.mp hcall).1
  let w' : Writers :=
    { k := k'
      calls := w.calls.set c call.wrote
      pieces := w.pieces ++
        [(c, Kernel.piece (fun j => call.src (call.i + j)) call.n1)] }
  have hbytes : w'.bytes = _ := bytes_snoc rfl
  rw [h.file.slot] at hrun
  have hend := wp_ok (filewriteOp_at_end h.file call.cur _ hsome hfits) hrun rfl
  constructor
  · show k'.AtEnd f ip w'.bytes
    rw [hbytes]
    exact hend
  · intro x hx
    rw [List.length_set]
    rcases List.mem_append.mp hx with hold | hnew
    · exact h.known x hold
    · cases List.mem_singleton.mp hnew
      exact hlt
  · intro c' call' hc'
    have hpieces : w'.piecesOf c' = _ := piecesOf_snoc rfl c'
    show (w'.piecesOf c').flatten = _ ∧ _
    rw [hpieces, List.flatten_append]
    rcases eq_or_ne c c' with rfl | hne
    · rw [List.getElem?_set_self hlt] at hc'
      cases hc'
      rcases h.calls c call hcall with ⟨hold, hle⟩
      constructor
      · show _ = Kernel.piece call.src (call.i + call.n1)
        rw [hold, piece_add, if_pos rfl, List.flatten_singleton]
      · show call.i + call.n1 ≤ call.n.toInt.toNat
        lia
    · rw [List.getElem?_set_ne hne] at hc'
      rcases h.calls c' call' hc' with ⟨hold, hle⟩
      rw [hold, if_neg hne, List.flatten_nil, List.append_nil]
      exact ⟨rfl, hle⟩
  · show w'.bytes.length = ((w.calls.set c call.wrote).map WriteCall.i).sum
    have hsum := sum_map_set WriteCall.i (y := call.wrote) hcall
    have hi : call.wrote.i = call.i + call.n1 := rfl
    rw [hbytes, List.length_append, piece_length, h.total]
    lia

theorem ordered_step (h : w.Ordered f ip) (hstep : Step f w a w') :
    w'.Ordered f ip := by
  cases hstep with
  | enter cur src n => exact ordered_enter h cur src n
  | piece hcall hmore hrun => exact ordered_piece h hcall hmore hrun

/-- Whatever the order in which the inode is locked, the file is what the
pieces of all calls are one after the other, the pieces of a call are its bytes
in order, and the size of the file and the offset are the number of bytes that
were written: all that was asked for once the calls have returned. -/
theorem shared_offset {k₀ : Kernel} (hstart : k₀.AtEnd f ip [])
    (hruns : Runs (Step f) (fun _ _ => True) ⟨k₀, [], []⟩ w) :
    (w.k.fs.dinode (w.k.fs.icache ip).inum).content w.k.fs.disk =
        (w.pieces.map Prod.snd).flatten ∧
      (forall c call, w.calls[c]? = some call ->
        (w.piecesOf c).flatten = Kernel.piece call.src call.i) ∧
      (w.k.fs.dinode (w.k.fs.icache ip).inum).size.toNat =
        (w.calls.map WriteCall.i).sum ∧
      (w.k.file f).off = (w.k.fs.dinode (w.k.fs.icache ip).inum).size ∧
      ((forall call, call ∈ w.calls -> call.i = call.n.toInt.toNat) ->
        (w.k.fs.dinode (w.k.fs.icache ip).inum).size.toNat =
          (w.calls.map (fun call => call.n.toInt.toNat)).sum) := by
  have hnone : Ordered ⟨k₀, [], []⟩ f ip := by
    constructor
    · exact hstart
    · exact fun _ hx => absurd hx List.not_mem_nil
    · intro c call hc
      rw [List.getElem?_nil] at hc
      cases hc
    · rfl
  have h : w.Ordered f ip :=
    hruns.invariant hnone (fun _ _ _ h _ hstep => ordered_step h hstep)
  have hsize : (w.k.fs.dinode (w.k.fs.icache ip).inum).size.toNat =
      (w.calls.map WriteCall.i).sum := by
    rw [← content_length _ w.k.fs.disk, h.file.content, h.total]
  refine ⟨h.file.content, fun c call hc => (h.calls c call hc).1, hsize, ?_, ?_⟩
  · apply UInt32.toNat_inj.mp
    rw [h.file.off, hsize, h.total]
  · intro hdone
    rw [hsize]
    congr 1
    exact List.map_congr_left hdone

def openFs : Fs :=
  { Fs.oneFileFs.putSlot 0 { Fs.oneFileFs.icache 0 with lock := none } with
    log := { Fs.oneFileFs.log with outstanding := 0 } }

def openKernel : Kernel :=
  { boot with
    fs := openFs
    file := fun _ =>
      { type := .FD_INODE
        ref := 2
        readable := false
        writable := true
        pipe := 0
        ip := 0
        off := 0 } }

theorem openFs_view : Fs.SameView Fs.oneFileFs openFs := by
  rcases Fs.sameView_lock Fs.oneFileFs 0 none with ⟨hsb, hdisk, hdinode⟩
  exact ⟨hsb, hdisk, hdinode⟩

theorem openKernel_atEnd : openKernel.AtEnd 0 0 [] := by
  have honly : openFs.Only 0 :=
    (Fs.oneFileFs_held.only.putSlot
      (i := { Fs.oneFileFs.icache 0 with lock := none }) rfl rfl).congr rfl
        (fun _ => ⟨rfl, rfl⟩)
  have hdin : openFs.dinode 2 = (Fs.oneFileFs.icache 0).din :=
    (openFs_view.dinode 2).trans Fs.oneFileFs_held.dinode_eq
  refine ⟨rfl, honly, openFs_view.own Fs.oneFileFs_own, ?_, ?_, rfl⟩
  · show (openFs.dinode 2).type = T_FILE
    rw [hdin]
    rfl
  · show (openFs.dinode 2).content _ = []
    rw [hdin]
    rfl

def firstCall : WriteCall := ⟨0, fun _ => 9, 3, 0⟩

def secondCall : WriteCall := ⟨1, fun j => UInt8.ofNat (5 + j), 2, 0⟩

/-- The next piece of the second call, and then that of the first one. -/
def bothPieces (f : Fslot) (ip : Slot) : KM (Int × Int) := do
  let r ← filewriteOp secondCall.cur f ip
    (fun j => secondCall.src (secondCall.i + j)) secondCall.n1
  let r' ← filewriteOp firstCall.cur f ip
    (fun j => firstCall.src (firstCall.i + j)) firstCall.n1
  pure (r, r')

/-- Two processes are in a call, and the second one is the first to write. -/
theorem shared_offset_two :
    exists w, openKernel.AtEnd 0 0 [] ∧
      Runs (Step 0) (fun _ _ => True) ⟨openKernel, [], []⟩ w ∧
        w.calls = [firstCall.wrote, secondCall.wrote] ∧
          (w.k.fs.dinode (w.k.fs.icache 0).inum).content w.k.fs.disk =
            [5, 6, 9, 9, 9] := by
  have hvalue : value? (bothPieces 0 0 openKernel) =
      some ((secondCall.n1 : Int), (firstCall.n1 : Int)) := by
    decide +kernel
  rcases value?_eq_some hvalue with ⟨k2, hrun⟩
  unfold bothPieces at hrun
  rcases bind_eq_ok.mp hrun with ⟨r, k1, hsecond, hrest⟩
  rcases bind_eq_ok.mp hrest with ⟨r', k2, hfirst, hlast⟩
  cases hlast
  have hslot : (k1.file 0).ip = 0 :=
    (wp_ok (filewriteOp_at_end openKernel_atEnd secondCall.cur _
      (by decide +kernel) (by decide +kernel)) hsecond rfl).slot
  have hone : Runs (Step 0) (fun _ _ => True) ⟨openKernel, [], []⟩
      ⟨openKernel, [firstCall], []⟩ :=
    Runs.refl.tail _ trivial (.enter 0 (fun _ => 9) 3)
  have htwo : Runs (Step 0) (fun _ _ => True) ⟨openKernel, [], []⟩
      ⟨openKernel, [firstCall, secondCall], []⟩ :=
    hone.tail _ trivial (.enter 1 (fun j => UInt8.ofNat (5 + j)) 2)
  have hstep : Step 0 ⟨openKernel, [firstCall, secondCall], []⟩ (.piece 1)
      ⟨k1, [firstCall, secondCall.wrote], [(1, Kernel.piece
        (fun j => secondCall.src (secondCall.i + j)) secondCall.n1)]⟩ :=
    .piece rfl (by decide) hsecond
  rw [← hslot] at hfirst
  have hstep' : forall pieces,
      Step 0 ⟨k1, [firstCall, secondCall.wrote], pieces⟩ (.piece 0)
        ⟨k2, [firstCall.wrote, secondCall.wrote], pieces ++ [(0, Kernel.piece
          (fun j => firstCall.src (firstCall.i + j)) firstCall.n1)]⟩ :=
    fun pieces => .piece rfl (by decide) hfirst
  have hruns := (htwo.tail _ trivial hstep).tail _ trivial (hstep' _)
  refine ⟨_, openKernel_atEnd, hruns, rfl, ?_⟩
  rw [(shared_offset openKernel_atEnd hruns).1]
  rfl

/-!
## One call
-/

/-- The pieces that are left of a call, one for each transaction. -/
def cuts (c : WriteCall) : List (List UInt8) :=
  (List.range ((c.n.toInt.toNat - c.i + (writeMax - 1)) / writeMax)).map
    (fun j => Kernel.piece (fun x => c.src (c.i + j * writeMax + x))
      (min (c.n.toInt.toNat - (c.i + j * writeMax)) writeMax))

theorem cuts_done {c : WriteCall} (h : c.n.toInt.toNat ≤ c.i) :
    cuts c = [] := by
  have hnone : (c.n.toInt.toNat - c.i + (writeMax - 1)) / writeMax = 0 := by
    unfold writeMax
    lia
  unfold cuts
  rw [hnone]
  rfl

theorem cuts_more {c : WriteCall} (h : c.i < c.n.toInt.toNat) :
    cuts c = Kernel.piece (fun j => c.src (c.i + j)) c.n1 :: cuts c.wrote := by
  have hi : c.wrote.i = c.i + min (c.n.toInt.toNat - c.i) writeMax := rfl
  have hcount : (c.n.toInt.toNat - c.i + (writeMax - 1)) / writeMax =
      (c.n.toInt.toNat - c.wrote.i + (writeMax - 1)) / writeMax + 1 := by
    rw [hi]
    unfold writeMax
    lia
  unfold cuts
  rw [hcount, List.range_succ_eq_map, List.map_cons, List.map_map]
  congr 1
  apply List.map_congr_left
  intro j hj
  -- a piece that is not the last one has `writeMax` bytes
  have hfull : c.wrote.i = c.i + writeMax := by
    have hlt := List.mem_range.mp hj
    rw [hi] at hlt ⊢
    unfold writeMax at hlt ⊢
    lia
  have hoff : c.i + (j + 1) * writeMax = c.wrote.i + j * writeMax := by
    rw [hfull]
    lia
  simp only [Function.comp, Nat.succ_eq_add_one, hoff]
  rfl

theorem cuts_flatten (c : WriteCall) : (cuts c).flatten =
    Kernel.piece (fun j => c.src (c.i + j)) (c.n.toInt.toNat - c.i) := by
  induction hleft : c.n.toInt.toNat - c.i using Nat.strong_induction_on
    generalizing c with
  | h m ih =>
      subst hleft
      rcases Nat.lt_or_ge c.i c.n.toInt.toNat with hmore | hdone
      · have hi : c.wrote.i = c.i + c.n1 := rfl
        have hpos := WriteCall.n1_bounds hmore
        have hrest := ih _ (by rw [hi]; show c.n.toInt.toNat - _ < _; lia)
          c.wrote rfl
        have hsplit : c.n.toInt.toNat - c.i =
            c.n1 + (c.n.toInt.toNat - (c.i + c.n1)) := by
          lia
        rw [cuts_more hmore, List.flatten_cons, hrest, hsplit, piece_add]
        simp only [hi, Nat.add_assoc]
        rfl
      · rw [cuts_done hdone, Nat.sub_eq_zero_of_le hdone]
        rfl

theorem runs_cuts_done {w₀ : Writers} {k : Kernel} {calls : List WriteCall}
    {pieces : List (Nat × List UInt8)} {c : Nat} {call : WriteCall}
    (hcall : calls[c]? = some call) (hi : call.i = call.n.toInt.toNat)
    (hprev : Runs (Step f) (fun _ _ => True) w₀ ⟨k, calls, pieces⟩) :
    Runs (Step f) (fun _ _ => True) w₀
      ⟨k, calls.set c { call with i := call.n.toInt.toNat },
        pieces ++ (cuts call).map (Prod.mk c)⟩ := by
  rcases List.getElem?_eq_some_iff.mp hcall with ⟨hlt, hget⟩
  have hsame : { call with i := call.n.toInt.toNat } = calls[c] := by
    rw [← hi, hget]
  rw [cuts_done hi.ge, List.map_nil, List.append_nil, hsame,
    List.set_getElem_self]
  exact hprev

theorem filewriteLoop_runs {w₀ : Writers} {k k' : Kernel} {bytes : List UInt8}
    {calls : List WriteCall} {pieces : List (Nat × List UInt8)} {c : Nat}
    {call : WriteCall} (fuel : Nat) (h : k.AtEnd f ip bytes)
    (hcall : calls[c]? = some call)
    (hprev : Runs (Step f) (fun _ _ => True) w₀ ⟨k, calls, pieces⟩)
    (hrun : filewriteLoop call.cur f ip call.src call.n.toInt.toNat fuel call.i
      k = .ok (call.n.toInt.toNat, k')) :
    Runs (Step f) (fun _ _ => True) w₀
      ⟨k', calls.set c { call with i := call.n.toInt.toNat },
        pieces ++ (cuts call).map (Prod.mk c)⟩ := by
  induction fuel generalizing k bytes calls pieces call with
  | zero =>
      have hend := Except.ok.inj hrun
      rw [← show k = k' from congrArg Prod.snd hend]
      exact runs_cuts_done hcall (congrArg Prod.fst hend) hprev
  | succ fuel ih =>
      unfold filewriteLoop at hrun
      split at hrun
      · rename_i hmore
        rcases WriteCall.n1_bounds hmore with ⟨hsome, hfits, _⟩
        have hn1 : min (call.n.toInt.toNat - call.i) writeMax = call.n1 := rfl
        dsimp only at hrun
        rw [hn1, bind_run] at hrun
        cases hop : filewriteOp call.cur f ip (fun j => call.src (call.i + j))
            call.n1 k with
        | error e =>
            rw [hop] at hrun
            cases hrun
        | ok res =>
            rcases res with ⟨r, k1⟩
            rw [hop] at hrun
            dsimp only at hrun
            split at hrun
            · -- the loop breaks off before all bytes are written
              have hi := congrArg Prod.fst (Except.ok.inj hrun)
              dsimp only at hi
              lia
            · split at hrun
              · cases hrun
              · rename_i hall
                have hr : r = (call.n1 : Int) := of_not_not hall
                subst hr
                have hwp := filewriteOp_at_end h call.cur
                  (fun j => call.src (call.i + j)) hsome hfits
                have hend := wp_ok hwp hop rfl
                rw [← h.slot] at hop
                have hstep : Step f ⟨k, calls, pieces⟩ (.piece c)
                    ⟨k1, calls.set c call.wrote, pieces ++ [(c, Kernel.piece
                      (fun j => call.src (call.i + j)) call.n1)]⟩ :=
                  .piece hcall hmore hop
                have hnext : (calls.set c call.wrote)[c]? = some call.wrote :=
                  List.getElem?_set_self (List.getElem?_eq_some_iff.mp hcall).1
                have hrest := ih hend hnext
                  (hprev.tail (.piece c) trivial hstep) hrun
                rw [List.set_set, List.append_assoc] at hrest
                rw [cuts_more hmore]
                exact hrest
      · have hend := Except.ok.inj hrun
        rw [← show k = k' from congrArg Prod.snd hend]
        exact runs_cuts_done hcall (congrArg Prod.fst hend) hprev

/-- A call that returns `n` is a run of the writers: it enters, writes its
pieces one after the other, and they are its bytes. -/
theorem filewrite_runs {k k' : Kernel} {bytes : List UInt8} {cur : Pslot}
    {src : Nat -> UInt8} {n : Int32} (calls : List WriteCall)
    (pieces : List (Nat × List UInt8)) (h : k.AtEnd f ip bytes)
    (htype : (k.file f).type = .FD_INODE) (hn : 0 ≤ n)
    (hrun : filewrite cur f src n k = .ok (n.toInt, k')) :
    Runs (Step f) (fun _ _ => True) ⟨k, calls, pieces⟩
        ⟨k', calls ++ [⟨cur, src, n, n.toInt.toNat⟩],
          pieces ++ (cuts ⟨cur, src, n, 0⟩).map (Prod.mk calls.length)⟩ ∧
      (cuts ⟨cur, src, n, 0⟩).flatten = Kernel.piece src n.toInt.toNat := by
  have hpos : 0 ≤ n.toInt := Int32.le_iff_toInt_le.mp hn
  have hflat := cuts_flatten ⟨cur, src, n, 0⟩
  simp only [Nat.zero_add, Nat.sub_zero] at hflat
  refine ⟨?_, hflat⟩
  unfold filewrite at hrun
  rw [bind_run] at hrun
  simp only [gets] at hrun
  split at hrun
  · -- a file that is not writable
    have hr := congrArg Prod.fst (Except.ok.inj hrun)
    dsimp only at hr
    lia
  · rw [htype] at hrun
    dsimp only at hrun
    rw [bind_run, h.slot] at hrun
    cases hloop : filewriteLoop cur f ip src n.toInt.toNat n.toInt.toNat 0
        k with
    | error e =>
        rw [hloop] at hrun
        cases hrun
    | ok res =>
        rcases res with ⟨i, k1⟩
        rw [hloop] at hrun
        have hend := Except.ok.inj hrun
        have hk : k1 = k' := congrArg Prod.snd hend
        have hi : (if (i : Int) = n.toInt then n.toInt else -1) = n.toInt :=
          congrArg Prod.fst hend
        have hall : i = n.toInt.toNat := by
          split at hi
          · lia
          · lia
        subst hk hall
        have hcall : (calls ++
            [(⟨cur, src, n, 0⟩ : WriteCall)])[calls.length]? =
              some ⟨cur, src, n, 0⟩ := by
          simp
        have hprev : Runs (Step f) (fun _ _ => True) ⟨k, calls, pieces⟩
            ⟨k, calls ++ [⟨cur, src, n, 0⟩], pieces⟩ :=
          Runs.refl.tail _ trivial (.enter cur src n)
        have hruns := filewriteLoop_runs n.toInt.toNat h hcall hprev hloop
        simpa using hruns

/-- A call that comes after another one, and takes two transactions. -/
theorem filewrite_runs_two_pieces : exists k',
    filewrite 0 0 (fun _ => 9) 1600 openKernel = .ok (1600, k') ∧
      Runs (Step 0) (fun _ _ => True) ⟨openKernel, [secondCall], []⟩
        ⟨k', [secondCall, ⟨0, fun _ => 9, 1600, 1600⟩],
          [(1, List.replicate 1536 9), (1, List.replicate 64 9)]⟩ := by
  have hvalue : value? (filewrite 0 0 (fun _ => 9) 1600 openKernel) =
      some 1600 := by
    decide +kernel
  rcases value?_eq_some hvalue with ⟨k', hrun⟩
  have hruns := (filewrite_runs [secondCall] [] openKernel_atEnd rfl
    (by decide) hrun).1
  have hcuts : cuts ⟨0, fun _ => 9, 1600, 0⟩ =
      [List.replicate 1536 9, List.replicate 64 9] := by
    decide +kernel
  rw [hcuts] at hruns
  exact ⟨k', hrun, hruns⟩

end Writers

end Kernel
end Xv6
