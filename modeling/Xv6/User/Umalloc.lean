import Xv6.Lib.Machine
import Xv6.Lib.Tiling

/-!
# The user heap

`malloc`, `free` and `morecore` of `umalloc.c`.  Memory is seen as headers: the
map gives the header that starts at an address.  Addresses and sizes are
unsigned words, and a `Header` has eight bytes.  The loops carry fuel; a result
is `none` only if it runs out.
-/

namespace Xv6
namespace Umalloc

open Lib

structure Header where
  ptr : Nat
  size : Nat
deriving DecidableEq, Repr

abbrev Headers : Type := Nat -> Header

/-- A block that `malloc` returned for `nbytes` bytes and that is not freed
yet. -/
structure Live where
  blk : Blk
  nbytes : Nat
deriving DecidableEq, Repr

/-- The live blocks and the memory got from `sbrk` are only recorded. -/
structure Heap where
  hdr : Headers
  freep : Nat
  live : List Live
  chunks : List Blk

/-- `p + n` for a `Header*`. -/
def plus (p n : Nat) : Nat := (p + 8 * n) % 2 ^ 32

/-- The loop of `free`. -/
def search (bp : Nat) (hdr : Headers) : Nat -> Nat -> Option Nat
  | 0, _ => none
  | fuel + 1, p =>
      if p < bp ∧ bp < (hdr p).ptr then
        some p
      else if (hdr p).ptr ≤ p ∧ (p < bp ∨ bp < (hdr p).ptr) then
        some p
      else
        search bp hdr fuel (hdr p).ptr

/-- The block `p` is joined with the block `q` after it or points to it. -/
def join (p q : Nat) (hdr : Headers) : Headers :=
  if plus p (hdr p).size = q then
    Function.update hdr p
      ⟨(hdr q).ptr, ((hdr p).size + (hdr q).size) % 2 ^ 32⟩
  else
    Function.update hdr p ⟨q, (hdr p).size⟩

def free (fuel ap : Nat) (h : Heap) : Option Heap :=
  let bp := ap - 8
  match search bp h.hdr fuel h.freep with
  | none => none
  | some p =>
      some { h with
        hdr := join p bp (join bp (h.hdr p).ptr h.hdr)
        freep := p }

/-- What `sbrk` answers is none for `-1`. -/
def morecore (sbrk : Nat -> Option Nat) (fuel nu : Nat) (h : Heap) :
    Option (Nat × Heap) :=
  let nu := if nu < 4096 then 4096 else nu
  match sbrk (nu * 8 % 2 ^ 32) with
  | none => some (0, h)
  | some hp =>
      match free fuel (plus hp 1) { h with
        hdr := Function.update h.hdr hp ⟨(h.hdr hp).ptr, nu⟩
        chunks := ⟨hp, nu⟩ :: h.chunks } with
      | none => none
      | some h => some (h.freep, h)

/-- The block `p` after `prevp` is large enough: all of it or its tail is
returned. -/
def take (nbytes nunits prevp p : Nat) (h : Heap) : Nat × Heap :=
  if (h.hdr p).size = nunits then
    (plus p 1, { h with
      hdr := Function.update h.hdr prevp ⟨(h.hdr p).ptr, (h.hdr prevp).size⟩
      freep := prevp
      live := ⟨⟨p, nunits⟩, nbytes⟩ :: h.live })
  else
    let size := (h.hdr p).size - nunits
    let hdr := Function.update h.hdr p ⟨(h.hdr p).ptr, size⟩
    let q := plus p size
    (plus q 1, { h with
      hdr := Function.update hdr q ⟨(hdr q).ptr, nunits⟩
      freep := prevp
      live := ⟨⟨q, nunits⟩, nbytes⟩ :: h.live })

/-- The loop of `malloc`. -/
def mallocLoop (sbrk : Nat -> Option Nat) (nbytes nunits : Nat) :
    Nat -> Nat -> Nat -> Heap -> Option (Nat × Heap)
  | 0, _, _, _ => none
  | fuel + 1, prevp, p, h =>
      if nunits ≤ (h.hdr p).size then
        some (take nbytes nunits prevp p h)
      else if p = h.freep then
        match morecore sbrk fuel nunits h with
        | none => none
        | some (p, h) =>
            if p = 0 then
              some (0, h)
            else
              mallocLoop sbrk nbytes nunits fuel p (h.hdr p).ptr h
      else
        mallocLoop sbrk nbytes nunits fuel p (h.hdr p).ptr h

section mallocLoop

variable {sbrk : Nat -> Option Nat} {nbytes n fuel prevp p : Nat} {h : Heap}

theorem mallocLoop_take (hfit : n ≤ (h.hdr p).size) :
    mallocLoop sbrk nbytes n (fuel + 1) prevp p h =
      some (take nbytes n prevp p h) := by
  unfold mallocLoop
  rw [if_pos hfit]

theorem mallocLoop_next (hsmall : (h.hdr p).size < n) (hp : p ≠ h.freep) :
    mallocLoop sbrk nbytes n (fuel + 1) prevp p h =
      mallocLoop sbrk nbytes n fuel p (h.hdr p).ptr h := by
  conv_lhs => unfold mallocLoop
  rw [if_neg (Nat.not_le.mpr hsmall), if_neg hp]

theorem mallocLoop_more (hsmall : (h.hdr h.freep).size < n) :
    mallocLoop sbrk nbytes n (fuel + 1) prevp h.freep h =
      match morecore sbrk fuel n h with
      | none => none
      | some (p, h) =>
          if p = 0 then some (0, h)
          else mallocLoop sbrk nbytes n fuel p (h.hdr p).ptr h := by
  conv_lhs => unfold mallocLoop
  rw [if_neg (Nat.not_le.mpr hsmall), if_pos rfl]

end mallocLoop

def nunits (nbytes : Nat) : Nat := (nbytes + 8 - 1) % 2 ^ 32 / 8 + 1

/-- The list is made empty by the first call. -/
def setup (base : Nat) (h : Heap) : Heap :=
  if h.freep = 0 then
    { h with
      hdr := Function.update h.hdr base ⟨base, 0⟩
      freep := base }
  else
    h

/-- The result is `0` if there is no memory. -/
def malloc (base : Nat) (sbrk : Nat -> Option Nat) (fuel nbytes : Nat)
    (h : Heap) : Option (Nat × Heap) :=
  let h := setup base h
  mallocLoop sbrk nbytes (nunits nbytes) fuel h.freep (h.hdr h.freep).ptr h

/-!
## Programs

A program calls `malloc` and `free` and writes to the blocks it holds, which
may leave anything in the headers that lie in them.
-/

inductive Act where
  | malloc (nbytes : Nat) (sbrk : Nat -> Option Nat)
  | free (b : Live)
  | write (hdr : Headers)

inductive Step (base : Nat) (h : Heap) : Act -> Heap -> Prop where
  | malloc {nbytes fuel r : Nat} {sbrk : Nat -> Option Nat} {h' : Heap}
      (hrun : malloc base sbrk fuel nbytes h = some (r, h')) :
      Step base h (.malloc nbytes sbrk) h'
  | free {fuel : Nat} {b : Live} {h' : Heap}
      (hrun : free fuel (plus b.blk.addr 1) h = some h') :
      Step base h (.free b) { h' with live := h'.live.erase b }
  | write {hdr : Headers} : Step base h (.write hdr) { h with hdr := hdr }

/-- `sbrk` hands out memory above `base` and above what it handed out before,
or fails. -/
def Fresh (base : Nat) (chunks : List Blk) (sbrk : Nat -> Option Nat) : Prop :=
  forall n a, 0 < n -> n < 2 ^ 31 -> sbrk n = some a ->
    base + 8 ≤ a ∧ a + n < 2 ^ 32 ∧
      forall c, c ∈ chunks -> c.stop 8 ≤ a

def Proper (base : Nat) (h : Heap) : Act -> Prop
  | .malloc nbytes sbrk => nbytes < 2 ^ 30 ∧ Fresh base h.chunks sbrk
  | .free b => b ∈ h.live
  | .write hdr => forall a, hdr a ≠ h.hdr a ->
      exists b, b ∈ h.live ∧ b.blk.addr < a ∧ a < b.blk.stop 8

def start (hdr : Headers) : Heap := ⟨hdr, 0, [], []⟩

end Umalloc
end Xv6
