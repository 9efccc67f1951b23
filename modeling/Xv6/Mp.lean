import Mathlib.Data.List.Basic

/-!
# The scan of the multiprocessor table

`mpinit` reads the entries of the configuration table one after another.  The
size of an entry is added in the case of its type, and the default case has
none, so that the loop stays at an entry of an unknown type for ever.
-/

namespace Xv6
namespace Mp

def NCPU : Nat := 8

/-- The bytes from the start of a configuration table. -/
abbrev Conf := Nat -> UInt8

def HEADER : Nat := 44

def length (conf : Conf) : Nat := (conf 4).toNat + 256 * (conf 5).toNat

def version (conf : Conf) : UInt8 := conf 6

def sum (addr : Conf) (len : Nat) : UInt8 :=
  (List.range len).foldl (fun s i => s + addr i) 0

/-- `found` is the table that `mpsearch` leads to, if its address is not 0. -/
def mpconfig (found : Option Conf) : Option Conf :=
  match found with
  | none => none
  | some conf =>
      if (List.range 4).map conf ≠ [0x50, 0x43, 0x4d, 0x50] then none
      else if version conf ≠ 1 ∧ version conf ≠ 4 then none
      else if sum conf (length conf) ≠ 0 then none
      else some conf

def MPPROC : UInt8 := 0

def MPBUS : UInt8 := 1

def MPIOAPIC : UInt8 := 2

def MPIOINTR : UInt8 := 3

def MPLINTR : UInt8 := 4

/-- The variables of the loop: the cursor, the `apicid` of each processor that
is recorded, and what else it sets. -/
structure Scan where
  p : Nat
  cpus : List UInt8
  ioapicid : UInt8
  ismp : Bool
  deriving Repr, DecidableEq

def scanEntry (conf : Conf) (s : Scan) : Scan :=
  if conf s.p = MPPROC then
    { s with
      cpus :=
        if s.cpus.length < NCPU then s.cpus ++ [conf (s.p + 1)] else s.cpus
      p := s.p + 20 }
  else if conf s.p = MPIOAPIC then
    { s with ioapicid := conf (s.p + 1), p := s.p + 8 }
  else if conf s.p = MPBUS ∨ conf s.p = MPIOINTR ∨ conf s.p = MPLINTR then
    { s with p := s.p + 8 }
  else { s with ismp := false }

/-- The loop; `none` while it has not ended. -/
def scanLoop (conf : Conf) : Nat -> Scan -> Option Scan
  | 0, _ => none
  | fuel + 1, s =>
      if s.p < length conf then scanLoop conf fuel (scanEntry conf s)
      else some s

def mpinit (found : Option Conf) (fuel : Nat) : Option (Except String Scan) :=
  match mpconfig found with
  | none => some (.error "Expect to run on an SMP")
  | some conf =>
      match scanLoop conf fuel ⟨HEADER, [], 0, true⟩ with
      | none => none
      | some s =>
          if s.ismp then some (.ok s)
          else some (.error "Didn't find a suitable machine")

/-- The scan ends: the processors are recorded, or the machine is refused. -/
def Ends (conf : Conf) : Prop :=
  exists fuel, (exists s, mpinit (some conf) fuel = some (.ok s)) ∨
    mpinit (some conf) fuel =
      some (.error "Didn't find a suitable machine")

/-!
## Tables that can be read
-/

def entrySize (type : UInt8) : Option Nat :=
  if type = MPPROC then some 20
  else if type = MPIOAPIC then some 8
  else if type = MPBUS ∨ type = MPIOINTR ∨ type = MPLINTR then some 8
  else none

/-- From the offset `p` to the end of the table there is one entry after another,
each of a known type. -/
inductive Entries (conf : Conf) : Nat -> Prop where
  | done {p : Nat} : length conf ≤ p -> Entries conf p
  | entry {p size : Nat} : entrySize (conf p) = some size ->
      Entries conf (p + size) -> Entries conf p

section Scans

variable {conf : Conf}

theorem scanEntry_cases (conf : Conf) (s : Scan) :
    (exists size, entrySize (conf s.p) = some size ∧
        (scanEntry conf s).p = s.p + size) ∨
      (entrySize (conf s.p) = none ∧ (scanEntry conf s).p = s.p) := by
  unfold scanEntry entrySize
  split
  · exact Or.inl ⟨20, rfl, rfl⟩
  · split
    · exact Or.inl ⟨8, rfl, rfl⟩
    · split
      · exact Or.inl ⟨8, rfl, rfl⟩
      · exact Or.inr ⟨rfl, rfl⟩

theorem entries_of_scanLoop {fuel : Nat} {s s' : Scan}
    (h : scanLoop conf fuel s = some s') : Entries conf s.p := by
  induction fuel generalizing s with
  | zero => cases h
  | succ fuel ih =>
      rw [scanLoop] at h
      split at h
      · have hnext := ih h
        rcases scanEntry_cases conf s with ⟨size, hsize, hp⟩ | ⟨_, hp⟩
        · rw [hp] at hnext
          exact Entries.entry hsize hnext
        · rw [hp] at hnext
          exact hnext
      · rename_i hend
        exact Entries.done (Nat.not_lt.mp hend)

theorem scanLoop_of_entries {p : Nat} (h : Entries conf p) (s : Scan)
    (hp : s.p = p) : exists fuel s', scanLoop conf fuel s = some s' := by
  induction h generalizing s with
  | done hend =>
      refine ⟨1, s, ?_⟩
      rw [scanLoop, if_neg (by lia)]
  | entry hsize _ ih =>
      rcases Nat.lt_or_ge s.p (length conf) with hlt | hge
      · rcases scanEntry_cases conf s with ⟨size', hsize', hp'⟩ | ⟨hnone, _⟩
        · rw [hp, hsize] at hsize'
          cases hsize'
          rcases ih (scanEntry conf s) (by rw [hp', hp]) with
            ⟨fuel, s', hrun⟩
          refine ⟨fuel + 1, s', ?_⟩
          rw [scanLoop, if_pos hlt]
          exact hrun
        · rw [hp, hsize] at hnone
          cases hnone
      · refine ⟨1, s, ?_⟩
        rw [scanLoop, if_neg (Nat.not_lt.mpr hge)]

theorem entries_of_ends (hconf : mpconfig (some conf) = some conf)
    (h : Ends conf) : Entries conf HEADER := by
  rcases h with ⟨fuel, hrun⟩
  simp only [mpinit, hconf] at hrun
  cases hloop : scanLoop conf fuel ⟨HEADER, [], 0, true⟩ with
  | none =>
      rw [hloop] at hrun
      rcases hrun with ⟨_, hrun⟩ | hrun
      · cases hrun
      · cases hrun
  | some s => exact entries_of_scanLoop hloop

end Scans

/-- The scan of an accepted table ends exactly when the table is a sequence of
entries of known types. -/
theorem mpinit_ends_iff {conf : Conf} (h : mpconfig (some conf) = some conf) :
    Ends conf ↔ Entries conf HEADER := by
  constructor
  · exact entries_of_ends h
  · intro hentries
    rcases scanLoop_of_entries hentries ⟨HEADER, [], 0, true⟩ rfl with
      ⟨fuel, s, hrun⟩
    refine ⟨fuel, ?_⟩
    simp only [mpinit, h, hrun]
    cases s.ismp with
    | true => exact Or.inl ⟨s, rfl⟩
    | false => exact Or.inr rfl

/-- A table of 80 bytes with entries for a processor, a bus and an I/O APIC. -/
def threeEntries : Conf := fun i =>
  if i = 64 then MPBUS
  else if i = 72 then MPIOAPIC
  else [0x50, 0x43, 0x4d, 0x50, 80, 0, 4, 121].getD i 0

theorem mpinit_ends_three : Ends threeEntries := by
  have hconf : mpconfig (some threeEntries) = some threeEntries := by
    simp only [mpconfig]
    rw [if_neg (by decide), if_neg (by decide), if_neg (by decide +kernel)]
  have hend : length threeEntries ≤ HEADER + 20 + 8 + 8 := by decide
  exact (mpinit_ends_iff hconf).mpr
    (.entry rfl (.entry rfl (.entry rfl (.done hend))))

/-- A table of `len` bytes with the given checksum and one entry of a type. -/
def oneEntry (len checksum type : UInt8) : Conf := fun i =>
  if i = HEADER then type
  else [0x50, 0x43, 0x4d, 0x50, len, 0, 4, checksum].getD i 0

/-- The table with one entry of type 5 is accepted, and its scan never ends. -/
theorem mpinit_unknown_entry :
    mpconfig (some (oneEntry 45 154 5)) = some (oneEntry 45 154 5) ∧
      ¬ Ends (oneEntry 45 154 5) := by
  have hconf : mpconfig (some (oneEntry 45 154 5)) =
      some (oneEntry 45 154 5) := rfl
  refine ⟨hconf, fun hends => ?_⟩
  cases entries_of_ends hconf hends with
  | done hend => exact absurd hend (by decide)
  | entry hsize _ => cases hsize

end Mp
end Xv6
