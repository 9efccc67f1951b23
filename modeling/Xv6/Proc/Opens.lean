import Xv6.Proc.Release

/-!
# Open files under the calls

What a call does to the open files and to the descriptors of its process.  A
call that closes nothing only adds files and references; a file that is closed
stays what it is while a reference is left.
-/

namespace Xv6
namespace Kernel

open Lib Lib.Run

/-!
## Calls that close nothing
-/

/-- No open file loses a reference or becomes another one. -/
structure Grown (fl fl' : File) : Prop where
  ref : 0 ≤ fl.ref -> fl.ref ≤ fl'.ref
  same : 1 ≤ fl.ref -> SameOpen fl fl'

def Grows (t t' : Fslot -> File) : Prop := forall f, Grown (t f) (t' f)

theorem Grows.refl (t : Fslot -> File) : Grows t t :=
  fun _ => ⟨fun _ => le_rfl, fun _ => rfl⟩

theorem Grows.fresh {t t' : Fslot -> File} (h : Grows t t') {f : Fslot}
    (hf : ¬ 1 ≤ (t f).ref) {fl : File} (hfl : 0 ≤ fl.ref) :
    Grows t (Function.update t' f fl) := by
  intro f'
  rcases eq_or_ne f' f with rfl | hne
  · rw [Function.update_self]
    exact ⟨fun _ => by lia, fun hopen => absurd hopen hf⟩
  · rw [Function.update_of_ne hne]
    exact h f'

theorem Grows.more {t t' : Fslot -> File} (h : Grows t t') {f : Fslot}
    {fl : File} (href : (t' f).ref ≤ fl.ref) (hsame : SameOpen (t' f) fl) :
    Grows t (Function.update t' f fl) := by
  intro f'
  rcases eq_or_ne f' f with rfl | hne
  · rw [Function.update_self]
    exact ⟨fun hf' => ((h f').ref hf').trans href,
      fun hf' => ((h f').same hf').trans hsame⟩
  · rw [Function.update_of_ne hne]
    exact h f'

theorem Grows.open {t t' : Fslot -> File} (h : Grows t t') {f : Fslot}
    (hf : 1 ≤ (t f).ref) : 1 ≤ (t' f).ref := by
  have hmore := (h f).ref (by lia)
  lia

theorem held_eq_sum (ofile : Fin NOFILE -> Option Fslot) (f : Fslot) :
    held ofile (List.finRange NOFILE) f =
      Finset.univ.sum (fun fd => if ofile fd = some f then 1 else 0) := by
  rw [Fin.sum_univ_def, held]
  generalize List.finRange NOFILE = fds
  induction fds with
  | nil => rfl
  | cons fd fds ih =>
      rw [List.map_cons, List.sum_cons, ← ih, List.countP_cons, add_comm]
      simp

theorem held_update (ofile : Fin NOFILE -> Option Fslot) (fd : Fin NOFILE)
    (v : Option Fslot) (f : Fslot) :
    held (Function.update ofile fd v) (List.finRange NOFILE) f +
        (if ofile fd = some f then 1 else 0) =
      held ofile (List.finRange NOFILE) f + (if v = some f then 1 else 0) := by
  simp only [held_eq_sum]
  exact sum_update (fun w : Option Fslot => if w = some f then 1 else 0) ofile v
    (Finset.mem_univ fd)

/-- The call of `cur` turns `k` into `k'` and closes nothing: a new descriptor
is one of an open file, and every file has the references of the descriptors.
The files in `hand` have been opened and have no descriptor yet. -/
structure Adds (hand : Multiset Fslot) (cur : Pslot) (k k' : Kernel) :
    Prop where
  file : Grows k.file k'.file
  entry : forall fd f, (k'.proc cur).ofile fd = some f ->
    (k.proc cur).ofile fd = some f ∨ 1 ≤ (k'.file f).ref
  cwd : (k'.proc cur).cwd = (k.proc cur).cwd
  tally : forall f,
    (k'.file f).ref + (held (k.proc cur).ofile (List.finRange NOFILE) f : Int) =
      (k.file f).ref + (held (k'.proc cur).ofile (List.finRange NOFILE) f : Int)
        + hand.count f
  taken : forall f, f ∈ hand -> 1 ≤ (k'.file f).ref

/-- The files without their offsets, and what refers to files and
directories. -/
def entries (k : Kernel) :
    (Fslot -> File) × (Pslot -> (Fin NOFILE -> Option Fslot) × Option Slot) :=
  (fun f => { k.file f with off := 0 },
    fun p => ((k.proc p).ofile, (k.proc p).cwd))

theorem sameOpen_of_offset {fl fl' : File}
    (h : ({ fl' with off := 0 } : File) = { fl with off := 0 }) :
    fl'.ref = fl.ref ∧ SameOpen fl fl' := by
  cases fl
  cases fl'
  simp only [File.mk.injEq] at h
  simp [SameOpen, h]

theorem grows_of_entries {k k' : Kernel} (h : k'.entries = k.entries) :
    Grows k.file k'.file := by
  intro f
  rcases sameOpen_of_offset (congrFun (congrArg Prod.fst h) f) with
    ⟨href, hsame⟩
  exact ⟨fun _ => href.ge, fun _ => hsame⟩

theorem adds_of_entries {cur : Pslot} {k k' : Kernel}
    (h : k'.entries = k.entries) : Adds 0 cur k k' := by
  have hproc := congrFun (congrArg Prod.snd h) cur
  have hofile : (k'.proc cur).ofile = (k.proc cur).ofile :=
    congrArg Prod.fst hproc
  have href : forall f, (k'.file f).ref = (k.file f).ref := fun f =>
    (sameOpen_of_offset (congrFun (congrArg Prod.fst h) f)).1
  constructor
  · exact grows_of_entries h
  · intro fd f hf
    rw [hofile] at hf
    exact Or.inl hf
  · exact congrArg Prod.snd hproc
  · intro f
    rw [href, hofile, Multiset.count_zero, Nat.cast_zero, add_zero]
  · exact fun f hf => absurd hf (Multiset.notMem_zero f)

section Entries

variable {α : Type} {cur : Pslot}

theorem aside_entries : Aside entries :=
  ⟨fun _ _ => rfl, fun _ _ => rfl, fun _ _ => rfl⟩

theorem keepsEntries_of_opens {m : KM α} (h : Keeps opens m) :
    Keeps entries m :=
  turns_of_opens
    (J := fun t o =>
      ((o.1, fun p => ((o.2.proc p).ofile, (o.2.proc p).cwd)) :
        (Fslot -> File) ×
          (Pslot -> (Fin NOFILE -> Option Fslot) × Option Slot)) = t) h

theorem keepsEntries_setProc (p : Pslot) (g : Proc -> Proc)
    (hofile : forall pr, (g pr).ofile = pr.ofile)
    (hcwd : forall pr, (g pr).cwd = pr.cwd) :
    Keeps entries (setProc p g) := by
  rintro _ k rfl
  refine Prod.ext rfl ?_
  funext q
  rcases eq_or_ne q p with rfl | hne
  · simp only [entries, Function.update_self]
    rw [hofile, hcwd]
  · simp only [entries, Function.update_of_ne hne]

theorem keepsEntries_sysExec
    (args : Option (List UInt8 × List (List UInt8))) :
    Keeps entries (sysExec cur args) := by
  cases args with
  | none => exact keeps_pure _
  | some args =>
      apply Turns.ite (keeps_pure _)
      refine turns_exec_opens
        (J := fun t o =>
          ((o.1, fun p => ((o.2.proc p).ofile, (o.2.proc p).cwd)) :
            (Fslot -> File) ×
              (Pslot -> (Fin NOFILE -> Option Fslot) × Option Slot)) = t)
        ?_ args.2
      intro pgdir sz entry sp _
      exact Turns.bind (keeps_gets _) (fun _ =>
        Turns.bind
          (keepsEntries_setProc cur _ (fun _ => by rfl) (fun _ => by rfl))
          (fun _ => Turns.bind (keeps_switchuvm cur) (fun _ =>
            Turns.bind (aside_entries.onVm _) (fun _ => keeps_pure _))))

theorem keepsEntries_sysSbrk (n : Option Int32) :
    Keeps entries (sysSbrk cur n) :=
  keeps_sysSbrk aside_entries.onVm
    (fun _ => keepsEntries_setProc cur _ (fun _ => by rfl) (fun _ => by rfl)) n

end Entries

/-!
## Opening files
-/

section Open

variable {α : Type} {cur : Pslot} {k₀ k : Kernel} {hand : Multiset Fslot}

/-- The kernel once `fdalloc` has put the file `f` into the table. -/
def seated (k : Kernel) (cur : Pslot) (fd : Fin NOFILE) (f : Option Fslot) :
    Kernel :=
  { k with
    proc := Function.update k.proc cur
      { k.proc cur with ofile := Function.update (k.proc cur).ofile fd f } }

theorem seated_back {fd : Fin NOFILE} {v : Option Fslot}
    (h : (k.proc cur).ofile fd = none) :
    (k.seated cur fd v).seated cur fd none = k := by
  unfold seated
  simp only [Function.update_self, Function.update_idem]
  rw [← h]
  simp

theorem wp_fdalloc_lowest {Q : Option (Fin NOFILE) -> Kernel -> Prop}
    {E : Stop -> Prop} {f : Fslot} (hnone : Q none k)
    (hsome : forall fd, (k.proc cur).ofile fd = none ->
      (forall i, i < fd -> (k.proc cur).ofile i ≠ none) ->
      Q (some fd) (k.seated cur fd (some f))) :
    wp (fdalloc cur f) Q E k := by
  unfold fdalloc
  rw [wp_bind, wp_gets]
  cases hfind : (List.finRange NOFILE).find?
      (fun fd => (k.proc cur).ofile fd = none) with
  | none => exact hnone
  | some fd =>
      rcases scan_some hfind with ⟨hfree, hfirst⟩
      exact hsome fd hfree hfirst

theorem wp_fdalloc {Q : Option (Fin NOFILE) -> Kernel -> Prop}
    {E : Stop -> Prop} {f : Fslot} (hnone : Q none k)
    (hsome : forall fd, (k.proc cur).ofile fd = none ->
      Q (some fd) (k.seated cur fd (some f))) :
    wp (fdalloc cur f) Q E k :=
  wp_fdalloc_lowest hnone (fun fd hfd _ => hsome fd hfd)

theorem wp_filealloc {Q : Option Fslot -> Kernel -> Prop} {E : Stop -> Prop}
    (hnone : Q none k)
    (hsome : forall f, (k.file f).ref = 0 ->
      Q (some f)
        { k with
          file := Function.update k.file f { k.file f with ref := 1 } }) :
    wp filealloc Q E k := by
  unfold filealloc
  rw [wp_bind, wp_gets]
  cases hfind : (List.finRange NFILE).find?
      (fun f => (k.file f).ref = 0) with
  | none => exact hnone
  | some f => exact hsome f (by simpa using List.find?_some hfind)

/-- The files in `hand` are being opened: no descriptor has changed yet. -/
structure Stocks (hand : Multiset Fslot) (k₀ k : Kernel) : Prop where
  procs : k.procs = k₀.procs
  file : Grows k₀.file k.file
  ref : forall f, (k.file f).ref = (k₀.file f).ref + hand.count f
  fresh : forall f, f ∈ hand -> (k₀.file f).ref = 0

theorem Stocks.refl (k : Kernel) : Stocks 0 k k := by
  refine ⟨rfl, Grows.refl _, fun f => ?_, fun f hf => ?_⟩
  · rw [Multiset.count_zero, Nat.cast_zero, add_zero]
  · exact absurd hf (Multiset.notMem_zero f)

theorem Stocks.open (h : Stocks hand k₀ k) {f : Fslot} (hf : f ∈ hand) :
    1 ≤ (k.file f).ref := by
  have hpos := Multiset.count_pos.mpr hf
  rw [h.ref, h.fresh f hf]
  lia

theorem Stocks.adds (h : Stocks hand k₀ k) : Adds hand cur k₀ k := by
  have hproc : k.proc = k₀.proc := congrArg Procs.proc h.procs
  constructor
  · exact h.file
  · intro fd f hf
    rw [hproc] at hf
    exact Or.inl hf
  · rw [hproc]
  · intro f
    rw [hproc, h.ref]
    lia
  · exact fun f hf => h.open hf

theorem Stocks.setFile {hand' : Multiset Fslot} {k' : Kernel}
    (h : Stocks hand k₀ k) {f : Fslot} {fl : File}
    (hprocs : k'.procs = k.procs) (hfile : k'.file = Function.update k.file f fl)
    (hfresh : (k₀.file f).ref = 0) (hfl : fl.ref = hand'.count f)
    (hother : forall f', f' ≠ f -> hand'.count f' = hand.count f') :
    Stocks hand' k₀ k' := by
  constructor
  · exact hprocs.trans h.procs
  · rw [hfile]
    exact h.file.fresh (by lia) (by lia)
  · intro f'
    rw [hfile]
    rcases eq_or_ne f' f with rfl | hne
    · rw [Function.update_self, hfl, hfresh, zero_add]
    · rw [Function.update_of_ne hne, hother f' hne]
      exact h.ref f'
  · intro f' hf'
    rcases eq_or_ne f' f with rfl | hne
    · exact hfresh
    · apply h.fresh f'
      rw [← Multiset.count_pos, ← hother f' hne]
      exact Multiset.count_pos.mpr hf'

theorem wp_stocks_aside {m : KM α} (hm : Keeps tables m)
    (h : Stocks hand k₀ k) :
    wp m (fun _ k' => Stocks hand k₀ k') (fun _ => True) k := by
  apply wp_post (hm k.tables k rfl)
  intro _ k' hk'
  have hfile : k'.file = k.file := congrArg Prod.fst hk'
  refine ⟨(congrArg Prod.snd hk').trans h.procs, ?_, ?_, h.fresh⟩
  · rw [hfile]
    exact h.file
  · rw [hfile]
    exact h.ref

def taken (hand : Multiset Fslot) : Option Fslot -> Multiset Fslot
  | none => hand
  | some f => f ::ₘ hand

theorem wp_stocks_filealloc (h : Stocks hand k₀ k) :
    wp filealloc (fun r k' => Stocks (taken hand r) k₀ k') (fun _ => True)
      k := by
  apply wp_filealloc
  · exact h
  · intro f hzero
    have href := h.ref f
    have hnot : f ∉ hand := by
      intro hf
      have hopen := h.open hf
      lia
    have hnone : hand.count f = 0 := Multiset.count_eq_zero_of_notMem hnot
    refine h.setFile rfl rfl (by lia) ?_ ?_
    · show (1 : Int) = ((f ::ₘ hand).count f : Nat)
      rw [Multiset.count_cons_self, hnone]
      rfl
    · exact fun f' hne => Multiset.count_cons_of_ne hne hand

theorem wp_stocks_fileclose {f : Fslot} (h : Stocks (f ::ₘ hand) k₀ k) :
    wp (fileclose cur f) (fun _ k' => Stocks hand k₀ k') (fun _ => True) k := by
  apply wp_mono (wp_fileclose_file cur f k) ?_ (fun _ _ => trivial)
  rintro _ k' ⟨hprocs, fl, hfile, hfl, _⟩
  have hfresh := h.fresh f (Multiset.mem_cons_self f hand)
  refine h.setFile hprocs hfile hfresh ?_ ?_
  · rw [hfl, h.ref f, hfresh, Multiset.count_cons_self]
    lia
  · exact fun f' hne => (Multiset.count_cons_of_ne hne hand).symm

theorem wp_stocks_giveBack {m : KM α} {Q : α -> Kernel -> Prop} (cur : Pslot)
    (f : Option Fslot) (h : Stocks (taken hand f) k₀ k)
    (hm : forall k', Stocks hand k₀ k' -> wp m Q (fun _ => True) k') :
    wp
      (do
        match f with
        | some f => fileclose cur f
        | none => pure ()
        m) Q (fun _ => True) k := by
  cases f with
  | none => exact hm k h
  | some f =>
      rw [wp_bind]
      exact wp_post (wp_stocks_fileclose h) (fun _ k' h' => hm k' h')

theorem Adds.seat {f : Fslot} (h : Adds (f ::ₘ hand) cur k₀ k)
    {fd : Fin NOFILE} (hfd : (k.proc cur).ofile fd = none) :
    Adds hand cur k₀ (k.seated cur fd (some f)) := by
  have hseat : ((k.seated cur fd (some f)).proc cur).ofile =
      Function.update (k.proc cur).ofile fd (some f) := by
    simp [seated]
  constructor
  · exact h.file
  · intro fd' f' hf'
    rw [hseat] at hf'
    rcases eq_or_ne fd' fd with rfl | hne
    · rw [Function.update_self] at hf'
      cases hf'
      exact Or.inr (h.taken f (Multiset.mem_cons_self f hand))
    · rw [Function.update_of_ne hne] at hf'
      exact h.entry fd' f' hf'
  · simpa [seated] using h.cwd
  · intro f'
    have htally := h.tally f'
    have hmore := held_update (k.proc cur).ofile fd (some f) f'
    rw [hfd, if_neg (by simp)] at hmore
    rw [hseat]
    show (k.file f').ref + _ = _
    rcases eq_or_ne f' f with rfl | hne
    · rw [if_pos rfl] at hmore
      rw [Multiset.count_cons_self] at htally
      lia
    · rw [if_neg (by simpa using hne.symm)] at hmore
      rw [Multiset.count_cons_of_ne hne] at htally
      lia
  · exact fun f' hf' => h.taken f' (Multiset.mem_cons_of_mem hf')

theorem Adds.congr {k' : Kernel} (h : Adds hand cur k₀ k)
    (hkeep : k'.tables = k.tables) : Adds hand cur k₀ k' := by
  have hfile : k'.file = k.file := congrArg Prod.fst hkeep
  have hproc : k'.proc = k.proc :=
    congrArg (fun t : (Fslot -> File) × Procs => t.2.proc) hkeep
  rcases h with ⟨h1, h2, h3, h4, h5⟩
  rw [← hfile] at h1 h2 h4 h5
  rw [← hproc] at h2 h3 h4
  exact ⟨h1, h2, h3, h4, h5⟩

theorem Adds.setFile (h : Adds hand cur k₀ k) {f : Fslot}
    (hbefore : (k₀.file f).ref = 0) (hone : 1 ≤ (k.file f).ref) {fl : File}
    (hfl : fl.ref = (k.file f).ref) :
    Adds hand cur k₀ { k with file := Function.update k.file f fl } := by
  have href : forall f', (Function.update k.file f fl f').ref =
      (k.file f').ref := by
    intro f'
    rcases eq_or_ne f' f with rfl | hne
    · rw [Function.update_self, hfl]
    · rw [Function.update_of_ne hne]
  constructor
  · exact h.file.fresh (by lia) (by lia)
  · intro fd f' hf'
    rw [href]
    exact h.entry fd f' hf'
  · exact h.cwd
  · intro f'
    rw [href]
    exact h.tally f'
  · intro f' hf'
    rw [href]
    exact h.taken f' hf'

theorem adds_sysDup (fd : Option Int32) (k : Kernel) :
    wp (sysDup cur fd) (fun _ k' => Adds 0 cur k k') (fun _ => True) k := by
  unfold sysDup
  rw [wp_bind]
  apply wp_post ((keeps_argfd fd : Keeps id (argfd cur fd)) k k rfl)
  intro r k' hk'
  obtain rfl : k = k' := hk'.symm
  cases r with
  | none => exact (Stocks.refl k).adds
  | some r =>
      simp only [wp_bind]
      apply wp_fdalloc
      · exact (Stocks.refl k).adds
      · intro fd hfd
        unfold filedup
        rw [wp_bind, wp_bind, wp_gets, wp_ite]
        refine ⟨fun _ => trivial, fun hopen => ?_⟩
        have hopen : ¬ (k.file r.2).ref < 1 := hopen
        -- with the new reference the file is one in the hand
        have hhand : Adds (r.2 ::ₘ 0) cur k
            { k with
              file := Function.update k.file r.2
                { k.file r.2 with ref := (k.file r.2).ref + 1 } } := by
          constructor
          · apply (Grows.refl k.file).more
            · show (k.file r.2).ref ≤ (k.file r.2).ref + 1
              lia
            · rfl
          · exact fun _ _ hf => Or.inl hf
          · rfl
          · intro f
            show (Function.update k.file r.2 _ f).ref + _ = _
            rcases eq_or_ne f r.2 with rfl | hne
            · rw [Function.update_self, Multiset.count_cons_self,
                Multiset.count_zero]
              show (k.file r.2).ref + 1 + _ = _
              lia
            · rw [Function.update_of_ne hne, Multiset.count_cons_of_ne hne,
                Multiset.count_zero]
              lia
          · intro f hf
            obtain rfl : f = r.2 := by simpa using hf
            show 1 ≤ (Function.update k.file r.2 _ r.2).ref
            rw [Function.update_self]
            show 1 ≤ (k.file r.2).ref + 1
            lia
        exact hhand.seat hfd

theorem wp_stocks_openBad (pid : Int32) (f : Option Fslot) (ip : Slot)
    (h : Stocks (taken 0 f) k₀ k) :
    wp (openBad cur pid f ip) (fun _ k' => Stocks 0 k₀ k') (fun _ => True)
      k := by
  have htail : forall k1, Stocks 0 k₀ k1 ->
      wp
        (do
          onFs (Fs.iunlockput pid ip)
          onFs (Fs.endWith (-1 : Int)))
        (fun _ k' => Stocks 0 k₀ k') (fun _ => True) k1 :=
    fun k1 h1 => wp_stocks_aside (Turns.bind (aside_tables.onFs _)
      (fun _ => aside_tables.onFs _)) h1
  have hback := wp_stocks_giveBack cur f h htail
  cases f with
  | none | some f => exact hback

theorem adds_sysOpen (path : Option (List UInt8)) (omode : Option UInt32)
    (k : Kernel) :
    wp (sysOpen cur path omode) (fun _ k' => Adds 0 cur k k')
      (fun _ => True) k := by
  have hpure : wp (pure (-1) : KM Int) (fun _ k' => Adds 0 cur k k')
      (fun _ => True) k :=
    (Stocks.refl k).adds
  cases path with
  | none => exact hpure
  | some path =>
    cases omode with
    | none => exact hpure
    | some omode =>
      unfold sysOpen pidOf cwdOf
      simp only [wp_bind, wp_gets]
      apply wp_post (wp_stocks_aside (aside_tables.onFs _) (Stocks.refl k))
      intro _ k1 h1
      apply wp_post (wp_stocks_aside (aside_tables.onFs _) h1)
      intro ip k2 h2
      cases ip with
      | none =>
          apply wp_post (wp_stocks_aside (aside_tables.onFs _) h2)
          exact fun _ _ h => h.adds
      | some ip =>
          simp only [wp_bind]
          apply wp_post (wp_stocks_filealloc h2)
          intro f k3 h3
          cases f with
          | none =>
              apply wp_post (wp_stocks_openBad (k.proc cur).pid none ip h3)
              exact fun _ _ h => h.adds
          | some f =>
              simp only [wp_bind]
              apply wp_fdalloc
              · apply wp_post
                  (wp_stocks_openBad (k.proc cur).pid (some f) ip h3)
                exact fun _ _ h => h.adds
              · intro fd hfd
                have h3 : Stocks (f ::ₘ 0) k k3 := h3
                have hmem : f ∈ f ::ₘ 0 := Multiset.mem_cons_self f 0
                have hseat : Adds 0 cur k (k3.seated cur fd (some f)) :=
                  h3.adds.seat hfd
                simp only [wp_bind]
                apply wp_post (aside_tables.onFs _ _ _ rfl)
                intro _ k4 h4
                apply wp_post (aside_tables.onFs _ _ _ rfl)
                intro _ k5 h5
                refine (hseat.congr (h5.trans h4)).setFile (h3.fresh f hmem)
                  ?_ rfl
                rw [show k5.file = k3.file from
                  congrArg Prod.fst (h5.trans h4)]
                exact h3.open hmem

def takenPair : Option (Fslot × Fslot) -> Multiset Fslot
  | none => 0
  | some (f0, f1) => f0 ::ₘ f1 ::ₘ 0

theorem wp_stocks_pipealloc (k : Kernel) :
    wp (pipealloc cur) (fun r k' => Stocks (takenPair r) k k') (fun _ => True)
      k := by
  have hbad : forall (f0 f1 : Option Fslot) k1,
      Stocks (taken (taken 0 f1) f0) k k1 ->
        wp (pipeallocBad cur f0 f1) (fun r k' => Stocks (takenPair r) k k')
          (fun _ => True) k1 :=
    fun f0 f1 k1 h1 => wp_stocks_giveBack cur f0 h1
      (fun k2 h2 => wp_stocks_giveBack cur f1 h2 (fun k3 h3 => h3))
  unfold pipealloc
  rw [wp_bind]
  apply wp_post (wp_stocks_filealloc (Stocks.refl k))
  intro f0 k1 h1
  cases f0 with
  | none => exact hbad none none k1 h1
  | some f0 =>
      simp only [wp_bind]
      apply wp_post (wp_stocks_filealloc h1)
      intro f1 k2 h2
      cases f1 with
      | none => exact hbad (some f0) none k2 h2
      | some f1 =>
          have hpair : Stocks (f0 ::ₘ f1 ::ₘ 0) k k2 := by
            rw [Multiset.cons_swap]
            exact h2
          simp only [wp_bind]
          apply wp_post (wp_stocks_aside (aside_tables.onVm _) hpair)
          intro p k3 h3
          cases p with
          | none => exact hbad (some f0) (some f1) k3 h3
          | some p =>
              -- the two files keep their references
              have hset : forall {f : Fslot} {fl : File} {k4 : Kernel},
                  Stocks (f0 ::ₘ f1 ::ₘ 0) k k4 -> f ∈ f0 ::ₘ f1 ::ₘ 0 ->
                    fl.ref = (k4.file f).ref ->
                      Stocks (f0 ::ₘ f1 ::ₘ 0) k
                        { k4 with file := Function.update k4.file f fl } := by
                intro f fl k4 h4 hf hfl
                refine h4.setFile rfl rfl (h4.fresh f hf) ?_ (fun _ _ => rfl)
                rw [hfl, h4.ref, h4.fresh f hf, zero_add]
              have hpipe : forall pi, Stocks (f0 ::ₘ f1 ::ₘ 0) k
                  { k3 with pipe := Function.update k3.pipe p pi } :=
                fun _ => ⟨h3.procs, h3.file, h3.ref, h3.fresh⟩
              exact hset (hset (hpipe _) (by simp) rfl) (by simp) rfl

theorem adds_sysPipe (ok : Bool) (k : Kernel) :
    wp (sysPipe cur ok) (fun _ k' => Adds 0 cur k k') (fun _ => True) k := by
  unfold sysPipe
  rw [wp_ite]
  refine ⟨fun _ => (Stocks.refl k).adds, fun _ => ?_⟩
  rw [wp_bind]
  apply wp_post (wp_stocks_pipealloc k)
  intro r k1 h1
  cases r with
  | none => exact h1.adds
  | some r =>
      rcases r with ⟨rf, wf⟩
      have h1 : Stocks (rf ::ₘ wf ::ₘ 0) k k1 := h1
      -- both files are given up
      have hclose : wp
          (do
            fileclose cur rf
            fileclose cur wf
            pure ((-1, none) : Int × Option (Fin NOFILE × Fin NOFILE)))
          (fun _ k' => Adds 0 cur k k') (fun _ => True) k1 := by
        simp only [wp_bind]
        apply wp_post (wp_stocks_fileclose h1)
        intro _ k2 h2
        apply wp_post (wp_stocks_fileclose h2)
        exact fun _ _ h3 => h3.adds
      simp only [wp_bind]
      apply wp_fdalloc
      · simpa only [wp_bind] using hclose
      · intro fd0 hfd0
        simp only [wp_bind]
        apply wp_fdalloc
        · -- the first descriptor is taken back
          rw [← seated_back (v := some rf) hfd0] at hclose
          simp only [wp_bind] at hclose ⊢
          exact hclose
        · intro fd1 hfd1
          exact (h1.adds.seat hfd0).seat hfd1

end Open

end Kernel
end Xv6
