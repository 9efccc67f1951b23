import Xv6.Fs.Content
import Xv6.Proc.Image

/-!
# The size of a new image

`exec` makes room for the segments that the headers of a file list, and for two
pages of stack.  A file without holes is read as it is, so that the size is a
function of its bytes.
-/

namespace Xv6
namespace Kernel

open Lib Lib.Run

/-- What `allocuvm` returns if there are enough pages. -/
def allocEnd (oldsz newsz : UInt32) : UInt32 :=
  if newsz < oldsz then oldsz else newsz

def loadEnd (sz : UInt32) (ph : Proghdr) : UInt32 :=
  if ph.type ≠ ELF_PROG_LOAD then sz else allocEnd sz (ph.vaddr + ph.memsz)

def proghdrs (bytes : List UInt8) : Nat -> UInt32 -> List Proghdr
  | 0, _ => []
  | n + 1, off =>
      Proghdr.ofBytes ((bytes.drop off.toNat).take PROGHDR) ::
        proghdrs bytes n (off + 32)

def imageSize (bytes : List UInt8) : UInt32 :=
  let elf := Elfhdr.ofBytes (bytes.take ELFHDR)
  let sz := PGROUNDUP ((proghdrs bytes elf.phnum elf.phoff).foldl loadEnd 0)
  allocEnd sz (sz + 2 * 4096)

/-- How `exec` finds and locks the file. -/
def execOpen (pid : Int32) (cwd : Option Slot) (path : List UInt8) :
    FsM (Option Slot) := do
  Fs.beginOp
  match ← Fs.namei pid cwd path with
  | none => pure none
  | some ip => do
      Fs.ilock pid ip
      pure (some ip)

/-- The file in slot `ip` is no device and has no holes. -/
structure Whole (s : Fs) (ip : Slot) : Prop where
  dev : (s.icache ip).din.type ≠ T_DEV
  map : (s.icache ip).din.HoleFree s.disk

def fileBytes (s : Fs) (ip : Slot) : List UInt8 :=
  (s.icache ip).din.content s.disk

section Size

variable {α : Type} {k : Kernel} {ip : Slot}

theorem wp_allocuvm_end (pgdir oldsz newsz : UInt32) (s : Vm) :
    wp (Vm.allocuvm pgdir oldsz newsz)
      (fun r _ => r ≠ 0 -> r = allocEnd oldsz newsz) (fun _ => True) s := by
  unfold Vm.allocuvm allocEnd
  rw [wp_ite, wp_ite]
  refine ⟨fun _ hne => absurd rfl hne, fun _ => ⟨fun hlt _ => ?_, fun hge => ?_⟩⟩
  · exact (if_pos hlt).symm
  · rw [if_neg hge]
    apply wp_bind_trivial
    intro ok s'
    cases ok with
    | true => exact fun _ => rfl
    | false => exact fun hne => absurd rfl hne

theorem wp_onVm_any {m : VmM α} {Q : α -> Kernel -> Prop}
    (h : forall a s, Q a { k with vm := s }) :
    wp (onVm m) Q (fun _ => True) k := by
  unfold onVm
  rw [wp_zoom]
  exact wp_trivial h

theorem wp_onFs_ok {m : FsM α} {Q : α -> Kernel -> Prop} {E : Stop -> Prop}
    {a : α} {s : Fs} (hrun : m k.fs = .ok (a, s)) (h : Q a { k with fs := s }) :
    wp (onFs m) Q E k := by
  unfold onFs
  rw [wp_zoom]
  exact wp_of_ok hrun h

/-- A complete read gives the bytes of the file. -/
theorem Whole.wp_readi (h : Whole k.fs ip) (pid : Int32) (off n : UInt32)
    {Q : Int × List UInt8 -> Kernel -> Prop}
    (hQ : forall r, (r.1 = (n.toNat : Int) ->
      r.2 = ((fileBytes k.fs ip).drop off.toNat).take n.toNat) -> Q r k) :
    wp (onFs (Fs.readi pid ip off n)) Q (fun _ => True) k := by
  have hread := Fs.readi_spec pid off n h.dev h.map
  split at hread
  · apply wp_onFs_ok hread
    refine hQ (-1, []) (fun hr => ?_)
    exact absurd hr (by dsimp only; lia)
  · apply wp_onFs_ok hread
    exact hQ _ (fun _ => rfl)

theorem Whole.wp_loaduvm (h : Whole k.fs ip) (pid : Int32)
    (pgdir addr offset sz : UInt32) :
    wp (loaduvm pid pgdir addr ip offset sz) (fun _ k' => k'.fs = k.fs)
      (fun _ => True) k := by
  have hloop : forall fuel i k', k'.fs = k.fs ->
      wp (loaduvmLoop pid pgdir addr ip offset sz fuel i)
        (fun _ k'' => k''.fs = k.fs) (fun _ => True) k' := by
    intro fuel
    induction fuel with
    | zero => exact fun _ _ hk => hk
    | succ fuel ih =>
        intro i k' hk
        unfold loaduvmLoop
        rw [wp_ite]
        refine ⟨fun _ => ?_, fun _ => hk⟩
        rw [wp_bind]
        apply wp_onVm_any
        intro entry s1
        cases entry with
        | none => trivial
        | some entry =>
            rcases entry with ⟨pgtab, j⟩
            apply wp_bind.mpr
            apply wp_onVm_any
            intro pte s2
            rw [wp_bind]
            have hwhole : Whole { k' with vm := s2 }.fs ip := by
              rw [← hk] at h
              exact h
            apply hwhole.wp_readi
            intro r _
            rw [wp_bind]
            apply wp_onVm_any
            intro _ s3
            rw [wp_ite]
            exact ⟨fun _ => hk, fun _ => ih _ _ hk⟩
  unfold loaduvm
  rw [wp_ite]
  exact ⟨fun _ => trivial, fun _ => hloop _ _ k rfl⟩

theorem Whole.wp_execLoad (h : Whole k.fs ip) (pid : Int32) (pgdir : UInt32)
    (n : Nat) (off sz : UInt32) :
    wp (execLoad pid ip pgdir n off sz)
      (fun r _ => forall sz', r = some sz' ->
        sz' = (proghdrs (fileBytes k.fs ip) n off).foldl loadEnd sz)
      (fun _ => True) k := by
  induction n generalizing off sz k with
  | zero => exact fun sz' hsz => (Option.some.inj hsz).symm
  | succ n ih =>
      unfold execLoad
      rw [wp_bind]
      apply h.wp_readi
      intro r hr
      rw [wp_ite]
      have hnone : forall sz', (none : Option UInt32) = some sz' ->
          sz' = (proghdrs (fileBytes k.fs ip) (n + 1) off).foldl loadEnd sz := by
        intro sz' hbad
        cases hbad
      refine ⟨fun _ => hnone, fun hlen => ?_⟩
      have hbytes := hr (not_not.mp hlen)
      change r.2 = (List.drop off.toNat (fileBytes k.fs ip)).take PROGHDR at hbytes
      rw [proghdrs, List.foldl_cons] at hnone ⊢
      rw [hbytes]
      dsimp only
      generalize Proghdr.ofBytes
        (((fileBytes k.fs ip).drop off.toNat).take PROGHDR) = ph at hnone ⊢
      rw [wp_ite, wp_ite, wp_ite]
      refine ⟨fun hskip => ?_, fun hload => ⟨fun _ => hnone,
        fun _ => ⟨fun _ => hnone, fun _ => ?_⟩⟩⟩
      · rw [loadEnd, if_pos hskip]
        exact ih h _ _
      · rw [loadEnd, if_neg hload] at hnone ⊢
        rw [wp_bind]
        unfold onVm
        rw [wp_zoom]
        apply wp_post (wp_allocuvm_end _ _ _ k.vm)
        intro sz' s hend
        rw [wp_ite, wp_ite]
        refine ⟨fun _ => hnone, fun hne => ⟨fun _ => hnone, fun _ => ?_⟩⟩
        rw [← hend hne] at hnone ⊢
        rw [wp_bind]
        have hwhole : Whole { k with vm := s }.fs ip := h
        apply wp_post (hwhole.wp_loaduvm pid pgdir _ _ _)
        intro ok k' hk
        change k'.fs = k.fs at hk
        cases ok with
        | false => exact hnone
        | true =>
            rw [← hk] at h ⊢
            exact ih h _ _

theorem wp_refused {β γ : Type} (m : KM β) (P : γ -> Prop) :
    wp (do
      let _ ← m
      pure (none : Option γ)) (fun r _ => forall x, r = some x -> P x)
      (fun _ => True) k := by
  apply wp_bind_trivial
  intro _ _ x hx
  cases hx

theorem wp_execRoom_size (pgdir sz : UInt32) (s : Vm) :
    wp (Vm.execRoom pgdir sz) (fun r _ => forall sz', r = some sz' ->
      sz' = allocEnd (PGROUNDUP sz) (PGROUNDUP sz + 2 * 4096))
      (fun _ => True) s := by
  unfold Vm.execRoom
  dsimp only
  generalize PGROUNDUP sz + 2 * 4096 = newsz
  rw [wp_bind]
  apply wp_post (wp_allocuvm_end _ _ _ s)
  intro r s' hend
  rw [wp_ite]
  refine ⟨fun _ sz' hsz => ?_, fun hne => ?_⟩
  · cases hsz
  · apply wp_bind_trivial
    intro _ _ sz' hsz
    rw [← Option.some.inj hsz]
    exact hend hne

/-- `exec` lays out an image of that size. -/
theorem execSpace_size {cur : Pslot} {path : List UInt8} {s : Fs}
    {d sz entry : UInt32} {k' : Kernel}
    (hopen : execOpen (k.proc cur).pid (k.proc cur).cwd path k.fs =
      .ok (some ip, s))
    (h : Whole s ip)
    (hspace : execSpace cur path k = .ok (some (d, sz, entry), k')) :
    sz = imageSize (fileBytes s ip) := by
  unfold execOpen at hopen
  rcases bind_eq_ok.mp hopen with ⟨_, s1, hbegin, hrest⟩
  rcases bind_eq_ok.mp hrest with ⟨found, s2, hnamei, hlock⟩
  cases found with
  | none => cases hlock
  | some ip' =>
      rcases bind_eq_ok.mp hlock with ⟨_, s3, hilock, hend⟩
      cases hend
      have hwp : wp (execSpace cur path)
          (fun r _ => forall x, r = some x ->
            x.2.1 = imageSize (fileBytes s ip)) (fun _ => True) k := by
        unfold execSpace pidOf cwdOf
        rw [wp_bind, wp_gets, wp_bind, wp_gets, wp_bind]
        apply wp_onFs_ok hbegin
        rw [wp_bind]
        apply wp_onFs_ok hnamei
        apply wp_bind.mpr
        apply wp_onFs_ok hilock
        apply wp_bind.mpr
        have hwhole : Whole { k with fs := s }.fs ip := h
        apply hwhole.wp_readi
        intro r hr
        rw [wp_ite, wp_ite]
        refine ⟨fun _ => wp_refused _ _, fun hlen =>
          ⟨fun _ => wp_refused _ _, fun _ => ?_⟩⟩
        have hbytes := hr (not_not.mp hlen)
        change r.2 = (List.drop 0 (fileBytes s ip)).take ELFHDR at hbytes
        rw [hbytes, List.drop_zero]
        apply wp_bind.mpr
        apply wp_onVm_any
        intro pgdir s4
        cases pgdir with
        | none => exact wp_refused _ _
        | some pgdir =>
            apply wp_bind.mpr
            have hwhole' : Whole { k with fs := s, vm := s4 }.fs ip := h
            apply wp_post (hwhole'.wp_execLoad _ pgdir _ _ 0)
            intro sz k1 hload
            cases sz with
            | none => exact wp_refused _ _
            | some sz =>
                rw [hload sz rfl]
                apply wp_bind_trivial
                intro _ k2
                apply wp_bind_trivial
                intro _ k3
                apply wp_bind.mpr
                unfold onVm
                rw [wp_zoom]
                apply wp_post (wp_execRoom_size pgdir _ k3.vm)
                intro sz' s5 hsize
                cases sz' with
                | none => exact wp_refused _ _
                | some sz' =>
                    rintro x ⟨⟩
                    exact hsize sz' rfl
      exact wp_ok hwp hspace _ rfl

end Size

end Kernel
end Xv6
