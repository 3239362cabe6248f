import Elyra.Posix.Calls
import Elyra.Quarantine.Outcome

set_option autoImplicit false

/-! # Exceptions that no handler names

The handler of `quarantine_file` names `OSError`, `ValueError`, `TypeError` and `QuarantineError`; they
are the exceptions of `Exc`. Another exception leaves the call at once, with the files as they are. While
the record is built there are calls that raise such exceptions: `magic.from_file` raises any, and after
`_utc_iso` the record is copied, which can raise `RecursionError`. -/

namespace Elyra.Quarantine

open Elyra.Python Elyra.Posix Elyra.Posix.Program

variable {F : Type} {α : Type}

/-! ## The calls while the record is built -/

/-- The calls whose exceptions may be any: `magic.from_file`, and `_utc_iso` with what follows it until
    the next call. -/
def Describing : (interface F).Call → Prop
  | .magic _ => True
  | .utcIso _ => True
  | _ => False

/-- The other calls. -/
def Elsewhere (c : (interface F).Call) : Prop := ¬ Describing c

theorem only_lift (x : Except Exc α) : Only Elsewhere (lift x : Prog F α) := by
  cases x <;> trivial

theorem only_check (ok : Prop) [Decidable ok] (e : Exc) :
    Only Elsewhere (check ok e : Prog F Unit) := by
  unfold check
  split <;> trivial

theorem only_ask {c : Call F} (h : Elsewhere c) : Only Elsewhere (ask c) := by
  refine ⟨h, fun r => ?_⟩
  cases r <;> trivial

theorem elsewhere_file (c : FileCall Path Directory) : Elsewhere (F := F) (.file c) := id

theorem only_sys (c : FileCall Path Directory) : Only Elsewhere (sys c : Prog F c.Answer) :=
  only_ask (elsewhere_file c)

theorem only_tracking {ℓ : Locals} {p : Prog F α} (h : Only Elsewhere p) :
    Only Elsewhere (tracking ℓ p) := .orElse h fun _ => trivial

theorem only_lexists (p : Path) : Only Elsewhere (lexists p : Prog F Bool) := by
  refine ⟨elsewhere_file _, fun r => ?_⟩
  cases r <;> trivial

theorem only_unlinkMissingOk (p : Path) : Only Elsewhere (unlinkMissingOk p : Prog F Unit) := by
  refine ⟨elsewhere_file _, fun r => ?_⟩
  dsimp only
  split <;> trivial

theorem only_onOsError {p : Prog F α} {cleanup : Prog F Unit} (hp : Only Elsewhere p)
    (hc : Only Elsewhere cleanup) : Only Elsewhere (onOsError p cleanup) := by
  refine .orElse hp fun e => ?_
  split
  · exact .bind hc fun _ => trivial
  · trivial

theorem only_fsyncDirectory (d : Directory) : Only Elsewhere (fsyncDirectory d : Prog F Unit) := by
  refine ⟨elsewhere_file _, fun r => ?_⟩
  cases r with
  | error e => trivial
  | ok u =>
      refine ⟨elsewhere_file _, fun r => ?_⟩
      dsimp only
      split <;> trivial

theorem only_openRegularNofollow (m : Manager) (p : Path) :
    Only Elsewhere (openRegularNofollow m p : Prog F (Nat × Stat)) := by
  refine ⟨elsewhere_file _, fun r => ?_⟩
  dsimp only
  split
  · trivial
  · trivial
  · refine .bind (only_sys _) fun opened => ?_
    refine .bind (only_check _ _) fun _ => ?_
    refine .bind (only_sys _) fun named => ?_
    refine .bind (only_check _ _) fun _ => ?_
    exact .bind (only_check _ _) fun _ => trivial

theorem only_hashFd (fd : Nat) : Only Elsewhere (hashFd fd : Prog F PyStr) :=
  .bind (only_sys _) fun _ => trivial

theorem only_assertFdUnchanged (fd : Nat) (initial : Stat) (operation : PyStr) :
    Only Elsewhere (assertFdUnchanged fd initial operation : Prog F Unit) :=
  .bind (only_sys _) fun _ => only_check _ _

theorem only_assertPathMatchesFd (p : Path) (fd : Nat) (initial : Stat) :
    Only Elsewhere (assertPathMatchesFd p fd initial : Prog F Unit) := by
  refine .bind (only_sys _) fun named => ?_
  refine .bind (only_sys _) fun opened => ?_
  refine .bind (only_check _ _) fun _ => ?_
  exact .bind (only_check _ _) fun _ => only_check _ _

theorem only_writeLoop (fuel fd : Nat) (data : Bytes) :
    Only Elsewhere (writeLoop fuel fd data : Prog F Unit) := by
  induction fuel generalizing data with
  | zero => trivial
  | succ fuel ih =>
      unfold writeLoop
      split
      · trivial
      · refine ⟨elsewhere_file _, fun r => ?_⟩
        cases r with
        | error e => trivial
        | ok written =>
            dsimp only
            split
            · trivial
            · exact ih _

theorem only_linkAndUnlink (source destination : Path) :
    Only Elsewhere (linkAndUnlink source destination : Prog F Unit) := by
  refine ⟨elsewhere_file _, fun r => ?_⟩
  cases r with
  | error e => trivial
  | ok u =>
      refine ⟨elsewhere_file _, fun r => ?_⟩
      cases r with
      | ok u => trivial
      | error e => exact ⟨elsewhere_file _, fun _ => trivial⟩

theorem only_moveNoreplace (source destination : Path) :
    Only Elsewhere (moveNoreplace source destination : Prog F Unit) := by
  refine .bind (only_lexists _) fun occupied => ?_
  refine .bind (only_check _ _) fun _ => ⟨elsewhere_file _, fun r => ?_⟩
  dsimp only
  split
  · trivial
  · exact only_linkAndUnlink _ _
  · exact only_linkAndUnlink _ _
  · trivial

/-! ## The parts of the `try` block -/

theorem only_openSource (m : Manager) (args : QuarantineArgs F) (source : Path) :
    Only Elsewhere (openSource m args source) := by
  refine .bind (only_openRegularNofollow _ _) fun opened => ?_
  refine .bind (only_lift _) fun _ => ?_
  refine .bind (only_hashFd _) fun hash => ?_
  refine .bind (only_assertFdUnchanged _ _ _) fun _ => ?_
  exact .bind (only_lift _) fun _ => trivial

theorem only_holdSource (source holding : Path) (fd : Nat) (opened : Stat) :
    Only Elsewhere (holdSource source holding fd opened : Prog F Stat) := by
  refine .bind (only_moveNoreplace _ _) fun _ => ?_
  refine .bind (only_assertPathMatchesFd _ _ _) fun _ => ?_
  refine .bind (only_sys _) fun held => ?_
  exact .bind (only_check _ _) fun _ => trivial

theorem only_copySource (fd : Nat) (temporary : Path) (hash : PyStr) (opened held : Stat) :
    Only Elsewhere (copySource fd temporary hash opened held : Prog F Unit) := by
  refine .bind ?_ fun copied => .bind (only_check _ _) fun _ => only_assertFdUnchanged _ _ _
  refine .bind (only_sys _) fun destination => ?_
  refine .bind ?_ fun copied => .bind (only_sys _) fun _ => .bind (only_sys _) fun _ => trivial
  exact .bind (only_sys _) fun data => .bind (only_writeLoop _ _ _) fun _ => trivial

theorem only_writeMetadataAtomic [FloatNum F] (m : Manager) (r : QuarantineRecord F) :
    Only Elsewhere (writeMetadataAtomic m r) := by
  refine .bind (only_lift _) fun _ => ?_
  refine .bind (only_lift _) fun id => ?_
  refine .bind ?_ fun _ => ?_
  · refine .bind (only_lexists _) fun found => ?_
    cases found with
    | false => trivial
    | true => exact .bind (only_sys _) fun _ => only_check _ _
  refine .bind (only_lift _) fun data => ?_
  refine .bind (only_ask (c := .token) fun h => h) fun token => ?_
  refine .bind ?_ fun _ => ?_
  · refine .bind (only_sys _) fun fd => only_onOsError ?_ (only_unlinkMissingOk _)
    refine .bind (only_writeLoop _ _ _) fun _ => ?_
    exact .bind (only_sys _) fun _ => .bind (only_sys _) fun _ => trivial
  · refine only_onOsError ?_ (only_unlinkMissingOk _)
    refine .bind (only_sys _) fun _ => ?_
    exact .bind (only_sys _) fun _ => only_fsyncDirectory _

theorem only_canonicalSourcePath (m : Manager) (path : PyStr) :
    Only Elsewhere (canonicalSourcePath m path : Prog F Path) := by
  unfold canonicalSourcePath
  dsimp only
  split
  · trivial
  · refine .bind (only_lexists _) fun found => ?_
    refine .bind (only_check _ _) fun _ => ?_
    refine .bind (only_sys _) fun named => ?_
    refine .bind (only_check _ _) fun _ => ?_
    refine .bind (.orElse (only_ask (c := .resolve _) fun h => h) fun e => trivial) fun _ => ?_
    refine .bind (only_lexists _) fun present => ?_
    exact .bind (only_check _ _) fun _ => trivial

theorem only_unlinkIfSet (p : Option Path) : Only Elsewhere (unlinkIfSet p : Prog F Unit) := by
  cases p with
  | none => trivial
  | some p => exact only_unlinkMissingOk p

theorem only_moveBack (original : Path) (holding : Option Path) :
    Only Elsewhere (moveBack original holding : Prog F (Option PyStr)) := by
  cases holding with
  | none => trivial
  | some holding =>
      refine .bind (only_lexists _) fun held => ?_
      cases held with
      | false => trivial
      | true =>
          refine .bind (only_lexists _) fun occupied => ?_
          cases occupied with
          | true => trivial
          | false =>
              refine .bind (only_moveNoreplace _ _) fun _ => ?_
              exact .bind (only_fsyncDirectory _) fun _ => trivial

theorem only_rollbackQuarantine (m : Manager) (original : Path) (ℓ : Locals) :
    Only Elsewhere (rollbackQuarantine m original ℓ : Prog F (Option PyStr)) := by
  refine .orElse (.bind (only_moveBack _ _) fun refused => ?_) fun e => ?_
  · cases refused with
    | some text => trivial
    | none =>
        refine .bind (only_unlinkIfSet _) fun _ => ?_
        refine .bind (only_unlinkIfSet _) fun _ => ?_
        refine .bind (only_unlinkIfSet _) fun _ => ?_
        refine .bind (only_fsyncDirectory _) fun _ => ?_
        exact .bind (only_fsyncDirectory _) fun _ => trivial
  · cases e <;> trivial

theorem only_recover (m : Manager) (source : Path) (e : Exc) (ℓ : Locals) :
    Only Elsewhere (recover m source e ℓ : Prog F (QuarantineRecord F)) := by
  refine Only.bind (only_rollbackQuarantine m source ℓ) fun incomplete => ?_
  split <;> trivial

/-! ## The states in which the record is built -/

section States

variable [FloatNum F] {m : Manager} {args : QuarantineArgs F} {safe : SafeArgs F} {source : Path}
  {i : Nat} {id : PyStr} {f₀ f f' : Files Path} {allowed : Call F → Exc → Prop} {b : Faults}

/-- The source has its holding name only, and the payload is there without metadata. -/
structure Stranded (m : Manager) (source : Path) (i : Nat) (id : PyStr) (f₀ f : Files Path) :
    Prop where
  gone : f.names source = none
  held : f.names (holdingPath source id) = some i
  payload : ∃ k, f.names (m.payloadPath id) = some k ∧ (f.nodes k).bytes = (f₀.nodes i).bytes
  metadata : f.names (m.metadataPath id) = none

omit [FloatNum F] in
theorem HeldCopy.stranded {k : Nat} (h : HeldCopy m source i id f₀ k f)
    (hs : Scene m source i id f₀) : Stranded m source i id f₀ f where
  gone := by
    rw [h.names, Function.update_of_ne hs.payload_ne.1.symm, movedNames,
      Function.update_of_ne (hs.ne_source (.inl rfl)).symm, Function.update_self]
  held := by
    rw [h.names, Function.update_of_ne hs.payload_ne.2.symm, movedNames, Function.update_self]
  payload := ⟨k, by rw [h.names, Function.update_self], h.bytes⟩
  metadata := h.metadata_free hs

/-- In which state such a call is made. -/
def MadeStranded (m : Manager) (source : Path) (i : Nat) (id : PyStr) (f₀ : Files Path)
    (c : (interface F).Call) (f : Files Path) : Prop :=
  Describing c → Stranded m source i id f₀ f

theorem before_elsewhere {E : Type} {p : Program (interface F) E α} (h : Only Elsewhere p) :
    Before (machine id allowed) (MadeStranded m source i id f₀) p b f :=
  before_only h fun _ _ hc hd => absurd hd hc

theorem only_commit (m : Manager) (source : Path) (id : PyStr) (ℓ ℓ' : Locals)
    (r : QuarantineRecord F) : Only Elsewhere (do
      tracking ℓ (do
        writeMetadataAtomic m r
        let _ ← sys (.unlink (holdingPath source id))
        return ())
      tracking ℓ' (fsyncSourceDirectory source)
      return r) := by
  refine .bind (only_tracking ?_) fun _ => .bind (only_tracking ?_) fun _ => trivial
  · exact .bind (only_writeMetadataAtomic m r) fun _ => .bind (only_sys _) fun _ => trivial
  · refine .orElse (only_fsyncDirectory _) fun e => ?_
    cases e <;> trivial

/-- The record is built while the source is held and the payload has no metadata. -/
theorem before_protectHeld (hs : Scene m source i id f₀) (hwf : f₀.WF)
    (h : Relabelled (movedNames f₀.names source (holdingPath source id) i) f₀ f) :
    Before (machine id allowed) (MadeStranded m source i id f₀)
      (protectHeld m safe source id (sha256 (f₀.nodes i).bytes) i (f₀.stat i) (f.stat i)) b f := by
  refine before_bind (before_elsewhere (only_tracking (only_ask (c := .token) fun h => h))) ?_
  refine wp_tracking (wp_token trivial ?_)
  rintro token hfresh _ ⟨⟩
  refine before_bind (before_elsewhere (only_tracking
    (.bind (only_copySource ..) fun _ => only_moveNoreplace ..))) ?_
  refine wp_tracking (wp_copyHeld hs hwf h hfresh (fun _ _ _ => trivial) ?_
    (fun _ _ _ _ _ => ⟨trivial, nofun⟩))
  rintro b₂ f₂ - hcopy hmode _ -
  have hstates : wp (machine id allowed) (fun f' => HeldCopy m source i id f₀ f.used f')
      (tracking { holding := holdingPath source id, payload := m.payloadPath id }
        (describePayload m (m.payloadPath id) source id (sha256 (f₀.nodes i).bytes) (f₀.stat i) safe))
      b₂ (fun _ _ _ => True) f₂ := by
    refine wp_tracking (wp_describePayload (k := f.used) ?_ hmode ?_ ?_ ?_)
    · rw [hcopy.names, Function.update_self]
    · exact fun f' hr => hcopy.relabelled hr
    · exact fun _ _ _ _ _ _ _ _ _ => trivial
    · exact fun _ _ _ _ hr => ⟨hcopy.relabelled hr, trivial⟩
  refine before_then (before_of_wp hstates fun c f' h' _ => h'.stranded hs) fun r _ _ => ?_
  exact before_elsewhere (only_commit ..)

theorem before_quarantineBody (hs : Scene m source i id f₀) (hwf : f₀.WF) :
    Before (machine id allowed) (MadeStranded m source i id f₀) (quarantineBody m args safe source) b
      f₀ := by
  refine before_bind (before_elsewhere (only_tracking (only_openSource ..))) ?_
  refine wp_tracking (wp_openSource hs trivial ?_ fun _ _ _ => ⟨trivial, nofun⟩)
  rintro hk - - _ ⟨⟩
  refine before_bind (before_elsewhere (only_tracking (only_ask (c := .uuid4) fun h => h))) ?_
  refine wp_tracking (wp_uuid4 trivial ?_)
  rintro _ ⟨⟩
  refine before_bind (before_elsewhere (only_tracking (only_holdSource ..))) ?_
  refine wp_tracking (wp_holdSource hs hk (fun _ _ => trivial) ?_
    fun _ _ _ _ _ => ⟨trivial, nofun⟩)
  rintro b₁ f₁ - h₁ _ ⟨⟩
  exact before_protectHeld hs hwf h₁

/-- **The record is only built while the source has its holding name and the payload no metadata.** -/
theorem before_quarantineFile (hs : Scene m source i id f₀) (hwf : f₀.WF)
    (hloc : m.locate (m.absolute args.path) = some source) :
    Before (machine id allowed) (MadeStranded m source i id f₀) (quarantineFile m args) b f₀ := by
  refine before_bind (before_elsewhere (only_canonicalSourcePath ..)) ?_
  refine wp_canonicalSourcePath hloc hs.named trivial ?_ fun _ _ _ => nofun
  rintro - _ ⟨⟩
  refine before_bind (before_elsewhere (only_lift _)) ?_
  refine wp_lift trivial ?_
  intro safe _
  exact before_orElse (before_quarantineBody hs hwf) fun e _ _ => before_elsewhere (only_recover ..)

/-! ## Leaving by an exception -/

/-- The exceptions, as the handler of `quarantine_file` sees them. -/
inductive Raised where
  /-- `OSError`, `ValueError`, `TypeError` and `QuarantineError`. -/
  | named
  /-- Every other. -/
  | other
  deriving DecidableEq, Repr

/-- The files when the call is left by an exception. One that no handler names leaves it where it is
    raised. -/
inductive Leaves (m : Manager) (args : QuarantineArgs F) (id : PyStr) (f₀ : Files Path) :
    Raised → Files Path → Prop
  | named {e : Exc} {f : Files Path}
      (h : Ends (machine id fun _ _ => True) .once (quarantineFile m args) f₀ (.error e) f) :
      Leaves m args id f₀ .named f
  | other {c : (interface F).Call} {f : Files Path} (hc : Describing c)
      (h : Reaches (machine id fun _ _ => True) .once (quarantineFile m args) f₀ c f) :
      Leaves m args id f₀ .other f

/-- The file is back, and there is no payload without metadata. -/
structure RolledBack (m : Manager) (source : Path) (i : Nat) (id : PyStr) (f₀ f : Files Path) :
    Prop where
  named : f.names source = some i
  keeps : f₀.Keeps f
  noOrphan : f.names (m.payloadPath id) ≠ none → f.names (m.metadataPath id) ≠ none

omit [FloatNum F] in
theorem Unchanged.rolledBack (h : Unchanged f₀ f) (hs : Scene m source i id f₀) :
    RolledBack m source i id f₀ f where
  named := by rw [h.names, hs.named]
  keeps := h.keeps
  noOrphan hp := by
    rw [h.names, hs.free (.inr (.inl rfl))] at hp
    exact absurd rfl hp

omit [FloatNum F] in
theorem Stranded.not_rolledBack (h : Stranded m source i id f₀ f) :
    ¬ RolledBack m source i id f₀ f := by
  intro hback
  have hnamed := hback.named
  rw [h.gone] at hnamed
  exact nomatch hnamed

/-- **A call that an exception ends has rolled back if and only if the exception is one that its
    handler names.** -/
theorem quarantine_rolls_back_iff (hs : Scene m source i id f₀) (hwf : f₀.WF)
    (hloc : m.locate (m.absolute args.path) = some source) {x : Raised}
    (h : Leaves m args id f₀ x f) : RolledBack m source i id f₀ f ↔ x = .named := by
  cases h with
  | named h =>
      obtain ⟨_, hunchanged, -⟩ := wp_ends (wp_quarantineFile hs hwf hloc) h
      exact iff_of_true (hunchanged.rolledBack hs) rfl
  | other hc h =>
      have hstranded := before_reaches (before_quarantineFile hs hwf hloc) h hc
      exact iff_of_false hstranded.not_rolledBack (by simp)

end States

/-! ## A magic exception -/

def isMagic : (interface SampleFloat).Call → Bool
  | .magic _ => true
  | _ => false

theorem describing_of_isMagic {c : (interface SampleFloat).Call} (h : isMagic c = true) :
    Describing c := by
  cases c <;> trivial

/-- Where the sample's call comes to `magic.from_file`. -/
@[irreducible]
def sampleMagic : Option ((interface SampleFloat).Call × Disk Path) :=
  driveTo (sampleScenery.onDisk sampleId) isMagic (quarantineFile sampleManager sampleArgs) sampleDisk

theorem sampleMagic_reaches {c : (interface SampleFloat).Call} {d : Disk Path}
    (h : sampleMagic = some (c, d)) : Describing c ∧
      Reaches (machine sampleId fun _ _ => True) .once (quarantineFile sampleManager sampleArgs)
        sampleDisk.files c d.files := by
  unfold sampleMagic at h
  obtain ⟨hc, hreaches⟩ := driveTo_reaches (b := .once) _ h
  exact ⟨describing_of_isMagic hc, hreaches⟩

theorem sampleMagic_some : sampleMagic.isSome = true := by decide +kernel

theorem magicException_strands : ∃ f,
    Leaves sampleManager sampleArgs sampleId sampleDisk.files .other f ∧
      ¬ RolledBack sampleManager malPath 0 sampleId sampleDisk.files f := by
  obtain ⟨⟨c, d⟩, hrun⟩ := Option.isSome_iff_exists.1 sampleMagic_some
  obtain ⟨hc, h⟩ := sampleMagic_reaches hrun
  refine ⟨d.files, .other hc h, ?_⟩
  exact (before_reaches (before_quarantineFile sample_scene sample_wf (by decide)) h hc).not_rolledBack

theorem sample_not_rolledBack : ∃ d : Disk Path,
    ¬ RolledBack sampleManager malPath 0 sampleId sampleDisk.files d.files := by
  obtain ⟨⟨c, d⟩, hrun⟩ := Option.isSome_iff_exists.1 sampleMagic_some
  obtain ⟨hc, h⟩ := sampleMagic_reaches hrun
  have hiff := quarantine_rolls_back_iff sample_scene sample_wf (by decide) (.other hc h)
  exact ⟨d, fun hback => absurd (hiff.1 hback) (by simp)⟩

end Elyra.Quarantine
