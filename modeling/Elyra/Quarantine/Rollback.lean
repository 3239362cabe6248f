import Elyra.Quarantine.Steps

set_option autoImplicit false

/-! # The rollback of `quarantine_file`

The rollback knows what the call has done from four local variables, each set or not. `Covered` says
that they tell the truth: every name that differs from before the call is one they mention, and the
source is under its old name or under the holding name they mention. From a covered state the rollback
succeeds and restores every name (`wp_rollbackQuarantine`).

`Recoverable` is what holds at every point on the way, the rollback included: the original bytes are
under one of three names, and a metadata file never stands without its payload. -/

namespace Elyra.Quarantine

open Elyra.Python Elyra.Posix Elyra.Posix.Program

variable {F : Type}

/-! ## Names of a call -/

theorem holdingName_length (id : PyStr) : (holdingName id).length = id.length + 15 := by
  simp [holdingName, py]

theorem temporaryName_length (id token : PyStr) :
    (temporaryName id token).length = id.length + token.length + 6 := by
  simp [temporaryName, py]
  omega

theorem metadataName_length (id : PyStr) : (metadataName id).length = id.length + 5 := by
  simp [metadataName, py]

theorem deletePendingName_length (id : PyStr) :
    (deletePendingName id).length = id.length + 16 := by
  simp [deletePendingName, py]

theorem Path.ne_of_length {p q : Path} (h : p.name.length ≠ q.name.length) : p ≠ q := by
  rintro rfl
  exact h rfl

/-- The names the manager gives to entries for `id`. -/
def UsesId (id name : PyStr) : Prop :=
  name = holdingName id ∨ name = id ∨ name = metadataName id ∨ name = deletePendingName id ∨
    ∃ token, name = temporaryName id token

/-- No entry is named after `id`. -/
structure Fresh (f : Files Path) (id : PyStr) : Prop where
  uuid : isUuid id = true
  unused : ∀ q : Path, UsesId id q.name → f.names q = none

/-! ## Crash points -/

/-- The metadata file of `id`, where there is one, describes the payload of `id`. -/
def Described (F : Type) [FloatNum F] (m : Manager) (id : PyStr) (f : Files Path) : Prop :=
  ∀ j, f.names (m.metadataPath id) = some j →
    ∃ r : QuarantineRecord F, decodeRecord m.str id (f.nodes j).bytes = .ok r ∧
      r.restorationStatus = .str (py "quarantined") ∧
      ∃ k, f.names (m.payloadPath id) = some k ∧ r.sha256 = .str (sha256 (f.nodes k).bytes) ∧
        r.sizeBytes = .int (f.nodes k).bytes.length

/-- The bytes of the source are under one of the three names, and the metadata is not ahead of the
    payload. -/
structure Recoverable (F : Type) [FloatNum F] (m : Manager) (source : Path) (id : PyStr)
    (original : Bytes) (f : Files Path) : Prop where
  kept : ∃ q ∈ [source, holdingPath source id, m.payloadPath id], ∃ j,
    f.names q = some j ∧ (f.nodes j).bytes = original
  described : Described F m id f

/-! ## The scene of a call -/

/-- The files when the call begins. -/
structure Scene (m : Manager) (source : Path) (i : Nat) (id : PyStr) (f₀ : Files Path) : Prop where
  named : f₀.names source = some i
  inUse : i < f₀.used
  fresh : Fresh f₀ id

section Scene

variable {m : Manager} {source : Path} {i : Nat} {id : PyStr} {f₀ : Files Path}

theorem Scene.free (h : Scene m source i id f₀) {q : Path} (hq : UsesId id q.name) :
    f₀.names q = none := h.fresh.unused q hq

theorem Scene.ne_source (h : Scene m source i id f₀) {q : Path} (hq : UsesId id q.name) :
    q ≠ source := by
  rintro rfl
  have := h.free hq
  rw [h.named] at this
  exact absurd this (by simp)

theorem Scene.metadata_ne (h : Scene m source i id f₀) :
    m.metadataPath id ≠ source ∧ m.metadataPath id ≠ holdingPath source id := by
  refine ⟨h.ne_source (.inr (.inr (.inl rfl))), Path.ne_of_length ?_⟩
  simp only [Manager.metadataPath, holdingPath, holdingName_length, metadataName_length]
  omega

theorem Scene.payload_ne (h : Scene m source i id f₀) :
    m.payloadPath id ≠ source ∧ m.payloadPath id ≠ holdingPath source id := by
  refine ⟨h.ne_source (.inr (.inl rfl)), Path.ne_of_length ?_⟩
  simp only [Manager.payloadPath, holdingPath, holdingName_length]
  omega

theorem Scene.payload_ne_metadata (_ : Scene m source i id f₀) :
    m.payloadPath id ≠ m.metadataPath id := by
  refine Path.ne_of_length ?_
  simp only [Manager.metadataPath, Manager.payloadPath, metadataName_length]
  omega

theorem Scene.length (h : Scene m source i id f₀) : id.length = 36 := isUuid_length h.fresh.uuid

/-! ## What the local variables cover -/

/-- The local variables, when set, hold the names of this call. -/
structure Locals.Of (m : Manager) (source : Path) (id : PyStr) (ℓ : Locals) : Prop where
  holding : ∀ q, ℓ.holding = some q → q = holdingPath source id
  temporary : ∀ q, ℓ.temporary = some q → ∃ token, token.length = 32 ∧
    q = m.payloadTemporary id token
  payload : ∀ q, ℓ.payload = some q → q = m.payloadPath id
  metadata : ∀ q, ℓ.metadata = some q → q = m.metadataPath id

/-- What the call has changed is what its local variables say. -/
structure Covered (F : Type) [FloatNum F] (m : Manager) (source : Path) (i : Nat) (id : PyStr)
    (f₀ : Files Path) (ℓ : Locals) (f : Files Path) : Prop where
  locals : ℓ.Of m source id
  wf : f.WF
  keeps : f₀.Keeps f
  /-- Names the variables do not mention are as before. -/
  others : ∀ q, q ≠ source → ℓ.holding ≠ some q → ℓ.temporary ≠ some q → ℓ.payload ≠ some q →
    ℓ.metadata ≠ some q → f.names q = f₀.names q
  /-- The source has its old name, or the holding name. -/
  held : f.names source = some i ∧ f.names (holdingPath source id) = none ∨
    ℓ.holding = some (holdingPath source id) ∧ f.names source = none ∧
      f.names (holdingPath source id) = some i ∧ (f₀.nodes i).kind ≠ .directory
  described : Described F m id f
  files : ∀ q j, ℓ.temporary = some q ∨ ℓ.payload = some q ∨ ℓ.metadata = some q →
    f.names q = some j → (f.nodes j).kind ≠ .directory

section Rollback

variable [FloatNum F] {allowed : Call F → Exc → Prop} {ℓ : Locals} {f : Files Path}

theorem Described.relabelled {f f' : Files Path} {n : Path → Option Nat} (h : Described F m id f)
    (hn : Relabelled n f f') (hwf : f.WF)
    (hmeta : n (m.metadataPath id) = f.names (m.metadataPath id))
    (hpay : n (m.payloadPath id) = f.names (m.payloadPath id)) : Described F m id f' := by
  intro j hj
  rw [hn.names, hmeta] at hj
  obtain ⟨r, hr, hstatus, k, hk, hsha, hsize⟩ := h j hj
  have hjb := (hn.keeps.nodes j (hwf _ _ hj)).bytes
  have hkb := (hn.keeps.nodes k (hwf _ _ hk)).bytes
  refine ⟨r, by rw [hjb]; exact hr, hstatus, k, ?_, by rw [hkb]; exact hsha,
    by rw [hkb]; exact hsize⟩
  rw [hn.names, hpay, hk]

/-- The names the temporary variables can hold are none of the source's. -/
theorem Locals.Of.ne {q : Path} (h : ℓ.Of m source id) (hs : Scene m source i id f₀)
    (hq : ℓ.temporary = some q ∨ ℓ.payload = some q ∨ ℓ.metadata = some q) :
    q ≠ source ∧ q ≠ holdingPath source id ∧ f₀.names q = none := by
  have hlen := hs.length
  rcases hq with hq | hq | hq
  · obtain ⟨token, htoken, rfl⟩ := h.temporary q hq
    have huses : UsesId id (m.payloadTemporary id token).name :=
      .inr (.inr (.inr (.inr ⟨token, rfl⟩)))
    refine ⟨hs.ne_source huses, Path.ne_of_length ?_, hs.free huses⟩
    simp only [Manager.payloadTemporary, holdingPath, holdingName_length, temporaryName_length]
    omega
  · obtain rfl := h.payload q hq
    have huses : UsesId id (m.payloadPath id).name := .inr (.inl rfl)
    refine ⟨hs.ne_source huses, Path.ne_of_length ?_, hs.free huses⟩
    simp only [Manager.payloadPath, holdingPath, holdingName_length]
    omega
  · obtain rfl := h.metadata q hq
    have huses : UsesId id (m.metadataPath id).name := .inr (.inr (.inl rfl))
    refine ⟨hs.ne_source huses, Path.ne_of_length ?_, hs.free huses⟩
    simp only [Manager.metadataPath, holdingPath, holdingName_length, metadataName_length]
    omega

namespace Covered

theorem recoverable (hs : Scene m source i id f₀)
    (h : Covered F m source i id f₀ ℓ f) :
    Recoverable F m source id (f₀.nodes i).bytes f := by
  have hbytes := (h.keeps.nodes i hs.inUse).bytes
  refine ⟨?_, h.described⟩
  rcases h.held with ⟨hsrc, -⟩ | ⟨-, -, hhold, -⟩
  · exact ⟨source, by simp, i, hsrc, hbytes⟩
  · exact ⟨_, by simp, i, hhold, hbytes⟩

/-- Where the source has its old name, the holding name need not be remembered. -/
theorem dropHolding (hs : Scene m source i id f₀) (h : Covered F m source i id f₀ ℓ f)
    (hsrc : f.names source = some i) (hhold : f.names (holdingPath source id) = none) :
    Covered F m source i id f₀ { ℓ with holding := none } f where
  locals := { h.locals with holding := by simp }
  wf := h.wf
  keeps := h.keeps
  others := by
    intro q hq _ ht hp hm
    by_cases hh : ℓ.holding = some q
    · have hname := h.locals.holding q hh
      subst hname
      rw [hhold, hs.free (.inl rfl)]
    · exact h.others q hq hh ht hp hm
  held := .inl ⟨hsrc, hhold⟩
  described := h.described
  files := h.files

/-- Nothing is left to undo. -/
theorem unchanged (hs : Scene m source i id f₀) (h : Covered F m source i id f₀ {} f) :
    Unchanged f₀ f := by
  refine ⟨funext fun q => ?_, h.keeps⟩
  by_cases hq : q = source
  · subst hq
    rcases h.held with ⟨hsrc, -⟩ | ⟨hnone, -⟩
    · rw [hsrc, hs.named]
    · exact absurd hnone (by simp)
  · exact h.others q hq (by simp) (by simp) (by simp) (by simp)

/-- While the source moves back, it has one of its two names. -/
theorem moving_recoverable (hs : Scene m source i id f₀) (h : Covered F m source i id f₀ ℓ f)
    (hhold : f.names (holdingPath source id) = some i) {f' : Files Path}
    (hmove : Moving (holdingPath source id) source i f f') :
    Recoverable F m source id (f₀.nodes i).bytes f' := by
  have hmeta := hs.metadata_ne
  have hpay := hs.payload_ne
  have hbytes {n : Path → Option Nat} (hr : Relabelled n f f') :
      (f'.nodes i).bytes = (f₀.nodes i).bytes :=
    ((h.keeps.trans hr.keeps).nodes i hs.inUse).bytes
  rcases hmove with hr | hr | hr
  · refine ⟨⟨holdingPath source id, by simp, i, ?_, hbytes hr⟩,
      h.described.relabelled hr h.wf rfl rfl⟩
    rw [hr.names, hhold]
  · refine ⟨⟨source, by simp, i, ?_, hbytes hr⟩, h.described.relabelled hr h.wf ?_ ?_⟩
    · rw [hr.names, Function.update_self]
    · rw [Function.update_of_ne hmeta.1]
    · rw [Function.update_of_ne hpay.1]
  · refine ⟨⟨source, by simp, i, ?_, hbytes hr⟩, h.described.relabelled hr h.wf ?_ ?_⟩
    · rw [hr.names, movedNames, Function.update_self]
    · rw [movedNames, Function.update_of_ne hmeta.1, Function.update_of_ne hmeta.2]
    · rw [movedNames, Function.update_of_ne hpay.1, Function.update_of_ne hpay.2]

/-- The source has moved back. -/
theorem movedBack (hs : Scene m source i id f₀) (h : Covered F m source i id f₀ ℓ f)
    (hh : ℓ.holding = some (holdingPath source id)) {f' : Files Path}
    (hr : Relabelled (movedNames f.names (holdingPath source id) source i) f f') :
    Covered F m source i id f₀ { ℓ with holding := none } f' := by
  have hne : holdingPath source id ≠ source := hs.ne_source (.inl rfl)
  have hmeta := hs.metadata_ne
  have hpay := hs.payload_ne
  have hlt : i < f.used := lt_of_lt_of_le hs.inUse h.keeps.used
  have hother : ∀ q, q ≠ source → q ≠ holdingPath source id → f'.names q = f.names q := by
    intro q hq hq'
    rw [hr.names, movedNames, Function.update_of_ne hq, Function.update_of_ne hq']
  have hhold : f'.names (holdingPath source id) = none := by
    rw [hr.names, movedNames, Function.update_of_ne hne, Function.update_self]
  refine ⟨{ h.locals with holding := by simp }, ?_, h.keeps.trans hr.keeps, ?_, ?_, ?_, ?_⟩
  · refine hr.wf (update_wf (update_wf h.wf (by simp)) ?_)
    rintro j hj
    cases hj
    exact hlt
  · intro q hq _ ht hp hm
    by_cases hq' : q = holdingPath source id
    · rw [hq', hhold, hs.free (.inl rfl)]
    · rw [hother q hq hq']
      refine h.others q hq ?_ ht hp hm
      rw [hh]
      exact fun he => hq' (Option.some.inj he).symm
  · exact .inl ⟨by rw [hr.names, movedNames, Function.update_self], hhold⟩
  · refine h.described.relabelled hr h.wf ?_ ?_
    · rw [movedNames, Function.update_of_ne hmeta.1, Function.update_of_ne hmeta.2]
    · rw [movedNames, Function.update_of_ne hpay.1, Function.update_of_ne hpay.2]
  · intro q j hq hj
    obtain ⟨hq₁, hq₂, -⟩ := h.locals.ne hs hq
    rw [hother q hq₁ hq₂] at hj
    rw [(hr.keeps.nodes j (h.wf q j hj)).kind]
    exact h.files q j hq hj

end Covered

/-- `moveBack` gives the source its old name again. -/
theorem wp_moveBack {I : Files Path → Prop} {Q : Faults → Except Exc (Option PyStr) → Files Path → Prop}
    (hs : Scene m source i id f₀) (h : Covered F m source i id f₀ ℓ f)
    (hI : ∀ f', Recoverable F m source id (f₀.nodes i).bytes f' → I f')
    (hok : ∀ f', Covered F m source i id f₀ { ℓ with holding := none } f' →
      Q .never (.ok none) f') :
    wp (machine id allowed) I (moveBack source ℓ.holding) .never Q f := by
  have hI₀ : I f := hI f (h.recoverable hs)
  cases hh : ℓ.holding with
  | none =>
      have hℓ : ({ ℓ with holding := none } : Locals) = ℓ := by rw [← hh]
      exact ⟨hI₀, hok f (hℓ ▸ h)⟩
  | some q =>
      have hq := h.locals.holding q hh
      subst hq
      refine wp_bind (wp_lexists hI₀ ?_ (fun hb => nomatch hb))
      rcases h.held with ⟨hsrc, hhold⟩ | ⟨-, hsrc, hhold, hk⟩
      · rw [hhold]
        exact ⟨hI₀, hok f (h.dropHolding hs hsrc hhold)⟩
      · rw [hhold]
        refine wp_bind (wp_lexists hI₀ ?_ (fun hb => nomatch hb))
        rw [hsrc]
        refine wp_bind (wp_moveNoreplace (i := i) hhold hsrc ?_ ?_ ?_ (fun hb => nomatch hb))
        · rw [(h.keeps.nodes i hs.inUse).kind]
          exact hk
        · intro f' hmove
          exact hI f' (h.moving_recoverable hs hhold hmove)
        · intro b' f' hb' hmoved
          have hcov := h.movedBack hs hh hmoved
          have hI' : I f' := hI f' (hcov.recoverable hs)
          obtain rfl := hb'.of_never
          refine wp_bind (wp_fsyncDirectory hI' ?_ (fun hb => nomatch hb))
          intro b'' hb''
          obtain rfl := hb''.of_never
          exact ⟨hI', hok f' hcov⟩

/-- An artifact is removed and forgotten: `ℓ'` mentions one name less. -/
theorem Covered.removed (hs : Scene m source i id f₀) {ℓ' : Locals} {q : Path} {f' : Files Path}
    (h : Covered F m source i id f₀ ℓ f)
    (hq : ℓ.temporary = some q ∨ ℓ.payload = some q ∨ ℓ.metadata = some q)
    (hlocals : ℓ'.Of m source id) (hholding : ℓ'.holding = ℓ.holding)
    (hless : ∀ q', q' ≠ q → (ℓ.temporary = some q' → ℓ'.temporary = some q') ∧
      (ℓ.payload = some q' → ℓ'.payload = some q') ∧ (ℓ.metadata = some q' → ℓ'.metadata = some q'))
    (hfiles : ∀ q', ℓ'.temporary = some q' ∨ ℓ'.payload = some q' ∨ ℓ'.metadata = some q' →
      ℓ.temporary = some q' ∨ ℓ.payload = some q' ∨ ℓ.metadata = some q')
    (hdescribed : q ≠ m.payloadPath id ∨ f.names (m.metadataPath id) = none)
    (hr : Relabelled (Function.update f.names q none) f f') :
    Covered F m source i id f₀ ℓ' f' := by
  obtain ⟨hq₁, hq₂, hfree⟩ := h.locals.ne hs hq
  have hother : ∀ q', q' ≠ q → f'.names q' = f.names q' := by
    intro q' hq'
    rw [hr.names, Function.update_of_ne hq']
  have hgone : f'.names q = none := by rw [hr.names, Function.update_self]
  refine ⟨hlocals, hr.wf (update_wf h.wf (by simp)), h.keeps.trans hr.keeps, ?_, ?_, ?_, ?_⟩
  · intro q' hsrc hh ht hp hm
    by_cases hq' : q' = q
    · rw [hq', hgone, hfree]
    · rw [hother q' hq']
      obtain ⟨h₁, h₂, h₃⟩ := hless q' hq'
      exact h.others q' hsrc (hholding ▸ hh) (fun e => ht (h₁ e)) (fun e => hp (h₂ e))
        (fun e => hm (h₃ e))
  · rw [hother source hq₁.symm, hother _ hq₂.symm, hholding]
    exact h.held
  · by_cases hm : q = m.metadataPath id
    · intro j hj
      rw [← hm, hgone] at hj
      exact absurd hj (by simp)
    · rcases hdescribed with hp | hm'
      · refine h.described.relabelled hr h.wf ?_ ?_
        · rw [Function.update_of_ne (Ne.symm hm)]
        · rw [Function.update_of_ne (Ne.symm hp)]
      · intro j hj
        rw [hother _ (Ne.symm hm), hm'] at hj
        exact absurd hj (by simp)
  · intro q' j hq' hj
    by_cases he : q' = q
    · rw [he, hgone] at hj
      exact absurd hj (by simp)
    · rw [hother q' he] at hj
      rw [(hr.keeps.nodes j (h.wf q' j hj)).kind]
      exact h.files q' j (hfiles q' hq') hj

/-- One `unlink` of the rollback. -/
theorem wp_unlinkIfSet {I : Files Path → Prop} {o : Option Path}
    {Q : Faults → Except Exc Unit → Files Path → Prop} (ℓ' : Locals) (hs : Scene m source i id f₀)
    (h : Covered F m source i id f₀ ℓ f)
    (hI : ∀ f', Recoverable F m source id (f₀.nodes i).bytes f' → I f')
    (hmem : ∀ q, o = some q → ℓ.temporary = some q ∨ ℓ.payload = some q ∨ ℓ.metadata = some q)
    (hnone : o = none → ℓ' = ℓ)
    (hremoved : ∀ q f', o = some q → Relabelled (Function.update f.names q none) f f' →
      Covered F m source i id f₀ ℓ' f')
    (hok : ∀ f', Covered F m source i id f₀ ℓ' f' → Q .never (.ok ()) f') :
    wp (machine id allowed) I (unlinkIfSet o) .never Q f := by
  have hI₀ : I f := hI f (h.recoverable hs)
  cases o with
  | none => exact ⟨hI₀, hok f (hnone rfl ▸ h)⟩
  | some q =>
      refine wp_unlinkMissingOk (fun j hj => h.files q j (hmem q rfl) hj) hI₀ ?_
      intro f' hr
      have hcov := hremoved q f' rfl hr
      exact ⟨hI f' (hcov.recoverable hs), hok f' hcov⟩

/-- **The rollback undoes the call.** From a state its variables cover it restores every name, and on
    the way the original bytes stay within reach. -/
theorem wp_rollbackQuarantine {I : Files Path → Prop}
    {Q : Faults → Except Exc (Option PyStr) → Files Path → Prop} (hs : Scene m source i id f₀)
    (h : Covered F m source i id f₀ ℓ f)
    (hI : ∀ f', Recoverable F m source id (f₀.nodes i).bytes f' → I f')
    (hok : ∀ f', Unchanged f₀ f' → Q .never (.ok none) f') :
    wp (machine id allowed) I (rollbackQuarantine m source ℓ) .never Q f := by
  refine wp_orElse (wp_bind (wp_moveBack hs h hI ?_))
  intro f₁ h₁
  refine wp_bind (wp_unlinkIfSet { ℓ with holding := none, temporary := none } hs h₁ hI
    (fun q hq => .inl hq) (fun hnone => by simp [hnone]) ?_ ?_)
  · intro q f₂ hq hr
    obtain ⟨token, htoken, rfl⟩ := h₁.locals.temporary q hq
    refine h₁.removed hs (.inl hq) { h₁.locals with temporary := by simp } rfl ?_ ?_ (.inl ?_) hr
    · intro q' hne
      refine ⟨fun he => absurd (Option.some.inj (he.symm.trans hq)) hne, fun he => he, fun he => he⟩
    · intro q' hq'
      exact .inr (hq'.resolve_left (by simp))
    · refine Path.ne_of_length ?_
      simp only [Manager.payloadTemporary, Manager.payloadPath, temporaryName_length]
      omega
  intro f₂ h₂
  refine wp_bind (wp_unlinkIfSet { payload := ℓ.payload } hs h₂ hI
    (fun q hq => .inr (.inr hq)) (fun hnone => by simp [hnone]) ?_ ?_)
  · intro q f₃ hq hr
    obtain rfl := h₂.locals.metadata q hq
    refine h₂.removed hs (.inr (.inr hq))
      { h₂.locals with temporary := by simp, metadata := by simp } rfl ?_ ?_ (.inl ?_) hr
    · intro q' hne
      refine ⟨fun he => he, fun he => he, fun he => absurd (Option.some.inj (he.symm.trans hq)) hne⟩
    · intro q' hq'
      exact .inr (.inl ((hq'.resolve_left (by simp)).resolve_right (by simp)))
    · exact (hs.payload_ne_metadata).symm
  intro f₃ h₃
  refine wp_bind (wp_unlinkIfSet {} hs h₃ hI (fun q hq => .inr (.inl hq))
    (fun hnone => by simp [hnone]) ?_ ?_)
  · intro q f₄ hq hr
    obtain rfl := h₃.locals.payload q hq
    -- the metadata is gone by now, so nothing describes the payload any more
    have hgone : f₃.names (m.metadataPath id) = none := by
      rw [h₃.others _ hs.metadata_ne.1 (by simp) (by simp) ?_ (by simp)]
      · exact hs.free (.inr (.inr (.inl rfl)))
      · rw [hq]
        exact fun he => hs.payload_ne_metadata (Option.some.inj he)
    refine h₃.removed hs (.inr (.inl hq)) { h₃.locals with payload := by simp } rfl ?_ ?_
      (.inr hgone) hr
    · intro q' hne
      refine ⟨fun he => he, fun he => absurd (Option.some.inj (he.symm.trans hq)) hne, fun he => he⟩
    · intro q' hq'
      exact absurd hq' (by simp)
  intro f₄ h₄
  have hI₄ : I f₄ := hI f₄ (h₄.recoverable hs)
  refine wp_bind (wp_fsyncDirectory hI₄ ?_ (fun hb => nomatch hb))
  intro b' hb'
  obtain rfl := hb'.of_never
  refine wp_bind (wp_fsyncDirectory hI₄ ?_ (fun hb => nomatch hb))
  intro b'' hb''
  obtain rfl := hb''.of_never
  exact ⟨hI₄, hok f₄ (h₄.unchanged hs)⟩

end Rollback

end Scene

end Elyra.Quarantine
