import Elyra.Quarantine.Sharing

set_option autoImplicit false

/-! # Restoring and deleting at the same time

Threads of the service that restore or delete one item, each in the middle of its call when another one
acts. The manager has no lock: a restoration reads the record when it begins and writes it whole when it
ends, and a deletion in between is written over (`deletion_undone`). Nothing else goes wrong: the thread that
gives the payload its pending name is the only one that deletes it, and it has marked the record by the time
it returns (`deletion_stands`). -/

namespace Elyra.Quarantine

open Elyra.Python Elyra.Posix Elyra.Posix.Program

variable {F : Type} [FloatNum F] {m : Manager} {id : PyStr} {original : Json F}

/-! ## Deleting -/

section Delete

variable {A A' : Set Right} {s s' : Shelf} {guard : Call F → Shelf → Prop}

/-- The thread deletes the payload, which has lost its name. -/
structure Claimed (m : Manager) (id : PyStr) (A : Set Right) (s : Shelf) : Prop where
  own : .deletion ∈ A
  payload : s.files.names (m.payloadPath id) = none
  pending : (s.files.names (m.deletePending id)).isSome = true

theorem Claimed.later (h : Claimed m id A s) (hl : Later m id A A' s s') : Claimed m id A' s' := by
  obtain ⟨hpayload, hpending⟩ := hl.names h.own
  exact ⟨hl.rights h.own, hpayload.trans h.payload, by rw [hpending]; exact h.pending⟩

/-- The thread takes one of the payload's two names. -/
theorem minding_unlink_own {E α : Type} {p : Path} {next : Except Exc Unit → Program (interface F) E α}
    {Q : Except E α → Set Right → Shelf → Prop} (huuid : isUuid id = true)
    (hp : p = m.payloadPath id ∧ (s.files.names (m.payloadPath id)).isSome = true ∧
        s.files.names (m.deletePending id) = s.files.names (m.payloadPath id) ∨
      p = m.deletePending id ∧ (s.files.names (m.deletePending id)).isSome = true ∧
        s.files.names (m.payloadPath id) = none)
    (hown : .deletion ∈ A) (hinv : s.Inv F m id original)
    (h : ∀ s' s'', s'.files.names = Function.update s.files.names p none → s'.Inv F m id original →
      s''.Inv F m id original → Relies m id ∅ s s' → Relies m id A s' s'' →
        minding (rights F m id original) (shelving m id guard) (next (.ok ())) A Q s'') :
    minding (rights F m id original) (shelving m id guard) (.call (.file (.unlink p)) next) A Q s := by
  refine minding_call_empty fun r s₁ ha => ?_
  obtain ⟨-, ⟨r₀, ha, rfl⟩, hdrawn, hversions⟩ := ha
  have hsome : (s.files.names p).isSome = true := by
    rcases hp with ⟨rfl, hsome, -⟩ | ⟨rfl, hsome, -⟩ <;> exact hsome
  obtain ⟨i, hi⟩ := Option.isSome_iff_exists.1 hsome
  have hkind : (s.files.nodes i).kind ≠ .directory := by
    refine hinv.kind i ?_
    rcases hp with ⟨rfl, -⟩ | ⟨rfl, -, hnone⟩
    · exact .inl hi
    · exact .inr ⟨hnone, hi⟩
  obtain rfl : r₀ = .ok () := by
    simp only [Files.answers, hi, if_neg hkind] at ha
    exact ha.1
  have hgone := relabelled_unlink ha
  have hne : m.metadataPath id ≠ p := by
    rcases hp with ⟨rfl, -⟩ | ⟨rfl, -⟩
    · exact (m.payloadPath_ne_metadataPath id).symm
    · exact m.metadataPath_ne_deletePending id
  rw [versionsAfter_same (by rw [hgone.names, Function.update_of_ne hne])] at hversions
  have hkeeps : (rights F m id original).Keeps A ∅ s s₁ := by
    refine keeps_unlink_own huuid (hp.imp (fun h => h) fun h => ⟨h.1, h.2.2⟩) hown hinv hgone
      hdrawn hversions
  refine ⟨rfl, hkeeps, fun s₂ hinv₂ hr₂ => ?_⟩
  exact h s₁ s₂ hgone.names hkeeps.inv hinv₂
    (hkeeps.others ∅ (Set.empty_disjoint _) (Set.empty_subset _)) hr₂

/-- The link and the unlink, where `renameat2` is missing. -/
theorem minding_linkAndUnlink {Q : Except Exc Unit → Set Right → Shelf → Prop} (huuid : isUuid id = true)
    (hinv : s.Inv F m id original)
    (hok : ∀ A' s', s'.Inv F m id original → Claimed m id A' s' → Q (.ok ()) A' s')
    (hraise : ∀ e s', s'.Inv F m id original → Relies m id A s s' → Q (.error e) A s') :
    minding (rights F m id original) (shelving m id guard)
      (linkAndUnlink (m.payloadPath id) (m.deletePending id)) A Q s := by
  refine minding_call (c := .file (.link _ _)) fun r s₁ ha => ?_
  obtain ⟨hkeeps, hlinked, hrefused⟩ := keeps_link (A := A) huuid hinv ha
  cases r with
  | error e =>
      refine ⟨∅, rfl, hkeeps, fun s₂ hinv₂ hr₂ => ?_⟩
      rw [Set.union_empty] at hr₂ ⊢
      obtain ⟨hfiles, hversions⟩ := hrefused e rfl
      exact hraise e s₂ hinv₂ ((relies_same hfiles hversions).trans hr₂)
  | ok _ =>
      refine ⟨_, rfl, hkeeps, fun s₂ hinv₂ hr₂ => ?_⟩
      have hown : Right.deletion ∈ A ∪ made (F := F) m id
          (.file (.link (m.payloadPath id) (m.deletePending id))) (.ok ()) := .inr ⟨rfl, rfl⟩
      obtain ⟨hpayload, hpending⟩ := hr₂.payload hown
      obtain ⟨hsome, hsame⟩ := hlinked rfl
      rw [← hpayload] at hsome hsame
      rw [← hpending] at hsame
      refine minding_unlink_own huuid (.inl ⟨rfl, hsome, hsame⟩) hown hinv₂ fun s₃ s₄ hnames _ hinv₄ _ hr₄ => ?_
      refine hok _ s₄ hinv₄ (Claimed.later ⟨hown, ?_, ?_⟩ (Relies.later hr₄))
      · rw [hnames, Function.update_self]
      · rw [hnames, Function.update_of_ne (m.payloadPath_ne_deletePending id).symm, hsame]
        exact hsome

/-- The payload gets its pending name, and the thread is the one that deletes it. -/
theorem minding_claim {Q : Except Exc Unit → Set Right → Shelf → Prop} (huuid : isUuid id = true)
    (hinv : s.Inv F m id original)
    (hok : ∀ A' s', s'.Inv F m id original → Claimed m id A' s' → Q (.ok ()) A' s')
    (hraise : ∀ e s', s'.Inv F m id original → Relies m id A s s' → Q (.error e) A s') :
    minding (rights F m id original) (shelving m id guard)
      (moveNoreplace (m.payloadPath id) (m.deletePending id)) A Q s := by
  refine minding_bind (minding_lexists hinv fun s₁ hinv₁ hr₁ => ?_)
  refine minding_bind (minding_check (fun _ => ?_) fun _ => hraise _ s₁ hinv₁ hr₁)
  refine minding_call (c := .file (.rename _ _)) fun r s₂ ha => ?_
  obtain ⟨hkeeps, hmoved, hrefused⟩ := keeps_rename (A := A) huuid hinv₁ ha
  cases r with
  | ok _ =>
      refine ⟨_, rfl, hkeeps, fun s₃ hinv₃ hr₃ => ?_⟩
      obtain ⟨hnone, hsome⟩ := hmoved rfl
      exact hok _ s₃ hinv₃ (Claimed.later ⟨.inr ⟨rfl, rfl⟩, hnone, hsome⟩ (Relies.later hr₃))
  | error e =>
      refine ⟨∅, rfl, hkeeps, fun s₃ hinv₃ hr₃ => ?_⟩
      rw [Set.union_empty] at hr₃ ⊢
      obtain ⟨hfiles, hversions⟩ := hrefused e rfl
      have hr := hr₁.trans ((relies_same hfiles hversions).trans hr₃)
      have hfallback : minding (rights F m id original) (shelving m id guard)
          (linkAndUnlink (m.payloadPath id) (m.deletePending id)) A Q s₃ :=
        minding_linkAndUnlink huuid hinv₃ hok fun e s' hs' hr' => hraise e s' hs' (hr.trans hr')
      split
      · next h => cases h
      · exact hfallback
      · exact hfallback
      · next h => exact hraise _ s₃ hinv₃ hr

/-- The `try` block of `delete_permanently` never fails. -/
theorem minding_deleteBody {r : QuarantineRecord F} {s₀ : Shelf}
    {Q : Except Exc (QuarantineRecord F) → Set Right → Shelf → Prop} (huuid : isUuid id = true)
    (hinv : s.Inv F m id original) (hr : Known m id original r s₀) (hclaimed : Claimed m id A s)
    (hQ : ∀ r A' s', s'.Inv F m id original → IsDeleted F m id s'.files → Q (.ok r) A' s') :
    minding (rights F m id original) (shelving m id guard) (deleteBody m r (m.deletePending id)) A Q s := by
  refine minding_bind (minding_ask (c := .time) trivial (fun _ => rfl) hinv fun x s₁ ha hinv₁ hr₁ => ?_)
  obtain ⟨-, now, hnow, rfl⟩ := ha
  refine minding_bind (minding_ask (c := .utcIso now) trivial (fun _ => rfl) hinv₁
    fun x s₂ ha hinv₂ hr₂ => ?_)
  obtain ⟨-, nowUtc, hutc, rfl⟩ := ha
  have hclaimed₂ := hclaimed.later (Relies.later (hr₁.trans hr₂))
  obtain ⟨data, henc⟩ := onFile_markDeleted hr.onFile hnow hutc
  have hstatus : hasStatus (markDeleted r now nowUtc) (py "deleted") = true := by
    simp [hasStatus]
  refine minding_bind (minding_writeMetadataAtomic (r := markDeleted r now nowUtc) huuid
    ((sameItem_deleted r now nowUtc).wf hr.wf) hr.id_eq hr.original hinv₂
    (.inl ⟨hstatus, hclaimed₂.own, hclaimed₂.payload⟩) ?_ fun e s' _ _ hun => absurd henc (hun data))
  intro A₃ s₃ hinv₃ hl₃ hdeleted
  have hclaimed₃ := hclaimed₂.later hl₃
  refine minding_bind (minding_unlink_own huuid (.inr ⟨rfl, hclaimed₃.pending, hclaimed₃.payload⟩)
    hclaimed₃.own hinv₃ fun s₄ s₅ _ hinv₄ hinv₅ hr₄ hr₅ => ?_)
  have hdeleted₅ := ((hdeleted hstatus).relies hinv₃ hinv₄ hr₄).relies hinv₄ hinv₅ hr₅
  refine minding_bind (minding_fsyncDirectory hinv₅ fun s₆ hinv₆ hr₆ => ?_)
  exact hQ _ A₃ s₆ hinv₆ (hdeleted₅.relies hinv₅ hinv₆ hr₆)

/-- `delete_permanently` among other calls on the item. -/
theorem minding_deletePermanently {q : Json F}
    {Q : Except Exc (Option (QuarantineRecord F)) → Set Right → Shelf → Prop}
    (hid : validateQuarantineId q = .ok id) (hinv : s.Inv F m id original)
    (hok : ∀ r A' s', s'.Inv F m id original → IsDeleted F m id s'.files → Q (.ok r) A' s')
    (hraise : ∀ e s', s'.Inv F m id original → Q (.error e) A s') :
    minding (rights F m id original) (shelving m id guard) (deletePermanently m q) A Q s := by
  have huuid := isUuid_of_validate hid
  refine minding_bind (minding_loadMetadata hid hinv (fun r s₁ hinv₁ _ hr => ?_)
    fun e s₁ hinv₁ _ => hraise e s₁ hinv₁)
  show minding _ _ (if _ then _ else _) A Q s₁
  split
  · next hstatus => exact hok none A s₁ hinv₁ (hr.deleted hstatus)
  · refine minding_bind (minding_lift ?_)
    rw [hr.id_eq, validateQuarantineId_of_isUuid huuid]
    refine minding_bind (minding_lexists hinv₁ fun s₂ hinv₂ _ => ?_)
    refine minding_bind (minding_check (fun _ => ?_) fun _ => hraise _ s₂ hinv₂)
    refine minding_bind (minding_claim huuid hinv₂ (fun A₃ s₃ hinv₃ hclaimed => ?_)
      fun e s₃ hinv₃ _ => hraise e s₃ hinv₃)
    refine minding_bind (minding_orElse (minding_deleteBody huuid hinv₃ hr hclaimed ?_))
    intro r' A₄ s₄ hinv₄ hdeleted
    exact hok (some r') A₄ s₄ hinv₄ hdeleted

end Delete

/-! ## Restoring -/

section Restore

variable {A A' : Set Right} {s s' : Shelf} {guard : Call F → Shelf → Prop} {α : Type}

/-- The name is none that the store uses for the item. -/
structure Outside (m : Manager) (id : PyStr) (p : Path) : Prop where
  item : p ∉ m.storeNames id
  temporary : ¬ IsTemporary m id p

omit [FloatNum F] in
theorem Outside.free {p : Path} (h : Outside m id p) (A : Set Right) : Free m id A p :=
  ⟨h.item, fun token hlen he => absurd ⟨token, hlen, he⟩ h.temporary⟩

theorem minding_trackingRestore {ℓ : RestoreLocals F} {p : Prog F α}
    {Q : Except (Exc × RestoreLocals F) α → Set Right → Shelf → Prop}
    (h : minding (rights F m id original) (shelving m id guard) p A (fun x A' s' =>
      match x with
      | .ok a => Q (.ok a) A' s'
      | .error e => Q (.error (e, ℓ)) A' s') s) :
    minding (rights F m id original) (shelving m id guard) (trackingRestore ℓ p) A Q s := by
  refine minding_orElse (minding_mono ?_ h)
  rintro (e | a) A' s' hQ
  · exact hQ
  · exact hQ

theorem minding_fchown {u uid gid : Nat} {Q : Except Exc Unit → Set Right → Shelf → Prop}
    (hinv : s.Inv F m id original)
    (hQ : ∀ s', s'.Inv F m id original → Later m id A A s s' → Q (.ok ()) A s') :
    minding (rights F m id original) (shelving m id guard) (sys (.fchown u uid gid)) A Q s := by
  refine minding_setNode (c := .fchown u uid gid) (u := u) (fun _ => rfl) hinv ?_
  rintro r f' ⟨ctime, rfl, rfl⟩
  exact ⟨_, rfl, rfl, .inl rfl, fun s₁ s₂ hfiles _ hinv₂ hr₂ =>
    hQ s₂ hinv₂ ((later_setNode hfiles).trans (Relies.later hr₂))⟩

theorem minding_fchmod {u mode : Nat} {Q : Except Exc Unit → Set Right → Shelf → Prop}
    (hinv : s.Inv F m id original)
    (hQ : ∀ s', s'.Inv F m id original → Later m id A A s s' → Q (.ok ()) A s') :
    minding (rights F m id original) (shelving m id guard) (sys (.fchmod u mode)) A Q s := by
  refine minding_setNode (c := .fchmod u mode) (u := u) (fun _ => rfl) hinv ?_
  rintro r f' ⟨ctime, rfl, rfl⟩
  exact ⟨_, rfl, rfl, .inl rfl, fun s₁ s₂ hfiles _ hinv₂ hr₂ =>
    hQ s₂ hinv₂ ((later_setNode hfiles).trans (Relies.later hr₂))⟩

theorem minding_restoreOwnership {fd : Nat} {uid gid : Json F}
    {Q : Except Exc Bool → Set Right → Shelf → Prop} (hinv : s.Inv F m id original)
    (hQ : ∀ x s', s'.Inv F m id original → Later m id A A s s' → Q x A s') :
    minding (rights F m id original) (shelving m id guard) (restoreOwnershipIfPrivileged fd uid gid) A Q
      s := by
  refine minding_bind (minding_ask (c := .geteuid) trivial (fun _ => rfl) hinv fun x s₁ ha hinv₁ hr₁ => ?_)
  obtain ⟨-, euid, rfl⟩ := ha
  have hl₁ : Later m id A A s s₁ := Relies.later hr₁
  show minding _ _ (if _ then _ else _) A Q s₁
  split
  · refine minding_bind (minding_lift ?_)
    cases natArgument uid with
    | error e => exact hQ _ s₁ hinv₁ hl₁
    | ok uid =>
    refine minding_bind (minding_lift ?_)
    cases natArgument gid with
    | error e => exact hQ _ s₁ hinv₁ hl₁
    | ok gid =>
        exact minding_bind (minding_fchown hinv₁ fun s₂ hinv₂ hl₂ => hQ _ s₂ hinv₂ (hl₁.trans hl₂))
  · exact hQ _ s₁ hinv₁ hl₁

/-- Filling the thread's own target. -/
theorem minding_fillTarget {target : Path} {payloadFd fd : Nat} {r : QuarantineRecord F}
    {Q : Except Exc (Nat × Bool) → Set Right → Shelf → Prop} (hinv : s.Inv F m id original)
    (hown : OwnFile m id A target fd [] s)
    (hQ : ∀ x s', s'.Inv F m id original → Later m id A A s s' → Q x A s') :
    minding (rights F m id original) (shelving m id guard) (fillTarget payloadFd fd r) A Q s := by
  refine minding_bind (minding_bind (minding_sys (c := .readAll payloadFd) trivial hinv
    fun x s₁ ha hinv₁ hr₁ => ?_))
  obtain ⟨-, rfl⟩ := ha
  refine minding_bind (minding_writeLoop _ le_rfl hinv₁ (hown.relies hr₁) fun s₂ hinv₂ _ hl₂ => ?_)
  replace hl₂ := (Relies.later hr₁).trans hl₂
  refine minding_bind (minding_check (fun _ => ?_) fun _ => hQ _ s₂ hinv₂ hl₂)
  refine minding_bind (minding_lift ?_)
  cases restoredMode r.originalMode with
  | error e => exact hQ _ s₂ hinv₂ hl₂
  | ok mode =>
  refine minding_bind (minding_fchmod hinv₂ fun s₃ hinv₃ hl₃ => ?_)
  replace hl₃ := hl₂.trans hl₃
  refine minding_bind (minding_restoreOwnership hinv₃ fun x s₄ hinv₄ hl₄ => ?_)
  replace hl₄ := hl₃.trans hl₄
  cases x with
  | error e => exact hQ _ s₄ hinv₄ hl₄
  | ok owned =>
  refine minding_bind (minding_sys (c := .fsync fd) trivial hinv₄ fun x s₅ ha hinv₅ hr₅ => ?_)
  obtain ⟨-, rfl⟩ := ha
  exact hQ _ s₅ hinv₅ (hl₄.trans (Relies.later hr₅))

/-- Restorations put no record in place of one that says `deleted`. -/
def Restrained (m : Manager) (id : PyStr) (guard : Call F → Shelf → Prop) : Prop :=
  ∀ src s, guard (.file (.replace src (m.metadataPath id))) s → ¬ IsDeleted F m id s.files

theorem minding_restoreBody {r : QuarantineRecord F} {payload : Path} {destination : Option PyStr}
    {s₀ : Shelf} {Q : Except (Exc × RestoreLocals F) (QuarantineRecord F) → Set Right → Shelf → Prop}
    (huuid : isUuid id = true) (hguard : Restrained m id guard) (hinv : s.Inv F m id original)
    (hr : Known m id original r s₀)
    (hout : ∀ target, restoreTarget m destination original = some target → Outside m id target)
    (hok : ∀ r A' s', s'.Inv F m id original → Later m id A A' s s' → Q (.ok r) A' s')
    (hraise : ∀ e ℓ A' s', s'.Inv F m id original → Later m id A A' s s' →
      (∀ target, ℓ.target = some target → Outside m id target) → Q (.error (e, ℓ)) A' s') :
    minding (rights F m id original) (shelving m id guard) (restoreBody m r payload destination) A Q s := by
  refine minding_bind (minding_trackingRestore (minding_reading (plain_openPayload m payload r)
    (returns_true _) hinv fun x A₁ s₁ hinv₁ hl₁ _ => ?_))
  cases x with
  | error e => exact hraise _ _ A₁ s₁ hinv₁ hl₁ fun _ h => nomatch h
  | ok payloadFd =>
  refine minding_bind (minding_trackingRestore (minding_reading
    (plain_prepareRestoreTarget m destination r.originalPath)
    (returns_prepareRestoreTarget m destination r.originalPath) hinv₁ fun x A₂ s₂ hinv₂ hl₂ htarget => ?_))
  replace hl₂ := hl₁.trans hl₂
  cases x with
  | error e => exact hraise _ _ A₂ s₂ hinv₂ hl₂ fun _ h => nomatch h
  | ok target =>
  rw [hr.original] at htarget
  have houtside : Outside m id target := hout target (htarget target rfl)
  have hgiven : ∀ target', some target = some target' → Outside m id target' := by
    intro target' he
    obtain rfl := Option.some.inj he
    exact houtside
  refine minding_bind (minding_trackingRestore (minding_openNew (houtside.free A₂) hinv₂ ?_ ?_))
  swap
  · exact fun s₃ hinv₃ _ hr₃ => hraise _ _ A₂ s₃ hinv₃ (hl₂.trans (Relies.later hr₃)) hgiven
  intro fd A₃ s₃ hinv₃ _ hown hl₃
  replace hl₃ := hl₂.trans hl₃
  refine minding_bind (minding_trackingRestore (minding_sys (c := .fstat fd) trivial hinv₃
    fun x s₄ ha hinv₄ hr₄ => ?_))
  obtain ⟨-, rfl⟩ := ha
  have hl₄ := hl₃.trans (Relies.later hr₄)
  refine minding_bind (minding_trackingRestore (minding_fillTarget hinv₄ (hown.relies hr₄)
    fun x s₅ hinv₅ hl₅ => ?_))
  replace hl₅ := hl₄.trans hl₅
  cases x with
  | error e => exact hraise _ _ A₃ s₅ hinv₅ hl₅ hgiven
  | ok filled =>
  obtain ⟨mode, owned⟩ := filled
  refine minding_bind (minding_trackingRestore (minding_sys (c := .fstat fd) trivial hinv₅
    fun x s₆ ha hinv₆ hr₆ => ?_))
  obtain ⟨-, rfl⟩ := ha
  refine minding_bind (minding_trackingRestore (minding_ask (c := .time) trivial (fun _ => rfl) hinv₆
    fun x s₇ ha hinv₇ hr₇ => ?_))
  obtain ⟨-, now, hnow, rfl⟩ := ha
  refine minding_bind (minding_trackingRestore (minding_ask (c := .utcIso now) trivial (fun _ => rfl) hinv₇
    fun x s₈ ha hinv₈ hr₈ => ?_))
  obtain ⟨-, nowUtc, hutc, rfl⟩ := ha
  have hl₈ := hl₅.trans (Relies.later ((hr₆.trans hr₇).trans hr₈))
  refine minding_bind (minding_trackingRestore (minding_bind (minding_writeMetadataAtomic huuid
    ((sameItem_restored r target now nowUtc mode owned).wf hr.wf) hr.id_eq hr.original hinv₈
    (.inr ⟨rfl, hguard⟩) ?_ ?_)))
  · intro A₉ s₉ hinv₉ hl₉ _
    exact minding_fsyncDirectory hinv₉ fun s' hinv' hr' =>
      hok _ A₉ s' hinv' ((hl₈.trans hl₉).trans (Relies.later hr'))
  · exact fun e s₉ hinv₉ hl₉ _ => hraise _ _ A₃ s₉ hinv₉ (hl₈.trans hl₉) hgiven

/-- Removing a target that is none of the item's names. -/
theorem minding_unlinkIfIdentityMatches {p : Path} {device inode : Nat}
    {Q : Except Exc Unit → Set Right → Shelf → Prop} (hp : Outside m id p) (hinv : s.Inv F m id original)
    (hQ : ∀ x s', s'.Inv F m id original → Later m id A A s s' → Q x A s') :
    minding (rights F m id original) (shelving m id guard) (unlinkIfIdentityMatches p device inode) A Q
      s := by
  refine minding_bind (minding_lexists hinv fun s₁ hinv₁ hr₁ => ?_)
  have hl₁ : Later m id A A s s₁ := Relies.later hr₁
  cases (s.files.names p).isSome with
  | false => exact hQ _ s₁ hinv₁ hl₁
  | true =>
  refine minding_bind (minding_sys (c := .lstat p) trivial hinv₁ fun x s₂ ha hinv₂ hr₂ => ?_)
  have hl₂ := hl₁.trans (Relies.later hr₂)
  cases x with
  | error e => exact hQ _ s₂ hinv₂ hl₂
  | ok info =>
  refine minding_bind (minding_check (fun _ => ?_) fun _ => hQ _ s₂ hinv₂ hl₂)
  refine minding_bind (minding_call_empty (c := .file (.unlink p)) fun r s₃ ha => ?_)
  obtain ⟨-, ⟨r₀, ha, rfl⟩, hdrawn, hversions⟩ := ha
  cases r₀ with
  | error n =>
      have hfiles : s₃.files = s₂.files := by
        simp only [Files.answers] at ha
        split at ha
        · exact ha.1
        · split at ha
          · obtain ⟨k, hfiles, -⟩ := ha
            exact hfiles
          · exact absurd ha.1 (by simp)
      rw [versionsAfter_same (by rw [hfiles])] at hversions
      refine ⟨rfl, keeps_nothing hinv₂ hfiles hdrawn hversions, fun s₄ hinv₄ hr₄ => ?_⟩
      exact hQ _ s₄ hinv₄ (hl₂.trans (Relies.later ((relies_same hfiles hversions).trans hr₄)))
  | ok _ =>
      have hgone := relabelled_unlink ha
      have hname (q : Path) (hq : q ∈ m.storeNames id) : s₃.files.names q = s₂.files.names q := by
        rw [hgone.names, Function.update_of_ne ((hp.free A).ne hq)]
      rw [versionsAfter_same (hname _ (metadata_mem m id))] at hversions
      refine ⟨rfl, keeps_unlink_free (hp.free A) hinv₂ hgone hdrawn hversions, fun s₄ hinv₄ hr₄ => ?_⟩
      have hl₃ : Later m id A A s₂ s₃ :=
        later_of_names subset_rfl (fun hd => hd) fun q hq _ => hname q hq
      exact hQ _ s₄ hinv₄ ((hl₂.trans hl₃).trans (Relies.later hr₄))

theorem minding_discardTarget {ℓ : RestoreLocals F}
    {Q : Except Exc (Option PyStr) → Set Right → Shelf → Prop} (hinv : s.Inv F m id original)
    (hℓ : ∀ target, ℓ.target = some target → Outside m id target)
    (hQ : ∀ x s', s'.Inv F m id original → Later m id A A s s' → Q x A s') :
    minding (rights F m id original) (shelving m id guard) (discardTarget m ℓ) A Q s := by
  unfold discardTarget
  split
  · next target device inode htarget _ =>
      refine minding_orElse (minding_bind (minding_unlinkIfIdentityMatches (hℓ target htarget) hinv
        fun x s₁ hinv₁ hl₁ => ?_))
      cases x with
      | ok _ => exact hQ _ s₁ hinv₁ hl₁
      | error e => cases e <;> exact hQ _ s₁ hinv₁ hl₁
  · exact hQ _ s hinv (.refl m id A s)

theorem minding_rewritePrevious {ℓ : RestoreLocals F} {r : QuarantineRecord F} {s₀ : Shelf}
    {Q : Except Exc (Option PyStr) → Set Right → Shelf → Prop} (huuid : isUuid id = true)
    (hguard : Restrained m id guard) (hinv : s.Inv F m id original) (hr : Known m id original r s₀)
    (hlive : hasStatus r (py "deleted") = false)
    (hQ : ∀ x A' s', s'.Inv F m id original → Later m id A A' s s' → Q x A' s') :
    minding (rights F m id original) (shelving m id guard) (rewritePrevious m r ℓ) A Q s := by
  unfold rewritePrevious
  split
  · exact hQ _ A s hinv (.refl m id A s)
  · refine minding_orElse (minding_bind (minding_writeMetadataAtomic huuid hr.wf hr.id_eq hr.original hinv
      (.inr ⟨hlive, hguard⟩) (fun A₁ s₁ hinv₁ hl₁ _ => ?_) fun e s₁ hinv₁ hl₁ _ => ?_))
    · exact hQ _ A₁ s₁ hinv₁ hl₁
    · exact hQ _ A s₁ hinv₁ hl₁

/-- `restore_file` among other calls on the item. -/
theorem minding_restoreFile {q : Json F} {destination : Option PyStr}
    {Q : Except Exc (QuarantineRecord F) → Set Right → Shelf → Prop}
    (hid : validateQuarantineId q = .ok id) (hguard : Restrained m id guard)
    (hout : ∀ target, restoreTarget m destination original = some target → Outside m id target)
    (hinv : s.Inv F m id original)
    (hQ : ∀ x A' s', s'.Inv F m id original → Later m id A A' s s' → Q x A' s') :
    minding (rights F m id original) (shelving m id guard) (restoreFile m q destination) A Q s := by
  have huuid := isUuid_of_validate hid
  refine minding_bind (minding_loadMetadata hid hinv (fun r s₁ hinv₁ hr₁ hr => ?_)
    fun e s₁ hinv₁ hr₁ => hQ _ A s₁ hinv₁ (Relies.later hr₁))
  have hl₁ : Later m id A A s s₁ := Relies.later hr₁
  refine minding_bind (minding_check (fun hlive => ?_) fun _ => hQ _ A s₁ hinv₁ hl₁)
  refine minding_bind (minding_lift ?_)
  rw [hr.id_eq, validateQuarantineId_of_isUuid huuid]
  refine minding_bind (minding_lexists hinv₁ fun s₂ hinv₂ hr₂ => ?_)
  have hl₂ := hl₁.trans (Relies.later hr₂)
  refine minding_bind (minding_check (fun _ => ?_) fun _ => hQ _ A s₂ hinv₂ hl₂)
  refine minding_orElse (minding_restoreBody huuid hguard hinv₂ hr hout
    (fun r A₃ s₃ hinv₃ hl₃ => hQ _ A₃ s₃ hinv₃ (hl₂.trans hl₃)) fun e ℓ A₃ s₃ hinv₃ hl₃ hℓ => ?_)
  replace hl₃ := hl₂.trans hl₃
  refine minding_bind (minding_discardTarget hinv₃ hℓ fun x s₄ hinv₄ hl₄ => ?_)
  replace hl₄ := hl₃.trans hl₄
  cases x with
  | error e => exact hQ _ A₃ s₄ hinv₄ hl₄
  | ok targetError =>
  refine minding_bind (minding_rewritePrevious huuid hguard hinv₄ hr hlive fun x A₅ s₅ hinv₅ hl₅ => ?_)
  replace hl₅ := hl₄.trans hl₅
  cases x with
  | error e => exact hQ _ A₅ s₅ hinv₅ hl₅
  | ok metadataError =>
      cases targetError <;> cases metadataError <;> cases e <;> exact hQ _ A₅ s₅ hinv₅ hl₅

end Restore

/-! ## Threads -/

/-- What a thread is asked to do, with the id as the client gives it. -/
inductive Client (F : Type) where
  | restore (quarantineId : Json F) (destination : Option PyStr)
  | delete (quarantineId : Json F)

def Client.quarantineId : Client F → Json F
  | .restore quarantineId _ => quarantineId
  | .delete quarantineId => quarantineId

def Client.code (m : Manager) : Client F → Prog F (Option (QuarantineRecord F))
  | .restore quarantineId destination => do
      let r ← restoreFile m quarantineId destination
      return some r
  | .delete quarantineId => deletePermanently m quarantineId

abbrev ItemThread (F : Type) : Type :=
  Thread (Client F) (interface F) Exc (Option (QuarantineRecord F))

def Begins (m : Manager) (id : PyStr) (t : ItemThread F) : Prop :=
  validateQuarantineId t.tag.quarantineId = .ok id ∧ t.code = t.tag.code m

/-- No file of the item is given as a destination; `original` is where the item comes from. -/
def Apart (m : Manager) (id : PyStr) (original : Json F) (t : ItemThread F) : Prop :=
  ∀ q destination target, t.tag = .restore q destination →
    restoreTarget m destination original = some target → Outside m id target

/-- The name that the call gives to another file. -/
def replaced : Call F → Option Path
  | .file (.replace _ dst) => some dst
  | _ => none

/-- A restoration puts no record in place of one that says `deleted`. -/
def restrained (m : Manager) (id : PyStr) (client : Client F) (c : Call F) (s : Shelf) : Prop :=
  match client with
  | .restore _ _ => replaced c = some (m.metadataPath id) → ¬ IsDeleted F m id s.files
  | .delete _ => True

/-- Every interleaving of the calls, as far as `guard` lets them. -/
abbrev Interleaved (m : Manager) (id : PyStr) (starts : ItemThread F → Prop)
    (guard : Client F → Call F → Shelf → Prop) :
    Pool Shelf (ItemThread F) → Pool Shelf (ItemThread F) → Prop :=
  Pool.Runs starts (Thread.Act fun client => shelving m id (guard client))

/-- The files, before anybody has done anything. -/
def Shelf.of (m : Manager) (id : PyStr) (f : Files Path) : Shelf where
  files := f
  drawn := []
  versions := (f.names (m.metadataPath id)).toList

/-- A deletion that has returned is not lost. -/
def Stays (m : Manager) (id : PyStr)
    (runs : Pool Shelf (ItemThread F) → Pool Shelf (ItemThread F) → Prop)
    (p : Pool Shelf (ItemThread F)) : Prop :=
  (∃ t ∈ p.threads, ∃ q x, t.tag = .delete q ∧ t.code = .done x) →
    ∀ p', runs p p' → IsDeleted F m id p'.shared.files

/-- When all calls are over, the status says whether the payload is there. -/
def Agrees (m : Manager) (id : PyStr) (p : Pool Shelf (ItemThread F)) : Prop :=
  (∀ t ∈ p.threads, t.Finished) →
    (¬ IsDeleted F m id p.shared.files ↔ (p.shared.files.names (m.payloadPath id)).isSome = true)

section Threads

variable {q : Json F} {f : Files Path} {r : QuarantineRecord F} {j : Nat}

theorem Shelf.Inv.gone {s : Shelf} (hinv : s.Inv F m id original) (h : IsDeleted F m id s.files) :
    s.files.names (m.payloadPath id) = none := by
  obtain ⟨k, hk, hmarked⟩ := h
  obtain ⟨i, hi, hcurrent⟩ := hinv.current
  obtain rfl : i = k := Option.some.inj (hcurrent.symm.trans hk)
  exact (hinv.deleted i hi hmarked).2

theorem saysDeleted_of_status {data : Bytes} (hdec : decodeRecord m.str id data = .ok r)
    (h : r.restorationStatus = .str (py "deleted")) : SaysDeleted F m id data :=
  ⟨r, hdec, by simp [hasStatus, h]⟩

theorem Filed.inv (h : Filed m f id r) (hl : Loaded m f q id j r) (hwf : f.WF) :
    (Shelf.of m id f).Inv F m id r.originalPath := by
  have hversions : (Shelf.of m id f).versions = [j] := by simp [Shelf.of, hl.named]
  obtain ⟨data, henc⟩ := h.writable
  refine ⟨hwf, ⟨j, by simp [hversions], hl.named⟩, ?_, ?_, ?_⟩
  · intro i hi
    rw [hversions, List.mem_singleton] at hi
    subst hi
    exact ⟨hwf _ _ hl.named, hl.regular, r, hl.decoded, rfl, data, henc⟩
  · intro i hi hmarked
    rw [hversions, List.mem_singleton] at hi
    subst hi
    refine ⟨⟨i, hl.named, hmarked⟩, ?_⟩
    obtain ⟨r', hdec, hstatus⟩ := hmarked
    obtain rfl : r = r' := Except.ok.inj (hl.decoded.symm.trans hdec)
    rcases h.state with ⟨-, hgone⟩ | ⟨hlive, -⟩
    · exact hgone.payload
    · rcases hlive with hlive | hlive <;> rw [hasStatus, hlive] at hstatus <;> simp at hstatus <;>
        exact absurd hstatus (by decide)
  · intro i hi
    rcases h.state with ⟨-, hgone⟩ | ⟨-, k, hk, hregular, -⟩
    · rcases hi with hi | ⟨-, hi⟩
      · cases hgone.payload.symm.trans hi
      · cases hgone.pending.symm.trans hi
    · rcases hi with hi | ⟨hnone, -⟩
      · obtain rfl : k = i := Option.some.inj (hk.symm.trans hi)
        show (f.nodes k).kind ≠ .directory
        rw [hregular]
        decide
      · cases hk.symm.trans hnone

/-- What a call has done at its end. -/
def ClientPost (m : Manager) (id : PyStr) (client : Client F)
    (x : Except Exc (Option (QuarantineRecord F))) (A : Set Right) (s : Shelf) : Prop :=
  (∀ q a, client = .delete q → x = .ok a → IsDeleted F m id s.files) ∧
    (.deletion ∈ A → IsDeleted F m id s.files)

/-- A thread minds the others from its beginning. -/
theorem minding_client {t : ItemThread F} (ht : Begins m id t) (hapart : Apart m id original t) {s : Shelf}
    (hinv : s.Inv F m id original) :
    t.code.minding (rights F m id original) (shelving m id (restrained m id t.tag)) ∅
      (ClientPost m id t.tag) s := by
  obtain ⟨client, code⟩ := t
  obtain ⟨hid, hcode⟩ := ht
  obtain rfl : code = client.code m := hcode
  cases client with
  | delete q =>
      refine minding_deletePermanently hid hinv (fun r A' s' _ hdeleted => ?_) fun e s' _ => ?_
      · exact ⟨fun _ _ _ _ => hdeleted, fun _ => hdeleted⟩
      · exact ⟨fun _ _ _ h => (nomatch h), fun hd => hd.elim⟩
  | restore q destination =>
      refine minding_bind (minding_restoreFile hid (fun src s hguard => hguard rfl)
        (fun target => hapart q destination target rfl) hinv fun x A' s' _ hl => ?_)
      have hnone : .deletion ∉ A' := fun hd => hl.deletion hd
      cases x with
      | ok r => exact ⟨fun _ _ h => (nomatch h), fun hd => absurd hd hnone⟩
      | error e => exact ⟨fun _ _ h => (nomatch h), fun hd => absurd hd hnone⟩

/-- **No deletion is lost**, in any interleaving of restorations and deletions of an item, as long as no
    restoration puts a record in place of one that says `deleted` and none has a file of the item for its
    destination. -/
theorem deletion_stands {p : Pool Shelf (ItemThread F)} (hl : Loaded m f q id j r)
    (hfiled : Filed m f id r) (hwf : f.WF)
    (hruns : Interleaved m id (fun t => Begins m id t ∧ Apart m id r.originalPath t) (restrained m id)
      ⟨Shelf.of m id f, []⟩ p) :
    Stays m id (Interleaved m id (fun t => Begins m id t ∧ Apart m id r.originalPath t)
      (restrained m id)) p ∧ Agrees m id p := by
  have hinv := hfiled.inv hl hwf
  have hstarts (t : ItemThread F) (ht : Begins m id t ∧ Apart m id r.originalPath t) (s : Shelf)
      (hs : s.Inv F m id r.originalPath) : t.code.minding (rights F m id r.originalPath)
        (shelving m id (restrained m id t.tag)) ∅ (ClientPost m id t.tag) s :=
    minding_client ht.1 ht.2 hs
  have hmindful₀ : Mindful (rights F m id r.originalPath)
      (fun client => shelving m id (restrained m id client)) (Shelf.of m id f) (ClientPost m id)
      ⟨Shelf.of m id f, ([] : List (ItemThread F))⟩ := mindful_nil hinv
  obtain ⟨hrely, hmindful⟩ := hmindful₀.runs hstarts hruns
  refine ⟨?_, fun hall => ⟨fun hlive => ?_, fun hsome hdeleted => ?_⟩⟩
  · rintro ⟨t, ht, q', x, htag, hx⟩ p' hruns'
    obtain ⟨A, hpost⟩ := hmindful.finished ht (r := .ok x) hx
    obtain ⟨hrely', hmindful'⟩ := hmindful.runs hstarts hruns'
    exact (hpost.1 q' x htag rfl).relies hmindful.inv hmindful'.inv hrely'
  · by_contra hnone
    refine hlive ?_
    have hgone : p.shared.files.names (m.payloadPath id) = none := by simpa using hnone
    by_cases hbefore : .deletion ∈ (Shelf.of m id f).live m id
    · -- nobody can have deleted the payload, so it was gone from the beginning
      have hsame : p.shared.files.names (m.payloadPath id) = f.names (m.payloadPath id) :=
        (hmindful.kept.payload hbefore).1
      have hdeleted : IsDeleted F m id f := by
        rcases hfiled.state with ⟨hstatus, -⟩ | ⟨-, k, hk, -⟩
        · exact ⟨j, hl.named, saysDeleted_of_status hl.decoded hstatus⟩
        · cases (hsame.symm.trans hgone).symm.trans hk
      exact IsDeleted.relies (s := Shelf.of m id f) hdeleted hinv hmindful.inv hrely
    · have hlive : .deletion ∈ p.shared.live m id := .inl hgone
      obtain ⟨t, -, x, A, hd, hpost⟩ := hmindful.owner hall hlive hbefore
      exact hpost.2 hd
  · rw [Shelf.Inv.gone (F := F) hmindful.inv hdeleted] at hsome
    cases hsome

end Threads

/-! ## Runs that can be computed -/

section Computed

instance (m : Manager) (id : PyStr) (data : Bytes) : Decidable (SaysDeleted F m id data) :=
  match h : decodeRecord (F := F) m.str id data with
  | .ok r => decidable_of_iff (hasStatus r (py "deleted") = true)
      ⟨fun hstatus => ⟨r, h, hstatus⟩, fun ⟨_, hr, hstatus⟩ => Except.ok.inj (h.symm.trans hr) ▸ hstatus⟩
  | .error _ => .isFalse fun ⟨_, hr, _⟩ => nomatch h.symm.trans hr

instance (m : Manager) (id : PyStr) (f : Files Path) : Decidable (IsDeleted F m id f) :=
  match h : f.names (m.metadataPath id) with
  | some j => decidable_of_iff (SaysDeleted F m id (f.nodes j).bytes)
      ⟨fun hmarked => ⟨j, h, hmarked⟩, fun ⟨_, hk, hmarked⟩ => Option.some.inj (h.symm.trans hk) ▸ hmarked⟩
  | none => .isFalse fun ⟨_, hk, _⟩ => nomatch h.symm.trans hk

instance (m : Manager) (id : PyStr) (client : Client F) (c : Call F) (s : Shelf) :
    Decidable (restrained m id client c s) :=
  match client with
  | .restore _ _ => inferInstanceAs (Decidable (_ → ¬ _))
  | .delete _ => .isTrue trivial

/-- A shelf to compute with. -/
structure Desk where
  disk : Disk Path
  drawn : List PyStr
  versions : List Nat

def Desk.shelf (d : Desk) : Shelf := ⟨d.disk.files, d.drawn, d.versions⟩

/-- The scenery with a token that depends on how many have been drawn. -/
def Scenery.next (h : Scenery F) (d : Desk) : Scenery F :=
  { h with token := List.replicate 32 (48 + d.drawn.length) }

/-- The host of threads on a disk. -/
def Scenery.onDesk (h : Scenery F) (m : Manager) (id : PyStr) (guard : Call F → Shelf → Prop)
    [∀ c s, Decidable (guard c s)] : Driver (shelving m id guard) Desk Desk.shelf where
  reply c d :=
    let r := (h.next d).reply id c d.disk
    (r.1, ⟨r.2, match c with | .token => (h.next d).token :: d.drawn | _ => d.drawn,
      versionsAfter (m.metadataPath id) d.disk.files r.2.files d.versions⟩)
  valid (c : Call F) d := decide (guard c d.shelf) && (h.next d).valid c d.disk &&
    match c with | .token => decide ((h.next d).token ∉ d.drawn) | _ => true
  mayFail _ _ := false
  fails := by simp
  sound := by
    intro c d hv
    simp only [Bool.and_eq_true, decide_eq_true_eq] at hv
    obtain ⟨⟨hguard, hvalid⟩, htoken⟩ := hv
    refine ⟨hguard, ((h.next d).onDisk id).sound c d.disk hvalid, ?_, rfl⟩
    cases c with
    | token => exact ⟨of_decide_eq_true htoken, rfl⟩
    | file | resolve | uuid4 | time | utcIso | magic | geteuid => rfl

variable {guard : Client F → Call F → Shelf → Prop} [∀ client c s, Decidable (guard client c s)]
  {starts : ItemThread F → Prop} {h : Scenery F} {d d' : Desk} {xs ys : List (ItemThread F)}
  {client : Client F} {code code' : Prog F (Option (QuarantineRecord F))}

theorem advance_runs {P : Call F → Bool}
    (hrun : advance (h.onDesk m id (guard client)) P code d = some (code', d')) :
    Interleaved m id starts guard ⟨d.shelf, xs ++ ⟨client, code⟩ :: ys⟩
      ⟨d'.shelf, xs ++ ⟨client, code'⟩ :: ys⟩ :=
  runs_of_steps (M := fun client => shelving m id (guard client)) (advance_steps _ hrun)

theorem drive_runs {b : Faults} {x : Except Exc (Option (QuarantineRecord F))}
    (hrun : drive (h.onDesk m id (guard client)) code none d = some (b, x, d')) :
    Interleaved m id starts guard ⟨d.shelf, xs ++ ⟨client, code⟩ :: ys⟩
      ⟨d'.shelf, xs ++ ⟨client, ofResult x⟩ :: ys⟩ := by
  have hsteps := drive_steps _ hrun
  obtain rfl : b = .never := hsteps.never rfl
  exact runs_of_steps (M := fun client => shelving m id (guard client)) hsteps

end Computed

/-! ## The small file -/

def malText : PyStr := py "/home/mal"

def sampleRestore : Client SampleFloat := .restore (.str sampleId) none

def sampleDelete : Client SampleFloat := .delete (.str sampleId)

abbrev SampleStarts (t : ItemThread SampleFloat) : Prop :=
  Begins sampleManager sampleId t ∧ Apart sampleManager sampleId (.str malText) t

def sampleDesk : Desk where
  disk := storedDisk
  drawn := []
  versions := (storedDisk.files.names (sampleManager.metadataPath sampleId)).toList

theorem sampleDesk_shelf : sampleDesk.shelf = Shelf.of sampleManager sampleId storedDisk.files := rfl

/-- Whether the record is one of the file. -/
def tellsOf (f : Files Path) (text : PyStr) : Bool :=
  match f.names (sampleManager.metadataPath sampleId) with
  | some j => decide ((f.nodes j).kind = .regular) &&
      match decodeRecord (F := SampleFloat) sampleManager.str sampleId (f.nodes j).bytes with
      | .ok r => match r.originalPath with
        | .str s => decide (s = text)
        | _ => false
      | .error _ => false
  | none => false

theorem sample_orderly : Orderly SampleFloat sampleManager storedDisk.files :=
  orderly_of_calls (.single sample_called) ⟨sample_wf, fun id huuid => .inl (sampleDisk_new id huuid)⟩

theorem sample_filed : ∃ (j : Nat) (r : QuarantineRecord SampleFloat),
    Loaded sampleManager storedDisk.files (.str sampleId) sampleId j r ∧
      Filed sampleManager storedDisk.files sampleId r ∧ r.originalPath = .str malText := by
  have htells : tellsOf storedDisk.files malText = true := by decide +kernel
  unfold tellsOf at htells
  split at htells
  next j hj =>
    obtain ⟨hregular, hpath⟩ := Bool.and_eq_true_iff.1 htells
    split at hpath
    next r hr =>
      split at hpath
      next s hs =>
        have hl : Loaded sampleManager storedDisk.files (.str sampleId) sampleId j r :=
          ⟨by decide, hj, of_decide_eq_true hregular, hr⟩
        exact ⟨j, r, hl, (sample_orderly.loaded hl).2, by rw [hs, of_decide_eq_true hpath]⟩
      next => cases hpath
    next => cases hpath
  next => cases htells

theorem malPath_outside : Outside sampleManager sampleId malPath := by
  refine ⟨fun hmem => malPath_apart ⟨sampleId, by decide, hmem⟩, ?_⟩
  rintro ⟨token, hlen, hp⟩
  have hname := congrArg (fun p : Path => p.name.length) hp
  simp only [Manager.metadataTemporary, temporaryName_length, hlen] at hname
  exact absurd hname (by decide)

theorem sample_starts {client : Client SampleFloat} (h : client = sampleRestore ∨ client = sampleDelete) :
    SampleStarts ⟨client, client.code sampleManager⟩ := by
  rcases h with rfl | rfl
  · refine ⟨⟨by decide, rfl⟩, ?_⟩
    rintro q destination target hq htarget
    obtain ⟨-, rfl⟩ : _ ∧ none = destination := by simpa [sampleRestore] using hq
    obtain rfl : malPath = target := Option.some.inj htarget
    exact malPath_outside
  · refine ⟨⟨by decide, rfl⟩, ?_⟩
    rintro q destination target hq -
    cases hq

/-- A call that puts a file in place of another. -/
def replaces (c : Call SampleFloat) : Bool := (replaced c).isSome

section Runs

variable (guard : Client SampleFloat → Call SampleFloat → Shelf → Prop)

abbrev SampleRuns : Pool Shelf (ItemThread SampleFloat) → Pool Shelf (ItemThread SampleFloat) → Prop :=
  Interleaved sampleManager sampleId SampleStarts guard

variable [∀ client c s, Decidable (guard client c s)]

abbrev sampleHost (client : Client SampleFloat) :
    Driver (shelving sampleManager sampleId (guard client)) Desk Desk.shelf :=
  sampleScenery.onDesk sampleManager sampleId (guard client)

/-- The thread's call up to where it puts its record in place. -/
def upToRecord (client : Client SampleFloat) (d : Desk) :
    Option (Prog SampleFloat (Option (QuarantineRecord SampleFloat)) × Desk) :=
  advance (sampleHost guard client) replaces (client.code sampleManager) d

def toEnd (client : Client SampleFloat) (code : Prog SampleFloat (Option (QuarantineRecord SampleFloat)))
    (d : Desk) : Option (Except Exc (Option (QuarantineRecord SampleFloat)) × Desk) :=
  (drive (sampleHost guard client) code none d).map (·.2)

/-- The deletion comes to its end while the restoration is about to put its record in place. -/
def overtaken : Option (Except Exc (Option (QuarantineRecord SampleFloat)) × Desk × Desk) := do
  let (restoring, d) ← upToRecord guard sampleRestore sampleDesk
  let (deleted, d) ← toEnd guard sampleDelete (sampleDelete.code sampleManager) d
  let (_, d') ← toEnd guard sampleRestore restoring d
  return (deleted, d, d')

/-- The restoration comes to its end while the deletion is about to put its record in place. -/
def inTurn : Option (Except Exc (Option (QuarantineRecord SampleFloat)) × Desk) := do
  let (restoring, d) ← upToRecord guard sampleRestore sampleDesk
  let (deleting, d) ← upToRecord guard sampleDelete d
  let (_, d) ← toEnd guard sampleRestore restoring d
  toEnd guard sampleDelete deleting d

variable {guard} {d d' : Desk} {client : Client SampleFloat}
  {code code' : Prog SampleFloat (Option (QuarantineRecord SampleFloat))}
  {x : Except Exc (Option (QuarantineRecord SampleFloat))}

theorem toEnd_runs (xs ys : List (ItemThread SampleFloat)) (h : toEnd guard client code d = some (x, d')) :
    SampleRuns guard ⟨d.shelf, xs ++ ⟨client, code⟩ :: ys⟩ ⟨d'.shelf, xs ++ ⟨client, ofResult x⟩ :: ys⟩ := by
  obtain ⟨⟨b, x', d''⟩, hrun, heq⟩ := Option.map_eq_some_iff.1 h
  cases heq
  exact drive_runs hrun

/-- A thread comes, and goes up to where it puts its record in place. -/
theorem upToRecord_runs (xs : List (ItemThread SampleFloat)) (hclient : client = sampleRestore ∨ client = sampleDelete)
    (h : upToRecord guard client d = some (code', d')) :
    SampleRuns guard ⟨d.shelf, xs⟩ ⟨d'.shelf, xs ++ [⟨client, code'⟩]⟩ :=
  .head (.start (sample_starts hclient)) (advance_runs h)

end Runs

/-- The file is deleted while it is restored. -/
theorem sample_deletion_stands : ∃ p : Pool Shelf (ItemThread SampleFloat),
    (∃ t ∈ p.threads, ∃ q x, t.tag = .delete q ∧ t.code = .done x) ∧
    Stays sampleManager sampleId (SampleRuns (restrained sampleManager sampleId)) p ∧
    Agrees sampleManager sampleId p := by
  have hcheck : (inTurn (restrained sampleManager sampleId)).any (·.1.isOk) = true := by decide +kernel
  obtain ⟨⟨deleted, d₄⟩, hrun, hok⟩ := (Option.any_eq_true _ _).1 hcheck
  simp only [inTurn, Option.bind_eq_bind, Option.bind_eq_some_iff, Prod.exists] at hrun
  obtain ⟨restoring, d₁, hfirst, deleting, d₂, hsecond, restored, d₃, hrestored, hdeleted⟩ := hrun
  obtain ⟨j, r, hl, hfiled, horiginal⟩ := sample_filed
  have hbegun := (upToRecord_runs [] (.inl rfl) hfirst).trans
    (upToRecord_runs [⟨sampleRestore, restoring⟩] (.inr rfl) hsecond)
  have hrestoration := toEnd_runs [] [⟨sampleDelete, deleting⟩] hrestored
  have hdeletion := toEnd_runs [⟨sampleRestore, ofResult restored⟩] [] hdeleted
  have hall := hbegun.trans (hrestoration.trans hdeletion)
  have hruns : SampleRuns (restrained sampleManager sampleId)
      ⟨Shelf.of sampleManager sampleId storedDisk.files, []⟩
      ⟨d₄.shelf, [⟨sampleRestore, ofResult restored⟩, ⟨sampleDelete, ofResult deleted⟩]⟩ := by
    rw [← sampleDesk_shelf]
    exact hall
  have hstands : ∀ original p, r.originalPath = original → Interleaved sampleManager sampleId
      (fun t => Begins sampleManager sampleId t ∧ Apart sampleManager sampleId original t)
      (restrained sampleManager sampleId) ⟨Shelf.of sampleManager sampleId storedDisk.files, []⟩ p →
        Stays sampleManager sampleId (Interleaved sampleManager sampleId
          (fun t => Begins sampleManager sampleId t ∧ Apart sampleManager sampleId original t)
          (restrained sampleManager sampleId)) p ∧ Agrees sampleManager sampleId p := by
    rintro _ p rfl hp
    exact deletion_stands hl hfiled sample_orderly.wf hp
  refine ⟨_, ?_, hstands _ _ horiginal hruns⟩
  · cases deleted with
    | ok x => exact ⟨⟨sampleDelete, .done x⟩, by simp [ofResult], _, x, rfl, rfl⟩
    | error e => cases hok

/-- A restoration that comes last writes its record over the one that says `deleted`. -/
theorem deletion_undone :
    (∃ e, Calls SampleFloat sampleManager 8 sampleDisk.files e storedDisk.files) ∧
    ∃ p p' : Pool Shelf (ItemThread SampleFloat),
      SampleRuns (fun _ _ _ => True) ⟨Shelf.of sampleManager sampleId storedDisk.files, []⟩ p ∧
      SampleRuns (fun _ _ _ => True) p p' ∧
      ¬ Stays sampleManager sampleId (SampleRuns fun _ _ _ => True) p ∧
      ¬ Agrees sampleManager sampleId p' := by
  have hcheck : (overtaken fun _ _ _ => True).any (fun z => z.1.isOk &&
      !decide (IsDeleted SampleFloat sampleManager sampleId z.2.2.disk.files) &&
      (z.2.2.disk.files.names (sampleManager.payloadPath sampleId)).isNone) = true := by decide +kernel
  obtain ⟨z, hrun, hcheck⟩ := (Option.any_eq_true _ _).1 hcheck
  simp only [overtaken, Option.bind_eq_bind, Option.bind_eq_some_iff, Option.pure_def, Option.some.injEq,
    Prod.exists] at hrun
  obtain ⟨restoring, d₁, hfirst, deleted, d₂, hdeleted, restored, d₃, hrestored, rfl⟩ := hrun
  simp only [Bool.and_eq_true, Bool.not_eq_true', decide_eq_false_iff_not, Option.isNone_iff_eq_none] at hcheck
  obtain ⟨⟨hok, hlive⟩, hgone⟩ := hcheck
  have hlast := toEnd_runs [] [⟨sampleDelete, ofResult deleted⟩] hrestored
  refine ⟨sample_called, _, _, ?_, hlast, fun hstays => ?_, fun hagrees => ?_⟩
  · exact ((upToRecord_runs [] (.inl rfl) hfirst).tail (.start (sample_starts (.inr rfl)))).trans
      (toEnd_runs [_] [] hdeleted)
  · cases deleted with
    | ok r => exact hlive (hstays ⟨⟨sampleDelete, .done r⟩, by simp [ofResult], _, r, rfl, rfl⟩ _ hlast)
    | error e => cases hok
  · have hall : ∀ t ∈ [(⟨sampleRestore, ofResult restored⟩ : ItemThread SampleFloat),
        ⟨sampleDelete, ofResult deleted⟩], t.Finished := by
      simp [Thread.Finished]
    have hsome : (d₃.disk.files.names (sampleManager.payloadPath sampleId)).isSome = true :=
      (hagrees hall).1 hlive
    rw [hgone] at hsome
    cases hsome

end Elyra.Quarantine
