import Elyra.Quarantine.Restore

set_option autoImplicit false

/-! # Deleting

`delete_permanently` in all its runs with at most one failing step. It returns with the record marked
as deleted and the payload gone, or raises with everything as before, save for one failure: when the
quarantine directory cannot be synced after the pending file has been unlinked, there is nothing left
to move back, and the old record is written over an item without a payload (`lost`). -/

namespace Elyra.Quarantine

open Elyra.Python Elyra.Posix Elyra.Posix.Program

variable {F : Type} {α : Type}

section Rules

variable [FloatNum F] {uuid : PyStr} {allowed : Call F → Exc → Prop} {I : Files Path → Prop}
  {b : Faults} {f : Files Path} {m : Manager}

/-- A move onto a name that is taken changes nothing. -/
theorem wp_moveNoreplace_occupied {src dst : Path} {i j : Nat}
    {Q : Faults → Except Exc Unit → Files Path → Prop} (hsrc : f.names src = some i)
    (hdst : f.names dst = some j) (hI : I f) (hraise : ∀ b' e, Q b' (.error e) f) :
    wp (machine uuid allowed) I (moveNoreplace src dst) b Q f := by
  have hlink : ∀ b', wp (machine uuid allowed) I (linkAndUnlink src dst) b' Q f := by
    intro b'
    refine ⟨hI, ?_, ?_⟩
    · rintro r f₁ ⟨r₀, h, rfl⟩
      simp only [Files.answers, hsrc, hdst] at h
      obtain ⟨rfl, rfl⟩ := h
      exact ⟨hI, hraise _ _⟩
    · rintro e hb ⟨⟨n, rfl⟩, -⟩
      exact ⟨hI, hraise _ _⟩
  refine wp_bind (wp_lexists hI ?_ ?_)
  · rw [hdst]
    exact wp_bind (wp_check hI (fun h => absurd h (by simp)) (fun _ => hraise _ _))
  · intro hb e _
    refine wp_bind (wp_check hI (fun _ => ?_) (fun h => absurd rfl h))
    refine ⟨hI, ?_, fun _ hb => by cases hb⟩
    rintro r f₁ ⟨r₀, h, rfl⟩
    simp only [Files.answers, hsrc, hdst] at h
    rcases h with ⟨rfl, rfl | rfl⟩ | ⟨rfl, rfl⟩
    · exact hlink _
    · exact hlink _
    · exact ⟨hI, hraise _ _⟩

/-- `_load_metadata` changes nothing. -/
theorem wp_loadMetadata {q : Json F} {Q : Faults → Except Exc (QuarantineRecord F) → Files Path → Prop}
    (hI : I f) (hok : ∀ r id j, Loaded m f q id j r → Q b (.ok r) f)
    (hraise : ∀ b' e, Q b' (.error e) f) :
    wp (machine uuid allowed) I (loadMetadata m q) b Q f := by
  refine wp_bind (wp_lift hI ?_)
  cases hid : validateQuarantineId q with
  | error e => exact hraise _ e
  | ok id =>
  refine wp_bind (wp_lexists hI ?_ ?_)
  · cases hj : f.names (m.metadataPath id) with
    | none => exact wp_bind (wp_check hI (fun h => absurd h (by simp)) (fun _ => hraise _ _))
    | some j =>
    refine wp_bind (wp_check hI (fun _ => ?_) (fun _ => hraise _ _))
    refine wp_bind (wp_lstat hj hI ?_ (fun _ _ => hraise _ _))
    refine wp_bind (wp_check hI (fun hk => ?_) (fun _ => hraise _ _))
    have hreg : (f.nodes j).kind = .regular := hk
    have hread : wp (machine uuid allowed) I (do
        let fd : Nat ← sys (.openFile (m.metadataPath id))
        sys (.readAll fd) : Prog F Bytes) b (fun b' x f' =>
          match x with
          | .ok data => b' = b ∧ data = (f.nodes j).bytes ∧ f' = f
          | .error _ => f' = f) f := by
      refine wp_bind (wp_sys hI ?_ (fun _ _ => rfl))
      rintro r f₁ ⟨rfl, hr⟩
      rw [hj] at hr
      simp only [hreg] at hr
      rw [if_neg (by simp)] at hr
      subst hr
      exact ⟨hI, wp_readAll hI ⟨rfl, rfl, rfl⟩ (fun _ _ => rfl)⟩
    refine wp_bind (wp_orElse (wp_mono ?_ hread))
    rintro b' (e | data) f' h
    · have hf : f' = f := h
      subst hf
      exact ⟨hI, hraise _ _⟩
    · obtain ⟨rfl, rfl, rfl⟩ := h
      refine wp_lift hI ?_
      cases hdec : decodeRecord (F := F) m.str id (f'.nodes j).bytes with
      | error e => exact hraise _ e
      | ok r => exact hok r id j ⟨hid, hj, hreg, hdec⟩
  · intro hb e _
    exact wp_bind (wp_check hI (fun h => absurd h (by simp)) (fun _ => hraise _ _))

end Rules

/-! ## What the call has done -/

section States

variable [FloatNum F] {m : Manager} {id : PyStr} {f₀ f g : Files Path} {k : Nat}
  {W W' : Bytes → Prop} {payload pending : Option Nat}

theorem Manager.payloadPath_ne_metadataPath (m : Manager) (id : PyStr) :
    m.payloadPath id ≠ m.metadataPath id := by
  refine Path.ne_of_length ?_
  simp only [Manager.metadataPath, Manager.payloadPath, metadataName_length]
  omega

theorem Manager.payloadPath_ne_deletePending (m : Manager) (id : PyStr) :
    m.payloadPath id ≠ m.deletePending id := by
  refine Path.ne_of_length ?_
  simp only [Manager.deletePending, Manager.payloadPath, deletePendingName_length]
  omega

theorem Manager.metadataPath_ne_deletePending (m : Manager) (id : PyStr) :
    m.metadataPath id ≠ m.deletePending id := by
  refine Path.ne_of_length ?_
  simp only [Manager.deletePending, Manager.metadataPath, deletePendingName_length,
    metadataName_length]
  omega

/-- The payload has its name or the pending name or none; the metadata file of `id` is as before or a
    new one that is `W`. -/
structure Deleting (m : Manager) (id : PyStr) (f₀ : Files Path) (payload pending : Option Nat)
    (W : Bytes → Prop) (f : Files Path) : Prop where
  keeps : f₀.Keeps f
  wf : f.WF
  names : ∀ q, q ≠ m.metadataPath id → q ≠ m.payloadPath id → q ≠ m.deletePending id →
    f.names q = f₀.names q
  payload : f.names (m.payloadPath id) = payload
  pending : f.names (m.deletePending id) = pending
  record : f.names (m.metadataPath id) = f₀.names (m.metadataPath id) ∨
    ∃ i, f.names (m.metadataPath id) = some i ∧ f₀.used ≤ i ∧ (f.nodes i).kind = .regular ∧
      W (f.nodes i).bytes

theorem Deleting.mono (h : Deleting m id f₀ payload pending W f)
    (hW : ∀ data, W data → W' data) : Deleting m id f₀ payload pending W' f :=
  { h with record := h.record.imp_right fun ⟨i, hi, hle, hk, hw⟩ => ⟨i, hi, hle, hk, hW _ hw⟩ }

/-- Only these two names change. -/
theorem Deleting.relabelled {payload' pending' : Option Nat} {n : Path → Option Nat}
    (h : Deleting m id f₀ payload pending W f) (h' : Relabelled n f g) (hwf : g.WF)
    (hn : ∀ q, q ≠ m.payloadPath id → q ≠ m.deletePending id → n q = f.names q)
    (hpayload : n (m.payloadPath id) = payload') (hpending : n (m.deletePending id) = pending') :
    Deleting m id f₀ payload' pending' W g where
  keeps := h.keeps.trans h'.keeps
  wf := hwf
  names q hq hq' hq'' := by
    rw [h'.names, hn q hq' hq'']
    exact h.names q hq hq' hq''
  payload := by rw [h'.names, hpayload]
  pending := by rw [h'.names, hpending]
  record := by
    rw [h'.names, hn _ (m.payloadPath_ne_metadataPath id).symm (m.metadataPath_ne_deletePending id)]
    refine h.record.imp_right ?_
    rintro ⟨i, hi, hle, hk, hw⟩
    have hsame := h'.keeps.nodes i (h.wf _ _ hi)
    exact ⟨i, hi, hle, hsame.kind.trans hk, by rw [hsame.bytes]; exact hw⟩

theorem Deleting.unchanged (h : Deleting m id f₀ payload pending W f) (h' : Unchanged f g) :
    Deleting m id f₀ payload pending W g where
  keeps := h.keeps.trans h'.keeps
  wf := h'.wf h.wf
  names := by
    rw [h'.names]
    exact h.names
  payload := by rw [h'.names, h.payload]
  pending := by rw [h'.names, h.pending]
  record := by
    rw [h'.names]
    refine h.record.imp_right ?_
    rintro ⟨i, hi, hle, hk, hw⟩
    have hsame := h'.keeps.nodes i (h.wf _ _ hi)
    exact ⟨i, hi, hle, hsame.kind.trans hk, by rw [hsame.bytes]; exact hw⟩

/-- The metadata file is a new one. -/
structure Rewritten (m : Manager) (id : PyStr) (f₀ : Files Path) (payload pending : Option Nat)
    (W : Bytes → Prop) (f : Files Path) : Prop where
  deleting : Deleting m id f₀ payload pending W f
  record : ∃ i, f.names (m.metadataPath id) = some i ∧ f₀.used ≤ i ∧ (f.nodes i).kind = .regular ∧
    W (f.nodes i).bytes

theorem Deleting.replaced {data : Bytes} (h : Deleting m id f₀ payload pending W f) (hW : W' data)
    (h' : Replaced (m.metadataPath id) data f g) : Rewritten m id f₀ payload pending W' g := by
  have hrecord : ∃ i, g.names (m.metadataPath id) = some i ∧ f₀.used ≤ i ∧
      (g.nodes i).kind = .regular ∧ W' (g.nodes i).bytes :=
    ⟨f.used, by rw [h'.names, Function.update_self], h.keeps.used, h'.kind,
      by rw [h'.bytes]; exact hW⟩
  refine ⟨⟨h.keeps.trans h'.keeps, h'.wf h.wf, ?_, ?_, ?_, .inr hrecord⟩, hrecord⟩
  · intro q hq hq' hq''
    rw [h'.names, Function.update_of_ne hq]
    exact h.names q hq hq' hq''
  · rw [h'.names, Function.update_of_ne (m.payloadPath_ne_metadataPath id), h.payload]
  · rw [h'.names, Function.update_of_ne (m.metadataPath_ne_deletePending id).symm, h.pending]

/-- The pending file is unlinked. -/
theorem Rewritten.discard (h : Rewritten m id f₀ none pending W f)
    (h' : Relabelled (Function.update f.names (m.deletePending id) none) f g) :
    Rewritten m id f₀ none none W g := by
  refine ⟨h.deleting.relabelled h' (h'.wf (update_wf h.deleting.wf (by simp))) ?_ ?_ ?_, ?_⟩
  · intro q _ hq
    rw [Function.update_of_ne hq]
  · rw [Function.update_of_ne (m.payloadPath_ne_deletePending id), h.deleting.payload]
  · rw [Function.update_self]
  · obtain ⟨i, hi, hle, hreg, hw⟩ := h.record
    have hsame := h'.keeps.nodes i (h.deleting.wf _ _ hi)
    refine ⟨i, ?_, hle, hsame.kind.trans hreg, by rw [hsame.bytes]; exact hw⟩
    rw [h'.names, Function.update_of_ne (m.metadataPath_ne_deletePending id), hi]

theorem Deleting.writable {q : Json F} {j : Nat} {r : QuarantineRecord F} (hwf : f₀.WF)
    (h : Deleting m id f₀ payload pending W f) (hl : Loaded m f₀ q id j r) :
    Writable f (m.metadataPath id) := by
  intro i hi
  refine ⟨h.wf _ _ hi, ?_⟩
  rcases h.record with hrec | ⟨i', hi', -, hk, -⟩
  · rw [hrec, hl.named] at hi
    cases hi
    exact (h.keeps.nodes j (hwf _ _ hl.named)).kind.trans hl.regular
  · rw [hi'] at hi
    cases hi
    exact hk

end States

/-! ## The call -/

section Call

variable [FloatNum F] {uuid : PyStr} {allowed : Call F → Exc → Prop} {b : Faults}
  {m : Manager} {id : PyStr} {f₀ f : Files Path} {k j : Nat} {r r' : QuarantineRecord F} {q : Json F}

/-- The record of an item that has been deleted. -/
abbrev markDeleted (r : QuarantineRecord F) (now : F) (nowUtc : PyStr) : QuarantineRecord F :=
  { r with
    restorationStatus := .str (py "deleted")
    deletedAt := .float now
    deletedAtUtc := .str nowUtc }

/-- This is the record once the item has been deleted. -/
def MarksDeleted (r r' : QuarantineRecord F) : Prop := ∃ now nowUtc, r' = markDeleted r now nowUtc

/-- The `fsync` of the quarantine directory can fail, and not only where directories cannot be
    synced at all. -/
def Unsynced (F : Type) (allowed : Call F → Exc → Prop) (b : Faults) : Prop :=
  b = .once ∧ ∃ e, allowed (.file (.fsyncDir .quarantine)) (.os e) ∧ e ≠ .invalid ∧ e ≠ .readOnly

omit [FloatNum F] in
theorem sameItem_deleted (r : QuarantineRecord F) (now : F) (nowUtc : PyStr) :
    SameItem r (markDeleted r now nowUtc) := by
  refine ⟨fun hw => ?_, rfl, rfl, rfl, rfl⟩
  rw [QuarantineRecord.wf_iff] at hw ⊢
  simp only [QuarantineRecord.toDict, List.forall_mem_cons] at hw ⊢
  tauto

omit [FloatNum F] in
theorem MarksDeleted.same (h : MarksDeleted r r') : SameItem r r' := by
  obtain ⟨now, nowUtc, rfl⟩ := h
  exact sameItem_deleted r now nowUtc

omit [FloatNum F] in
theorem MarksDeleted.status (h : MarksDeleted r r') : r'.restorationStatus = .str (py "deleted") := by
  obtain ⟨now, nowUtc, rfl⟩ := h
  rfl

/-- How the `try` block of `delete_permanently` ends. -/
def DeleteBodyPost (m : Manager) (id : PyStr) (f₀ : Files Path) (k : Nat) (r : QuarantineRecord F)
    (allowed : Call F → Exc → Prop) (b : Faults) :
    Faults → Except Exc (QuarantineRecord F) → Files Path → Prop
  | _, .ok r', f => MarksDeleted r r' ∧ Rewritten m id f₀ none none (Encodes r') f
  | _, .error _, f => ∃ W : Bytes → Prop, (∀ data, W data → ∃ r', MarksDeleted r r' ∧ Encodes r' data) ∧
      (Deleting m id f₀ none (some k) W f ∨ Deleting m id f₀ none none W f ∧ Unsynced F allowed b)

/-- **The `try` block**, from the moment the payload is pending. -/
theorem wp_deleteBody (hwf : f₀.WF) (hl : Loaded m f₀ q id j r)
    (hk : (f₀.nodes k).kind ≠ .directory) (hk₀ : k < f₀.used)
    (h : Deleting m id f₀ none (some k) (fun _ => False) f) :
    wp (machine uuid allowed) (fun _ => True) (deleteBody m r (m.deletePending id)) b
      (DeleteBodyPost m id f₀ k r allowed b) f := by
  have huuid := isUuid_of_validate hl.id_ok
  have hid := (decodeRecord_ok hl.decoded).2.2
  refine wp_bind (wp_ask (c := .time) trivial ?_ (fun _ _ hf => hf.elim))
  rintro x f₁ ⟨rfl, now, -, rfl⟩
  refine ⟨trivial, wp_bind (wp_ask (c := .utcIso now) trivial ?_
    (fun _ _ _ _ => ⟨_, fun _ => False.elim, .inl h⟩))⟩
  rintro x f₁ ⟨rfl, nowUtc, -, rfl⟩
  have hmarks : MarksDeleted r (markDeleted r now nowUtc) := ⟨now, nowUtc, rfl⟩
  have hreplaced : ∀ data, Encodes (markDeleted r now nowUtc) data →
      ∃ r', MarksDeleted r r' ∧ Encodes r' data := fun _ henc => ⟨_, hmarks, henc⟩
  refine ⟨trivial, wp_bind (wp_writeMetadataAtomic hid huuid (h.writable hwf hl)
    (fun _ _ _ _ => trivial) (fun _ _ => trivial) (fun _ _ _ _ => trivial) ?_ ?_)⟩
  · intro b₁ data f₂ hb₁ henc h₂
    have hnew := h.replaced henc h₂
    have hpending : f₂.names (m.deletePending id) = some k := hnew.deleting.pending
    refine wp_bind (wp_unlink hpending ?_ trivial ?_ (fun _ _ => ⟨_, hreplaced, .inl hnew.deleting⟩))
    · rw [(hnew.deleting.keeps.nodes k hk₀).kind]
      exact hk
    · intro f₃ h₃
      have hgone := hnew.discard h₃
      refine ⟨trivial, wp_bind (wp_fsyncDirectory trivial ?_ ?_)⟩
      · intro b₂ _
        exact ⟨trivial, hmarks, hgone⟩
      · intro hb e hallowed hne₁ hne₂
        exact ⟨_, hreplaced, .inr ⟨hgone.deleting, hb₁.once hb, e, hallowed, hne₁, hne₂⟩⟩
  · rintro b' e f' - (hu | ⟨data, henc, h'⟩)
    · exact ⟨_, fun _ => False.elim, .inl (h.unchanged hu)⟩
    · exact ⟨_, hreplaced, .inl (h.replaced henc h').deleting⟩

/-- The record is as before, and nothing is pending. -/
abbrev Undeleted (m : Manager) (id : PyStr) (f₀ : Files Path) (payload : Option Nat)
    (r : QuarantineRecord F) (f : Files Path) : Prop :=
  Deleting m id f₀ payload none (fun data => Recalls m id r data ∨ Irrevocable (MarksDeleted r) r) f

/-- Moving the pending file back. -/
theorem wp_movePendingBack {W : Bytes → Prop} {pending : Option Nat}
    {Q : Faults → Except Exc Unit → Files Path → Prop}
    (h : Deleting m id f₀ none pending W f)
    (hk : ∀ k, pending = some k → k < f₀.used ∧ (f₀.nodes k).kind ≠ .directory)
    (hok : ∀ f', Deleting m id f₀ pending none W f' → Q .never (.ok ()) f') :
    wp (machine uuid allowed) (fun _ => True)
      (movePendingBack (m.payloadPath id) (m.deletePending id)) .never Q f := by
  have hne := m.payloadPath_ne_deletePending id
  refine wp_bind (wp_lexists trivial ?_ (fun hb => nomatch hb))
  cases hp : pending with
  | none =>
      subst hp
      rw [h.pending]
      exact ⟨trivial, hok f h⟩
  | some k =>
      subst hp
      rw [h.pending]
      refine wp_bind (wp_lexists trivial ?_ (fun hb => nomatch hb))
      rw [h.payload]
      obtain ⟨hk₀, hkind⟩ := hk k rfl
      refine wp_moveNoreplace h.pending h.payload ?_ (fun _ _ => trivial) ?_ (fun hb => nomatch hb)
      · rw [(h.keeps.nodes k hk₀).kind]
        exact hkind
      · intro b' f' hb' hr
        obtain rfl := hb'.of_never
        refine hok f' (h.relabelled hr (hr.wf (update_wf (update_wf h.wf (by simp)) ?_)) ?_ ?_ ?_)
        · rintro i hi
          cases hi
          exact h.wf _ _ h.pending
        · intro q hq hq'
          rw [movedNames, Function.update_of_ne hq, Function.update_of_ne hq']
        · rw [movedNames, Function.update_self]
        · rw [movedNames, Function.update_of_ne hne.symm, Function.update_self]

/-- The handler: it raises, with the old record in place and the payload where it can be. -/
theorem wp_recoverDelete {e : Exc} {W : Bytes → Prop} {pending : Option Nat} {b : Faults}
    {Q : Faults → Except Exc (QuarantineRecord F) → Files Path → Prop} (hwf : f₀.WF)
    (hl : Loaded m f₀ q id j r)
    (h : Deleting m id f₀ none pending W f)
    (hW : ∀ data, W data → ∃ r', MarksDeleted r r' ∧ Encodes r' data)
    (hk : ∀ k, pending = some k → k < f₀.used ∧ (f₀.nodes k).kind ≠ .directory)
    (hraise : ∀ b e f', Undeleted m id f₀ pending r f' → Q b (.error e) f') :
    wp (machine uuid allowed) (fun _ => True)
      (recoverDelete m r (m.payloadPath id) (m.deletePending id) e) b Q f := by
  have hspec := decodeRecord_ok hl.decoded
  have huuid := isUuid_of_validate hl.id_ok
  refine wp_bind (wp_orElse (wp_bind (wp_movePendingBack h hk ?_)))
  intro f₁ h₁
  refine wp_writeMetadataAtomic hspec.2.2 huuid (h₁.writable hwf hl) (fun _ _ _ _ => trivial)
    (fun _ _ => trivial) (fun _ _ _ _ => trivial) ?_ ?_
  · intro b' data f₂ _ henc h₂
    have hrecalls : Recalls m id r data ∨ Irrevocable (MarksDeleted r) r :=
      .inl (henc.recalls hspec.1 hspec.2.2 huuid rfl)
    have hback : Undeleted m id f₀ pending r f₂ := (h₁.replaced hrecalls h₂).deleting
    cases e <;> exact ⟨trivial, hraise _ _ _ hback⟩
  · rintro b' e' f₂ (hb | hun) hwhy
    · cases hb
    · have hu : Unchanged f₁ f₂ := by
        refine hwhy.resolve_right ?_
        rintro ⟨data, henc, -⟩
        exact hun data henc
      refine ⟨trivial, hraise _ _ _ ((h₁.mono fun data hw => .inr ⟨hun, ?_⟩).unchanged hu)⟩
      obtain ⟨r', hmarks, henc⟩ := hW data hw
      exact ⟨r', data, hmarks, henc⟩

/-- How `delete_permanently` ends. -/
def DeletePost (m : Manager) (q : Json F) (f₀ : Files Path) (allowed : Call F → Exc → Prop)
    (b : Faults) : Except Exc (Option (QuarantineRecord F)) → Files Path → Prop
  | .ok none, f => f = f₀ ∧ ∃ id j r, Loaded m f₀ q id j r ∧ hasStatus r (py "deleted") = true
  | .ok (some r'), f => ∃ id j r, Loaded m f₀ q id j r ∧ hasStatus r (py "deleted") = false ∧
      (∃ k, f₀.names (m.payloadPath id) = some k) ∧ f₀.names (m.deletePending id) = none ∧
      MarksDeleted r r' ∧ Rewritten m id f₀ none none (Encodes r') f
  | .error _, f => Unchanged f₀ f ∨ ∃ id j k r, Loaded m f₀ q id j r ∧
      hasStatus r (py "deleted") = false ∧ f₀.names (m.payloadPath id) = some k ∧
      f₀.names (m.deletePending id) = none ∧
      (Undeleted m id f₀ (some k) r f ∨ Undeleted m id f₀ none r f ∧ Unsynced F allowed b)

/-- **Deleting.** -/
theorem wp_deletePermanently (hwf : f₀.WF)
    (hfile : ∀ id j (r : QuarantineRecord F) k, Loaded m f₀ q id j r →
      hasStatus r (py "deleted") = false → f₀.names (m.payloadPath id) = some k →
      f₀.names (m.deletePending id) = none → (f₀.nodes k).kind ≠ .directory) :
    wp (machine uuid allowed) (fun _ => True) (deletePermanently m q) b
      (fun _ x f => DeletePost m q f₀ allowed b x f) f₀ := by
  refine wp_bind (wp_loadMetadata trivial ?_ (fun _ _ => .inl (.refl f₀)))
  intro r id j hl
  by_cases hdel : hasStatus r (py "deleted") = true
  · show wp _ _ (if _ then _ else _) _ _ _
    rw [if_pos hdel]
    exact ⟨trivial, rfl, id, j, r, hl, hdel⟩
  show wp _ _ (if _ then _ else _) _ _ _
  rw [if_neg hdel]
  have hdel' : hasStatus r (py "deleted") = false := by simpa using hdel
  have hid := (decodeRecord_ok hl.decoded).2.2
  have htext : pyStr (.str id : Json F) = id := rfl
  refine wp_bind (wp_lift trivial ?_)
  rw [hid, validateQuarantineId_of_isUuid (isUuid_of_validate hl.id_ok), htext]
  refine wp_bind (wp_lexists trivial ?_ ?_)
  swap
  · intro hb e _
    exact wp_bind (wp_check trivial (fun h => absurd h (by simp)) (fun _ => .inl (.refl f₀)))
  cases hpayload : f₀.names (m.payloadPath id) with
  | none =>
      exact wp_bind (wp_check trivial (fun h => absurd h (by simp)) (fun _ => .inl (.refl f₀)))
  | some k =>
  refine wp_bind (wp_check trivial (fun _ => ?_) (fun h => absurd rfl h))
  cases hpending : f₀.names (m.deletePending id) with
  | some i =>
      exact wp_bind (wp_moveNoreplace_occupied hpayload hpending trivial
        (fun _ _ => .inl (.refl f₀)))
  | none =>
  have hk := hfile id j r k hl hdel' hpayload hpending
  have hk₀ : k < f₀.used := hwf _ _ hpayload
  have hne := m.payloadPath_ne_deletePending id
  refine wp_bind (wp_moveNoreplace hpayload hpending hk (fun _ _ => trivial) ?_ ?_)
  swap
  · intro _ e f' hr
    exact .inl ⟨hr.names, hr.keeps⟩
  intro b₁ f₁ hb₁ hr
  have hmoved : Deleting m id f₀ none (some k) (fun _ => False) f₁ := by
    have hbegin : Deleting m id f₀ (some k) none (fun _ => False) f₀ :=
      ⟨.refl f₀, hwf, fun _ _ _ _ => rfl, hpayload, hpending, .inl rfl⟩
    refine hbegin.relabelled hr (hr.wf (update_wf (update_wf hwf (by simp)) ?_)) ?_ ?_ ?_
    · rintro i hi
      cases hi
      exact hk₀
    · intro q hq hq'
      rw [movedNames, Function.update_of_ne hq', Function.update_of_ne hq]
    · rw [movedNames, Function.update_of_ne hne, Function.update_self]
    · rw [movedNames, Function.update_self]
  refine wp_bind (wp_orElse (wp_mono ?_ (wp_deleteBody hwf hl hk hk₀ hmoved)))
  rintro b₂ (e | r') f₂ h₂
  · obtain ⟨W, hW, h₂ | ⟨h₂, hb, hlost⟩⟩ := h₂
    · refine wp_recoverDelete (b := b₂) hwf hl h₂ hW ?_ ?_
      · rintro k' hk'
        cases hk'
        exact ⟨hk₀, hk⟩
      · intro b e f' h'
        exact .inr ⟨id, j, k, r, hl, hdel', hpayload, hpending, .inl h'⟩
    · refine wp_recoverDelete (b := b₂) hwf hl h₂ hW (fun k' hk' => by cases hk') ?_
      intro b' e f' h'
      exact .inr ⟨id, j, k, r, hl, hdel', hpayload, hpending, .inr ⟨h', hb₁.once hb, hlost⟩⟩
  · exact ⟨trivial, id, j, r, hl, hdel', ⟨k, hpayload⟩, hpending, h₂⟩

end Call

end Elyra.Quarantine
