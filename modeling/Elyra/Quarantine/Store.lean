import Elyra.Quarantine.Delete
import Elyra.Quarantine.Outcome

set_option autoImplicit false

/-! # Runs of the manager's operations

Any operations one after the other, each in all its runs, and changes to payload files between them.
What was quarantined under an id is described by its record from then on (`Recorded`), unless the
metadata file itself is quarantined, and its payload is what was quarantined until it is tampered with
(`Intact`); so a file restored from it is what was quarantined (`restore_exact`). -/

namespace Elyra.Quarantine

open Elyra.Python Elyra.Posix Elyra.Posix.Program

variable {F : Type} {α : Type}

/-! ## The files of an item -/

/-- The names that the store has for the files of an item. -/
def Manager.storeNames (m : Manager) (id : PyStr) : List Path :=
  [m.payloadPath id, m.metadataPath id, m.deletePending id]

/-- The name is one of the store's. -/
def Manager.StoreName (m : Manager) (p : Path) : Prop :=
  ∃ id, isUuid id = true ∧ p ∈ m.storeNames id

section Names

variable {m : Manager} {id id' : PyStr} {p q : Path}

theorem metadataPath_injective (h : m.metadataPath id = m.metadataPath id') : id = id' :=
  List.append_cancel_right (congrArg Path.name h)

theorem payload_mem (m : Manager) (id : PyStr) : m.payloadPath id ∈ m.storeNames id := by
  simp [Manager.storeNames]

theorem metadata_mem (m : Manager) (id : PyStr) : m.metadataPath id ∈ m.storeNames id := by
  simp [Manager.storeNames]

theorem pending_mem (m : Manager) (id : PyStr) : m.deletePending id ∈ m.storeNames id := by
  simp [Manager.storeNames]

theorem storeName_length (huuid : isUuid id = true) (hp : p ∈ m.storeNames id) :
    p.name.length = 36 ∨ p.name.length = 41 ∨ p.name.length = 52 := by
  have hlen := isUuid_length huuid
  simp only [Manager.storeNames, List.mem_cons, List.not_mem_nil, or_false] at hp
  rcases hp with rfl | rfl | rfl
  · exact .inl hlen
  · simp only [Manager.metadataPath, metadataName_length]
    omega
  · simp only [Manager.deletePending, deletePendingName_length]
    omega

/-- No temporary file has such a name. -/
theorem storeName_not_temporary (huuid : isUuid id = true) (huuid' : isUuid id' = true)
    (hp : p ∈ m.storeNames id) : ¬ IsTemporary m id' p := by
  rintro ⟨token, htoken, rfl⟩
  have hlen := isUuid_length huuid'
  have := storeName_length huuid hp
  simp only [Manager.metadataTemporary, temporaryName_length] at this
  omega

/-- Two items share no name. -/
theorem storeNames_disjoint (huuid : isUuid id = true) (huuid' : isUuid id' = true) (hne : id ≠ id')
    (hp : p ∈ m.storeNames id) (hq : q ∈ m.storeNames id') : p ≠ q := by
  rintro rfl
  have hlen := isUuid_length huuid
  have hlen' := isUuid_length huuid'
  simp only [Manager.storeNames, List.mem_cons, List.not_mem_nil, or_false] at hp hq
  rcases hp with rfl | rfl | rfl
  · rcases hq with hq | hq | hq
    · exact hne (congrArg Path.name hq)
    · have := congrArg (fun p => p.name.length) hq
      simp only [Manager.payloadPath, Manager.metadataPath, metadataName_length] at this
      omega
    · have := congrArg (fun p => p.name.length) hq
      simp only [Manager.payloadPath, Manager.deletePending, deletePendingName_length] at this
      omega
  · rcases hq with hq | hq | hq
    · have := congrArg (fun p => p.name.length) hq
      simp only [Manager.payloadPath, Manager.metadataPath, metadataName_length] at this
      omega
    · exact hne (metadataPath_injective hq)
    · have := congrArg (fun p => p.name.length) hq
      simp only [Manager.metadataPath, Manager.deletePending, metadataName_length,
        deletePendingName_length] at this
      omega
  · rcases hq with hq | hq | hq
    · have := congrArg (fun p => p.name.length) hq
      simp only [Manager.payloadPath, Manager.deletePending, deletePendingName_length] at this
      omega
    · have := congrArg (fun p => p.name.length) hq
      simp only [Manager.metadataPath, Manager.deletePending, metadataName_length,
        deletePendingName_length] at this
      omega
    · exact hne (by
        have := congrArg Path.name hq
        simpa [Manager.deletePending, deletePendingName] using this)

/-- No payload has the name of a record. -/
theorem payloadPath_ne_record (huuid : isUuid id = true) (huuid' : isUuid id' = true) :
    m.payloadPath id ≠ m.metadataPath id' := by
  refine Path.ne_of_length ?_
  have hlen := isUuid_length huuid
  have hlen' := isUuid_length huuid'
  simp only [Manager.payloadPath, Manager.metadataPath, metadataName_length]
  omega

end Names

variable [FloatNum F]

/-! ## Records of quarantined files -/

/-- What was quarantined under an id. -/
structure Item where
  id : PyStr
  original : Bytes
  mode : Nat

/-- The record describes the item. -/
structure Item.IsIn (item : Item) (r : QuarantineRecord F) : Prop where
  sha256 : r.sha256 = .str (sha256 item.original)
  sizeBytes : r.sizeBytes = .int item.original.length
  originalMode : r.originalMode = .int item.mode

/-- The metadata file of the item loads as a record that describes it and can be written. -/
def Recorded (F : Type) [FloatNum F] (m : Manager) (item : Item) (f : Files Path) : Prop :=
  ∃ (j : Nat) (r : QuarantineRecord F), f.names (m.metadataPath item.id) = some j ∧
    decodeRecord m.str item.id (f.nodes j).bytes = .ok r ∧ item.IsIn r ∧ ∃ data, Encodes r data

section Records

variable {m : Manager} {item : Item} {f f' : Files Path} {r r' : QuarantineRecord F} {j : Nat}

omit [FloatNum F] in
theorem SameItem.isIn (h : SameItem r r') (hi : item.IsIn r) : item.IsIn r' :=
  ⟨h.sha256.trans hi.sha256, h.sizeBytes.trans hi.sizeBytes, h.originalMode.trans hi.originalMode⟩

omit [FloatNum F] in
theorem canon_congr (h : (Json.obj r'.toDict).sortKeys = (Json.obj r.toDict).sortKeys) :
    r'.canon = r.canon := by
  simp only [Json.sortKeys, Json.obj.injEq] at h
  have h₁ := QuarantineRecord.ofData_sorted r'
  rw [h, QuarantineRecord.ofData_sorted r] at h₁
  exact (Option.some.inj h₁).symm

omit [FloatNum F] in
/-- Records that are equal but for the order of dictionaries describe the same item. -/
theorem isIn_of_canon (h : r'.canon = r.canon) (hi : item.IsIn r) : item.IsIn r' := by
  have hstr : ∀ {v : Json F} {s : PyStr}, v.sortKeys = .str s → v = .str s := by
    intro v s hv
    cases v <;> first | exact hv | exact absurd hv (by simp [Json.sortKeys])
  have hint : ∀ {v : Json F} {n : Int}, v.sortKeys = .int n → v = .int n := by
    intro v n hv
    cases v <;> first | exact hv | exact absurd hv (by simp [Json.sortKeys])
  refine ⟨hstr ?_, hint ?_, hint ?_⟩
  · exact (congrArg QuarantineRecord.sha256 h).trans (congrArg Json.sortKeys hi.sha256)
  · exact (congrArg QuarantineRecord.sizeBytes h).trans (congrArg Json.sortKeys hi.sizeBytes)
  · exact (congrArg QuarantineRecord.originalMode h).trans (congrArg Json.sortKeys hi.originalMode)

theorem encodes_congr {data : Bytes} (hv : validateRecord r' = .ok ())
    (h : (Json.obj r'.toDict).sortKeys = (Json.obj r.toDict).sortKeys) (henc : Encodes r data) :
    Encodes r' data := by
  refine ⟨hv, ?_⟩
  have henc' := henc.2
  unfold encodeRecord at henc' ⊢
  rwa [dumpsSorted_congr h]

/-- The file that holds the record is the same. -/
theorem Recorded.same (h : Recorded F m item f)
    (hname : f'.names (m.metadataPath item.id) = f.names (m.metadataPath item.id))
    (hnode : ∀ i, f.names (m.metadataPath item.id) = some i → (f.nodes i).Same (f'.nodes i)) :
    Recorded F m item f' := by
  obtain ⟨j, r, hj, hdec, hrest⟩ := h
  exact ⟨j, r, hname.trans hj, by rw [(hnode j hj).bytes]; exact hdec, hrest⟩

/-- A record of the same item has been written. -/
theorem recorded_encodes (hname : f.names (m.metadataPath item.id) = some j)
    (hi : item.IsIn r) (hwf : r.WF) (hid : r.quarantineId = .str item.id)
    (huuid : isUuid item.id = true) (henc : Encodes r (f.nodes j).bytes) :
    Recorded F m item f := by
  have hstored : Stored item.id r (f.nodes j).bytes := ⟨hwf, henc.1, huuid, hid, henc.2⟩
  exact ⟨j, r.canon, hname, hstored.decode m.str, isIn_of_canon
    (canon_congr r.sortKeys_canon) hi, _, hstored.canon.valid, hstored.canon.encoded⟩

/-- The old record is there again. -/
theorem recorded_recalls (hname : f.names (m.metadataPath item.id) = some j)
    (hi : item.IsIn r) (hwritable : ∃ data, Encodes r data)
    (h : Recalls m item.id r (f.nodes j).bytes ∨ Unwritable r) : Recorded F m item f := by
  obtain ⟨data, henc⟩ := hwritable
  obtain ⟨r', hdec, hsame⟩ := h.resolve_right fun hun => hun data henc
  exact ⟨j, r', hname, hdec, isIn_of_canon (canon_congr hsame) hi, data,
    encodes_congr (decodeRecord_ok hdec).2.1 hsame henc⟩

end Records

/-! ## Operations -/

/-- The files, what has been quarantined, and the ids whose payload has been tampered with. -/
structure Vault where
  files : Files Path
  items : List Item
  tampered : Set PyStr

/-- No item's metadata file is at the path. -/
def Spares (m : Manager) (items : List Item) (path : PyStr) : Prop :=
  ∀ item ∈ items, m.locate (m.absolute path) ≠ some (m.metadataPath item.id)

/-- Others write into the payload of the id, or put files of their own there. -/
def Storm.Tampers (o : Storm) (m : Manager) (f : Files Path) (id : PyStr) : Prop :=
  o.destination = some (m.payloadPath id) ∨
    ∃ k, f.names (m.payloadPath id) = some k ∧ o.payload = some k

/-- The call restores an item to the path. -/
def RestoresInto (m : Manager) (f : Files Path) (q : Json F) (destination : Option PyStr) (p : Path) :
    Prop :=
  ∃ id j r, Loaded m f q id j r ∧ restoreTarget m destination r.originalPath = some p

/-- An operation of the manager, in any of its runs, or a change to a payload file. A payload has been
    tampered with as well where a call is given it as the file to quarantine, or to restore to. -/
inductive Acts (F : Type) [FloatNum F] (m : Manager) : Vault → Vault → Prop
  | quarantined {s args id b source i r f} (hfresh : Fresh s.files id)
      (hspares : Spares m s.items args.path)
      (hloc : m.locate (m.absolute args.path) = some source) (hnamed : s.files.names source = some i)
      (hrun : Steps (machine (F := F) id fun _ _ => True) .once (quarantineFile m args) s.files b
        (ofResult (.ok r)) f) :
      Acts F m s ⟨f, ⟨id, (s.files.nodes i).bytes, (s.files.nodes i).mode⟩ :: s.items,
        {id' | id' ≠ id ∧ (id' ∈ s.tampered ∨ m.payloadPath id' = source)}⟩
  | refused {s args id b e f} (hfresh : Fresh s.files id)
      (hrun : Steps (machine (F := F) id fun _ _ => True) .once (quarantineFile m args) s.files b
        (ofResult (.error e)) f) :
      Acts F m s ⟨f, s.items, s.tampered⟩
  | restored {s o uuid q destination x f} (ho : Storm.Respects o m s.files)
      (hrun : Storms (stormy (F := F) o uuid) (machine uuid fun _ _ => True) Weather.files
        (restoreFile m q destination) ⟨s.files, false⟩ x f) :
      Acts F m s ⟨f, s.items, {id | id ∈ s.tampered ∨ o.Tampers m s.files id ∨
        RestoresInto m s.files q destination (m.payloadPath id)}⟩
  | deleted {s uuid q b x f}
      (hfile : ∀ id k, s.files.names (m.payloadPath id) = some k →
        (s.files.nodes k).kind ≠ .directory)
      (hrun : Steps (machine (F := F) uuid fun _ _ => True) .once (deletePermanently m q) s.files b
        (ofResult x) f) :
      Acts F m s ⟨f, s.items, s.tampered⟩
  | tampered {s id k node} (hpayload : s.files.names (m.payloadPath id) = some k)
      (hrecords : ∀ id', s.files.names (m.metadataPath id') ≠ some k) :
      Acts F m s ⟨s.files.setNode k node, s.items,
        {id' | id' ∈ s.tampered ∨ s.files.names (m.payloadPath id') = some k}⟩

/-- The payload, where it is there, is what was quarantined. -/
def Intact (m : Manager) (item : Item) (f : Files Path) : Prop :=
  ∀ k, f.names (m.payloadPath item.id) = some k → (f.nodes k).bytes = item.original

/-- Every name leads to a file, every item is recorded, and its payload is intact until it is tampered
    with. -/
structure Vault.Sound (F : Type) [FloatNum F] (m : Manager) (s : Vault) : Prop where
  wf : s.files.WF
  uuid : ∀ item ∈ s.items, isUuid item.id = true
  recorded : ∀ item ∈ s.items, Recorded F m item s.files
  intact : ∀ item ∈ s.items, item.id ∉ s.tampered → Intact m item s.files

section Runs

variable {m : Manager} {s s' : Vault}

/-- Where nothing is at the path, nothing happens. -/
theorem wp_quarantineFile_missing {uuid : PyStr} {allowed : Call F → Exc → Prop} {b : Faults}
    {f : Files Path} {args : QuarantineArgs F}
    (h : ∀ source, m.locate (m.absolute args.path) = some source → f.names source = none) :
    wp (machine uuid allowed) (fun _ => True) (quarantineFile m args) b
      (fun _ x f' => f' = f ∧ ∃ e, x = .error e) f := by
  refine wp_bind ?_
  unfold canonicalSourcePath
  cases hloc : m.locate (m.absolute args.path) with
  | none => simp only [hloc]; exact ⟨trivial, rfl, _, rfl⟩
  | some source =>
      simp only [hloc]
      refine wp_bind (wp_lexists trivial ?_ ?_)
      · rw [h source hloc]
        exact wp_bind (wp_check trivial (fun h => absurd h (by simp)) (fun _ => ⟨rfl, _, rfl⟩))
      · intro _ e _
        exact wp_bind (wp_check trivial (fun h => absurd h (by simp)) (fun _ => ⟨rfl, _, rfl⟩))

theorem Recorded.length {item : Item} {f : Files Path} (h : Recorded F m item f) :
    item.id.length = 36 := by
  obtain ⟨j, r, -, hdec, -⟩ := h
  obtain ⟨-, hvalid, hid⟩ := decodeRecord_ok hdec
  obtain ⟨-, ⟨s, hs⟩, -⟩ := validateRecord_ok_iff.1 hvalid
  rw [hid] at hs
  simp only [validateQuarantineId] at hs
  split at hs
  · next huuid =>
    have hlen := isUuid_length huuid
    rwa [lower, List.length_map] at hlen
  · split at hs <;> exact absurd hs (by simp)

/-- What an operation on `id` leaves of the records. -/
theorem Recorded.frame {item : Item} {id : PyStr} {j : Nat} {f₀ f : Files Path} {q : Json F}
    {r : QuarantineRecord F} {W : Bytes → Prop} (hrec : Recorded F m item f₀)
    (hl : Loaded m f₀ q id j r)
    (hnode : ∀ i, f₀.names (m.metadataPath item.id) = some i → (f₀.nodes i).Same (f.nodes i))
    (hother : m.metadataPath item.id ≠ m.metadataPath id →
      f.names (m.metadataPath item.id) = f₀.names (m.metadataPath item.id))
    (hrecord : f.names (m.metadataPath id) = f₀.names (m.metadataPath id) ∨
      ∃ i, f.names (m.metadataPath id) = some i ∧ W (f.nodes i).bytes)
    (hW : ∀ i, item.id = id → item.IsIn r → (∃ data, Encodes r data) →
      f.names (m.metadataPath item.id) = some i → W (f.nodes i).bytes → Recorded F m item f) :
    Recorded F m item f := by
  by_cases hid : item.id = id
  · obtain ⟨j', r', hj', hdec, hin, hwritable⟩ := hrec
    have hr : r' = r := by
      have hsame := hl.decoded
      rw [hid, hl.named] at hj'
      cases hj'
      rw [hid, hsame] at hdec
      exact (Except.ok.inj hdec).symm
    subst hr
    rcases hrecord with hname | ⟨i, hi, hw⟩
    · rw [← hid] at hname
      exact ⟨j', r', hname.trans hj', by rw [(hnode j' hj').bytes]; exact hdec, hin, hwritable⟩
    · rw [← hid] at hi
      exact hW i hid hin hwritable hi hw
  · exact hrec.same (hother fun he => hid (metadataPath_injective he)) hnode

/-- What a restore has to do with the items' files, but for its target. -/
theorem Aftermath.kept {q : Json F} {id : PyStr} {j : Nat} {target : Path} {f₀ f : Files Path}
    {r : QuarantineRecord F} {W : Bytes → Prop} {o : Storm} (h : Aftermath o m id target f₀ W f)
    (hl : Loaded m f₀ q id j r) {id' : PyStr} {p : Path} (huuid' : isUuid id' = true)
    (hp : p ∈ m.storeNames id') (hd : o.destination ≠ some p) (hpt : p ≠ target)
    (hne : p ≠ m.metadataPath id) : f.names p = f₀.names p := by
  refine (h.names p hpt hne hd).resolve_right fun hlost => ?_
  exact storeName_not_temporary huuid' (isUuid_of_validate hl.id_ok) hp hlost.2

theorem Aftermath.recorded {o : Storm} {item : Item} {id : PyStr} {j : Nat} {target : Path}
    {f₀ f : Files Path} {q : Json F} {r : QuarantineRecord F} {W : Bytes → Prop}
    (h : Aftermath o m id target f₀ W f) (ho : o.Respects m f₀) (hwf : f₀.WF)
    (hl : Loaded m f₀ q id j r) (hrec : Recorded F m item f₀)
    (hW : ∀ i, item.id = id → item.IsIn r → (∃ data, Encodes r data) →
      f.names (m.metadataPath item.id) = some i → W (f.nodes i).bytes → Recorded F m item f) :
    Recorded F m item f := by
  have hj' := hrec
  obtain ⟨j', -, hj', -⟩ := hj'
  refine hrec.frame hl (fun i hi => h.nodes i (hwf _ _ hi) (ho.records _ _ hi)) ?_
    (h.record.imp_right fun ⟨i, hi, _, _, hw⟩ => ⟨i, hi, hw⟩) hW
  intro hne
  have htarget : m.metadataPath item.id ≠ target := by
    rintro rfl
    have := h.free (ho.destination _)
    rw [hj'] at this
    exact absurd this (by simp)
  refine (h.names _ htarget hne (ho.destination _)).resolve_right ?_
  rintro ⟨hnone, -⟩
  rw [hj'] at hnone
  exact absurd hnone (by simp)

theorem Deleting.recorded {item : Item} {id : PyStr} {j : Nat} {payload pending : Option Nat}
    {f₀ f : Files Path} {q : Json F} {r : QuarantineRecord F} {W : Bytes → Prop}
    (h : Deleting m id f₀ payload pending W f) (hwf : f₀.WF) (hl : Loaded m f₀ q id j r)
    (hrec : Recorded F m item f₀)
    (hW : ∀ i, item.id = id → item.IsIn r → (∃ data, Encodes r data) →
      f.names (m.metadataPath item.id) = some i → W (f.nodes i).bytes → Recorded F m item f) :
    Recorded F m item f := by
  have hlen := hrec.length
  have hlen' := isUuid_length (isUuid_of_validate hl.id_ok)
  refine hrec.frame hl (fun i hi => h.keeps.nodes i (hwf _ _ hi)) ?_
    (h.record.imp_right fun ⟨i, hi, _, _, hw⟩ => ⟨i, hi, hw⟩) hW
  intro hne
  refine h.names _ hne (Path.ne_of_length ?_) (Path.ne_of_length ?_)
  · simp only [Manager.metadataPath, Manager.payloadPath, metadataName_length]
    omega
  · simp only [Manager.metadataPath, Manager.deletePending, metadataName_length,
      deletePendingName_length]
    omega

/-! ### Payloads -/

theorem Intact.frame {item : Item} {f₀ f : Files Path} (h : Intact m item f₀)
    (hname : ∀ k, f.names (m.payloadPath item.id) = some k → f₀.names (m.payloadPath item.id) = some k)
    (hnode : ∀ k, f₀.names (m.payloadPath item.id) = some k → (f₀.nodes k).Same (f.nodes k)) :
    Intact m item f := by
  intro k hk
  exact (hnode k (hname k hk)).bytes.trans (h k (hname k hk))

theorem Unchanged.intact {item : Item} {f₀ f : Files Path} (h : Unchanged f₀ f) (hwf : f₀.WF)
    (hi : Intact m item f₀) : Intact m item f :=
  hi.frame (fun _ hk => h.names ▸ hk) fun k hk => h.keeps.nodes k (hwf _ _ hk)

theorem Intrusion.intact {item : Item} {o : Storm} {f₀ f : Files Path} (h : Intrusion o f₀ f)
    (huntouched : ¬ o.Tampers m f₀ item.id) (hi : Intact m item f₀) : Intact m item f := by
  refine hi.frame (fun _ hk => ?_) fun k hk => h.nodes k fun hp => huntouched (.inr ⟨k, hk, hp⟩)
  rwa [h.names _ fun hd => huntouched (.inl hd)] at hk

theorem Aftermath.intact {item : Item} {o : Storm} {id : PyStr} {j : Nat} {target : Path}
    {f₀ f : Files Path} {q : Json F} {r : QuarantineRecord F} {W : Bytes → Prop}
    (h : Aftermath o m id target f₀ W f) (hwf : f₀.WF) (hl : Loaded m f₀ q id j r)
    (huuid : isUuid item.id = true) (huntouched : ¬ o.Tampers m f₀ item.id)
    (htarget : target ≠ m.payloadPath item.id) (hi : Intact m item f₀) : Intact m item f := by
  refine hi.frame (fun _ hk => ?_) fun k hk =>
    h.nodes k (hwf _ _ hk) fun hp => huntouched (.inr ⟨k, hk, hp⟩)
  rwa [h.kept hl huuid (payload_mem m item.id) (fun hd => huntouched (.inl hd)) htarget.symm
    (payloadPath_ne_record huuid (isUuid_of_validate hl.id_ok))] at hk

theorem Deleting.intact {item : Item} {id : PyStr} {payload pending : Option Nat} {f₀ f : Files Path}
    {W : Bytes → Prop} (h : Deleting m id f₀ payload pending W f) (hwf : f₀.WF)
    (huuid : isUuid item.id = true) (huuid' : isUuid id = true)
    (hback : ∀ k, payload = some k → f₀.names (m.payloadPath id) = some k) (hi : Intact m item f₀) :
    Intact m item f := by
  refine hi.frame (fun k hk => ?_) fun k hk => h.keeps.nodes k (hwf _ _ hk)
  by_cases hid : item.id = id
  · rw [hid] at hk ⊢
    exact hback k (h.payload.symm.trans hk)
  · rwa [h.names _ (storeNames_disjoint huuid huuid' hid (payload_mem m item.id) (metadata_mem m id))
      (storeNames_disjoint huuid huuid' hid (payload_mem m item.id) (payload_mem m id))
      (storeNames_disjoint huuid huuid' hid (payload_mem m item.id) (pending_mem m id))] at hk

/-! ### Steps -/

/-- A file has been quarantined. -/
theorem Quarantined.sound {id : PyStr} {source : Path} {i : Nat} {r : QuarantineRecord F} {f : Files Path}
    (hq : Quarantined m source i id s.files r f) (hscene : Scene m source i id s.files)
    (hsource : ∀ item ∈ s.items, m.metadataPath item.id ≠ source) (hs : s.Sound F m) :
    Vault.Sound F m ⟨f, ⟨id, (s.files.nodes i).bytes, (s.files.nodes i).mode⟩ :: s.items,
      {id' | id' ≠ id ∧ (id' ∈ s.tampered ∨ m.payloadPath id' = source)}⟩ := by
  obtain ⟨j, data, hj, rfl, hstored, -⟩ := hq.metadata
  have hkeeps : ∀ {p k}, s.files.names p = some k → (s.files.nodes k).Same (f.nodes k) :=
    fun hk => hq.keeps.nodes _ (hs.wf _ _ hk)
  -- the id is new
  have hother (item : Item) (hold : item ∈ s.items) : item.id ≠ id := by
    rintro rfl
    obtain ⟨j', -, hj', -⟩ := hs.recorded item hold
    have huses : UsesId item.id (m.metadataPath item.id).name := .inr (.inr (.inl rfl))
    cases (hscene.free huses).symm.trans hj'
  have hapart (item : Item) (hold : item ∈ s.items) {p : Path} (hp : p ∈ m.storeNames item.id)
      (hne : p ≠ source) : f.names p = s.files.names p :=
    hq.others p hne
      (storeNames_disjoint (hs.uuid item hold) hstored.uuid (hother item hold) hp (payload_mem m id))
      (storeNames_disjoint (hs.uuid item hold) hstored.uuid (hother item hold) hp (metadata_mem m id))
  refine ⟨hq.wf, ?_, ?_, ?_⟩
  · intro item hitem
    rcases List.mem_cons.1 hitem with rfl | hold
    · exact hstored.uuid
    · exact hs.uuid item hold
  · intro item hitem
    rcases List.mem_cons.1 hitem with rfl | hold
    · exact recorded_encodes hj ⟨hq.record.hash, hq.record.size, hq.mode⟩ hstored.wf
        hstored.id_eq hstored.uuid ⟨hstored.valid, hstored.encoded⟩
    · exact (hs.recorded item hold).same
        (hapart item hold (metadata_mem m item.id) (hsource item hold)) fun _ hi => hkeeps hi
  · intro item hitem huntouched
    rcases List.mem_cons.1 hitem with rfl | hold
    · intro k hk
      obtain ⟨k', hk', hbytes, -⟩ := hq.payload
      obtain rfl : k' = k := Option.some.inj (hk'.symm.trans hk)
      exact hbytes
    · have hid := hother item hold
      refine (hs.intact item hold fun ht => huntouched ⟨hid, .inl ht⟩).frame (fun k hk => ?_)
        fun _ hk => hkeeps hk
      rwa [hapart item hold (payload_mem m item.id) fun he => huntouched ⟨hid, .inr he⟩] at hk

theorem Unchanged.sound {f : Files Path} (h : Unchanged s.files f) (hs : s.Sound F m) :
    Vault.Sound F m ⟨f, s.items, s.tampered⟩ where
  wf := h.wf hs.wf
  uuid := hs.uuid
  recorded item hitem := (hs.recorded item hitem).same (by rw [h.names])
    fun i hi => h.keeps.nodes i (hs.wf _ _ hi)
  intact item hitem huntouched := h.intact hs.wf (hs.intact item hitem huntouched)

/-- A file has been restored, or the call has been undone. -/
theorem RestorePost.sound {o : Storm} {q : Json F} {destination : Option PyStr}
    {x : Except Exc (QuarantineRecord F)} {f : Files Path} (ho : o.Respects m s.files)
    (h : RestorePost o m q destination s.files x f) (hs : s.Sound F m) :
    Vault.Sound F m ⟨f, s.items, {id | id ∈ s.tampered ∨ o.Tampers m s.files id ∨
      RestoresInto m s.files q destination (m.payloadPath id)}⟩ := by
  -- what the call has done, in both ways of ending
  have hafter {id : PyStr} {j : Nat} {r : QuarantineRecord F} {target : Path} {W : Bytes → Prop}
      (hl : Loaded m s.files q id j r) (htarget : restoreTarget m destination r.originalPath = some target)
      (ha : Aftermath o m id target s.files W f)
      (hW : ∀ item i, item.id = id → item.IsIn r → (∃ data, Encodes r data) →
        f.names (m.metadataPath item.id) = some i → W (f.nodes i).bytes → Recorded F m item f) :
      Vault.Sound F m ⟨f, s.items, {id | id ∈ s.tampered ∨ o.Tampers m s.files id ∨
        RestoresInto m s.files q destination (m.payloadPath id)}⟩ := by
    refine ⟨ha.wf, hs.uuid, fun item hitem => ?_, fun item hitem huntouched => ?_⟩
    · exact ha.recorded ho hs.wf hl (hs.recorded item hitem) fun i => hW item i
    · refine ha.intact hs.wf hl (hs.uuid item hitem) (fun ht => huntouched (.inr (.inl ht))) ?_
        (hs.intact item hitem fun ht => huntouched (.inl ht))
      rintro rfl
      exact huntouched (.inr (.inr ⟨id, j, r, hl, htarget⟩))
  cases x with
  | ok r' =>
      obtain ⟨id, j, r, target, n, hl, -, htarget, hres⟩ := h
      obtain ⟨hrwf, -, hrid⟩ := decodeRecord_ok hl.decoded
      refine hafter hl htarget hres.renewed.filling.toAftermath ?_
      rintro item i rfl hin - hi henc
      exact recorded_encodes hi (hres.same.isIn hin) (hres.same.wf hrwf)
        (hres.same.quarantineId.trans hrid) (isUuid_of_validate hl.id_ok) henc
  | error e =>
      rcases h with hint | ⟨id, j, r, target, hl, -, htarget, -, hun⟩
      · refine ⟨hint.wf ho hs.wf, hs.uuid, fun item hitem => ?_, fun item hitem huntouched => ?_⟩
        · exact (hs.recorded item hitem).same (hint.names _ (ho.destination _))
            fun i hi => hint.nodes i (ho.records _ _ hi)
        · exact hint.intact (fun ht => huntouched (.inr (.inl ht)))
            (hs.intact item hitem fun ht => huntouched (.inl ht))
      · refine hafter hl htarget hun.aftermath ?_
        rintro item i rfl hin hwritable hi hw
        exact recorded_recalls hi hin hwritable (hw.imp_right And.left)

/-- An item has been deleted, or its payload been moved back. -/
theorem DeletePost.sound {q : Json F} {allowed : Call F → Exc → Prop} {b : Faults}
    {x : Except Exc (Option (QuarantineRecord F))} {f : Files Path}
    (h : DeletePost m q s.files allowed b x f) (hs : s.Sound F m) :
    Vault.Sound F m ⟨f, s.items, s.tampered⟩ := by
  rcases x with e | (- | r')
  · rcases h with hu | ⟨id, j, k, r, hl, -, hpayload, -, hun⟩
    · exact hu.sound hs
    · have huuid := isUuid_of_validate hl.id_ok
      obtain ⟨payload, hback, hun⟩ : ∃ payload, (∀ k, payload = some k →
          s.files.names (m.payloadPath id) = some k) ∧ Undeleted m id s.files payload r f := by
        rcases hun with hun | ⟨hun, -⟩
        · exact ⟨some k, fun _ hk => hk ▸ hpayload, hun⟩
        · exact ⟨none, fun _ hk => absurd hk (by simp), hun⟩
      refine ⟨hun.wf, hs.uuid, fun item hitem => ?_, fun item hitem huntouched => ?_⟩
      · refine hun.recorded hs.wf hl (hs.recorded item hitem) ?_
        rintro i rfl hin hwritable hi hw
        exact recorded_recalls hi hin hwritable (hw.imp_right And.left)
      · exact hun.intact hs.wf (hs.uuid item hitem) huuid hback (hs.intact item hitem huntouched)
  · obtain ⟨rfl, -⟩ := h
    exact hs
  · obtain ⟨id, j, r, hl, -, -, -, hmarks, hnew⟩ := h
    have hsame := hmarks.same
    obtain ⟨hrwf, -, hrid⟩ := decodeRecord_ok hl.decoded
    have huuid := isUuid_of_validate hl.id_ok
    refine ⟨hnew.deleting.wf, hs.uuid, fun item hitem => ?_, fun item hitem huntouched => ?_⟩
    · refine hnew.deleting.recorded hs.wf hl (hs.recorded item hitem) ?_
      rintro i rfl hin - hi henc
      exact recorded_encodes hi (hsame.isIn hin) (hsame.wf hrwf) (hsame.quarantineId.trans hrid) huuid henc
    · exact hnew.deleting.intact hs.wf (hs.uuid item hitem) huuid (fun _ hk => absurd hk (by simp))
        (hs.intact item hitem huntouched)

/-- **Every operation keeps the records of all items**, and the payloads that it is not asked to change. -/
theorem Acts.sound (h : Acts F m s s') (hs : s.Sound F m) : s'.Sound F m := by
  cases h with
  | @quarantined args id b source i r f hfresh hspares hloc hnamed hrun =>
      have hscene : Scene m source i id s.files := ⟨hnamed, hs.wf _ _ hnamed, hfresh⟩
      obtain ⟨-, -, hq⟩ := wp_steps (wp_quarantineFile hscene hs.wf hloc) hrun
      refine hq.sound hscene (fun item hitem => ?_) hs
      rintro rfl
      exact hspares item hitem hloc
  | @refused args id b e f hfresh hrun =>
      by_cases hsource : ∃ source i, m.locate (m.absolute args.path) = some source ∧
          s.files.names source = some i
      · obtain ⟨source, i, hloc, hnamed⟩ := hsource
        have hscene : Scene m source i id s.files := ⟨hnamed, hs.wf _ _ hnamed, hfresh⟩
        exact (wp_steps (wp_quarantineFile hscene hs.wf hloc) hrun).2.1.sound hs
      · have hmissing : ∀ source, m.locate (m.absolute args.path) = some source →
            s.files.names source = none := by
          intro source hloc
          cases hn : s.files.names source with
          | none => rfl
          | some i => exact absurd ⟨source, i, hloc, hn⟩ hsource
        obtain ⟨-, rfl, -⟩ := wp_steps (wp_quarantineFile_missing hmissing) hrun
        exact hs
  | @restored o uuid q destination x f ho hrun => exact (restoreFile_post hs.wf ho hrun).sound ho hs
  | @deleted uuid q b x f hfile hrun =>
      have hsteps := wp_steps (wp_deletePermanently (q := q) hs.wf fun id _ _ k _ _ hk _ => hfile id k hk) hrun
      have hpost : DeletePost m q s.files (fun _ _ => True) .once x f := by
        rcases x with e | (- | r') <;> exact hsteps.2
      exact hpost.sound hs
  | @tampered id k node hpayload hrecords =>
      have hnode {i : Nat} (hi : i ≠ k) : (s.files.setNode k node).nodes i = s.files.nodes i := by
        simp [Files.setNode, hi]
      refine ⟨hs.wf, hs.uuid, fun item hitem => ?_, fun item hitem huntouched => ?_⟩
      · obtain ⟨j, r, hj, hdec, hrest⟩ := hs.recorded item hitem
        have hne : j ≠ k := by
          rintro rfl
          exact hrecords _ hj
        exact ⟨j, r, hj, by rw [hnode hne]; exact hdec, hrest⟩
      · refine (hs.intact item hitem fun ht => huntouched (.inl ht)).frame (fun _ hk => hk) fun i hi => ?_
        have hne : i ≠ k := by
          rintro rfl
          exact huntouched (.inr hi)
        rw [hnode hne]
        exact .refl _

theorem sound_of_acts (h : Relation.ReflTransGen (Acts F m) s s') (hs : s.Sound F m) :
    s'.Sound F m := by
  induction h with
  | refl => exact hs
  | tail _ hstep ih => exact hstep.sound ih

end Runs

/-! ## Restoring after a run -/

/-- Nothing that was there is changed, but for the metadata file of the id and what others change. -/
structure KeepsFiles (m : Manager) (o : Storm) (q : Json F) (f₀ f : Files Path) : Prop where
  names : ∀ p i, f₀.names p = some i → o.destination ≠ some p →
    (∀ id, validateQuarantineId q = .ok id → p ≠ m.metadataPath id) → f.names p = some i
  contents : ∀ i, i < f₀.used → o.payload ≠ some i → (f₀.nodes i).Same (f.nodes i)

/-- The two strings are a collision of SHA-256. -/
def Collision (x y : Bytes) : Prop := x ≠ y ∧ sha256 x = sha256 y

/-- The new file has the bytes of the record and, if others leave the payload alone, those of the payload.
    It has those of the item, unless the two are a collision, and has them in any case if nobody has
    tampered with the payload. -/
def RestoredExactly (m : Manager) (o : Storm) (q : Json F) (destination : Option PyStr) (s : Vault)
    (r' : QuarantineRecord F) (f : Files Path) : Prop :=
  ∃ id j r target new, Loaded m s.files q id j r ∧ SameItem r r' ∧
    restoreTarget m destination r.originalPath = some target ∧ s.files.used ≤ new ∧
    (o.destination ≠ some target → s.files.names target = none ∧ f.names target = some new) ∧
    describes r (sha256 (f.nodes new).bytes) (f.nodes new).bytes.length = true ∧
    restoredMode r.originalMode = .ok (f.nodes new).mode ∧
    (¬ o.Tampers m s.files id → ∃ k, s.files.names (m.payloadPath id) = some k ∧
      (f.nodes new).bytes = (s.files.nodes k).bytes) ∧
    ∀ item ∈ s.items, item.id = id →
      (f.nodes new).mode = item.mode % 512 ∧
      (f.nodes new).bytes.length = item.original.length ∧
      ((f.nodes new).bytes = item.original ∨ Collision (f.nodes new).bytes item.original) ∧
      (id ∉ s.tampered → ¬ o.Tampers m s.files id → (f.nodes new).bytes = item.original)

/-- The metadata file holds the record of before, and the target is not a file of the call; where there is
    no record or no target, only others have changed anything. The record of an item can always be written
    again. -/
structure RestoreUndone (m : Manager) (o : Storm) (q : Json F) (destination : Option PyStr) (s : Vault)
    (f : Files Path) : Prop where
  record : ∀ id j r, Loaded m s.files q id j r → ∃ i, f.names (m.metadataPath id) = some i ∧
    (Recalls m id r (f.nodes i).bytes ∨ Unwritable r ∧ ∀ item ∈ s.items, item.id ≠ id)
  target : ∀ target, RestoresInto m s.files q destination target →
    (o.destination ≠ some target → f.names target = s.files.names target) ∧
      ∀ i, f.names target = some i → i < s.files.used
  nowhere : (∀ target, ¬ RestoresInto m s.files q destination target) → Intrusion o s.files f

section Exact

variable {m : Manager} {s s₀ : Vault} {o : Storm} {q : Json F} {f₀ f : Files Path}

omit [FloatNum F] in
theorem Intrusion.keepsFiles (h : Intrusion o f₀ f) : KeepsFiles m o q f₀ f :=
  ⟨fun p _ hp hd _ => (h.names p hd).trans hp, fun _ _ hi => h.nodes _ hi⟩

omit [FloatNum F] in
theorem Aftermath.keepsFiles {id : PyStr} {target : Path} {W : Bytes → Prop}
    (h : Aftermath o m id target f₀ W f) (hid : validateQuarantineId q = .ok id) :
    KeepsFiles m o q f₀ f := by
  refine ⟨?_, h.nodes⟩
  intro p i hp hd hne
  have htarget : p ≠ target := by
    rintro rfl
    have := h.free hd
    rw [hp] at this
    exact absurd this (by simp)
  rcases h.names p htarget (hne id hid) hd with hname | ⟨hnone, -⟩
  · exact hname.trans hp
  · rw [hp] at hnone
    exact absurd hnone (by simp)

omit [FloatNum F] in
theorem Item.restored_of_isIn {item : Item} {r : QuarantineRecord F} {data : Bytes} {mode : Nat}
    (h : item.IsIn r) (hbytes : describes r (sha256 data) data.length = true)
    (hmode : restoredMode r.originalMode = .ok mode) :
    mode = item.mode % 512 ∧ data.length = item.original.length ∧
      (data = item.original ∨ Collision data item.original) := by
  simp only [describes, h.sha256, h.sizeBytes, Bool.and_eq_true, beq_iff_eq, Nat.cast_inj] at hbytes
  obtain ⟨hsha, hlen⟩ := hbytes
  refine ⟨?_, hlen.symm, ?_⟩
  · rw [h.originalMode] at hmode
    simp only [restoredMode, Except.ok.injEq] at hmode
    omega
  · by_cases heq : data = item.original
    · exact .inl heq
    · exact .inr ⟨heq, hsha.symm⟩

/-- The record of an item is the one that is loaded. -/
theorem Recorded.isIn_loaded {item : Item} {id : PyStr} {j : Nat} {r : QuarantineRecord F}
    (h : Recorded F m item f₀) (hl : Loaded m f₀ q id j r) (hid : item.id = id) :
    item.IsIn r ∧ ∃ data, Encodes r data := by
  obtain ⟨j', r', hj', hdec, hin, hwritable⟩ := h
  subst hid
  have hj : j' = j := Option.some.inj (hj'.symm.trans hl.named)
  subst hj
  have hr : r' = r := Except.ok.inj (hdec.symm.trans hl.decoded)
  exact hr ▸ ⟨hin, hwritable⟩

theorem Restored.exactly {destination : Option PyStr} {id : PyStr} {j : Nat} {target : Path}
    {n : Node} {r r' : QuarantineRecord F} (h : Restored o m id target s.files n r r' f) (hs : s.Sound F m)
    (hl : Loaded m s.files q id j r) (htarget : restoreTarget m destination r.originalPath = some target) :
    RestoredExactly m o q destination s r' f := by
  have hfill := h.renewed.filling
  have hmade := hfill.made
  have hcopied (ho : ¬ o.Tampers m s.files id) : ∃ k, s.files.names (m.payloadPath id) = some k ∧
      (f.nodes s.files.used).bytes = (s.files.nodes k).bytes := by
    obtain ⟨k, hk, hbytes⟩ := h.copied fun hd => ho (.inl hd)
    exact ⟨k, hk, hmade.bytes.trans (hbytes fun hp => ho (.inr ⟨k, hk, hp⟩))⟩
  refine ⟨id, j, r, target, s.files.used, hl, h.same, htarget, le_rfl, ?_, ?_, ?_, hcopied, ?_⟩
  · intro hd
    exact ⟨hfill.free hd, hfill.target.resolve_right fun ho => hd ho.1⟩
  · rw [hmade.bytes]
    exact h.bytes
  · rw [hmade.mode]
    exact h.mode
  · intro item hitem hid
    have hin := ((hs.recorded item hitem).isIn_loaded hl hid).1
    obtain ⟨hmode, hlen, hbytes⟩ := item.restored_of_isIn hin h.bytes h.mode
    rw [← hmade.bytes] at hlen hbytes
    refine ⟨hmade.mode.trans hmode, hlen, hbytes, fun hintact ho => ?_⟩
    obtain ⟨k, hk, hcopy⟩ := hcopied ho
    subst hid
    exact hcopy.trans (hs.intact item hitem hintact k hk)

/-- Only others have changed anything. -/
theorem Intrusion.undone {destination : Option PyStr} (h : Intrusion o s.files f) (ho : o.Respects m s.files)
    (hs : s.Sound F m) : RestoreUndone m o q destination s f where
  record id j r hl := by
    refine ⟨j, (h.names _ (ho.destination _)).trans hl.named, .inl ⟨r, ?_, rfl⟩⟩
    rw [(h.nodes j (ho.records _ _ hl.named)).bytes]
    exact hl.decoded
  target target _ := by
    refine ⟨h.names _, fun i hi => ?_⟩
    have := h.wf ho hs.wf _ _ hi
    rwa [h.used] at this
  nowhere _ := h

theorem Undone.undone {destination : Option PyStr} {id : PyStr} {j : Nat} {target : Path}
    {r : QuarantineRecord F} (h : Undone o m id target s.files r f) (ho : o.Respects m s.files)
    (hs : s.Sound F m) (hsees : o.blind = false) (hl : Loaded m s.files q id j r)
    (htarget : restoreTarget m destination r.originalPath = some target) :
    RestoreUndone m o q destination s f where
  record id' j' r' hl' := by
    obtain ⟨rfl, rfl, rfl⟩ := hl.unique hl'
    rcases h.aftermath.record with hname | ⟨i, hi, -, -, hw⟩
    · refine ⟨j', hname.trans hl.named, .inl ⟨r', ?_, rfl⟩⟩
      rw [(h.aftermath.nodes j' (hs.wf _ _ hl.named) (ho.records _ _ hl.named)).bytes]
      exact hl.decoded
    · refine ⟨i, hi, hw.imp_right fun hunw => ⟨hunw.1, ?_⟩⟩
      rintro item hitem hid
      obtain ⟨-, data, henc⟩ := (hs.recorded item hitem).isIn_loaded hl hid
      exact hunw.1 data henc
  target target' hinto := by
    obtain ⟨id', j', r', hl', htarget'⟩ := hinto
    obtain ⟨rfl, rfl, rfl⟩ := hl.unique hl'
    obtain rfl : target' = target := Option.some.inj (htarget'.symm.trans htarget)
    have hcleared : Cleared o target' f := h.cleared.resolve_left (by simp [hsees])
    refine ⟨fun hd => ?_, fun i hi => ?_⟩
    · rw [h.aftermath.free hd]
      exact hcleared.resolve_right fun ho => hd ho.1
    · rcases hcleared with hnone | ⟨-, hlt⟩
      · rw [hnone] at hi
        exact absurd hi (by simp)
      · exact lt_of_lt_of_le (hlt i hi) ho.old
  nowhere hno := absurd ⟨id, j, r, hl, htarget⟩ (hno target)

/-- **Restoring is safe and exact**, after every run that has not quarantined the metadata file of an
    item, and while others write into the payload and replace the destination, when the new target can
    be looked at. -/
theorem restore_exact {uuid : PyStr} {destination : Option PyStr}
    {x : Except Exc (QuarantineRecord F)} (hwf : s₀.files.WF) (hnew : s₀.items = [])
    (hruns : Relation.ReflTransGen (Acts F m) s₀ s) (ho : o.Respects m s.files)
    (hsees : o.blind = false)
    (hrun : Storms (stormy (F := F) o uuid) (machine uuid fun _ _ => True) Weather.files
      (restoreFile m q destination) ⟨s.files, false⟩ x f) :
    KeepsFiles m o q s.files f ∧
      match x with
      | .ok r' => RestoredExactly m o q destination s r' f
      | .error _ => RestoreUndone m o q destination s f := by
  have hs : s.Sound F m :=
    sound_of_acts hruns ⟨hwf, by simp [hnew], by simp [hnew], by simp [hnew]⟩
  have hpost := restoreFile_post hs.wf ho hrun
  cases x with
  | ok r' =>
      obtain ⟨id, j, r, target, n, hl, -, htarget, hres⟩ := hpost
      exact ⟨hres.renewed.filling.toAftermath.keepsFiles hl.id_ok, hres.exactly hs hl htarget⟩
  | error e =>
      rcases hpost with hint | ⟨id, j, r, target, hl, -, htarget, -, hun⟩
      · exact ⟨hint.keepsFiles, hint.undone ho hs⟩
      · exact ⟨hun.aftermath.keepsFiles hl.id_ok, hun.undone ho hs hsees hl htarget⟩

end Exact

/-! ## Restoring the small file -/

/-- The disk after the small file has been quarantined. -/
def storedDisk : Disk Path :=
  match sampleRun (some (60, .os (.other 5))) with
  | some (_, _, d) => d
  | none => sampleDisk

def storedVault : Vault where
  files := storedDisk.files
  items := [⟨sampleId, [1, 2, 3], 0o755⟩]
  tampered := ∅

theorem storedDisk_steps : ∃ r : QuarantineRecord SampleFloat, Steps (machine sampleId fun _ _ => True)
    .once (quarantineFile sampleManager sampleArgs) sampleDisk.files .once (ofResult (.ok r))
    storedDisk.files := by
  have hreturns : returnsWith .once (sampleRun (some (60, .os (.other 5)))) = true := by
    decide +kernel
  obtain ⟨r, d, hrun⟩ := of_returnsWith hreturns
  have hd : storedDisk = d := by
    unfold storedDisk
    rw [hrun]
  rw [hd]
  exact ⟨r, drive_steps _ hrun⟩

theorem sample_located : sampleManager.locate (sampleManager.absolute sampleArgs.path) = some malPath := by
  decide

theorem storedVault_reached :
    Relation.ReflTransGen (Acts SampleFloat sampleManager) ⟨sampleDisk.files, [], ∅⟩ storedVault := by
  obtain ⟨r, hsteps⟩ := storedDisk_steps
  have hspares : Spares sampleManager [] sampleArgs.path := by
    intro item hitem
    exact absurd hitem List.not_mem_nil
  have hact := Acts.quarantined (s := ⟨sampleDisk.files, [], ∅⟩) sample_scene.fresh hspares
    sample_located sample_scene.named hsteps
  -- the file is no payload
  have hnone : {id : PyStr | id ≠ sampleId ∧
      (id ∈ (∅ : Set PyStr) ∨ sampleManager.payloadPath id = malPath)} = ∅ := by
    refine Set.eq_empty_of_forall_notMem ?_
    rintro id ⟨-, hmem | hpath⟩
    · exact hmem
    · have hdir : sampleManager.quarantineDir ≠ malPath.dir := by decide
      exact hdir (congrArg Path.dir hpath)
  rw [hnone] at hact
  exact .single hact

/-- The run of a restore under a plan. -/
def restoreRun (plan : Option (Nat × Exc)) :
    Option (Faults × Except Exc (QuarantineRecord SampleFloat) × Disk Path) :=
  drive (sampleScenery.onDisk sampleId) (restoreFile sampleManager (.str sampleId) none) plan
    storedDisk

/-- A call of which nobody else knows. -/
def calmStorm (blind : Bool) : Storm where
  old := 0
  blind := blind

theorem calmStorm_respects (blind : Bool) (f : Files Path) :
    (calmStorm blind).Respects sampleManager f where
  records _ _ _ := by simp [calmStorm]
  destination _ := by simp [calmStorm]
  payload _ h := by simp [calmStorm] at h
  old := Nat.zero_le _

theorem restore_storms {plan : Option (Nat × Exc)} {blind : Bool} {b : Faults}
    {x : Except Exc (QuarantineRecord SampleFloat)} {d : Disk Path}
    (hrun : restoreRun plan = some (b, x, d))
    (hb : @planned (interface SampleFloat) plan = .never ∨ blind = true) :
    Storms (stormy (F := SampleFloat) (calmStorm blind) sampleId) (machine sampleId fun _ _ => True)
      Weather.files (restoreFile sampleManager (.str sampleId) none) ⟨storedVault.files, false⟩ x
      d.files :=
  storms_of_steps rfl (fun _ => trivial) hb (drive_steps _ hrun)

/-- The small file is restored: its bytes are those that were quarantined, and its mode. -/
theorem sample_restored : ∃ (r : QuarantineRecord SampleFloat) (f : Files Path),
    RestoredExactly sampleManager (calmStorm false) (.str sampleId) none storedVault r f ∧
    ∃ new, storedVault.files.used ≤ new ∧ (f.nodes new).bytes = [1, 2, 3] ∧ (f.nodes new).mode = 0o755 := by
  have hreturns : returnsWith .never (restoreRun none) = true := by decide +kernel
  obtain ⟨r, d, hrun⟩ := of_returnsWith hreturns
  have hexact := (restore_exact sample_wf rfl storedVault_reached (calmStorm_respects _ _) rfl
    (restore_storms hrun (.inl rfl))).2
  refine ⟨r, d.files, hexact, ?_⟩
  obtain ⟨id, j, r₀, target, new, hl, -, -, hnew, -, -, -, -, hitems⟩ := hexact
  have hid : validateQuarantineId (.str sampleId : Json SampleFloat) = .ok sampleId :=
    validateQuarantineId_of_isUuid (by decide)
  obtain rfl : sampleId = id := Except.ok.inj (hid.symm.trans hl.id_ok)
  obtain ⟨hmode, -, -, hbytes⟩ := hitems _ (List.mem_singleton_self _) rfl
  have hcalm : ¬ (calmStorm false).Tampers sampleManager storedVault.files sampleId := by
    rintro (hd | ⟨k, -, hp⟩)
    · cases hd
    · cases hp
  exact ⟨new, hnew, hbytes (Set.notMem_empty _) hcalm, hmode⟩

/-- Whether a run raises where the new target remains. -/
def leavesTarget (x : Option (Faults × Except Exc (QuarantineRecord SampleFloat) × Disk Path)) :
    Bool :=
  match x with
  | some (_, .error _, d) => (d.files.names malPath).isSome
  | _ => false

/-- The `fstat` of the new target fails, and the restore raises and leaves an empty target. -/
theorem restore_leaves_target : ∃ (e : Exc) (f : Files Path),
    Storms (stormy (F := SampleFloat) (calmStorm true) sampleId) (machine sampleId fun _ _ => True)
      Weather.files (restoreFile sampleManager (.str sampleId) none) ⟨storedVault.files, false⟩
      (.error e) f ∧
    storedVault.files.names malPath = none ∧ (f.names malPath).isSome = true := by
  have hleaves : leavesTarget (restoreRun (some (14, .os (.other 5)))) = true := by decide +kernel
  rcases hrun : restoreRun (some (14, .os (.other 5))) with - | ⟨b, e | r, d⟩
  · rw [hrun] at hleaves
    exact absurd hleaves (by simp [leavesTarget])
  · rw [hrun] at hleaves
    exact ⟨e, d.files, restore_storms hrun (.inr rfl), by decide +kernel, hleaves⟩
  · rw [hrun] at hleaves
    exact absurd hleaves (by simp [leavesTarget])

end Elyra.Quarantine
