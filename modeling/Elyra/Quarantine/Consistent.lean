import Elyra.Python.JsonDepth
import Elyra.Quarantine.Store

set_option autoImplicit false

/-! # The store stays consistent

Any calls of `quarantine_file`, `restore_file` and `delete_permanently` one after the other, in each of
which one step may fail. Every record says what has become of its payload, and a call that raises leaves
the records and the payloads as they were (`store_consistent`), provided that no call is given one of the
store's own files, that the `fsync` after a deletion does not fail (then the payload is gone, and the
record from before is written again), and that no record nests deeper than it can be copied: then the call
ends by a `RecursionError`, which no handler names, wherever it is. -/

namespace Elyra.Quarantine

open Elyra.Python Elyra.Posix Elyra.Posix.Program

variable {F : Type} [FloatNum F]

/-! ## The files of an item -/

/-- The payload is there, with the bytes that the record tells of. -/
def Held (m : Manager) (f : Files Path) (id : PyStr) (r : QuarantineRecord F) : Prop :=
  ∃ k, f.names (m.payloadPath id) = some k ∧
    describes r (sha256 (f.nodes k).bytes) (f.nodes k).bytes.length = true

/-- Neither the payload nor its pending file is there. -/
structure Gone (m : Manager) (f : Files Path) (id : PyStr) : Prop where
  payload : f.names (m.payloadPath id) = none
  pending : f.names (m.deletePending id) = none

/-- The status of every record is that of its payload. -/
def Consistent (F : Type) [FloatNum F] (m : Manager) (f : Files Path) : Prop :=
  ∀ id j, isUuid id = true → f.names (m.metadataPath id) = some j →
    ∃ r : QuarantineRecord F, decodeRecord m.str id (f.nodes j).bytes = .ok r ∧
      ((r.restorationStatus = .str (py "quarantined") ∨ r.restorationStatus = .str (py "restored")) ↔
        Held m f id r) ∧
      (r.restorationStatus = .str (py "deleted") ↔ Gone m f id)

/-- The records and the payloads are those from before. A record is a value, in which the order of a
    dictionary does not matter. -/
structure AsBefore (F : Type) [FloatNum F] (m : Manager) (f₀ f : Files Path) : Prop where
  payload : ∀ id, isUuid id = true → f.names (m.payloadPath id) = f₀.names (m.payloadPath id)
  pending : ∀ id, isUuid id = true → f.names (m.deletePending id) = f₀.names (m.deletePending id)
  bytes : ∀ id k, isUuid id = true → f₀.names (m.payloadPath id) = some k →
    (f₀.nodes k).Same (f.nodes k)
  none : ∀ id, isUuid id = true → f₀.names (m.metadataPath id) = none →
    f.names (m.metadataPath id) = none
  record : ∀ id j (r : QuarantineRecord F), isUuid id = true → f₀.names (m.metadataPath id) = some j →
    decodeRecord m.str id (f₀.nodes j).bytes = .ok r →
    ∃ j', f.names (m.metadataPath id) = some j' ∧ Recalls m id r (f.nodes j').bytes

/-! ## The calls -/

/-- A call; `id` is the new id that `uuid4` gives it. -/
inductive Operation (F : Type) where
  | quarantine (id : PyStr) (args : QuarantineArgs F)
  | restore (id : PyStr) (q : Json F) (destination : Option PyStr)
  | delete (id : PyStr) (q : Json F)

/-- How a call ends. -/
inductive Ending where
  | returned
  | raised (e : Exc)
  /-- By the `RecursionError` of copying or encoding a record, which no handler names. -/
  | overflowed
  deriving DecidableEq

def endingOf {α : Type} : Except Exc α → Ending
  | .ok _ => .returned
  | .error e => .raised e

/-- The records that the call copies nest no deeper than `room`, which is what the interpreter's stack
    leaves for `asdict` and for the encoder. -/
def Operation.Shallow (m : Manager) (room : Nat) (f : Files Path) : Operation F → Prop
  | .quarantine _ args => args.triggeredRules.depth < room ∧ args.processInfo.depth < room
  | .restore _ q _ => ∀ id j r, Loaded m f q id j r → (Json.obj r.toDict).depth ≤ room
  | .delete _ q => ∀ id j r, Loaded m f q id j r → (Json.obj r.toDict).depth ≤ room

/-- The program ends, or in a call with a deeper record it overflows the stack: a record is copied at
    several places, so this may be anywhere. -/
def RunsTo {α : Type} (M : Machine (interface F) (Files Path)) (shallow : Prop) (p : Prog F α)
    (f : Files Path) (end_ : Ending) (f' : Files Path) : Prop :=
  (∃ b x, Steps M .once p f b (ofResult x) f' ∧ endingOf x = end_) ∨
    ¬ shallow ∧ end_ = .overflowed ∧ Visits M .once p f f'

/-- A run of the call in which at most one step fails, with one of these failures. -/
def Operation.Runs (m : Manager) (room : Nat) (allowed : Call F → Exc → Prop) (f : Files Path)
    (end_ : Ending) (f' : Files Path) (op : Operation F) : Prop :=
  match op with
  | .quarantine id args => Fresh f id ∧
      RunsTo (machine id allowed) (op.Shallow m room f) (quarantineFile m args) f end_ f'
  | .restore id q destination =>
      RunsTo (machine id allowed) (op.Shallow m room f) (restoreFile m q destination) f end_ f'
  | .delete id q => RunsTo (machine id allowed) (op.Shallow m room f) (deletePermanently m q) f end_ f'

/-- What the call is given is not a file of the store. -/
def Operation.Apart (m : Manager) (f : Files Path) : Operation F → Prop
  | .quarantine _ args => ∀ source, m.locate (m.absolute args.path) = some source → ¬ m.StoreName source
  | .restore _ q destination => ∀ id j r target, Loaded m f q id j r →
      restoreTarget m destination r.originalPath = some target → ¬ m.StoreName target
  | .delete _ _ => True

/-- The failures that the call recovers from: all but that of the `fsync` after a deletion. -/
def Operation.recovers : Operation F → Call F → Exc → Prop
  | .delete _ _ => fun c e => c = .file (.fsyncDir .quarantine) →
      ∀ n, e = .os n → n = .invalid ∨ n = .readOnly
  | _ => fun _ _ => True

/-- A call that is given no file of the store and no record too deep, and meets only failures that it
    recovers from. -/
def Calls (F : Type) [FloatNum F] (m : Manager) (room : Nat) (f : Files Path) (end_ : Ending)
    (f' : Files Path) : Prop :=
  ∃ op : Operation F, op.Apart m f ∧ op.Shallow m room f ∧ op.Runs m room op.recovers f end_ f'

/-! ## Items on file -/

/-- The record of an item can be written, and says what has become of the payload. -/
structure Filed (m : Manager) (f : Files Path) (id : PyStr) (r : QuarantineRecord F) : Prop where
  decoded : ∃ j, f.names (m.metadataPath id) = some j ∧
    decodeRecord m.str id (f.nodes j).bytes = .ok r
  writable : ∃ data, Encodes r data
  state : (r.restorationStatus = .str (py "deleted") ∧ Gone m f id) ∨
    ((r.restorationStatus = .str (py "quarantined") ∨ r.restorationStatus = .str (py "restored")) ∧
      ∃ k, f.names (m.payloadPath id) = some k ∧ (f.nodes k).kind = .regular ∧
        describes r (sha256 (f.nodes k).bytes) (f.nodes k).bytes.length = true)

/-- Every name leads to a file, and every item is on file. -/
structure Orderly (F : Type) [FloatNum F] (m : Manager) (f : Files Path) : Prop where
  wf : f.WF
  filed : ∀ id, isUuid id = true → f.names (m.metadataPath id) = none ∨
    ∃ r : QuarantineRecord F, Filed m f id r

section Items

variable {m : Manager} {f₀ f : Files Path} {id : PyStr} {r r' : QuarantineRecord F}

omit [FloatNum F] in
theorem not_live_of_deleted (hdeleted : r.restorationStatus = .str (py "deleted")) :
    ¬ (r.restorationStatus = .str (py "quarantined") ∨ r.restorationStatus = .str (py "restored")) := by
  rw [hdeleted, Json.str.injEq, Json.str.injEq]
  decide

theorem Filed.consistent (h : Filed m f id r) :
    ((r.restorationStatus = .str (py "quarantined") ∨ r.restorationStatus = .str (py "restored")) ↔
      Held m f id r) ∧
    (r.restorationStatus = .str (py "deleted") ↔ Gone m f id) := by
  rcases h.state with ⟨hdeleted, hgone⟩ | ⟨hlive, k, hk, -, hbytes⟩
  · refine ⟨iff_of_false (not_live_of_deleted hdeleted) ?_, iff_of_true hdeleted hgone⟩
    intro ⟨k, hk, _⟩
    cases hgone.payload.symm.trans hk
  · refine ⟨iff_of_true hlive ⟨k, hk, hbytes⟩, iff_of_false ?_ ?_⟩
    · exact fun hdeleted => not_live_of_deleted hdeleted hlive
    · intro hgone
      cases hgone.payload.symm.trans hk

theorem Orderly.consistent (h : Orderly F m f) : Consistent F m f := by
  intro id j huuid hj
  rcases h.filed id huuid with hnone | ⟨r, hfiled⟩
  · cases hnone.symm.trans hj
  · obtain ⟨j', hj', hdec⟩ := hfiled.decoded
    obtain rfl : j' = j := Option.some.inj (hj'.symm.trans hj)
    exact ⟨r, hdec, hfiled.consistent⟩

/-- The record that is loaded is the one on file. -/
theorem Orderly.loaded {q : Json F} {j : Nat} (h : Orderly F m f) (hl : Loaded m f q id j r) :
    isUuid id = true ∧ Filed m f id r := by
  have huuid := isUuid_of_validate hl.id_ok
  rcases h.filed id huuid with hnone | ⟨r', hfiled⟩
  · cases hnone.symm.trans hl.named
  · obtain ⟨j', hj', hdec⟩ := hfiled.decoded
    obtain rfl : j' = j := Option.some.inj (hj'.symm.trans hl.named)
    obtain rfl : r' = r := Except.ok.inj (hdec.symm.trans hl.decoded)
    exact ⟨huuid, hfiled⟩

/-- The state of an item is that of a record of the same item with the same status. -/
theorem Filed.state_congr (h : Filed m f₀ id r)
    (hstatus : ∀ s, r.restorationStatus = .str s → r'.restorationStatus = .str s)
    (hdescribes : ∀ hash size, describes r hash size = true → describes r' hash size = true)
    (hpayload : f.names (m.payloadPath id) = f₀.names (m.payloadPath id))
    (hpending : f.names (m.deletePending id) = f₀.names (m.deletePending id))
    (hbytes : ∀ k, f₀.names (m.payloadPath id) = some k → (f₀.nodes k).Same (f.nodes k)) :
    (r'.restorationStatus = .str (py "deleted") ∧ Gone m f id) ∨
    ((r'.restorationStatus = .str (py "quarantined") ∨ r'.restorationStatus = .str (py "restored")) ∧
      ∃ k, f.names (m.payloadPath id) = some k ∧ (f.nodes k).kind = .regular ∧
        describes r' (sha256 (f.nodes k).bytes) (f.nodes k).bytes.length = true) := by
  rcases h.state with ⟨hdeleted, hgone⟩ | ⟨hlive, k, hk, hregular, hheld⟩
  · exact .inl ⟨hstatus _ hdeleted, hpayload.trans hgone.payload, hpending.trans hgone.pending⟩
  · refine .inr ⟨hlive.imp (hstatus _) (hstatus _), k, hpayload.trans hk,
      (hbytes k hk).kind.trans hregular, hdescribes _ _ ?_⟩
    rw [(hbytes k hk).bytes]
    exact hheld

omit [FloatNum F] in
theorem text_of_sortKeys {v w : Json F} {s : PyStr} (h : w.sortKeys = v.sortKeys) (hv : v = .str s) :
    w = .str s := by
  subst hv
  cases w <;> first | exact h | exact absurd h (by simp [Json.sortKeys])

omit [FloatNum F] in
theorem describes_canon (r : QuarantineRecord F) (hash : PyStr) (size : Nat) :
    describes r.canon hash size = describes r hash size := by
  unfold describes QuarantineRecord.canon QuarantineRecord.mapFields
  cases r.sha256 <;> cases r.sizeBytes <;> rfl

/-- The file of the record has been written again. -/
theorem Filed.recalled {j : Nat} (h : Filed m f₀ id r) (hj : f.names (m.metadataPath id) = some j)
    (hrecalls : Recalls m id r (f.nodes j).bytes)
    (hpayload : f.names (m.payloadPath id) = f₀.names (m.payloadPath id))
    (hpending : f.names (m.deletePending id) = f₀.names (m.deletePending id))
    (hbytes : ∀ k, f₀.names (m.payloadPath id) = some k → (f₀.nodes k).Same (f.nodes k)) :
    ∃ r' : QuarantineRecord F, Filed m f id r' := by
  obtain ⟨r', hdec, hsame⟩ := hrecalls
  have hcanon := canon_congr hsame
  obtain ⟨data, henc⟩ := h.writable
  refine ⟨r', ⟨j, hj, hdec⟩, ⟨data, encodes_congr (decodeRecord_ok hdec).2.1 hsame henc⟩,
    h.state_congr ?_ ?_ hpayload hpending hbytes⟩
  · intro s
    exact text_of_sortKeys (congrArg QuarantineRecord.restorationStatus hcanon)
  · intro hash size hdescribes
    rw [← describes_canon, hcanon, describes_canon]
    exact hdescribes

/-- Nothing of the item has changed. -/
theorem Filed.frame (h : Filed m f₀ id r) (hwf : f₀.WF)
    (hnames : ∀ p ∈ m.storeNames id, f.names p = f₀.names p)
    (hnodes : ∀ i, i < f₀.used → (f₀.nodes i).Same (f.nodes i)) : Filed m f id r := by
  simp only [Manager.storeNames, List.forall_mem_cons] at hnames
  obtain ⟨hpayload, hmetadata, hpending, -⟩ := hnames
  obtain ⟨j, hj, hdec⟩ := h.decoded
  refine ⟨⟨j, hmetadata.trans hj, ?_⟩, h.writable,
    h.state_congr (fun _ hs => hs) (fun _ _ hd => hd) hpayload hpending fun k hk => hnodes k (hwf _ _ hk)⟩
  rw [(hnodes j (hwf _ _ hj)).bytes]
  exact hdec

/-- After a call that has left everything as it was. -/
theorem AsBefore.orderly (h : AsBefore F m f₀ f) (hwf : f.WF) (ho : Orderly F m f₀) : Orderly F m f := by
  refine ⟨hwf, fun id huuid => ?_⟩
  rcases ho.filed id huuid with hnone | ⟨r, hfiled⟩
  · exact .inl (h.none id huuid hnone)
  · obtain ⟨j, hj, hdec⟩ := hfiled.decoded
    obtain ⟨j', hj', hrecalls⟩ := h.record id j r huuid hj hdec
    exact .inr (hfiled.recalled hj' hrecalls (h.payload id huuid) (h.pending id huuid)
      fun k => h.bytes id k huuid)

end Items

/-! ## What a call leaves -/

section Calls

variable {m : Manager} {f₀ f : Files Path} {id : PyStr} {r r' : QuarantineRecord F}

theorem Unchanged.asBefore (h : Unchanged f₀ f) (hwf : f₀.WF) : AsBefore F m f₀ f where
  payload _ _ := by rw [h.names]
  pending _ _ := by rw [h.names]
  bytes id k _ hk := h.keeps.nodes k (hwf _ _ hk)
  none _ _ hnone := by rw [h.names, hnone]
  record id j r _ hj hdec := by
    refine ⟨j, by rw [h.names, hj], r, ?_, rfl⟩
    rw [(h.keeps.nodes j (hwf _ _ hj)).bytes]
    exact hdec

/-- Only the record of one item has been written again. -/
theorem asBefore_of_names {id : PyStr} {j : Nat} {q : Json F} {marks : QuarantineRecord F → Prop}
    (hwf : f₀.WF) (hwritable : ¬ Irrevocable marks r) (hl : Loaded m f₀ q id j r)
    (hnames : ∀ id' p, isUuid id' = true → p ∈ m.storeNames id' → p ≠ m.metadataPath id →
      f.names p = f₀.names p)
    (hnodes : ∀ i, i < f₀.used → (f₀.nodes i).Same (f.nodes i))
    (hrecord : f.names (m.metadataPath id) = f₀.names (m.metadataPath id) ∨
      ∃ i, f.names (m.metadataPath id) = some i ∧ (Recalls m id r (f.nodes i).bytes ∨ Irrevocable marks r)) :
    AsBefore F m f₀ f := by
  have huuid := isUuid_of_validate hl.id_ok
  have hmetadata (id' : PyStr) (huuid' : isUuid id' = true) (hne : id' ≠ id) :
      f.names (m.metadataPath id') = f₀.names (m.metadataPath id') :=
    hnames id' _ huuid' (metadata_mem m id') fun he => hne (metadataPath_injective he)
  have hlen := isUuid_length huuid
  refine ⟨?_, ?_, fun id' k _ hk => hnodes k (hwf _ _ hk), ?_, ?_⟩
  · intro id' huuid'
    refine hnames id' _ huuid' (payload_mem m id') (Path.ne_of_length ?_)
    have := isUuid_length huuid'
    simp only [Manager.payloadPath, Manager.metadataPath, metadataName_length]
    omega
  · intro id' huuid'
    refine hnames id' _ huuid' (pending_mem m id') (Path.ne_of_length ?_)
    have := isUuid_length huuid'
    simp only [Manager.deletePending, Manager.metadataPath, metadataName_length,
      deletePendingName_length]
    omega
  · intro id' huuid' hnone
    have hne : id' ≠ id := by
      rintro rfl
      cases hnone.symm.trans hl.named
    exact (hmetadata id' huuid' hne).trans hnone
  · intro id' j' r' huuid' hj' hdec
    have hsame : (f₀.nodes j').Same (f.nodes j') := hnodes j' (hwf _ _ hj')
    have hkept (hname : f.names (m.metadataPath id') = f₀.names (m.metadataPath id')) :
        ∃ j', f.names (m.metadataPath id') = some j' ∧ Recalls m id' r' (f.nodes j').bytes :=
      ⟨j', hname.trans hj', r', by rw [hsame.bytes]; exact hdec, rfl⟩
    by_cases hid : id' = id
    · subst hid
      rcases hrecord with hname | ⟨i, hi, hrecalls⟩
      · exact hkept hname
      · obtain rfl : j' = j := Option.some.inj (hj'.symm.trans hl.named)
        obtain rfl : r' = r := Except.ok.inj (hdec.symm.trans hl.decoded)
        exact ⟨i, hi, hrecalls.resolve_right hwritable⟩
    · exact hkept (hmetadata id' huuid' hid)

/-- One item is on file, and the other items' files are the same. -/
theorem orderly_of_names (hwf : f.WF) (ho : Orderly F m f₀)
    (hnames : ∀ id' p, isUuid id' = true → id' ≠ id → p ∈ m.storeNames id' → f.names p = f₀.names p)
    (hnodes : ∀ i, i < f₀.used → (f₀.nodes i).Same (f.nodes i)) (hnew : Filed m f id r') :
    Orderly F m f := by
  refine ⟨hwf, fun id' huuid' => ?_⟩
  by_cases hid : id' = id
  · subst hid
    exact .inr ⟨r', hnew⟩
  · refine (ho.filed id' huuid').imp (fun hnone => ?_) fun ⟨r', hfiled⟩ => ⟨r', ?_⟩
    · exact (hnames id' _ huuid' hid (metadata_mem m id')).trans hnone
    · exact hfiled.frame ho.wf (fun p => hnames id' p huuid' hid) hnodes

/-! ### Quarantining -/

/-- A new item is on file, and the source was none of the others' files. -/
theorem Quarantined.orderly {source : Path} {i : Nat} (h : Quarantined m source i id f₀ r f)
    (ho : Orderly F m f₀) (hsource : ¬ m.StoreName source) : Orderly F m f := by
  obtain ⟨j, data, hj, hdata, hstored, -⟩ := h.metadata
  have hothers (id' : PyStr) (p : Path) (huuid' : isUuid id' = true) (hid : id' ≠ id)
      (hp : p ∈ m.storeNames id') : f.names p = f₀.names p := by
    refine h.others p ?_ (storeNames_disjoint huuid' hstored.uuid hid hp (payload_mem m id))
      (storeNames_disjoint huuid' hstored.uuid hid hp (metadata_mem m id))
    rintro rfl
    exact hsource ⟨id', huuid', hp⟩
  obtain ⟨k, hk, hbytes, hregular⟩ := h.payload
  have hfiled : Filed m f id r.canon := by
    refine ⟨⟨j, hj, ?_⟩, ⟨data, hstored.canon.valid, hstored.canon.encoded⟩,
      .inr ⟨.inl (congrArg Json.sortKeys h.record.status), k, hk, hregular, ?_⟩⟩
    · rw [hdata]
      exact hstored.decode m.str
    · rw [describes_canon, hbytes]
      simp [describes, h.record.hash, h.record.size]
  exact orderly_of_names h.wf ho hothers (fun i hi => h.keeps.nodes i hi) hfiled

/-! ### Restoring -/

/-- A storm in which nobody else does anything. -/
def quiet : Storm where
  blind := true

theorem quiet_respects (m : Manager) (f : Files Path) : quiet.Respects m f where
  records _ _ _ := by simp [quiet]
  destination _ := by simp [quiet]
  payload _ h := by simp [quiet] at h
  old := Nat.zero_le _

omit [FloatNum F] in
theorem ne_of_not_storeName {target p : Path} {id' : PyStr} (htarget : ¬ m.StoreName target)
    (huuid' : isUuid id' = true) (hp : p ∈ m.storeNames id') : p ≠ target := by
  rintro rfl
  exact htarget ⟨id', huuid', hp⟩

/-- A record of the same item that has been written. -/
theorem filed_encodes {j : Nat} {q : Json F} (hl : Loaded m f₀ q id j r) (hsame : SameItem r r') {i : Nat}
    (hi : f.names (m.metadataPath id) = some i) (henc : Encodes r' (f.nodes i).bytes)
    (hstate : (r'.restorationStatus = .str (py "deleted") ∧ Gone m f id) ∨
      (r'.restorationStatus = .str (py "restored") ∧
        ∃ k, f.names (m.payloadPath id) = some k ∧ (f.nodes k).kind = .regular ∧
          describes r' (sha256 (f.nodes k).bytes) (f.nodes k).bytes.length = true)) :
    Filed m f id r'.canon := by
  obtain ⟨hwf, -, hid⟩ := decodeRecord_ok hl.decoded
  have hstored : Stored id r' (f.nodes i).bytes :=
    ⟨hsame.wf hwf, henc.1, isUuid_of_validate hl.id_ok, hsame.quarantineId.trans hid, henc.2⟩
  refine ⟨⟨i, hi, hstored.decode m.str⟩, ⟨_, hstored.canon.valid, hstored.canon.encoded⟩, ?_⟩
  refine hstate.imp (fun ⟨hstatus, hgone⟩ => ⟨congrArg Json.sortKeys hstatus, hgone⟩)
    fun ⟨hstatus, k, hk, hregular, hheld⟩ => ⟨.inr (congrArg Json.sortKeys hstatus), k, hk, hregular, ?_⟩
  rw [describes_canon]
  exact hheld

/-- A record on file can be written again. -/
theorem Filed.revocable {marks : QuarantineRecord F → Prop} (h : Filed m f id r) : ¬ Irrevocable marks r := by
  rintro ⟨hunwritable, -⟩
  obtain ⟨data, henc⟩ := h.writable
  exact hunwritable data henc

/-- The payload of an item that is not deleted. -/
theorem Filed.live (h : Filed m f id r) (hstatus : hasStatus r (py "deleted") = false) :
    ∃ k, f.names (m.payloadPath id) = some k ∧ (f.nodes k).kind = .regular ∧
      describes r (sha256 (f.nodes k).bytes) (f.nodes k).bytes.length = true := by
  rcases h.state with ⟨hdeleted, -⟩ | ⟨-, hheld⟩
  · rw [hasStatus, hdeleted] at hstatus
    simp at hstatus
  · exact hheld

omit [FloatNum F] in
theorem SameItem.describes (h : SameItem r r') (hash : PyStr) (size : Nat) :
    describes r' hash size = describes r hash size := by
  unfold Elyra.Quarantine.describes
  rw [h.sha256, h.sizeBytes]

/-- The item is marked as restored, and its payload stays where it is. -/
theorem Restored.filed {q : Json F} {j : Nat} {target : Path} {n : Node} {o : Storm}
    (h : Restored o m id target f₀ n r r' f) (hnobody : o.destination = none ∧ o.payload = none)
    (hwf : f₀.WF) (hl : Loaded m f₀ q id j r) (hfiled : Filed m f₀ id r)
    (hlive : hasStatus r (py "deleted") = false) : Filed m f id r'.canon := by
  have hafter := h.renewed.filling.toAftermath
  obtain ⟨k, hk, hregular, hheld⟩ := hfiled.live hlive
  obtain ⟨i, hi, -, -, henc⟩ := h.renewed.record
  have hnode : (f₀.nodes k).Same (f.nodes k) := hafter.nodes k (hwf _ _ hk) (by simp [hnobody.2])
  have hpt : m.payloadPath id ≠ target := by
    rintro rfl
    cases (hafter.free (by simp [hnobody.1])).symm.trans hk
  refine filed_encodes hl h.same hi henc (.inr ⟨h.status, k, ?_, hnode.kind.trans hregular, ?_⟩)
  · exact (hafter.kept hl (isUuid_of_validate hl.id_ok) (payload_mem m id) (by simp [hnobody.1]) hpt
      (m.payloadPath_ne_metadataPath id)).trans hk
  · rw [h.same.describes, hnode.bytes]
    exact hheld

theorem Restored.orderly {q : Json F} {j : Nat} {target : Path} {n : Node}
    (h : Restored quiet m id target f₀ n r r' f) (ho : Orderly F m f₀) (hl : Loaded m f₀ q id j r)
    (hlive : hasStatus r (py "deleted") = false) (htarget : ¬ m.StoreName target) : Orderly F m f := by
  have hafter := h.renewed.filling.toAftermath
  obtain ⟨huuid, hfiled⟩ := ho.loaded hl
  refine orderly_of_names hafter.wf ho (fun id' p huuid' hid hp => hafter.kept hl huuid' hp (by simp [quiet])
    (ne_of_not_storeName htarget huuid' hp) ?_) (fun i hi => hafter.nodes i hi (by simp [quiet]))
    (h.filed ⟨rfl, rfl⟩ ho.wf hl hfiled hlive)
  exact storeNames_disjoint huuid' huuid hid hp (metadata_mem m id)

theorem Undone.asBefore {q : Json F} {j : Nat} {target : Path} {o : Storm}
    (h : Undone o m id target f₀ r f) (hnobody : o.destination = none ∧ o.payload = none)
    (hwf : f₀.WF) (hwritable : ¬ Irrevocable (MarksRestored o r target) r) (hl : Loaded m f₀ q id j r)
    (htarget : ¬ m.StoreName target ∨ f.names target = f₀.names target) : AsBefore F m f₀ f := by
  refine asBefore_of_names hwf hwritable hl (fun id' p huuid' hp hne => ?_)
    (fun i hi => h.aftermath.nodes i hi (by simp [hnobody.2])) ?_
  · by_cases hpt : p = target
    · subst hpt
      exact htarget.resolve_left fun hout => hout ⟨id', huuid', hp⟩
    · exact h.aftermath.kept hl huuid' hp (by simp [hnobody.1]) hpt hne
  · exact h.aftermath.record.imp_right fun ⟨i, hi, _, _, hrecord⟩ => ⟨i, hi, hrecord⟩

theorem Intrusion.unchanged (h : Intrusion quiet f₀ f) : Unchanged f₀ f := by
  refine ⟨funext fun p => h.names p (by simp [quiet]), ⟨h.used.ge, fun i _ => h.nodes i (by simp [quiet])⟩⟩

/-! ### Deleting -/

/-- What a deletion has to do with the other items' files. -/
theorem Deleting.kept {payload pending : Option Nat} {W : Bytes → Prop}
    (h : Deleting m id f₀ payload pending W f) (huuid : isUuid id = true) {id' : PyStr} {p : Path}
    (huuid' : isUuid id' = true) (hid : id' ≠ id) (hp : p ∈ m.storeNames id') : f.names p = f₀.names p :=
  h.names p (storeNames_disjoint huuid' huuid hid hp (metadata_mem m id))
    (storeNames_disjoint huuid' huuid hid hp (payload_mem m id))
    (storeNames_disjoint huuid' huuid hid hp (pending_mem m id))

/-- The item is marked as deleted, and its payload is gone. -/
theorem Rewritten.filed {q : Json F} {j : Nat} (h : Rewritten m id f₀ none none (Encodes r') f)
    (hl : Loaded m f₀ q id j r) (hsame : SameItem r r')
    (hstatus : r'.restorationStatus = .str (py "deleted")) : Filed m f id r'.canon := by
  obtain ⟨i, hi, -, -, henc⟩ := h.record
  exact filed_encodes hl hsame hi henc (.inl ⟨hstatus, h.deleting.payload, h.deleting.pending⟩)

theorem Rewritten.orderly {q : Json F} {j : Nat} (h : Rewritten m id f₀ none none (Encodes r') f)
    (ho : Orderly F m f₀) (hl : Loaded m f₀ q id j r) (hsame : SameItem r r')
    (hstatus : r'.restorationStatus = .str (py "deleted")) : Orderly F m f :=
  orderly_of_names h.deleting.wf ho
    (fun _ _ huuid' hid hp => h.deleting.kept (isUuid_of_validate hl.id_ok) huuid' hid hp)
    (fun i hi => h.deleting.keeps.nodes i hi) (h.filed hl hsame hstatus)

/-- The payload has been moved back. -/
theorem Undeleted.asBefore {q : Json F} {j k : Nat} (h : Undeleted m id f₀ (some k) r f)
    (hwf : f₀.WF) (hwritable : ¬ Irrevocable (MarksDeleted r) r) (hl : Loaded m f₀ q id j r)
    (hpayload : f₀.names (m.payloadPath id) = some k)
    (hpending : f₀.names (m.deletePending id) = none) : AsBefore F m f₀ f := by
  have huuid := isUuid_of_validate hl.id_ok
  refine asBefore_of_names hwf hwritable hl (fun id' p huuid' hp hne => ?_) (fun i hi => h.keeps.nodes i hi) ?_
  · by_cases hid : id' = id
    · subst hid
      simp only [Manager.storeNames, List.mem_cons, List.not_mem_nil, or_false] at hp
      rcases hp with rfl | rfl | rfl
      · exact h.payload.trans hpayload.symm
      · exact absurd rfl hne
      · exact h.pending.trans hpending.symm
    · exact h.kept huuid huuid' hid hp
  · refine h.record.imp_right fun hchanged => ?_
    obtain ⟨i, hi, -, -, hrecord⟩ := hchanged
    exact ⟨i, hi, hrecord⟩

end Calls

/-! ## Runs -/

section Runs

variable {m : Manager} {room : Nat} {f₀ f f' : Files Path} {end_ : Ending}

/-- What every call does. -/
structure Does (F : Type) [FloatNum F] (m : Manager) (f : Files Path) (end_ : Ending) (f' : Files Path) :
    Prop where
  orderly : Orderly F m f'
  raises : end_ ≠ .returned → AsBefore F m f f'

theorem does_of_asBefore (ho : Orderly F m f) (hwf : f'.WF) (h : AsBefore F m f f') : Does F m f end_ f' :=
  ⟨h.orderly hwf ho, fun _ => h⟩

theorem does_of_unchanged (ho : Orderly F m f) (h : Unchanged f f') : Does F m f end_ f' :=
  does_of_asBefore ho (h.wf ho.wf) (h.asBefore ho.wf)

theorem does_of_returned (h : Orderly F m f') : Does F m f .returned f' :=
  ⟨h, fun hne => absurd rfl hne⟩

theorem quarantine_does {id : PyStr} {args : QuarantineArgs F} {allowed : Call F → Exc → Prop} {b : Faults}
    {x : Except Exc (QuarantineRecord F)} (ho : Orderly F m f) (hfresh : Fresh f id)
    (hapart : (Operation.quarantine id args).Apart m f)
    (hrun : Steps (machine id allowed) .once (quarantineFile m args) f b (ofResult x) f') :
    Does F m f (endingOf x) f' := by
  by_cases hsource : ∃ source i, m.locate (m.absolute args.path) = some source ∧ f.names source = some i
  · obtain ⟨source, i, hloc, hnamed⟩ := hsource
    have hscene : Scene m source i id f := ⟨hnamed, ho.wf _ _ hnamed, hfresh⟩
    have hsteps := wp_steps (wp_quarantineFile hscene ho.wf hloc) hrun
    cases x with
    | ok r => exact does_of_returned (hsteps.2.2.orderly ho (hapart source hloc))
    | error e => exact does_of_unchanged ho hsteps.2.1
  · have hmissing (source : Path) (hloc : m.locate (m.absolute args.path) = some source) :
        f.names source = none := by
      cases hn : f.names source with
      | none => rfl
      | some i => exact absurd ⟨source, i, hloc, hn⟩ hsource
    have hsteps := wp_steps (wp_quarantineFile_missing hmissing) hrun
    cases x with
    | ok r =>
        obtain ⟨-, -, e, he⟩ := hsteps
        cases he
    | error e =>
        obtain ⟨-, rfl, -⟩ := hsteps
        exact does_of_unchanged ho (.refl _)

theorem restore_does {id : PyStr} {q : Json F} {destination : Option PyStr} {b : Faults}
    {x : Except Exc (QuarantineRecord F)} (ho : Orderly F m f)
    (hapart : (Operation.restore id q destination).Apart m f)
    (hrun : Steps (machine id fun _ _ => True) .once (restoreFile m q destination) f b (ofResult x) f') :
    Does F m f (endingOf x) f' := by
  have hstorm : Storms (stormy quiet id) (machine id fun _ _ => True) Weather.files
      (restoreFile m q destination) ⟨f, false⟩ x f' := storms_of_steps rfl (fun _ => trivial) (.inr rfl) hrun
  have hpost := restoreFile_post ho.wf (quiet_respects m f) hstorm
  cases x with
  | ok r' =>
      obtain ⟨id', j, r, target, n, hl, hlive, htarget, hrestored⟩ := hpost
      exact does_of_returned (hrestored.orderly ho hl hlive (hapart id' j r target hl htarget))
  | error e =>
      rcases hpost with hquiet | ⟨id', j, r, target, hl, -, htarget, -, hundone⟩
      · exact does_of_unchanged ho hquiet.unchanged
      · exact does_of_asBefore ho hundone.aftermath.wf
          (hundone.asBefore ⟨rfl, rfl⟩ ho.wf (ho.loaded hl).2.revocable hl (.inl (hapart id' j r target hl htarget)))

theorem delete_does {id : PyStr} {q : Json F} {b : Faults} {x : Except Exc (Option (QuarantineRecord F))}
    (ho : Orderly F m f) (hrun : Steps (machine id (Operation.delete id q).recovers) .once
      (deletePermanently m q) f b (ofResult x) f') : Does F m f (endingOf x) f' := by
  have hfile (id' : PyStr) (j : Nat) (r : QuarantineRecord F) (k : Nat) (hl : Loaded m f q id' j r)
      (hlive : hasStatus r (py "deleted") = false) (hk : f.names (m.payloadPath id') = some k)
      (_ : f.names (m.deletePending id') = none) : (f.nodes k).kind ≠ .directory := by
    obtain ⟨k', hk', hregular, -⟩ := (ho.loaded hl).2.live hlive
    obtain rfl : k' = k := Option.some.inj (hk'.symm.trans hk)
    rw [hregular]
    decide
  have hsteps := wp_steps (wp_deletePermanently ho.wf hfile) hrun
  rcases x with e | (- | r')
  · rcases hsteps.2 with hu | ⟨id', j, k, r, hl, -, hpayload, hpending, hun | ⟨-, -, e', hrecovers, hne, hne'⟩⟩
    · exact does_of_unchanged ho hu
    · exact does_of_asBefore ho hun.wf (hun.asBefore ho.wf (ho.loaded hl).2.revocable hl hpayload hpending)
    · -- the `fsync` after the deletion has failed, which is left out
      rcases hrecovers rfl e' rfl with hinvalid | hreadOnly
      · exact absurd hinvalid hne
      · exact absurd hreadOnly hne'
  · obtain ⟨rfl, -⟩ := hsteps.2
    exact does_of_unchanged ho (.refl _)
  · obtain ⟨id', j, r, hl, -, -, -, hmarks, hnew⟩ := hsteps.2
    exact does_of_returned (hnew.orderly ho hl hmarks.same hmarks.status)

omit [FloatNum F] in
/-- Without a record too deep the call comes to its end. -/
theorem RunsTo.ends {α : Type} {M : Machine (interface F) (Files Path)} {shallow : Prop} {p : Prog F α}
    (h : RunsTo M shallow p f end_ f') (hshallow : shallow) :
    ∃ b x, Steps M .once p f b (ofResult x) f' ∧ endingOf x = end_ :=
  h.resolve_right fun hover => hover.1 hshallow

theorem Calls.does (h : Calls F m room f end_ f') (ho : Orderly F m f) : Does F m f end_ f' := by
  obtain ⟨op, hapart, hshallow, hruns⟩ := h
  cases op with
  | quarantine id args =>
      obtain ⟨hfresh, hruns⟩ := hruns
      obtain ⟨b, x, hrun, rfl⟩ := hruns.ends hshallow
      exact quarantine_does ho hfresh hapart hrun
  | restore id q destination =>
      obtain ⟨b, x, hrun, rfl⟩ := RunsTo.ends hruns hshallow
      exact restore_does ho hapart hrun
  | delete id q =>
      obtain ⟨b, x, hrun, rfl⟩ := RunsTo.ends hruns hshallow
      exact delete_does ho hrun

theorem orderly_of_calls (h : Relation.ReflTransGen (fun f f' => ∃ e, Calls F m room f e f') f₀ f)
    (ho : Orderly F m f₀) : Orderly F m f := by
  induction h with
  | refl => exact ho
  | tail _ hcall ih =>
      obtain ⟨e, hcall⟩ := hcall
      exact (hcall.does ih).orderly

/-- **The store stays consistent** from the first call on, and a call that raises changes no record and no
    payload. -/
theorem store_consistent (hwf : f₀.WF)
    (hnew : ∀ id, isUuid id = true → f₀.names (m.metadataPath id) = none)
    (hruns : Relation.ReflTransGen (fun f f' => ∃ e, Calls F m room f e f') f₀ f) :
    Consistent F m f ∧ ∀ end_ f', end_ ≠ .returned → Calls F m room f end_ f' → AsBefore F m f f' := by
  have ho : Orderly F m f := orderly_of_calls hruns ⟨hwf, fun id huuid => .inl (hnew id huuid)⟩
  exact ⟨ho.consistent, fun end_ f' hraises hcall => (hcall.does ho).raises hraises⟩

end Runs

/-! ## A file that is deleted -/

theorem malPath_apart : ¬ sampleManager.StoreName malPath := by
  rintro ⟨id, huuid, hp⟩
  have := storeName_length huuid hp
  have hlen : malPath.name.length = 3 := rfl
  omega

theorem sampleDisk_new (id : PyStr) (huuid : isUuid id = true) :
    sampleDisk.files.names (sampleManager.metadataPath id) = none := by
  cases hn : sampleDisk.files.names (sampleManager.metadataPath id) with
  | none => rfl
  | some i =>
      have hmal : sampleManager.metadataPath id = malPath := (sampleDisk_names hn).1
      exact absurd ⟨id, huuid, hmal ▸ metadata_mem sampleManager id⟩ malPath_apart

theorem sample_called : ∃ e, Calls SampleFloat sampleManager 8 sampleDisk.files e storedDisk.files := by
  obtain ⟨r, hsteps⟩ := storedDisk_steps
  refine ⟨.returned, .quarantine sampleId sampleArgs, fun source hsource => ?_,
    ⟨by decide, by decide⟩, sample_scene.fresh, .inl ⟨.once, .ok r, hsteps, rfl⟩⟩
  obtain rfl : malPath = source := Option.some.inj (sample_located.symm.trans hsource)
  exact malPath_apart

/-- The small file is quarantined. -/
theorem sample_consistent : Consistent SampleFloat sampleManager storedDisk.files :=
  (store_consistent sample_wf sampleDisk_new (.single sample_called)).1

/-- The run of a deletion under a plan. -/
private def deleteRun (plan : Option (Nat × Exc)) :
    Option (Faults × Except Exc (Option (QuarantineRecord SampleFloat)) × Disk Path) :=
  drive (sampleScenery.onDisk sampleId) (deletePermanently sampleManager (.str sampleId)) plan storedDisk

/-- Whether a run raises and leaves a record that is not marked as deleted, and no payload. -/
private def losesPayload
    (x : Option (Faults × Except Exc (Option (QuarantineRecord SampleFloat)) × Disk Path)) : Bool :=
  match x with
  | some (_, .error _, d) =>
      (d.files.names (sampleManager.payloadPath sampleId)).isNone &&
      (d.files.names (sampleManager.deletePending sampleId)).isNone &&
      match d.files.names (sampleManager.metadataPath sampleId) with
      | some j =>
          match decodeRecord (F := SampleFloat) sampleManager.str sampleId (d.files.nodes j).bytes with
          | .ok r => !hasStatus r (py "deleted")
          | .error _ => false
      | none => false
  | _ => false

/-- The `fsync` of the quarantine directory fails once the payload has been unlinked: the call raises, and the
    record says that the payload is there. -/
theorem unsynced_deletion_loses_payload :
    (∃ e, Calls SampleFloat sampleManager 8 sampleDisk.files e storedDisk.files) ∧
    ∃ e f, (Operation.delete (F := SampleFloat) sampleId (.str sampleId)).Runs sampleManager 8 (fun _ _ => True)
        storedDisk.files (.raised e) f ∧
      ¬ Consistent SampleFloat sampleManager f ∧
      ¬ AsBefore SampleFloat sampleManager storedDisk.files f := by
  have hloses : losesPayload (deleteRun (some (22, .os (.other 5)))) = true := by decide +kernel
  have hpresent : (storedDisk.files.names (sampleManager.payloadPath sampleId)).isSome = true := by
    decide +kernel
  have huuid : isUuid sampleId = true := by decide
  refine ⟨sample_called, ?_⟩
  generalize hrun : deleteRun (some (22, .os (.other 5))) = x at hloses
  unfold losesPayload at hloses
  split at hloses
  next b e d =>
    simp only [Bool.and_eq_true, Option.isNone_iff_eq_none] at hloses
    obtain ⟨⟨hpayload, hpending⟩, hrecord⟩ := hloses
    refine ⟨e, d.files, .inl ⟨_, .error e, drive_steps _ hrun, rfl⟩, fun hconsistent => ?_, fun hbefore => ?_⟩
    · split at hrecord
      next j hj =>
        obtain ⟨r, hdec, -, hdeleted⟩ := hconsistent sampleId j huuid hj
        rw [hdec] at hrecord
        have hstatus := hdeleted.2 ⟨hpayload, hpending⟩
        simp [hasStatus, hstatus] at hrecord
      next => cases hrecord
    · rw [← hbefore.payload sampleId huuid, hpayload] at hpresent
      cases hpresent
  next => cases hloses

end Elyra.Quarantine
