import Elyra.Audit.Payload
import Elyra.Posix.Returns
import Elyra.Quarantine.Outcome

set_option autoImplicit false
set_option linter.unusedSectionVars false

/-! # The audit record of a quarantine action

`QuarantineManager._audit` at the end of `quarantine_file`, `restore_file` and `delete_permanently`. It
hands the path to the audit logger as the subject, and keeps every exception of the logger to itself.
The logger has its own rules for subjects: a path of more than 128 characters, or with a control
character in it, is refused, and the action stays unaudited (`action_audited_iff`). Nothing is assumed
about the file system here: what is audited has been written as metadata before, and that alone says
that it can be encoded (`StoreCall.gives`). -/

namespace Elyra.Quarantine

open Elyra.Python Elyra.Posix Elyra.Posix.Program
open Elyra.Audit (Interpreter HexDigest Logger Dir Stamp PayloadExc Raised Usable recordPayload
  safePayload recordSize iterRecords validName)

variable {F : Type} [FloatNum F] {α : Type}

/-! ## Auditing -/

/-- `_audit_status`; `"DEGRADED_AUDIT_WRITE_FAILED"` with the exception that `_audit_error` describes. -/
inductive AuditStatus where
  | healthy
  | degraded (x : PayloadExc)
  deriving DecidableEq, Repr

/-- The audit logger of a manager, its directory, and the manager's status. -/
structure Auditing where
  log : Logger
  dir : Dir
  status : AuditStatus

/-- The subject of an audit record; the logger refuses an empty one as it refuses one that is no
    string. -/
def subjectOf : Json F → PyStr
  | .str s => s
  | _ => []

/-- `_audit`. -/
def audit (I : Interpreter F) (H : HexDigest) (stamp : Except PyExc (Stamp F)) (a : Auditing)
    (target : Json F) (details : Mapping F) : Auditing :=
  match recordPayload I H a.log a.dir stamp (py "quarantine") (subjectOf target)
      (ofJsonMembers details) with
  | (.ok _, log, dir) => ⟨log, dir, .healthy⟩
  | (.error x, log, dir) => ⟨log, dir, .degraded x⟩

/-- The calls that change the store. -/
inductive StoreCall (F : Type) where
  | quarantine (args : QuarantineArgs F)
  | restore (quarantineId : Json F) (destination : Option PyStr)
  | delete (quarantineId : Json F)

/-- A call up to `_audit`, and what it hands to it: the path and the details. Deleting an item that was
    deleted before changes nothing and is not audited. -/
def StoreCall.program (m : Manager) : StoreCall F → Prog F (Option (Json F × Mapping F))
  | .quarantine args => do
      let r ← quarantineFile m args
      return some (r.originalPath, r.toDict)
  | .restore quarantineId destination => do
      let r ← restoreFile m quarantineId destination
      return some (r.restoredPath, (py "action", .str (py "restore")) :: r.toDict)
  | .delete quarantineId => do
      let deleted ← deletePermanently m quarantineId
      return deleted.map fun r => (r.originalPath, (py "action", .str (py "delete")) :: r.toDict)

/-! ## What has been recorded -/

/-- The record is one whose metadata file has been written. -/
structure OnFile (r : QuarantineRecord F) : Prop where
  valid : validateRecord r = .ok ()
  encoded : ∃ data, encodeRecord r = .ok data

theorem gives_lift (x : Except Exc α) : Gives (fun a => x = .ok a) (lift x : Prog F α) := by
  cases x with
  | error e => trivial
  | ok a => exact rfl

theorem gives_writeMetadataAtomic (m : Manager) (r : QuarantineRecord F) :
    Gives (fun _ => OnFile r) (writeMetadataAtomic m r : Prog F Unit) := by
  refine (gives_lift (validateRecord r)).bind fun _ hvalid => ?_
  refine gives_then fun id => ?_
  refine gives_then fun _ => ?_
  refine (gives_lift (encodeRecord r)).bind fun data hdata => ?_
  exact (gives_any _).mono fun _ _ => ⟨hvalid, data, hdata⟩

theorem gives_tracking {P : α → Prop} {ℓ : Locals} {p : Prog F α} (h : Gives P p) :
    Gives P (tracking ℓ p) := h.orElse fun _ => trivial

theorem gives_trackingRestore {P : α → Prop} {ℓ : RestoreLocals F} {p : Prog F α} (h : Gives P p) :
    Gives P (trackingRestore ℓ p) := h.orElse fun _ => trivial

/-- `quarantine_file` returns a record that it has written. -/
theorem gives_quarantineFile (m : Manager) (args : QuarantineArgs F) :
    Gives OnFile (quarantineFile m args) := by
  refine gives_then fun source => gives_then fun safe => Gives.orElse ?_ ?_
  · refine gives_then fun (fd, opened, hash) => gives_then fun id => gives_then fun held => ?_
    refine gives_then fun token => gives_then fun _ => gives_then fun record => ?_
    refine Gives.bind (P := fun _ => OnFile record) (gives_tracking ?_) fun _ hwritten =>
      gives_then fun _ => hwritten
    refine (gives_writeMetadataAtomic m record).bind fun _ hwritten => ?_
    exact gives_then fun _ => hwritten
  · rintro ⟨e, ℓ⟩
    refine gives_then (p := rollbackQuarantine m source ℓ) fun incomplete => ?_
    cases incomplete <;> cases e <;> trivial

/-- `restore_file` returns a record that it has written, with the path of its target in it. -/
theorem gives_restoreFile (m : Manager) (quarantineId : Json F) (destination : Option PyStr) :
    Gives (fun r => OnFile r ∧ ∃ target : Path, r.restoredPath = .str target.text)
      (restoreFile m quarantineId destination) := by
  refine gives_then fun r => gives_then fun _ => gives_then fun id => gives_then fun found => ?_
  refine gives_then fun _ => Gives.orElse ?_ ?_
  · refine gives_then fun payloadFd => gives_then fun target => gives_then fun fd => ?_
    refine gives_then fun opened => gives_then fun (mode, owned) => gives_then fun filled => ?_
    refine gives_then fun now => gives_then fun nowUtc => ?_
    refine Gives.bind (P := fun _ => OnFile _) (gives_trackingRestore ?_) fun _ hwritten =>
      ⟨hwritten, target, rfl⟩
    exact (gives_writeMetadataAtomic m _).bind fun _ hwritten =>
      (gives_any _).mono fun _ _ => hwritten
  · rintro ⟨e, ℓ⟩
    refine gives_then (p := discardTarget m ℓ) fun targetError => ?_
    refine gives_then fun metadataError => ?_
    cases targetError <;> cases metadataError <;> cases e <;> trivial

/-- `delete_permanently` returns a record that it has written, or none. -/
theorem gives_deletePermanently (m : Manager) (quarantineId : Json F) :
    Gives (fun deleted => ∀ r ∈ deleted, OnFile r) (deletePermanently m quarantineId) := by
  refine gives_then fun r => ?_
  split
  · intro r hr
    cases hr
  · refine gives_then fun id => gives_then fun found => gives_then fun _ => gives_then fun _ => ?_
    refine Gives.bind (P := OnFile) (Gives.orElse ?_ fun e => ?_) fun r hr r' hr' => ?_
    · refine gives_then fun now => gives_then fun nowUtc => ?_
      refine (gives_writeMetadataAtomic m _).bind fun _ hwritten => ?_
      exact gives_then fun _ => gives_then fun _ => hwritten
    · refine gives_then (p := Program.orElse _ _) fun _ => ?_
      cases e <;> trivial
    · obtain rfl := Option.some.inj hr'
      exact hr

/-! ## What is handed over -/

/-- A target and details that the logger can encode. -/
structure Handed (target : Json F) (details : Mapping F) : Prop where
  target : ∃ path, target = .str path ∧ 47 ∈ path ∧ Utf8 path
  keys : (keys details).Nodup
  numbers : (Json.obj details).encodable true = true
  texts : (Json.obj details).Utf8
  id : ∃ q, lookup (py "quarantine_id") details = some (.str q)

theorem OnFile.encodable {r : QuarantineRecord F} (h : OnFile r) :
    (Json.obj r.toDict).encodable true = true := by
  obtain ⟨-, -, -, -, -, -, -, -, henc⟩ := validateRecord_ok_iff.1 h.valid
  exact encodable_mono _ henc

theorem OnFile.utf8 {r : QuarantineRecord F} (h : OnFile r) : (Json.obj r.toDict).Utf8 := by
  obtain ⟨data, henc⟩ := h.encoded
  unfold encodeRecord at henc
  split at henc
  · cases henc
  · next text htext =>
    split at henc
    · cases henc
    · next bytes hdata =>
      rw [(encodable_of_dumps htext).2] at hdata
      have hsorted : (Json.obj r.toDict).sortKeys.Utf8 :=
        (encodeUtf8_print_iff (.indented 2) _ 0).1 ⟨bytes, hdata⟩
      exact Audit.utf8_sortKeys.1 hsorted

theorem OnFile.id {r : QuarantineRecord F} (h : OnFile r) : ∃ q, r.quarantineId = .str q := by
  obtain ⟨-, ⟨id, hid⟩, -⟩ := validateRecord_ok_iff.1 h.valid
  unfold validateQuarantineId at hid
  split at hid
  · next q hq => exact ⟨q, hq⟩
  · cases hid

theorem OnFile.originalPath {r : QuarantineRecord F} (h : OnFile r) :
    ∃ path, r.originalPath = .str path ∧ 47 ∈ path := by
  obtain ⟨-, -, hpath, -⟩ := validateRecord_ok_iff.1 h.valid
  unfold checkOriginalPath at hpath
  split at hpath
  · next s hs =>
    split at hpath
    · next habs =>
      refine ⟨s, hs, ?_⟩
      exact List.mem_of_mem_head? (by simpa [isAbsolute] using habs)
    · cases hpath
  · cases hpath

theorem Path.slash_mem (p : Path) : 47 ∈ p.text := by
  unfold Path.text
  split <;> simp

/-- The path of a written record is the text of one of its fields. -/
theorem OnFile.handed {r : QuarantineRecord F} (h : OnFile r) {path : PyStr}
    (hslash : 47 ∈ path) (hfield : ∃ k, (k, Json.str path) ∈ r.toDict) :
    Handed (.str path) r.toDict ∧
      ∀ action : PyStr, Utf8 action →
        Handed (.str path) ((py "action", .str action) :: r.toDict) := by
  obtain ⟨k, hk⟩ := hfield
  obtain ⟨q, hq⟩ := h.id
  have hutf : Utf8 path :=
    utf8_str path |>.1 ((Audit.fits_members.1 ⟨h.utf8, h.encodable⟩) _ hk).2.1
  have hid : lookup (py "quarantine_id") r.toDict = some (.str q) := by
    rw [← hq]
    rfl
  refine ⟨⟨⟨path, rfl, hslash, hutf⟩, r.toDict_nodup, h.encodable, h.utf8, q, hid⟩, ?_⟩
  intro action haction
  refine ⟨⟨path, rfl, hslash, hutf⟩, ?_, ?_, ?_, q, hid⟩
  · have hkeys : keys ((py "action", Json.str action) :: r.toDict) =
        py "action" :: QuarantineRecord.fieldNames := rfl
    rw [hkeys]
    decide
  · exact h.encodable
  · exact (utf8_obj_cons _ _ _).2 ⟨by decide, (utf8_str _).2 haction, h.utf8⟩

/-- **What a call hands to `_audit` can be encoded**, whatever the file system answers. -/
theorem StoreCall.gives (m : Manager) (call : StoreCall F) :
    Gives (fun out => ∀ target details, out = some (target, details) → Handed target details)
      (call.program m) := by
  cases call with
  | quarantine args =>
      refine (gives_quarantineFile m args).bind fun r hr => ?_
      rintro _ _ ⟨⟩
      obtain ⟨path, hpath, hslash⟩ := hr.originalPath
      rw [hpath]
      exact (hr.handed hslash ⟨py "original_path", by simp [QuarantineRecord.toDict, hpath]⟩).1
  | restore quarantineId destination =>
      refine (gives_restoreFile m quarantineId destination).bind fun r hgiven => ?_
      obtain ⟨hr, target, htarget⟩ := hgiven
      rintro _ _ ⟨⟩
      rw [htarget]
      exact (hr.handed target.slash_mem
        ⟨py "restored_path", by simp [QuarantineRecord.toDict, htarget]⟩).2 _ (by decide)
  | delete quarantineId =>
      refine (gives_deletePermanently m quarantineId).bind fun deleted hdeleted => ?_
      intro target details hout
      obtain ⟨r, hr, hout⟩ := Option.map_eq_some_iff.1 hout
      obtain ⟨rfl, rfl⟩ := Prod.mk.inj hout
      obtain ⟨path, hpath, hslash⟩ := (hdeleted r hr).originalPath
      rw [hpath]
      exact ((hdeleted r hr).handed hslash
        ⟨py "original_path", by simp [QuarantineRecord.toDict, hpath]⟩).2 _ (by decide)

/-! ## When an action is audited -/

/-- One record is added to those that are left in the log, with the id of the item in it. -/
structure Audited (a a' : Auditing) (details : Mapping F) : Prop where
  status : a'.status = .healthy
  record : ∃ (lost kept : List (Mapping F)) (entry payload : Mapping F) (q : PyStr),
    iterRecords F a.log.config.fileName a.dir none = .ok (lost ++ kept) ∧
    iterRecords F a.log.config.fileName a'.dir none = .ok (kept ++ [entry]) ∧
    lookup (py "source") entry = some (.str (py "quarantine")) ∧
    lookup (py "payload") entry = some (.obj payload) ∧
    lookup (py "quarantine_id") details = some (.str q) ∧
    lookup (py "quarantine_id") payload = some (.str q)

/-- The logger's rules: for the subject, and for how large, deep and late a record may be. -/
structure Admitted (I : Interpreter F) (a : Auditing) (stamp : Stamp F) (sequence : Int)
    (target : Json F) (details : Mapping F) : Prop where
  length : (subjectOf target).length ≤ 128
  control : ∀ c ∈ subjectOf target, 32 ≤ c
  nests : I.nests (.dict (ofJsonMembers details)) = true
  size : ∀ members, safePayload I (ofJsonMembers details) = .ok members →
    (recordSize stamp sequence ⟨py "quarantine", subjectOf target, members.1, members.2⟩ : Int) ≤
      a.log.config.maxRecordBytes
  sequence : printable (sequence + 1) = true

theorem strip_ne_nil_of_mem {c : Nat} {s : PyStr} (hmem : c ∈ s) (hc : isSpace c = false) :
    strip s ≠ [] := by
  intro hnil
  rw [strip, List.reverse_eq_nil_iff, List.dropWhile_eq_nil_iff] at hnil
  have hspace : isSpace c = true := by
    rw [← List.takeWhile_append_dropWhile (p := isSpace) (l := s), List.mem_append] at hmem
    rcases hmem with htake | hdrop
    · exact List.mem_takeWhile_imp htake
    · exact hnil c (List.mem_reverse.2 hdrop)
  exact absurd (hc.symm.trans hspace) (by decide)

/-- A path is not blank. -/
theorem validName_path {path : PyStr} (hslash : 47 ∈ path) :
    validName path = true ↔ path.length ≤ 128 ∧ ∀ c ∈ path, 32 ≤ c := by
  have hstrip : strip path ≠ [] := strip_ne_nil_of_mem hslash (by decide)
  simp [validName, hstrip]

variable {I : Interpreter F} {H : HexDigest} {a : Auditing} {stamp : Stamp F} {sequence : Int}
  {target : Json F} {details : Mapping F}

/-- What is handed over can be encoded, so what is left to ask are the logger's other rules. -/
theorem Handed.storable_iff (h : Handed target details) :
    ((validName (py "quarantine") = true ∧ validName (subjectOf target) = true) ∧
      Audit.Storable I sequence (py "quarantine") (subjectOf target) (ofJsonMembers details) ∧
      ∀ members, safePayload I (ofJsonMembers details) = .ok members →
        (recordSize stamp sequence ⟨py "quarantine", subjectOf target, members.1, members.2⟩ : Int) ≤
          a.log.config.maxRecordBytes) ↔ Admitted I a stamp sequence target details := by
  obtain ⟨path, rfl, hslash, hutf⟩ := h.target
  rw [show subjectOf (Json.str path : Json F) = path from rfl, validName_path hslash]
  constructor
  · rintro ⟨⟨-, hlength, hcontrol⟩, hstorable, hsize⟩
    exact ⟨hlength, hcontrol, hstorable.nests, hsize, hstorable.sequence⟩
  · intro hadmitted
    refine ⟨⟨by decide, hadmitted.length, hadmitted.control⟩, ?_, hadmitted.size⟩
    exact {
      nests := hadmitted.nests
      converts := Audit.converts_ofJson (.obj details)
      fits := Audit.fits_ofJson (.obj details) ⟨h.texts, h.numbers⟩
      source := by decide
      subject := hutf
      sequence := hadmitted.sequence }

theorem audited_iff (hlog : Usable F a.log a.dir sequence) (hstamp : stamp.Sound)
    (h : Handed target details) :
    Audited a (audit I H (.ok stamp) a target details) details ↔
      Admitted I a stamp sequence target details := by
  rw [← h.storable_iff, ← Audit.recordPayload_isOk (H := H) hlog hstamp]
  constructor
  · intro haudited
    have hstatus := haudited.status
    unfold audit at hstatus
    split at hstatus
    next hash log dir hrun => exact ⟨hash, log, dir, hrun⟩
    next => cases hstatus
  · rintro ⟨hash, log, dir, hrun⟩
    obtain ⟨members, lost, kept, entry, hsafe, hbefore, hafter, hsource, -, hpayload⟩ :=
      Audit.recordPayload_appends hlog hrun
    obtain ⟨q, hq⟩ := h.id
    have haudit : audit I H (.ok stamp) a target details = ⟨log, dir, .healthy⟩ := by
      unfold audit
      rw [hrun]
    rw [haudit]
    exact ⟨rfl, lost, kept, entry, members.1, q, hbefore, hafter, hsource, hpayload, hq,
      Audit.safePayload_lookup hsafe h.keys hq⟩

/-- **An action that has changed the store is audited exactly if the logger admits its path and its
    record**, whatever the file system has answered in the course of it. -/
theorem action_audited_iff {σ : Type} {M : Machine (interface F) σ} {b : Faults} {m : Manager}
    {call : StoreCall F} {s s' : σ} (hrun : Ends M b (call.program m) s (.ok (some (target, details))) s')
    (hlog : Usable F a.log a.dir sequence) (hstamp : stamp.Sound) :
    Audited a (audit I H (.ok stamp) a target details) details ↔
      Admitted I a stamp sequence target details :=
  audited_iff hlog hstamp ((call.gives m).ends hrun target details rfl)

/-! ## Files with two names -/

/-- The file of a name, alone on the disk. -/
private def aloneOn (name : PyStr) : Disk Path where
  entries := [(⟨py "/home", name⟩, 0)]
  nodes := sampleDisk.nodes

private def aloneManager (name : PyStr) : Manager where
  quarantineDir := py "/q"
  metadataDir := py "/m"
  locate := fun text => if text = py "/home/" ++ name then some ⟨py "/home", name⟩ else none
  expanduser := id
  cwd := py "/"
  guessType := fun _ => none
  str := fun _ => []

private def aloneCall (name : PyStr) : StoreCall SampleFloat :=
  .quarantine { sampleArgs with path := py "/home/" ++ name }

/-- The run that no failure hits, and whether it hands this path to `_audit`. -/
private def aloneRun (name : PyStr) :
    Option (Faults × Except Exc (Option (Json SampleFloat × Mapping SampleFloat)) × Disk Path) :=
  drive (sampleScenery.onDisk sampleId) ((aloneCall name).program (aloneManager name)) none (aloneOn name)

private def handsOver (path : PyStr)
    (x : Option (Faults × Except Exc (Option (Json SampleFloat × Mapping SampleFloat)) × Disk Path)) : Bool :=
  match x with
  | some (.never, .ok (some (target, _)), _) => decide (subjectOf target = path)
  | _ => false

private theorem alone_ends {name path : PyStr} (h : handsOver path (aloneRun name) = true) :
    ∃ target details d, subjectOf target = path ∧
      Ends (machine sampleId fun _ _ => True) .never ((aloneCall name).program (aloneManager name))
        (aloneOn name).files (.ok (some (target, details))) (Disk.files d) := by
  generalize hx : aloneRun name = x at h
  unfold handsOver at h
  split at h
  next target details d =>
    exact ⟨target, details, d, of_decide_eq_true h, .never, drive_steps _ hx⟩
  next => cases h

private def freshAuditing : Auditing where
  log := Audit.freshLogger
  dir := {}
  status := .healthy

/-- For a small file it is a question of the size of the record. -/
theorem mal_audited_iff : ∃ target details d,
    Ends (machine sampleId fun _ _ => True) .never ((aloneCall (py "mal")).program (aloneManager (py "mal")))
      (aloneOn (py "mal")).files (.ok (some (target, details))) (Disk.files d) ∧
    (Audited freshAuditing (audit Audit.plainInterpreter Audit.sha256Digest (.ok Audit.sampleStamp)
      freshAuditing target details) details ↔
        Admitted Audit.plainInterpreter freshAuditing Audit.sampleStamp 0 target details) := by
  obtain ⟨target, details, d, -, hends⟩ :=
    @alone_ends (py "mal") (py "/home/mal") (by decide +kernel)
  exact ⟨target, details, d, hends,
    action_audited_iff hends Audit.freshLogger_usable Audit.sampleStamp_sound⟩

/-- A line feed in the name of a file is enough: the file is quarantined, and no record says so. -/
theorem line_feed_not_audited : ∃ target details d,
    Ends (machine sampleId fun _ _ => True) .never
      ((aloneCall [109, 10]).program (aloneManager [109, 10])) (aloneOn [109, 10]).files
      (.ok (some (target, details))) (Disk.files d) ∧
    ¬ Audited freshAuditing (audit Audit.plainInterpreter Audit.sha256Digest (.ok Audit.sampleStamp)
      freshAuditing target details) details := by
  obtain ⟨target, details, d, hpath, hends⟩ :=
    @alone_ends [109, 10] (py "/home/" ++ [109, 10]) (by decide +kernel)
  have hhanded := ((aloneCall [109, 10]).gives (aloneManager [109, 10])).ends hends target details rfl
  refine ⟨target, details, d, hends, fun haudited => ?_⟩
  have hadmitted := (audited_iff Audit.freshLogger_usable Audit.sampleStamp_sound hhanded).1 haudited
  exact absurd (hadmitted.control 10 (by rw [hpath]; decide)) (by decide)

end Elyra.Quarantine
