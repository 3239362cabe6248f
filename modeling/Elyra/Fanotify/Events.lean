import Elyra.Fanotify.Controller
import Elyra.Python.Struct

set_option autoImplicit false

/-! # Reading events

`FanotifyInterface.parse_events`, on a little-endian machine. What the kernel has written is a sequence
of records, each as long as it says. The parser goes on by that length, repaired where the record is
malformed; the events tile the buffer (`Tiles`), and where every record is well formed they are the
records. -/

namespace Elyra.Fanotify

open Elyra.Python

variable {T : Type}

/-- `FAN_EVENT_METADATA_LEN` -/
def fanEventMetadataLen : Nat := 24

/-- `FANOTIFY_METADATA_VERSION` -/
def fanotifyMetadataVersion : Nat := 3

/-- What `_METADATA.unpack_from` returns. -/
structure EventMetadata where
  eventLen : Nat
  version : Nat
  reserved : Nat
  metadataLen : Nat
  mask : Nat
  fd : Int
  pid : Int
  deriving DecidableEq, Repr

/-- `_METADATA.unpack_from(data, offset)` for `"@I B B H Q i i"`; `none` is the `struct.error`. -/
def unpackMetadata (data : Bytes) (offset : Nat) : Option EventMetadata := do
  let eventLen ← unpackAt 4 data offset
  let version ← unpackAt 1 data (offset + 4)
  let reserved ← unpackAt 1 data (offset + 5)
  let metadataLen ← unpackAt 2 data (offset + 6)
  let mask ← unpackAt 8 data (offset + 8)
  let fd ← unpackAt 4 data (offset + 16)
  let pid ← unpackAt 4 data (offset + 20)
  return ⟨eventLen, version, reserved, metadataLen, mask, toSigned 4 fd, toSigned 4 pid⟩

/-- A `FanotifyEvent` with the fields that only say how it was read. -/
structure ParsedEvent (T : Type) extends FanotifyEvent T where
  eventLen : Nat
  metadataLen : Nat
  version : Nat

/-- The calls that are made for the event at an offset of the buffer. -/
structure ParseCalls (T : Type) where
  /-- `os.readlink`; `none` is an `OSError`. -/
  readlink : Nat → Option PyStr
  /-- `time.monotonic` -/
  now : Nat → T

/-- The length the parser goes on by and the error of the record, `remaining` octets before the end of
    the buffer. -/
def checkMetadata (m : EventMetadata) (remaining : Nat) : Nat × Option PyStr :=
  let checked :=
    if m.eventLen < fanEventMetadataLen ∨ m.metadataLen < fanEventMetadataLen then
      (fanEventMetadataLen, some (py "INVALID_METADATA_LENGTH"))
    else if remaining < m.eventLen then (remaining, some (py "TRUNCATED_EVENT"))
    else (m.eventLen, none)
  if m.version ≠ fanotifyMetadataVersion then
    (checked.1, some (py "UNSUPPORTED_METADATA_VERSION"))
  else checked

/-- `parse_error` after the path of the descriptor has been read. -/
def pathError (m : EventMetadata) (path parseError : Option PyStr) : Option PyStr :=
  if 0 ≤ m.fd ∧ path = none then some (parseError.getD (py "EVENT_PATH_UNAVAILABLE")) else parseError

/-- The event of a record. -/
def eventOf (calls : ParseCalls T) (data : Bytes) (offset : Nat) (m : EventMetadata) : ParsedEvent T :=
  let checked := checkMetadata m (data.length - offset)
  let path := if 0 ≤ m.fd then calls.readlink offset else none
  { fd := m.fd
    pid := m.pid
    path := path
    mask := m.mask
    receivedMonotonic := calls.now offset
    parseError := pathError m path checked.2
    eventLen := checked.1
    metadataLen := m.metadataLen
    version := m.version }

/-- The loop of `parse_events`, from an offset on. -/
def parseFrom (calls : ParseCalls T) (data : Bytes) (offset : Nat) : Option (List (ParsedEvent T)) :=
  if offset + fanEventMetadataLen ≤ data.length then
    match unpackMetadata data offset with
    | none => none
    | some m =>
        let event := eventOf calls data offset m
        if event.eventLen = 0 then some [event]
        else (parseFrom calls data (offset + event.eventLen)).map (event :: ·)
  else some []
termination_by data.length - offset
decreasing_by
  have hlen : fanEventMetadataLen = 24 := rfl
  show data.length - (offset + event.eventLen) < data.length - offset
  omega

/-- `parse_events` -/
def parseEvents (calls : ParseCalls T) (data : Bytes) : Option (List (ParsedEvent T)) :=
  parseFrom calls data 0

/-! ## Any buffer -/

variable {calls : ParseCalls T} {data : Bytes} {offset : Nat} {m : EventMetadata}

theorem unpackMetadata_of_le (h : offset + fanEventMetadataLen ≤ data.length) :
    ∃ m, unpackMetadata data offset = some m := by
  have hlen : fanEventMetadataLen = 24 := rfl
  have hread : ∀ {size start}, start + size ≤ data.length →
      unpackAt size data start = some (ofLE (slice data start size)) := unpackAt_of_le
  unfold unpackMetadata
  rw [hread (by omega), hread (by omega), hread (by omega), hread (by omega), hread (by omega),
    hread (by omega), hread (by omega)]
  exact ⟨_, rfl⟩

/-- The record at the offset declares a length below that of the header, does not end in the buffer, or
    is of another version. -/
def Malformed (data : Bytes) (offset : Nat) (m : EventMetadata) : Prop :=
  m.eventLen < fanEventMetadataLen ∨ m.metadataLen < fanEventMetadataLen ∨
    data.length < offset + m.eventLen ∨ m.version ≠ fanotifyMetadataVersion

/-- The event says what the record at the offset declares, and is flagged if that is malformed. -/
structure Reports (data : Bytes) (offset : Nat) (m : EventMetadata) (event : ParsedEvent T) : Prop where
  mask : event.mask = m.mask
  fd : event.fd = m.fd
  pid : event.pid = m.pid
  metadataLen : event.metadataLen = m.metadataLen
  version : event.version = m.version
  header : fanEventMetadataLen ≤ event.eventLen
  inside : offset + event.eventLen ≤ data.length
  flagged : Malformed data offset m → event.parseError ≠ none
  wellFormed : ¬ Malformed data offset m → event.eventLen = m.eventLen ∧
    (event.parseError = none ∨ event.parseError = some (py "EVENT_PATH_UNAVAILABLE"))

/-- The events from an offset on: each reports the record at which the one before it ends, and what
    remains is shorter than a header. -/
inductive Tiles (data : Bytes) : Nat → List (ParsedEvent T) → Prop where
  | rest {offset : Nat} : offset ≤ data.length → data.length < offset + fanEventMetadataLen →
      Tiles data offset []
  | event {offset : Nat} {m : EventMetadata} {event : ParsedEvent T} {events : List (ParsedEvent T)} :
      unpackMetadata data offset = some m → Reports data offset m event →
      Tiles data (offset + event.eventLen) events → Tiles data offset (event :: events)

theorem checkMetadata_spec (h : offset + fanEventMetadataLen ≤ data.length) :
    let checked := checkMetadata m (data.length - offset)
    fanEventMetadataLen ≤ checked.1 ∧ offset + checked.1 ≤ data.length ∧
      (Malformed data offset m → checked.2 ≠ none) ∧
      (¬ Malformed data offset m → checked.1 = m.eventLen ∧ checked.2 = none) := by
  have hremaining : data.length - offset < m.eventLen ↔ data.length < offset + m.eventLen := by omega
  unfold checkMetadata Malformed
  simp only [hremaining]
  split_ifs with hversion hlength htruncated hlength htruncated
  · refine ⟨le_rfl, h, fun _ => nofun, fun hwell => absurd hversion ?_⟩
    tauto
  · refine ⟨by omega, by omega, fun _ => nofun, fun hwell => absurd hversion ?_⟩
    tauto
  · refine ⟨by omega, by omega, fun _ => nofun, fun hwell => absurd hversion ?_⟩
    tauto
  · exact ⟨le_rfl, h, fun _ => nofun, fun hwell => by tauto⟩
  · exact ⟨by omega, by omega, fun _ => nofun, fun hwell => by tauto⟩
  · exact ⟨by omega, by omega, fun hmalformed => by tauto, fun _ => ⟨rfl, rfl⟩⟩

theorem pathError_ne_none {path parseError : Option PyStr} (h : parseError ≠ none) :
    pathError m path parseError ≠ none := by
  unfold pathError
  split
  · exact nofun
  · exact h

theorem pathError_none (m : EventMetadata) (path : Option PyStr) :
    pathError m path none = none ∨ pathError m path none = some (py "EVENT_PATH_UNAVAILABLE") := by
  unfold pathError
  split
  · exact .inr rfl
  · exact .inl rfl

theorem eventOf_reports (h : offset + fanEventMetadataLen ≤ data.length) :
    Reports data offset m (eventOf calls data offset m) := by
  obtain ⟨hheader, hinside, hflagged, hwell⟩ := checkMetadata_spec (m := m) h
  refine ⟨rfl, rfl, rfl, rfl, rfl, hheader, hinside, fun hmalformed => ?_, fun hnot => ?_⟩
  · exact pathError_ne_none (hflagged hmalformed)
  · obtain ⟨hlength, herror⟩ := hwell hnot
    refine ⟨hlength, ?_⟩
    simp only [eventOf, herror]
    exact pathError_none m _

theorem parseFrom_tiles (calls : ParseCalls T) (h : offset ≤ data.length) :
    ∃ events, parseFrom calls data offset = some events ∧ Tiles data offset events := by
  fun_induction parseFrom calls data offset with
  | case1 offset hheader hunpack =>
      obtain ⟨m, hm⟩ := unpackMetadata_of_le hheader
      cases hunpack.symm.trans hm
  | case2 offset hheader m hunpack event hzero =>
      have hreports : Reports data offset m event := eventOf_reports hheader
      have hlen := hreports.header
      rw [hzero] at hlen
      exact absurd hlen (by decide)
  | case3 offset hheader m hunpack event hpos ih =>
      have hreports : Reports data offset m event := eventOf_reports hheader
      obtain ⟨events, hparse, htiles⟩ := ih hreports.inside
      exact ⟨event :: events, by rw [hparse]; rfl, .event hunpack hreports htiles⟩
  | case4 offset hheader => exact ⟨[], rfl, .rest h (not_le.1 hheader)⟩

theorem Tiles.lengths {events : List (ParsedEvent T)} (h : Tiles data offset events) :
    ∃ rest < fanEventMetadataLen, offset + (events.map ParsedEvent.eventLen).sum + rest = data.length := by
  induction h with
  | @rest offset hinside hshort =>
      exact ⟨data.length - offset, by omega, by simp only [List.map_nil, List.sum_nil]; omega⟩
  | event _ _ _ ih =>
      obtain ⟨rest, hrest, hsum⟩ := ih
      exact ⟨rest, hrest, by rw [List.map_cons, List.sum_cons]; omega⟩

theorem Tiles.header {events : List (ParsedEvent T)} (h : Tiles data offset events) :
    ∀ event ∈ events, fanEventMetadataLen ≤ event.eventLen := by
  induction h with
  | rest => exact fun _ h => nomatch h
  | event _ hreports _ ih => exact List.forall_mem_cons.2 ⟨hreports.header, ih⟩

/-! ## Records of the kernel -/

/-- A well-formed record, with the octets between its metadata and its end. -/
structure EventRecord where
  reserved : Nat
  metadataLen : Nat
  mask : Nat
  fd : Int
  pid : Int
  info : Bytes
  reserved_lt : reserved < 256 ^ 1
  metadataLen_ge : fanEventMetadataLen ≤ metadataLen
  metadataLen_lt : metadataLen < 256 ^ 2
  mask_lt : mask < 256 ^ 8
  fd_range : -(256 ^ 4 : Int) ≤ 2 * fd ∧ 2 * fd < 256 ^ 4
  pid_range : -(256 ^ 4 : Int) ≤ 2 * pid ∧ 2 * pid < 256 ^ 4
  length_lt : fanEventMetadataLen + info.length < 256 ^ 4

namespace EventRecord

def eventLen (r : EventRecord) : Nat := fanEventMetadataLen + r.info.length

def metadata (r : EventRecord) : EventMetadata :=
  ⟨r.eventLen, fanotifyMetadataVersion, r.reserved, r.metadataLen, r.mask, r.fd, r.pid⟩

/-- The record as the kernel writes it. -/
def encode (r : EventRecord) : Bytes :=
  toLE 4 r.eventLen ++ (toLE 1 fanotifyMetadataVersion ++ (toLE 1 r.reserved ++
    (toLE 2 r.metadataLen ++ (toLE 8 r.mask ++ (toLE 4 (ofSigned 4 r.fd) ++
      (toLE 4 (ofSigned 4 r.pid) ++ r.info))))))

theorem encode_length (r : EventRecord) : r.encode.length = r.eventLen := by
  simp only [encode, eventLen, fanEventMetadataLen, List.length_append, toLE_length]
  omega

/-- A record is read back anywhere in a buffer. -/
theorem unpackMetadata_encode (r : EventRecord) (before after : Bytes) :
    unpackMetadata (before ++ (r.encode ++ after)) before.length = some r.metadata := by
  have hread : ∀ {size n : Nat} (pre post : Bytes), n < 256 ^ size →
      r.encode ++ after = pre ++ (toLE size n ++ post) →
      unpackAt size (before ++ (r.encode ++ after)) (before.length + pre.length) = some n := by
    intro size n pre post hn hsplit
    rw [hsplit, ← List.append_assoc]
    exact unpackAt_toLE _ _ hn (List.length_append ..).symm
  have hsplit : r.encode ++ after = toLE 4 r.eventLen ++ (toLE 1 fanotifyMetadataVersion ++
      (toLE 1 r.reserved ++ (toLE 2 r.metadataLen ++ (toLE 8 r.mask ++
        (toLE 4 (ofSigned 4 r.fd) ++ (toLE 4 (ofSigned 4 r.pid) ++ (r.info ++ after))))))) := by
    simp only [encode, List.append_assoc]
  have hlen := hread [] _ r.length_lt hsplit
  have hthree : fanotifyMetadataVersion < 256 ^ 1 := by decide
  have hversion := hread (toLE 4 r.eventLen) _ hthree
    (by simpa only [List.append_assoc] using hsplit)
  have hreserved := hread (toLE 4 r.eventLen ++ toLE 1 fanotifyMetadataVersion) _ r.reserved_lt
    (by simpa only [List.append_assoc] using hsplit)
  have hmetadata := hread (toLE 4 r.eventLen ++ toLE 1 fanotifyMetadataVersion ++ toLE 1 r.reserved)
    _ r.metadataLen_lt (by simpa only [List.append_assoc] using hsplit)
  have hmask := hread (toLE 4 r.eventLen ++ toLE 1 fanotifyMetadataVersion ++ toLE 1 r.reserved ++
    toLE 2 r.metadataLen) _ r.mask_lt (by simpa only [List.append_assoc] using hsplit)
  have hfd := hread (toLE 4 r.eventLen ++ toLE 1 fanotifyMetadataVersion ++ toLE 1 r.reserved ++
    toLE 2 r.metadataLen ++ toLE 8 r.mask) _ (ofSigned_lt 4 r.fd)
    (by simpa only [List.append_assoc] using hsplit)
  have hpid := hread (toLE 4 r.eventLen ++ toLE 1 fanotifyMetadataVersion ++ toLE 1 r.reserved ++
    toLE 2 r.metadataLen ++ toLE 8 r.mask ++ toLE 4 (ofSigned 4 r.fd)) _ (ofSigned_lt 4 r.pid)
    (by simpa only [List.append_assoc] using hsplit)
  simp only [List.length_append, toLE_length, List.length_nil, Nat.add_zero]
    at hlen hversion hreserved hmetadata hmask hfd hpid
  unfold unpackMetadata
  rw [hlen, hversion, hreserved, hmetadata, hmask, hfd, hpid]
  simp only [Option.bind_eq_bind, Option.bind_some, Option.pure_def, toSigned_ofSigned r.fd_range,
    toSigned_ofSigned r.pid_range]
  rfl

theorem not_malformed (r : EventRecord) (before after : Bytes) :
    ¬ Malformed (before ++ (r.encode ++ after)) before.length r.metadata := by
  rintro (h | h | h | h)
  · exact absurd h (not_lt.2 (Nat.le_add_right ..))
  · exact absurd h (not_lt.2 r.metadataLen_ge)
  · rw [List.length_append, List.length_append, r.encode_length] at h
    exact absurd h (not_lt.2 (Nat.add_le_add_left (Nat.le_add_right ..) _))
  · exact h rfl

end EventRecord

/-- The event of a well-formed record. -/
def IsEventOf (r : EventRecord) (event : ParsedEvent T) : Prop :=
  event.mask = r.mask ∧ event.fd = r.fd ∧ event.pid = r.pid ∧ event.eventLen = r.eventLen ∧
    (event.parseError = none ∨ event.parseError = some (py "EVENT_PATH_UNAVAILABLE"))

theorem Tiles.records (before : Bytes) {records : List EventRecord} {events : List (ParsedEvent T)}
    (h : Tiles (before ++ records.flatMap EventRecord.encode) before.length events) :
    List.Forall₂ IsEventOf records events := by
  induction records generalizing before events with
  | nil =>
      rw [List.flatMap_nil, List.append_nil] at h
      cases h with
      | rest => exact .nil
      | event hunpack hreports =>
          have hheader := hreports.header
          have hinside := hreports.inside
          have hlen : fanEventMetadataLen = 24 := rfl
          omega
  | cons r records ih =>
      rw [List.flatMap_cons] at h
      cases h with
      | rest hinside hshort =>
          rw [List.length_append, List.length_append, r.encode_length] at hshort
          have hlen : fanEventMetadataLen ≤ r.eventLen := Nat.le_add_right ..
          omega
      | event hunpack hreports htiles =>
          rw [r.unpackMetadata_encode] at hunpack
          obtain rfl := Option.some.inj hunpack
          obtain ⟨hlen, herror⟩ := hreports.wellFormed (r.not_malformed _ _)
          refine .cons ⟨hreports.mask, hreports.fd, hreports.pid, hlen, herror⟩ (ih (before ++ r.encode) ?_)
          rw [hlen] at htiles
          rw [List.length_append, r.encode_length, List.append_assoc]
          exact htiles

/-- **Parsing a buffer.** Any buffer is tiled by the events that are read from it, and a malformed record
    is flagged; well-formed records are read back. -/
theorem parse_events_tile (calls : ParseCalls T) :
    (∀ data, ∃ events, parseEvents calls data = some events ∧ Tiles data 0 events ∧
      (∀ event ∈ events, fanEventMetadataLen ≤ event.eventLen) ∧
      ∃ rest < fanEventMetadataLen,
        (events.map ParsedEvent.eventLen).sum + rest = data.length) ∧
    ∀ records : List EventRecord, ∃ events,
      parseEvents calls (records.flatMap EventRecord.encode) = some events ∧
        List.Forall₂ IsEventOf records events := by
  constructor
  · intro data
    obtain ⟨events, hparse, htiles⟩ := parseFrom_tiles calls (Nat.zero_le data.length)
    obtain ⟨rest, hrest, hsum⟩ := htiles.lengths
    exact ⟨events, hparse, htiles, htiles.header, rest, hrest, by rwa [Nat.zero_add] at hsum⟩
  · intro records
    have hzero : 0 ≤ (records.flatMap EventRecord.encode).length := Nat.zero_le _
    obtain ⟨events, hparse, htiles⟩ := parseFrom_tiles calls hzero
    exact ⟨events, hparse, Tiles.records [] htiles⟩

end Elyra.Fanotify
