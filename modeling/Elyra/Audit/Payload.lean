import Elyra.Audit.Escape
import Elyra.Audit.Iterate
import Elyra.Audit.SafeValue

set_option autoImplicit false
set_option linter.unusedSectionVars false

/-! # Payloads in the log

`record` with a payload of Python values, and what `iter_records` gives back of it. The sanitiser, the
encoder of the hash and the encoder of the line agree on every value but for the texts: nothing in
`_safe_value` touches a lone surrogate, which `os.fsdecode` puts into the name of a file, and neither
encoder can write one. A payload survives exactly when there is none in it and every integer is within
the digit limit (`payload_survives_iff`). -/

namespace Elyra.Audit

open Elyra.Python

variable {F : Type} [FloatNum F] {H : HexDigest}

/-! ## `record` -/

/-- What depends on the interpreter: the `repr` of a JSON value, and whether the stack is deep enough for
    the nesting of a value, in `_safe_value` and in the JSON encoder and decoder. -/
structure Interpreter (F : Type) where
  repr : Json F → PyStr
  nests : PyValue F → Bool

/-- The exceptions of `record`. -/
inductive PayloadExc where
  | raised (x : Raised)
  | recursionError
  deriving DecidableEq, Repr

/-- The members of a payload, sanitised. -/
theorem safeMembers_wf {repr : Json F → PyStr} {payload : List (Key × PyValue F)}
    {kvs : List (PyStr × Json F)} (h : safeItemsOf repr payload = .ok kvs) :
    (Json.obj (dictOf kvs)).WF :=
  safeOf_wf (v := .dict payload) (by rw [safeOf, h]; rfl)

/-- `_safe_value(payload)`. -/
def safePayload (I : Interpreter F) (payload : List (Key × PyValue F)) :
    Except PayloadExc {members : Mapping F // (Json.obj members).WF} :=
  if I.nests (.dict payload) then
    match h : safeItemsOf I.repr payload with
    | .error x => .error (.raised (.python x))
    | .ok kvs => .ok ⟨dictOf kvs, safeMembers_wf h⟩
  else .error .recursionError

/-- The arguments of a call whose payload is not looked at. -/
def bareInput (source subject : PyStr) : RecordInput F := ⟨source, subject, [], Json.wf_obj_nil⟩

/-- `record`. The sanitised payload is the payload of the entry (`safeValue_safeOf`); an exception of
    `_safe_value` comes after the checks, the tail state and the clock. -/
def recordPayload (I : Interpreter F) (H : HexDigest) (lg : Logger) (dir : Dir)
    (stamp : Except PyExc (Stamp F)) (source subject : PyStr) (payload : List (Key × PyValue F)) :
    Except PayloadExc PyStr × Logger × Dir :=
  match safePayload I payload with
  | .ok members =>
      match record H lg dir stamp ⟨source, subject, members.1, members.2⟩ with
      | (.error x, lg, dir) => (.error (.raised x), lg, dir)
      | (.ok hash, lg, dir) => (.ok hash, lg, dir)
  | .error x =>
      match refresh F lg dir (bareInput source subject) with
      | .error y => (.error (.raised y), lg, dir)
      | .ok lg =>
          match stamp with
          | .error y => (.error (.raised (.python y)), lg, dir)
          | .ok _ => (.error x, lg, dir)

/-- **It does to the logger and to the log what a call with a JSON payload does**, so the runs of such
    calls are the runs of these. -/
theorem recordPayload_call (I : Interpreter F) (lg : Logger) (dir : Dir)
    (stamp : Except PyExc (Stamp F)) (source subject : PyStr) (payload : List (Key × PyValue F)) :
    ∃ (stamp' : Except PyExc (Stamp F)) (input : RecordInput F),
      (recordPayload I H lg dir stamp source subject payload).2 =
        (record H lg dir stamp' input).2 := by
  unfold recordPayload
  split
  · next members _ =>
    refine ⟨stamp, ⟨source, subject, members.1, members.2⟩, ?_⟩
    split <;> next h => rw [h]
  · -- a clock that raises stops the call at the same place
    refine ⟨.error .valueError, bareInput source subject, ?_⟩
    unfold record prepare
    cases refresh F lg dir (bareInput source subject) with
    | error y => rfl
    | ok lg' => cases stamp <;> rfl

/-! ## The size of a record -/

/-- The length of a character in UTF-8; a lone surrogate is counted like its neighbours. -/
def charSize (c : Nat) : Nat :=
  if c < 0x80 then 1 else if c < 0x800 then 2 else if c < 0x10000 then 3 else 4

def utf8Size (s : PyStr) : Nat := (s.map charSize).sum

/-- The length of the encoded record. The two hashes have 64 digits each, whatever they are. -/
def recordSize (stamp : Stamp F) (sequence : Int) (input : RecordInput F) : Nat :=
  utf8Size ((Json.obj (entryFields stamp zeroHash sequence input ++
    [(py "record_hash", .str zeroHash)])).print .compact 0) + 1

theorem utf8Size_append (s t : PyStr) : utf8Size (s ++ t) = utf8Size s + utf8Size t := by
  simp [utf8Size]

theorem utf8Size_cons (c : Nat) (s : PyStr) : utf8Size (c :: s) = charSize c + utf8Size s := by
  simp [utf8Size]

theorem encodeUtf8_length {s : PyStr} {bs : Bytes} (h : encodeUtf8 s = some bs) :
    bs.length = utf8Size s := by
  induction s generalizing bs with
  | nil =>
      obtain rfl := Option.some.inj h
      rfl
  | cons c s ih =>
      obtain ⟨b, bs', hb, hbs', rfl⟩ := encodeUtf8_cons.1 h
      have hlen : b.length = charSize c := by
        unfold charSize
        rcases utf8Char_cases hb with ⟨h1, rfl⟩ | ⟨h1, h2, rfl⟩ | ⟨h1, h2, h3, rfl⟩ | ⟨h1, h2, rfl⟩
        · rw [if_pos h1]; rfl
        · rw [if_neg (by omega), if_pos (by omega)]; rfl
        · rw [if_neg (by omega), if_neg (by omega), if_pos (by omega)]; rfl
        · rw [if_neg (by omega), if_neg (by omega), if_neg (by omega)]; rfl
      rw [List.length_append, hlen, ih hbs', utf8Size_cons]

theorem utf8Size_hash {hash : PyStr} (h : validHexHash hash = true) :
    utf8Size (quote hash) = 66 := by
  simp only [validHexHash, Bool.and_eq_true, beq_iff_eq, List.all_eq_true] at h
  have hchars : ∀ s : PyStr, (∀ c ∈ s, isHexDigit c = true) →
      utf8Size (s.flatMap escapeChar) = s.length := by
    intro s hs
    induction s with
    | nil => rfl
    | cons c s ih =>
        obtain ⟨hc, hs⟩ := List.forall_mem_cons.1 hs
        simp only [isHexDigit, isDigit, Bool.or_eq_true, Bool.and_eq_true, decide_eq_true_eq] at hc
        have hplain : escapeChar c = [c] := by
          unfold escapeChar
          rw [if_neg (by omega), if_neg (by omega), if_neg (by omega), if_neg (by omega),
            if_neg (by omega), if_neg (by omega), if_neg (by omega), if_neg (by omega)]
        have hone : charSize c = 1 := if_pos (by omega)
        rw [List.flatMap_cons, hplain, utf8Size_append, utf8Size_cons, hone, ih hs,
          List.length_cons]
        simp [utf8Size]
        omega
  rw [quote, utf8Size_cons, utf8Size_append, hchars hash h.2, h.1]
  rfl

variable {stamp : Stamp F} {sequence : Int} {input : RecordInput F}

/-- The hashes do not change the size. -/
theorem utf8Size_print {prev hash : PyStr} (hprev : validHexHash prev = true)
    (hhash : validHexHash hash = true) :
    utf8Size ((Json.obj (entryFields stamp prev sequence input ++
      [(py "record_hash", .str hash)])).print .compact 0) + 1 = recordSize stamp sequence input := by
  simp only [recordSize, entryFields, List.cons_append, List.nil_append, Json.print, printMembers,
    utf8Size_append, utf8Size_cons, utf8Size_hash hprev, utf8Size_hash hhash,
    utf8Size_hash zeroHash_hex]

/-! ## When an entry can be written -/

/-- What the fields of an entry hold besides texts: the sequence number, the time and the payload. -/
theorem entryFields_encodable {prev : PyStr} :
    (Json.obj (entryFields stamp prev sequence input)).encodable false = true ↔
      printable (sequence + 1) = true ∧ PyFloat.finite stamp.timestamp = true ∧
        (safeValue (.obj input.payload)).encodable false = true := by
  simp [entryFields, Json.encodable, encodableMembers, printable]

theorem entryFields_utf8 {prev : PyStr} (hprev : validHexHash prev = true) :
    (Json.obj (entryFields stamp prev sequence input)).Utf8 ↔
      Utf8 stamp.recordId ∧ Utf8 stamp.timestampUtc ∧ Utf8 input.source ∧ Utf8 input.subject ∧
        (safeValue (.obj input.payload)).Utf8 := by
  have hkeys : ∀ k ∈ ["schema_version", "record_id", "sequence", "timestamp", "timestamp_utc",
      "source", "subject", "payload", "prev_hash"].map py, Utf8 k := by decide
  have hversion : Utf8 schemaVersion := by decide
  simp only [List.map_cons, List.map_nil, List.forall_mem_cons] at hkeys
  simp only [entryFields, utf8_obj_cons, utf8_str, utf8_int, utf8_float, utf8_obj_nil, hkeys,
    hversion, hex_utf8 hprev, true_and, and_true]

theorem utf8_obj_append {a b : Mapping F} :
    (Json.obj (a ++ b)).Utf8 ↔ (Json.obj a).Utf8 ∧ (Json.obj b).Utf8 := by
  simp only [Json.Utf8, Json.strings, stringsMembers_eq, List.flatMap_append, List.forall_mem_append]

/-- The line of an entry has an encoding when its numbers and its texts have one. -/
theorem encodeLine_isOk {entry : Mapping F} : (∃ line, encodeLine entry = .ok line) ↔
    (Json.obj entry).encodable false = true ∧ (Json.obj entry).Utf8 := by
  unfold encodeLine dumps
  by_cases henc : (Json.obj entry).encodable false = true
  · simp only [if_pos henc, encode_ok_iff, encodeUtf8_append, and_iff_right henc]
    rw [← encodeUtf8_print_iff Layout.compact _ 0]
    constructor
    · rintro ⟨_, b₁, _, h, -⟩
      exact ⟨b₁, h⟩
    · rintro ⟨b₁, h⟩
      exact ⟨_, b₁, [10], h, rfl, rfl⟩
  · simp only [if_neg henc]
    exact iff_of_false nofun fun h => henc h.1

variable {lg : Logger} {dir : Dir}

/-- **An entry is written when its numbers and its texts can be and it is within the limit.** -/
theorem planAppend_isOk (lg : Logger) (hhex : validHexHash lg.lastHash = true) :
    (∃ plan, planAppend H lg dir stamp input = .ok plan) ↔
      ((Json.obj (entryFields stamp lg.lastHash lg.lastSequence input)).encodable false = true ∧
        (Json.obj (entryFields stamp lg.lastHash lg.lastSequence input)).Utf8) ∧
      (recordSize stamp lg.lastSequence input : Int) ≤ lg.config.maxRecordBytes := by
  have hentry : ∀ hash, validHexHash hash = true →
      ((∃ line, encodeLine (entryFields stamp lg.lastHash lg.lastSequence input ++
          [(py "record_hash", Json.str hash)]) = .ok line) ↔
        (Json.obj (entryFields stamp lg.lastHash lg.lastSequence input)).encodable false = true ∧
          (Json.obj (entryFields stamp lg.lastHash lg.lastSequence input)).Utf8) := by
    intro hash hhash
    have hlast : (Json.obj [(py "record_hash", Json.str hash)] : Json F).Utf8 := by
      simp only [utf8_obj_cons, utf8_str, utf8_obj_nil, and_true]
      exact ⟨by decide, hex_utf8 hhash⟩
    rw [encodeLine_isOk, utf8_obj_append, and_iff_left hlast]
    simp [Json.encodable, encodableMembers_iff, or_imp, forall_and]
  have hlength : ∀ hash line, validHexHash hash = true →
      encodeLine (entryFields stamp lg.lastHash lg.lastSequence input ++
        [(py "record_hash", Json.str hash)]) = .ok line →
      line.length = recordSize stamp lg.lastSequence input := by
    intro hash line hhash hline
    obtain ⟨text, body, htext, hbody, rfl, -⟩ := encodeLine_eq hline
    obtain ⟨-, rfl⟩ := encodable_of_dumps htext
    rw [List.length_append, encodeUtf8_length hbody, ← utf8Size_print hhex hhash]
    rfl
  unfold planAppend
  constructor
  · rintro ⟨plan, hplan⟩
    split at hplan
    · cases hplan
    · next entry hbuild =>
      obtain ⟨hash, hhash, rfl⟩ := buildEntry_eq hbuild
      have hhashHex := recordHash_hex hhash
      split at hplan
      · cases hplan
      · next line hline =>
        split at hplan
        · cases hplan
        · next hsize =>
          refine ⟨(hentry hash hhashHex).1 ⟨line, hline⟩, ?_⟩
          rw [← hlength hash line hhashHex hline]
          exact not_lt.1 hsize
  · rintro ⟨⟨henc, hutf⟩, hsize⟩
    have hprev : hexHashOf (lookup (py "prev_hash")
        (entryFields stamp lg.lastHash lg.lastSequence input)) = some lg.lastHash := by
      have hl : lookup (py "prev_hash") (entryFields stamp lg.lastHash lg.lastSequence input) =
          some (.str lg.lastHash) := rfl
      rw [hl, hexHashOf, if_pos hhex]
    obtain ⟨hash, hhash⟩ := (recordHash_ok_iff (H := H) (encodable_mono _ henc) hprev).2
      ⟨hutf, fun _ => ((encodable_false_iff _).1 henc).2⟩
    have hhashHex := recordHash_hex hhash
    have hbuild : buildEntry H stamp lg.lastHash lg.lastSequence input =
        .ok (entryFields stamp lg.lastHash lg.lastSequence input ++
          [(py "record_hash", .str hash)]) := by
      simp only [buildEntry, hhash]
    obtain ⟨line, hline⟩ := (hentry hash hhashHex).2 ⟨henc, hutf⟩
    rw [hbuild]
    simp only [hline]
    rw [if_neg (by rw [hlength hash line hhashHex hline]; exact not_lt.2 hsize)]
    exact ⟨_, rfl⟩

/-! ## Payloads that survive -/

/-- What the clock and `uuid4` give: `fromtimestamp` refuses a time that is not finite, and the texts
    are ASCII. -/
structure Stamp.Sound (stamp : Stamp F) : Prop where
  finite : PyFloat.finite stamp.timestamp = true
  recordId : Utf8 stamp.recordId
  timestampUtc : Utf8 stamp.timestampUtc

/-- A log that can be read and gone on with. `sequence` is the number of its last record. -/
structure Usable (F : Type) [FloatNum F] (lg : Logger) (dir : Dir) (sequence : Int) : Prop where
  tail : ∃ hash, tailState F lg dir = .ok (hash, sequence)
  readable : ∀ data ∈ contents lg.config.fileName dir, Readable F data
  numbers : nextRotationIndex lg.config.fileName dir ≤ 999999

/-- `record` succeeds, `iter_records` yields the sanitised payload last, whatever the limit, and
    sanitising it again changes nothing. -/
def Survives (I : Interpreter F) (H : HexDigest) (lg : Logger) (dir : Dir) (stamp : Stamp F)
    (source subject : PyStr) (payload : List (Key × PyValue F)) : Prop :=
  ∃ members, safePayload I payload = .ok members ∧
    safeOf I.repr (.ofJson (.obj members.1)) = .ok (.obj members.1) ∧
    ∃ hash lg' dir', recordPayload I H lg dir (.ok stamp) source subject payload =
      (.ok hash, lg', dir') ∧
      ∀ limit : Option Int, (∀ k ∈ limit, 0 < k) →
        ∃ records last, iterRecords F lg.config.fileName dir' limit = .ok (records ++ [last]) ∧
          lookup (py "payload") last = some (.obj members.1)

/-- Everything in the record can be written: the stack suffices, `_safe_value` returns, no text has a
    lone surrogate and no integer is beyond the digit limit. -/
structure Storable (I : Interpreter F) (sequence : Int) (source subject : PyStr)
    (payload : List (Key × PyValue F)) : Prop where
  nests : I.nests (.dict payload) = true
  converts : converts (.dict payload) = true
  fits : ∀ a ∈ (PyValue.dict payload).atoms, a.Fits
  source : Utf8 source
  subject : Utf8 subject
  sequence : printable (sequence + 1) = true

variable {I : Interpreter F} {source subject : PyStr} {payload : List (Key × PyValue F)}

theorem safePayload_ok {members : {m : Mapping F // (Json.obj m).WF}}
    (h : safePayload I payload = .ok members) :
    I.nests (.dict payload) = true ∧ safeOf I.repr (.dict payload) = .ok (.obj members.1) := by
  unfold safePayload at h
  split at h
  · next hnests =>
    split at h
    · cases h
    · next kvs hkvs =>
      obtain rfl := Except.ok.inj h
      exact ⟨hnests, congrArg (Except.map fun kvs => Json.obj (dictOf kvs)) hkvs⟩
  · cases h

theorem safePayload_isOk : (∃ members, safePayload I payload = .ok members) ↔
    I.nests (.dict payload) = true ∧ converts (.dict payload) = true := by
  constructor
  · rintro ⟨members, h⟩
    obtain ⟨hnests, hsafe⟩ := safePayload_ok h
    exact ⟨hnests, (safeOf_ok_iff _).1 ⟨_, hsafe⟩⟩
  · rintro ⟨hnests, hconverts⟩
    obtain ⟨j, hj⟩ : ∃ j, safeOf I.repr _ = .ok j := (safeOf_ok_iff _).2 hconverts
    obtain ⟨kvs, hkvs, -⟩ := map_eq_ok hj
    unfold safePayload
    rw [if_pos hnests]
    split
    · next h => rw [h] at hkvs; cases hkvs
    · exact ⟨_, rfl⟩

/-- A text of a JSON payload is in the sanitised payload under its key. -/
theorem safePayload_lookup {details : Mapping F} {members : {m : Mapping F // (Json.obj m).WF}}
    (h : safePayload I (ofJsonMembers details) = .ok members) (hkeys : (keys details).Nodup)
    {k q : PyStr} (hq : lookup k details = some (.str q)) :
    lookup k members.1 = some (.str q) := by
  obtain ⟨kvs, hkvs, heq⟩ := map_eq_ok (safePayload_ok h).2
  rw [safeItemsOf_ok, ofJsonMembers_eq, List.forall₂_map_left_iff] at hkvs
  have hsame : SameKeys (fun v j => safeOf I.repr (.ofJson v) = .ok j) details kvs :=
    hkvs.imp fun kv kj ⟨hkey, hj⟩ => ⟨(str_ok.1 hkey).2, hj⟩
  have hdict := hsame.dictOf
  rw [dictOf_of_nodup hkeys, Json.obj.inj heq] at hdict
  obtain ⟨j, hj, hsafe⟩ := hdict.lookup hq
  rw [hj, ← Except.ok.inj hsafe]

/-- The hash that the tail gives. -/
theorem tailState_hex {hash : PyStr} (h : tailState F lg dir = .ok (hash, sequence)) :
    validHexHash hash = true := by
  have key : ∀ segments : List (PyStr × Bytes),
      tailFrom F lg.lastSequence segments = .ok (hash, sequence) → validHexHash hash = true := by
    intro segments
    induction segments with
    | nil =>
        intro h
        obtain ⟨rfl, -⟩ := Prod.mk.inj (Except.ok.inj h)
        exact zeroHash_hex
    | cons segment older ih =>
        intro h
        rw [tailFrom] at h
        split at h
        · exact ih h
        · unfold tailEntry at h
          split at h
          · cases h
          · split at h
            · cases h
            · cases h
            · split at h
              · cases h
              · next hhex =>
                obtain ⟨rfl, -⟩ := Prod.mk.inj (Except.ok.inj h)
                exact hexHashOf_hex hhex
            · cases h
  exact key _ h

/-- What the entry of a sanitised payload needs. -/
theorem storable_iff {members : {m : Mapping F // (Json.obj m).WF}} {prev : PyStr}
    (hsafe : safePayload I payload = .ok members) (hstamp : stamp.Sound)
    (hprev : validHexHash prev = true) :
    ((Json.obj (entryFields stamp prev sequence ⟨source, subject, members.1, members.2⟩)).encodable
        false = true ∧
      (Json.obj (entryFields stamp prev sequence ⟨source, subject, members.1, members.2⟩)).Utf8) ↔
      Storable I sequence source subject payload := by
  obtain ⟨hnests, hsafeOf⟩ := safePayload_ok hsafe
  have hfits := safeOf_fits hsafeOf
  rw [entryFields_encodable, entryFields_utf8 hprev, safeValue_safeOf hsafeOf, encodable_false_iff]
  constructor
  · rintro ⟨⟨hseq, -, henc, -⟩, -, -, hsource, hsubject, hutf⟩
    exact ⟨hnests, (safeOf_ok_iff _).1 ⟨_, hsafeOf⟩, hfits.1 ⟨hutf, henc⟩, hsource, hsubject, hseq⟩
  · rintro ⟨-, -, hatoms, hsource, hsubject, hseq⟩
    obtain ⟨hutf, henc⟩ := hfits.2 hatoms
    exact ⟨⟨hseq, hstamp.finite, henc, safeOf_finite hsafeOf⟩, hstamp.recordId,
      hstamp.timestampUtc, hsource, hsubject, hutf⟩

theorem validateRecordInput_ok : validateRecordInput input = .ok () ↔
    validName input.source = true ∧ validName input.subject = true := by
  rw [validateRecordInput, ← Bool.and_eq_true]
  split
  · next h => exact iff_of_true rfl h
  · next h => exact iff_of_false nofun h

/-- A call comes to the entry when its source and its subject are valid. -/
theorem prepare_isOk {prev : PyStr} (htail : tailState F lg dir = .ok (prev, sequence)) :
    (∃ lg₁ plan, prepare H lg dir (.ok stamp) input = (lg₁, .ok plan)) ↔
      validateRecordInput input = .ok () ∧
        ∃ plan, planAppend H { lg with lastHash := prev, lastSequence := sequence } dir stamp input =
          .ok plan := by
  unfold prepare refresh
  cases hvalid : validateRecordInput input with
  | error x => exact iff_of_false (fun ⟨_, _, h⟩ => nomatch congrArg Prod.snd h) nofun
  | ok u =>
      simp only [htail]
      exact ⟨fun ⟨_, plan, h⟩ => ⟨trivial, plan, congrArg Prod.snd h⟩,
        fun ⟨_, plan, h⟩ => ⟨_, plan, congrArg (Prod.mk _) h⟩⟩

/-- What a call that returns has done. -/
theorem recordPayload_ok {hash : PyStr} {lg' : Logger} {dir' : Dir} :
    recordPayload I H lg dir (.ok stamp) source subject payload = (.ok hash, lg', dir') ↔
      ∃ members, safePayload I payload = .ok members ∧
        record H lg dir (.ok stamp) ⟨source, subject, members.1, members.2⟩ =
          (.ok hash, lg', dir') := by
  unfold recordPayload
  split
  · next members hsafe =>
    constructor
    · intro h
      refine ⟨members, hsafe, ?_⟩
      split at h
      · cases h
      · next out _ _ _ hout =>
        cases h
        exact hout
    · rintro ⟨members', hsafe', h⟩
      obtain rfl := Except.ok.inj (hsafe.symm.trans hsafe')
      simp only [h]
  · next x hsafe =>
    constructor
    · intro h
      split at h <;> cases h
    · rintro ⟨members, hsafe', -⟩
      cases hsafe.symm.trans hsafe'

/-- **When `record` returns**: the two names are valid, everything can be written, and the record is
    within the limit. -/
theorem recordPayload_isOk (hlog : Usable F lg dir sequence) (hstamp : stamp.Sound) :
    (∃ hash lg' dir', recordPayload I H lg dir (.ok stamp) source subject payload =
        (.ok hash, lg', dir')) ↔
      (validName source = true ∧ validName subject = true) ∧
        Storable I sequence source subject payload ∧
        ∀ members, safePayload I payload = .ok members →
          (recordSize stamp sequence ⟨source, subject, members.1, members.2⟩ : Int) ≤
            lg.config.maxRecordBytes := by
  obtain ⟨prev, htail⟩ := hlog.tail
  have hhex := tailState_hex htail
  have hreturns : ∀ members : {m : Mapping F // (Json.obj m).WF},
      (∃ hash lg' dir', record H lg dir (.ok stamp) ⟨source, subject, members.1, members.2⟩ =
        (.ok hash, lg', dir')) ↔
      ∃ lg₁ plan, prepare H lg dir (.ok stamp) ⟨source, subject, members.1, members.2⟩ =
        (lg₁, .ok plan) := by
    intro members
    constructor
    · rintro ⟨hash, lg', dir', h⟩
      obtain ⟨lg₁, plan, hprepare, -, -⟩ := record_ok h
      exact ⟨lg₁, plan, hprepare⟩
    · rintro ⟨lg₁, plan, hprepare⟩
      exact ⟨_, _, _, by rw [record, hprepare]⟩
  have hcall : ∀ members : {m : Mapping F // (Json.obj m).WF},
      safePayload I payload = .ok members →
      ((∃ hash lg' dir', record H lg dir (.ok stamp) ⟨source, subject, members.1, members.2⟩ =
        (.ok hash, lg', dir')) ↔
      (validName source = true ∧ validName subject = true) ∧
        Storable I sequence source subject payload ∧
        (recordSize stamp sequence ⟨source, subject, members.1, members.2⟩ : Int) ≤
          lg.config.maxRecordBytes) := by
    intro members hsafe
    rw [hreturns, prepare_isOk htail, validateRecordInput_ok,
      planAppend_isOk { lg with lastHash := prev, lastSequence := sequence } hhex,
      storable_iff hsafe hstamp hhex]
  simp only [recordPayload_ok]
  constructor
  · rintro ⟨hash, lg', dir', members, hsafe, hrecord⟩
    obtain ⟨hnames, hstorable, hsize⟩ := (hcall members hsafe).1 ⟨hash, lg', dir', hrecord⟩
    refine ⟨hnames, hstorable, fun members' hsafe' => ?_⟩
    obtain rfl := Except.ok.inj (hsafe.symm.trans hsafe')
    exact hsize
  · rintro ⟨hnames, hstorable, hsize⟩
    obtain ⟨members, hsafe⟩ := safePayload_isOk.2 ⟨hstorable.nests, hstorable.converts⟩
    obtain ⟨hash, lg', dir', hrecord⟩ :=
      (hcall members hsafe).2 ⟨hnames, hstorable, hsize members hsafe⟩
    exact ⟨hash, lg', dir', members, hsafe, hrecord⟩

/-- **What a call that returns has put into the log**: one record, after those that are left. -/
theorem recordPayload_appends (hlog : Usable F lg dir sequence) {hash : PyStr} {lg' : Logger}
    {dir' : Dir} (h : recordPayload I H lg dir (.ok stamp) source subject payload =
      (.ok hash, lg', dir')) :
    ∃ members lost kept entry, safePayload I payload = .ok members ∧
      iterRecords F lg.config.fileName dir none = .ok (lost ++ kept) ∧
      iterRecords F lg.config.fileName dir' none = .ok (kept ++ [entry]) ∧
      lookup (py "source") entry = some (.str source) ∧
      lookup (py "subject") entry = some (.str subject) ∧
      lookup (py "payload") entry = some (.obj members.1) := by
  obtain ⟨members, hsafe, hrecord⟩ := recordPayload_ok.1 h
  obtain ⟨lg₁, plan, hprepare, -, rfl⟩ := record_ok hrecord
  obtain ⟨_, n, _, -, -, rfl, hplan⟩ := prepare_ok hprepare
  have heffects := hplan.effects
  simp only at heffects
  have hnumbers : needsRotation lg.config dir plan.line = true →
      nextRotationIndex lg.config.fileName dir ≤ 999999 := fun _ => hlog.numbers
  have hstate := (full_appendEffects hnumbers).2
  rw [← heffects] at hstate
  obtain ⟨lost, kept, hbefore, hafter⟩ :=
    iterRecords_append hstate hlog.readable hplan.built.wf hplan.encoded
  refine ⟨members, lost, kept, plan.entry, hsafe, hbefore, hafter, hplan.carries.source,
    hplan.carries.subject, ?_⟩
  rw [hplan.carries.payload]
  exact congrArg some (safeValue_safeOf (safePayload_ok hsafe).2)

/-- A call that returns survives. -/
theorem survives_iff (hlog : Usable F lg dir sequence) :
    Survives I H lg dir stamp source subject payload ↔
      ∃ hash lg' dir', recordPayload I H lg dir (.ok stamp) source subject payload =
        (.ok hash, lg', dir') := by
  constructor
  · rintro ⟨-, -, -, hash, lg', dir', h, -⟩
    exact ⟨hash, lg', dir', h⟩
  · rintro ⟨hash, lg', dir', h⟩
    obtain ⟨members, -, kept, entry, hsafe, -, hafter, -, -, hpayload⟩ :=
      recordPayload_appends hlog h
    refine ⟨members, hsafe, safeOf_idempotent (safePayload_ok hsafe).2, hash, lg', dir', h, ?_⟩
    intro limit hlimit
    cases limit with
    | none => exact ⟨kept, entry, hafter, hpayload⟩
    | some k =>
        have hk : 0 < k := hlimit k rfl
        obtain ⟨rest, hrest⟩ := lastRecords_append hk kept entry
        refine ⟨rest, entry, ?_, hpayload⟩
        have hall : gather (readSegment F) (contents lg.config.fileName dir') =
            .ok (kept ++ [entry]) := hafter
        rw [iterRecords, if_neg (by omega), hall, ← hrest]
        rfl

/-- **A payload survives exactly when everything in it can be written.** -/
theorem payload_survives_iff (I : Interpreter F) (H : HexDigest) {lg : Logger} {dir : Dir}
    {sequence : Int} (hlog : Usable F lg dir sequence) {stamp : Stamp F} (hstamp : stamp.Sound)
    {source subject : PyStr} (hsource : validName source = true)
    (hsubject : validName subject = true) {payload : List (Key × PyValue F)}
    (hsize : ∀ members, safePayload I payload = .ok members →
      (recordSize stamp sequence ⟨source, subject, members.1, members.2⟩ : Int) ≤
        lg.config.maxRecordBytes) :
    Survives I H lg dir stamp source subject payload ↔
      Storable I sequence source subject payload := by
  rw [survives_iff hlog, recordPayload_isOk hlog hstamp]
  exact ⟨fun h => h.2.1, fun h => ⟨⟨hsource, hsubject⟩, h, hsize⟩⟩

/-! The first record of a log, with a value of every kind. -/

def plainInterpreter : Interpreter SampleFloat where
  repr := fun j => j.print .spaced 0
  nests := fun _ => true

def freshLogger : Logger where
  config := sampleConfig

theorem freshLogger_usable : Usable SampleFloat freshLogger {} 0 where
  tail := ⟨zeroHash, rfl⟩
  readable := fun data hdata => absurd hdata (by rw [contents_start]; exact List.not_mem_nil)
  numbers := by decide

theorem sampleStamp_sound : sampleStamp.Sound := ⟨rfl, by decide, by decide⟩

/-- The size, once the sanitised members are known. -/
theorem size_of_members (payload : List (Key × PyValue SampleFloat)) {m : Mapping SampleFloat}
    (hsafe : safeOf plainInterpreter.repr (.dict payload) = .ok (.obj m))
    (hsize : recordSize sampleStamp 0 ⟨py "daemon", py "sample", m, safeOf_wf hsafe⟩ ≤ 1024)
    (members : {m : Mapping SampleFloat // (Json.obj m).WF})
    (h : safePayload plainInterpreter payload = .ok members) :
    (recordSize sampleStamp 0 ⟨py "daemon", py "sample", members.1, members.2⟩ : Int) ≤
      freshLogger.config.maxRecordBytes := by
  obtain ⟨m', hm'⟩ := members
  obtain rfl : m' = m := Json.obj.inj (Except.ok.inj ((safePayload_ok h).2.symm.trans hsafe))
  exact Int.ofNat_le.2 hsize

/-- Two of the keys have one `str`: the first of the two values, which cannot be written, is lost. -/
def manyKinds : List (Key × PyValue SampleFloat) :=
  [(.text (py "none"), .none), (.text (py "nan"), .float .nan), (.text (py "file"), .path (py "/tmp")),
    (.text (py "item"),
      .dataclass [(py "data", .bytes [255]), (py "pair", .tuple [.int 1, .bool true])]),
    (.text (py "names"), .set [.str (py "b"), .str (py "a")]),
    (.tuple [80, 443] (py "(80, 443)"), .int 2),
    (.int 1, .str [0xDCFF]), (.text (py "1"), .list [.float .zero])]

theorem manyKinds_safe : safeOf plainInterpreter.repr (.dict manyKinds) = .ok (.obj
    [(py "none", .null), (py "nan", .str (py "nan")), (py "file", .str (py "/tmp")),
      (py "item", .obj [
        (py "data", .obj [(py "type", .str (py "bytes")), (py "hex", .str (py "ff"))]),
        (py "pair", .arr [.int 1, .bool true])]),
      (py "names", .arr [.str (py "a"), .str (py "b")]), (py "(80, 443)", .int 2),
      (py "1", .arr [.float .zero])]) := by rfl

theorem manyKinds_survive : Survives plainInterpreter sha256Digest freshLogger {} sampleStamp
    (py "daemon") (py "sample") manyKinds :=
  (payload_survives_iff plainInterpreter sha256Digest freshLogger_usable sampleStamp_sound
    (by decide) (by decide) (size_of_members manyKinds manyKinds_safe (by decide +kernel))).2
    ⟨rfl, by decide, by decide, by decide, by decide, by decide⟩

/-- What `os.fsdecode` makes of a file name with the byte `0xFF`. -/
def undecodableName : List (Key × PyValue SampleFloat) := [(.text (py "path"), .str [0xDCFF])]

/-- **The name of a file that is not UTF-8 stops the record**, with a `UnicodeEncodeError`. -/
theorem undecodableName_lost :
    (Usable SampleFloat freshLogger {} 0 ∧ sampleStamp.Sound ∧
      ∀ members, safePayload plainInterpreter undecodableName = .ok members →
        (recordSize sampleStamp 0 ⟨py "daemon", py "sample", members.1, members.2⟩ : Int) ≤
          freshLogger.config.maxRecordBytes) ∧
      (recordPayload plainInterpreter sha256Digest freshLogger {} (.ok sampleStamp) (py "daemon")
        (py "sample") undecodableName).1 = .error (.raised (.python .valueError)) ∧
      ¬ Survives plainInterpreter sha256Digest freshLogger {} sampleStamp (py "daemon")
        (py "sample") undecodableName := by
  have hsize := size_of_members undecodableName
    (m := [(py "path", .str [0xDCFF])]) rfl (by decide +kernel)
  refine ⟨⟨freshLogger_usable, sampleStamp_sound, hsize⟩, by decide +kernel, fun h => ?_⟩
  have hstorable := ((recordPayload_isOk freshLogger_usable sampleStamp_sound).1
    ((survives_iff freshLogger_usable).1 h)).2.1
  exact absurd hstorable.fits (by decide)

/-! ## Runs -/

/-- **In every run each logger can go on with the log.** -/
theorem usable_of_every_run (H : HexDigest) (fileName : PyStr) (calls : List (Call F))
    (hcalls : ∀ call ∈ calls, call.Admissible fileName) {sys : System F}
    (hrun : System.run H {} calls = sys) (hrot : sys.rotations < 999999) {lg : Logger}
    (hlg : lg ∈ sys.loggers) :
    ∃ sequence, Usable F lg sys.dir sequence ∧
      (∀ entry ∈ sys.history.getLast?, lookup (py "sequence") entry = some (.int sequence)) := by
  subst hrun
  have h := (intact_start H fileName).run calls hcalls hrot.le
  obtain ⟨gone, kept, s, hhistory, -, hvalid, hnewest⟩ := h.log
  have htail := h.tail hlg hvalid hnewest ⟨gone, hhistory⟩
  have hname := (h.configs lg hlg).1
  refine ⟨s.lastSequence, ⟨⟨s.lastHash, htail⟩, ?_, ?_⟩, fun entry hentry =>
    (hnewest.last entry hentry).2⟩
  · rw [hname]
    exact readable_of_every_run H fileName calls hcalls hrot.le
  · rw [hname]
    have := h.numbers
    omega

end Elyra.Audit
