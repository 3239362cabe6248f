import Elyra.Python.Builtins
import Elyra.Python.Lines
import Elyra.Python.Sha256

set_option autoImplicit false

/-! # Audit records

One record of the audit log: how it is built, hashed and encoded (`_canonical_json`, `_record_hash`,
`_build_entry` of `audit/audit_logger.py`). A record is a JSON object; a record of schema `2.0` is
hashed over its compact sorted JSON text, a legacy record over its previous hash and its spaced
sorted text. The hash function is a parameter of which only the form of its digest is used. -/

namespace Elyra.Audit

open Elyra.Python

variable {F : Type}

/-! ## Hashes -/

/-- `ZERO_HASH`. -/
def zeroHash : PyStr := List.replicate 64 48

/-- `SCHEMA_VERSION`. -/
def schemaVersion : PyStr := py "2.0"

def isHexDigit (c : Nat) : Bool := isDigit c || (97 ≤ c && c ≤ 102)

/-- `_validate_hex_hash` of a string. -/
def validHexHash (s : PyStr) : Bool := s.length == 64 && s.all isHexDigit

/-- `_validate_hex_hash`; the hash when it is one. -/
def hexHashOf : Option (Json F) → Option PyStr
  | some (.str s) => if validHexHash s then some s else none
  | _ => none

/-- What the log uses of `hashlib.sha256(data).hexdigest()`: 64 lower-case hexadecimal digits. -/
structure HexDigest where
  digest : Bytes → PyStr
  hex : ∀ data, validHexHash (digest data) = true

/-- The digest of the source. -/
def sha256Digest : HexDigest where
  digest := sha256
  hex := by
    intro data
    simp only [validHexHash, sha256_length, beq_self_eq_true, Bool.true_and, List.all_eq_true]
    intro c hc
    have := sha256_hex hc
    simp only [isHexDigit, isDigit, Bool.or_eq_true, Bool.and_eq_true, decide_eq_true_eq]
    omega

/-! ## Encoding -/

section Encoding

variable [FloatNum F]

/-- `_canonical_json`. -/
def canonicalJson (legacy : Bool) (entry : Mapping F) : Except PyExc PyStr :=
  match dumpsSorted (if legacy then .spaced else .compact) legacy (.obj entry) with
  | none => .error .valueError
  | some text => .ok text

/-- `text.encode("utf-8")`; a lone surrogate raises `UnicodeEncodeError`, a `ValueError`. -/
def encode (text : PyStr) : Except PyExc Bytes :=
  match encodeUtf8 text with
  | none => .error .valueError
  | some data => .ok data

/-- `entry.get("schema_version") == SCHEMA_VERSION`. -/
def isCurrent (entry : Mapping F) : Bool :=
  match lookup (py "schema_version") entry with
  | some (.str s) => s == schemaVersion
  | _ => false

/-- `str(entry.get("prev_hash", ZERO_HASH))`. -/
def prevHashText (entry : Mapping F) : PyStr :=
  match lookup (py "prev_hash") entry with
  | none => zeroHash
  | some v => pyStr v

/-- The bytes `_record_hash` hashes. -/
def hashInput (entry : Mapping F) : Except PyExc Bytes :=
  if isCurrent entry then
    match canonicalJson false entry with
    | .error x => .error x
    | .ok text => encode text
  else
    match canonicalJson true entry with
    | .error x => .error x
    | .ok text => encode (prevHashText entry ++ text)

/-- `_record_hash`. -/
def recordHash (H : HexDigest) (entry : Mapping F) : Except PyExc PyStr :=
  match hashInput entry with
  | .error x => .error x
  | .ok data => .ok (H.digest data)

mutual

/-- `_safe_value` on JSON values: a non-finite float becomes its text. -/
def safeValue : Json F → Json F
  | .float f => if PyFloat.finite f then .float f else .str (pyStr (.float f))
  | .arr xs => .arr (safeItems xs)
  | .obj kvs => .obj (safeMembers kvs)
  | v => v

def safeItems : List (Json F) → List (Json F)
  | [] => []
  | x :: xs => safeValue x :: safeItems xs

def safeMembers : List (PyStr × Json F) → List (PyStr × Json F)
  | [] => []
  | (k, v) :: kvs => (k, safeValue v) :: safeMembers kvs

end

/-- The arguments of `record`. -/
structure RecordInput (F : Type) where
  source : PyStr
  subject : PyStr
  payload : Mapping F
  wf : (Json.obj payload).WF

/-- The checks `_validate_record_input` makes on `source` and on `subject`. -/
def validName (s : PyStr) : Bool :=
  strip s != [] && s.length ≤ 128 && s.all (fun c => 32 ≤ c)

/-- `_validate_record_input`. -/
def validateRecordInput (input : RecordInput F) : Except PyExc Unit :=
  if validName input.source && validName input.subject then .ok () else .error .valueError

/-- What `_build_entry` takes from the clock and from `uuid4`. -/
structure Stamp (F : Type) where
  timestamp : F
  timestampUtc : PyStr
  recordId : PyStr

/-- The fields of `_build_entry`, without the hash. -/
def entryFields (stamp : Stamp F) (lastHash : PyStr) (lastSequence : Int) (input : RecordInput F) :
    Mapping F :=
  [(py "schema_version", .str schemaVersion),
    (py "record_id", .str stamp.recordId),
    (py "sequence", .int (lastSequence + 1)),
    (py "timestamp", .float stamp.timestamp),
    (py "timestamp_utc", .str stamp.timestampUtc),
    (py "source", .str input.source),
    (py "subject", .str input.subject),
    (py "payload", safeValue (.obj input.payload)),
    (py "prev_hash", .str lastHash)]

/-- `_build_entry`. -/
def buildEntry (H : HexDigest) (stamp : Stamp F) (lastHash : PyStr) (lastSequence : Int)
    (input : RecordInput F) : Except PyExc (Mapping F) :=
  match recordHash H (entryFields stamp lastHash lastSequence input) with
  | .error x => .error x
  | .ok h => .ok (entryFields stamp lastHash lastSequence input ++ [(py "record_hash", .str h)])

/-- The line `_append_record_locked` writes for an entry. -/
def encodeLine (entry : Mapping F) : Except PyExc Bytes :=
  match dumps .compact false (.obj entry) with
  | none => .error .valueError
  | some text => encode (text ++ [10])

end Encoding

/-! ## What a built record looks like -/

section Facts

variable [FloatNum F]

theorem safeItems_eq (xs : List (Json F)) : safeItems xs = xs.map safeValue := by
  induction xs with
  | nil => rfl
  | cons x xs ih => simp only [safeItems, ih, List.map_cons]

theorem safeMembers_eq (kvs : List (PyStr × Json F)) :
    safeMembers kvs = kvs.map (fun kv => (kv.1, safeValue kv.2)) := by
  induction kvs with
  | nil => rfl
  | cons kv kvs ih => simp only [safeMembers, ih, List.map_cons]

theorem safeValue_wf (v : Json F) (h : v.WF) : (safeValue v).WF := by
  induction v using Json.inductOn with
  | null => trivial
  | bool b => trivial
  | int n => trivial
  | float f => unfold safeValue; split <;> trivial
  | str s => trivial
  | arr xs ih =>
      have h' := wfList_iff.1 h
      simp only [safeValue, safeItems_eq]
      refine wfList_iff.2 fun x hx => ?_
      obtain ⟨y, hy, rfl⟩ := List.mem_map.1 hx
      exact ih y hy (h' y hy)
  | obj kvs ih =>
      have h' := wfMembers_iff.1 h.2
      simp only [safeValue, safeMembers_eq]
      refine ⟨by simpa [Function.comp_def] using h.1, wfMembers_iff.2 fun kv hkv => ?_⟩
      obtain ⟨y, hy, rfl⟩ := List.mem_map.1 hkv
      exact ih y hy (h' y hy)

variable {H : HexDigest} {stamp : Stamp F} {lastHash : PyStr} {lastSequence : Int}
variable {input : RecordInput F} {entry : Mapping F}

/-- A built entry is the fields and their hash. -/
theorem buildEntry_eq (h : buildEntry H stamp lastHash lastSequence input = .ok entry) :
    ∃ hash, recordHash H (entryFields stamp lastHash lastSequence input) = .ok hash ∧
      entry = entryFields stamp lastHash lastSequence input ++ [(py "record_hash", .str hash)] := by
  unfold buildEntry at h
  split at h
  · exact absurd h (by simp)
  · next hash hhash =>
    simp only [Except.ok.injEq] at h
    exact ⟨hash, hhash, h.symm⟩

theorem recordHash_hex {hash : PyStr} {fields : Mapping F} (h : recordHash H fields = .ok hash) :
    validHexHash hash = true := by
  unfold recordHash at h
  split at h
  · exact absurd h (by simp)
  · simp only [Except.ok.injEq] at h
    exact h ▸ H.hex _

/-- What the verifier and the next append read of a built entry. -/
structure Built (H : HexDigest) (lastHash : PyStr) (lastSequence : Int) (hash : PyStr)
    (entry : Mapping F) : Prop where
  wf : (Json.obj entry).WF
  hash_eq : lookup (py "record_hash") entry = some (.str hash)
  prev_eq : lookup (py "prev_hash") entry = some (.str lastHash)
  sequence_eq : lookup (py "sequence") entry = some (.int (lastSequence + 1))
  rehash : recordHash H (remove (py "record_hash") entry) = .ok hash
  required : ∀ k ∈ ["timestamp", "source", "subject", "payload", "prev_hash", "record_hash"],
    (lookup (py k) entry).isSome = true

theorem buildEntry_built (h : buildEntry H stamp lastHash lastSequence input = .ok entry) :
    ∃ hash, Built H lastHash lastSequence hash entry ∧ validHexHash hash = true := by
  obtain ⟨hash, hhash, rfl⟩ := buildEntry_eq h
  refine ⟨hash, ⟨⟨?_, ?_⟩, rfl, rfl, rfl, ?_, ?_⟩, recordHash_hex hhash⟩
  · have hkeys : (entryFields stamp lastHash lastSequence input ++
        [(py "record_hash", Json.str hash)]).map Prod.fst =
        ["schema_version", "record_id", "sequence", "timestamp", "timestamp_utc", "source",
          "subject", "payload", "prev_hash", "record_hash"].map py := rfl
    rw [hkeys]
    decide
  · have hpayload := safeValue_wf _ input.wf
    refine wfMembers_iff.2 fun kv hkv => ?_
    simp only [entryFields, List.cons_append, List.nil_append, List.mem_cons, List.not_mem_nil,
      or_false] at hkv
    rcases hkv with rfl | rfl | rfl | rfl | rfl | rfl | rfl | rfl | rfl | rfl
    all_goals first | exact hpayload | trivial
  · exact hhash
  · intro k hk
    simp only [List.mem_cons, List.not_mem_nil, or_false] at hk
    rcases hk with rfl | rfl | rfl | rfl | rfl | rfl <;> rfl

/-- The line of an entry: its compact text, and a line feed that nothing before it can be. -/
theorem encodeLine_eq {line : Bytes} (h : encodeLine entry = .ok line) :
    ∃ text body, dumps .compact false (.obj entry) = some text ∧ encodeUtf8 text = some body ∧
      line = body ++ [lf] ∧ (∀ b ∈ body, b ≠ lf ∧ b ≠ cr) ∧ body.head? = some 123 := by
  unfold encodeLine at h
  split at h
  · exact absurd h (by simp)
  · next text htext =>
    unfold encode at h
    split at h
    · exact absurd h (by simp)
    · next data hdata =>
      simp only [Except.ok.injEq] at h
      subst h
      obtain ⟨body, b', hbody, hb', rfl⟩ := encodeUtf8_append.1 hdata
      have hlf : b' = [lf] := by simpa [encodeUtf8, utf8Char] using hb'.symm
      refine ⟨text, body, htext, hbody, by rw [hlf], fun b hb => ?_, ?_⟩
      · obtain ⟨-, rfl⟩ := encodable_of_dumps htext
        have hprint : b.toNat < 128 → 32 ≤ b.toNat := fun hlt =>
          print_printable Layout.compact_oneLine (.obj entry) 0 _
            (ascii_mem_encodeUtf8 hbody hb hlt)
        constructor
        · rintro rfl
          exact absurd (hprint (by decide)) (by decide)
        · rintro rfl
          exact absurd (hprint (by decide)) (by decide)
      · obtain ⟨s, rfl⟩ := dumps_obj_head htext
        obtain ⟨b₁, b₂, hb₁, -, rfl⟩ := encodeUtf8_cons.1 hbody
        have hbrace : b₁ = [123] := by simpa [utf8Char] using hb₁.symm
        rw [hbrace]
        rfl

end Facts

end Elyra.Audit
