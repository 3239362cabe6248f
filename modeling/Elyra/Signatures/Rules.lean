import Elyra.Audit.Record
import Elyra.Posix.Files
import Elyra.Signatures.Version

set_option autoImplicit false

/-! # Rule bundles

`signatures/rules.py` without the store: the checks of a bundle, its digest, and the file it is read
from. A bundle is a mapping of JSON values. The digest is taken over the compact text of the bundle
without its digest field, so it does not depend on the order of the members, and a bundle that is
written in another layout and read back has the same one (`parseBundle_encode`). -/

namespace Elyra.Signatures

open Elyra.Python Elyra.Posix
open Elyra.Audit (validHexHash)

variable {F : Type}

/-- `bundle` is a `RuleBundleError`; `unicode`, `jsonDecode` and `value` are the other
    `ValueError`s. -/
inductive Exc where
  | os (e : Errno)
  | bundle (text : PyStr)
  | unicode
  | jsonDecode
  | value
  | type
  deriving DecidableEq, Repr

def require (ok : Bool) (text : PyStr) : Except Exc Unit :=
  if ok then .ok () else .error (.bundle text)

/-! ## Fields -/

def schemaVersion : PyStr := py "elyra.rules.v1"

def isText (s : PyStr) : Option (Json F) → Bool
  | some (.str t) => decide (t = s)
  | _ => false

/-- `isinstance(value, str) and value.strip()` -/
def isNonBlank : Option (Json F) → Bool
  | some (.str s) => !(strip s).isEmpty
  | _ => false

def isNonEmptyText : Option (Json F) → Bool
  | some (.str s) => !s.isEmpty
  | _ => false

def hasSemver : Option (Json F) → Bool
  | some (.str s) => isSemver s
  | _ => false

/-- `[A-Z0-9_.-]` -/
def isRuleIdChar (c : Nat) : Bool :=
  (65 ≤ c && c ≤ 90) || isDigit c || c == 95 || c == 46 || c == 45

/-- `_RULE_ID.fullmatch`. -/
def isRuleId : PyStr → Bool
  | [] => false
  | c :: rest =>
      65 ≤ c && c ≤ 90 && 2 ≤ rest.length && rest.length ≤ 127 && rest.all isRuleIdChar

def checkProvenance (trusted : Option (List PyStr)) : Option (Json F) → Except Exc Unit
  | some (.obj provenance) =>
      match lookup (py "source") provenance with
      | some (.str source) => do
          require (!(strip source).isEmpty) (py "provenance.source must be a non-empty string")
          require (trusted.all (source ∈ ·)) (py "untrusted rule source: " ++ source)
      | _ => .error (.bundle (py "provenance.source must be a non-empty string"))
  | _ => .error (.bundle (py "provenance must be an object"))

/-- `rule.get("match_type") not in {...}`, which hashes the value. -/
def checkMatchType (id : PyStr) : Option (Json F) → Except Exc Unit
  | some (.str s) =>
      require (s ∈ [py "sha256", py "literal", py "yara"]) (py "unsupported match_type: " ++ id)
  | some (.arr _) | some (.obj _) => .error .type
  | _ => .error (.bundle (py "unsupported match_type: " ++ id))

/-- One round of the loop over the rules: the id of the rule. -/
def checkRule (seen : List PyStr) : Json F → Except Exc PyStr
  | .obj rule =>
      match lookup (py "id") rule with
      | some (.str id) => do
          require (isRuleId id) (py "rule id has invalid format")
          require (id ∉ seen) (py "duplicate rule id: " ++ id)
          require (isNonBlank (lookup (py "description") rule))
            (py "rule description missing: " ++ id)
          checkMatchType id (lookup (py "match_type") rule)
          require (isNonEmptyText (lookup (py "value") rule)) (py "rule value missing: " ++ id)
          return id
      | _ => .error (.bundle (py "rule id has invalid format"))
  | _ => .error (.bundle (py "each rule must be an object"))

def checkRuleList : List PyStr → List (Json F) → Except Exc Unit
  | _, [] => .ok ()
  | seen, rule :: rules => do
      let id ← checkRule seen rule
      checkRuleList (id :: seen) rules

def checkRules : Option (Json F) → Except Exc Unit
  | some (.arr (rule :: rules)) => checkRuleList [] (rule :: rules)
  | _ => .error (.bundle (py "rules must be a non-empty array"))

def requiredFields : List PyStr :=
  [py "bundle_id", py "bundle_version", py "provenance", py "rules", py "content_sha256"]

/-- The loop over the required fields. -/
def checkRequired (bundle : Mapping F) : List PyStr → Except Exc Unit
  | [] => .ok ()
  | key :: keys => do
      require (lookup key bundle).isSome (py "missing required field: " ++ key)
      checkRequired bundle keys

/-! ## Digest -/

section Digest

variable [PyFloat F]

/-- `_canonical_payload`. -/
def canonicalPayload (bundle : Mapping F) : Except Exc Bytes :=
  match dumpsSorted .compact true (.obj (remove (py "content_sha256") bundle)) with
  | none => .error .value
  | some text =>
      match encodeUtf8 (text ++ [10]) with
      | none => .error .unicode
      | some data => .ok data

def contentSha256 (bundle : Mapping F) : Except Exc PyStr :=
  (canonicalPayload bundle).map sha256

def checkDigest (bundle : Mapping F) : Except Exc Unit :=
  match lookup (py "content_sha256") bundle with
  | some (.str digest) => do
      require (validHexHash digest) (py "content_sha256 must be a lowercase SHA-256 digest")
      let content ← contentSha256 bundle
      require (decide (digest = content)) (py "rule bundle content hash mismatch")
  | _ => .error (.bundle (py "content_sha256 must be a lowercase SHA-256 digest"))

def validateBundle (trusted : Option (List PyStr)) (bundle : Mapping F) : Except Exc Unit := do
  require (isText schemaVersion (lookup (py "schema_version") bundle))
    (py "unsupported rule bundle schema")
  checkRequired bundle requiredFields
  require (isNonBlank (lookup (py "bundle_id") bundle)) (py "bundle_id must be a non-empty string")
  require (hasSemver (lookup (py "bundle_version") bundle))
    (py "bundle_version must use semantic versioning")
  checkProvenance trusted (lookup (py "provenance") bundle)
  checkRules (lookup (py "rules") bundle)
  checkDigest bundle

/-- `create_bundle`. -/
def createBundle (bundleId bundleVersion : PyStr) (provenance : Mapping F)
    (rules : List (Mapping F)) : Except Exc (Mapping F) := do
  let fields : Mapping F :=
    [(py "schema_version", .str schemaVersion), (py "bundle_id", .str bundleId),
      (py "bundle_version", .str bundleVersion), (py "provenance", .obj provenance),
      (py "rules", .arr (rules.map .obj))]
  let digest ← contentSha256 fields
  let bundle := fields ++ [(py "content_sha256", .str digest)]
  validateBundle none bundle
  return bundle

/-! ## Files -/

/-- `text.encode("utf-8")` -/
def encodeText (text : PyStr) : Except Exc Bytes :=
  match encodeUtf8 text with
  | none => .error .unicode
  | some data => .ok data

/-- What text mode makes of line ends when it reads. -/
def universalNewlines : PyStr → PyStr
  | [] => []
  | 13 :: 10 :: s => 10 :: universalNewlines s
  | 13 :: s => 10 :: universalNewlines s
  | c :: s => c :: universalNewlines s

def unreadable (str : Exc → PyStr) (e : Exc) : Exc :=
  .bundle (py "unable to read rule bundle: " ++ str e)

/-- `load_bundle`, from the bytes of the file; `str` is the text of an exception. -/
@[irreducible]
def parseBundle (str : Exc → PyStr) (trusted : Option (List PyStr)) (data : Bytes) :
    Except Exc (Mapping F) :=
  match decodeUtf8 data with
  -- a `UnicodeDecodeError` is a `ValueError`, but neither of the two that are caught
  | none => .error .unicode
  | some text =>
      match loads (universalNewlines text) with
      | .error .jsonDecodeError => .error (unreadable str .jsonDecode)
      | .error .valueError => .error .value
      | .ok (.obj bundle) => do
          validateBundle trusted bundle
          return bundle
      | .ok _ => .error (.bundle (py "bundle must be a JSON object"))

/-- `json.dumps(bundle, ensure_ascii=False, sort_keys=True, indent=2) + "\n"` -/
@[irreducible]
def prettyText (bundle : Mapping F) : Except Exc PyStr :=
  match dumpsSorted (.indented 2) true (.obj bundle) with
  | none => .error .value
  | some text => .ok (text ++ [10])

/-- `(?:[-+].*)?` -/
def isVersionRest : PyStr → Bool
  | [] => true
  | c :: rest => (c == 45 || c == 43) && decide (10 ∉ rest)

/-- `_version_key`. Its texts have passed `_SEMVER`, so the digits are ASCII. -/
def versionKey (s : PyStr) : Except Exc Triple :=
  match numbersOf s with
  | none => .error (.bundle (py "invalid semantic version"))
  | some n =>
      if isVersionRest n.rest then
        if [n.major, n.minor, n.patch].all (·.length ≤ maxStrDigits) then .ok n.triple
        else .error .value
      else .error (.bundle (py "invalid semantic version"))

end Digest

/-! ## Accepted bundles -/

section Accepted

theorem require_ok_iff {ok : Bool} {text : PyStr} : require ok text = .ok () ↔ ok = true := by
  unfold require
  split <;> simp_all

theorem except_bind_ok_iff {α β : Type} {x : Except Exc α} {g : α → Except Exc β} {b : β} :
    (x >>= g) = .ok b ↔ ∃ a, x = .ok a ∧ g a = .ok b := by
  cases x with
  | error e => simp [bind, Except.bind]
  | ok a => simp [bind, Except.bind]

/-- A check that succeeds, and what follows it. -/
theorem require_bind_ok_iff {α : Type} {ok : Bool} {text : PyStr} {g : Unit → Except Exc α} {a : α} :
    (require ok text >>= g) = .ok a ↔ ok = true ∧ g () = .ok a := by
  rw [except_bind_ok_iff]
  constructor
  · rintro ⟨u, hok, hg⟩
    exact ⟨require_ok_iff.1 hok, hg⟩
  · rintro ⟨hok, hg⟩
    exact ⟨(), require_ok_iff.2 hok, hg⟩

/-! ### In key order -/

theorem isText_sortKeys (s : PyStr) (v : Option (Json F)) :
    isText s (v.map Json.sortKeys) = isText s v := by
  rcases v with - | v
  · rfl
  · cases v <;> rfl

theorem isNonBlank_sortKeys (v : Option (Json F)) :
    isNonBlank (v.map Json.sortKeys) = isNonBlank v := by
  rcases v with - | v
  · rfl
  · cases v <;> rfl

theorem isNonEmptyText_sortKeys (v : Option (Json F)) :
    isNonEmptyText (v.map Json.sortKeys) = isNonEmptyText v := by
  rcases v with - | v
  · rfl
  · cases v <;> rfl

theorem hasSemver_sortKeys (v : Option (Json F)) :
    hasSemver (v.map Json.sortKeys) = hasSemver v := by
  rcases v with - | v
  · rfl
  · cases v <;> rfl

theorem checkMatchType_sortKeys (id : PyStr) (v : Option (Json F)) :
    checkMatchType id (v.map Json.sortKeys) = checkMatchType id v := by
  rcases v with - | v
  · rfl
  · cases v <;> rfl

variable {trusted : Option (List PyStr)} {bundle : Mapping F}

theorem checkProvenance_sortKeys {v : Option (Json F)} (hwf : ∀ w, v = some w → w.WF) :
    checkProvenance trusted (v.map Json.sortKeys) = checkProvenance trusted v := by
  rcases v with - | v
  · rfl
  cases v with
  | obj provenance =>
      simp only [Option.map_some, Json.sortKeys, checkProvenance,
        lookup_sortKeys (hwf _ rfl).1]
      rcases lookup (py "source") provenance with - | w
      · rfl
      · cases w <;> rfl
  | null | bool | int | float | str | arr => rfl

theorem checkRule_sortKeys (seen : List PyStr) {rule : Json F} (hwf : rule.WF) :
    checkRule seen rule.sortKeys = checkRule seen rule := by
  cases rule with
  | obj rule =>
      simp only [Json.sortKeys, checkRule, lookup_sortKeys hwf.1, isNonBlank_sortKeys,
        isNonEmptyText_sortKeys, checkMatchType_sortKeys]
      rcases lookup (py "id") rule with - | w
      · rfl
      · cases w <;> rfl
  | null | bool | int | float | str | arr => rfl

theorem checkRuleList_sortKeys {rules : List (Json F)} (hwf : ∀ rule ∈ rules, rule.WF) :
    ∀ seen, checkRuleList seen (rules.map Json.sortKeys) = checkRuleList seen rules := by
  induction rules with
  | nil => intro seen; rfl
  | cons rule rules ih =>
      intro seen
      have hrest := ih fun r hr => hwf r (List.mem_cons_of_mem _ hr)
      simp only [List.map_cons, checkRuleList, checkRule_sortKeys seen (hwf _ (List.mem_cons_self ..)),
        hrest]

theorem checkRules_sortKeys {v : Option (Json F)} (hwf : ∀ w, v = some w → w.WF) :
    checkRules (v.map Json.sortKeys) = checkRules v := by
  rcases v with - | v
  · rfl
  cases v with
  | arr rules =>
      have hrules : ∀ rule ∈ rules, rule.WF := wfList_iff.1 (hwf _ rfl)
      cases rules with
      | nil => rfl
      | cons rule rules =>
          simp only [Option.map_some, Json.sortKeys, sortKeysList_eq, List.map_cons, checkRules]
          exact checkRuleList_sortKeys hrules []
  | null | bool | int | float | str | obj => rfl

/-- The bundle with its members, at every depth, in key order. -/
def sorted (bundle : Mapping F) : Mapping F := sortMembers (sortKeysMembers bundle)

theorem obj_sorted (bundle : Mapping F) : Json.obj (sorted bundle) = (Json.obj bundle).sortKeys := rfl

theorem checkRequired_sorted (hnd : (bundle.map Prod.fst).Nodup) (keys : List PyStr) :
    checkRequired (sorted bundle) keys = checkRequired bundle keys := by
  induction keys with
  | nil => rfl
  | cons key keys ih =>
      have hkey : (lookup key (sorted bundle)).isSome = (lookup key bundle).isSome := by
        rw [sorted, lookup_sortKeys hnd, Option.isSome_map]
      simp only [checkRequired, ih, hkey]

/-- Dictionaries that are equal up to order stay so without one of their members. -/
theorem sortKeys_remove_congr {k : PyStr} {v : Json F} {kvs kvs' : List (PyStr × Json F)}
    (hnd : (kvs.map Prod.fst).Nodup) (hv : lookup k kvs = some v) (hv' : lookup k kvs' = some v)
    (h : (Json.obj kvs).sortKeys = (Json.obj kvs').sortKeys) :
    (Json.obj (remove k kvs)).sortKeys = (Json.obj (remove k kvs')).sortKeys := by
  simp only [Json.sortKeys, Json.obj.injEq, sortKeysMembers_eq] at h ⊢
  set f : PyStr × Json F → PyStr × Json F := fun kv => (kv.1, kv.2.sortKeys) with hf
  have hall : (kvs.map f).Perm (kvs'.map f) :=
    (sortMembers_perm _).symm.trans (h ▸ sortMembers_perm _)
  have hcons : ((k, v.sortKeys) :: (remove k kvs).map f).Perm
      ((k, v.sortKeys) :: (remove k kvs').map f) :=
    (((remove_perm hv).map f).symm.trans hall).trans ((remove_perm hv').map f)
  refine sortMembers_eq_of_perm ?_ hcons.cons_inv
  rw [List.map_map]
  exact remove_nodup hnd

variable [PyFloat F]

theorem canonicalPayload_sorted {digest : PyStr} (hwf : (Json.obj bundle).WF)
    (hkey : lookup (py "content_sha256") bundle = some (.str digest)) :
    canonicalPayload (sorted bundle) = canonicalPayload bundle := by
  have hkey' : lookup (py "content_sha256") (sorted bundle) = some (.str digest) := by
    rw [sorted, lookup_sortKeys hwf.1, hkey]
    rfl
  have hsame : (Json.obj bundle).sortKeys = (Json.obj (sorted bundle)).sortKeys := by
    rw [obj_sorted, sortKeys_sortKeys]
  unfold canonicalPayload
  rw [dumpsSorted_congr (sortKeys_remove_congr hwf.1 hkey hkey' hsame)]

theorem checkDigest_sorted (hwf : (Json.obj bundle).WF) :
    checkDigest (sorted bundle) = checkDigest bundle := by
  have hlookup : lookup (py "content_sha256") (sorted bundle) =
      (lookup (py "content_sha256") bundle).map Json.sortKeys := lookup_sortKeys hwf.1 _
  unfold checkDigest
  rw [hlookup]
  rcases hv : lookup (py "content_sha256") bundle with - | v
  · rfl
  cases v with
  | str digest =>
      simp only [Option.map_some, Json.sortKeys, contentSha256, canonicalPayload_sorted hwf hv]
  | null | bool | int | float | arr | obj => rfl

/-- **The checks do not depend on the order of the members.** -/
theorem validateBundle_sorted (hwf : (Json.obj bundle).WF) :
    validateBundle trusted (sorted bundle) = validateBundle trusted bundle := by
  have hlookup : ∀ key, lookup key (sorted bundle) = (lookup key bundle).map Json.sortKeys :=
    lookup_sortKeys hwf.1
  have hmember : ∀ key w, lookup key bundle = some w → w.WF := fun key w hw =>
    wfMembers_iff.1 hwf.2 _ (mem_of_lookup hw)
  unfold validateBundle
  simp only [hlookup, isText_sortKeys, isNonBlank_sortKeys, hasSemver_sortKeys,
    checkRequired_sorted hwf.1, checkProvenance_sortKeys (hmember _), checkRules_sortKeys (hmember _),
    checkDigest_sorted hwf]

/-! ### Reading back -/

theorem universalNewlines_of_not_mem {s : PyStr} (h : 13 ∉ s) : universalNewlines s = s := by
  fun_induction universalNewlines s with
  | case1 => rfl
  | case2 s ih => exact absurd (List.mem_cons_self ..) h
  | case3 s _ ih => exact absurd (List.mem_cons_self ..) h
  | case4 c s _ _ ih => rw [ih fun hs => h (List.mem_cons_of_mem _ hs)]

/-- An indented text has no carriage return. -/
theorem print_indented_ne_cr (n l : Nat) (v : Json F) : ∀ c ∈ v.print (.indented n) l, c ≠ 13 := by
  have hws : ∀ l, ∀ c ∈ (10 :: List.replicate (n * l) 32), c ≠ 13 := by
    intro l c hc
    rcases List.mem_cons.1 hc with rfl | hc
    · decide
    · obtain rfl := List.eq_of_mem_replicate hc
      decide
  have hquote : ∀ s ∈ v.strings, ∀ c ∈ quote s, c ≠ 13 := by
    intro s _ c hc
    rcases quote_chars s c hc with h | h
    · exact Nat.ne_of_gt (lt_of_lt_of_le (by decide) h.1)
    · exact Nat.ne_of_gt (lt_of_lt_of_le (by decide) h.2)
  refine print_chars ?_ hws ?_ hws v hquote l
  · intro c hc
    exact Nat.ne_of_gt (lt_of_lt_of_le (by decide) hc.1)
  · simp [Layout.indented]

theorem prettyText_ok {text : PyStr} (h : prettyText bundle = .ok text) :
    ∃ t, dumpsSorted (.indented 2) true (.obj bundle) = some t ∧ text = t ++ [10] := by
  unfold prettyText at h
  split at h
  · exact absurd h (by simp)
  · next t ht => exact ⟨t, ht, (Except.ok.inj h).symm⟩

theorem encodeText_ok {text : PyStr} {data : Bytes} (h : encodeText text = .ok data) :
    encodeUtf8 text = some data := by
  unfold encodeText at h
  split at h
  · exact absurd h (by simp)
  · next t ht => rw [ht, Except.ok.inj h]

/-- **Round trip of a bundle.** Reading gives the bundle that was written, in key order. -/
theorem parseBundle_encode {str : Exc → PyStr} {data : Bytes} (hwf : (Json.obj bundle).WF)
    (hvalid : validateBundle trusted bundle = .ok ())
    (h : (prettyText bundle >>= encodeText) = .ok data) :
    parseBundle str trusted data = .ok (sorted bundle) := by
  obtain ⟨text, hpretty, hencode⟩ := except_bind_ok_iff.1 h
  obtain ⟨t, ht, rfl⟩ := prettyText_ok hpretty
  have hcr : (13 : Nat) ∉ t ++ [10] := by
    have ht' := (encodable_of_dumps ht).2
    intro hmem
    rcases List.mem_append.1 hmem with hc | hc
    · rw [ht'] at hc
      exact print_indented_ne_cr _ _ _ _ hc rfl
    · exact absurd hc (by decide)
  have hloads : loads (t ++ [10]) = .ok (Json.obj bundle).sortKeys :=
    loads_dumps_append (sortKeys_wf _ hwf) ht rfl
  have hvalid' := (@validateBundle_sorted F trusted bundle _ hwf).trans hvalid
  unfold parseBundle
  simp only [decodeUtf8_encodeUtf8 (encodeText_ok hencode), universalNewlines_of_not_mem hcr, hloads,
    ← obj_sorted, hvalid', bind, Except.bind, pure, Except.pure]

theorem digest_of_validate (h : validateBundle trusted bundle = .ok ()) :
    ∃ digest data, lookup (py "content_sha256") bundle = some (.str digest) ∧
      validHexHash digest = true ∧ canonicalPayload bundle = .ok data ∧ digest = sha256 data := by
  unfold validateBundle at h
  obtain ⟨-, h⟩ := require_bind_ok_iff.1 h
  obtain ⟨-, -, h⟩ := except_bind_ok_iff.1 h
  obtain ⟨-, h⟩ := require_bind_ok_iff.1 h
  obtain ⟨-, h⟩ := require_bind_ok_iff.1 h
  obtain ⟨-, -, h⟩ := except_bind_ok_iff.1 h
  obtain ⟨-, -, h⟩ := except_bind_ok_iff.1 h
  unfold checkDigest at h
  split at h
  · next digest hdigest =>
    obtain ⟨hhex, h⟩ := require_bind_ok_iff.1 h
    obtain ⟨content, hcontent, h⟩ := except_bind_ok_iff.1 h
    have heq := of_decide_eq_true (require_ok_iff.1 h)
    unfold contentSha256 at hcontent
    cases hpayload : canonicalPayload bundle with
    | error e => rw [hpayload] at hcontent; exact absurd hcontent (by simp [Except.map])
    | ok data =>
        rw [hpayload] at hcontent
        exact ⟨digest, data, hdigest, hhex, rfl, heq.trans (Except.ok.inj hcontent).symm⟩
  · exact absurd h (by simp)

/-- **An accepted bundle can be written**: its digest has needed the same numbers and characters. -/
theorem encodes_of_validate (h : validateBundle trusted bundle = .ok ()) :
    ∃ data, (prettyText bundle >>= encodeText) = .ok data := by
  obtain ⟨digest, payload, hdigest, hhex, hpayload, -⟩ := digest_of_validate h
  have hperm := remove_perm hdigest
  unfold canonicalPayload at hpayload
  split at hpayload
  · exact absurd hpayload (by simp)
  next text htext =>
  split at hpayload
  · exact absurd hpayload (by simp)
  next hencode =>
  obtain ⟨henc, rfl⟩ := encodable_of_dumps htext
  have henc' : (Json.obj bundle).sortKeys.encodable true = true := by
    rw [encodable_sortKeys] at henc ⊢
    simp only [Json.encodable, encodableMembers_iff] at henc ⊢
    intro kv hkv
    rcases List.mem_cons.1 (hperm.mem_iff.1 hkv) with rfl | hkv
    · rfl
    · exact henc kv hkv
  have hchars : ∀ s ∈ (Json.obj bundle).sortKeys.strings, ∀ c ∈ s, (utf8Char c).isSome = true := by
    intro s hs c hc
    by_cases hlt : c < 128
    · simp [utf8Char, hlt]
    have hascii : ∀ t : PyStr, (∀ x ∈ t, x < 128) → s ≠ t := by
      rintro t ht rfl
      exact hlt (ht c hc)
    rw [mem_strings_sortKeys] at hs
    simp only [Json.strings, stringsMembers_eq, List.mem_flatMap, List.mem_cons] at hs
    obtain ⟨kv, hkv, hs⟩ := hs
    have hrest : s ∈ (Json.obj (remove (py "content_sha256") bundle)).sortKeys.strings := by
      rw [mem_strings_sortKeys]
      simp only [Json.strings, stringsMembers_eq, List.mem_flatMap, List.mem_cons]
      rcases List.mem_cons.1 (hperm.mem_iff.1 hkv) with rfl | hkv
      · rcases hs with hs | hs
        · exact absurd hs (hascii (py "content_sha256") (by decide))
        · refine absurd (List.mem_singleton.1 hs) (hascii _ fun x hx => ?_)
          simp only [validHexHash, Bool.and_eq_true, List.all_eq_true] at hhex
          have := hhex.2 x hx
          simp only [Audit.isHexDigit, isDigit, Bool.or_eq_true, Bool.and_eq_true,
            decide_eq_true_eq] at this
          omega
      · exact ⟨kv, hkv, hs⟩
    have hmem := mem_print_of_mem_strings .compact _ hc (not_lt.1 hlt) 0 hrest
    exact utf8Char_of_encodeUtf8 hencode c (List.mem_append_left _ hmem)
  obtain ⟨bytes, hbytes⟩ := encodeUtf8_print (.indented 2) _ 0 hchars
  have hpretty : prettyText bundle = .ok ((Json.obj bundle).sortKeys.print (.indented 2) 0 ++ [10]) := by
    unfold prettyText dumpsSorted dumps
    rw [if_pos henc']
  have htext : encodeUtf8 ((Json.obj bundle).sortKeys.print (.indented 2) 0 ++ [10]) =
      some (bytes ++ [10]) :=
    encodeUtf8_append.2 ⟨bytes, [10], hbytes, rfl, rfl⟩
  exact ⟨_, except_bind_ok_iff.2 ⟨_, hpretty, by rw [encodeText, htext]⟩⟩

/-- A bundle that has been created is accepted. -/
theorem createBundle_ok {bundleId version : PyStr} {provenance : Mapping F}
    {rules : List (Mapping F)} (h : createBundle bundleId version provenance rules = .ok bundle) :
    validateBundle none bundle = .ok () ∧ ∃ digest, bundle =
      [(py "schema_version", .str schemaVersion), (py "bundle_id", .str bundleId),
        (py "bundle_version", .str version), (py "provenance", .obj provenance),
        (py "rules", .arr (rules.map .obj)), (py "content_sha256", .str digest)] := by
  obtain ⟨digest, -, h⟩ := except_bind_ok_iff.1 h
  obtain ⟨u, hvalid, h⟩ := except_bind_ok_iff.1 h
  cases h
  exact ⟨hvalid, digest, rfl⟩

theorem createBundle_wf {bundleId version : PyStr} {provenance : Mapping F}
    {rules : List (Mapping F)} (h : createBundle bundleId version provenance rules = .ok bundle)
    (hprovenance : (Json.obj provenance).WF) (hrules : ∀ rule ∈ rules, (Json.obj rule).WF) :
    (Json.obj bundle).WF := by
  obtain ⟨-, digest, rfl⟩ := createBundle_ok h
  have hlist : wfList (rules.map (Json.obj : Mapping F → Json F)) := by
    refine wfList_iff.2 fun v hv => ?_
    obtain ⟨rule, hrule, rfl⟩ := List.mem_map.1 hv
    exact hrules rule hrule
  exact ⟨by simp only [List.map_cons, List.map_nil]; decide, trivial, trivial, trivial, hprovenance, hlist, trivial,
    trivial⟩

/-! ### Versions -/

/-- The version of a bundle that is accepted. -/
theorem version_of_validate (h : validateBundle trusted bundle = .ok ()) :
    ∃ s n, lookup (py "bundle_version") bundle = some (.str s) ∧ isSemver s = true ∧
      numbersOf s = some n := by
  unfold validateBundle at h
  obtain ⟨-, h⟩ := require_bind_ok_iff.1 h
  obtain ⟨-, -, h⟩ := except_bind_ok_iff.1 h
  obtain ⟨-, h⟩ := require_bind_ok_iff.1 h
  obtain ⟨hversion, -⟩ := require_bind_ok_iff.1 h
  unfold hasSemver at hversion
  split at hversion
  · next s hs =>
    obtain ⟨n, hn⟩ := numbersOf_of_isSemver hversion
    exact ⟨s, n, hs, hversion, hn⟩
  · exact absurd hversion (by simp)

theorem versionKey_ok {s : PyStr} {n : Numbers} {key : Triple} (hn : numbersOf s = some n)
    (h : versionKey s = .ok key) : key = n.triple := by
  simp only [versionKey, hn] at h
  split at h
  · split at h
    · exact (Except.ok.inj h).symm
    · exact absurd h (by simp)
  · exact absurd h (by simp)

end Accepted

end Elyra.Signatures
