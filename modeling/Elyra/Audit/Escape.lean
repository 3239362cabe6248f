import Elyra.Audit.Tamper

set_option autoImplicit false
set_option linter.unusedSectionVars false

/-! # Exceptions that escape verification

`verify_audit_directory` turns a `UnicodeDecodeError` and a `JSONDecodeError` into a report. Two other
exceptions pass through it: the plain `ValueError` of `json.loads` for an integer beyond the digit
limit, and what `_record_hash` raises for a record that was read but cannot be encoded again
(`Hashable`). `Fatal` is a line that raises one of them, given the chain before it, and
`verification_returns_iff` says that verification returns a report exactly when it reads no such
line: one that stands behind other damage is never reached. -/

namespace Elyra.Audit

open Elyra.Python

variable {F : Type} [FloatNum F] {H : HexDigest}

/-! ## Records that cannot be hashed -/

/-- What `_record_hash` can encode: no lone surrogate, and no `NaN` or `Infinity` under
    `allow_nan=False`, which only the schema `2.0` sets. -/
structure Hashable (entry : Mapping F) : Prop where
  text : (Json.obj entry).Utf8
  finite : isCurrent entry = true → ∀ f ∈ (Json.obj entry).floats, PyFloat.finite f = true

theorem encode_ok_iff {text : PyStr} :
    (∃ data, encode text = .ok data) ↔ ∃ data, encodeUtf8 text = some data := by
  unfold encode
  cases encodeUtf8 text <;> simp

theorem hex_utf8 {s : PyStr} (h : validHexHash s = true) : Utf8 s := by
  simp only [validHexHash, Bool.and_eq_true, List.all_eq_true] at h
  intro c hc
  have hdigit := h.2 c hc
  simp only [isHexDigit, isDigit, Bool.or_eq_true, Bool.and_eq_true, decide_eq_true_eq] at hdigit
  have hlt : c < 0x80 := by omega
  simp [utf8Char, hlt]

theorem utf8_sortKeys {v : Json F} : v.sortKeys.Utf8 ↔ v.Utf8 :=
  forall_congr' fun s => imp_congr_left (mem_strings_sortKeys v s)

/-- The text after a prefix that is encodable. -/
theorem encodeUtf8_append_iff {pre text : PyStr} (hpre : Utf8 pre) :
    (∃ data, encodeUtf8 (pre ++ text) = some data) ↔ ∃ data, encodeUtf8 text = some data := by
  obtain ⟨b₁, hb₁⟩ := encodeUtf8_total hpre
  constructor
  · rintro ⟨data, hdata⟩
    obtain ⟨-, b₂, -, hb₂, -⟩ := encodeUtf8_append.1 hdata
    exact ⟨b₂, hb₂⟩
  · rintro ⟨b₂, hb₂⟩
    exact ⟨b₁ ++ b₂, encodeUtf8_append.2 ⟨b₁, b₂, hb₁, hb₂, rfl⟩⟩

/-- **A record has a hash exactly when it is hashable**, if its integers are within the limit and its
    previous hash is one. -/
theorem recordHash_ok_iff {entry : Mapping F} {prev : PyStr}
    (henc : (Json.obj entry).encodable true = true)
    (hprev : hexHashOf (lookup (py "prev_hash") entry) = some prev) :
    (∃ hash, recordHash H entry = .ok hash) ↔ Hashable entry := by
  have hinput : (∃ hash, recordHash H entry = .ok hash) ↔ ∃ data, hashInput entry = .ok data := by
    unfold recordHash
    cases hashInput entry <;> simp
  rw [hinput]
  have hsorted : (Json.obj entry).sortKeys.encodable true = true := (encodable_sortKeys _ _).2 henc
  cases hcurrent : isCurrent entry with
  | false =>
      have htext : canonicalJson true entry = .ok ((Json.obj entry).sortKeys.print .spaced 0) := by
        simp [canonicalJson, dumpsSorted, dumps, hsorted]
      have hpre : Utf8 (prevHashText entry) := by
        have hstr := hexHashOf_eq hprev
        rw [prevHashText, hstr]
        rw [hstr, hexHashOf] at hprev
        split at hprev
        · next hvalid => exact hex_utf8 hvalid
        · exact absurd hprev (by simp)
      simp only [hashInput, hcurrent, htext, Bool.false_eq_true, if_false]
      rw [encode_ok_iff, encodeUtf8_append_iff hpre, encodeUtf8_print_iff, utf8_sortKeys]
      exact ⟨fun h => ⟨h, fun h' => absurd h' (by simp [hcurrent])⟩, fun h => h.text⟩
  | true =>
      by_cases hfinite : (Json.obj entry).encodable false = true
      · have htext : canonicalJson false entry =
            .ok ((Json.obj entry).sortKeys.print .compact 0) := by
          simp [canonicalJson, dumpsSorted, dumps, (encodable_sortKeys _ _).2 hfinite]
        simp only [hashInput, hcurrent, htext, if_true]
        rw [encode_ok_iff, encodeUtf8_print_iff, utf8_sortKeys]
        exact ⟨fun h => ⟨h, fun _ => ((encodable_false_iff _).1 hfinite).2⟩, fun h => h.text⟩
      · have hno : ¬ (Json.obj entry).sortKeys.encodable false = true := fun h =>
          hfinite ((encodable_sortKeys _ _).1 h)
        have htext : canonicalJson false entry = .error .valueError := by
          simp [canonicalJson, dumpsSorted, dumps, hno]
        simp only [hashInput, hcurrent, htext, if_true]
        constructor
        · rintro ⟨data, h⟩
          exact absurd h (by simp)
        · intro h
          exact absurd ((encodable_false_iff _).2 ⟨henc, h.finite hcurrent⟩) hfinite

theorem remove_encodable {k : PyStr} {entry : Mapping F}
    (h : (Json.obj entry).encodable true = true) :
    (Json.obj (remove k entry)).encodable true = true :=
  encodableMembers_iff.2 fun kv hkv =>
    encodableMembers_iff.1 h kv ((remove_sublist k entry).subset hkv)

/-- The hash that verification recomputes for a record it has read. -/
theorem recordHash_removed_iff {text prev : PyStr} {entry : Mapping F}
    (hentry : loads text = .ok (.obj entry))
    (hprev : hexHashOf (lookup (py "prev_hash") entry) = some prev) :
    (∃ hash, recordHash H (remove (py "record_hash") entry) = .ok hash) ↔
      Hashable (remove (py "record_hash") entry) := by
  have hkept : hexHashOf (lookup (py "prev_hash") (remove (py "record_hash") entry)) = some prev := by
    rw [lookup_remove_ne (by decide)]
    exact hprev
  exact recordHash_ok_iff (remove_encodable (loads_encodable hentry)) hkept

/-! ## The chain and the lines -/

/-- A record that continues a chain: it has every field, points to the record before it, carries its
    own hash, and counts beyond the last number. -/
structure Continues (H : HexDigest) (link : Option PyStr) (last : Int) (entry : Mapping F)
    (hash : PyStr) (sequence : Int) : Prop where
  fields : missingFields entry = []
  hash_eq : hexHashOf (lookup (py "record_hash") entry) = some hash
  linked : ∃ prev, hexHashOf (lookup (py "prev_hash") entry) = some prev ∧
    (link = none ∨ link = some prev)
  rehash : recordHash H (remove (py "record_hash") entry) = .ok hash
  counted : nextSequence last (lookup (py "sequence") entry) = some sequence

/-- The records form a chain, which ends with this hash and this sequence number. -/
inductive WellChained (H : HexDigest) : List (Mapping F) → Option PyStr → Int → Prop
  | nil : WellChained H [] none 0
  | snoc {records : List (Mapping F)} {link : Option PyStr} {last : Int} {entry : Mapping F}
      {hash : PyStr} {sequence : Int} (h : WellChained H records link last)
      (hnext : Continues H link last entry hash sequence) :
      WellChained H (records ++ [entry]) (some hash) sequence

/-- The lines that verification can come to: those of the segments before the first incomplete one. -/
def completeLines : List (PyStr × Bytes) → List Bytes
  | [] => []
  | segment :: segments =>
      if segment.2 ≠ [] ∧ endsWithLf segment.2 = false then []
      else splitlines segment.2 ++ completeLines segments

/-- A line on which verification raises, with the hash that the chain before it ends with. -/
inductive Fatal (F : Type) [FloatNum F] (link : Option PyStr) (line : Bytes) : Prop
  /-- An integer beyond the digit limit: a `ValueError` that is no `JSONDecodeError`. -/
  | number {text : PyStr} (hblank : blank line = false) (htext : decodeUtf8 line = some text)
      (hnumber : loads (F := F) text = .error .valueError)
  /-- A record that passes every check before its hash, and has no encoding. -/
  | record {text hash prev : PyStr} {entry : Mapping F} (hblank : blank line = false)
      (htext : decodeUtf8 line = some text) (hentry : loads text = .ok (.obj entry))
      (hfields : missingFields entry = [])
      (hhash : hexHashOf (lookup (py "record_hash") entry) = some hash)
      (hprev : hexHashOf (lookup (py "prev_hash") entry) = some prev)
      (hlink : link = none ∨ link = some prev)
      (hencode : ¬ Hashable (remove (py "record_hash") entry))

/-- Verification comes to the line: the lines before it hold a chain, which ends with `link`. -/
def Reaches (F : Type) [FloatNum F] (H : HexDigest) (segments : List (PyStr × Bytes))
    (line : Bytes) (link : Option PyStr) : Prop :=
  ∃ (before after : List Bytes) (records : List (Mapping F)) (last : Int),
    completeLines segments = before ++ line :: after ∧ decodeAll before = some records ∧
      WellChained H records link last

theorem wellChained_iff {records : List (Mapping F)} {link : Option PyStr} {last : Int} :
    WellChained H records link last ↔
      ∃ s, checkAll H {} records = some s ∧ s.previousHash = link ∧ s.lastSequence = last := by
  constructor
  · intro h
    induction h with
    | nil => exact ⟨{}, rfl, rfl, rfl⟩
    | @snoc records link last entry hash sequence _ hnext ih =>
        obtain ⟨s, hs, rfl, rfl⟩ := ih
        obtain ⟨prev, hprev, hlink⟩ := hnext.linked
        obtain ⟨s', hs', hlast⟩ : ∃ s', checkRecord H s entry = .ok s' ∧
            s'.previousHash = some hash ∧ s'.lastSequence = sequence :=
          ⟨_, checkRecord_ok_iff.2 ⟨hash, prev, sequence, hnext.fields, hnext.hash_eq, hprev,
            hlink, hnext.rehash, hnext.counted, rfl⟩, rfl, rfl⟩
        exact ⟨s', checkAll_append.2 ⟨s, hs, by simp only [checkAll, hs']⟩, hlast⟩
  · induction records using List.reverseRecOn generalizing link last with
    | nil =>
        rintro ⟨s, hs, rfl, rfl⟩
        simp only [checkAll, Option.some.injEq] at hs
        subst hs
        exact .nil
    | append_singleton records entry ih =>
        rintro ⟨s, hs, rfl, rfl⟩
        obtain ⟨t, ht, hlast⟩ := checkAll_append.1 hs
        simp only [checkAll] at hlast
        split at hlast
        · next s' hs' =>
          simp only [Option.some.injEq] at hlast
          subst hlast
          obtain ⟨stored, prev, sequence, hfields, hhash, hprev, hlink, hrehash, hseq, rfl⟩ :=
            checkRecord_ok_iff.1 hs'
          exact .snoc (ih ⟨t, ht, rfl, rfl⟩)
            ⟨hfields, hhash, ⟨prev, hprev, hlink⟩, hrehash, hseq⟩
        · exact absurd hlast (by simp)

/-! ## The scan -/

/-- A decoded record has integers within the limit and distinct keys. -/
theorem decodeLine_record {line : Bytes} {entry : Mapping F}
    (h : decodeLine line = .ok (some entry)) :
    blank line = false ∧ ∃ text, decodeUtf8 line = some text ∧ loads text = .ok (.obj entry) := by
  unfold decodeLine at h
  split at h
  · exact absurd h (by simp)
  · next hblank =>
    refine ⟨by simpa using hblank, ?_⟩
    split at h
    · exact absurd h (by simp)
    · next text htext =>
      split at h
      all_goals simp only [Except.ok.injEq, Option.some.injEq, reduceCtorEq] at h
      next hloads => exact ⟨text, htext, h ▸ hloads⟩

theorem decodeLine_raised_iff {line : Bytes} :
    (∃ x, decodeLine (F := F) line = .error (.raised x)) ↔
      blank line = false ∧ ∃ text, decodeUtf8 line = some text ∧
        loads (F := F) text = .error .valueError := by
  unfold decodeLine
  cases hblank : blank line with
  | true => simp
  | false =>
      cases htext : decodeUtf8 line with
      | none => simp
      | some text =>
          cases hloads : loads (F := F) text with
          | error e => cases e <;> simp [hloads]
          | ok v => cases v <;> simp [hloads]

/-- A record raises when it passes the checks before its hash, and has none. -/
theorem checkRecord_raised_iff {s : Scan} {entry : Mapping F} :
    (∃ s' x, checkRecord H s entry = .error (s', .raised x)) ↔
      missingFields entry = [] ∧ ∃ hash prev,
        hexHashOf (lookup (py "record_hash") entry) = some hash ∧
        hexHashOf (lookup (py "prev_hash") entry) = some prev ∧
        (s.previousHash = none ∨ s.previousHash = some prev) ∧
        ¬ ∃ h, recordHash H (remove (py "record_hash") entry) = .ok h := by
  constructor
  · rintro ⟨s', x, h⟩
    unfold checkRecord at h
    split at h
    · exact absurd h (by simp)
    next hmissing =>
    split at h
    · next hash prev hhash hprev =>
      dsimp only at h
      split at h
      · exact absurd h (by simp)
      next hlink =>
      split at h
      · next y hy =>
        refine ⟨not_not.1 hmissing, hash, prev, hhash, hprev,
          Scan.start_link_iff.1 (not_not.1 hlink), ?_⟩
        rintro ⟨g, hg⟩
        rw [hy] at hg
        exact absurd hg (by simp)
      · split at h
        · exact absurd h (by simp)
        · split at h <;> exact absurd h (by simp)
    · exact absurd h (by simp)
  · rintro ⟨hmissing, hash, prev, hhash, hprev, hlink, hno⟩
    cases hrecord : recordHash H (remove (py "record_hash") entry) with
    | ok g => exact absurd ⟨g, hrecord⟩ hno
    | error x =>
        refine ⟨s.start prev, x, ?_⟩
        simp only [checkRecord, hmissing, hhash, hprev, Scan.start_link_iff.2 hlink, hrecord,
          ne_eq, not_true_eq_false, if_false]

/-- **One line raises exactly when it is fatal.** -/
theorem scanLine_raised_iff {s : Scan} {line : Bytes} :
    (∃ s' x, scanLine (F := F) H s line = .error (s', .raised x)) ↔
      Fatal F s.previousHash line := by
  constructor
  · rintro ⟨s', x, h⟩
    unfold scanLine at h
    split at h
    · next halt hline =>
      simp only [Except.error.injEq, Prod.mk.injEq] at h
      obtain ⟨hblank, text, htext, hnumber⟩ := decodeLine_raised_iff.1 ⟨x, h.2 ▸ hline⟩
      exact .number hblank htext hnumber
    · exact absurd h (by simp)
    · next entry hline =>
      obtain ⟨hblank, text, htext, hentry⟩ := decodeLine_record hline
      obtain ⟨hfields, hash, prev, hhash, hprev, hlink, hno⟩ :=
        checkRecord_raised_iff.1 ⟨s', x, h⟩
      exact .record hblank htext hentry hfields hhash hprev hlink fun hok =>
        hno ((recordHash_removed_iff hentry hprev).2 hok)
  · intro h
    cases h with
    | number hblank htext hnumber =>
        obtain ⟨x, hx⟩ := decodeLine_raised_iff.2 ⟨hblank, _, htext, hnumber⟩
        exact ⟨s, x, by simp only [scanLine, hx]⟩
    | @record text hash prev entry hblank htext hentry hfields hhash hprev hlink hencode =>
        obtain ⟨s', x, h⟩ := checkRecord_raised_iff.2 ⟨hfields, hash, prev, hhash, hprev, hlink,
          fun hok => hencode ((recordHash_removed_iff (H := H) hentry hprev).1 hok)⟩
        have hline : decodeLine line = .ok (some entry) := by
          simp [decodeLine, hblank, htext, hentry]
        exact ⟨s', x, by simp only [scanLine, hline, h]⟩

/-- A line that stops the scan has at most set the hash the window starts from, and the fields that
    it misses are required ones. -/
theorem scanLine_error {s s' : Scan} {line : Bytes} {halt : Halt}
    (h : scanLine (F := F) H s line = .error (s', halt)) :
    (s' = s ∨ ∃ prev, validHexHash prev = true ∧ s' = s.start prev) ∧
      ∀ names, halt = .report (.missingFields names) → names.Sublist requiredFields := by
  unfold scanLine at h
  split at h
  · next halt' hline =>
    simp only [Except.error.injEq, Prod.mk.injEq] at h
    obtain ⟨rfl, rfl⟩ := h
    refine ⟨.inl rfl, ?_⟩
    rintro names rfl
    unfold decodeLine at hline
    repeat' split at hline
    all_goals exact absurd hline (by simp)
  · exact absurd h (by simp)
  · next entry _ =>
    unfold checkRecord at h
    split at h
    · simp only [Except.error.injEq, Prod.mk.injEq] at h
      obtain ⟨rfl, rfl⟩ := h
      refine ⟨.inl rfl, fun names hnames => ?_⟩
      simp only [Halt.report.injEq, IntegrityError.missingFields.injEq] at hnames
      exact hnames ▸ List.filter_sublist
    · split at h
      · next hprev =>
        have hstart := hexHashOf_hex hprev
        dsimp only at h
        split at h
        · simp only [Except.error.injEq, Prod.mk.injEq] at h
          obtain ⟨rfl, rfl⟩ := h
          exact ⟨.inr ⟨_, hstart, rfl⟩, fun names hnames => absurd hnames (by simp)⟩
        · split at h
          · simp only [Except.error.injEq, Prod.mk.injEq] at h
            obtain ⟨rfl, rfl⟩ := h
            exact ⟨.inr ⟨_, hstart, rfl⟩, fun names hnames => absurd hnames (by simp)⟩
          · split at h
            · simp only [Except.error.injEq, Prod.mk.injEq] at h
              obtain ⟨rfl, rfl⟩ := h
              exact ⟨.inr ⟨_, hstart, rfl⟩, fun names hnames => absurd hnames (by simp)⟩
            · split at h
              · simp only [Except.error.injEq, Prod.mk.injEq] at h
                obtain ⟨rfl, rfl⟩ := h
                exact ⟨.inr ⟨_, hstart, rfl⟩, fun names hnames => absurd hnames (by simp)⟩
              · exact absurd h (by simp)
      · simp only [Except.error.injEq, Prod.mk.injEq] at h
        obtain ⟨rfl, rfl⟩ := h
        exact ⟨.inl rfl, fun names hnames => absurd hnames (by simp)⟩

/-- The scan of lines, without the positions. -/
def scanAll (H : HexDigest) : Scan → List Bytes → Except (Scan × Halt) Scan
  | s, [] => .ok s
  | s, line :: lines =>
      match scanLine (F := F) H s line with
      | .error e => .error e
      | .ok s => scanAll H s lines

def Failure.stop (f : Failure) : Scan × Halt := (f.scan, f.halt)

theorem scanLines_stop (segment : PyStr) (n : Nat) (s : Scan) (lines : List Bytes) :
    (scanLines (F := F) H segment n s lines).mapError Failure.stop = scanAll (F := F) H s lines := by
  induction lines generalizing n s with
  | nil => rfl
  | cons line lines ih =>
      simp only [scanLines, scanAll]
      cases scanLine (F := F) H s line with
      | error e => rfl
      | ok t => exact ih (n + 1) t

theorem scanAll_append (s : Scan) (a b : List Bytes) :
    scanAll (F := F) H s (a ++ b) =
      match scanAll (F := F) H s a with
      | .error e => .error e
      | .ok t => scanAll (F := F) H t b := by
  induction a generalizing s with
  | nil => rfl
  | cons line a ih =>
      simp only [List.cons_append, scanAll]
      cases scanLine (F := F) H s line with
      | error e => rfl
      | ok t => exact ih t

theorem scanAll_ok_iff {s s' : Scan} {lines : List Bytes} :
    scanAll (F := F) H s lines = .ok s' ↔
      ∃ records : List (Mapping F), decodeAll lines = some records ∧
        checkAll H s records = some s' := by
  have hlines := @scanLines_ok_iff F _ H [] 1 s s' lines
  rw [← hlines, ← scanLines_stop [] 1]
  cases scanLines (F := F) H [] 1 s lines <;> simp [Except.mapError]

/-- The lines before the one the scan stops at hold records that check. -/
theorem scanAll_error_iff {s : Scan} {e : Scan × Halt} {lines : List Bytes} :
    scanAll (F := F) H s lines = .error e ↔
      ∃ (before after : List Bytes) (line : Bytes) (records : List (Mapping F)) (t : Scan),
        lines = before ++ line :: after ∧ decodeAll before = some records ∧
        checkAll H s records = some t ∧ scanLine (F := F) H t line = .error e := by
  constructor
  · intro h
    induction lines generalizing s with
    | nil => exact absurd h (by simp [scanAll])
    | cons line lines ih =>
        simp only [scanAll] at h
        split at h
        · next hline =>
          simp only [Except.error.injEq] at h
          exact ⟨[], lines, line, [], s, rfl, rfl, rfl, h ▸ hline⟩
        · next s₁ hline =>
          obtain ⟨before, after, line', records, t, rfl, hdecode, hcheck, hstop⟩ := ih h
          obtain ⟨first, hfirst, hcheck₁⟩ := scanAll_ok_iff.1
            (show scanAll (F := F) H s [line] = .ok s₁ by simp only [scanAll, hline])
          exact ⟨line :: before, after, line', first ++ records, t, rfl,
            decodeAll_append.2 ⟨first, records, hfirst, hdecode, rfl⟩,
            checkAll_append.2 ⟨s₁, hcheck₁, hcheck⟩, hstop⟩
  · rintro ⟨before, after, line, records, t, rfl, hdecode, hcheck, hstop⟩
    have hbefore : scanAll (F := F) H s before = .ok t := scanAll_ok_iff.2 ⟨records, hdecode, hcheck⟩
    rw [scanAll_append, hbefore]
    simp only [scanAll, hstop]

/-- The scan of the segments is the scan of their complete lines, up to the report of an incomplete
    segment. -/
theorem scanSegments_stop (s : Scan) (segments : List (PyStr × Bytes)) :
    (scanSegments (F := F) H s segments).mapError Failure.stop =
        scanAll (F := F) H s (completeLines segments) ∨
      ∃ t e, scanAll (F := F) H s (completeLines segments) = .ok t ∧
        (scanSegments (F := F) H s segments).mapError Failure.stop = .error (t, .report e) := by
  induction segments generalizing s with
  | nil => exact .inl rfl
  | cons segment segments ih =>
      simp only [scanSegments, scanSegment, completeLines]
      by_cases hpartial : segment.2 ≠ [] ∧ endsWithLf segment.2 = false
      · rw [if_pos hpartial, if_pos hpartial]
        exact .inr ⟨s, .trailingPartialRecord, rfl, rfl⟩
      · rw [if_neg hpartial, if_neg hpartial]
        have hlines := scanLines_stop (F := F) (H := H) segment.1 1 s (splitlines segment.2)
        rw [scanAll_append, ← hlines]
        cases scanLines (F := F) H segment.1 1 s (splitlines segment.2) with
        | error f => exact .inl rfl
        | ok t => exact ih t

theorem scanSegments_raised_iff {segments : List (PyStr × Bytes)} :
    (∃ f x, scanSegments (F := F) H {} segments = .error f ∧ f.halt = .raised x) ↔
      ∃ line link, Reaches F H segments line link ∧ Fatal F link line := by
  have hflat : (∃ f x, scanSegments (F := F) H {} segments = .error f ∧ f.halt = .raised x) ↔
      ∃ s x, scanAll (F := F) H {} (completeLines segments) = .error (s, .raised x) := by
    have hstop := scanSegments_stop (F := F) (H := H) {} segments
    cases hscan : scanSegments (F := F) H {} segments with
    | ok t =>
        rw [hscan] at hstop
        rcases hstop with h | ⟨t', e, -, h⟩
        · simp [← h, Except.mapError]
        · exact absurd h (by simp [Except.mapError])
    | error f =>
        rw [hscan] at hstop
        rcases hstop with h | ⟨t', e, hok, h⟩
        · simp only [← h, Except.mapError, Failure.stop, Except.error.injEq, Prod.mk.injEq]
          constructor
          · rintro ⟨_, x, rfl, hx⟩
            exact ⟨_, x, rfl, hx⟩
          · rintro ⟨s, x, -, hx⟩
            exact ⟨f, x, rfl, hx⟩
        · simp only [Except.mapError, Failure.stop, Except.error.injEq, Prod.mk.injEq] at h
          simp only [hok, reduceCtorEq, exists_false, iff_false]
          rintro ⟨_, x, hf, hx⟩
          rw [← Except.error.inj hf, h.2] at hx
          exact absurd hx (by simp)
  rw [hflat]
  constructor
  · rintro ⟨s, x, h⟩
    obtain ⟨before, after, line, records, t, hlines, hdecode, hcheck, hstop⟩ := scanAll_error_iff.1 h
    exact ⟨line, t.previousHash, ⟨before, after, records, t.lastSequence, hlines, hdecode,
      wellChained_iff.2 ⟨t, hcheck, rfl, rfl⟩⟩, scanLine_raised_iff.1 ⟨s, x, hstop⟩⟩
  · rintro ⟨line, link, ⟨before, after, records, last, hlines, hdecode, hchain⟩, hfatal⟩
    obtain ⟨t, hcheck, rfl, -⟩ := wellChained_iff.1 hchain
    obtain ⟨s, x, hstop⟩ := scanLine_raised_iff.2 hfatal
    exact ⟨s, x, scanAll_error_iff.2
      ⟨before, after, line, records, t, hlines, hdecode, hcheck, hstop⟩⟩

/-- **Verification returns a report exactly when it reads no fatal line.** -/
theorem verifySegments_returns_iff {segments : List (PyStr × Bytes)} {repaired : Bool}
    {artifact : Option PyStr} :
    (∃ report, verifySegments (F := F) H segments repaired artifact = .ok report) ↔
      ¬ ∃ line link, Reaches F H segments line link ∧ Fatal F link line := by
  rw [← scanSegments_raised_iff]
  unfold verifySegments
  cases hscan : scanSegments (F := F) H {} segments with
  | ok s => simp
  | error f =>
      cases hhalt : f.halt with
      | report e => simp [hhalt]
      | raised x => simp [hhalt]

/-! ## The report -/

theorem nextSequence_lt {m n : Int} {v : Option (Json F)} (h : nextSequence m v = some n) :
    m < n := by
  unfold nextSequence at h
  split at h
  · simp only [Option.some.injEq] at h
    omega
  · simp only [Option.some.injEq] at h
    omega
  · split at h
    · exact absurd h (by simp)
    · split at h
      · exact absurd h (by simp)
      · simp only [Option.some.injEq] at h
        omega

/-- The hashes of a scan are hexadecimal. -/
structure Scan.Hex (s : Scan) : Prop where
  first : validHexHash s.firstPrevHash = true
  last : validHexHash s.lastHash = true

/-- What some lines do to a scan. -/
structure Advanced (lines : Nat) (s t : Scan) : Prop where
  hex : s.Hex → t.Hex
  count : t.recordCount ≤ s.recordCount + lines
  sequence : s.lastSequence ≤ t.lastSequence

theorem Scan.start_advanced {prev : PyStr} (s : Scan) (hprev : validHexHash prev = true) :
    Advanced 1 s (s.start prev) := by
  obtain ⟨hsequence, hcount, hfirst⟩ := s.start_fields prev
  refine ⟨fun h => ⟨?_, ?_⟩, by omega, hsequence.ge⟩
  · rw [hfirst]
    split
    · exact hprev
    · exact h.first
  · unfold Scan.start
    split <;> exact h.last

/-- The scan a run over lines ends with. -/
def finalScan : Except (Scan × Halt) Scan → Scan
  | .ok s => s
  | .error e => e.1

theorem scanLine_advanced (s : Scan) (line : Bytes) :
    Advanced 1 s (finalScan (scanLine (F := F) H s line)) := by
  have hself : Advanced 1 s s := ⟨id, by omega, le_refl _⟩
  cases hline : scanLine (F := F) H s line with
  | error e =>
      obtain ⟨s', halt⟩ := e
      rcases (scanLine_error hline).1 with rfl | ⟨prev, hprev, rfl⟩
      · exact hself
      · exact s.start_advanced hprev
  | ok t =>
      unfold scanLine at hline
      split at hline
      · exact absurd hline (by simp)
      · simp only [Except.ok.injEq] at hline
        exact hline ▸ hself
      · obtain ⟨stored, prev, sequence, -, hstored, hprev, -, -, hseq, rfl⟩ :=
          checkRecord_ok_iff.1 hline
        refine ⟨fun h => ⟨?_, hexHashOf_hex hstored⟩, le_refl _, (nextSequence_lt hseq).le⟩
        simp only [finalScan]
        split
        · exact hexHashOf_hex hprev
        · exact h.first

theorem scanAll_advanced (s : Scan) (lines : List Bytes) :
    Advanced lines.length s (finalScan (scanAll (F := F) H s lines)) := by
  induction lines generalizing s with
  | nil => exact ⟨id, by simp [finalScan, scanAll], le_refl _⟩
  | cons line lines ih =>
      have hline := scanLine_advanced (F := F) (H := H) s line
      simp only [scanAll]
      cases hscan : scanLine (F := F) H s line with
      | error e =>
          rw [hscan] at hline
          refine ⟨hline.hex, ?_, hline.sequence⟩
          have hcount := hline.count
          simp only [List.length_cons]
          simp only [finalScan] at hcount ⊢
          omega
      | ok t =>
          rw [hscan] at hline
          have hrest := ih t
          refine ⟨fun h => hrest.hex (hline.hex h), ?_, hline.sequence.trans hrest.sequence⟩
          have hcount := hline.count
          have hrestCount := hrest.count
          simp only [finalScan, List.length_cons] at hcount hrestCount ⊢
          omega

/-- The log starts with a chain of records that ends with this sequence number. -/
def ChainTo (F : Type) [FloatNum F] (H : HexDigest) (segments : List (PyStr × Bytes))
    (last : Int) : Prop :=
  ∃ (before after : List Bytes) (records : List (Mapping F)) (link : Option PyStr),
    completeLines segments = before ++ after ∧ decodeAll before = some records ∧
      WellChained H records link last

/-- The last number of a scan is that of the longest chain the log starts with. -/
theorem chainTo_final (segments : List (PyStr × Bytes)) :
    ChainTo F H segments (finalScan (scanAll (F := F) H {} (completeLines segments))).lastSequence ∧
      ∀ last, ChainTo F H segments last →
        last ≤ (finalScan (scanAll (F := F) H {} (completeLines segments))).lastSequence := by
  constructor
  · cases hscan : scanAll (F := F) H {} (completeLines segments) with
    | ok t =>
        obtain ⟨records, hdecode, hcheck⟩ := scanAll_ok_iff.1 hscan
        exact ⟨completeLines segments, [], records, t.previousHash, by simp, hdecode,
          wellChained_iff.2 ⟨t, hcheck, rfl, rfl⟩⟩
    | error e =>
        obtain ⟨before, after, line, records, t, hlines, hdecode, hcheck, hstop⟩ :=
          scanAll_error_iff.1 hscan
        obtain ⟨s', halt⟩ := e
        have hsame : s'.lastSequence = t.lastSequence := by
          rcases (scanLine_error hstop).1 with rfl | ⟨prev, -, rfl⟩
          · rfl
          · exact (t.start_fields prev).1
        exact ⟨before, line :: after, records, t.previousHash, hlines, hdecode,
          wellChained_iff.2 ⟨t, hcheck, rfl, hsame.symm⟩⟩
  · rintro last ⟨before, after, records, link, hlines, hdecode, hchain⟩
    obtain ⟨t, hcheck, -, rfl⟩ := wellChained_iff.1 hchain
    have hbefore : scanAll (F := F) H {} before = .ok t := scanAll_ok_iff.2 ⟨records, hdecode, hcheck⟩
    rw [hlines, scanAll_append, hbefore]
    exact (scanAll_advanced t after).sequence

/-- Where a scan stops: in one of the segments, at one of its lines. -/
theorem scanSegments_failure {s : Scan} {segments : List (PyStr × Bytes)} {f : Failure}
    (h : scanSegments (F := F) H s segments = .error f) :
    ∃ segment ∈ segments, f.segment = segment.1 ∧ f.line ≤ segment.2.length + 1 ∧
      ∀ names, f.halt = .report (.missingFields names) → names.Sublist requiredFields := by
  have hlines : ∀ (segment : PyStr) (lines : List Bytes) (n : Nat) (s : Scan),
      scanLines (F := F) H segment n s lines = .error f →
      f.segment = segment ∧ f.line + 1 ≤ n + lines.length ∧
        ∀ names, f.halt = .report (.missingFields names) → names.Sublist requiredFields := by
    intro segment lines
    induction lines with
    | nil => exact fun n s h => absurd h (by simp [scanLines])
    | cons line lines ih =>
        intro n s h
        simp only [scanLines] at h
        split at h
        · next hline =>
          simp only [Except.error.injEq] at h
          subst h
          exact ⟨rfl, by simp only [List.length_cons]; omega, (scanLine_error hline).2⟩
        · obtain ⟨hsegment, hle, hnames⟩ := ih (n + 1) _ h
          exact ⟨hsegment, by simp only [List.length_cons]; omega, hnames⟩
  induction segments generalizing s with
  | nil => exact absurd h (by simp [scanSegments])
  | cons segment segments ih =>
      simp only [scanSegments] at h
      split at h
      · next f' hsegment =>
        simp only [Except.error.injEq] at h
        subst h
        refine ⟨segment, List.mem_cons_self .., ?_⟩
        unfold scanSegment at hsegment
        split at hsegment
        · simp only [Except.error.injEq] at hsegment
          subst hsegment
          exact ⟨rfl, Nat.succ_le_succ List.count_le_length, fun names hnames => absurd hnames (by simp)⟩
        · obtain ⟨hname, hle, hnames⟩ := hlines _ _ _ _ hsegment
          have := splitlines_length segment.2
          exact ⟨hname, by omega, hnames⟩
      · obtain ⟨segment', hmem, hfacts⟩ := ih h
        exact ⟨segment', List.mem_cons_of_mem _ hmem, hfacts⟩

end Elyra.Audit
