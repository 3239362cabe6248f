import Elyra.Audit.Chain

set_option autoImplicit false
set_option linter.unusedSectionVars false

/-! # Tamper evidence

Two valid logs with the same last hash agree as far back as both go. The encoding under the hash
determines the record (`hashInput_injective`): the text of a schema `2.0` record starts with a
brace, the text of a legacy record with a hexadecimal digit, so neither can pass for the other.
From there the two chains are followed backwards. Records are compared as JSON values, for which the
order of the keys does not count (`canonical`). -/

namespace Elyra.Audit

open Elyra.Python

variable {F : Type} [FloatNum F] {H : HexDigest}

/-- A record as a JSON value. -/
def canonical (entry : Mapping F) : Json F := (Json.obj entry).sortKeys

/-! ## One record -/

/-- A record the verifier accepts. -/
structure Sealed (H : HexDigest) (hash prev : PyStr) (entry : Mapping F) : Prop where
  wf : (Json.obj entry).WF
  hash_eq : lookup (py "record_hash") entry = some (.str hash)
  prev_eq : lookup (py "prev_hash") entry = some (.str prev)
  prev_hex : validHexHash prev = true
  rehash : recordHash H (remove (py "record_hash") entry) = .ok hash

theorem hexHashOf_eq {v : Option (Json F)} {h : PyStr} (hv : hexHashOf v = some h) :
    v = some (.str h) := by
  unfold hexHashOf at hv
  split at hv
  · split at hv
    · simp only [Option.some.injEq] at hv
      rw [hv]
    · exact absurd hv (by simp)
  · exact absurd hv (by simp)

theorem canonicalJson_ok {legacy : Bool} {entry : Mapping F} {text : PyStr}
    (h : canonicalJson legacy entry = .ok text) :
    dumpsSorted (if legacy then .spaced else .compact) legacy (.obj entry) = some text := by
  unfold canonicalJson at h
  split at h
  · exact absurd h (by simp)
  · next heq =>
    simp only [Except.ok.injEq] at h
    rw [heq, h]

theorem canonicalJson_head {legacy : Bool} {entry : Mapping F} {text : PyStr}
    (h : canonicalJson legacy entry = .ok text) : text.head? = some 123 := by
  obtain ⟨s, rfl⟩ := dumps_obj_head (canonicalJson_ok h)
  rfl

theorem canonicalJson_injective {legacy : Bool} {entry entry' : Mapping F} {text : PyStr}
    (hwf : (Json.obj entry).WF) (hwf' : (Json.obj entry').WF)
    (h : canonicalJson legacy entry = .ok text) (h' : canonicalJson legacy entry' = .ok text) :
    canonical entry = canonical entry' :=
  dumpsSorted_injective hwf hwf' (canonicalJson_ok h) (canonicalJson_ok h')

/-- The text a record is hashed over, by schema. -/
theorem hashInput_ok {entry : Mapping F} {data : Bytes} (h : hashInput entry = .ok data) :
    (∃ text, canonicalJson false entry = .ok text ∧ encodeUtf8 text = some data) ∨
    ∃ text, canonicalJson true entry = .ok text ∧
      encodeUtf8 (prevHashText entry ++ text) = some data := by
  have hencode : ∀ {text : PyStr}, encode text = .ok data → encodeUtf8 text = some data := by
    intro text htext
    unfold encode at htext
    split at htext
    · exact absurd htext (by simp)
    · next heq =>
      simp only [Except.ok.injEq] at htext
      rw [heq, htext]
  unfold hashInput at h
  split at h
  · split at h
    · exact absurd h (by simp)
    · next text htext => exact .inl ⟨text, htext, hencode h⟩
  · split at h
    · exact absurd h (by simp)
    · next text htext => exact .inr ⟨text, htext, hencode h⟩

theorem hex_ne_brace {prev : PyStr} (h : validHexHash prev = true) : prev.head? ≠ some 123 := by
  intro hhead
  simp only [validHexHash, Bool.and_eq_true, List.all_eq_true] at h
  have := h.2 123 (List.mem_of_mem_head? hhead)
  exact absurd this (by decide)

/-- A hexadecimal prefix is not where a JSON object starts. -/
theorem hex_append_head {prev text : PyStr} (h : validHexHash prev = true) :
    (prev ++ text).head? ≠ some 123 := by
  have hne : prev ≠ [] := by
    rintro rfl
    exact absurd h (by decide)
  rw [List.head?_append_of_ne_nil _ hne]
  exact hex_ne_brace h

/-- **The hashed bytes determine the record**, whatever schemas the two records claim. -/
theorem hashInput_injective {entry entry' : Mapping F} {data : Bytes}
    (hwf : (Json.obj entry).WF) (hwf' : (Json.obj entry').WF)
    (hprev : validHexHash (prevHashText entry) = true)
    (hprev' : validHexHash (prevHashText entry') = true)
    (h : hashInput entry = .ok data) (h' : hashInput entry' = .ok data) :
    canonical entry = canonical entry' := by
  rcases hashInput_ok h with ⟨text, htext, hdata⟩ | ⟨text, htext, hdata⟩ <;>
    rcases hashInput_ok h' with ⟨text', htext', hdata'⟩ | ⟨text', htext', hdata'⟩ <;>
    have hsame := encodeUtf8_injective hdata hdata'
  · rw [← hsame] at htext'
    exact canonicalJson_injective hwf hwf' htext htext'
  · -- a brace is not a hexadecimal digit
    exact absurd (hsame ▸ canonicalJson_head htext) (hex_append_head hprev')
  · exact absurd (hsame ▸ canonicalJson_head htext') (hex_append_head hprev)
  · have hlen : (prevHashText entry).length = (prevHashText entry').length := by
      simp only [validHexHash, Bool.and_eq_true, beq_iff_eq] at hprev hprev'
      rw [hprev.1, hprev'.1]
    obtain ⟨-, rfl⟩ := List.append_inj hsame hlen
    exact canonicalJson_injective hwf hwf' htext htext'

/-! ## Two chains -/

/-- No two of these records have colliding digests, and none has the zero hash for its digest. -/
structure CollisionFree (H : HexDigest) (records : List (Mapping F)) : Prop where
  injective : ∀ entry ∈ records, ∀ entry' ∈ records, ∀ data data',
    hashInput (remove (py "record_hash") entry) = .ok data →
    hashInput (remove (py "record_hash") entry') = .ok data' →
    H.digest data = H.digest data' → data = data'
  nonzero : ∀ entry ∈ records, ∀ data, hashInput (remove (py "record_hash") entry) = .ok data →
    H.digest data ≠ zeroHash

theorem recordHash_ok {entry : Mapping F} {hash : PyStr} (h : recordHash H entry = .ok hash) :
    ∃ data, hashInput entry = .ok data ∧ H.digest data = hash := by
  unfold recordHash at h
  split at h
  · exact absurd h (by simp)
  · next data hdata =>
    simp only [Except.ok.injEq] at h
    exact ⟨data, hdata, h⟩

theorem Sealed.prevHashText {hash prev : PyStr} {entry : Mapping F} (h : Sealed H hash prev entry) :
    Elyra.Audit.prevHashText (remove (py "record_hash") entry) = prev := by
  unfold Elyra.Audit.prevHashText
  rw [lookup_remove_ne (by decide), h.prev_eq]
  rfl

/-- Records with one hash are one record. -/
theorem Sealed.unique {records : List (Mapping F)} (hfree : CollisionFree H records)
    {entry entry' : Mapping F} (hmem : entry ∈ records) (hmem' : entry' ∈ records)
    {hash prev prev' : PyStr} (h : Sealed H hash prev entry) (h' : Sealed H hash prev' entry') :
    canonical entry = canonical entry' ∧ prev = prev' := by
  obtain ⟨data, hdata, hdigest⟩ := recordHash_ok h.rehash
  obtain ⟨data', hdata', hdigest'⟩ := recordHash_ok h'.rehash
  obtain rfl := hfree.injective entry hmem entry' hmem' data data' hdata hdata'
    (hdigest.trans hdigest'.symm)
  have hrest := hashInput_injective (remove_wf h.wf) (remove_wf h'.wf)
    (by rw [h.prevHashText]; exact h.prev_hex) (by rw [h'.prevHashText]; exact h'.prev_hex)
    hdata hdata'
  have hsame : canonical entry = canonical entry' :=
    sortKeys_eq_of_remove h.wf.1 h.hash_eq h'.hash_eq hrest
  refine ⟨hsame, ?_⟩
  have hprev : (lookup (py "prev_hash") entry).map Json.sortKeys =
      (lookup (py "prev_hash") entry').map Json.sortKeys := by
    rw [← lookup_sortKeys h.wf.1, ← lookup_sortKeys h'.wf.1]
    simp only [canonical, Json.sortKeys, Json.obj.injEq] at hsame
    rw [hsame]
  rw [h.prev_eq, h'.prev_eq] at hprev
  simpa [Json.sortKeys] using hprev

theorem Sealed.nonzero {records : List (Mapping F)} (hfree : CollisionFree H records)
    {entry : Mapping F} (hmem : entry ∈ records) {hash prev : PyStr}
    (h : Sealed H hash prev entry) : hash ≠ zeroHash := by
  obtain ⟨data, hdata, rfl⟩ := recordHash_ok h.rehash
  exact hfree.nonzero entry hmem data hdata

/-- The last record of a checked list, and what the scan knew before it. -/
theorem checkAll_sealed {init : List (Mapping F)} {entry : Mapping F} {s : Scan}
    (hwf : (Json.obj entry).WF) (h : checkAll H {} (init ++ [entry]) = some s) :
    ∃ t prev, checkAll H {} init = some t ∧ Sealed H s.lastHash prev entry ∧
      (init = [] → s.firstPrevHash = prev) ∧
      (init ≠ [] → prev = t.lastHash ∧ s.firstPrevHash = t.firstPrevHash) := by
  obtain ⟨t, ht, hlast⟩ := checkAll_append.1 h
  simp only [checkAll] at hlast
  split at hlast
  · next s₁ hs₁ =>
    obtain ⟨stored, prev, sequence, -, hstored, hprev, hlink, hhash, -, rfl⟩ :=
      checkRecord_ok_iff.1 hs₁
    simp only [Option.some.injEq] at hlast
    subst hlast
    refine ⟨t, prev, ht, ⟨hwf, hexHashOf_eq hstored, hexHashOf_eq hprev, hexHashOf_hex hprev,
      hhash⟩, ?_, ?_⟩
    · rintro rfl
      simp only [checkAll, Option.some.injEq] at ht
      subst ht
      rfl
    · intro hne
      obtain ⟨init', entry', rfl⟩ : ∃ init' entry', init = init' ++ [entry'] := by
        rcases List.eq_nil_or_concat init with hnil | ⟨init', entry', hc⟩
        · exact absurd hnil hne
        · exact ⟨init', entry', by simpa using hc⟩
      obtain ⟨-, hprevious, -⟩ := checkAll_last ht
      simp only [hprevious, reduceCtorEq, false_or, Option.some.injEq, if_false] at hlink ⊢
      exact ⟨hlink.symm, trivial⟩
  · exact absurd hlast (by simp)

/-- Two non-empty chains that end in one hash: followed backwards they agree until one of them
    ends, and chains from the zero hash end together. -/
theorem chains_agree {all records records' : List (Mapping F)} (hfree : CollisionFree H all)
    (hsub : records ⊆ all) (hsub' : records' ⊆ all) (hwf : ∀ entry ∈ all, (Json.obj entry).WF)
    {s s' : Scan} (h : checkAll H {} records = some s) (h' : checkAll H {} records' = some s')
    (hne : records ≠ []) (hne' : records' ≠ []) (hlast : s.lastHash = s'.lastHash) :
    (records.map canonical <:+ records'.map canonical ∨
      records'.map canonical <:+ records.map canonical) ∧
    (s.firstPrevHash = zeroHash → s'.firstPrevHash = zeroHash →
      records.map canonical = records'.map canonical) := by
  induction records using List.reverseRecOn generalizing records' s s' with
  | nil => exact absurd rfl hne
  | append_singleton init entry ih =>
      obtain ⟨init', entry', rfl⟩ : ∃ init' entry', records' = init' ++ [entry'] := by
        rcases List.eq_nil_or_concat records' with hnil | ⟨init', entry', hc⟩
        · exact absurd hnil hne'
        · exact ⟨init', entry', by simpa using hc⟩
      have hmem : entry ∈ all := hsub (by simp)
      have hmem' : entry' ∈ all := hsub' (by simp)
      obtain ⟨t, prev, ht, hsealed, hstart, hlink⟩ := checkAll_sealed (hwf entry hmem) h
      obtain ⟨t', prev', ht', hsealed', hstart', hlink'⟩ := checkAll_sealed (hwf entry' hmem') h'
      rw [← hlast] at hsealed'
      obtain ⟨hsame, rfl⟩ := hsealed.unique hfree hmem hmem' hsealed'
      -- a chain that goes on behind the zero hash would have a record with that hash
      have hgenesis : ∀ {l : List (Mapping F)} {u : Scan}, l ⊆ all → checkAll H {} l = some u →
          l ≠ [] → u.lastHash ≠ zeroHash := by
        intro l u hl hu hlne
        rcases List.eq_nil_or_concat l with hnil | ⟨l', x, rfl⟩
        · exact absurd hnil hlne
        · rw [List.concat_eq_append] at hu hl
          have hx : x ∈ all := hl (by simp)
          obtain ⟨_, _, -, hsx, -⟩ := checkAll_sealed (hwf x hx) hu
          exact hsx.nonzero hfree hx
      have hinit : init ⊆ all := fun x hx => hsub (List.mem_append_left _ hx)
      have hinit' : init' ⊆ all := fun x hx => hsub' (List.mem_append_left _ hx)
      simp only [List.map_append, List.map_cons, List.map_nil, hsame]
      by_cases hnil : init = [] <;> by_cases hnil' : init' = []
      · subst hnil hnil'
        exact ⟨.inl List.suffix_rfl, fun _ _ => rfl⟩
      · subst hnil
        refine ⟨.inl (List.suffix_append ..), fun hz _ => ?_⟩
        rw [hstart rfl, (hlink' hnil').1] at hz
        exact absurd hz (hgenesis hinit' ht' hnil')
      · subst hnil'
        refine ⟨.inr (List.suffix_append ..), fun _ hz => ?_⟩
        rw [hstart' rfl, (hlink hnil).1] at hz
        exact absurd hz (hgenesis hinit ht hnil)
      · obtain ⟨hprev, hfirst⟩ := hlink hnil
        obtain ⟨hprev', hfirst'⟩ := hlink' hnil'
        obtain ⟨hsuffix, hequal⟩ := ih hinit hinit' ht ht' hnil hnil' (hprev.symm.trans hprev')
        refine ⟨?_, fun hz hz' => by rw [hequal (hfirst ▸ hz) (hfirst' ▸ hz')]⟩
        rcases hsuffix with ⟨p, hp⟩ | ⟨p, hp⟩
        · exact .inl ⟨p, by rw [← hp, List.append_assoc]⟩
        · exact .inr ⟨p, by rw [← hp, List.append_assoc]⟩

/-! ## Two logs -/

theorem decodeAll_wf {lines : List Bytes} {records : List (Mapping F)}
    (h : decodeAll lines = some records) : ∀ entry ∈ records, (Json.obj entry).WF := by
  have hlines := decodeAll_lines h
  clear h
  generalize lines.filter (fun line => !blank line) = nonblank at hlines
  induction hlines with
  | nil => simp
  | cons hline _ ih =>
      refine List.forall_mem_cons.2 ⟨?_, ih⟩
      obtain ⟨hblank, hline⟩ := hline
      unfold decodeLine at hline
      rw [if_neg (by simp [hblank])] at hline
      split at hline
      · exact absurd hline (by simp)
      · split at hline
        · exact absurd hline (by simp)
        · exact absurd hline (by simp)
        · next hloads =>
          simp only [Except.ok.injEq, Option.some.injEq] at hline
          subst hline
          exact loads_wf hloads
        · exact absurd hline (by simp)

theorem checkAll_count {records : List (Mapping F)} {s s' : Scan}
    (h : checkAll H s records = some s') : s'.recordCount = s.recordCount + records.length := by
  induction records generalizing s with
  | nil =>
      simp only [checkAll, Option.some.injEq] at h
      simp [h]
  | cons entry records ih =>
      simp only [checkAll] at h
      split at h
      · next s₁ hs₁ =>
        obtain ⟨_, _, _, -, -, -, -, -, -, rfl⟩ := checkRecord_ok_iff.1 hs₁
        have := ih h
        simp only [List.length_cons] at this ⊢
        omega
      · exact absurd h (by simp)

/-- What a valid report says about the records. -/
theorem verify_records {fileName : PyStr} {dir : Dir} {repaired : Bool} {artifact : Option PyStr}
    {r : IntegrityReport} (h : verify F H fileName dir repaired artifact = .ok r)
    (hvalid : r.valid = true) {records : List (Mapping F)}
    (hlog : LogRecords (segmentsFor fileName dir) records) :
    ∃ s, checkAll H {} records = some s ∧ r.lastHash = s.lastHash ∧
      r.recordCount = records.length ∧
      (r.coverage = .fullFromGenesis → s.firstPrevHash = zeroHash) := by
  obtain ⟨records', s, ⟨hholds, hcheck⟩, rfl⟩ := verify_iff.1 ⟨h, hvalid⟩
  obtain rfl := hholds.unique (logRecords_iff.1 hlog)
  refine ⟨s, hcheck, rfl, by simpa [Scan.report] using checkAll_count hcheck, fun hfull => ?_⟩
  by_contra hzero
  simp [Scan.report, hzero] at hfull

/-- **Tamper evidence.** Two valid logs with the same last hash: one is the end of the other, and two
    that both go back to genesis are the same. -/
theorem valid_logs_agree {fileName fileName' : PyStr} {dir dir' : Dir} {repaired repaired' : Bool}
    {artifact artifact' : Option PyStr} {r r' : IntegrityReport}
    (h : verify F H fileName dir repaired artifact = .ok r) (hvalid : r.valid = true)
    (h' : verify F H fileName' dir' repaired' artifact' = .ok r') (hvalid' : r'.valid = true)
    {records records' : List (Mapping F)} (hlog : LogRecords (segmentsFor fileName dir) records)
    (hlog' : LogRecords (segmentsFor fileName' dir') records')
    (hfree : CollisionFree H (records ++ records')) (hlast : r.lastHash = r'.lastHash) :
    (records.map canonical <:+ records'.map canonical ∨
      records'.map canonical <:+ records.map canonical) ∧
    (r.coverage = .fullFromGenesis → r'.coverage = .fullFromGenesis →
      1 ≤ r.recordCount → 1 ≤ r'.recordCount →
      records.map canonical = records'.map canonical) := by
  obtain ⟨s, hcheck, hs, hcount, hfull⟩ := verify_records h hvalid hlog
  obtain ⟨s', hcheck', hs', hcount', hfull'⟩ := verify_records h' hvalid' hlog'
  rw [hcount, hcount']
  rcases List.eq_nil_or_concat records with rfl | ⟨init, entry, hrecords⟩
  · exact ⟨.inl List.nil_suffix, fun _ _ hlen _ => absurd hlen (by simp)⟩
  rcases List.eq_nil_or_concat records' with rfl | ⟨init', entry', hrecords'⟩
  · exact ⟨.inr List.nil_suffix, fun _ _ _ hlen => absurd hlen (by simp)⟩
  have hwf : ∀ x ∈ records ++ records', (Json.obj x).WF := by
    intro x hx
    rcases List.mem_append.1 hx with hx | hx
    · exact decodeAll_wf hlog.decoded x hx
    · exact decodeAll_wf hlog'.decoded x hx
  obtain ⟨hsuffix, hequal⟩ := chains_agree hfree (List.subset_append_left ..)
    (List.subset_append_right ..) hwf hcheck hcheck' (by simp [hrecords]) (by simp [hrecords'])
    (hs.symm.trans (hlast.trans hs'))
  exact ⟨hsuffix, fun hf hf' _ _ => hequal (hfull hf) (hfull' hf')⟩

/-! A log of a legacy record and a record of schema `2.0`, and what retention left of it. -/

def sealFields (fields : Mapping SampleFloat) : Mapping SampleFloat :=
  match recordHash sha256Digest fields with
  | .error _ => fields
  | .ok hash => fields ++ [(py "record_hash", .str hash)]

def legacyEntry : Mapping SampleFloat :=
  sealFields [(py "timestamp", .float .zero), (py "source", .str (py "daemon")),
    (py "subject", .str (py "started")), (py "payload", .obj []), (py "prev_hash", .str zeroHash)]

def currentEntry : Mapping SampleFloat :=
  sealFields (entryFields sampleStamp
    ((hexHashOf (lookup (py "record_hash") legacyEntry)).getD zeroHash) 1 sampleInput)

def lineOf (entry : Mapping SampleFloat) : Bytes :=
  match encodeLine entry with
  | .error _ => []
  | .ok line => line

def mixedDir : Dir where
  files := Dict.empty.set (py "audit.jsonl") (lineOf legacyEntry ++ lineOf currentEntry)

def retainedDir : Dir where
  files := Dict.empty.set (py "audit.jsonl") (lineOf currentEntry)

theorem logRecords_single {fileName : PyStr} {data : Bytes} {records : List (Mapping F)}
    (h : Holds [data] records) :
    LogRecords (segmentsFor fileName { files := Dict.empty.set fileName data }) records := by
  rw [segmentsFor_single]
  exact logRecords_iff.2 h

theorem sealFields_wf {fields : Mapping SampleFloat} (h : (Json.obj fields).WF)
    (hkeys : ((sealFields fields).map Prod.fst).Nodup) : (Json.obj (sealFields fields)).WF := by
  refine ⟨hkeys, wfMembers_iff.2 fun kv hkv => ?_⟩
  unfold sealFields at hkv
  split at hkv
  · exact wfMembers_iff.1 h.2 kv hkv
  · rcases List.mem_append.1 hkv with hkv | hkv
    · exact wfMembers_iff.1 h.2 kv hkv
    · rw [List.mem_singleton] at hkv
      subst hkv
      trivial

theorem mixed_log_agrees_with_retained_log :
    ∃ records records' : List (Mapping SampleFloat), records.length = 2 ∧ records'.length = 1 ∧
      LogRecords (segmentsFor (py "audit.jsonl") mixedDir) records ∧
      LogRecords (segmentsFor (py "audit.jsonl") retainedDir) records' ∧
      (records.map canonical <:+ records'.map canonical ∨
        records'.map canonical <:+ records.map canonical) := by
  have hlegacy : (Json.obj legacyEntry).WF :=
    sealFields_wf ⟨by decide, by simp [wfMembers, Json.WF]⟩ (by decide +kernel)
  have hcurrent : (Json.obj currentEntry).WF :=
    sealFields_wf ⟨by decide +kernel, by simp [entryFields, wfMembers, Json.WF, safeValue,
      safeMembers_eq, sampleInput]⟩ (by decide +kernel)
  have hline : encodeLine legacyEntry = .ok (lineOf legacyEntry) := by decide +kernel
  have hline' : encodeLine currentEntry = .ok (lineOf currentEntry) := by decide +kernel
  have hholds : Holds [lineOf legacyEntry] [legacyEntry] := by
    simpa using holds_line hlegacy hline holds_empty
  have hholds' : Holds [lineOf currentEntry] [currentEntry] := by
    simpa using holds_line hcurrent hline' holds_empty
  have hmixed : LogRecords (segmentsFor (py "audit.jsonl") mixedDir) [legacyEntry, currentEntry] :=
    logRecords_single (holds_line hcurrent hline' hholds)
  have hretained : LogRecords (segmentsFor (py "audit.jsonl") retainedDir) [currentEntry] :=
    logRecords_single hholds'
  have hne : recordHash sha256Digest (remove (py "record_hash") legacyEntry) ≠
      recordHash sha256Digest (remove (py "record_hash") currentEntry) := by decide +kernel
  have hunique : ∀ entry ∈ [legacyEntry, currentEntry] ++ [currentEntry],
      ∀ entry' ∈ [legacyEntry, currentEntry] ++ [currentEntry],
      recordHash sha256Digest (remove (py "record_hash") entry) =
        recordHash sha256Digest (remove (py "record_hash") entry') → entry = entry' := by
    simp [hne, hne.symm]
  have hzero : ∀ entry ∈ [legacyEntry, currentEntry] ++ [currentEntry],
      recordHash sha256Digest (remove (py "record_hash") entry) ≠ .ok zeroHash := by
    decide +kernel
  have hfree : CollisionFree sha256Digest ([legacyEntry, currentEntry] ++ [currentEntry]) := by
    refine ⟨fun entry hmem entry' hmem' data data' hdata hdata' hsame => ?_,
      fun entry hmem data hdata hsame => hzero entry hmem (by simp [recordHash, hdata, hsame])⟩
    obtain rfl := hunique entry hmem entry' hmem' (by simp [recordHash, hdata, hdata', hsame])
    simpa [hdata] using hdata'
  have hreport : ∀ dir ∈ [mixedDir, retainedDir], ∃ r,
      verify SampleFloat sha256Digest (py "audit.jsonl") dir false none = .ok r ∧ r.valid = true ∧
      recordHash sha256Digest (remove (py "record_hash") currentEntry) = .ok r.lastHash := by
    have hcheck : ∀ dir ∈ [mixedDir, retainedDir],
        ((verify SampleFloat sha256Digest (py "audit.jsonl") dir false none).toOption.any fun r =>
          r.valid && decide (recordHash sha256Digest
            (remove (py "record_hash") currentEntry) = .ok r.lastHash)) = true := by
      simp only [List.forall_mem_cons, List.not_mem_nil, false_implies, implies_true, and_true]
      decide +kernel
    intro dir hdir
    obtain ⟨r, hr, hdir'⟩ := exists_of_any (hcheck dir hdir)
    exact ⟨r, hr, by simpa using hdir'⟩
  obtain ⟨r, hr, hvalid, hlast⟩ := hreport mixedDir (by simp)
  obtain ⟨r', hr', hvalid', hlast'⟩ := hreport retainedDir (by simp)
  have hsame : r.lastHash = r'.lastHash := by
    rw [hlast] at hlast'
    simpa using hlast'
  exact ⟨_, _, rfl, rfl, hmixed, hretained,
    (valid_logs_agree hr hvalid hr' hvalid' hmixed hretained hfree hsame).1⟩

end Elyra.Audit
