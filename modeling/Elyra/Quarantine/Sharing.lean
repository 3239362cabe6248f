import Elyra.Quarantine.Audited
import Elyra.Quarantine.Shelf

set_option autoImplicit false

/-! # Rules for threads that share an item

What the parts of `restore_file` and `delete_permanently` do while other threads work on the same item.
Between any two calls the others do what the thread's rights let them; `Later` is what the thread still
knows after that. The metadata write never fails there but for a record that cannot be written. -/

namespace Elyra.Quarantine

open Elyra.Python Elyra.Posix Elyra.Posix.Program

variable {F : Type} [FloatNum F] {m : Manager} {id : PyStr} {original : Json F}

/-! ## Records -/

section Records

variable {r : QuarantineRecord F} {data : Bytes}

omit [FloatNum F] in
theorem hasStatus_canon (r : QuarantineRecord F) (status : PyStr) :
    hasStatus r.canon status = hasStatus r status := by
  unfold hasStatus QuarantineRecord.canon QuarantineRecord.mapFields
  cases r.restorationStatus <;> rfl

theorem saysDeleted_iff (h : Stored id r data) :
    SaysDeleted F m id data ↔ hasStatus r (py "deleted") = true := by
  have hdec := h.decode m.str
  constructor
  · rintro ⟨r', hdec', hstatus⟩
    obtain rfl : r.canon = r' := Except.ok.inj (hdec.symm.trans hdec')
    rwa [hasStatus_canon] at hstatus
  · intro hstatus
    exact ⟨r.canon, hdec, by rw [hasStatus_canon, hstatus]⟩

theorem Stored.isVersion (h : Stored id r data) (horiginal : r.originalPath = original) :
    IsVersion F m id original data := by
  refine ⟨r.canon, h.decode m.str, ?_, data, h.canon.valid, h.canon.encoded⟩
  obtain ⟨-, -, hpath, -⟩ := validateRecord_ok_iff.1 h.valid
  subst horiginal
  show r.originalPath.sortKeys = r.originalPath
  cases hv : r.originalPath <;> rw [hv] at hpath <;> first | rfl | exact nomatch hpath

omit [FloatNum F] in
theorem forall_markDeleted {P : PyStr × Json F → Prop} {now : F} {nowUtc : PyStr}
    (h : ∀ kv ∈ r.toDict, P kv) (hstatus : P (py "restoration_status", .str (py "deleted")))
    (hat : P (py "deleted_at", .float now)) (hutc : P (py "deleted_at_utc", .str nowUtc)) :
    ∀ kv ∈ (markDeleted r now nowUtc).toDict, P kv := by
  simp only [QuarantineRecord.toDict, List.forall_mem_cons] at h ⊢
  obtain ⟨h₁, h₂, h₃, h₄, h₅, h₆, h₇, h₈, h₉, h₁₀, h₁₁, h₁₂, h₁₃, h₁₄, h₁₅, h₁₆, h₁₇, h₁₈, -, h₂₀, h₂₁,
    h₂₂, h₂₃, h₂₄, -, -, hnil⟩ := h
  exact ⟨h₁, h₂, h₃, h₄, h₅, h₆, h₇, h₈, h₉, h₁₀, h₁₁, h₁₂, h₁₃, h₁₄, h₁₅, h₁₆, h₁₇, h₁₈, hstatus, h₂₀,
    h₂₁, h₂₂, h₂₃, h₂₄, hat, hutc, hnil⟩

omit [FloatNum F] in
theorem utf8_obj_iff {kvs : List (PyStr × Json F)} :
    (Json.obj kvs).Utf8 ↔ ∀ kv ∈ kvs, Utf8 kv.1 ∧ kv.2.Utf8 := by
  induction kvs with
  | nil => simp
  | cons kv kvs ih =>
      obtain ⟨k, v⟩ := kv
      rw [utf8_obj_cons, ih, List.forall_mem_cons, and_assoc]

/-- A record that can be written can be written as deleted. -/
theorem onFile_markDeleted {now : F} {nowUtc : PyStr} (h : OnFile r) (hnow : PyFloat.finite now = true)
    (hutc : ∀ c ∈ nowUtc, c < 128) : ∃ data, Encodes (markDeleted r now nowUtc) data := by
  obtain ⟨hschema, hid, hpath, hsha, hsize, -, hrules, hprocess, henc⟩ := validateRecord_ok_iff.1 h.valid
  have hencodable : (Json.obj (markDeleted r now nowUtc).toDict).encodable false = true := by
    rw [Json.encodable, encodableMembers_iff] at henc ⊢
    exact forall_markDeleted henc rfl hnow rfl
  have hvalid : validateRecord (markDeleted r now nowUtc) = .ok () :=
    validateRecord_ok_iff.2 ⟨hschema, hid, hpath, hsha, hsize, rfl, hrules, hprocess, hencodable⟩
  have hutf8 : (Json.obj (markDeleted r now nowUtc).toDict).Utf8 := by
    have hdate : Utf8 nowUtc := Audit.ascii_utf8 hutc
    have hkey : Utf8 (py "restoration_status") ∧ Utf8 (py "deleted_at") ∧ Utf8 (py "deleted_at_utc") ∧
        Utf8 (py "deleted") := by decide
    rw [utf8_obj_iff]
    exact forall_markDeleted (utf8_obj_iff.1 h.utf8) ⟨hkey.1, (utf8_str _).2 hkey.2.2.2⟩
      ⟨hkey.2.1, utf8_float now⟩ ⟨hkey.2.2.1, (utf8_str _).2 hdate⟩
  have hsorted := (encodable_sortKeys true _).2 (encodable_mono _ hencodable)
  obtain ⟨bytes, hbytes⟩ := (encodeUtf8_print_iff (.indented 2) _ 0).2 (Audit.utf8_sortKeys.2 hutf8)
  refine ⟨bytes, hvalid, ?_⟩
  unfold encodeRecord
  simp only [dumpsSorted, dumps, hsorted, if_true, hbytes]

end Records

/-! ## Rules of the calls -/

/-- What a thread knows later on, after steps of its own and of others. -/
structure Later (m : Manager) (id : PyStr) (A A' : Set Right) (s s' : Shelf) : Prop where
  rights : A ⊆ A'
  deletion : .deletion ∈ A' → .deletion ∈ A
  names : .deletion ∈ A → s'.files.names (m.payloadPath id) = s.files.names (m.payloadPath id) ∧
    s'.files.names (m.deletePending id) = s.files.names (m.deletePending id)

section Rules

variable {A A' A'' : Set Right} {s s' s'' : Shelf} {guard : Call F → Shelf → Prop} {α : Type}

omit [FloatNum F] in
theorem Later.refl (m : Manager) (id : PyStr) (A : Set Right) (s : Shelf) : Later m id A A s s :=
  ⟨subset_rfl, fun h => h, fun _ => ⟨rfl, rfl⟩⟩

theorem Later.trans (h : Later m id A A' s s') (h' : Later m id A' A'' s' s'') :
    Later m id A A'' s s'' := by
  refine ⟨h.rights.trans h'.rights, fun hd => h.deletion (h'.deletion hd), fun hd => ?_⟩
  obtain ⟨hpayload, hpending⟩ := h.names hd
  obtain ⟨hpayload', hpending'⟩ := h'.names (h.rights hd)
  exact ⟨hpayload'.trans hpayload, hpending'.trans hpending⟩

theorem Relies.later (h : Relies m id A s s') : Later m id A A s s' :=
  ⟨subset_rfl, fun hd => hd, h.payload⟩

theorem relies_same (hfiles : s'.files = s.files) (hversions : s'.versions = s.versions) :
    Relies m id A s s' := by
  refine ⟨fun j hj => ⟨?_, ?_⟩, fun u _ => ⟨?_, ?_, ?_⟩, fun _ _ _ => ?_, fun _ => ?_⟩
  · rwa [hversions]
  · rw [hfiles]
  · rw [hfiles]
  · rw [hfiles]
  · rw [hversions]
    exact fun hu => hu
  · rw [hfiles]
  · rw [hfiles]
    exact ⟨rfl, rfl⟩

/-- A step of the thread that leaves the payload's names. -/
theorem later_of_names (hA : A ⊆ A') (hnew : .deletion ∈ A' → .deletion ∈ A)
    (hnames : ∀ p ∈ m.storeNames id, p ≠ m.metadataPath id → s'.files.names p = s.files.names p) :
    Later m id A A' s s' :=
  ⟨hA, hnew, fun _ => ⟨hnames _ (payload_mem m id) (m.payloadPath_ne_metadataPath id),
    hnames _ (pending_mem m id) (m.metadataPath_ne_deletePending id).symm⟩⟩

/-- An item that says `deleted` goes on to say so. -/
theorem IsDeleted.relies (h : IsDeleted F m id s.files) (hinv : s.Inv F m id original)
    (hinv' : s'.Inv F m id original) (hr : Relies m id A s s') : IsDeleted F m id s'.files := by
  obtain ⟨k, hk, hmarked⟩ := h
  obtain ⟨j, hj, hcurrent⟩ := hinv.current
  obtain rfl : j = k := Option.some.inj (hcurrent.symm.trans hk)
  obtain ⟨hj', hbytes⟩ := hr.versions j hj
  exact (hinv'.deleted j hj' (by rw [hbytes]; exact hmarked)).1

/-- One call, and what it gives to the thread. -/
theorem minding_call {E : Type} {c : Call F} {next : Except Exc c.Answer → Program (interface F) E α}
    {Q : Except E α → Set Right → Shelf → Prop}
    (h : ∀ (r : Except Exc c.Answer) s', (shelving m id guard).answers c s r s' → ∃ new, made m id c r = new ∧
      (rights F m id original).Keeps A new s s' ∧
        ∀ s'', s''.Inv F m id original → Relies m id (A ∪ new) s' s'' →
          minding (rights F m id original) (shelving m id guard) (next r) (A ∪ new) Q s'') :
    minding (rights F m id original) (shelving m id guard) (.call c next) A Q s := by
  intro r s' ha
  obtain ⟨new, rfl, hkeeps, hnext⟩ := h r s' ha
  exact ⟨hkeeps, hnext⟩

/-- The same for a call that gives nothing. -/
theorem minding_call_empty {E : Type} {c : Call F}
    {next : Except Exc c.Answer → Program (interface F) E α} {Q : Except E α → Set Right → Shelf → Prop}
    (h : ∀ (r : Except Exc c.Answer) s', (shelving m id guard).answers c s r s' → made m id c r = ∅ ∧
      (rights F m id original).Keeps A ∅ s s' ∧
        ∀ s'', s''.Inv F m id original → Relies m id A s' s'' →
          minding (rights F m id original) (shelving m id guard) (next r) A Q s'') :
    minding (rights F m id original) (shelving m id guard) (.call c next) A Q s := by
  refine minding_call fun r s' ha => ?_
  obtain ⟨hmade, hkeeps, hnext⟩ := h r s' ha
  refine ⟨∅, hmade, hkeeps, ?_⟩
  rw [Set.union_empty]
  exact hnext

/-- A call that only looks, and finds the files as they are. -/
theorem minding_look {E : Type} {c : Call F} {next : Except Exc c.Answer → Program (interface F) E α}
    {Q : Except E α → Set Right → Shelf → Prop} (hc : Reading c) (hmade : ∀ r, made m id c r = ∅)
    (hinv : s.Inv F m id original)
    (h : ∀ (r : Except Exc c.Answer) s', (machine id fun _ _ => True).answers c s.files r s.files →
      s'.Inv F m id original → Relies m id A s s' →
        minding (rights F m id original) (shelving m id guard) (next r) A Q s') :
    minding (rights F m id original) (shelving m id guard) (.call c next) A Q s := by
  refine minding_call_empty fun r s' ha => ?_
  obtain ⟨hkeeps, hfiles, hversions, -⟩ := keeps_reading (A := A) hc hinv ha
  rw [hmade] at hkeeps
  refine ⟨hmade r, hkeeps, fun s'' hs hr => ?_⟩
  refine h r s'' ?_ hs ((relies_same hfiles hversions).trans hr)
  have hanswers := ha.2.1
  rwa [hfiles] at hanswers

/-- The same for a call that raises when it fails. -/
theorem minding_ask {c : Call F} {Q : Except Exc c.Answer → Set Right → Shelf → Prop}
    (hc : Reading c) (hmade : ∀ r, made m id c r = ∅) (hinv : s.Inv F m id original)
    (h : ∀ (r : Except Exc c.Answer) s', (machine id fun _ _ => True).answers c s.files r s.files →
      s'.Inv F m id original → Relies m id A s s' → Q r A s') :
    minding (rights F m id original) (shelving m id guard) (ask c) A Q s := by
  refine minding_look hc hmade hinv fun r s' ha hs hr => ?_
  cases r with
  | ok a => exact h _ s' ha hs hr
  | error e => exact h _ s' ha hs hr

theorem minding_lift {x : Except Exc α} {Q : Except Exc α → Set Right → Shelf → Prop} (h : Q x A s) :
    minding (rights F m id original) (shelving m id guard) (lift x) A Q s := by
  cases x with
  | ok a => exact h
  | error e => exact h

theorem minding_check {ok : Prop} [Decidable ok] {e : Exc}
    {Q : Except Exc Unit → Set Right → Shelf → Prop} (hok : ok → Q (.ok ()) A s)
    (hraise : ¬ ok → Q (.error e) A s) :
    minding (rights F m id original) (shelving m id guard) (check ok e) A Q s := by
  unfold check
  split
  · next h => exact hok h
  · next h => exact hraise h

/-- The same for a system call. -/
theorem minding_sys {c : FileCall Path Directory} {Q : Except Exc c.Answer → Set Right → Shelf → Prop}
    (hc : Reading (F := F) (.file c)) (hinv : s.Inv F m id original)
    (h : ∀ r s', s.files.answers c r s.files → s'.Inv F m id original → Relies m id A s s' →
      Q (r.mapError Exc.os) A s') :
    minding (rights F m id original) (shelving m id guard) (sys c) A Q s := by
  refine minding_ask (c := .file c) hc (fun r => ?_) hinv fun r s' ha hs hr => ?_
  · cases c <;> first | rfl | exact hc.elim
  · obtain ⟨r₀, ha, rfl⟩ := ha
    exact h r₀ s' ha hs hr

theorem minding_lexists {p : Path} {Q : Except Exc Bool → Set Right → Shelf → Prop}
    (hinv : s.Inv F m id original)
    (h : ∀ s', s'.Inv F m id original → Relies m id A s s' → Q (.ok (s.files.names p).isSome) A s') :
    minding (rights F m id original) (shelving m id guard) (lexists p) A Q s := by
  refine minding_look (c := .file (.lexists p)) trivial (fun _ => rfl) hinv fun r s' ha hs hr => ?_
  obtain ⟨r₀, ⟨-, rfl⟩, rfl⟩ := ha
  exact h s' hs hr

/-- The parts that only look. -/
theorem minding_reading {p : Prog F α} {V : α → Prop} {Q : Except Exc α → Set Right → Shelf → Prop}
    (hp : Plain Reading p) (hr : Returns V p) (hinv : s.Inv F m id original)
    (h : ∀ x A' s', s'.Inv F m id original → Later m id A A' s s' → (∀ a, x = .ok a → V a) → Q x A' s') :
    minding (rights F m id original) (shelving m id guard) p A Q s := by
  refine minding_mono (fun x A' s' hx => h x A' s' hx.1 hx.2.1 hx.2.2)
    (minding_plain hp hr (J := fun A' s' => Later m id A A' s s') ?_ ?_ hinv (.refl m id A s))
  · intro A' c s₁ r s₂ hc hinv₁ ha
    obtain ⟨hkeeps, hfiles, -, hnone⟩ := keeps_reading (A := A') hc hinv₁ ha
    refine ⟨hkeeps, fun hlater => hlater.trans (later_of_names Set.subset_union_left ?_ ?_)⟩
    · exact fun hd => hd.resolve_right hnone
    · intro q _ _
      rw [hfiles]
  · exact fun A' s₁ s₂ _ hrely hlater => hlater.trans (Relies.later hrely)

/-! ### Looking -/

theorem minding_fsyncDirectory {d : Directory} {Q : Except Exc Unit → Set Right → Shelf → Prop}
    (hinv : s.Inv F m id original)
    (h : ∀ s', s'.Inv F m id original → Relies m id A s s' → Q (.ok ()) A s') :
    minding (rights F m id original) (shelving m id guard) (fsyncDirectory d) A Q s := by
  refine minding_look (c := .file (.openDir d)) trivial (fun _ => rfl) hinv fun r s' ha hs hr => ?_
  obtain ⟨r₀, ⟨-, rfl⟩, rfl⟩ := ha
  refine minding_look (c := .file (.fsyncDir d)) trivial (fun _ => rfl) hs fun r s'' ha hs' hr' => ?_
  obtain ⟨r₀, ⟨-, rfl⟩, rfl⟩ := ha
  exact h s'' hs' (hr.trans hr')

/-- What a thread has loaded is what the record said at some time. -/
structure Known (m : Manager) (id : PyStr) (original : Json F) (r : QuarantineRecord F) (s : Shelf) :
    Prop where
  onFile : OnFile r
  wf : r.WF
  id_eq : r.quarantineId = .str id
  original : r.originalPath = original
  deleted : hasStatus r (py "deleted") = true → IsDeleted F m id s.files

theorem Shelf.Inv.known {j : Nat} {r : QuarantineRecord F} (hinv : s.Inv F m id original)
    (hj : j ∈ s.versions) (hdec : decodeRecord m.str id (s.files.nodes j).bytes = .ok r) :
    Known m id original r s := by
  obtain ⟨hwf, hvalid, hid⟩ := decodeRecord_ok hdec
  obtain ⟨-, -, r', hdec', horiginal, data, henc⟩ := hinv.version j hj
  obtain rfl : r' = r := Except.ok.inj (hdec'.symm.trans hdec)
  exact ⟨⟨hvalid, data, henc.2⟩, hwf, hid, horiginal, fun hstatus => (hinv.deleted j hj ⟨r', hdec, hstatus⟩).1⟩

theorem minding_loadMetadata {q : Json F}
    {Q : Except Exc (QuarantineRecord F) → Set Right → Shelf → Prop}
    (hid : validateQuarantineId q = .ok id) (hinv : s.Inv F m id original)
    (hok : ∀ r s', s'.Inv F m id original → Relies m id A s s' → Known m id original r s' → Q (.ok r) A s')
    (hraise : ∀ e s', s'.Inv F m id original → Relies m id A s s' → Q (.error e) A s') :
    minding (rights F m id original) (shelving m id guard) (loadMetadata m q) A Q s := by
  refine minding_bind (minding_lift ?_)
  rw [hid]
  refine minding_bind (minding_lexists hinv fun s₁ hinv₁ hr₁ => ?_)
  refine minding_bind (minding_check (fun _ => ?_) fun _ => hraise _ s₁ hinv₁ hr₁)
  refine minding_bind (minding_sys (c := .lstat _) trivial hinv₁ fun r s₂ ha hinv₂ hr₂ => ?_)
  replace hr₂ := hr₁.trans hr₂
  cases r with
  | error e => exact hraise _ s₂ hinv₂ hr₂
  | ok named =>
  refine minding_bind (minding_check (fun _ => ?_) fun _ => hraise _ s₂ hinv₂ hr₂)
  obtain ⟨j, hj, hcurrent⟩ := hinv₂.current
  have hkind := (hinv₂.version j hj).2.1
  refine minding_bind (minding_orElse (minding_bind (minding_sys (c := .openFile _) trivial hinv₂
    fun r s₃ ha hinv₃ hr₃ => ?_)))
  have hr₃' := hr₂.trans hr₃
  obtain rfl : r = .ok j := by
    have hopened := ha.2
    simpa only [hcurrent, hkind, reduceCtorEq, if_false] using hopened
  refine minding_sys (c := .readAll j) trivial hinv₃ fun r s₄ ha hinv₄ hr₄ => ?_
  obtain ⟨-, rfl⟩ := ha
  -- the file that was opened is a version of the record, whatever the record is now
  obtain ⟨hj₃, hbytes₃⟩ := hr₃.versions j hj
  obtain ⟨hj₄, hbytes₄⟩ := hr₄.versions j hj₃
  refine minding_lift ?_
  cases hdec : decodeRecord (F := F) m.str id (s₃.files.nodes j).bytes with
  | error e => exact hraise e s₄ hinv₄ (hr₃'.trans hr₄)
  | ok r =>
      rw [← hbytes₄] at hdec
      exact hok r s₄ hinv₄ (hr₃'.trans hr₄) (hinv₄.known hj₄ hdec)

/-- The record is there, and it is a regular file. -/
theorem minding_checkDestination {Q : Except Exc Unit → Set Right → Shelf → Prop}
    (hinv : s.Inv F m id original)
    (h : ∀ s', s'.Inv F m id original → Relies m id A s s' → Q (.ok ()) A s') :
    minding (rights F m id original) (shelving m id guard) (checkDestination (m.metadataPath id)) A Q s := by
  refine minding_bind (minding_lexists hinv fun s₁ hinv₁ hr₁ => ?_)
  cases (s.files.names (m.metadataPath id)).isSome with
  | false => exact h s₁ hinv₁ hr₁
  | true =>
      refine minding_bind (minding_sys (c := .lstat _) trivial hinv₁ fun r s₂ ha hinv₂ hr₂ => ?_)
      obtain ⟨j, hj, hcurrent⟩ := hinv₁.current
      obtain rfl : r = .ok (s₁.files.stat j) := by
        have hnamed := ha.2
        simpa only [hcurrent] using hnamed
      have hkind : (s₁.files.stat j).kind = .regular := (hinv₁.version j hj).2.1
      exact minding_check (fun _ => h s₂ hinv₂ (hr₁.trans hr₂)) fun hnot => absurd hkind hnot

/-! ### Writing -/

/-- A file changes, whose contents do not matter or are the thread's own. -/
theorem minding_setNode {c : FileCall Path Directory}
    {Q : Except Exc c.Answer → Set Right → Shelf → Prop} {u : Nat}
    (hmade : ∀ r, made (F := F) m id (.file c) r = ∅) (hinv : s.Inv F m id original)
    (h : ∀ r f', s.files.answers c r f' → ∃ node, f' = s.files.setNode u node ∧
      node.kind = (s.files.nodes u).kind ∧
      (node.bytes = (s.files.nodes u).bytes ∨ .file u ∈ A ∧ u ∉ s.versions) ∧
      ∀ s' s'', s'.files = f' → s'.versions = s.versions → s''.Inv F m id original →
        Relies m id A s' s'' → Q (r.mapError Exc.os) A s'') :
    minding (rights F m id original) (shelving m id guard) (sys c) A Q s := by
  refine minding_call_empty (c := .file c) fun r s' ha => ?_
  obtain ⟨-, ⟨r₀, ha, rfl⟩, hdrawn, hversions⟩ := ha
  obtain ⟨node, hfiles, hkind, hbytes, hnext⟩ := h r₀ s'.files ha
  rw [versionsAfter_same (by rw [hfiles]; rfl)] at hversions
  refine ⟨hmade _, keeps_setNode hinv hfiles hdrawn hversions hkind hbytes, fun s'' hs hr => ?_⟩
  cases r₀ with
  | ok a => exact hnext s' s'' rfl hversions hs hr
  | error e => exact hnext s' s'' rfl hversions hs hr

/-- The thread's file as far as it is written; `p` is its name, if that is a temporary one. -/
structure OwnFile (m : Manager) (id : PyStr) (A : Set Right) (p : Path) (u : Nat) (data : Bytes)
    (s : Shelf) : Prop where
  own : .file u ∈ A
  fresh : u ∉ s.versions
  kind : (s.files.nodes u).kind = .regular
  bytes : (s.files.nodes u).bytes = data
  named : ∀ token, token.length = 32 → .token token ∈ A → p = m.metadataTemporary id token →
    s.files.names p = some u

omit [FloatNum F] in
theorem OwnFile.relies {p : Path} {u : Nat} {data : Bytes} (h : OwnFile m id A p u data s)
    (hr : Relies m id A s s') : OwnFile m id A p u data s' := by
  obtain ⟨hkind, hbytes, hnew⟩ := hr.own u h.own
  refine ⟨h.own, fun hu => h.fresh (hnew hu), hkind.trans h.kind, hbytes.trans h.bytes, ?_⟩
  rintro token hlen htoken rfl
  exact (hr.temporary token hlen htoken).trans (h.named token hlen htoken rfl)

omit [FloatNum F] in
theorem OwnFile.setNode {p : Path} {u : Nat} {data data' : Bytes} {node : Node}
    (h : OwnFile m id A p u data s) (hfiles : s'.files = s.files.setNode u node)
    (hversions : s'.versions = s.versions) (hkind : node.kind = .regular) (hbytes : node.bytes = data') :
    OwnFile m id A p u data' s' := by
  refine ⟨h.own, by rw [hversions]; exact h.fresh, ?_, ?_, ?_⟩
  · simpa [hfiles, Files.setNode] using hkind
  · simpa [hfiles, Files.setNode] using hbytes
  · intro token hlen htoken hp
    rw [hfiles]
    exact h.named token hlen htoken hp

theorem later_setNode {u : Nat} {node : Node} (hfiles : s'.files = s.files.setNode u node) :
    Later m id A A s s' :=
  later_of_names subset_rfl (fun hd => hd) fun _ _ _ => by rw [hfiles]; rfl

theorem minding_writeLoop {p : Path} {u : Nat} {written data : Bytes}
    {Q : Except Exc Unit → Set Right → Shelf → Prop} (fuel : Nat) (hfuel : data.length ≤ fuel)
    (hinv : s.Inv F m id original) (hd : OwnFile m id A p u written s)
    (hQ : ∀ s', s'.Inv F m id original → OwnFile m id A p u (written ++ data) s' → Later m id A A s s' →
      Q (.ok ()) A s') :
    minding (rights F m id original) (shelving m id guard) (writeLoop fuel u data) A Q s := by
  induction fuel generalizing s written data with
  | zero =>
      have hdata : data = [] := List.length_eq_zero_iff.1 (by omega)
      subst hdata
      exact hQ s hinv (by simpa using hd) (.refl m id A s)
  | succ fuel ih =>
      unfold writeLoop
      split
      · next hdata =>
        subst hdata
        exact hQ s hinv (by simpa using hd) (.refl m id A s)
      · next hdata =>
        refine minding_call_empty (c := .file (.write u data)) fun r s₁ ha => ?_
        obtain ⟨-, ⟨r₀, ⟨n, mtime, ctime, hn, hpos, rfl, hfiles⟩, rfl⟩, hdrawn, hversions⟩ := ha
        rw [versionsAfter_same (by rw [hfiles]; rfl)] at hversions
        refine ⟨rfl, keeps_setNode hinv hfiles hdrawn hversions rfl (.inr ⟨hd.own, hd.fresh⟩),
          fun s₂ hinv₂ hr₂ => ?_⟩
        have hd₁ : OwnFile m id A p u (written ++ data.take n) s₁ :=
          hd.setNode hfiles hversions hd.kind (by rw [hd.bytes])
        have hn0 : n ≠ 0 := hpos hdata
        show minding _ _ (if n = 0 then _ else _) A Q s₂
        rw [if_neg hn0]
        refine ih (by simp only [List.length_drop]; omega) hinv₂ (hd₁.relies hr₂) fun s₃ hinv₃ hd₃ hl₃ => ?_
        refine hQ s₃ hinv₃ ?_ (((later_setNode hfiles).trans (Relies.later hr₂)).trans hl₃)
        rwa [List.append_assoc, List.take_append_drop] at hd₃

/-- The new file of a thread. -/
theorem ownFile_created {p : Path} (hinv : s.Inv F m id original) (h : Created p s.files s'.files)
    (hversions : s'.versions = s.versions) :
    OwnFile m id (A ∪ {.file s.files.used}) p s.files.used [] s' := by
  refine ⟨.inr rfl, ?_, h.kind, h.bytes, ?_⟩
  · rw [hversions]
    exact fun hu => lt_irrefl _ (hinv.version _ hu).1
  · intro token _ _ _
    rw [h.names, Function.update_self]

theorem minding_openNew {E : Type} {p : Path} {next : Except Exc Nat → Program (interface F) E α}
    {Q : Except E α → Set Right → Shelf → Prop} (hp : Free m id A p) (hinv : s.Inv F m id original)
    (hok : ∀ u A' s', s'.Inv F m id original → A' = A ∪ {.file u} → OwnFile m id A' p u [] s' →
      Later m id A A' s s' →
        minding (rights F m id original) (shelving m id guard) (next (.ok u)) A' Q s')
    (hexists : ∀ s', s'.Inv F m id original → s.files.names p ≠ none → Relies m id A s s' →
      minding (rights F m id original) (shelving m id guard) (next (.error (.os .exists))) A Q s') :
    minding (rights F m id original) (shelving m id guard) (.call (.file (.openNew p)) next) A Q s := by
  refine minding_call fun r s' ha => ?_
  obtain ⟨hkeeps, hversions, ⟨rfl, hsome, hfiles⟩ | ⟨rfl, hnone, hc⟩⟩ := keeps_openNew (A := A) hp hinv ha
  · refine ⟨∅, rfl, hkeeps, fun s'' hs hr => ?_⟩
    rw [Set.union_empty] at hr ⊢
    exact hexists s'' hs hsome ((relies_same hfiles hversions).trans hr)
  · refine ⟨{.file s.files.used}, rfl, hkeeps, fun s'' hs hr => ?_⟩
    refine hok _ _ s'' hs rfl ((ownFile_created hinv hc hversions).relies hr) (Later.trans ?_ (Relies.later hr))
    refine later_of_names Set.subset_union_left (fun hd => hd.resolve_right (by simp)) fun q hq _ => ?_
    rw [hc.names, Function.update_of_ne (hp.ne hq)]

/-- Nothing is cleaned up where nothing fails. -/
theorem minding_onOsError {p : Prog F α} {cleanup : Prog F Unit}
    {Q : Except Exc α → Set Right → Shelf → Prop}
    (h : minding (rights F m id original) (shelving m id guard) p A
      (fun x A' s' => ∃ a, x = .ok a ∧ Q (.ok a) A' s') s) :
    minding (rights F m id original) (shelving m id guard) (onOsError p cleanup) A Q s := by
  refine minding_orElse (minding_mono ?_ h)
  rintro x A' s' ⟨a, rfl, hQ⟩
  exact hQ

theorem minding_writeTemporary {token : PyStr} {data : Bytes}
    {Q : Except Exc Unit → Set Right → Shelf → Prop} (huuid : isUuid id = true)
    (hlen : token.length = 32) (htoken : .token token ∈ A) (hinv : s.Inv F m id original)
    (hnone : s.files.names (m.metadataTemporary id token) = none)
    (hQ : ∀ u A' s', s'.Inv F m id original → OwnFile m id A' (m.metadataTemporary id token) u data s' →
      Later m id A A' s s' → Q (.ok ()) A' s') :
    minding (rights F m id original) (shelving m id guard)
      (writeTemporary (m.metadataTemporary id token) data) A Q s := by
  have hfree : Free m id A (m.metadataTemporary id token) := by
    refine ⟨fun hmem => temporary_ne huuid hmem hlen rfl, fun token' _ he => ?_⟩
    rw [← metadataTemporary_injective he]
    exact htoken
  refine minding_bind (minding_openNew hfree hinv ?_ fun s' _ hsome => absurd hnone hsome)
  intro u A₁ s₁ hinv₁ _ hown₁ hl₁
  refine minding_onOsError (minding_bind (minding_writeLoop data.length le_rfl hinv₁ hown₁ ?_))
  intro s₂ hinv₂ hown₂ hl₂
  refine minding_bind (minding_setNode (c := .fchmod u 0o600) (u := u) (fun _ => rfl) hinv₂ ?_)
  rintro r f' ⟨ctime, rfl, rfl⟩
  refine ⟨_, rfl, rfl, .inl rfl, fun s₃ s₄ hfiles hversions hinv₄ hr₄ => ?_⟩
  have hown₄ := (hown₂.setNode hfiles hversions hown₂.kind hown₂.bytes).relies hr₄
  have hl₄ := ((hl₁.trans hl₂).trans (later_setNode hfiles)).trans (Relies.later hr₄)
  refine minding_bind (minding_sys (c := .fsync u) trivial hinv₄ fun r s₅ ha hinv₅ hr₅ => ?_)
  obtain ⟨-, rfl⟩ := ha
  exact ⟨(), rfl, hQ u A₁ s₅ hinv₅ (hown₄.relies hr₅) (hl₄.trans (Relies.later hr₅))⟩

/-- The complete file becomes the record. -/
theorem minding_commitTemporary {token : PyStr} {u : Nat} {data : Bytes}
    {Q : Except Exc Unit → Set Right → Shelf → Prop} (huuid : isUuid id = true)
    (hlen : token.length = 32) (htoken : .token token ∈ A) (hinv : s.Inv F m id original)
    (hown : OwnFile m id A (m.metadataTemporary id token) u data s)
    (hversion : IsVersion F m id original data)
    (hpayload : SaysDeleted F m id data → s.files.names (m.payloadPath id) = none)
    (hdeleted : guard (.file (.replace (m.metadataTemporary id token) (m.metadataPath id))) s →
      IsDeleted F m id s.files → SaysDeleted F m id data)
    (hQ : ∀ s', s'.Inv F m id original → u ∈ s'.versions → (s'.files.nodes u).bytes = data →
      Later m id A A s s' → Q (.ok ()) A s') :
    minding (rights F m id original) (shelving m id guard)
      (commitTemporary (m.metadataTemporary id token) (m.metadataPath id)) A Q s := by
  have hbytes := hown.bytes
  subst hbytes
  refine minding_onOsError (minding_bind (minding_call_empty
    (c := .file (.replace (m.metadataTemporary id token) (m.metadataPath id))) fun r s₁ ha => ?_))
  obtain ⟨hkeeps, rfl, hu, hbytes₁, hpay, hpend⟩ := keeps_replace huuid hlen htoken hown.own hinv
    hown.fresh (hown.named token hlen htoken rfl) hown.kind hversion hpayload (hdeleted ha.1) ha
  refine ⟨rfl, hkeeps, fun s₂ hinv₂ hr₂ => ?_⟩
  have hl₂ : Later m id A A s s₂ :=
    Later.trans ⟨subset_rfl, fun hd => hd, fun _ => ⟨hpay, hpend⟩⟩ (Relies.later hr₂)
  obtain ⟨hu₂, hbytes₂⟩ := hr₂.versions u hu
  obtain ⟨j, hj, hcurrent⟩ := hinv₂.current
  refine minding_bind (minding_setNode (c := .chmod (m.metadataPath id) 0o600) (u := j) (fun _ => rfl)
    hinv₂ ?_)
  intro r f' ha
  simp only [Files.answers, hcurrent] at ha
  obtain ⟨ctime, rfl, rfl⟩ := ha
  refine ⟨_, rfl, rfl, .inl rfl, fun s₃ s₄ hfiles hversions hinv₄ hr₄ => ?_⟩
  have hu₃ : u ∈ s₃.versions := by rwa [hversions]
  have hbytes₃ : (s₃.files.nodes u).bytes = (s₂.files.nodes u).bytes := by
    rw [hfiles]
    by_cases he : u = j
    · subst he
      simp [Files.setNode]
    · simp [Files.setNode, he]
  obtain ⟨hu₄, hbytes₄⟩ := hr₄.versions u hu₃
  have hl₄ := (hl₂.trans (later_setNode hfiles)).trans (Relies.later hr₄)
  refine minding_fsyncDirectory hinv₄ fun s₅ hinv₅ hr₅ => ?_
  obtain ⟨hu₅, hbytes₅⟩ := hr₅.versions u hu₄
  refine ⟨(), rfl, hQ s₅ hinv₅ hu₅ ?_ (hl₄.trans (Relies.later hr₅))⟩
  rw [hbytes₅, hbytes₄, hbytes₃, hbytes₂, hbytes₁]

/-- A token that nobody has. -/
theorem minding_token {Q : Except Exc PyStr → Set Right → Shelf → Prop} (hinv : s.Inv F m id original)
    (hQ : ∀ token A' s', s'.Inv F m id original → token.length = 32 → .token token ∈ A' →
      s'.files.names (m.metadataTemporary id token) = none → Later m id A A' s s' → Q (.ok token) A' s') :
    minding (rights F m id original) (shelving m id guard) (ask .token) A Q s := by
  refine minding_call (c := .token) fun r s₁ ha => ?_
  obtain ⟨hkeeps, hfiles, -, -⟩ := keeps_reading (A := A) (F := F) (c := .token) trivial hinv ha
  obtain ⟨-, ⟨-, token, hfresh, rfl⟩, -⟩ := ha
  refine ⟨{.token token}, rfl, hkeeps, fun s₂ hinv₂ hr₂ => ?_⟩
  have hmem : Right.token token ∈ A ∪ {.token token} := .inr rfl
  refine hQ token _ s₂ hinv₂ hfresh.1 hmem ?_ (Later.trans ?_ (Relies.later hr₂))
  · rw [hr₂.temporary token hfresh.1 hmem, hfiles]
    exact hfresh.2 _ _
  · refine later_of_names Set.subset_union_left (fun hd => hd.resolve_right (by simp)) fun q _ _ => ?_
    rw [hfiles]

/-- **The metadata write** among others: the record is written, or it cannot be written at all. One that
    says `deleted` comes from the thread that has deleted the payload; another one is only put in place of
    one that does not say it. -/
theorem minding_writeMetadataAtomic {r : QuarantineRecord F}
    {Q : Except Exc Unit → Set Right → Shelf → Prop} (huuid : isUuid id = true) (hwf : r.WF)
    (hid : r.quarantineId = .str id) (horiginal : r.originalPath = original)
    (hinv : s.Inv F m id original)
    (hstatus : hasStatus r (py "deleted") = true ∧ .deletion ∈ A ∧ s.files.names (m.payloadPath id) = none ∨
      hasStatus r (py "deleted") = false ∧ ∀ src s, guard (.file (.replace src (m.metadataPath id))) s →
        ¬ IsDeleted F m id s.files)
    (hok : ∀ A' s', s'.Inv F m id original → Later m id A A' s s' →
      (hasStatus r (py "deleted") = true → IsDeleted F m id s'.files) → Q (.ok ()) A' s')
    (hraise : ∀ e s', s'.Inv F m id original → Later m id A A s s' → (∀ data, ¬ Encodes r data) →
      Q (.error e) A s') :
    minding (rights F m id original) (shelving m id guard) (writeMetadataAtomic m r) A Q s := by
  refine minding_bind (minding_lift ?_)
  cases hvalid : validateRecord r with
  | error e => exact hraise e s hinv (.refl m id A s) fun data h => by simp [Encodes, hvalid] at h
  | ok _ =>
  refine minding_bind (minding_lift ?_)
  rw [hid, validateQuarantineId_of_isUuid huuid]
  refine minding_bind (minding_checkDestination hinv fun s₁ hinv₁ hr₁ => ?_)
  refine minding_bind (minding_lift ?_)
  cases hdata : encodeRecord r with
  | error e =>
      exact hraise e s₁ hinv₁ (Relies.later hr₁) fun data h => by simp [Encodes, hdata] at h
  | ok data =>
  have hstored : Stored id r data := ⟨hwf, hvalid, huuid, hid, hdata⟩
  refine minding_bind (minding_token hinv₁ fun token A₂ s₂ hinv₂ hlen htoken hnone hl₂ => ?_)
  refine minding_bind (minding_writeTemporary huuid hlen htoken hinv₂ hnone ?_)
  intro u A₃ s₃ hinv₃ hown₃ hl₃
  have hl : Later m id A A₃ s s₃ := ((Relies.later hr₁).trans hl₂).trans hl₃
  refine minding_commitTemporary huuid hlen (hl₃.rights htoken) hinv₃ hown₃
    (hstored.isVersion horiginal) ?_ ?_ ?_
  · intro hmarked
    obtain ⟨-, hd, hgone⟩ := hstatus.resolve_right fun h =>
      absurd ((saysDeleted_iff hstored).1 hmarked) (by simp [h.1])
    exact (hl.names hd).1.trans hgone
  · intro hguard hdeleted
    refine (saysDeleted_iff hstored).2 ?_
    exact (hstatus.resolve_right fun h => h.2 _ _ hguard hdeleted).1
  · intro s₄ hinv₄ hu hbytes hl₄
    refine hok A₃ s₄ hinv₄ (hl.trans hl₄) fun hmarked => ?_
    exact (hinv₄.deleted u hu (by rw [hbytes]; exact (saysDeleted_iff hstored).2 hmarked)).1

end Rules

end Elyra.Quarantine
