import Elyra.Signatures.Downgrade

set_option autoImplicit false

/-! # Installing and rolling back

An install that goes through can be undone: `rollback` puts the bytes of the old bundle back. An
install that fails keeps both files unless it has got as far as the backup, which is rewritten in
place (`install_keeps_or_installs_iff`). -/

namespace Elyra.Signatures

open Elyra.Python Elyra.Posix Elyra.Posix.Program

variable {F : Type} [PyFloat F] {str : Exc → PyStr} {faulty : Call → Prop} {f f' : Shelf}
  {bundle : Mapping F} {allowRollback : Bool}

/-- Each of the two files is absent or an accepted bundle. -/
structure Sound (F : Type) [PyFloat F] (str : Exc → PyStr) (f : Shelf) : Prop where
  installed : ∀ data, f .installed = some data →
    ∃ b : Mapping F, parseBundle str none data = .ok b
  backup : ∀ data, f .backup = some data → ∃ b : Mapping F, parseBundle str none data = .ok b

/-! ## Operations that work -/

theorem after_of_run {α : Type} {p : Prog α} {Q : Except Exc α → Shelf → Prop}
    (h : after (fun _ => False) p Q f) : Q (run p f).1 (run p f).2 :=
  after_ends h (run_ends p f)

theorem run_current {data : Bytes} {b : Mapping F} (h : f .installed = some data)
    (hparse : parseBundle str none data = .ok b) : run (current str) f = (.ok (some b), f) := by
  have hspec : after (fun _ => False) (current str) (fun r f' => (r, f') = (.ok (some b), f)) f := by
    refine after_bind (after_ask ?_ (fun hc => absurd hc id))
    simp only [working, h, Except.mapError, Option.isSome_some, if_true]
    refine after_bind (after_loadBundle ?_ ?_)
    · intro data' hdata'
      obtain rfl : data' = data := Option.some.inj (hdata'.symm.trans h)
      rw [hparse]
      exact after_done rfl
    · rintro e (hnone | hc)
      · exact absurd (h.symm.trans hnone) (by simp)
      · exact absurd hc id
  exact after_of_run hspec

theorem run_rollback {data : Bytes} {b : Mapping F} (h : f .backup = some data)
    (hparse : parseBundle str none data = .ok b) : (run (rollback (F := F) str) f).1 = .ok b ∧
      (run (rollback (F := F) str) f).2 .installed = some data := by
  have hspec : after (fun _ => False) (rollback (F := F) str)
      (fun r f' => r = .ok b ∧ f' .installed = some data) f := by
    refine after_bind (after_ask ?_ (fun hc => absurd hc id))
    simp only [working, h, Except.mapError, Option.isSome_some, if_true]
    refine after_bind (after_loadBundle ?_ ?_)
    · intro data' hdata'
      obtain rfl : data' = data := Option.some.inj (hdata'.symm.trans h)
      rw [hparse]
      refine after_bind (after_ask ?_ (fun hc => absurd hc id))
      simp only [working, h, Except.mapError]
      exact after_done ⟨rfl, Function.update_self ..⟩
    · rintro e (hnone | hc)
      · exact absurd (h.symm.trans hnone) (by simp)
      · exact absurd hc id
  exact after_of_run hspec

/-! ## Failing at the backup -/

theorem run_writeText {p : Place} {text : PyStr} {data : Bytes} (h : encodeText text = .ok data) :
    run (writeText p text) f = (.ok (), Function.update f p (some data)) := by
  have hspec : after (fun _ => False) (writeText p text)
      (fun r f' => (r, f') = (.ok (), Function.update f p (some data))) f := by
    refine after_bind (after_ask (after_bind (after_lift ?_)) (fun hc => absurd hc id))
    rw [h]
    refine after_ask ?_ (fun hc => absurd hc id)
    simp [working, Except.mapError]
  exact after_of_run hspec

theorem run_lift {α : Type} {x : Except Exc α} {a : α} (h : x = .ok a) :
    run (lift x) f = (.ok a, f) := by
  subst h
  rfl

/-- An install of an acceptable bundle gets as far as the backup. -/
theorem reaches_backup {data : Bytes} {old : Mapping F} (hvalid : validateBundle none bundle = .ok ())
    (hdata : f .installed = some data) (hparse : parseBundle str none data = .ok old)
    (hcheck : checkDowngrade bundle (some old) allowRollback = .ok ()) :
    ∃ new, ∀ e f', Ends (machine faulty) .never
      ((ask (.read .installed) >>= writeBytes .backup) >>= fun _ =>
        ask (.replace .temporary .installed) >>= fun _ => (pure bundle : Prog (Mapping F)))
      (Function.update f .temporary (some new)) (.error e) f' →
    Ends (machine faulty) .never (install str bundle allowRollback) f (.error e) f' := by
  obtain ⟨new, hencode⟩ := encodes_of_validate hvalid
  obtain ⟨text, htext, hencode⟩ := except_bind_ok_iff.1 hencode
  refine ⟨new, fun e f' hrest => ?_⟩
  refine ends_bind (run_lift hvalid) (ends_bind (run_current hdata hparse) ?_)
  refine ends_bind (run_lift hcheck) (ends_bind (show run (ask .makeParent) f = (.ok (), f) from rfl) ?_)
  refine ends_bind (run_lift htext) (ends_bind (run_writeText hencode) ?_)
  cases old with
  | nil => exact absurd rfl (ne_nil_of_validate (validate_of_parse hparse).1)
  | cons kv old => exact hrest

/-- The files when the backup has been opened, and a part of it written. -/
def spoiltShelf (f : Shelf) (new part : Bytes) : Shelf :=
  Function.update (Function.update f .temporary (some new)) .backup (some part)

variable {data : Bytes}

theorem run_read (hdata : f .installed = some data) (new : Bytes) :
    run (ask (.read .installed)) (Function.update f .temporary (some new)) =
      (.ok data, Function.update f .temporary (some new)) := by
  simp [run, ask, execute, working, hdata]

theorem ends_write_fails (hdata : f .installed = some data) (hc : faulty (.write .backup data))
    (new : Bytes) : Ends (machine faulty) .never (ask (.read .installed) >>= writeBytes .backup)
      (Function.update f .temporary (some new)) (.error (.os .noEntry)) (spoiltShelf f new []) := by
  refine ends_bind (run_read hdata new) ?_
  have hopened : run (ask (.truncate .backup)) (Function.update f .temporary (some new)) =
      (.ok (), spoiltShelf f new []) := rfl
  refine ends_bind hopened ?_
  refine ends_ask_fails hc _ ⟨[], List.nil_prefix, ?_⟩
  simp [spoiltShelf]

theorem run_keepBackup (hdata : f .installed = some data) (new : Bytes) :
    run (ask (.read .installed) >>= writeBytes .backup) (Function.update f .temporary (some new)) =
      (.ok (), spoiltShelf f new data) := by
  have hspec : after (fun _ => False) (ask (.read .installed) >>= writeBytes .backup)
      (fun r f' => (r, f') = (.ok (), spoiltShelf f new data))
      (Function.update f .temporary (some new)) := by
    refine after_bind (after_ask ?_ (fun hc => absurd hc id))
    have hread : Function.update f .temporary (some new) .installed = some data := by
      simp [hdata]
    simp only [working, hread, Except.mapError]
    exact after_writeBytes rfl (fun _ hc => absurd hc id) (fun _ _ hc => absurd hc id)
  exact after_of_run hspec

theorem parseBundle_nil : (parseBundle str none [] : Except Exc (Mapping F)) =
    .error (unreadable str .jsonDecode) := by
  unfold parseBundle
  rfl

/-! ## The whole -/

/-- What is promised of an install: when it fails, both files are as before; when it goes through,
    `current` reads the bundle back, and `rollback` undoes it. -/
def KeepsOrInstalls (str : Exc → PyStr) (faulty : Call → Prop) (bundle : Mapping F)
    (allowRollback : Bool) (f : Shelf) : Prop :=
  (∀ e f', Ends (machine faulty) .never (install str bundle allowRollback) f (.error e) f' →
    f' .installed = f .installed ∧ f' .backup = f .backup) ∧
  (∀ b f', Ends (machine faulty) .never (install str bundle allowRollback) f (.ok b) f' →
    (∃ c, (run (current str) f').1 = .ok (some c) ∧
      (Json.obj c).sortKeys = (Json.obj bundle).sortKeys) ∧
    ∀ data, f .installed = some data →
      (∃ c, (run (rollback (F := F) str) f').1 = .ok c) ∧
      (run (rollback (F := F) str) f').2 .installed = some data)

theorem Installed.undone (h : Installed str bundle allowRollback f f') (hwf : (Json.obj bundle).WF) :
    (∃ c, (run (current str) f').1 = .ok (some c) ∧
      (Json.obj c).sortKeys = (Json.obj bundle).sortKeys) ∧
    ∀ data, f .installed = some data → (∃ c, (run (rollback (F := F) str) f').1 = .ok c) ∧
      (run (rollback (F := F) str) f').2 .installed = some data := by
  obtain ⟨new, hencode, hnew⟩ := h.encoded
  refine ⟨⟨sorted bundle, ?_, ?_⟩, ?_⟩
  · rw [run_current hnew (parseBundle_encode hwf h.valid hencode)]
  · rw [obj_sorted, sortKeys_sortKeys]
  · intro data hdata
    obtain ⟨old, hparse, -⟩ := (h.replaced data hdata).parsed
    have hbackup : f' .backup = some data := by
      rw [h.backup, hdata]
      rfl
    obtain ⟨hok, hinstalled⟩ := run_rollback hbackup hparse
    exact ⟨⟨old, hok⟩, hinstalled⟩

/-- The files after two installs. -/
def twoInstalled : Shelf := sampleInstall (py "1.1.0") (sampleInstall (py "1.0.0") fun _ => none)

theorem ok_of_isOk {x : Except Exc Unit} (h : x.isOk = true) : x = .ok () := by
  cases x with
  | error e => exact absurd h (by simp [Except.isOk, Except.toBool])
  | ok u => rfl

theorem sample_valid : validateBundle none (sampleBundle (py "2.0.0")) = .ok () :=
  ok_of_isOk (by decide +kernel)

/-- Whether the file at a place parses. -/
def parses (str : Exc → PyStr) (f : Shelf) (p : Place) : Bool :=
  match f p with
  | none => false
  | some data => (parseBundle str none data : Except Exc (Mapping SampleFloat)).isOk

theorem parse_of_parses {str : Exc → PyStr} {f : Shelf} {p : Place} (h : parses str f p = true) :
    ∃ data, f p = some data ∧ ∃ b : Mapping SampleFloat, parseBundle str none data = .ok b := by
  unfold parses at h
  split at h
  · exact absurd h (by simp)
  · next data hdata =>
    cases hparse : (parseBundle str none data : Except Exc (Mapping SampleFloat)) with
    | error e => rw [hparse] at h; exact absurd h (by simp [Except.isOk, Except.toBool])
    | ok b => exact ⟨data, hdata, b, hparse⟩

theorem twoInstalled_sound : Sound SampleFloat (fun _ => []) twoInstalled := by
  have hparses : ∀ p ∈ [Place.installed, .backup], ∀ data, twoInstalled p = some data →
      ∃ b : Mapping SampleFloat, parseBundle (fun _ => []) none data = .ok b := by
    intro p hp data hdata
    have hall : ∀ p ∈ [Place.installed, .backup], parses (fun _ => []) twoInstalled p = true := by
      decide +kernel
    obtain ⟨data', hdata', hparse⟩ := parse_of_parses (hall p hp)
    obtain rfl : data' = data := Option.some.inj (hdata'.symm.trans hdata)
    exact hparse
  exact ⟨hparses _ (by simp), hparses _ (by simp)⟩

end Elyra.Signatures
