import Elyra.Posix.Disk
import Elyra.Quarantine.Atomic

set_option autoImplicit false

/-! # What a call of `quarantine_file` leaves

`wp_quarantineFile` read as statements about runs: where a run may be cut (`quarantine_crash_safe`) and
how it ends (`quarantine_atomic`). `onDisk` plays the host on a disk that can be computed with, so that
single runs can be looked at. -/

namespace Elyra.Quarantine

open Elyra.Python Elyra.Posix Elyra.Posix.Program

variable {F : Type}

/-! ## A host to compute with -/

/-- What the host answers where it is free to. -/
structure Scenery (F : Type) where
  token : PyStr
  now : F
  nowUtc : PyStr

namespace Scenery

variable [PyFloat F]

def reply (h : Scenery F) (uuid : PyStr) :
    (c : Call F) → Disk Path → Except Exc c.Answer × Disk Path
  | .file c, d => ((d.reply c).1.mapError Exc.os, (d.reply c).2)
  | .resolve _, d => (.ok true, d)
  | .uuid4, d => (.ok uuid, d)
  | .token, d => (.ok h.token, d)
  | .time, d => (.ok h.now, d)
  | .utcIso _, d => (.ok h.nowUtc, d)
  | .magic _, d => (.ok none, d)
  | .geteuid, d => (.ok (0 : Nat), d)

/-- The answer is one of the machine's. -/
def valid (h : Scenery F) : Call F → Disk Path → Bool
  | .file c, d => d.valid c
  | .token, d => h.token.length == 32 &&
      d.entries.all fun e => !(h.token ++ py ".tmp").isSuffixOf e.1.name
  | .time, _ => PyFloat.finite h.now
  | .utcIso _, _ => h.nowUtc.all (· < 128)
  | _, _ => true

def mayFail : Call F → Exc → Bool
  | .file _, .os _ => true
  | .resolve _, .os _ => true
  | .utcIso _, .value => true
  | .magic _, _ => true
  | _, _ => false

omit [PyFloat F] in
theorem canFail_of_mayFail {c : Call F} {e : Exc} (h : mayFail c e = true) : canFail c e := by
  cases c <;> cases e <;>
    first | exact ⟨_, rfl⟩ | rfl | trivial

theorem freshToken {d : Disk Path} {token : PyStr} (hlen : token.length = 32)
    (hd : d.entries.all (fun e => !(token ++ py ".tmp").isSuffixOf e.1.name) = true) :
    FreshToken d.files token := by
  refine ⟨hlen, fun dir id => ?_⟩
  cases hn : d.files.names ⟨dir, temporaryName id token⟩ with
  | none => rfl
  | some i =>
      have hmem := List.all_eq_true.1 hd _ (mem_of_lookup hn)
      simp only [Bool.not_eq_true', temporaryName, List.append_assoc] at hmem
      have hsuffix : (token ++ py ".tmp") <:+ py "." ++ (id ++ (py "." ++ (token ++ py ".tmp"))) := by
        refine (List.suffix_append _ _).trans ((List.suffix_append _ _).trans (List.suffix_append _ _))
      rw [List.isSuffixOf_iff_suffix.2 hsuffix] at hmem
      exact absurd hmem (by simp)

/-- The host on a disk. -/
def onDisk (h : Scenery F) (uuid : PyStr) :
    Driver (machine (F := F) uuid fun _ _ => True) (Disk Path) Disk.files where
  reply := h.reply uuid
  valid := h.valid
  mayFail := mayFail
  fails := fun c e h => ⟨canFail_of_mayFail h, trivial⟩
  sound := by
    intro c d hv
    cases c with
    | file c => exact ⟨(d.reply c).1, d.reply_sound c hv, rfl⟩
    | resolve dir => exact ⟨rfl, rfl⟩
    | uuid4 => exact ⟨rfl, rfl⟩
    | token =>
        obtain ⟨hlen, hd⟩ : h.token.length = 32 ∧ d.entries.all
            (fun e => !(h.token ++ py ".tmp").isSuffixOf e.1.name) = true := by
          simpa only [valid, Bool.and_eq_true, beq_iff_eq] using hv
        exact ⟨rfl, h.token, freshToken hlen hd, rfl⟩
    | time => exact ⟨rfl, h.now, hv, rfl⟩
    | utcIso t => exact ⟨rfl, h.nowUtc, by simpa [valid] using hv, rfl⟩
    | magic p => exact ⟨rfl, none, by simp, rfl⟩
    | geteuid => exact ⟨rfl, 0, rfl⟩

end Scenery

/-! ## Runs of `quarantine_file` -/

section Runs

variable [FloatNum F] {m : Manager} {args : QuarantineArgs F} {source : Path} {i : Nat} {id : PyStr}
  {f₀ f : Files Path} {allowed : Call F → Exc → Prop}

/-- Wherever the call is cut, its rollback included, the original bytes are under one of the three
    names, and a metadata file comes with the payload it describes. -/
theorem quarantine_crash_safe (hs : Scene m source i id f₀) (hwf : f₀.WF)
    (hloc : m.locate (m.absolute args.path) = some source)
    (hv : Visits (machine id fun _ _ => True) .once (quarantineFile m args) f₀ f) :
    Recoverable F m source id (f₀.nodes i).bytes f :=
  wp_visits (wp_quarantineFile hs hwf hloc) hv

/-- The item is in quarantine: the payload has the original bytes, and the metadata loads as the
    record. -/
structure InQuarantine (m : Manager) (source : Path) (id : PyStr) (original : Bytes)
    (r : QuarantineRecord F) (f : Files Path) : Prop where
  gone : f.names source = none ∧ f.names (holdingPath source id) = none
  payload : ∃ k, f.names (m.payloadPath id) = some k ∧ (f.nodes k).bytes = original
  metadata : ∃ j loaded, f.names (m.metadataPath id) = some j ∧
    decodeRecord m.str id (f.nodes j).bytes = .ok loaded ∧
    (Json.obj loaded.toDict).sortKeys = (Json.obj r.toDict).sortKeys

theorem Quarantined.inQuarantine {r : QuarantineRecord F} (h : Quarantined m source i id f₀ r f)
    (hs : Scene m source i id f₀) : InQuarantine m source id (f₀.nodes i).bytes r f := by
  have hfree : f₀.names (holdingPath source id) = none := hs.free (.inl rfl)
  obtain ⟨k, hk, hbytes, -⟩ := h.payload
  obtain ⟨j, data, hj, hdata, hstored, -⟩ := h.metadata
  refine ⟨⟨h.gone, ?_⟩, ⟨k, hk, hbytes⟩, j, r.canon, hj, ?_, r.sortKeys_canon⟩
  · rw [h.others _ (hs.ne_source (.inl rfl)) hs.payload_ne.2.symm hs.metadata_ne.2.symm, hfree]
  · rw [hdata]
    exact hstored.decode m.str

/-- A call that raises leaves every name with its file; a call that returns has met no failure but a
    tolerated one, and leaves the file in quarantine. -/
theorem quarantine_atomic (hs : Scene m source i id f₀) (hwf : f₀.WF)
    (hloc : m.locate (m.absolute args.path) = some source) {b b' : Faults}
    {x : Except Exc (QuarantineRecord F)}
    (hrun : Steps (machine id allowed) b (quarantineFile m args) f₀ b' (ofResult x) f) :
    match x with
    | .error _ => f.names = f₀.names ∧ f₀.Keeps f
    | .ok r => Spent allowed b b' ∧ InQuarantine m source id (f₀.nodes i).bytes r f := by
  have hwp : wp (machine id allowed) (Recoverable F m source id (f₀.nodes i).bytes)
      (quarantineFile m args) b (CallPost m args source i id f₀ allowed b) f₀ :=
    wp_quarantineFile hs hwf hloc
  have hpost := wp_steps hwp hrun
  cases x with
  | error e => exact ⟨hpost.2.1.names, hpost.2.1.keeps⟩
  | ok r => exact ⟨hpost.2.1, hpost.2.2.inQuarantine hs⟩

end Runs

/-! ## A small file -/

def sampleId : PyStr := py "00000000-0000-4000-8000-000000000001"

def sampleScenery : Scenery SampleFloat where
  token := List.replicate 32 48
  now := .zero
  nowUtc := py "1970-01-01T00:00:00+00:00"

def malPath : Path := ⟨py "/home", py "mal"⟩

def sampleManager : Manager where
  quarantineDir := py "/q"
  metadataDir := py "/m"
  locate := fun text => if text = py "/home/mal" then some malPath else none
  expanduser := id
  cwd := py "/"
  guessType := fun _ => none
  str := fun _ => []

def sampleArgs : QuarantineArgs SampleFloat where
  path := py "/home/mal"
  expectedSha256 := .null
  reason := .str (py "score 90")
  relatedPid := .null
  triggeredRules := .arr []
  processInfo := .null
  expectedDevice := none
  expectedInode := none
  expectedSize := none
  expectedMtimeNs := none
  expectedCtimeNs := none
  rules_wf := trivial
  process_wf := trivial

def sampleDisk : Disk Path where
  entries := [(malPath, 0)]
  nodes := [⟨.regular, 1, [1, 2, 3], 0o755, 0, 0, 0, 0, 1⟩]

theorem sampleDisk_names {q : Path} {j : Nat} (h : sampleDisk.files.names q = some j) :
    q = malPath ∧ j = 0 := by
  have hmem : (q, j) ∈ sampleDisk.entries := mem_of_lookup h
  simpa [sampleDisk] using hmem

theorem sample_wf : sampleDisk.files.WF := by
  intro q j hj
  obtain ⟨-, rfl⟩ := sampleDisk_names hj
  decide

theorem sample_scene : Scene sampleManager malPath 0 sampleId sampleDisk.files where
  named := by decide
  inUse := by decide
  fresh := by
    refine ⟨by decide, fun q hq => ?_⟩
    cases hn : sampleDisk.files.names q with
    | none => rfl
    | some j =>
        obtain ⟨rfl, -⟩ := sampleDisk_names hn
        have hlen : malPath.name.length = 3 := rfl
        have hid : sampleId.length = 36 := rfl
        rcases hq with h | h | h | h | ⟨token, h⟩ <;> have := congrArg List.length h
        · rw [holdingName_length] at this
          omega
        · omega
        · rw [metadataName_length] at this
          omega
        · rw [deletePendingName_length] at this
          omega
        · rw [temporaryName_length] at this
          omega

/-- The run of the call under a plan. -/
def sampleRun (plan : Option (Nat × Exc)) :
    Option (Faults × Except Exc (QuarantineRecord SampleFloat) × Disk Path) :=
  drive (sampleScenery.onDisk sampleId) (quarantineFile sampleManager sampleArgs) plan sampleDisk

/-- Whether a run ends with a value, and with these faults left. -/
def returnsWith {α : Type} (b : Faults) (x : Option (Faults × Except Exc α × Disk Path)) : Bool :=
  match x with
  | some (b', .ok _, _) => decide (b' = b)
  | _ => false

theorem of_returnsWith {α : Type} {b : Faults} {x : Option (Faults × Except Exc α × Disk Path)}
    (h : returnsWith b x = true) : ∃ a d, x = some (b, .ok a, d) := by
  rcases x with - | ⟨b', e | a, d⟩
  · exact absurd h (by simp [returnsWith])
  · exact absurd h (by simp [returnsWith])
  · simp only [returnsWith, decide_eq_true_eq] at h
    subst h
    exact ⟨a, d, rfl⟩

theorem sample_run {plan : Option (Nat × Exc)} {b : Faults}
    (h : returnsWith b (sampleRun plan) = true) : ∃ r d, Steps (machine sampleId fun _ _ => True)
      (@planned (interface SampleFloat) plan) (quarantineFile sampleManager sampleArgs)
      sampleDisk.files b
      (ofResult (.ok r)) (Disk.files d) := by
  obtain ⟨r, d, hrun⟩ := of_returnsWith h
  exact ⟨r, d, drive_steps _ hrun⟩

/-- The file is found after a run that no failure has hit. -/
theorem sample_crash_safe : ∃ d : Disk Path,
    Recoverable SampleFloat sampleManager malPath sampleId [1, 2, 3] d.files := by
  obtain ⟨r, d, hsteps⟩ := @sample_run (some (60, .os (.other 5))) .once (by decide +kernel)
  exact ⟨d, quarantine_crash_safe sample_scene sample_wf (by decide) ⟨_, _, hsteps⟩⟩

theorem sample_atomic : ∃ (r : QuarantineRecord SampleFloat) (d : Disk Path),
    InQuarantine sampleManager malPath sampleId [1, 2, 3] r d.files := by
  obtain ⟨r, d, hsteps⟩ := @sample_run none .never (by decide +kernel)
  exact ⟨r, d, (quarantine_atomic sample_scene sample_wf (by decide) hsteps).2⟩

/-- The last step, the `fsync` of the source's directory, fails, and the call returns. -/
theorem sample_returns_after_failure : ∃ (r : QuarantineRecord SampleFloat) (d : Disk Path),
    Steps (machine sampleId fun _ _ => True) .once (quarantineFile sampleManager sampleArgs)
      sampleDisk.files .never (ofResult (.ok r)) d.files :=
  @sample_run (some (44, .os (.other 5))) .never (by decide +kernel)

end Elyra.Quarantine
