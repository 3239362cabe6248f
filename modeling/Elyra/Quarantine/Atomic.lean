import Elyra.Quarantine.Rollback

set_option autoImplicit false

/-! # Quarantining is atomic

`quarantine_file` in all its runs with at most one failing step (`wp_quarantineFile`): it returns with
the file in quarantine, or raises with every name as before, and wherever it is stopped the original
bytes can still be found (`Recoverable`). -/

namespace Elyra.Quarantine

open Elyra.Python Elyra.Posix Elyra.Posix.Program

variable {F : Type} {α : Type} [FloatNum F] {m : Manager} {source : Path} {i : Nat} {id : PyStr}
  {f₀ : Files Path} {allowed : Call F → Exc → Prop} {I : Files Path → Prop} {b : Faults}
  {f : Files Path}

/-! ## The parts of the `try` block -/

theorem wp_tracking {ℓ : Locals} {p : Prog F α}
    {Q : Faults → Except (Exc × Locals) α → Files Path → Prop}
    (h : wp (machine id allowed) I p b (fun b' r f' =>
      match r with
      | .ok a => Q b' (.ok a) f'
      | .error e => I f' ∧ Q b' (.error (e, ℓ)) f') f) :
    wp (machine id allowed) I (tracking ℓ p) b Q f := by
  refine wp_orElse (wp_mono ?_ h)
  rintro b' (e | a) f' hr
  · exact hr
  · exact hr

/-- Opening and hashing the source changes nothing. -/
theorem wp_openSource {args : QuarantineArgs F}
    {Q : Faults → Except Exc (Nat × Stat × PyStr) → Files Path → Prop}
    (hs : Scene m source i id f₀) (hI : I f₀)
    (hok : (f₀.nodes i).kind = .regular → checkExpected args (f₀.stat i) = .ok () →
      checkSourceHash args (sha256 (f₀.nodes i).bytes) = .ok () →
      Q b (.ok (i, f₀.stat i, sha256 (f₀.nodes i).bytes)) f₀)
    (hraise : ∀ b' e, b = .once ∨ (f₀.nodes i).kind ≠ .regular ∨
      checkExpected args (f₀.stat i) ≠ .ok () ∨
      checkSourceHash args (sha256 (f₀.nodes i).bytes) ≠ .ok () → Q b' (.error e) f₀) :
    wp (machine id allowed) I (openSource m args source) b Q f₀ := by
  refine wp_bind (wp_openRegularNofollow hs.named hI ?_
    (fun b' e h => hraise b' e (h.imp_right .inl)))
  intro hk
  refine wp_bind (wp_lift hI ?_)
  cases hexp : checkExpected args (f₀.stat i) with
  | error e => exact hraise b e (.inr (.inr (.inl (by simp [hexp]))))
  | ok _ =>
  refine wp_bind (wp_hashFd hI ?_ (fun hb e => hraise _ _ (.inl hb)))
  refine wp_bind (wp_assertFdUnchanged rfl hI ?_ (fun hb e => hraise _ _ (.inl hb)))
  refine wp_bind (wp_lift hI ?_)
  cases hhash : checkSourceHash args (sha256 (f₀.nodes i).bytes) with
  | error e => exact hraise b e (.inr (.inr (.inr (by simp [hhash]))))
  | ok _ => exact ⟨hI, hok hk hexp hhash⟩

/-- The source moves to its holding name. -/
theorem wp_holdSource {Q : Faults → Except Exc Stat → Files Path → Prop}
    (hs : Scene m source i id f₀) (hk : (f₀.nodes i).kind = .regular)
    (hI : ∀ f', Moving source (holdingPath source id) i f₀ f' → I f')
    (hok : ∀ b' f', Spent allowed b b' →
      Relabelled (movedNames f₀.names source (holdingPath source id) i) f₀ f' →
      Q b' (.ok (f'.stat i)) f')
    (hraise : b = .once → ∀ b' e f', Relabelled f₀.names f₀ f' ∨
      Relabelled (movedNames f₀.names source (holdingPath source id) i) f₀ f' →
      Q b' (.error e) f') :
    wp (machine id allowed) I (holdSource source (holdingPath source id) i (f₀.stat i)) b Q f₀ := by
  refine wp_bind (wp_moveNoreplace hs.named (hs.free (.inl rfl)) (by simp [hk]) hI ?_
    (fun hb e f' h => hraise hb _ _ f' (.inl h)))
  intro b₁ f₁ hb₁ h₁
  have hI₁ : I f₁ := hI f₁ (.inr (.inr h₁))
  have hsame := h₁.keeps.nodes i hs.inUse
  have hfail : b₁ = .once → ∀ e, Q .never (.error (.os e)) f₁ := fun hb e =>
    hraise (hb₁.once hb) _ _ f₁ (.inr h₁)
  refine wp_bind (wp_assertPathMatchesFd ?_ ?_ ?_ rfl hI₁ ?_ hfail)
  · rw [h₁.names, movedNames, Function.update_self]
  · rw [hsame.kind, hk]
    simp
  · exact hsame.device.symm
  refine wp_bind (wp_fstat hI₁ ?_ hfail)
  refine wp_bind (wp_check hI₁ ?_ (fun h => absurd ?_ h))
  · intro _
    exact ⟨hI₁, hok b₁ f₁ hb₁ h₁⟩
  · exact ⟨congrArg List.length hsame.bytes, hsame.mtime⟩

/-- A new regular file under the name `p`; the old files are as before. -/
structure Placed (p : Path) (f f' : Files Path) : Prop where
  names : f'.names = Function.update f.names p (some f.used)
  used : f'.used = f.used + 1
  keeps : f.Keeps f'
  kind : (f'.nodes f.used).kind = .regular

theorem Begun.placed {p : Path} {f f' : Files Path} (h : Begun p f f') : Placed p f f' :=
  ⟨h.names, h.used, h.old.keeps, h.kind⟩

theorem Placed.wf {p : Path} {f f' : Files Path} (h : Placed p f f') (hwf : f.WF) : f'.WF := by
  intro q j hj
  rw [h.names] at hj
  rw [h.used]
  refine update_wf (fun q j hq => Nat.lt_succ_of_lt (hwf q j hq)) ?_ q j hj
  rintro j hu
  cases hu
  exact Nat.lt_succ_self _

theorem Placed.relabelled {p : Path} {f f' f'' : Files Path} (h : Placed p f f')
    (h' : Relabelled f'.names f' f'') : Placed p f f'' :=
  ⟨h'.names.trans h.names, h'.used.trans h.used, h.keeps.trans h'.keeps,
    (h'.keeps.nodes f.used (by rw [h.used]; exact Nat.lt_succ_self _)).kind.trans h.kind⟩

/-- The copy gets the name of the payload. -/
theorem Written.placed {t p : Path} {data : Bytes} {f f' f'' : Files Path}
    (h : Written t data f f') (ht : f.names t = none)
    (h' : Relabelled (movedNames f'.names t p f.used) f' f'') :
    Placed p f f'' ∧ (f''.nodes f.used).bytes = data ∧ (f''.nodes f.used).mode = 0o600 := by
  have hnode := h'.keeps.nodes f.used (by rw [h.used]; exact Nat.lt_succ_self _)
  refine ⟨⟨?_, h'.used.trans h.used, h.old.keeps.trans h'.keeps, hnode.kind.trans h.kind⟩,
    hnode.bytes.trans h.bytes, hnode.mode.trans h.mode⟩
  rw [h'.names, movedNames, h.names, Function.update_idem, ← ht, Function.update_eq_self]

/-- How `copySource` ends: with the copy at `t`, or with what has been begun of it. -/
def CopyPost (t : Path) (data : Bytes) (f : Files Path) (b : Faults) :
    Faults → Except Exc Unit → Files Path → Prop
  | b', .ok _, f' => b' = b ∧ Written t data f f'
  | _, .error _, f' => b = .once ∧ (f' = f ∨ Placed t f f')

/-- The held source is copied, and the copy gets the name of the payload. -/
theorem wp_copyPayload {t y : Path} {opened held : Stat} {hash : PyStr}
    {Q : Faults → Except Exc Unit → Files Path → Prop} (ht : f.names t = none)
    (hy : f.names y = none) (hne : y ≠ t) (hi : i < f.used)
    (hhash : hash = sha256 (f.nodes i).bytes) (hsize : opened.size = (f.nodes i).bytes.length)
    (hheld : held = f.stat i)
    (hI : ∀ f', f.Keeps f' → (∀ q, q ≠ t → q ≠ y → f'.names q = f.names q) → I f')
    (hok : ∀ b' f', Spent allowed b b' → Placed y f f' →
      (f'.nodes f.used).bytes = (f.nodes i).bytes → (f'.nodes f.used).mode = 0o600 →
      Q b' (.ok ()) f')
    (hraise : b = .once → ∀ b' e f', f' = f ∨ Placed t f f' → Q b' (.error e) f') :
    wp (machine id allowed) I (do
      copySource i t hash opened held
      moveNoreplace t y) b Q f := by
  subst hhash hheld
  have hI₀ : I f := hI f (.refl f) (fun _ _ _ => rfl)
  have hItmp : ∀ f', Begun t f f' → I f' := by
    intro f' h
    refine hI f' h.old.keeps ?_
    intro q hq _
    rw [h.names, Function.update_of_ne hq]
  have hcopy : wp (machine id allowed) I
      (copySource i t (sha256 (f.nodes i).bytes) opened (f.stat i)) b
      (CopyPost t (f.nodes i).bytes f b) f := by
    refine wp_bind (wp_copyFdToNewFile ht hi hI₀ hItmp ?_ (fun hb e => ⟨hb, .inl rfl⟩)
      (fun hb e f' h => ⟨hb, .inr h.placed⟩))
    intro f₁ h₁
    have hI₁ := hItmp f₁ h₁.begun
    refine wp_bind (wp_check hI₁ ?_ (fun h => absurd ⟨rfl, hsize.symm⟩ h))
    intro _
    refine wp_assertFdUnchanged ?_ hI₁ ⟨rfl, h₁⟩ (fun hb e => ⟨hb, .inr h₁.begun.placed⟩)
    simp only [Files.stat, h₁.old.nodes i hi]
  refine wp_bind (wp_mono ?_ hcopy)
  rintro b₁ (e | _) f₁ h
  · exact hraise h.1 b₁ e f₁ h.2
  obtain ⟨rfl, h₁⟩ := h
  have htmp : f₁.names t = some f.used := by rw [h₁.names, Function.update_self]
  have hy₁ : f₁.names y = none := by rw [h₁.names, Function.update_of_ne hne, hy]
  refine wp_moveNoreplace htmp hy₁ (by rw [h₁.kind]; simp) ?_ ?_ ?_
  · intro f' hmove
    have hsame : ∀ q, q ≠ t → f₁.names q = f.names q := by
      intro q hq
      rw [h₁.names, Function.update_of_ne hq]
    rcases hmove with hr | hr | hr
    · refine hI f' (h₁.old.keeps.trans hr.keeps) (fun q hq _ => ?_)
      rw [hr.names, hsame q hq]
    · refine hI f' (h₁.old.keeps.trans hr.keeps) (fun q hq hq' => ?_)
      rw [hr.names, Function.update_of_ne hq', hsame q hq]
    · refine hI f' (h₁.old.keeps.trans hr.keeps) (fun q hq hq' => ?_)
      rw [hr.names, movedNames, Function.update_of_ne hq', Function.update_of_ne hq, hsame q hq]
  · intro b' f' hb' hr
    obtain ⟨hplaced, hbytes, hmode⟩ := h₁.placed ht hr
    exact hok b' f' hb' hplaced hbytes hmode
  · intro hb e f' hr
    exact hraise hb _ _ f' (.inr (h₁.begun.placed.relabelled hr))

/-- What the host tells about a payload: its type and the time. -/
structure Observed (m : Manager) (y : Path) (fileType : PyStr) (now : F) (nowUtc : PyStr) : Prop where
  fileType : TypeText m y fileType
  now : PyFloat.finite now = true
  nowUtc : ∀ c ∈ nowUtc, c < 128

/-- The payload is protected and described; the files stay as they are. -/
theorem wp_describePayload {y : Path} {hash : PyStr} {opened : Stat} {safe : SafeArgs F} {k : Nat}
    {Q : Faults → Except Exc (QuarantineRecord F) → Files Path → Prop} (hy : f.names y = some k)
    (hmode : (f.nodes k).mode = 0o600) (hI : ∀ f', Relabelled f.names f f' → I f')
    (hok : ∀ b' f' fileType now nowUtc, Spent allowed b b' → Relabelled f.names f f' →
      Observed m y fileType now nowUtc →
      validateRecord (newRecord id source hash opened safe fileType now nowUtc) = .ok () →
      Q b' (.ok (newRecord id source hash opened safe fileType now nowUtc)) f')
    (hraise : ∀ b' e f', b = .once ∨ (∃ fileType now nowUtc, Observed m y fileType now nowUtc ∧
      validateRecord (newRecord id source hash opened safe fileType now nowUtc) ≠ .ok ()) →
      Relabelled f.names f f' → Q b' (.error e) f') :
    wp (machine id allowed) I (describePayload m y source id hash opened safe) b Q f := by
  refine wp_bind (wp_chmod hy hmode (hI f (.refl f)) ?_
    (fun hb e => hraise _ _ f (.inl hb) (.refl f)))
  intro f₁ h₁
  have hI₁ : I f₁ := hI f₁ h₁
  refine ⟨hI₁, wp_bind (wp_fsyncDirectory hI₁ ?_
    (fun hb e _ _ _ => hraise _ _ f₁ (.inl hb) h₁))⟩
  intro b₁ hb₁
  refine wp_bind (wp_ask (c := .time) hI₁ ?_ (fun _ _ h => h.elim))
  rintro r f₂ ⟨rfl, now, hnow, rfl⟩
  refine ⟨hI₁, wp_bind (wp_detectFileType hI₁ ?_
    (fun hb e => hraise _ e _ (.inl (hb₁.once hb)) h₁))⟩
  intro b₂ fileType hb₂ htype
  refine wp_bind (wp_ask (c := .utcIso now) hI₁ ?_
    (fun e hb _ _ => hraise _ e _ (.inl (hb₁.once (hb₂.once hb))) h₁))
  rintro r f₃ ⟨rfl, nowUtc, hutc, rfl⟩
  have hseen : Observed m y fileType now nowUtc := ⟨htype, hnow, hutc⟩
  refine ⟨hI₁, wp_bind (wp_lift hI₁ ?_)⟩
  cases hvalid : validateRecord (newRecord id source hash opened safe fileType now nowUtc) with
  | error e =>
      exact hraise _ e _ (.inr ⟨fileType, now, nowUtc, hseen, by simp [hvalid]⟩) h₁
  | ok _ => exact ⟨hI₁, hok b₂ _ fileType now nowUtc (hb₁.trans hb₂) h₁ hseen hvalid⟩

/-! ## States of the `try` block -/

theorem described_of_none (h : f.names (m.metadataPath id) = none) : Described F m id f := by
  intro j hj
  rw [h] at hj
  exact absurd hj (by simp)

/-- While nothing has changed, the local variables may be set or not. -/
theorem covered_unchanged {ℓ : Locals} (hs : Scene m source i id f₀) (hwf : f₀.WF)
    (hℓ : ℓ.Of m source id) (h : Unchanged f₀ f) : Covered F m source i id f₀ ℓ f where
  locals := hℓ
  wf := h.wf hwf
  keeps := h.keeps
  others q _ _ _ _ _ := by rw [h.names]
  held := .inl ⟨by rw [h.names, hs.named], by rw [h.names, hs.free (.inl rfl)]⟩
  described := described_of_none (by rw [h.names, hs.free (.inr (.inr (.inl rfl)))])
  files q j hq hj := by
    rw [h.names, (hℓ.ne hs hq).2.2] at hj
    exact absurd hj (by simp)

/-- With the source held, the local variables cover what differs otherwise. -/
theorem covered_moved {ℓ : Locals} (hs : Scene m source i id f₀)
    (hk : (f₀.nodes i).kind ≠ .directory) (hℓ : ℓ.Of m source id)
    (hh : ℓ.holding = some (holdingPath source id)) (hwf : f.WF) (hkeeps : f₀.Keeps f)
    (hnames : ∀ q, f.names q = movedNames f₀.names source (holdingPath source id) i q ∨
      (ℓ.temporary = some q ∨ ℓ.payload = some q ∨ ℓ.metadata = some q) ∧
        ∀ j, f.names q = some j → (f.nodes j).kind ≠ .directory)
    (hdescribed : Described F m id f) : Covered F m source i id f₀ ℓ f := by
  have hne : holdingPath source id ≠ source := hs.ne_source (.inl rfl)
  have hsrc : f.names source = none := by
    rcases hnames source with h | ⟨h, -⟩
    · rw [h, movedNames, Function.update_of_ne hne.symm, Function.update_self]
    · exact absurd rfl (hℓ.ne hs h).1
  have hhold : f.names (holdingPath source id) = some i := by
    rcases hnames (holdingPath source id) with h | ⟨h, -⟩
    · rw [h, movedNames, Function.update_self]
    · exact absurd rfl (hℓ.ne hs h).2.1
  refine ⟨hℓ, hwf, hkeeps, ?_, .inr ⟨hh, hsrc, hhold, hk⟩, hdescribed, ?_⟩
  · intro q hq hq' ht hp hm
    have hqh : q ≠ holdingPath source id := by
      rintro rfl
      exact hq' hh
    rcases hnames q with h | ⟨h, -⟩
    · rw [h, movedNames, Function.update_of_ne hqh, Function.update_of_ne hq]
    · rcases h with h | h | h
      · exact absurd h ht
      · exact absurd h hp
      · exact absurd h hm
  · intro q j hq hj
    rcases hnames q with h | ⟨-, h⟩
    · obtain ⟨hq₁, hq₂, hfree⟩ := hℓ.ne hs hq
      rw [h, movedNames, Function.update_of_ne hq₂, Function.update_of_ne hq₁, hfree] at hj
      exact absurd hj (by simp)
    · exact h j hj

/-- The source is held and the payload is in place. -/
structure HeldCopy (m : Manager) (source : Path) (i : Nat) (id : PyStr) (f₀ : Files Path) (k : Nat)
    (f : Files Path) : Prop where
  names : f.names = Function.update (movedNames f₀.names source (holdingPath source id) i)
    (m.payloadPath id) (some k)
  wf : f.WF
  keeps : f₀.Keeps f
  kind : (f.nodes k).kind = .regular
  bytes : (f.nodes k).bytes = (f₀.nodes i).bytes

section HeldCopy

variable {k : Nat}

theorem HeldCopy.inUse (h : HeldCopy m source i id f₀ k f) : k < f.used :=
  h.wf (m.payloadPath id) k (by rw [h.names, Function.update_self])

theorem HeldCopy.relabelled {f' : Files Path} (h : HeldCopy m source i id f₀ k f)
    (hr : Relabelled f.names f f') : HeldCopy m source i id f₀ k f' := by
  have hnode := hr.keeps.nodes k h.inUse
  exact ⟨hr.names.trans h.names, hr.wf h.wf, h.keeps.trans hr.keeps, hnode.kind.trans h.kind,
    hnode.bytes.trans h.bytes⟩

theorem HeldCopy.unchanged {f' : Files Path} (h : HeldCopy m source i id f₀ k f)
    (hu : Unchanged f f') : HeldCopy m source i id f₀ k f' := by
  have hnode := hu.keeps.nodes k h.inUse
  exact ⟨hu.names.trans h.names, hu.wf h.wf, h.keeps.trans hu.keeps, hnode.kind.trans h.kind,
    hnode.bytes.trans h.bytes⟩

theorem HeldCopy.metadata_free (h : HeldCopy m source i id f₀ k f) (hs : Scene m source i id f₀) :
    f.names (m.metadataPath id) = none := by
  rw [h.names, Function.update_of_ne hs.payload_ne_metadata.symm, movedNames,
    Function.update_of_ne hs.metadata_ne.2, Function.update_of_ne hs.metadata_ne.1]
  exact hs.free (.inr (.inr (.inl rfl)))

theorem HeldCopy.covered {ℓ : Locals} (h : HeldCopy m source i id f₀ k f)
    (hs : Scene m source i id f₀) (hk : (f₀.nodes i).kind ≠ .directory) (hℓ : ℓ.Of m source id)
    (hh : ℓ.holding = some (holdingPath source id)) (hp : ℓ.payload = some (m.payloadPath id)) :
    Covered F m source i id f₀ ℓ f := by
  refine covered_moved hs hk hℓ hh h.wf h.keeps ?_ (described_of_none (h.metadata_free hs))
  intro q
  by_cases hq : q = m.payloadPath id
  · subst hq
    refine .inr ⟨.inr (.inl hp), ?_⟩
    intro j hj
    rw [h.names, Function.update_self] at hj
    cases hj
    rw [h.kind]
    simp
  · rw [h.names, Function.update_of_ne hq]
    exact .inl rfl

end HeldCopy

/-! ## The record -/

/-- The record describes the bytes it was made for. -/
structure Describes (r : QuarantineRecord F) (original : Bytes) : Prop where
  status : r.restorationStatus = .str (py "quarantined")
  hash : r.sha256 = .str (sha256 original)
  size : r.sizeBytes = .int original.length

theorem described_stored {r : QuarantineRecord F} {data original : Bytes} {j k : Nat}
    (hj : f.names (m.metadataPath id) = some j) (hdata : (f.nodes j).bytes = data)
    (hstored : Stored id r data) (hr : Describes r original)
    (hk : f.names (m.payloadPath id) = some k) (hbytes : (f.nodes k).bytes = original) :
    Described F m id f := by
  intro j' hj'
  rw [hj] at hj'
  cases hj'
  refine ⟨r.canon, ?_, ?_, k, hk, ?_, ?_⟩
  · rw [hdata]
    exact hstored.decode m.str
  · show r.restorationStatus.sortKeys = _
    rw [hr.status]
    rfl
  · show r.sha256.sortKeys = _
    rw [hr.hash, hbytes]
    rfl
  · show r.sizeBytes.sortKeys = _
    rw [hr.size, hbytes]
    rfl

/-- The values of the arguments are Python values. -/
structure SafeArgs.WF (safe : SafeArgs F) : Prop where
  relatedPid : safe.relatedPid.WF
  triggeredRules : safe.triggeredRules.WF
  processInfo : safe.processInfo.WF

omit [FloatNum F] in
theorem newRecord_wf {safe : SafeArgs F} (h : safe.WF) (hash : PyStr) (opened : Stat)
    (fileType : PyStr) (now : F) (nowUtc : PyStr) :
    (newRecord id source hash opened safe fileType now nowUtc).WF := by
  rw [QuarantineRecord.wf_iff]
  intro kv hkv
  simp only [newRecord, QuarantineRecord.toDict, List.mem_cons, List.not_mem_nil, or_false] at hkv
  rcases hkv with rfl | rfl | rfl | rfl | rfl | rfl | rfl | rfl | rfl | rfl | rfl | rfl | rfl |
    rfl | rfl | rfl | rfl | rfl | rfl | rfl | rfl | rfl | rfl | rfl | rfl | rfl
  all_goals first
    | exact h.relatedPid
    | exact h.triggeredRules
    | exact h.processInfo
    | trivial

omit [FloatNum F] in
theorem newRecord_describes {safe : SafeArgs F} (original : Bytes) {opened : Stat}
    (hsize : opened.size = original.length) (fileType : PyStr) (now : F) (nowUtc : PyStr) :
    Describes (newRecord id source (sha256 original) opened safe fileType now nowUtc)
      original :=
  ⟨rfl, rfl, by simp [newRecord, hsize]⟩

theorem newRecord_stored {safe : SafeArgs F} (huuid : isUuid id = true) (h : safe.WF)
    {hash : PyStr} {opened : Stat} {fileType : PyStr} {now : F} {nowUtc : PyStr} {data : Bytes}
    (henc : Encodes (newRecord id source hash opened safe fileType now nowUtc) data) :
    Stored id (newRecord id source hash opened safe fileType now nowUtc) data where
  wf := newRecord_wf h hash opened fileType now nowUtc
  valid := henc.1
  uuid := huuid
  id_eq := rfl
  encoded := henc.2

/-! ## The end of the `try` block -/

/-- The file is in quarantine under `id`. -/
structure Quarantined (m : Manager) (source : Path) (i : Nat) (id : PyStr) (f₀ : Files Path)
    (r : QuarantineRecord F) (f : Files Path) : Prop where
  gone : f.names source = none
  payload : ∃ k, f.names (m.payloadPath id) = some k ∧ (f.nodes k).bytes = (f₀.nodes i).bytes ∧
    (f.nodes k).kind = .regular
  metadata : ∃ j data, f.names (m.metadataPath id) = some j ∧ (f.nodes j).bytes = data ∧
    Stored id r data ∧ (f.nodes j).kind = .regular
  record : Describes r (f₀.nodes i).bytes
  mode : r.originalMode = .int (f₀.nodes i).mode
  others : ∀ q, q ≠ source → q ≠ m.payloadPath id → q ≠ m.metadataPath id →
    f.names q = f₀.names q
  keeps : f₀.Keeps f
  wf : f.WF

/-- The metadata file has been written over a held copy. -/
theorem HeldCopy.recorded {k : Nat} {data : Bytes} {r : QuarantineRecord F} {f' : Files Path}
    (h : HeldCopy m source i id f₀ k f) (hs : Scene m source i id f₀) (hstored : Stored id r data)
    (hr : Describes r (f₀.nodes i).bytes)
    (h' : Replaced (m.metadataPath id) data f f') : Described F m id f' := by
  have hnode := h'.keeps.nodes k h.inUse
  refine described_stored (j := f.used) (k := k) ?_ h'.bytes hstored hr ?_
    (hnode.bytes.trans h.bytes)
  · rw [h'.names, Function.update_self]
  · rw [h'.names, Function.update_of_ne hs.payload_ne_metadata, h.names, Function.update_self]

theorem HeldCopy.recorded_covered {k : Nat} {data : Bytes} {r : QuarantineRecord F}
    {f' : Files Path} {ℓ : Locals} (h : HeldCopy m source i id f₀ k f)
    (hs : Scene m source i id f₀) (hk : (f₀.nodes i).kind ≠ .directory)
    (hstored : Stored id r data) (hr : Describes r (f₀.nodes i).bytes)
    (h' : Replaced (m.metadataPath id) data f f') (hℓ : ℓ.Of m source id)
    (hh : ℓ.holding = some (holdingPath source id)) (hp : ℓ.payload = some (m.payloadPath id))
    (hm : ℓ.metadata = some (m.metadataPath id)) : Covered F m source i id f₀ ℓ f' := by
  refine covered_moved hs hk hℓ hh (h'.wf h.wf) (h.keeps.trans h'.keeps) ?_
    (h.recorded hs hstored hr h')
  intro q
  by_cases hq : q = m.metadataPath id
  · subst hq
    refine .inr ⟨.inr (.inr hm), ?_⟩
    intro j hj
    rw [h'.names, Function.update_self] at hj
    cases hj
    rw [h'.kind]
    simp
  · by_cases hq' : q = m.payloadPath id
    · subst hq'
      refine .inr ⟨.inr (.inl hp), ?_⟩
      intro j hj
      rw [h'.names, Function.update_of_ne hq, h.names, Function.update_self] at hj
      cases hj
      rw [(h'.keeps.nodes k h.inUse).kind, h.kind]
      simp
    · rw [h'.names, Function.update_of_ne hq, h.names, Function.update_of_ne hq']
      exact .inl rfl

/-- The held file is gone. -/
theorem HeldCopy.quarantined {k : Nat} {data : Bytes} {r : QuarantineRecord F}
    {f' f'' : Files Path} (h : HeldCopy m source i id f₀ k f) (hs : Scene m source i id f₀)
    (hstored : Stored id r data) (hr : Describes r (f₀.nodes i).bytes)
    (hmode : r.originalMode = .int (f₀.nodes i).mode)
    (h' : Replaced (m.metadataPath id) data f f')
    (h'' : Relabelled (Function.update f'.names (holdingPath source id) none) f' f'') :
    Quarantined m source i id f₀ r f'' := by
  have hne : holdingPath source id ≠ source := hs.ne_source (.inl rfl)
  have hmeta := hs.metadata_ne
  have hpay := hs.payload_ne
  have hk := (h'.keeps.trans h''.keeps).nodes k h.inUse
  have hj := h''.keeps.nodes f.used (by rw [h'.used]; exact Nat.lt_succ_self _)
  have hname : ∀ q, q ≠ holdingPath source id → q ≠ m.metadataPath id → q ≠ m.payloadPath id →
      f''.names q = movedNames f₀.names source (holdingPath source id) i q := by
    intro q h₁ h₂ h₃
    rw [h''.names, Function.update_of_ne h₁, h'.names, Function.update_of_ne h₂, h.names,
      Function.update_of_ne h₃]
  refine ⟨?_, ⟨k, ?_, hk.bytes.trans h.bytes, hk.kind.trans h.kind⟩,
    ⟨f.used, data, ?_, hj.bytes.trans h'.bytes, hstored, hj.kind.trans h'.kind⟩, hr, hmode, ?_,
    (h.keeps.trans h'.keeps).trans h''.keeps, ?_⟩
  · rw [hname source hne.symm hmeta.1.symm hpay.1.symm, movedNames,
      Function.update_of_ne hne.symm, Function.update_self]
  · rw [h''.names, Function.update_of_ne hpay.2, h'.names,
      Function.update_of_ne hs.payload_ne_metadata, h.names, Function.update_self]
  · rw [h''.names, Function.update_of_ne hmeta.2, h'.names, Function.update_self]
  · intro q h₁ h₂ h₃
    by_cases hq : q = holdingPath source id
    · rw [hq, h''.names, Function.update_self, hs.free (.inl rfl)]
    · rw [hname q hq h₃ h₂, movedNames, Function.update_of_ne hq, Function.update_of_ne h₁]
  · exact h''.wf (update_wf (h'.wf h.wf) (by simp))

/-! ## The `try` block -/

/-- The checks on the opened source and on its record that make the call refuse. -/
def Refused (m : Manager) (args : QuarantineArgs F) (safe : SafeArgs F) (source : Path) (i : Nat)
    (id : PyStr) (f₀ : Files Path) : Prop :=
  (f₀.nodes i).kind ≠ .regular ∨ checkExpected args (f₀.stat i) ≠ .ok () ∨
  checkSourceHash args (sha256 (f₀.nodes i).bytes) ≠ .ok () ∨
  ∃ fileType now nowUtc, Observed m (m.payloadPath id) fileType now nowUtc ∧ ∀ data,
    ¬ Encodes (newRecord id source (sha256 (f₀.nodes i).bytes) (f₀.stat i) safe fileType now nowUtc)
      data

/-- How the `try` block ends. -/
def BodyPost (m : Manager) (args : QuarantineArgs F) (safe : SafeArgs F) (source : Path) (i : Nat)
    (id : PyStr) (f₀ : Files Path) (allowed : Call F → Exc → Prop) (b : Faults) :
    Faults → Except (Exc × Locals) (QuarantineRecord F) → Files Path → Prop
  | b', .ok r, f => Spent allowed b b' ∧ Quarantined m source i id f₀ r f
  | _, .error (_, ℓ), f => Covered F m source i id f₀ ℓ f ∧
      (b = .once ∨ Refused m args safe source i id f₀)

section Body

variable {args : QuarantineArgs F} {safe : SafeArgs F}

/-- The record is written and the held file removed. -/
theorem wp_commit {k : Nat} {r : QuarantineRecord F} {b₀ : Faults} (hs : Scene m source i id f₀)
    (hk : (f₀.nodes i).kind = .regular) (h : HeldCopy m source i id f₀ k f)
    (hspent : Spent allowed b₀ b) (hstored : ∀ data, Encodes r data → Stored id r data)
    (hid : r.quarantineId = .str id) (hr : Describes r (f₀.nodes i).bytes)
    (hmode : r.originalMode = .int (f₀.nodes i).mode)
    (hrefused : (∀ data, ¬ Encodes r data) → Refused m args safe source i id f₀)
    {ℓ ℓ' : Locals} (hℓ : ℓ.Of m source id) (hh : ℓ.holding = some (holdingPath source id))
    (hp : ℓ.payload = some (m.payloadPath id)) (hm : ℓ.metadata = some (m.metadataPath id)) :
    wp (machine id allowed) (Recoverable F m source id (f₀.nodes i).bytes) (do
      tracking ℓ (do
        writeMetadataAtomic m r
        let _ ← sys (.unlink (holdingPath source id))
        return ())
      tracking ℓ' (fsyncSourceDirectory source)
      return r) b (BodyPost m args safe source i id f₀ allowed b₀) f := by
  have hkd : (f₀.nodes i).kind ≠ .directory := by simp [hk]
  have hheld : ∀ {f'}, HeldCopy m source i id f₀ k f' → Covered F m source i id f₀ ℓ f' :=
    fun h' => h'.covered hs hkd hℓ hh hp
  have hrec : ∀ data f', Encodes r data → Replaced (m.metadataPath id) data f f' →
      Covered F m source i id f₀ ℓ f' := fun data f' henc h' =>
    h.recorded_covered hs hkd (hstored data henc) hr h' hℓ hh hp hm
  have hholding : f.names (holdingPath source id) = some i := by
    rw [h.names, Function.update_of_ne hs.payload_ne.2.symm, movedNames, Function.update_self]
  refine wp_bind (wp_tracking (wp_bind (wp_writeMetadataAtomic hid hs.fresh.uuid ?_ ?_ ?_ ?_ ?_ ?_)))
  · intro j hj
    rw [h.metadata_free hs] at hj
    exact absurd hj (by simp)
  · -- a temporary file makes no difference to what is recoverable
    intro token f' hfresh h'
    have hname : ∀ q, q.name.length ≠ 74 → f'.names q = f.names q := by
      intro q hq
      refine (congrFun h'.names q).trans (Function.update_of_ne (Path.ne_of_length ?_) _ _)
      simp only [Manager.metadataTemporary, temporaryName_length, hs.length, hfresh.1]
      exact hq
    refine ⟨⟨holdingPath source id, by simp, i, ?_, ?_⟩, described_of_none ?_⟩
    · rw [hname _ (by simp [holdingPath, holdingName_length, hs.length]), hholding]
    · exact ((h.keeps.trans h'.old.keeps).nodes i hs.inUse).bytes
    · rw [hname _ (by simp [Manager.metadataPath, metadataName_length, hs.length]),
        h.metadata_free hs]
  · intro f' h'
    exact (hheld (h.unchanged h')).recoverable hs
  · intro data f' henc h'
    exact (hrec data f' henc h').recoverable hs
  · intro b₁ data f₁ hb₁ henc h₁
    have hI₁ := (hrec data f₁ henc h₁).recoverable hs
    have hhold₁ : f₁.names (holdingPath source id) = some i := by
      rw [h₁.names, Function.update_of_ne hs.metadata_ne.2.symm, hholding]
    refine wp_bind (wp_unlink (i := i) hhold₁ ?_ hI₁ ?_ ?_)
    · rw [((h.keeps.trans h₁.keeps).nodes i hs.inUse).kind, hk]
      simp
    · intro f₂ h₂
      have hq := h.quarantined hs (hstored data henc) hr hmode h₁ h₂
      obtain ⟨k₂, hk₂, hbytes₂, -⟩ := hq.payload
      obtain ⟨j₂, data₂, hj₂, hdata₂, hstored₂, -⟩ := hq.metadata
      have hI₂ : Recoverable F m source id (f₀.nodes i).bytes f₂ :=
        ⟨⟨_, by simp, k₂, hk₂, hbytes₂⟩,
          described_stored hj₂ hdata₂ hstored₂ hr hk₂ hbytes₂⟩
      have hdone : ∀ b', Spent allowed b₁ b' → Spent allowed b₀ b' := fun b' hb' =>
        (hspent.trans hb₁).trans hb'
      refine ⟨hI₂, hI₂, wp_bind (wp_tracking (wp_orElse (wp_fsyncDirectory hI₂ ?_ ?_)))⟩
      · intro b' hb'
        exact ⟨hI₂, hdone b' hb', hq⟩
      · intro hb e hallowed _ _
        exact ⟨hI₂, hI₂, hdone _ (.tolerated hb hallowed (.inr (.inr ⟨source, rfl⟩))), hq⟩
    · intro hb e
      exact ⟨hI₁, hrec data f₁ henc h₁, .inl (hspent.once (hb₁.once hb))⟩
  · rintro b' e f' hwhy (h' | ⟨data, henc, h'⟩)
    · have hcov := hheld (h.unchanged h')
      exact ⟨hcov.recoverable hs, hcov, hwhy.imp hspent.once hrefused⟩
    · have hcov := hrec data f' henc h'
      exact ⟨hcov.recoverable hs, hcov, hwhy.imp hspent.once hrefused⟩

/-- While the source moves to its holding name, it has one of its two names. -/
theorem moving_recoverable {f' : Files Path} (hs : Scene m source i id f₀)
    (hmove : Moving source (holdingPath source id) i f₀ f') :
    Recoverable F m source id (f₀.nodes i).bytes f' := by
  have hmeta := hs.metadata_ne
  have hfree := hs.free (q := m.metadataPath id) (.inr (.inr (.inl rfl)))
  rcases hmove with hr | hr | hr
  · refine ⟨⟨source, by simp, i, ?_, (hr.keeps.nodes i hs.inUse).bytes⟩, described_of_none ?_⟩
    · rw [hr.names, hs.named]
    · rw [hr.names, hfree]
  · refine ⟨⟨holdingPath source id, by simp, i, ?_, (hr.keeps.nodes i hs.inUse).bytes⟩,
      described_of_none ?_⟩
    · rw [hr.names, Function.update_self]
    · rw [hr.names, Function.update_of_ne hmeta.2, hfree]
  · refine ⟨⟨holdingPath source id, by simp, i, ?_, (hr.keeps.nodes i hs.inUse).bytes⟩,
      described_of_none ?_⟩
    · rw [hr.names, movedNames, Function.update_self]
    · rw [hr.names, movedNames, Function.update_of_ne hmeta.2, Function.update_of_ne hmeta.1, hfree]

/-- The source has its holding name only, and nothing else has changed. -/
theorem held_wf {f' : Files Path} (hs : Scene m source i id f₀) (hwf : f₀.WF)
    (h : Relabelled (movedNames f₀.names source (holdingPath source id) i) f₀ f') : f'.WF := by
  refine h.wf (update_wf (update_wf hwf (by simp)) ?_)
  rintro j hj
  cases hj
  exact hs.inUse

theorem held_covered {f' : Files Path} {ℓ : Locals} (hs : Scene m source i id f₀) (hwf : f₀.WF)
    (hk : (f₀.nodes i).kind ≠ .directory) (hℓ : ℓ.Of m source id)
    (hh : ℓ.holding = some (holdingPath source id))
    (h : Relabelled (movedNames f₀.names source (holdingPath source id) i) f₀ f') :
    Covered F m source i id f₀ ℓ f' := by
  refine covered_moved hs hk hℓ hh (held_wf hs hwf h) h.keeps (fun q => .inl (congrFun h.names q))
    (described_of_none ?_)
  rw [h.names, movedNames, Function.update_of_ne hs.metadata_ne.2,
    Function.update_of_ne hs.metadata_ne.1]
  exact hs.free (.inr (.inr (.inl rfl)))

/-- The temporary name of a payload is none of the others. -/
theorem payloadTemporary_ne {token : PyStr} (hs : Scene m source i id f₀) (htoken : token.length = 32) :
    m.payloadTemporary id token ≠ holdingPath source id ∧
      m.payloadPath id ≠ m.payloadTemporary id token ∧
      m.metadataPath id ≠ m.payloadTemporary id token := by
  have hlen := hs.length
  refine ⟨Path.ne_of_length ?_, Path.ne_of_length ?_, Path.ne_of_length ?_⟩
  · simp only [Manager.payloadTemporary, holdingPath, holdingName_length, temporaryName_length]
    omega
  · simp only [Manager.payloadTemporary, Manager.payloadPath, temporaryName_length]
    omega
  · simp only [Manager.payloadTemporary, Manager.metadataPath, temporaryName_length,
      metadataName_length]
    omega

/-- With the source held, no other name uses the identifier. -/
theorem held_free {f₁ : Files Path} (hs : Scene m source i id f₀)
    (h₁ : Relabelled (movedNames f₀.names source (holdingPath source id) i) f₀ f₁) {q : Path}
    (huses : UsesId id q.name) (hq : q ≠ holdingPath source id) : f₁.names q = none := by
  rw [h₁.names, movedNames, Function.update_of_ne hq, Function.update_of_ne (hs.ne_source huses),
    hs.free huses]

/-- The held source is copied. -/
theorem wp_copyHeld {f₁ : Files Path} {token : PyStr}
    {Q : Faults → Except Exc Unit → Files Path → Prop} (hs : Scene m source i id f₀) (hwf : f₀.WF)
    (h₁ : Relabelled (movedNames f₀.names source (holdingPath source id) i) f₀ f₁)
    (hfresh : FreshToken f₁ token)
    (hI : ∀ f', f₁.Keeps f' → (∀ q, q ≠ m.payloadTemporary id token → q ≠ m.payloadPath id →
      f'.names q = f₁.names q) → I f')
    (hok : ∀ b' f', Spent allowed b b' → HeldCopy m source i id f₀ f₁.used f' →
      (f'.nodes f₁.used).mode = 0o600 → Q b' (.ok ()) f')
    (hraise : b = .once → ∀ b' e f', f' = f₁ ∨ Placed (m.payloadTemporary id token) f₁ f' →
      Q b' (.error e) f') :
    wp (machine id allowed) I (do
      copySource i (m.payloadTemporary id token) (sha256 (f₀.nodes i).bytes) (f₀.stat i) (f₁.stat i)
      moveNoreplace (m.payloadTemporary id token) (m.payloadPath id)) b Q f₁ := by
  obtain ⟨htemp_ne, hpay_ne, -⟩ := payloadTemporary_ne (m := m) hs hfresh.1
  have hbytes₁ := (h₁.keeps.nodes i hs.inUse).bytes
  have ht₁ := held_free (q := m.payloadTemporary id token) hs h₁
    (.inr (.inr (.inr (.inr ⟨token, rfl⟩)))) htemp_ne
  have hy₁ := held_free (q := m.payloadPath id) hs h₁ (.inr (.inl rfl)) hs.payload_ne.2
  refine wp_copyPayload (i := i) ht₁ hy₁ hpay_ne (lt_of_lt_of_le hs.inUse h₁.keeps.used)
    (by rw [hbytes₁]) (by rw [hbytes₁]; rfl) rfl hI ?_ hraise
  intro b₂ f₂ hb₂ hplaced hbytes₂ hmode₂
  refine hok b₂ f₂ hb₂ ⟨?_, hplaced.wf (held_wf hs hwf h₁), h₁.keeps.trans hplaced.keeps,
    hplaced.kind, hbytes₂.trans hbytes₁⟩ hmode₂
  rw [hplaced.names, h₁.names]

/-- With the source held, the copy is made and recorded. -/
theorem wp_protectHeld {f₁ : Files Path} {b₀ : Faults} (hs : Scene m source i id f₀) (hwf : f₀.WF)
    (hsafe : safe.WF) (hk : (f₀.nodes i).kind = .regular) (hspent : Spent allowed b₀ b)
    (h₁ : Relabelled (movedNames f₀.names source (holdingPath source id) i) f₀ f₁) :
    wp (machine id allowed) (Recoverable F m source id (f₀.nodes i).bytes)
      (protectHeld m safe source id (sha256 (f₀.nodes i).bytes) i (f₀.stat i) (f₁.stat i)) b
      (BodyPost m args safe source i id f₀ allowed b₀) f₁ := by
  have hkd : (f₀.nodes i).kind ≠ .directory := by simp [hk]
  have hcov₁ : ∀ {ℓ : Locals}, ℓ.Of m source id → ℓ.holding = some (holdingPath source id) →
      Covered F m source i id f₀ ℓ f₁ := fun hℓ hh => held_covered hs hwf hkd hℓ hh h₁
  have hI₁ := (hcov₁ (ℓ := { holding := holdingPath source id })
    ⟨by simp, by simp, by simp, by simp⟩ rfl).recoverable hs
  refine wp_bind (wp_tracking (wp_token hI₁ ?_))
  intro token hfresh
  have htoken := hfresh.1
  obtain ⟨htemp_ne, -, hmeta_ne⟩ := payloadTemporary_ne (m := m) hs htoken
  have hd₁ := held_free (q := m.metadataPath id) hs h₁ (.inr (.inr (.inl rfl))) hs.metadata_ne.2
  have hh₁ : f₁.names (holdingPath source id) = some i := by
    rw [h₁.names, movedNames, Function.update_self]
  have htracked : Locals.Of m source id ⟨some (holdingPath source id),
      some (m.payloadTemporary id token), some (m.payloadPath id), none⟩ :=
    ⟨by simp, by simpa using ⟨token, htoken, rfl⟩, by simp, by simp⟩
  refine wp_bind (wp_tracking (wp_copyHeld hs hwf h₁ hfresh ?_ ?_ ?_))
  · intro f' hkeeps hother
    refine ⟨⟨holdingPath source id, by simp, i, ?_, ?_⟩, described_of_none ?_⟩
    · rw [hother _ htemp_ne.symm hs.payload_ne.2.symm, hh₁]
    · exact ((h₁.keeps.trans hkeeps).nodes i hs.inUse).bytes
    · rw [hother _ hmeta_ne hs.payload_ne_metadata.symm, hd₁]
  · intro b₂ f₂ hb₂ hcopy hmode₂
    have hℓ : Locals.Of m source id
        { holding := holdingPath source id, payload := m.payloadPath id } :=
      ⟨by simp, by simp, by simp, by simp⟩
    refine wp_bind (wp_tracking (wp_describePayload (k := f₁.used) ?_ hmode₂ ?_ ?_ ?_))
    · rw [hcopy.names, Function.update_self]
    · intro f' hr
      exact ((hcopy.relabelled hr).covered hs hkd hℓ rfl rfl).recoverable hs
    · intro b₃ f₃ fileType now nowUtc hb₃ hr hseen hvalid
      refine wp_commit hs hk (hcopy.relabelled hr) ((hspent.trans hb₂).trans hb₃)
        (fun data henc => newRecord_stored hs.fresh.uuid hsafe henc) rfl
        (newRecord_describes _ rfl fileType now nowUtc) rfl
        (fun hnone => .inr (.inr (.inr ⟨fileType, now, nowUtc, hseen, hnone⟩)))
        ⟨by simp, by simp, by simp, by simp⟩ rfl rfl rfl
    · rintro b' e f' hwhy hr
      have hcov := (hcopy.relabelled hr).covered (F := F) hs hkd hℓ rfl rfl
      refine ⟨hcov.recoverable hs, hcov, ?_⟩
      rcases hwhy with hb | ⟨fileType, now, nowUtc, hseen, hinvalid⟩
      · exact .inl (hspent.once (hb₂.once hb))
      · exact .inr (.inr (.inr (.inr ⟨fileType, now, nowUtc, hseen, fun data henc =>
          hinvalid henc.1⟩)))
  · rintro hb b' e f' (rfl | hplaced)
    · have hcov := hcov₁ htracked rfl
      exact ⟨hcov.recoverable hs, hcov, .inl (hspent.once hb)⟩
    · have hcov : Covered F m source i id f₀ ⟨some (holdingPath source id),
          some (m.payloadTemporary id token), some (m.payloadPath id), none⟩ f' := by
        refine covered_moved hs hkd htracked rfl (hplaced.wf (held_wf hs hwf h₁)) (h₁.keeps.trans hplaced.keeps) ?_
          (described_of_none ?_)
        · intro q
          by_cases hq : q = m.payloadTemporary id token
          · subst hq
            refine .inr ⟨.inl rfl, ?_⟩
            intro j hj
            rw [hplaced.names, Function.update_self] at hj
            cases hj
            rw [hplaced.kind]
            simp
          · rw [hplaced.names, Function.update_of_ne hq, h₁.names]
            exact .inl rfl
        · rw [hplaced.names, Function.update_of_ne hmeta_ne, hd₁]
      exact ⟨hcov.recoverable hs, hcov, .inl (hspent.once hb)⟩

/-- **The `try` block.** It ends with the file in quarantine, or raises in a state its local variables
    cover. -/
theorem wp_quarantineBody (hs : Scene m source i id f₀) (hwf : f₀.WF) (hsafe : safe.WF) :
    wp (machine id allowed) (Recoverable F m source id (f₀.nodes i).bytes)
      (quarantineBody m args safe source) b (BodyPost m args safe source i id f₀ allowed b) f₀ := by
  have hcov₀ : ∀ {ℓ : Locals} {f'}, ℓ.Of m source id → Unchanged f₀ f' →
      Covered F m source i id f₀ ℓ f' := fun hℓ h => covered_unchanged hs hwf hℓ h
  have hnone : ({} : Locals).Of m source id := ⟨by simp, by simp, by simp, by simp⟩
  have hheld : Locals.Of m source id { holding := holdingPath source id } :=
    ⟨by simp, by simp, by simp, by simp⟩
  have hI₀ := (hcov₀ hnone (.refl f₀)).recoverable hs
  refine wp_bind (wp_tracking (wp_openSource hs hI₀ ?_ ?_))
  · intro hk hexp hhash
    have hkd : (f₀.nodes i).kind ≠ .directory := by simp [hk]
    refine wp_bind (wp_tracking (wp_uuid4 hI₀ ?_))
    refine wp_bind (wp_tracking (wp_holdSource hs hk ?_ ?_ ?_))
    · intro f' hmove
      exact moving_recoverable hs hmove
    · intro b₁ f₁ hb₁ h₁
      exact wp_protectHeld hs hwf hsafe hk hb₁ h₁
    · rintro hb b' e f' (h | h)
      · have hcov := hcov₀ hheld ⟨h.names, h.keeps⟩
        exact ⟨hcov.recoverable hs, hcov, .inl hb⟩
      · have hcov := held_covered (F := F) hs hwf hkd hheld rfl h
        exact ⟨hcov.recoverable hs, hcov, .inl hb⟩
  · intro b' e hwhy
    exact ⟨hI₀, hcov₀ hnone (.refl f₀), hwhy.imp_right fun h => by
      rcases h with h | h | h
      · exact .inl h
      · exact .inr (.inl h)
      · exact .inr (.inr (.inl h))⟩

end Body

/-! ## The whole call -/

section Call

variable {args : QuarantineArgs F}

/-- Finding the source changes nothing. -/
theorem wp_canonicalSourcePath {path : PyStr}
    {Q : Faults → Except Exc Path → Files Path → Prop}
    (hloc : m.locate (m.absolute path) = some source) (hp : f.names source = some i) (hI : I f)
    (hok : (f.nodes i).kind ≠ .symlink → Q b (.ok source) f)
    (hraise : ∀ b' e, b = .once ∨ (f.nodes i).kind = .symlink → Q b' (.error e) f) :
    wp (machine id allowed) I (canonicalSourcePath m path) b Q f := by
  unfold canonicalSourcePath
  simp only [hloc]
  refine wp_bind (wp_lexists hI ?_ ?_)
  · rw [hp]
    refine wp_bind (wp_check hI (fun _ => ?_) (fun h => absurd rfl h))
    refine wp_bind (wp_lstat hp hI ?_ (fun hb e => hraise _ _ (.inl hb)))
    refine wp_bind (wp_check hI ?_ (fun h => hraise _ _ (.inr (not_not.1 h))))
    intro hk
    refine wp_bind (wp_orElse (wp_ask (c := .resolve source.dir) hI ?_ ?_))
    · rintro r f' ⟨rfl, rfl⟩
      refine ⟨hI, wp_bind (wp_lexists hI ?_ ?_)⟩
      · rw [hp]
        refine wp_bind (wp_check hI (fun _ => ?_) (fun h => absurd rfl h))
        exact ⟨hI, hok hk⟩
      · intro hb e _
        exact wp_bind (wp_check hI (fun h => absurd h (by simp))
          (fun _ => hraise _ _ (.inl hb)))
    · intro e hb _ _
      exact ⟨hI, hraise _ _ (.inl hb)⟩
  · intro hb e _
    exact wp_bind (wp_check hI (fun h => absurd h (by simp)) (fun _ => hraise _ _ (.inl hb)))

omit [FloatNum F] in
theorem validatePid_wf {v w : Json F} (h : validatePid v = .ok w) : w.WF := by
  unfold validatePid at h
  split at h
  · cases h
    trivial
  · split at h
    · cases h
      trivial
    · exact absurd h (by simp)
  · exact absurd h (by simp)

theorem validateRules_wf {v w : Json F} (hv : v.WF) (h : validateRules v = .ok w) : w.WF := by
  unfold validateRules at h
  split at h
  · obtain ⟨_, -, h⟩ := except_bind_ok h
    cases h
    exact hv
  · exact absurd h (by simp [throw, throwThe, MonadExceptOf.throw])

theorem validateProcess_wf {v w : Json F} (hv : v.WF) (h : validateProcess v = .ok w) : w.WF := by
  unfold validateProcess at h
  split at h
  · cases h
    exact ⟨List.nodup_nil, trivial⟩
  · obtain ⟨_, -, h⟩ := except_bind_ok h
    cases h
    exact hv
  · exact absurd h (by simp [throw, throwThe, MonadExceptOf.throw])

theorem validateArgs_wf {safe : SafeArgs F} (h : validateArgs args = .ok safe) : safe.WF := by
  obtain ⟨_, -, h⟩ := except_bind_ok h
  obtain ⟨_, -, h⟩ := except_bind_ok h
  obtain ⟨rules, hrules, h⟩ := except_bind_ok h
  obtain ⟨process, hprocess, h⟩ := except_bind_ok h
  obtain ⟨pid, hpid, h⟩ := except_bind_ok h
  cases h
  exact ⟨validatePid_wf hpid, validateRules_wf args.rules_wf hrules,
    validateProcess_wf args.process_wf hprocess⟩

/-- The reasons a call refuses without any step failing. -/
def CallRefused (m : Manager) (args : QuarantineArgs F) (source : Path) (i : Nat) (id : PyStr)
    (f₀ : Files Path) : Prop :=
  (f₀.nodes i).kind = .symlink ∨ ∀ safe, validateArgs args = .ok safe →
    Refused m args safe source i id f₀

/-- How a call ends. -/
def CallPost (m : Manager) (args : QuarantineArgs F) (source : Path) (i : Nat) (id : PyStr)
    (f₀ : Files Path) (allowed : Call F → Exc → Prop) (b : Faults) :
    Faults → Except Exc (QuarantineRecord F) → Files Path → Prop
  | b', .ok r, f => Spent allowed b b' ∧ Quarantined m source i id f₀ r f
  | _, .error _, f => Unchanged f₀ f ∧ (b = .once ∨ CallRefused m args source i id f₀)

theorem unchanged_covered (hs : Scene m source i id f₀) (hwf : f₀.WF) (h : Unchanged f₀ f) :
    Covered F m source i id f₀ {} f :=
  covered_unchanged hs hwf ⟨by simp, by simp, by simp, by simp⟩ h

/-- The handler raises again, with everything undone. -/
theorem wp_recover {ℓ : Locals} {e : Exc}
    {Q : Faults → Except Exc (QuarantineRecord F) → Files Path → Prop}
    (hs : Scene m source i id f₀) (hwf : f₀.WF) (h : Covered F m source i id f₀ ℓ f)
    (hraise : ∀ e f', Unchanged f₀ f' → Q .never (.error e) f') :
    wp (machine id allowed) (Recoverable F m source id (f₀.nodes i).bytes) (recover m source e ℓ) b
      Q f := by
  show wp _ _ _ .never Q f
  refine wp_bind (wp_rollbackQuarantine hs h (fun _ h => h) ?_)
  intro f' hback
  have hI' := (unchanged_covered (F := F) hs hwf hback).recoverable hs
  cases e with
  | error kind text => exact ⟨hI', hraise _ f' hback⟩
  | os n => exact ⟨hI', hraise _ f' hback⟩
  | unicode => exact ⟨hI', hraise _ f' hback⟩
  | jsonDecode => exact ⟨hI', hraise _ f' hback⟩
  | value => exact ⟨hI', hraise _ f' hback⟩
  | type => exact ⟨hI', hraise _ f' hback⟩

/-- **Quarantining is atomic and can be interrupted anywhere.** -/
theorem wp_quarantineFile (hs : Scene m source i id f₀) (hwf : f₀.WF)
    (hloc : m.locate (m.absolute args.path) = some source) :
    wp (machine id allowed) (Recoverable F m source id (f₀.nodes i).bytes) (quarantineFile m args)
      b (CallPost m args source i id f₀ allowed b) f₀ := by
  have hI₀ := (unchanged_covered (F := F) hs hwf (.refl f₀)).recoverable hs
  refine wp_bind (wp_canonicalSourcePath hloc hs.named hI₀ ?_ ?_)
  · intro _
    refine wp_bind (wp_lift hI₀ ?_)
    cases hsafe : validateArgs args with
    | error e => exact ⟨.refl f₀, .inr (.inr fun safe h => by simp [hsafe] at h)⟩
    | ok safe =>
        refine wp_orElse (wp_mono ?_ (wp_quarantineBody hs hwf (validateArgs_wf hsafe)))
        rintro b' (⟨e, ℓ⟩ | r) f' h
        · refine wp_recover (b := b') hs hwf h.1 ?_
          intro e' f'' hback
          refine ⟨hback, h.2.imp_right fun hr => .inr fun safe' h' => ?_⟩
          rw [hsafe] at h'
          cases h'
          exact hr
        · exact h
  · intro b' e hwhy
    exact ⟨.refl f₀, hwhy.imp_right .inl⟩

end Call

end Elyra.Quarantine
