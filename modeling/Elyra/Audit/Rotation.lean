import Elyra.Audit.Recovery

set_option autoImplicit false

/-! # What rotation keeps

The files of one log over any number of rotations. `Shelf` follows the code's own effects and keeps
count of what they should amount to: which segments were made, oldest first, and how many of them
retention has unlinked. Nothing is lost as long as the listed segments are the made ones without the
unlinked (`Listed`). The name of a segment has at least six digits and only six are recognised, so
this ends with number 1,000,000: the segment is not listed, and the next rotation gives the same name
again and overwrites it. Up to there it holds, for any `backup_count`, if no name in the directory
raises (`rotation_keeps_iff`). -/

namespace Elyra.Audit

open Elyra.Python

/-! ## The segments of a log -/

/-- What happens to the files of a log: the active file gets new contents (an append or a repair), it
    is rotated, or all segments are moved away (`_quarantine_corrupt_segments_locked`). -/
inductive FileOp where
  | write (data : Bytes) (corrupt : Dict PyStr Bytes)
  | rotate (c : Config)
  | moveAway (corrupt : Dict PyStr Bytes)

structure Shelf where
  dir : Dir
  /-- The rotated segments made so far, oldest first, each with its name. -/
  made : List (PyStr × Bytes)
  /-- How many segments retention has removed. -/
  unlinked : Nat

/-- The directory as it is found: its rotated segments are taken over. -/
def Shelf.start (fileName : PyStr) (dir : Dir) : Shelf where
  dir := dir
  made := (rotatedOf fileName dir).map Prod.snd
  unlinked := 0

def Shelf.step (fileName : PyStr) (st : Shelf) : FileOp → Shelf
  | .write data corrupt =>
      { st with dir := { files := st.dir.files.set fileName data, corrupt := corrupt } }
  | .rotate c =>
      match rotatedTo { c with fileName := fileName } st.dir with
      | none => st
      | some name =>
          let effects := rotateEffects { c with fileName := fileName } st.dir
          { dir := applyAll st.dir effects
            made := st.made ++ [(name, (st.dir.files.get? fileName).getD [])]
            unlinked := st.unlinked + (effects.length - 1) }
  | .moveAway corrupt =>
      { dir :=
          { files := (segmentsFor fileName st.dir).foldl (fun files s => files.pop s.1) st.dir.files
            corrupt := corrupt }
        made := []
        unlinked := 0 }

def Shelf.run (fileName : PyStr) (st : Shelf) (ops : List FileOp) : Shelf :=
  ops.foldl (Shelf.step fileName) st

theorem Shelf.run_append {fileName : PyStr} (st : Shelf) (a b : List FileOp) :
    st.run fileName (a ++ b) = (st.run fileName a).run fileName b := List.foldl_append

/-- `_segments_for` lists every segment that was made and not unlinked, with its bytes, after all
    older ones. -/
structure Shelf.Listed (fileName : PyStr) (st : Shelf) : Prop where
  count : st.unlinked ≤ st.made.length
  listed : ∃ rotated, listRotated fileName st.dir = .ok rotated ∧
    rotated.map Prod.snd = st.made.drop st.unlinked

/-- A rotation takes a new name, and unlinks only what is beyond `backup_count`. -/
def Shelf.SafeStep (fileName : PyStr) (st : Shelf) : FileOp → Prop
  | .rotate c => ∀ name, rotatedTo { c with fileName := fileName } st.dir = some name →
      st.dir.files.get? name = none ∧
      (st.step fileName (.rotate c)).made.length - (st.step fileName (.rotate c)).unlinked =
        min (st.made.length - st.unlinked + 1) c.backupCount.toNat
  | _ => True

/-- In every state of the run the segments are listed, and every rotation is safe. -/
def Shelf.Keeps (fileName : PyStr) : Shelf → List FileOp → Prop
  | st, [] => st.Listed fileName
  | st, op :: ops =>
      st.Listed fileName ∧ st.SafeStep fileName op ∧ (st.step fileName op).Keeps fileName ops

/-- No rotation of the run happens with number 999,999 in use. -/
def Shelf.SixDigits (fileName : PyStr) : Shelf → List FileOp → Prop
  | _, [] => True
  | st, op :: ops =>
      (∀ c, op = .rotate c → (rotatedTo { c with fileName := fileName } st.dir).isSome = true →
        nextRotationIndex fileName st.dir ≤ 999999) ∧
      (st.step fileName op).SixDigits fileName ops

/-! ## One step -/

section Step

variable {fileName : PyStr} {st : Shelf}

theorem Shelf.Listed.listable (h : st.Listed fileName) : Listable fileName st.dir := by
  obtain ⟨rotated, hrotated, -⟩ := h.listed
  exact (listRotated_ok_iff.1 hrotated).1

theorem Shelf.Listed.order (h : st.Listed fileName) :
    (rotatedOf fileName st.dir).map Prod.snd = st.made.drop st.unlinked := by
  obtain ⟨rotated, hrotated, horder⟩ := h.listed
  rw [← (listRotated_ok_iff.1 hrotated).2]
  exact horder

theorem Shelf.listed_of_order (hcount : st.unlinked ≤ st.made.length) (hlist : Listable fileName st.dir)
    (horder : (rotatedOf fileName st.dir).map Prod.snd = st.made.drop st.unlinked) :
    st.Listed fileName := ⟨hcount, _, listRotated_ok_iff.2 ⟨hlist, rfl⟩, horder⟩

theorem rotatedTo_some {c : Config} {dir : Dir} {name : PyStr} (h : rotatedTo c dir = some name) :
    ∃ data, dir.files.get? c.fileName = some data ∧ data ≠ [] ∧
      name = rotatedName c.fileName (nextRotationIndex c.fileName dir) := by
  unfold rotatedTo at h
  split at h
  · exact absurd h (by simp)
  · next hne =>
    simp only [Option.some.injEq] at h
    cases hactive : dir.files.get? c.fileName with
    | none => exact absurd (by simp [hactive]) hne
    | some data => exact ⟨data, rfl, by simpa [hactive] using hne, h.symm⟩

/-- What a rotation does to the listed segments and how many it unlinks, given what the renaming
    does to them. -/
theorem rotate_listed {c : Config} {dir : Dir} {data : Bytes} {rotated : List Rotated}
    (hactive : dir.files.get? c.fileName = some data) (hdata : data ≠ [])
    (hreplace : rotatedOf c.fileName (Effect.apply dir (.replace c.fileName
      (rotatedName c.fileName (nextRotationIndex c.fileName dir)))) = rotated) :
    rotatedOf c.fileName (applyAll dir (rotateEffects c dir)) =
        rotated.drop (rotated.length - c.backupCount.toNat) ∧
      (rotateEffects c dir).length - 1 = rotated.length - c.backupCount.toNat := by
  have hne : ¬ (dir.files.get? c.fileName).getD [] = [] := by simpa [hactive] using hdata
  have hshape := shape_self c (Effect.apply dir (.replace c.fileName
    (rotatedName c.fileName (nextRotationIndex c.fileName dir))))
  rw [hreplace] at hshape
  have hunlinks := (hshape.unlinks (rotated.length - c.backupCount.toNat)).rotated
  rw [List.map_map] at hunlinks
  simp only [rotateEffects, if_neg hne, hreplace]
  refine ⟨hunlinks, ?_⟩
  simp only [List.length_cons, List.length_map, List.length_take]
  omega

theorem Shelf.Listed.write (h : st.Listed fileName) (data : Bytes) (corrupt : Dict PyStr Bytes) :
    (st.step fileName (.write data corrupt)).Listed fileName := by
  refine listed_of_order h.count (h.listable.of_names ((NamesFrom.refl _ _).set (.inl rfl) _ _)) ?_
  have hset : rotatedOf fileName { st.dir with files := st.dir.files.set fileName data } =
      rotatedOf fileName st.dir := rotatedOf_set_active data
  have horder := h.order
  rw [← hset] at horder
  exact horder

theorem Shelf.Listed.moveAway (h : st.Listed fileName) (corrupt : Dict PyStr Bytes) :
    (st.step fileName (.moveAway corrupt)).Listed fileName := by
  have hpop : ∀ (segments : List (PyStr × Bytes)) (files : Dict PyStr Bytes) (name : PyStr)
      (data : Bytes), (segments.foldl (fun files s => files.pop s.1) files).get? name = some data →
      files.get? name = some data ∧ ∀ s ∈ segments, s.1 ≠ name := by
    intro segments
    induction segments with
    | nil => exact fun files name data h => ⟨h, by simp⟩
    | cons s segments ih =>
        intro files name data h
        obtain ⟨hget, hrest⟩ := ih _ name data h
        obtain ⟨hne, hget⟩ := Dict.get?_of_pop hget
        exact ⟨hget, List.forall_mem_cons.2 ⟨Ne.symm hne, hrest⟩⟩
  have hnil : rotatedOf fileName (st.step fileName (.moveAway corrupt)).dir = [] := by
    refine List.eq_nil_iff_forall_not_mem.2 ?_
    rintro ⟨i, name, data⟩ hmem
    obtain ⟨hget, hidx⟩ := mem_rotatedOf.1 hmem
    obtain ⟨hget, hnot⟩ := hpop _ _ name data hget
    refine hnot (name, data) ?_ rfl
    exact List.mem_append_left _ (List.mem_map.2 ⟨_, mem_rotatedOf.2 ⟨hget, hidx⟩, rfl⟩)
  refine listed_of_order le_rfl (fun name data hget => ?_) (by rw [hnil]; rfl)
  exact h.listable name data (hpop _ _ name data hget).1

/-- The state after a rotation, in terms of what the renaming lists. -/
theorem Shelf.step_rotate {c : Config} {name : PyStr} {rotated : List Rotated}
    (hname : rotatedTo { c with fileName := fileName } st.dir = some name)
    (hreplace : rotatedOf fileName (Effect.apply st.dir (.replace fileName name)) = rotated) :
    (st.step fileName (.rotate c)).made =
        st.made ++ [(name, (st.dir.files.get? fileName).getD [])] ∧
      (st.step fileName (.rotate c)).unlinked =
        st.unlinked + (rotated.length - c.backupCount.toNat) ∧
      rotatedOf fileName (st.step fileName (.rotate c)).dir =
        rotated.drop (rotated.length - c.backupCount.toNat) := by
  obtain ⟨data, hactive, hdata, rfl⟩ := rotatedTo_some hname
  obtain ⟨hlisted, hcount⟩ := rotate_listed hactive hdata hreplace
  simp only [Shelf.step, hname]
  exact ⟨trivial, by rw [hcount], hlisted⟩

theorem Shelf.Listed.rotate (h : st.Listed fileName) (c : Config)
    (hindex : (rotatedTo { c with fileName := fileName } st.dir).isSome = true →
      nextRotationIndex fileName st.dir ≤ 999999) :
    st.SafeStep fileName (.rotate c) ∧ (st.step fileName (.rotate c)).Listed fileName := by
  cases hname : rotatedTo { c with fileName := fileName } st.dir with
  | none =>
      refine ⟨fun name heq => absurd heq (by simp [hname]), ?_⟩
      simp only [Shelf.step, hname]
      exact h
  | some name =>
      have hindex := hindex (by rw [hname]; rfl)
      obtain ⟨data, hactive, hdata, rfl⟩ := rotatedTo_some hname
      simp only at hactive
      have hreplace := (rotated_replace hactive hindex).1
      have horder := h.order
      have hlength := congrArg List.length horder
      rw [List.length_map, List.length_drop] at hlength
      obtain ⟨hmade, hunlinked, hlisted⟩ := Shelf.step_rotate hname hreplace
      rw [hactive, Option.getD_some] at hmade
      simp only [List.length_append, List.length_singleton] at hunlinked hlisted
      have hcount := h.count
      have hnames : Listable fileName (st.step fileName (.rotate c)).dir := by
        have htargets : NamesFrom fileName st.dir _ :=
          applyAll_names (rotateEffects_targets { c with fileName := fileName } st.dir)
        simp only [Shelf.step, hname]
        exact h.listable.of_names htargets
      refine ⟨fun name heq => ?_, listed_of_order ?_ hnames ?_⟩
      · rw [hname, Option.some.injEq] at heq
        subst heq
        refine ⟨rotatedName_fresh hindex, ?_⟩
        rw [hmade, hunlinked, List.length_append, List.length_singleton]
        omega
      · rw [hmade, hunlinked, List.length_append, List.length_singleton]
        omega
      · rw [hlisted, hmade, hunlinked, List.map_drop, List.map_append, horder, ← List.drop_drop,
          List.drop_append_of_le_length hcount]
        rfl

/-- Beyond six digits the new segment is not listed. -/
theorem Shelf.Listed.rotate_long (h : st.Listed fileName) (c : Config)
    (hsome : (rotatedTo { c with fileName := fileName } st.dir).isSome = true)
    (hlong : 999999 < nextRotationIndex fileName st.dir) :
    ¬ (st.step fileName (.rotate c)).Listed fileName := by
  intro hafter
  obtain ⟨name, hname⟩ := Option.isSome_iff_exists.1 hsome
  obtain ⟨data, hactive, hdata, rfl⟩ := rotatedTo_some hname
  obtain ⟨hmade, hunlinked, hlisted⟩ :=
    Shelf.step_rotate hname (rotated_replace_long hactive hlong)
  -- one segment was made and none of the listed ones is it
  have hbefore := congrArg List.length h.order
  have hcount := congrArg List.length hafter.order
  rw [hlisted, hmade, hunlinked] at hcount
  have := h.count
  simp only [List.length_map, List.length_drop, List.length_append, List.length_singleton]
    at hbefore hcount
  omega

end Step

/-! ## Whole runs -/

theorem Shelf.Keeps.listed {fileName : PyStr} {st : Shelf} {ops : List FileOp}
    (h : st.Keeps fileName ops) : st.Listed fileName := by
  cases ops with
  | nil => exact h
  | cons op ops => exact h.1

theorem Shelf.Listed.keeps_iff {fileName : PyStr} {st : Shelf} (h : st.Listed fileName)
    (ops : List FileOp) : st.Keeps fileName ops ↔ st.SixDigits fileName ops := by
  induction ops generalizing st with
  | nil => exact ⟨fun _ => trivial, fun _ => h⟩
  | cons op ops ih =>
      simp only [Shelf.Keeps, Shelf.SixDigits]
      cases op with
      | write data corrupt =>
          have hnext := h.write data corrupt
          simp only [Shelf.SafeStep, reduceCtorEq, false_implies, implies_true, true_and,
            ih hnext, and_iff_right h]
      | moveAway corrupt =>
          have hnext : (st.step fileName (.moveAway corrupt)).Listed fileName :=
            h.moveAway corrupt
          simp only [Shelf.SafeStep, reduceCtorEq, false_implies, implies_true, true_and,
            ih hnext, and_iff_right h]
      | rotate c =>
          constructor
          · rintro ⟨-, -, hkeeps⟩
            have hnext : (st.step fileName (.rotate c)).Listed fileName := hkeeps.listed
            refine ⟨fun c' hc' hsome => ?_, (ih hnext).1 hkeeps⟩
            rw [FileOp.rotate.injEq] at hc'
            subst hc'
            by_contra hlong
            exact h.rotate_long c hsome (by omega) hnext
          · rintro ⟨hindex, hrest⟩
            obtain ⟨hsafe, hnext⟩ := h.rotate c (hindex c rfl)
            exact ⟨h, hsafe, (ih hnext).2 hrest⟩

theorem Shelf.start_listed_iff (fileName : PyStr) (dir : Dir) :
    (Shelf.start fileName dir).Listed fileName ↔ Listable fileName dir :=
  ⟨fun h => h.listable, fun h => listed_of_order (Nat.zero_le _) h rfl⟩

/-- **Rotation keeps every segment that retention should keep, exactly as long as six digits are
    enough, if no name raises**: over every sequence of writes, rotations with any `backup_count` and
    quarantines, from any directory. -/
theorem rotation_keeps_iff (fileName : PyStr) (dir : Dir) (ops : List FileOp) :
    (Shelf.start fileName dir).Keeps fileName ops ↔
      Listable fileName dir ∧ (Shelf.start fileName dir).SixDigits fileName ops := by
  constructor
  · intro h
    exact ⟨(Shelf.start_listed_iff fileName dir).1 h.listed, (h.listed.keeps_iff ops).1 h⟩
  · rintro ⟨hlist, hsix⟩
    exact (((Shelf.start_listed_iff fileName dir).2 hlist).keeps_iff ops).2 hsix

/-! ## Every call of the logger -/

section Calls

variable {F : Type} [FloatNum F] {H : HexDigest}

/-- Creating the active file and appending to it is one write. -/
theorem applyAll_write (fileName : PyStr) (d : Dir) (line : Bytes) :
    applyAll d [.create fileName, .append fileName line] =
      { files := d.files.set fileName ((d.files.get? fileName).getD [] ++ line)
        corrupt := d.corrupt } := by
  cases hactive : d.files.get? fileName with
  | none => simp [applyAll, Effect.apply, hactive, Dict.set_set]
  | some data => simp [applyAll, Effect.apply, hactive]

/-- These operations lead from the one directory to the other, whatever is counted. -/
def Leads (fileName : PyStr) (ops : List FileOp) (dir dir' : Dir) : Prop :=
  ∀ made unlinked, (Shelf.run fileName ⟨dir, made, unlinked⟩ ops).dir = dir'

theorem Leads.append {fileName : PyStr} {a b : List FileOp} {d d' d'' : Dir}
    (ha : Leads fileName a d d') (hb : Leads fileName b d' d'') :
    Leads fileName (a ++ b) d d'' := by
  intro made unlinked
  rw [Shelf.run_append]
  have hfirst := ha made unlinked
  generalize Shelf.run fileName ⟨d, made, unlinked⟩ a = st at hfirst
  obtain ⟨dir, made', unlinked'⟩ := st
  simp only at hfirst
  subst hfirst
  exact hb made' unlinked'

theorem leads_rotate (c : Config) (dir : Dir) :
    Leads c.fileName [.rotate c] dir (applyAll dir (rotateEffects c dir)) := by
  intro made unlinked
  simp only [Shelf.run, List.foldl_cons, List.foldl_nil, Shelf.step]
  cases hname : rotatedTo c dir with
  | none =>
      have hempty : (dir.files.get? c.fileName).getD [] = [] := by
        by_contra hne
        simp [rotatedTo, hne] at hname
      simp [rotateEffects, hempty, applyAll]
  | some name => rfl

theorem leads_record (lg : Logger) (dir : Dir) (stamp : Except PyExc (Stamp F))
    (input : RecordInput F) :
    ∃ ops, Leads lg.config.fileName ops dir (record H lg dir stamp input).2.2 := by
  unfold record
  cases hprepare : prepare H lg dir stamp input with
  | mk lg' result =>
      cases result with
      | error x => exact ⟨[], fun _ _ => rfl⟩
      | ok plan =>
          obtain ⟨_, _, _, -, -, rfl, hplan⟩ := prepare_ok hprepare
          have heffects := hplan.effects
          simp only at heffects ⊢
          rw [heffects, appendEffects, applyAll_append, applyAll_write]
          split
          · exact ⟨_, (leads_rotate lg.config dir).append (b := [.write _ _]) fun _ _ => rfl⟩
          · exact ⟨[.write _ _], fun _ _ => rfl⟩

/-- The segments move away, whatever else is then put below `corrupt/`. -/
theorem leads_move (c : Config) (chain : PyStr) (dir : Dir) (corrupt : Dict PyStr Bytes) :
    Leads c.fileName [.moveAway corrupt] dir { moveSegments c chain dir with corrupt := corrupt } := by
  have hfiles : ∀ (segments : List (PyStr × Bytes)) (d : Dir),
      (segments.foldl (fun d segment =>
        ({ files := d.files.pop segment.1
           corrupt := d.corrupt.set (chain ++ [47] ++ segment.1) segment.2 } : Dir)) d).files =
        segments.foldl (fun files s => files.pop s.1) d.files := by
    intro segments
    induction segments with
    | nil => exact fun _ => rfl
    | cons s segments ih => exact fun d => ih _
  intro made unlinked
  simp only [Shelf.run, List.foldl_cons, List.foldl_nil, Shelf.step, moveSegments, hfiles]

theorem leads_quarantine (c : Config) (report : IntegrityReport) (chain : PyStr) (dir : Dir) :
    ∃ ops, Leads c.fileName ops dir (quarantineSegments F c report chain dir).2 := by
  unfold quarantineSegments
  split
  · exact ⟨[], fun _ _ => rfl⟩
  split
  · exact ⟨[], fun _ _ => rfl⟩
  · dsimp only
    split
    · exact ⟨_, leads_move c chain dir _⟩
    · split
      · exact ⟨_, leads_move c chain dir _⟩
      · exact ⟨_, leads_move c chain dir _⟩

theorem leads_repair {c : Config} {artifact : PyStr} {dir dir' : Dir} {o : Option PyStr}
    (h : (if c.repairTrailingPartial then repairActive c artifact dir else .ok (none, dir)) =
      .ok (o, dir')) : ∃ ops, Leads c.fileName ops dir dir' := by
  have hidle : ∀ {x : Option PyStr × Dir}, (Except.ok (none, dir) : Except Raised _) = .ok x →
      ∃ ops, Leads c.fileName ops dir x.2 := by
    intro x hx
    simp only [Except.ok.injEq] at hx
    subst hx
    exact ⟨[], fun _ _ => rfl⟩
  split at h
  · unfold repairActive at h
    split at h
    · exact hidle h
    · split at h
      · exact hidle h
      · split_ifs at h
        simp only [Except.ok.injEq, Prod.mk.injEq] at h
        obtain ⟨-, rfl⟩ := h
        exact ⟨[.write _ _], fun _ _ => rfl⟩
  · exact hidle h

theorem leads_open (c : Config) (env : OpenEnv F) (dir : Dir) :
    ∃ ops, Leads c.fileName ops dir (openLogger H c env dir).2 := by
  unfold openLogger
  split
  · exact ⟨[], fun _ _ => rfl⟩
  · split
    · exact ⟨[], fun _ _ => rfl⟩
    · next artifact dir₁ hrepair =>
      obtain ⟨ops, hops⟩ := leads_repair hrepair
      split
      · exact ⟨ops, hops⟩
      · next report _ =>
        dsimp only
        split
        · exact ⟨ops, hops⟩
        · split
          · exact ⟨ops, hops⟩
          · obtain ⟨moves, hmoves⟩ := leads_quarantine (F := F) c report env.chain dir₁
            split
            · next hq =>
              rw [hq] at hmoves
              exact ⟨_, hops.append hmoves⟩
            · next dir₂ hq =>
              rw [hq] at hmoves
              obtain ⟨ops', hrecord⟩ := leads_record (H := H)
                { config := c, repairedPartial := artifact.isSome,
                  recoveryArtifact := some env.chain } dir₂ env.stamp
                (recoveryInput report env.chain)
              have hall := (hops.append hmoves).append hrecord
              split
              · next hr =>
                rw [hr] at hall
                exact ⟨_, hall⟩
              · next hr =>
                rw [hr] at hall
                exact ⟨_, hall⟩

/-- **Every call of a logger is a sequence of these operations.** -/
theorem leads_step (sys : System F) (call : Call F) {fileName : PyStr}
    (hnames : ∀ lg ∈ sys.loggers, lg.config.fileName = fileName)
    (hcall : ∀ c env, call = .reopen c env → c.fileName = fileName) :
    ∃ ops, Leads fileName ops sys.dir (sys.step H call).dir := by
  cases call with
  | record i stamp input =>
      simp only [System.step]
      split
      · exact ⟨[], fun _ _ => rfl⟩
      · next lg hi =>
        have hname := hnames lg (List.mem_of_getElem? hi)
        subst hname
        exact leads_record lg sys.dir stamp input
  | rotate i =>
      simp only [System.step]
      split
      · exact ⟨[], fun _ _ => rfl⟩
      · next lg hi =>
        have hname := hnames lg (List.mem_of_getElem? hi)
        subst hname
        exact ⟨_, leads_rotate lg.config sys.dir⟩
  | reopen c env =>
      have hname := hcall c env rfl
      subst hname
      obtain ⟨ops, hops⟩ := leads_open (H := H) c env sys.dir
      simp only [System.step]
      split
      · next dir' hopen =>
        rw [hopen] at hops
        exact ⟨ops, hops⟩
      · next lg dir' hopen =>
        rw [hopen] at hops
        exact ⟨ops, hops⟩

theorem record_config (lg : Logger) (dir : Dir) (stamp : Except PyExc (Stamp F))
    (input : RecordInput F) : (record H lg dir stamp input).2.1.config = lg.config := by
  have hconfig : (prepare H lg dir stamp input).1.config = lg.config := prepare_config
  unfold record
  split
  · next hprepare =>
    rw [hprepare] at hconfig
    exact hconfig
  · next hprepare =>
    rw [hprepare] at hconfig
    exact hconfig

theorem openLogger_config {c : Config} {env : OpenEnv F} {dir dir' : Dir} {lg : Logger}
    (h : openLogger H c env dir = (.ok lg, dir')) : lg.config = c := by
  unfold openLogger at h
  split at h
  · exact absurd (congrArg Prod.fst h) (by simp)
  · split at h
    · exact absurd (congrArg Prod.fst h) (by simp)
    · next artifact dir₁ _ =>
      split at h
      · exact absurd (congrArg Prod.fst h) (by simp)
      · next report _ =>
        dsimp only at h
        split at h
        · simp only [Prod.mk.injEq, Except.ok.injEq] at h
          rw [← h.1]
        · split at h
          · exact absurd (congrArg Prod.fst h) (by simp)
          · split at h
            · exact absurd (congrArg Prod.fst h) (by simp)
            · split at h
              · exact absurd (congrArg Prod.fst h) (by simp)
              · next hrecord =>
                simp only [Prod.mk.injEq, Except.ok.injEq] at h
                have hconfig := congrArg (fun x => x.2.1.config) hrecord
                simp only [record_config] at hconfig
                rw [← h.1, ← hconfig]

/-- **Every run of loggers is a sequence of these operations**, so what holds of all of them holds of
    the directory of every run. -/
theorem leads_run {fileName : PyStr} (calls : List (Call F)) (sys : System F)
    (hnames : ∀ lg ∈ sys.loggers, lg.config.fileName = fileName)
    (hcalls : ∀ c env, Call.reopen c env ∈ calls → c.fileName = fileName) :
    ∃ ops, Leads fileName ops sys.dir (sys.run H calls).dir := by
  induction calls generalizing sys with
  | nil => exact ⟨[], fun _ _ => rfl⟩
  | cons call calls ih =>
      obtain ⟨ops, hops⟩ := leads_step (H := H) sys call hnames
        (fun c env heq => hcalls c env (heq ▸ List.mem_cons_self ..))
      have hnames' : ∀ lg ∈ (sys.step H call).loggers, lg.config.fileName = fileName := by
        intro lg hlg
        cases call with
        | record i stamp input =>
            simp only [System.step] at hlg
            split at hlg
            · exact hnames lg hlg
            · next lg₀ hi =>
              rcases List.mem_or_eq_of_mem_set hlg with hlg | rfl
              · exact hnames lg hlg
              · rw [record_config]
                exact hnames lg₀ (List.mem_of_getElem? hi)
        | rotate i =>
            simp only [System.step] at hlg
            split at hlg <;> exact hnames lg hlg
        | reopen c env =>
            simp only [System.step] at hlg
            split at hlg
            · exact hnames lg hlg
            · next lg₀ dir₀ hopen =>
              rcases List.mem_append.1 hlg with hlg | hlg
              · exact hnames lg hlg
              · rw [List.mem_singleton] at hlg
                rw [hlg, openLogger_config hopen]
                exact hcalls c env (List.mem_cons_self ..)
      obtain ⟨ops', hops'⟩ := ih (sys.step H call) hnames'
        (fun c env hmem => hcalls c env (List.mem_cons_of_mem _ hmem))
      exact ⟨ops ++ ops', hops.append hops'⟩

end Calls

/-! ## A million rotations -/

section Rounds

variable {fileName : PyStr}

theorem Shelf.sixDigits_append {st : Shelf} {a b : List FileOp}
    (h : st.SixDigits fileName (a ++ b)) : (st.run fileName a).SixDigits fileName b := by
  induction a generalizing st with
  | nil => exact h
  | cons op a ih => exact ih h.2

/-- A line is written and the log is rotated, `n` times. -/
def rounds (c : Config) (line : Bytes) : Nat → List FileOp
  | 0 => []
  | n + 1 => rounds c line n ++ [.write line Dict.empty, .rotate c]

/-- The rotation of a round. -/
theorem round_rotates (c : Config) {line : Bytes} (hline : line ≠ []) (st : Shelf) :
    rotatedTo { c with fileName := fileName }
        (st.step fileName (.write line Dict.empty)).dir =
      some (rotatedName fileName (nextRotationIndex fileName st.dir)) := by
  have hindex : nextRotationIndex fileName (st.step fileName (.write line Dict.empty)).dir =
      nextRotationIndex fileName st.dir := by
    have hset : rotatedOf fileName { files := st.dir.files.set fileName line, corrupt := Dict.empty } =
        rotatedOf fileName st.dir := @rotatedOf_set_active _ st.dir line
    simp only [nextRotationIndex, Shelf.step]
    rw [hset]
  simp only [rotatedTo, hindex]
  simp [Shelf.step, hline]

/-- One round that keeps one segment, while six digits are enough. -/
theorem round_keeps_one {c : Config} (hbackup : c.backupCount = 1) {line : Bytes} (hline : line ≠ [])
    {st : Shelf} (hindex : nextRotationIndex fileName st.dir ≤ 999999) :
    nextRotationIndex fileName (st.run fileName [.write line Dict.empty, .rotate c]).dir =
      nextRotationIndex fileName st.dir + 1 := by
  have hname := @round_rotates fileName c _ hline st
  have hset : rotatedOf fileName (st.step fileName (.write line Dict.empty)).dir =
      rotatedOf fileName st.dir := @rotatedOf_set_active _ st.dir line
  have hactive : (st.step fileName (.write line Dict.empty)).dir.files.get? fileName = some line :=
    Dict.get?_set_self ..
  have hnext : nextRotationIndex fileName (st.step fileName (.write line Dict.empty)).dir =
      nextRotationIndex fileName st.dir := by
    simp only [nextRotationIndex, hset]
  have hreplace := (rotated_replace hactive (by rw [hnext]; exact hindex)).1
  rw [hnext, hset] at hreplace
  obtain ⟨-, -, hlisted⟩ := Shelf.step_rotate hname hreplace
  rw [hbackup, List.length_append, List.length_singleton, Int.toNat_one, Nat.add_sub_cancel,
    List.drop_left] at hlisted
  show nextRotationIndex fileName
    ((st.step fileName (.write line Dict.empty)).step fileName (.rotate c)).dir = _
  simp only [nextRotationIndex] at hlisted ⊢
  rw [hlisted]
  simp

/-- The number of the next rotation after `n` rounds. -/
theorem rounds_index {c : Config} (hbackup : c.backupCount = 1) {line : Bytes} (hline : line ≠ [])
    {n : Nat} (hn : n ≤ 999999) :
    nextRotationIndex fileName ((Shelf.start fileName {}).run fileName (rounds c line n)).dir =
      n + 1 := by
  induction n with
  | zero => rfl
  | succ n ih =>
      have hprev := ih (by omega)
      rw [rounds, Shelf.run_append, round_keeps_one hbackup hline (by omega), hprev]

/-- The round that needs a seventh digit. -/
theorem rounds_overflow {c : Config} (hbackup : c.backupCount = 1) {line : Bytes} (hline : line ≠ [])
    {n : Nat} (hn : n = 999999) :
    ¬ (Shelf.start fileName {}).Keeps fileName (rounds c line (n + 1)) := by
  intro hkeeps
  have hsix := (hkeeps.listed.keeps_iff _).1 hkeeps
  have hlast := Shelf.sixDigits_append (a := rounds c line n) hsix
  have hindex := @rounds_index fileName _ hbackup _ hline _ hn.le
  generalize (Shelf.start fileName {}).run fileName (rounds c line n) = st at hlast hindex
  have hname := @round_rotates fileName c _ hline st
  have hle := hlast.2.1 c rfl (by rw [hname]; rfl)
  have hset : rotatedOf fileName (st.step fileName (.write line Dict.empty)).dir =
      rotatedOf fileName st.dir := @rotatedOf_set_active _ st.dir line
  rw [nextRotationIndex, hset] at hle
  rw [nextRotationIndex] at hindex
  omega

end Rounds

/-- After a million rotations the last segment is not listed. -/
theorem rotation_loses_segment :
    ¬ (Shelf.start (py "audit.jsonl") {}).Keeps (py "audit.jsonl")
        (rounds sampleConfig [lf] 1000000) := by
  have hmillion : (1000000 : Nat) = 999999 + 1 := by norm_num
  rw [hmillion]
  exact rounds_overflow rfl (by decide) rfl

end Elyra.Audit
