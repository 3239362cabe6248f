import Mathlib.Data.List.TakeWhile
import Elyra.Audit.Chain
import Elyra.Python.Raising

set_option autoImplicit false
set_option linter.unusedSectionVars false

/-! # Reading the log back

`iter_records`: the segments in order, each opened as a text file. Text mode decodes the whole segment
and reads `\r\n` and `\r` as `\n`, so it need not see the lines that the verifier sees; what an append
writes it reads back, after everything it read before (`readSegment_line`, `iterRecords_append`). So
every log that the loggers have written can be read, in any run (`readable_of_every_run`). -/

namespace Elyra.Audit

open Elyra.Python

variable {F : Type}

/-! ## Text mode -/

/-- Universal newlines: a carriage return is read as a line feed, or not at all before one. -/
def newlines : PyStr → PyStr
  | [] => []
  | c :: rest =>
      if c = 13 then if rest.head? = some 10 then newlines rest else 10 :: newlines rest
      else c :: newlines rest

/-- The lines of a text, each with its line feed. -/
def textLines : PyStr → List PyStr
  | [] => []
  | c :: rest =>
      if c = 10 then [10] :: textLines rest
      else
        match textLines rest with
        | [] => [[c]]
        | line :: lines => (c :: line) :: lines

/-- A text that ends with a line feed, if it is not empty. -/
def Complete (s : PyStr) : Prop := s = [] ∨ s.getLast? = some 10

theorem Complete.tail {c : Nat} {s : PyStr} (h : Complete (c :: s)) : Complete s := by
  cases s with
  | nil => exact .inl rfl
  | cons d s =>
      refine .inr ?_
      have := h.resolve_left (by simp)
      rwa [List.getLast?_cons_cons] at this

theorem newlines_append {a : PyStr} (ha : Complete a) (b : PyStr) :
    newlines (a ++ b) = newlines a ++ newlines b := by
  induction a with
  | nil => rfl
  | cons c a ih =>
      have htail := ih ha.tail
      simp only [List.cons_append, newlines, htail]
      by_cases hc : c = 13
      · have hne : a ≠ [] := by
          rintro rfl
          exact absurd (ha.resolve_left (by simp)) (by simp [hc])
        have hhead : (a ++ b).head? = a.head? := by
          cases a with
          | nil => exact absurd rfl hne
          | cons d a => rfl
        simp only [if_pos hc, hhead]
        split <;> rfl
      · simp only [if_neg hc, List.cons_append]

theorem newlines_plain {s : PyStr} (h : 13 ∉ s) : newlines s = s := by
  induction s with
  | nil => rfl
  | cons c s ih =>
      simp only [List.mem_cons, not_or] at h
      rw [newlines, if_neg (Ne.symm h.1), ih h.2]

theorem newlines_complete {s : PyStr} (h : Complete s) : Complete (newlines s) := by
  rcases List.eq_nil_or_concat s with rfl | ⟨init, c, rfl⟩
  · exact .inl rfl
  · obtain rfl : c = 10 := by simpa [Complete] using h
    refine .inr ?_
    rw [List.concat_eq_append]
    clear h
    induction init with
    | nil => rfl
    | cons d init ih =>
        have hne : newlines (init ++ [10]) ≠ [] := by
          intro hnil
          rw [hnil] at ih
          exact absurd ih (by simp)
        rw [List.cons_append, newlines]
        split
        · split
          · exact ih
          · rw [List.getLast?_cons_of_ne_nil hne, ih]
        · rw [List.getLast?_cons_of_ne_nil hne, ih]

theorem textLines_append {a : PyStr} (ha : Complete a) (b : PyStr) :
    textLines (a ++ b) = textLines a ++ textLines b := by
  induction a with
  | nil => rfl
  | cons c a ih =>
      have htail := ih ha.tail
      simp only [List.cons_append, textLines, htail]
      by_cases hc : c = 10
      · simp only [if_pos hc, List.cons_append]
      · have hne : textLines a ≠ [] := by
          cases a with
          | nil => exact absurd (ha.resolve_left (by simp)) (by simp [hc])
          | cons d a =>
              rw [textLines]
              split
              · simp
              · split <;> simp
        obtain ⟨line, lines, hlines⟩ := List.exists_cons_of_ne_nil hne
        simp only [if_neg hc, hlines, List.cons_append]

theorem textLines_line {s : PyStr} (h : 10 ∉ s) : textLines (s ++ [10]) = [s ++ [10]] := by
  induction s with
  | nil => rfl
  | cons c s ih =>
      simp only [List.mem_cons, not_or] at h
      rw [List.cons_append, textLines, if_neg (Ne.symm h.1), ih h.2]

/-! ## Reading -/

/-- A loop that adds what it finds in each element to one list. -/
def gather {α β : Type} (f : α → Except PyExc (List β)) : List α → Except PyExc (List β)
  | [] => .ok []
  | x :: xs => do
      let found ← f x
      let rest ← gather f xs
      .ok (found ++ rest)

section Reading

variable [FloatNum F]

/-- A line of a segment: nothing for a blank line or a value that is no object. -/
def readLine (F : Type) [FloatNum F] (line : PyStr) : Except PyExc (List (Mapping F)) :=
  if strip line = [] then .ok []
  else
    match loads (F := F) line with
    | .error _ => .error .valueError
    | .ok (.obj entry) => .ok [entry]
    | .ok _ => .ok []

/-- A segment opened with `encoding="utf-8"`; `UnicodeDecodeError` is a `ValueError`. -/
def readSegment (F : Type) [FloatNum F] (data : Bytes) : Except PyExc (List (Mapping F)) :=
  match decodeUtf8 data with
  | none => .error .valueError
  | some text => gather (readLine F) (textLines (newlines text))

/-- `records[-k:]`. -/
def lastRecords (k : Int) (records : List (Mapping F)) : List (Mapping F) :=
  records.drop (records.length - k.toNat)

/-- `iter_records`. -/
def iterRecords (F : Type) [FloatNum F] (fileName : PyStr) (dir : Dir) :
    Option Int → Except PyExc (List (Mapping F))
  | none => gather (readSegment F) (contents fileName dir)
  | some limit =>
      if limit ≤ 0 then .ok []
      else (gather (readSegment F) (contents fileName dir)).map (lastRecords limit)

theorem gather_append {α β : Type} {f : α → Except PyExc (List β)} {xs ys : List α}
    {as bs : List β} (hxs : gather f xs = .ok as) (hys : gather f ys = .ok bs) :
    gather f (xs ++ ys) = .ok (as ++ bs) := by
  induction xs generalizing as with
  | nil =>
      obtain rfl := Except.ok.inj hxs
      exact hys
  | cons x xs ih =>
      obtain ⟨found, hfound, hxs⟩ := bind_ok.1 hxs
      obtain ⟨rest, hrest, hxs⟩ := bind_ok.1 hxs
      obtain rfl := Except.ok.inj hxs
      rw [List.append_assoc]
      exact bind_ok.2 ⟨found, hfound, bind_ok.2 ⟨_, ih hrest, rfl⟩⟩

theorem gather_isOk {α β : Type} {f : α → Except PyExc (List β)} {xs : List α} :
    (∃ as, gather f xs = .ok as) ↔ ∀ x ∈ xs, ∃ found, f x = .ok found := by
  induction xs with
  | nil => exact iff_of_true ⟨[], rfl⟩ (List.forall_mem_nil _)
  | cons x xs ih =>
      rw [List.forall_mem_cons, ← ih]
      constructor
      · rintro ⟨as, h⟩
        obtain ⟨found, hfound, h⟩ := bind_ok.1 h
        obtain ⟨rest, hrest, -⟩ := bind_ok.1 h
        exact ⟨⟨found, hfound⟩, rest, hrest⟩
      · rintro ⟨⟨found, hfound⟩, rest, hrest⟩
        exact ⟨_, bind_ok.2 ⟨found, hfound, bind_ok.2 ⟨rest, hrest, rfl⟩⟩⟩

theorem gather_single {α β : Type} {f : α → Except PyExc (List β)} {x : α} {found : List β}
    (h : f x = .ok found) : gather f [x] = .ok found := by
  refine bind_ok.2 ⟨found, h, bind_ok.2 ⟨[], rfl, ?_⟩⟩
  rw [List.append_nil]

theorem strip_ne_nil {c : Nat} {s : PyStr} (hc : isSpace c = false) : strip (c :: s) ≠ [] := by
  intro h
  rw [strip, List.dropWhile_cons_of_neg (by simp [hc]), List.reverse_eq_nil_iff,
    List.dropWhile_eq_nil_iff] at h
  have := h c (by simp)
  rw [hc] at this
  exact absurd this (by simp)

/-! ## A line that an append has written -/

/-- The text of a line: that of the record, which begins with a brace and is printable. -/
theorem encodeLine_text {entry : Mapping F} {line : Bytes} (h : encodeLine entry = .ok line) :
    ∃ text, dumps .compact false (.obj entry) = some text ∧
      decodeUtf8 line = some (text ++ [10]) ∧ (∀ c ∈ text, 32 ≤ c) ∧ ∃ rest, text = 123 :: rest := by
  obtain ⟨text, body, htext, hbody, rfl, -⟩ := encodeLine_eq h
  refine ⟨text, htext, decodeUtf8_append (decodeUtf8_encodeUtf8 hbody) rfl, ?_, dumps_obj_head htext⟩
  obtain ⟨-, rfl⟩ := encodable_of_dumps htext
  exact print_printable Layout.compact_oneLine (.obj entry) 0

theorem readLine_text {entry : Mapping F} {text : PyStr} (hwf : (Json.obj entry).WF)
    (htext : dumps .compact false (.obj entry) = some text) (hhead : ∃ rest, text = 123 :: rest) :
    readLine F (text ++ [10]) = .ok [entry] := by
  have hloads : loads (F := F) (text ++ [10]) = .ok (.obj entry) :=
    loads_dumps_append hwf htext rfl
  obtain ⟨rest, rfl⟩ := hhead
  have hstrip : strip (123 :: rest ++ [10]) ≠ [] := strip_ne_nil (by decide)
  rw [readLine, if_neg hstrip, hloads]

/-- A segment that can be read and ends a line. -/
structure Readable (F : Type) [FloatNum F] (data : Bytes) : Prop where
  read : ∃ records, readSegment F data = .ok records
  ends : data = [] ∨ endsWithLf data = true

theorem readable_nil : Readable F [] := ⟨⟨[], rfl⟩, .inl rfl⟩

theorem complete_of_ends {data : Bytes} {text : PyStr} (h : decodeUtf8 data = some text)
    (hends : data = [] ∨ endsWithLf data = true) : Complete text := by
  rcases hends with rfl | hlf
  · exact .inl (Option.some.inj h).symm
  · exact .inr (decodeUtf8_getLast? h (b := lf) (by decide) (by simpa [endsWithLf] using hlf))

/-- **What an append has written is read back, after what the segment held.** -/
theorem readSegment_line {entry : Mapping F} {data line : Bytes} {records : List (Mapping F)}
    (hread : readSegment F data = .ok records) (hends : data = [] ∨ endsWithLf data = true)
    (hwf : (Json.obj entry).WF) (hline : encodeLine entry = .ok line) :
    readSegment F (data ++ line) = .ok (records ++ [entry]) := by
  obtain ⟨text, htext, hdecode, hprint, hhead⟩ := encodeLine_text hline
  unfold readSegment at hread
  split at hread
  · cases hread
  · next before hbefore =>
    have hcomplete := complete_of_ends hbefore hends
    have hplain : ∀ c, c < 32 → c ∉ text := fun c hc hmem => absurd (hprint c hmem) (by omega)
    have hnewlines : newlines (text ++ [10]) = text ++ [10] :=
      newlines_plain (by simp [hplain 13 (by decide)])
    have hlines : textLines (newlines (before ++ (text ++ [10]))) =
        textLines (newlines before) ++ [text ++ [10]] := by
      rw [newlines_append hcomplete, hnewlines, textLines_append (newlines_complete hcomplete),
        textLines_line (hplain 10 (by decide))]
    rw [readSegment, decodeUtf8_append hbefore hdecode]
    simp only [hlines]
    exact gather_append hread (gather_single (readLine_text hwf htext hhead))

theorem Readable.line {entry : Mapping F} {data line : Bytes} (h : Readable F data)
    (hwf : (Json.obj entry).WF) (hline : encodeLine entry = .ok line) : Readable F (data ++ line) := by
  obtain ⟨records, hread⟩ := h.read
  obtain ⟨body, rfl, -⟩ := decodeLine_encodeLine hwf hline
  exact ⟨⟨_, readSegment_line hread h.ends hwf hline⟩,
    .inr (endsWithLf_append (endsWithLf_append rfl))⟩

/-- **An append comes last**, after the records of the segments that are left. -/
theorem iterRecords_append {before after : List Bytes} {limit : Nat} {entry : Mapping F}
    {line : Bytes} {active : Option Bytes} (h : AppendState before limit line after active)
    (hbefore : ∀ data ∈ before, Readable F data) (hwf : (Json.obj entry).WF)
    (hline : encodeLine entry = .ok line) :
    ∃ lost kept, gather (readSegment F) before = .ok (lost ++ kept) ∧
      gather (readSegment F) after = .ok (kept ++ [entry]) := by
  generalize hwritten : line = written at h
  cases h with
  | untouched j hj hactive =>
      obtain ⟨body, rfl, -⟩ := decodeLine_encodeLine hwf hline
      exact absurd hwritten (by simp)
  | extended j hj init last written hlast =>
      subst hwritten
      -- without an active file the line goes to a new one
      have hends : Readable F last ∧ ∀ records, gather (readSegment F) (init ++ [last]) =
          .ok records → gather (readSegment F) (before.drop j) = .ok records := by
        rcases hlast with hdrop | ⟨hdrop, rfl⟩
        · refine ⟨hbefore last (List.mem_of_mem_drop (i := j) (by simp [hdrop])), ?_⟩
          exact fun records h => by rw [hdrop, h]
        · refine ⟨readable_nil, fun records h => ?_⟩
          obtain ⟨old, hold⟩ := gather_isOk.2 fun data (hdata : data ∈ init) =>
            (hbefore data (List.mem_of_mem_drop (i := j) (by rwa [hdrop]))).read
          have hsame := gather_append hold (gather_single (f := readSegment F) (x := []) rfl)
          rw [h, List.append_nil] at hsame
          rw [hdrop, hold, ← hsame]
      obtain ⟨lost, hlost⟩ := gather_isOk.2 fun data hdata =>
        (hbefore data (List.mem_of_mem_take (i := j) hdata)).read
      obtain ⟨old, hold⟩ : ∃ old, gather (readSegment F) init = .ok old := by
        refine gather_isOk.2 fun data hdata => (hbefore data (List.mem_of_mem_drop (i := j) ?_)).read
        rcases hlast with hdrop | ⟨hdrop, -⟩ <;> simp [hdrop, hdata]
      obtain ⟨records, hrecords⟩ := hends.1.read
      refine ⟨lost, old ++ records, ?_, ?_⟩
      · rw [← List.take_append_drop j before]
        exact gather_append hlost (hends.2 _ (gather_append hold (gather_single hrecords)))
      · rw [List.append_assoc]
        exact gather_append hold (gather_single (readSegment_line hrecords hends.1.ends hwf hline))

/-- A limit leaves the last record. -/
theorem lastRecords_append {k : Int} (hk : 0 < k) (kept : List (Mapping F)) (entry : Mapping F) :
    ∃ rest, lastRecords k (kept ++ [entry]) = rest ++ [entry] := by
  refine ⟨kept.drop ((kept ++ [entry]).length - k.toNat), ?_⟩
  rw [lastRecords, List.drop_append_of_le_length]
  simp only [List.length_append, List.length_singleton]
  omega

/-! ## Whole runs -/

variable {H : HexDigest} {fileName : PyStr} {sys : System F}

/-- A rotation drops segments and changes none. -/
theorem rotate_readable {c : Config} {dir : Dir}
    (hindex : nextRotationIndex c.fileName dir ≤ 999999)
    (h : ∀ data ∈ contents c.fileName dir, Readable F data) :
    ∀ data ∈ contents c.fileName (applyAll dir (rotateEffects c dir)), Readable F data := by
  by_cases hempty : (dir.files.get? c.fileName).getD [] = []
  · rw [rotateEffects, if_pos hempty]
    exact h
  · cases hactive : dir.files.get? c.fileName with
    | none => exact absurd (by simp [hactive]) hempty
    | some data =>
        rw [hactive, Option.getD_some] at hempty
        obtain ⟨j, rotated, -, hshape, hdrop, -⟩ := rotate_effects hactive hempty hindex
        rw [hshape.contents_eq, hdrop, Option.toList_none, List.append_nil]
        exact fun data hdata => h data (List.mem_of_mem_drop hdata)

/-- **Every call leaves segments that can be read.** -/
theorem readable_step (h : Intact H fileName sys)
    (hread : ∀ data ∈ contents fileName sys.dir, Readable F data) (call : Call F)
    (hcall : call.Admissible fileName) (hrot : (sys.step H call).rotations ≤ 999999) :
    ∀ data ∈ contents fileName (sys.step H call).dir, Readable F data := by
  cases call with
  | reopen c env =>
      obtain ⟨rfl, -, -⟩ := hcall
      obtain ⟨gone, kept, s, -, -, hvalid, -⟩ := h.log
      cases hc : c.valid with
      | false =>
          have hopen : openLogger H c env sys.dir = (.error (.python .valueError), sys.dir) := by
            unfold openLogger
            rw [if_pos hc]
          simpa only [System.step, hopen] using hread
      | true => simpa only [System.step, openLogger_valid hvalid hc] using hread
  | record i stamp input =>
      cases hi : sys.loggers[i]? with
      | none => simpa only [System.step, hi] using hread
      | some lg =>
          obtain ⟨rfl, -, -⟩ := h.configs lg (List.mem_of_getElem? hi)
          simp only [System.step, hi, newRotations, record] at hrot ⊢
          rcases hprepare : prepare H lg sys.dir stamp input with ⟨lg', x | plan⟩
          · exact hread
          · obtain ⟨_, _, _, -, -, rfl, hplan⟩ := prepare_ok hprepare
            rw [hprepare] at hrot
            have hindex : needsRotation lg.config sys.dir plan.line = true →
                nextRotationIndex lg.config.fileName sys.dir ≤ 999999 := by
              intro hneeds
              have := h.numbers
              simp only [hneeds, if_true] at hrot
              omega
            have heffects := hplan.effects
            simp only at heffects ⊢
            rw [heffects]
            exact (full_appendEffects hindex).2.forall hread readable_nil
              fun last hlast => hlast.line hplan.built.wf hplan.encoded
  | rotate i =>
      cases hi : sys.loggers[i]? with
      | none => simpa only [System.step, hi] using hread
      | some lg =>
          obtain ⟨rfl, -, -⟩ := h.configs lg (List.mem_of_getElem? hi)
          simp only [System.step, hi] at hrot ⊢
          rcases rotate_cases lg sys.dir with hidle | ⟨data, name, -, -, hdone⟩
          · rw [hidle]
            exact hread
          · rw [hdone] at hrot ⊢
            have := h.numbers
            exact rotate_readable (by simp only [Option.isSome_some, if_true] at hrot; omega) hread

theorem readable_run (h : Intact H fileName sys)
    (hread : ∀ data ∈ contents fileName sys.dir, Readable F data) (calls : List (Call F))
    (hcalls : ∀ call ∈ calls, call.Admissible fileName)
    (hrot : (sys.run H calls).rotations ≤ 999999) :
    ∀ data ∈ contents fileName (sys.run H calls).dir, Readable F data := by
  induction calls generalizing sys with
  | nil => exact hread
  | cons call calls ih =>
      have hstep : (sys.step H call).rotations ≤ 999999 :=
        (rotations_mono H (sys.step H call) calls).trans hrot
      have hcall := hcalls call (List.mem_cons_self ..)
      exact ih (h.step call hcall hstep) (readable_step h hread call hcall hstep)
        (fun x hx => hcalls x (List.mem_cons_of_mem _ hx)) hrot

/-- **In every run, `iter_records` reads the log.** -/
theorem readable_of_every_run (H : HexDigest) (fileName : PyStr) (calls : List (Call F))
    (hcalls : ∀ call ∈ calls, call.Admissible fileName)
    (hrot : (System.run H {} calls).rotations ≤ 999999) :
    ∀ data ∈ contents fileName (System.run H {} calls).dir, Readable F data :=
  readable_run (intact_start H fileName)
    (fun data hdata => absurd hdata (by rw [contents_start]; exact List.not_mem_nil)) calls hcalls
    hrot

end Reading

end Elyra.Audit
