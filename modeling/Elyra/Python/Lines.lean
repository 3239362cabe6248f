import Elyra.Python.Text

set_option autoImplicit false

/-! # Lines of a byte string

`bytes.splitlines()`, which ends a line at `\n`, `\r` or `\r\n`, and `bytes.strip()` as far as it
decides whether a line is blank. Text that ends with a line feed splits independently of what
follows it (`splitlines_append`): appending a line to a file leaves the lines before it alone.

A stream of lines that all end with a line feed, and what comes after the last one, is `cutLines`;
`splitLf` is `bytes.split(b"\n", 1)`, the step by which a reader takes such a stream apart. -/

namespace Elyra.Python

/-- A line feed. -/
abbrev lf : UInt8 := 10

/-- A carriage return. -/
abbrev cr : UInt8 := 13

/-- The loop of `splitlines`; `acc` is the current line, last byte first. -/
def splitlinesAux : Bytes → Bytes → List Bytes
  | acc, [] => if acc = [] then [] else [acc.reverse]
  | acc, [b] => if b = lf ∨ b = cr then [acc.reverse] else [(b :: acc).reverse]
  | acc, b :: b' :: rest =>
      if b = cr ∧ b' = lf then acc.reverse :: splitlinesAux [] rest
      else if b = lf ∨ b = cr then acc.reverse :: splitlinesAux [] (b' :: rest)
      else splitlinesAux (b :: acc) (b' :: rest)

attribute [grind =] splitlinesAux

/-- `data.splitlines()`. -/
def splitlines (data : Bytes) : List Bytes := splitlinesAux [] data

/-- The bytes `bytes.strip()` removes. -/
def isSpaceByte (b : UInt8) : Bool := b == 32 || (9 ≤ b && b ≤ 13)

/-- `not line.strip()`. -/
def blank (line : Bytes) : Bool := line.all isSpaceByte

/-- `data.endswith(b"\n")`. -/
def endsWithLf (data : Bytes) : Bool := data.getLast? == some lf

theorem endsWithLf_append {a b : Bytes} (hb : endsWithLf b = true) : endsWithLf (a ++ b) = true := by
  simp only [endsWithLf, beq_iff_eq] at hb ⊢
  rw [List.getLast?_append, hb]
  rfl

/-- There is at most one line more than there are bytes. -/
theorem splitlinesAux_length (acc data : Bytes) :
    (splitlinesAux acc data).length ≤ data.length + 1 := by
  induction acc, data using splitlinesAux.induct with
  | case1 => simp [splitlinesAux]
  | case2 => simp [splitlinesAux, *]
  | case3 acc b hb => simp [splitlinesAux, hb]
  | case4 acc b hb => simp [splitlinesAux, hb]
  | case5 acc b b' rest hcrlf ih =>
      rw [splitlinesAux, if_pos hcrlf]
      simp only [List.length_cons]
      omega
  | case6 acc b b' rest hcrlf hend ih =>
      rw [splitlinesAux, if_neg hcrlf, if_pos hend]
      simp only [List.length_cons] at ih ⊢
      omega
  | case7 acc b b' rest hcrlf hend ih =>
      rw [splitlinesAux, if_neg hcrlf, if_neg hend]
      simp only [List.length_cons] at ih ⊢
      omega

theorem splitlines_length (data : Bytes) : (splitlines data).length ≤ data.length + 1 :=
  splitlinesAux_length [] data

/-- Splitting at a text that ends with a line feed. The induction follows the three shapes of the
    rest of the text: a `\r\n` pair is never torn, as the left text ends with `\n`. -/
theorem splitlinesAux_append (acc a b : Bytes) (ha : endsWithLf a = true) :
    splitlinesAux acc (a ++ b) = splitlinesAux acc a ++ splitlinesAux [] b := by
  induction acc, a using splitlinesAux.induct with
  | case1 => exact absurd ha (by simp [endsWithLf])
  | case2 acc => exact absurd ha (by simp [endsWithLf])
  | case3 acc c hc =>
      have hc' : c = lf := by simpa [endsWithLf] using ha
      subst hc'
      cases b with
      | nil => simp [splitlinesAux]
      | cons x b =>
          have hne : ¬ lf = cr := by decide
          simp [splitlinesAux, hne]
  | case4 acc c hc =>
      have hc' : c = lf := by simpa [endsWithLf] using ha
      exact absurd (Or.inl hc') hc
  | case5 acc c c' rest h ih =>
      obtain ⟨rfl, rfl⟩ := h
      cases rest with
      | nil => cases b <;> simp [splitlinesAux]
      | cons x rest =>
          have ha' : endsWithLf (x :: rest) = true := by simpa [endsWithLf] using ha
          have hrest := ih ha'
          have hpair : ∀ r, splitlinesAux acc (cr :: lf :: r) = acc.reverse :: splitlinesAux [] r :=
            fun r => by simp [splitlinesAux]
          simp only [List.cons_append] at hrest ⊢
          rw [hpair, hpair, hrest, List.cons_append]
  | case6 acc c c' rest h1 h2 ih =>
      have ha' : endsWithLf (c' :: rest) = true := by simpa [endsWithLf] using ha
      have hrest := ih ha'
      simp only [List.cons_append] at hrest ⊢
      rw [splitlinesAux, splitlinesAux, if_neg h1, if_pos h2, if_neg h1, if_pos h2, hrest,
        List.cons_append]
  | case7 acc c c' rest h1 h2 ih =>
      have ha' : endsWithLf (c' :: rest) = true := by simpa [endsWithLf] using ha
      have hrest := ih ha'
      simp only [List.cons_append] at hrest ⊢
      rw [splitlinesAux, splitlinesAux, if_neg h1, if_neg h2, if_neg h1, if_neg h2, hrest]

/-- **What precedes a line feed splits on its own.** -/
theorem splitlines_append {a : Bytes} (ha : a = [] ∨ endsWithLf a = true) (b : Bytes) :
    splitlines (a ++ b) = splitlines a ++ splitlines b := by
  rcases ha with rfl | ha
  · simp [splitlines, splitlinesAux]
  · exact splitlinesAux_append [] a b ha

theorem splitlinesAux_line (acc l : Bytes) (hl : ∀ b ∈ l, b ≠ lf ∧ b ≠ cr) :
    splitlinesAux acc (l ++ [lf]) = [acc.reverse ++ l] := by
  induction l generalizing acc with
  | nil => simp [splitlinesAux]
  | cons c l ih =>
      have hc := hl c (List.mem_cons_self ..)
      have hrest := ih (c :: acc) (fun b hb => hl b (List.mem_cons_of_mem _ hb))
      cases l with
      | nil => simp_all [splitlinesAux]
      | cons c' l => simp_all [splitlinesAux]

/-- A line without line ends, and its line feed. -/
theorem splitlines_line {l : Bytes} (hl : ∀ b ∈ l, b ≠ lf ∧ b ≠ cr) :
    splitlines (l ++ [lf]) = [l] := by
  simpa [splitlines] using splitlinesAux_line [] l hl

/-! ## Streams of lines -/

/-- The lines, each with its line feed. -/
def joinLines (lines : List Bytes) : Bytes := lines.flatMap (· ++ [lf])

/-- The lines that a line feed ends, and the rest. -/
def cutLines : Bytes → List Bytes × Bytes
  | [] => ([], [])
  | b :: data =>
      if b = lf then ([] :: (cutLines data).1, (cutLines data).2)
      else
        match cutLines data with
        | ([], rest) => ([], b :: rest)
        | (line :: lines, rest) => ((b :: line) :: lines, rest)

/-- `data.split(b"\n", 1)`; `none` where there is no line feed. -/
def splitLf : Bytes → Option (Bytes × Bytes)
  | [] => none
  | b :: data =>
      if b = lf then some ([], data)
      else (splitLf data).map fun p => (b :: p.1, p.2)

attribute [grind =] cutLines splitLf

@[simp] theorem joinLines_nil : joinLines [] = [] := rfl

@[simp] theorem joinLines_cons (line : Bytes) (lines : List Bytes) :
    joinLines (line :: lines) = line ++ lf :: joinLines lines := by
  simp [joinLines]

theorem joinLines_append (a b : List Bytes) : joinLines (a ++ b) = joinLines a ++ joinLines b := by
  simp [joinLines]

theorem joinLines_cutLines (data : Bytes) :
    joinLines (cutLines data).1 ++ (cutLines data).2 = data := by
  induction data with
  | nil => rfl
  | cons b data ih =>
      simp only [cutLines]
      split
      · next hb => simp [ih, hb]
      · split
        · next h => simpa [h] using ih
        · next h => simpa [h] using ih

theorem lf_not_mem_cutLines (data : Bytes) :
    lf ∉ (cutLines data).2 ∧ ∀ line ∈ (cutLines data).1, lf ∉ line := by
  induction data with
  | nil => simp [cutLines]
  | cons b data ih =>
      simp only [cutLines]
      split
      · exact ⟨ih.1, by simpa using ih.2⟩
      · next hb =>
        split
        · next h =>
          simp only [h] at ih
          exact ⟨by simpa [Ne.symm hb] using ih.1, by simp⟩
        · next h =>
          simp only [h, List.mem_cons, forall_eq_or_imp] at ih
          exact ⟨ih.1, by simpa [Ne.symm hb] using ih.2⟩

theorem cutLines_line {line : Bytes} (h : lf ∉ line) (data : Bytes) :
    cutLines (line ++ lf :: data) = (line :: (cutLines data).1, (cutLines data).2) := by
  induction line with
  | nil => simp [cutLines]
  | cons b line ih =>
      rw [List.mem_cons, not_or] at h
      simp only [List.cons_append, cutLines, if_neg (Ne.symm h.1), ih h.2]

theorem cutLines_rest {rest : Bytes} (h : lf ∉ rest) : cutLines rest = ([], rest) := by
  induction rest with
  | nil => rfl
  | cons b rest ih =>
      rw [List.mem_cons, not_or] at h
      simp only [cutLines, if_neg (Ne.symm h.1), ih h.2]

/-- The lines of a stream are determined by it. -/
theorem cutLines_joinLines {lines : List Bytes} {rest : Bytes} (hlines : ∀ line ∈ lines, lf ∉ line)
    (hrest : lf ∉ rest) : cutLines (joinLines lines ++ rest) = (lines, rest) := by
  induction lines with
  | nil => exact cutLines_rest hrest
  | cons line lines ih =>
      have hcut := ih fun l hl => hlines l (List.mem_cons_of_mem _ hl)
      rw [joinLines_cons, List.append_assoc, List.cons_append,
        cutLines_line (hlines line (List.mem_cons_self ..)), hcut]

/-- More data continues the rest. -/
theorem cutLines_append (a b : Bytes) :
    cutLines (a ++ b) =
      ((cutLines a).1 ++ (cutLines ((cutLines a).2 ++ b)).1, (cutLines ((cutLines a).2 ++ b)).2) := by
  have ha := joinLines_cutLines a
  have hb := joinLines_cutLines ((cutLines a).2 ++ b)
  have hab : a ++ b = joinLines ((cutLines a).1 ++ (cutLines ((cutLines a).2 ++ b)).1) ++
      (cutLines ((cutLines a).2 ++ b)).2 := by
    rw [joinLines_append, List.append_assoc, hb, ← List.append_assoc, ha]
  rw [hab]
  refine cutLines_joinLines ?_ (lf_not_mem_cutLines _).1
  intro line hline
  rcases List.mem_append.1 hline with hline | hline
  · exact (lf_not_mem_cutLines a).2 line hline
  · exact (lf_not_mem_cutLines _).2 line hline

theorem splitLf_eq_none {data : Bytes} : splitLf data = none ↔ lf ∉ data := by
  induction data with
  | nil => simp [splitLf]
  | cons b data ih =>
      simp only [splitLf]
      split
      · next hb => simp [hb]
      · next hb => simp [ih, Ne.symm hb]

theorem splitLf_eq_some {data line rest : Bytes} (h : splitLf data = some (line, rest)) :
    data = line ++ lf :: rest ∧ lf ∉ line := by
  induction data generalizing line with
  | nil => simp [splitLf] at h
  | cons b data ih =>
      simp only [splitLf] at h
      split at h
      · next hb =>
        simp only [Option.some.injEq, Prod.mk.injEq] at h
        simp [← h.1, h.2, hb]
      · next hb =>
        obtain ⟨⟨line', rest'⟩, hsplit, heq⟩ := Option.map_eq_some_iff.1 h
        simp only [Prod.mk.injEq] at heq
        obtain ⟨rfl, rfl⟩ := heq
        obtain ⟨hdata, hline⟩ := ih hsplit
        exact ⟨by simp [hdata], by simp [hline, Ne.symm hb]⟩

theorem splitLf_line {line : Bytes} (h : lf ∉ line) (rest : Bytes) :
    splitLf (line ++ lf :: rest) = some (line, rest) := by
  induction line with
  | nil => simp [splitLf]
  | cons b line ih =>
      rw [List.mem_cons, not_or] at h
      simp only [List.cons_append, splitLf, if_neg (Ne.symm h.1), ih h.2, Option.map_some]

end Elyra.Python
