import Elyra.Python.Text

set_option autoImplicit false

/-! # UTF-8 with replacements

`raw.decode("utf-8", errors="replace")`: where a sequence breaks off, what there is of it becomes one
`U+FFFD`, and decoding goes on with the octet that does not fit. -/

namespace Elyra.Python

/-- A range of octets, the upper end exclusive. -/
abbrev OctetRange := Nat × Nat

/-- The octets that may follow the first one of a sequence, in order; `none` where no sequence begins
    with it. Overlong forms and surrogates are left out by the range of the second octet. -/
def following (first : Nat) : Option (List OctetRange) :=
  let cont : OctetRange := (0x80, 0xC0)
  if first < 0x80 then some []
  else if first < 0xC2 then none
  else if first < 0xE0 then some [cont]
  else if first = 0xE0 then some [(0xA0, 0xC0), cont]
  else if first = 0xED then some [(0x80, 0xA0), cont]
  else if first < 0xF0 then some [cont, cont]
  else if first = 0xF0 then some [(0x90, 0xC0), cont, cont]
  else if first < 0xF4 then some [cont, cont, cont]
  else if first = 0xF4 then some [(0x80, 0x90), cont, cont]
  else none

/-- The part of the first octet that belongs to the code point. -/
def leadingBits (first : Nat) : Nat :=
  if first < 0x80 then first
  else if first < 0xE0 then first % 32
  else if first < 0xF0 then first % 16
  else first % 8

/-- A sequence that has begun: its bits so far, and the octets that may follow. -/
abbrev Sequence := Nat × List OctetRange

/-- What an octet decodes to where no sequence is open, and the sequence it opens. -/
def beginSequence (b : Nat) : PyStr × Option Sequence :=
  match following b with
  | none => ([0xFFFD], none)
  | some [] => ([leadingBits b], none)
  | some ranges => ([], some (leadingBits b, ranges))

/-- The same for an octet in a sequence. -/
def continueSequence (bits : Nat) (ranges : List OctetRange) (b : Nat) : PyStr × Option Sequence :=
  match ranges with
  | [] => beginSequence b
  | range :: rest =>
      if range.1 ≤ b ∧ b < range.2 then
        let bits := bits * 64 + b % 64
        match rest with
        | [] => ([bits], none)
        | rest => ([], some (bits, rest))
      else
        let (text, opened) := beginSequence b
        (0xFFFD :: text, opened)

def replaceFrom : Option Sequence → Bytes → PyStr
  | none, [] => []
  | some _, [] => [0xFFFD]
  | opened, b :: bs =>
      let (text, opened) :=
        match opened with
        | none => beginSequence b.toNat
        | some (bits, ranges) => continueSequence bits ranges b.toNat
      text ++ replaceFrom opened bs

/-- `raw.decode("utf-8", errors="replace")` -/
def decodeReplace (raw : Bytes) : PyStr := replaceFrom none raw

/-- A surrogate is three errors, a cut-off sequence is one. -/
example : decodeReplace [0x41, 0xED, 0xA0, 0x80, 0xF0, 0x9F, 0x98, 0x42] =
    [0x41, 0xFFFD, 0xFFFD, 0xFFFD, 0xFFFD, 0x42] := by decide

end Elyra.Python
