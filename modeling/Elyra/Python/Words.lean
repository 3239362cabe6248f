import Elyra.Python.Builtins

set_option autoImplicit false

/-! # Lines and words of a text

`read_text`, `str.splitlines()`, `str.split()` and `str.split(None, 1)`. -/

namespace Elyra.Python

/-- `data.decode("utf-8")` with the line ends of a text file, all of which become a line feed. -/
def universalNewlines : PyStr → PyStr
  | [] => []
  | 13 :: 10 :: s => 10 :: universalNewlines s
  | c :: s => (if c = 13 then 10 else c) :: universalNewlines s

/-- `Path.read_text(encoding="utf-8")` of a file with these bytes; `none` is the
    `UnicodeDecodeError`. -/
def readText (data : Bytes) : Option PyStr := (decodeUtf8 data).map universalNewlines

/-- The characters `str.splitlines` ends a line at. -/
def isLineEnd (c : Nat) : Bool :=
  (10 ≤ c && c ≤ 13) || (28 ≤ c && c ≤ 30) || c == 0x85 || c == 0x2028 || c == 0x2029

/-- The loop of `textLines`; `acc` is the current line, last character first. -/
def textLinesAux : PyStr → PyStr → List PyStr
  | acc, [] => if acc = [] then [] else [acc.reverse]
  | acc, 13 :: 10 :: s => acc.reverse :: textLinesAux [] s
  | acc, c :: s => if isLineEnd c then acc.reverse :: textLinesAux [] s else textLinesAux (c :: acc) s

/-- `text.splitlines()`. -/
def textLines (s : PyStr) : List PyStr := textLinesAux [] s

/-- `text.split()`. -/
def words (s : PyStr) : List PyStr := (s.splitOnP isSpace).filter fun w => !w.isEmpty

/-- The part of a text after its first word and the blanks that follow it. -/
def afterWord (s : PyStr) : PyStr :=
  ((s.dropWhile isSpace).dropWhile fun c => !isSpace c).dropWhile isSpace

/-- `text.removeprefix(p)`. -/
def removePrefix (p s : PyStr) : PyStr := if p.isPrefixOf s then s.drop p.length else s

/-- `text.lower()` on the ASCII letters. -/
def lowerAscii (s : PyStr) : PyStr := s.map fun c => if 65 ≤ c ∧ c ≤ 90 then c + 32 else c

end Elyra.Python
