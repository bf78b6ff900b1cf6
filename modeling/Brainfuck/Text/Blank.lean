/-! # Blank characters and the ends of a text

Blank characters are the separators of the Unicode tables together with the control characters that
stand for spacing or for the end of a record. Stripping removes blanks from both ends only. -/
namespace Brainfuck.Text

def isBlank (c : Char) : Bool :=
  let n := c.toNat
  (9 ≤ n && n ≤ 13) || (28 ≤ n && n ≤ 32) || n == 0x85 || n == 0xA0 || n == 0x1680
    || (0x2000 ≤ n && n ≤ 0x200A) || n == 0x2028 || n == 0x2029 || n == 0x202F || n == 0x205F
    || n == 0x3000

/-- A text without the characters at its end that satisfy `p`. -/
def stripEndWhile (p : Char → Bool) (text : List Char) : List Char :=
  (text.reverse.dropWhile p).reverse

/-- A text without the blanks at its two ends. -/
def strip (text : List Char) : List Char :=
  stripEndWhile isBlank (text.dropWhile isBlank)

/-- The first line of a text together with its line break, and what follows it. -/
def splitLine : List Char → List Char × List Char
  | [] => ([], [])
  | c :: rest =>
    if c = '\n' then ([c], rest)
    else
      let (line, following) := splitLine rest
      (c :: line, following)

/-- Nothing of a text is lost when its first line is split off. -/
theorem splitLine_append (text : List Char) :
    (splitLine text).1 ++ (splitLine text).2 = text := by
  induction text with
  | nil => rfl
  | cons c rest ih =>
    by_cases h : c = '\n'
    · simp [splitLine, h]
    · simpa [splitLine, h] using ih

/-- A text that is not empty has a first line that is not empty. -/
theorem splitLine_length_lt (c : Char) (rest : List Char) :
    (splitLine (c :: rest)).2.length < (c :: rest).length := by
  have h := congrArg List.length (splitLine_append (c :: rest))
  have h' : 0 < (splitLine (c :: rest)).1.length := by
    by_cases hc : c = '\n' <;> simp [splitLine, hc]
  simp only [List.length_append] at h
  omega

/-- A text without what follows its last line break. -/
def wholeLines (text : List Char) : List Char := stripEndWhile (· != '\n') text

/-- A line without the carriage returns and line feeds at its end. -/
def chomp (line : List Char) : List Char :=
  stripEndWhile (fun c => c == '\r' || c == '\n') line

end Brainfuck.Text
