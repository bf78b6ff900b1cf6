import Brainfuck.Diagnostic
import Brainfuck.Fault
import Brainfuck.Program.Operator

/-! # Reading a program byte by byte

A reader decodes one operator at a time from a text that is held in memory or in a file. It keeps the
offset of the next byte, the location reached so far and the last byte read. A text in memory is open
from the start and stays open; a file is opened and closed, and decoding starts again at its first
byte each time it is opened. Offset and location are separate: moving to an offset changes the
location only if the new one is given. -/
namespace Brainfuck

/-- Where the text of a program is kept. A file that does not exist holds no text, and a locked one is
there but must not be read. -/
inductive Medium
  | nowhere
  | memory (text : Array UInt8)
  | file (name : String) (text : Option (Array UInt8))
  | locked (name : String)
  deriving DecidableEq, Repr

namespace Medium

def text : Medium → Array UInt8
  | nowhere => #[]
  | memory text => text
  | file _ text => text.getD #[]
  | locked _ => #[]

end Medium

/-- A position in a program text. No offset means that the text is not open. -/
structure Reader where
  medium : Medium
  offset : Option Nat := none
  location : Location := {}
  lastByte : Option UInt8 := none
  deriving DecidableEq, Repr

/-- What came of looking for the next operator: the remarks made on the way, and the operator unless
the text ended first. -/
structure Decoded (α : Type) where
  source : α
  reports : List Diagnostic
  operator : Option Operator
  deriving DecidableEq, Repr

namespace Reader

/-- A reader of a text in memory. -/
def ofText (text : Array UInt8) : Reader := { medium := .memory text, offset := some 0 }

/-- A reader of a file, which is not yet open. -/
def ofFile (name : String) (text : Option (Array UInt8)) : Reader := { medium := .file name text }

/-- A reader of a file that must not be read. -/
def ofLocked (name : String) : Reader := { medium := .locked name }

/-- A reader of no text at all, which can never be opened. -/
def empty : Reader := { medium := .nowhere }

def isOpen (r : Reader) : Bool := r.offset.isSome

/-- Opens the text. An open text is left as it is. -/
def opened (r : Reader) : Except Fault Reader :=
  match r.offset, r.medium with
  | none, .file name none => .error (.missingFile name)
  | none, .locked name => .error (.permissionDenied name)
  | none, .file _ (some _) => .ok { r with offset := some 0 }
  | _, _ => .ok r

/-- Closes a file. A text in memory stays open. -/
def closed (r : Reader) : Reader :=
  match r.medium with
  | .file .. => { r with offset := none }
  | _ => r

/-- The remark made when a text that is not open is used. -/
def unopened (r : Reader) : Diagnostic := Problem.unopened.diagnosticAt r.location

/-- What a byte that spells no operator is reported as, if it is reported. -/
def problemOf (b : UInt8) : Option Problem :=
  if isLayout b then none
  else if b = 35 then some .comment
  else some (.unsupported b)

/-- The reader after one more byte, read at an offset. -/
def advance (r : Reader) (offset : Nat) (b : UInt8) : Reader :=
  { r with offset := some (offset + 1), location := r.location.advance b, lastByte := some b }

/-- Decodes from an offset up to and including the next operator. -/
def decodeFrom (text : Array UInt8) (r : Reader) (offset : Nat) : Decoded Reader :=
  if h : offset < text.size then
    let b := text[offset]
    let r := r.advance offset b
    match Operator.ofByte? b with
    | some op => ⟨r, [], some op⟩
    | none =>
      let rest := decodeFrom text r (offset + 1)
      match problemOf b with
      | some p => { rest with reports := p.diagnosticAt r.location :: rest.reports }
      | none => rest
  else ⟨r, [], none⟩
termination_by text.size - offset

/-- Decodes the next operator. A text that is not open reads as ended. -/
def next (r : Reader) : Decoded Reader :=
  match r.offset with
  | none => ⟨r, [r.unopened], none⟩
  | some offset => decodeFrom r.medium.text r offset

/-- The offset of the next byte, which is zero in a text that is not open. -/
def position (r : Reader) : Int × List Diagnostic :=
  match r.offset with
  | none => (0, [r.unopened])
  | some offset => (offset, [])

/-- Whether an offset can be told to a text. It has to fit a word, as every offset of a byte does: no
text is longer than a word can count. -/
def canTell (r : Reader) (offset : Int) : Bool :=
  fitsWord offset || (0 ≤ offset && offset ≤ r.medium.text.size)

/-- Moves to an offset, which may lie beyond the end. -/
def seek (r : Reader) (offset : Int) (location : Option Location) :
    Except Fault (Reader × List Diagnostic) :=
  match r.offset with
  | none => .ok (r, [r.unopened])
  | some _ =>
    if !r.canTell offset then .error .offsetTooLarge
    else if offset < 0 then
      match r.medium with
      | .file .. => .error .invalidOffset
      | _ => .error (.negativeOffset offset)
    else
      .ok ({ r with offset := some offset.toNat, location := location.getD r.location }, [])

def remaining (r : Reader) : Nat :=
  match r.offset with
  | none => 0
  | some offset => r.medium.text.size - offset

/-- Decoding an operator reads at least one byte. -/
theorem decodeFrom_remaining (text : Array UInt8) (r : Reader) (offset : Nat)
    (htext : r.medium.text = text) (hop : (decodeFrom text r offset).operator.isSome) :
    (decodeFrom text r offset).source.remaining < text.size - offset := by
  fun_induction decodeFrom text r offset with
  | case1 r offset h b r' op hb =>
    subst htext
    simp only [remaining, r', advance]
    omega
  | case2 r offset h b r' hb rest p hp ih =>
    have := ih htext hop
    simp only [rest] at this ⊢
    omega
  | case3 r offset h b r' hb rest hp ih =>
    have := ih htext hop
    simp only [rest] at this ⊢
    omega
  | case4 r offset h => simp at hop

/-- Drawing an operator leaves fewer bytes. -/
theorem next_remaining (r : Reader) (h : r.next.operator.isSome) :
    r.next.source.remaining < r.remaining := by
  unfold next at h ⊢
  cases ho : r.offset with
  | none => simp [ho] at h
  | some offset =>
    simp only [ho] at h ⊢
    have := decodeFrom_remaining r.medium.text r offset rfl h
    simpa [remaining, ho] using this

end Reader

end Brainfuck
