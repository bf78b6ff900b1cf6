import Brainfuck.Program.Brackets
import Brainfuck.Program.Reader

/-! # Programs decoded in advance

A listing holds the operators of a program with the place and the byte of each, the place where the
program ends and the table of its brackets. A cursor runs over a listing by index, so that a skipped
loop is left in one jump. -/
namespace Brainfuck

/-- A decoded operator with its place and its byte. -/
structure Instruction where
  operator : Operator
  location : Location
  byte : Option UInt8
  deriving DecidableEq, Repr

/-- A whole program, decoded. -/
structure Listing where
  code : Array Instruction
  endLocation : Location
  partners : Array (Option Nat)
  deriving DecidableEq, Repr

namespace Listing

def ofInstructions (scan : SkipScan) (code : List Instruction) (endLocation : Location) : Listing where
  code := code.toArray
  endLocation := endLocation
  partners := Brackets.table scan (code.map (·.operator))

/-- All operators up to the end of the text, with the reader there and the remarks on the way. -/
def drain (r : Reader) : Reader × List Diagnostic × List Instruction :=
  match h : r.next with
  | ⟨source, reports, none⟩ => (source, reports, [])
  | ⟨source, reports, some op⟩ =>
    have : source.remaining < r.remaining := by simpa [h] using r.next_remaining
    let (last, more, code) := drain source
    (last, reports ++ more, ⟨op, source.location, source.lastByte⟩ :: code)
termination_by r.remaining

/-- The listing of what a reader has still to read, and the remarks made in decoding it. -/
def ofReader (scan : SkipScan) (r : Reader) : Listing × List Diagnostic :=
  let (last, reports, code) := drain r
  (ofInstructions scan code last.location, reports)

def ofText (scan : SkipScan) (text : Array UInt8) : Listing × List Diagnostic :=
  ofReader scan (.ofText text)

/-- The pairs of matching brackets by ascending index. -/
def pairs (l : Listing) : List (Nat × Nat) :=
  l.partners.toList.zipIdx.filterMap fun (partner, i) => partner.map (i, ·)

end Listing

/-- A position in a listing: the index of the next instruction, and the place and the byte of the
last one taken. -/
structure Cursor where
  listing : Listing
  index : Int := 0
  location : Location := {}
  lastByte : Option UInt8 := none
  deriving DecidableEq, Repr

namespace Cursor

def start (l : Listing) : Cursor := { listing := l }

/-- The instruction at the index, where a negative index counts from the end. -/
def instruction? (c : Cursor) : Option Instruction :=
  let i := if c.index < 0 then c.index + c.listing.code.size else c.index
  if i < 0 then none else c.listing.code[i.toNat]?

/-- Takes the next instruction. At the end of the program the place is the end of the text. -/
def next (c : Cursor) : Except Fault (Decoded Cursor) :=
  if c.listing.code.size ≤ c.index then
    .ok ⟨{ c with location := c.listing.endLocation }, [], none⟩
  else
    match c.instruction? with
    | some i =>
      .ok ⟨{ c with index := c.index + 1, location := i.location, lastByte := i.byte }, [],
        some i.operator⟩
    | none => .error (if fitsWord c.index then .noSuchInstruction else .instructionIndexTooLarge)

/-- Moves to an index. Unless it is given, the place is that of the instruction just before. -/
def seek (c : Cursor) (index : Int) (location : Option Location) : Cursor :=
  let before := if index ≤ 0 then none else c.listing.code[(index - 1).toNat]?
  { c with
    index := index
    location := location.getD ((before.map (·.location)).getD c.location) }

/-- The index after the bracket that closes the one just before a position. -/
def matchingEnd (c : Cursor) (position : Int) : Option Int :=
  if position ≤ 0 then none
  else (c.listing.partners[(position - 1).toNat]?).join.map fun j => j + 1

def remaining (c : Cursor) : Nat := (c.listing.code.size - c.index).toNat

/-- Taking an instruction leaves fewer of them. -/
theorem next_remaining {c : Cursor} {d : Decoded Cursor} (h : c.next = .ok d)
    (hop : d.operator.isSome) : d.source.remaining < c.remaining := by
  unfold next at h
  split at h
  · cases h
    simp at hop
  · split at h
    · cases h
      simp only [remaining]
      omega
    · simp at h

end Cursor

end Brainfuck
