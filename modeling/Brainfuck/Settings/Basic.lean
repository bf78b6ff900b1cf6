import Brainfuck.Fault
import Brainfuck.Program.Brackets
import Brainfuck.Settings.Value

/-! # Settings

The settings of a machine are the size of its tape and cells, a limit on its steps, how it skips
loops and whether it decodes the program in advance. Settings that exist are valid: the bounds are
kept in the type, and a draft that misses one of them is refused with the first bound it misses. -/
namespace Brainfuck

/-- Valid settings of a machine. -/
structure Settings where
  tapeLength : Nat := 30000
  cellMax : Nat := 255
  stepLimit : Option Nat := none
  skipScan : SkipScan := .nested
  precompile : Bool := false
  tapeLength_pos : 0 < tapeLength := by decide
  cellMax_pos : 0 < cellMax := by decide
  stepLimit_pos : ∀ n ∈ stepLimit, 0 < n := by simp
  deriving DecidableEq, Repr

namespace SkipScan

def word : SkipScan → String
  | nested => "nested"
  | legacy => "legacy"

def ofWord? (w : String) : Option SkipScan :=
  if w = "nested" then some nested else if w = "legacy" then some legacy else none

@[simp] theorem ofWord?_word (s : SkipScan) : ofWord? s.word = some s := by
  cases s <;> rfl

end SkipScan

namespace Settings

def standard : Settings := {}

inductive Error
  | tapeLength (given : Int)
  | cellMax (given : Int)
  | stepLimit (given : Int)
  | skipScan (given : String)
  | unknownKey (key : Value)
  | invalidValue (field : String) (given : Value)
  | noMapping (file : String)
  | noSectionMapping (file : String)
  deriving Repr

/-- Whether an error speaks of a number with more digits than are written. -/
def Error.hasLongNumber : Error → Bool
  | tapeLength n | cellMax n | stepLimit n => !Numeral.isWritten (some Numeral.maxDigits) n
  | unknownKey v | invalidValue _ v => v.hasLongNumber
  | skipScan _ | noMapping _ | noSectionMapping _ => false

def Error.text : Error → String
  | tapeLength n => s!"tape_length must be at least 1, got {n}"
  | cellMax n => s!"cell_max must be at least 1, got {n}"
  | stepLimit n => s!"step_limit must be positive or unset, got {n}"
  | skipScan w => s!"skip_scan must be one of ('nested', 'legacy'), got {Text.quoted w}"
  | unknownKey k => s!"unknown configuration key {k.quoted}"
  | invalidValue field v => s!"invalid value for {field}: {v.quoted}"
  | noMapping file => s!"{file}: expected a mapping at the top level"
  | noSectionMapping file => s!"{file}: 'vm' must be a mapping"

/-- What is said of an error. A number in it that is too long to be written is a fault of its own. -/
def Error.message (e : Error) : Except Fault String :=
  if e.hasLongNumber then .error .tooManyDigits else .ok e.text

/-- Settings that are not yet known to be valid. -/
structure Draft where
  tapeLength : Int := 30000
  cellMax : Int := 255
  stepLimit : Option Int := none
  skipScan : String := "nested"
  precompile : Bool := false
  deriving DecidableEq, Repr

def draft (s : Settings) : Draft where
  tapeLength := s.tapeLength
  cellMax := s.cellMax
  stepLimit := s.stepLimit.map Int.ofNat
  skipScan := s.skipScan.word
  precompile := s.precompile

/-- A limit on steps is positive or absent. -/
def checkLimit : Option Int → Except Error { limit : Option Nat // ∀ n ∈ limit, 0 < n }
  | none => .ok ⟨none, by simp⟩
  | some n =>
    if h : 1 ≤ n then .ok ⟨some n.toNat, by simp; omega⟩ else .error (.stepLimit n)

/-- The settings of a draft, if it is valid. -/
def Draft.check (d : Draft) : Except Error Settings :=
  if hl : 1 ≤ d.tapeLength then
    if hc : 1 ≤ d.cellMax then
      match checkLimit d.stepLimit with
      | .error e => .error e
      | .ok ⟨limit, hlimit⟩ =>
        match SkipScan.ofWord? d.skipScan with
        | none => .error (.skipScan d.skipScan)
        | some scan =>
          .ok {
            tapeLength := d.tapeLength.toNat
            cellMax := d.cellMax.toNat
            stepLimit := limit
            skipScan := scan
            precompile := d.precompile
            tapeLength_pos := by omega
            cellMax_pos := by omega
            stepLimit_pos := hlimit }
    else .error (.cellMax d.cellMax)
  else .error (.tapeLength d.tapeLength)

end Settings

end Brainfuck
