import Brainfuck.Settings.Basic

/-! # Layers of settings

Settings are changed by layers of named values. A value is brought into the form of its field, where
whole numbers and truth values may be written as texts, and a value of null changes nothing. A layer
is taken whole or refused whole. -/
namespace Brainfuck

namespace Settings

inductive Field
  | tapeLength
  | cellMax
  | stepLimit
  | skipScan
  | precompile
  deriving DecidableEq, Repr

namespace Field

def all : List Field := [tapeLength, cellMax, stepLimit, skipScan, precompile]

def name : Field → String
  | tapeLength => "tape_length"
  | cellMax => "cell_max"
  | stepLimit => "step_limit"
  | skipScan => "skip_scan"
  | precompile => "precompile"

/-- The name of a field in the environment. -/
def environmentName : Field → String
  | tapeLength => "BFVM_TAPE_LENGTH"
  | cellMax => "BFVM_CELL_MAX"
  | stepLimit => "BFVM_STEP_LIMIT"
  | skipScan => "BFVM_SKIP_SCAN"
  | precompile => "BFVM_PRECOMPILE"

/-- The field that a key names. -/
def ofKey? (key : Value) : Option Field :=
  all.find? fun f => key.sameKey (.text f.name)

end Field

/-- Values that name settings, in order. -/
abbrev Layer := List (Value × Value)

/-- A whole number given as such or as a text. -/
def wholeNumber? : Value → Option Int
  | .int n => some n
  | .text s => (Numeral.parseInt s).toOption
  | _ => none

/-- A value as a text without blanks around it and in lower case. -/
def word (v : Value) : String := String.ofList (Text.lower (Text.strip v.plain.toList))

/-- A truth value given as such or by one of the words for it. -/
def truth? : Value → Option Bool
  | .bool b => some b
  | v =>
    let w := word v
    if w ∈ ["1", "true", "yes", "on"] then some true
    else if w ∈ ["0", "false", "no", "off", ""] then some false
    else none

/-- A draft with one field changed, unless the value does not fit the field. A value with a number that is
too long to be written is no word. -/
def Draft.set? (d : Draft) (field : Field) (v : Value) : Option Draft :=
  match field with
  | .tapeLength => (wholeNumber? v).map fun n => { d with tapeLength := n }
  | .cellMax => (wholeNumber? v).map fun n => { d with cellMax := n }
  | .stepLimit => (wholeNumber? v).map fun n => { d with stepLimit := some n }
  | .skipScan => if v.hasLongNumber then none else some { d with skipScan := word v }
  | .precompile => (truth? v).map fun b => { d with precompile := b }

/-- A draft with the values of a layer, taken in order. The first key that names no field and the
first value that does not fit are refused. -/
def Draft.apply (d : Draft) : Layer → Except Error Draft
  | [] => .ok d
  | (key, v) :: rest =>
    match Field.ofKey? key with
    | none => .error (.unknownKey key)
    | some field =>
      match v with
      | .null => d.apply rest
      | v =>
        match d.set? field v with
        | none => .error (.invalidValue field.name v)
        | some d => d.apply rest

/-- Settings with a layer over them. -/
def merged (s : Settings) (layer : Layer) : Except Error Settings :=
  match s.draft.apply (Value.ofEntries layer) with
  | .error e => .error e
  | .ok d => d.check

/-- The layer that an environment gives. A variable that is empty counts as absent, and of variables
of one name the last is taken. -/
def environmentLayer (environment : List (String × String)) : List (Field × String) :=
  Field.all.filterMap fun field =>
    match environment.reverse.find? fun (name, _) => name == field.environmentName with
    | some (_, value) => if value.isEmpty then none else some (field, value)
    | none => none

def layerOf (named : List (Field × String)) : Layer :=
  named.map fun (field, value) => (.text field.name, .text value)

/-- The settings that a file, the environment and explicit values give, later ones over earlier. -/
def layered (file : Layer) (environment : List (String × String)) (explicit : Layer) :
    Except Error Settings :=
  match standard.merged file with
  | .error e => .error e
  | .ok s =>
    match s.merged (layerOf (environmentLayer environment)) with
    | .error e => .error e
    | .ok s => s.merged explicit

/-- The layer in a settings file whose content is a value. It is the section for the machine if there
is one, and else the whole; a file without content gives no layer values. -/
def fileLayer (file : String) : Value → Except Error Layer
  | .null => .ok []
  | .map entries =>
    match Value.lookup? "vm" entries with
    | none => .ok entries
    | some content =>
      if content.isEmpty then .ok []
      else
        match content with
        | .map entries => .ok entries
        | _ => .error (.noSectionMapping file)
  | _ => .error (.noMapping file)

end Settings

end Brainfuck
