import Brainfuck.Number.Numeral
import Brainfuck.Settings.Merge

/-! # Options of the command line

The command line names one program and any options. An option may be shortened as long as it stays
the only one that begins so, and its value may follow after an equals sign or as the next argument.
After two dashes everything is a name. Arguments are read from left to right and the first thing that
is wrong is told, but an option that could be several is found out before anything else. -/
namespace Brainfuck

inductive Flag
  | help
  | step
  | useful
  | config
  | tapeLength
  | cellMax
  | stepLimit
  | skipScan
  | precompile
  | quiet
  deriving DecidableEq, Repr

namespace Flag

def spellings : List (String × Flag) :=
  [("-h", help), ("--help", help), ("--step", step), ("--useful", useful), ("--config", config),
    ("--tape-length", tapeLength), ("--cell-max", cellMax), ("--step-limit", stepLimit),
    ("--skip-scan", skipScan), ("--precompile", precompile), ("--quiet", quiet)]

/-- The spellings of one option together. -/
def title (f : Flag) : String :=
  "/".intercalate ((spellings.filter fun (_, g) => g == f).map (·.1))

def takesValue : Flag → Bool
  | config | tapeLength | cellMax | stepLimit | skipScan => true
  | _ => false

end Flag

/-- What a command line asks for. -/
structure Options where
  program : Option String := none
  step : Bool := false
  useful : Bool := false
  quiet : Bool := false
  config : String := ""
  tapeLength : Option Int := none
  cellMax : Option Int := none
  stepLimit : Option Int := none
  skipScan : Option String := none
  precompile : Bool := false
  deriving DecidableEq, Repr

namespace Options

/-- What is wrong with a command line. -/
inductive Error
  | ambiguous (argument : String) (spellings : List String)
  | invalidNumber (flag : Flag) (given : String)
  | invalidChoice (flag : Flag) (given : String)
  | needlessValue (flag : Flag) (given : String)
  | missingValue (flag : Flag)
  | missingProgram
  | unrecognized (arguments : List String)
  | noValue
  deriving DecidableEq, Repr

def Error.message : Error → String
  | ambiguous a names => s!"ambiguous option: {a} could match " ++ ", ".intercalate names
  | invalidNumber f v => s!"argument {f.title}: invalid int value: {Text.quoted v}"
  | invalidChoice f v =>
    s!"argument {f.title}: invalid choice: {Text.quoted v} (choose from 'nested', 'legacy')"
  | needlessValue f v => s!"argument {f.title}: ignored explicit argument {Text.quoted v}"
  | missingValue f => s!"argument {f.title}: expected one argument"
  | missingProgram => "the following arguments are required: program"
  | unrecognized arguments => "unrecognized arguments: " ++ " ".intercalate arguments
  | noValue => "not enough values to unpack (expected 1, got 0)"

/-- An argument, as what it can be taken for by itself. An option may carry a value. -/
inductive Argument
  | name (text : String)
  | option (flag : Flag) (spelling : String) (value : Option String)
  | unknown (text : String)
  | dashes
  deriving DecidableEq, Repr

/-- A text before and after its first equals sign, if it has one. -/
def splitEquals (text : String) : Option (String × String) :=
  let chars := text.toList
  if chars.contains '=' then
    let before := chars.takeWhile (· != '=')
    some (String.ofList before, String.ofList (chars.drop (before.length + 1)))
  else none

/-- A negative number is a name and no option. -/
def isNegativeNumber (text : String) : Bool :=
  let isDigit (c : Char) : Bool := (Numeral.digit? c).isSome
  match text.toList with
  | '-' :: body =>
    let whole := body.takeWhile isDigit
    match body.drop whole.length with
    | [] => !whole.isEmpty
    | ['\n'] => !whole.isEmpty
    | '.' :: fraction =>
      let fraction := if fraction.getLast? == some '\n' then fraction.dropLast else fraction
      !fraction.isEmpty && fraction.all isDigit
    | _ => false
  | _ => false

/-- The options that an argument may be short for, with the value it carries. Behind a single dash,
what follows the first letter is the value. -/
def candidates (text : String) : List (Flag × String × Option String) :=
  let beginsWith (part : String) (s : String) : Bool := part.toList.isPrefixOf s.toList
  if text.startsWith "--" then
    let (part, value) :=
      match splitEquals text with
      | some (before, after) => (before, some after)
      | none => (text, none)
    (Flag.spellings.filter fun (s, _) => beginsWith part s).map fun (s, f) => (f, s, value)
  else
    let short := String.ofList (text.toList.take 2)
    let tail := String.ofList (text.toList.drop 2)
    Flag.spellings.filterMap fun (s, f) =>
      if s == short then some (f, s, some tail)
      else if beginsWith text s then some (f, s, none)
      else none

/-- What an argument before any two dashes is taken for. -/
def classify (text : String) : Except Error Argument :=
  if !text.startsWith "-" then .ok (.name text)
  else
    match Flag.spellings.lookup text with
    | some f => .ok (.option f text none)
    | none =>
      if text == "-" then .ok (.name text)
      else
        let exact := (splitEquals text).bind fun (before, after) =>
          (Flag.spellings.lookup before).map fun f => Argument.option f before (some after)
        match exact with
        | some a => .ok a
        | none =>
          match candidates text with
          | [(f, s, value)] => .ok (.option f s value)
          | [] =>
            if isNegativeNumber text || text.toList.contains ' ' then .ok (.name text)
            else .ok (.unknown text)
          | several => .error (.ambiguous text (several.map fun (_, s, _) => s))

/-- What the arguments are taken for one by one. -/
def classifyAll : List String → Except Error (List Argument)
  | [] => .ok []
  | "--" :: rest => .ok (.dashes :: rest.map .name)
  | text :: rest => do return (← classify text) :: (← classifyAll rest)

def Argument.text : Argument → String
  | name t => t
  | unknown t => t
  | dashes => "--"
  | option _ s _ => s

def number (f : Flag) (v : String) : Except Error Int :=
  match Numeral.parseInt v with
  | .ok n => .ok n
  | .error _ => .error (.invalidNumber f v)

/-- The options with one set that takes a value. -/
def setValue (o : Options) (f : Flag) (v : String) : Except Error Options :=
  match f with
  | .config => .ok { o with config := v }
  | .tapeLength => (number f v).map fun n => { o with tapeLength := some n }
  | .cellMax => (number f v).map fun n => { o with cellMax := some n }
  | .stepLimit => (number f v).map fun n => { o with stepLimit := some n }
  | .skipScan =>
    if (SkipScan.ofWord? v).isSome then .ok { o with skipScan := some v }
    else .error (.invalidChoice f v)
  | _ => .error (.needlessValue f v)

/-- The options with one set that takes no value. -/
def set (o : Options) (f : Flag) : Options :=
  match f with
  | .step => { o with step := true }
  | .useful => { o with useful := true }
  | .precompile => { o with precompile := true }
  | .quiet => { o with quiet := true }
  | _ => o

/-- What a command line comes to: a request for help, or options with the arguments left over. -/
inductive Read
  | help
  | options (o : Options) (extra : List String)
  deriving DecidableEq, Repr

/-- Goes through the arguments from left to right. The first name is the program, together with two
dashes beside it; a value goes with the option before it. -/
def readAll (o : Options) (extra : List String) : List Argument → Except Error Read
  | [] => .ok (.options o extra)
  | .name t :: .dashes :: rest =>
    if o.program.isNone then readAll { o with program := some t } extra rest
    else readAll o (extra ++ [t, "--"]) rest
  | .name t :: rest =>
    if o.program.isNone then readAll { o with program := some t } extra rest
    else readAll o (extra ++ [t]) rest
  | .dashes :: .name t :: rest =>
    if o.program.isNone then readAll { o with program := some t } extra rest
    else readAll o (extra ++ ["--", t]) rest
  | .dashes :: rest => readAll o (extra ++ ["--"]) rest
  | .unknown t :: rest => readAll o (extra ++ [t]) rest
  | .option f s (some v) :: rest =>
    if f.takesValue then
      if v == "--" then .error .noValue
      else do readAll (← o.setValue f v) extra rest
    else if s.startsWith "--" || v.isEmpty then .error (.needlessValue f v)
    else
      let rest := v.toList.dropWhile (· == 'h')
      if rest.isEmpty then .ok .help else .error (.needlessValue f (String.ofList rest))
  | .option f _ none :: rest =>
    if f.takesValue then
      match rest with
      | .name v :: rest => do readAll (← o.setValue f v) extra rest
      | _ => .error (.missingValue f)
    else if f == .help then .ok .help
    else readAll (o.set f) extra rest

/-- What a command line asks for. There has to be a program, and nothing may be left over. -/
def parse (arguments : List String) : Except Error Read := do
  match ← readAll {} [] (← classifyAll arguments) with
  | .help => return .help
  | .options o extra =>
    if o.program.isNone then throw .missingProgram
    else if !extra.isEmpty then throw (.unrecognized extra)
    else return .options o []

/-- The settings given on the command line. -/
def layer (o : Options) : Settings.Layer :=
  let number (n : Option Int) : Value := (n.map Value.int).getD .null
  [(.text "tape_length", number o.tapeLength), (.text "cell_max", number o.cellMax),
    (.text "step_limit", number o.stepLimit),
    (.text "skip_scan", (o.skipScan.map Value.text).getD .null),
    (.text "precompile", if o.precompile then .bool true else .null)]

end Options

end Brainfuck
