import Brainfuck.Machine.Run
import Brainfuck.Settings.Basic

/-! # Loading a program

A program text becomes a source as the settings say: decoded in advance, or read as it runs. A file is
read when it is opened, so a file that is decoded in advance has to be readable when it is loaded, and any
other only when it is run. A machine needs room for its tape. -/
namespace Brainfuck

namespace Source

/-- A program text in memory as a source, with the remarks made if it is decoded in advance. -/
def ofText (s : Settings) (text : Array UInt8) : Source × List Diagnostic :=
  if s.precompile then
    let (listing, reports) := Listing.ofText s.skipScan text
    (compiled (.start listing), reports)
  else (stream (.ofText text), [])

/-- The text behind a reader as a source. -/
def loaded (s : Settings) (reader : Reader) : Except Fault (Source × List Diagnostic) :=
  if s.precompile then
    reader.opened.map fun reader =>
      let (listing, reports) := Listing.ofReader s.skipScan reader
      (compiled (.start listing), reports)
  else .ok (stream reader, [])

/-- A program file as a source. -/
def ofFile (s : Settings) (name : String) (text : Option (Array UInt8)) :
    Except Fault (Source × List Diagnostic) :=
  loaded s (.ofFile name text)

end Source

namespace Machine

/-- A machine at the start of a run, over the given tape or else over a blank one. -/
def start (s : Settings) (source : Source) (console : List Char) (tape : Option Tape) : Machine where
  source := source
  tape := tape.getD (.blank s.tapeLength s.cellMax s.tapeLength_pos s.cellMax_pos)
  stepLimit := s.stepLimit
  skipScan := s.skipScan
  console := console

/-- A machine at the start of a run of a program text in memory. -/
def ofText (s : Settings) (text : Array UInt8) (console : List Char) : Machine :=
  start s (Source.ofText s text).1 console none

/-- A machine at the start of a run over a blank tape, where a tape of at most `room` cells can be had. -/
def startWithin (room : Nat) (s : Settings) (source : Source) (console : List Char) : Except Fault Machine :=
  if s.tapeLength ≤ room then .ok (start s source console none) else .error (.noRoom s.tapeLength)

/-- A machine at the start of a run of a program text in memory, with room for a tape of so many cells. -/
def ofTextWithin (room : Nat) (s : Settings) (text : Array UInt8) (console : List Char) :
    Except Fault Machine :=
  startWithin room s (Source.ofText s text).1 console

/-- Draws an operator without carrying it out. -/
def draw (m : Machine) : Outcome (Option Operator) :=
  match m.source.next with
  | .error fault => ⟨m, [], .error fault⟩
  | .ok d =>
    let drawn := m.withSource d.source
    ⟨drawn, d.reports.map drawn.reportEvent, .ok d.operator⟩

def seek (m : Machine) (position : Int) (location : Option Location) : Outcome Unit :=
  match m.source.seek position location with
  | .error fault => ⟨m, [], .error fault⟩
  | .ok (source, reports) =>
    let moved := m.withSource source
    ⟨moved, reports.map moved.reportEvent, .ok ()⟩

def openSource (m : Machine) : Outcome Unit :=
  match m.source.opened with
  | .error fault => ⟨m, [], .error fault⟩
  | .ok source => ⟨m.withSource source, [], .ok ()⟩

def closeSource (m : Machine) : Outcome Unit := ⟨m.withSource m.source.closed, [], .ok ()⟩

/-- Carries out an operator that was not drawn; there is nothing to do at the end of a program. -/
def apply (m : Machine) : Option Operator → Outcome Unit
  | some op => m.execute op
  | none => ⟨m, [], .ok ()⟩

end Machine

end Brainfuck
