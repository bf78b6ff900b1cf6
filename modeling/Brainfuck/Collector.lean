import Brainfuck.Diagnostic

/-! # Collecting diagnostics

A collector keeps the diagnostics reported to it in order and passes each on to its subscribers, in
the order in which they subscribed. One that subscribed twice is told twice. A collector that echoes
also writes each diagnostic as a line. -/
namespace Brainfuck

/-- Diagnostics in the order of their reports, and those who are told of each. -/
structure Collector (ι : Type) where
  records : Array Diagnostic := #[]
  subscribers : List ι := []
  echo : Bool := true

namespace Collector

variable {ι : Type}

def report (c : Collector ι) (d : Diagnostic) : Collector ι :=
  { c with records := c.records.push d }

def reportAll (c : Collector ι) (ds : List Diagnostic) : Collector ι :=
  { c with records := c.records ++ ds }

/-- The lines that are written for some diagnostics. -/
def echoed (c : Collector ι) (ds : List Diagnostic) : String :=
  if c.echo then String.join (ds.map fun d => d.format ++ "\n") else ""

def subscribe (c : Collector ι) (i : ι) : Collector ι :=
  { c with subscribers := c.subscribers ++ [i] }

/-- Removes a subscriber once, where it comes first. -/
def unsubscribe [BEq ι] (c : Collector ι) (i : ι) : Collector ι :=
  { c with subscribers := c.subscribers.erase i }

@[simp] theorem report_subscribers (c : Collector ι) (d : Diagnostic) :
    (c.report d).subscribers = c.subscribers := rfl

end Collector

end Brainfuck
