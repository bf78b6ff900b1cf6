import Brainfuck.Collector
import Brainfuck.Machine.Load

/-! # Machines side by side

On a workbench several machines are run by turns. They may share a collector of diagnostics and they
may share a tape. A machine subscribes to its collector when it takes its first step and stays
subscribed until a run of it ends. Whatever is reported to a collector reaches every machine that
subscribed to it, so a machine also sees what the others report there. -/
namespace Brainfuck

/-- Machines with the collector of each. -/
structure Workbench where
  machines : Array Machine
  collectors : Array (Collector Nat)
  collectorOf : Array Nat
  sharesTape : Bool

namespace Workbench

/-- An event as it reaches one of the machines. -/
abbrev Delivery := Nat × Event

/-- The number of the collector that a machine reports to. -/
def collectorIndex (w : Workbench) (i : Nat) : Nat := w.collectorOf[i]?.getD 0

def collector (w : Workbench) (i : Nat) : Collector Nat :=
  w.collectors[w.collectorIndex i]?.getD {}

/-- The workbench after a change of the collector of a machine. -/
def modifyCollector (w : Workbench) (i : Nat) (f : Collector Nat → Collector Nat) : Workbench :=
  { w with collectors := w.collectors.modify (w.collectorIndex i) f }

/-- Whether a machine is subscribed to its collector. -/
def isAttached (w : Workbench) (i : Nat) : Bool := (w.collector i).subscribers.contains i

def attach (w : Workbench) (i : Nat) : Workbench :=
  if w.isAttached i then w else w.modifyCollector i (·.subscribe i)

def detach (w : Workbench) (i : Nat) : Workbench := w.modifyCollector i (·.unsubscribe i)

/-- How a diagnostic event looks to another machine: with the operator and the place that are its own,
and with the pointer and the value on its own tape. -/
def seenBy (w : Workbench) (j : Nat) (e : Event) : Event :=
  match w.machines[j]? with
  | none => e
  | some m =>
    let own := m.event e.kind m.current
    if w.sharesTape then { own with pointer := e.pointer, value := e.value } else own

/-- Where an event of a machine goes: a diagnostic to the subscribers of its collector, and any other
event to the machine itself. -/
def deliveries (w : Workbench) (i : Nat) (e : Event) : List Delivery :=
  match e.remark? with
  | none => [(i, e)]
  | some _ =>
    (w.collector i).subscribers.map fun j => (j, if j = i then e else w.seenBy j e)

/-- The workbench after an event of a machine: a diagnostic is kept by its collector. -/
def record (w : Workbench) (i : Nat) (e : Event) : Workbench :=
  match e.remark? with
  | none => w
  | some d => w.modifyCollector i (·.report d)

def setMachine (w : Workbench) (i : Nat) (m : Machine) : Workbench :=
  let machines := w.machines.setIfInBounds i m
  { w with machines := if w.sharesTape then machines.map (·.withTape m.tape) else machines }

/-- What came of an operation on a workbench. -/
structure Result (α : Type) where
  workbench : Workbench
  deliveries : List Delivery
  result : Except Fault α

/-- Does something with a machine, and delivers and keeps what happens in it. -/
def perform {α : Type} (w : Workbench) (i : Nat) (act : Machine → Outcome α) : Option (Result α) :=
  w.machines[i]?.map fun m =>
    let o := act m
    let w' := o.events.foldl (fun w e => w.record i e) w
    ⟨w'.setMachine i o.machine, o.events.flatMap (w.deliveries i), o.result⟩

/-- Subscribes a machine that is about to take a step. A finished one takes none. -/
def attachForStep (w : Workbench) (i : Nat) : Workbench :=
  match w.machines[i]? with
  | some m => if m.finished then w else w.attach i
  | none => w

def takeSteps (w : Workbench) (i n : Nat) : Option (Result Nat) :=
  (if n = 0 then w else w.attachForStep i).perform i (·.takeSteps n)

def step (w : Workbench) (i : Nat) : Option (Result Bool) :=
  (w.attachForStep i).perform i (·.step)

/-- Runs a machine for up to `n` steps. Its subscription ends with the run, also after a fault, but
not if its source could not be opened. -/
def run (w : Workbench) (i n : Nat) : Option (Result Unit) :=
  w.machines[i]?.bind fun m =>
    match m.source.opened with
    | .error fault => some ⟨w, [], .error fault⟩
    | .ok _ =>
      ((w.attachForStep i).perform i (·.run n)).map fun r =>
        { r with workbench := r.workbench.detach i }

end Workbench

end Brainfuck
