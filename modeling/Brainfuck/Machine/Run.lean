import Brainfuck.Machine.Step

/-! # Runs

A run repeats steps until one of them says that the run is over. Since a program may run for ever, a
run is given the number of steps it may take at most; whatever was reached is the result, so that
longer runs continue shorter ones. -/
namespace Brainfuck

namespace Machine

/-- Takes up to `n` steps, ending early when the run is over. Events are gathered at the end of an
array, after those gathered before. -/
def stepsFrom (events : Array Event) (taken : Nat) :
    Nat → Machine → Machine × Array Event × Except Fault Nat
  | 0, m => (m, events, .ok taken)
  | n + 1, m =>
    match m.step with
    | ⟨m, more, .ok true⟩ => stepsFrom (events ++ more) (taken + 1) n m
    | ⟨m, more, .ok false⟩ => (m, events ++ more, .ok taken)
    | ⟨m, more, .error fault⟩ => (m, events ++ more, .error fault)

/-- Takes up to `n` steps and counts those that asked to go on. -/
def takeSteps (m : Machine) (n : Nat) : Outcome Nat :=
  let (m, events, result) := stepsFrom #[] 0 n m
  ⟨m, events.toList, result⟩

/-- Opens the source, takes up to `n` steps, and closes the source, also after a fault. -/
def run (m : Machine) (n : Nat) : Outcome Unit :=
  match m.source.opened with
  | .error fault => ⟨m, [], .error fault⟩
  | .ok source =>
    let o := (m.withSource source).takeSteps n
    ⟨o.machine.withSource o.machine.source.closed, o.events, o.result.map fun _ => ()⟩

end Machine

end Brainfuck
