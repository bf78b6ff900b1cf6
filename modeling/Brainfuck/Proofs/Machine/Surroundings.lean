import Brainfuck.Proofs.Machine.Control

/-! # The surroundings of a machine

How many steps a run may take and how it skips loops, what is on its console and how that is read: these are
the surroundings of a machine. No operator changes them but input, which takes from the console. An operator
looks at them only where it reads, and where the end of a loop has to be scanned for. So a machine amid other
surroundings does the same as long as it does not read and the scan comes to the same. -/
namespace Brainfuck

/-- The rules of a run and the console that it reads. -/
structure Surroundings where
  stepLimit : Option Nat
  skipScan : SkipScan
  console : List Char
  lineInput : Bool

def Machine.surroundings (m : Machine) : Surroundings := ⟨m.stepLimit, m.skipScan, m.console, m.lineInput⟩

/-- The machine amid other surroundings. -/
def Machine.amid (m : Machine) (s : Surroundings) : Machine :=
  { m with stepLimit := s.stepLimit, skipScan := s.skipScan, console := s.console, lineInput := s.lineInput }

/-- What comes of an operation, when the machine goes on amid other surroundings. -/
def Outcome.amid {α : Type} (o : Outcome α) (s : Surroundings) : Outcome α :=
  ⟨o.machine.amid s, o.events, o.result⟩

namespace Machine

variable {m : Machine} {s : Surroundings} {op : Operator}

@[simp] lemma amid_source (m : Machine) (s : Surroundings) : (m.amid s).source = m.source := rfl

@[simp] lemma amid_tape (m : Machine) (s : Surroundings) : (m.amid s).tape = m.tape := rfl

@[simp] lemma amid_frames (m : Machine) (s : Surroundings) : (m.amid s).frames = m.frames := rfl

lemma walk_amid (m : Machine) (s : Surroundings) (d : Int) : (m.amid s).walk d = (m.walk d).amid s := by
  rw [walk, walk, amid_tape]
  rcases m.tape.move d with ⟨tape, _ | w⟩ <;> rfl

lemma add_amid (m : Machine) (s : Surroundings) (d : Int) : (m.amid s).add d = (m.add d).amid s := by
  rw [add, add, amid_tape]
  rcases m.tape.adjust d with f | tape <;> rfl

lemma write_amid (m : Machine) (s : Surroundings) : (m.amid s).write = m.write.amid s := by
  rw [write, write, amid_tape]
  split <;> rfl

/-- Leaving a loop that is skipped looks at the rules only if the source has to be scanned. -/
lemma skipLoop_amid (h : m.source.skip s.skipScan 0 = m.source.skip m.skipScan 0) :
    (m.amid s).skipLoop = m.skipLoop.amid s := by
  have hscan : (m.amid s).skipScan = s.skipScan := rfl
  rw [skipLoop, skipLoop, amid_source, hscan, h]
  rcases m.source.position with ⟨position, reports⟩
  rcases hend : m.source.matchingEnd position with _ | target
  · simp only [hend]
    rcases m.source.skip m.skipScan 0 with ⟨source, reports, f | _ | _⟩ <;> rfl
  · simp only [hend]
    rcases m.source.seek target none with f | ⟨source, reports⟩ <;> rfl

lemma startLoop_amid (h : m.source.skip s.skipScan 0 = m.source.skip m.skipScan 0) :
    (m.amid s).startLoop = m.startLoop.amid s := by
  rw [startLoop, startLoop, amid_source]
  rcases m.source.position with ⟨position, reports⟩
  by_cases hv : m.tape.read = 0
  · let noted : Machine := { m with frames := ⟨position, m.location⟩ :: m.frames }
    have hskip : (noted.amid s).skipLoop = noted.skipLoop.amid s := skipLoop_amid h
    simp only [amid_tape, hv, ne_eq, not_true_eq_false, if_false]
    exact congrArg (Outcome.after · (reports.map m.reportEvent ++
      [noted.event .loopSkipped (some .loopStart)])) hskip
  · simp only [amid_tape, hv, ne_eq, not_false_eq_true, if_true]
    rfl

lemma endLoop_amid (m : Machine) (s : Surroundings) : (m.amid s).endLoop = m.endLoop.amid s := by
  rw [endLoop, endLoop, amid_frames]
  rcases m.frames with _ | ⟨frame, outer⟩
  · rfl
  · by_cases hv : m.tape.read = 0
    · simp only [amid_tape, hv, if_true]
      rfl
    · simp only [amid_tape, amid_source, hv, if_false]
      rcases m.source.seek frame.position (some frame.location) with f | ⟨source, reports⟩ <;> rfl

/-- The same comes of an operator amid other surroundings, unless it reads or a scan comes to something
else. -/
theorem execute_amid (hop : op ≠ .input)
    (hscan : op = .loopStart → m.source.skip s.skipScan 0 = m.source.skip m.skipScan 0) :
    (m.amid s).execute op = (m.execute op).amid s := by
  cases op with
  | right | left => exact m.walk_amid s _
  | increment | decrement => exact m.add_amid s _
  | output => exact m.write_amid s
  | input => exact absurd rfl hop
  | loopStart => exact startLoop_amid (hscan rfl)
  | loopEnd => exact m.endLoop_amid s

/-- No operator but input changes the surroundings. -/
theorem surroundings_execute (hop : op ≠ .input) :
    (m.execute op).machine.surroundings = m.surroundings := by
  have hself : (m.amid m.surroundings).execute op = (m.execute op).amid m.surroundings :=
    execute_amid hop fun _ => rfl
  exact congrArg (fun o => o.machine.surroundings) hself

/-- Drawing an operator asks of the surroundings only whether the limit is met. -/
theorem fetch_amid (h : (m.amid s).limitReached = m.limitReached) : (m.amid s).fetch = m.fetch.amid s := by
  have hfinished : (m.amid s).finished = m.finished := rfl
  rw [fetch, fetch, hfinished, h, amid_source]
  split
  · rfl
  · split
    · rfl
    · rcases m.source.next with f | ⟨source, reports, _ | op⟩ <;> rfl

theorem surroundings_fetch (m : Machine) : m.fetch.machine.surroundings = m.surroundings := by
  have hself : (m.amid m.surroundings).fetch = m.fetch.amid m.surroundings := fetch_amid rfl
  exact congrArg (fun o => o.machine.surroundings) hself

end Machine

end Brainfuck
