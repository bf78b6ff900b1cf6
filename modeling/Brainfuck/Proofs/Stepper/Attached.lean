import Mathlib.Data.List.Forall2
import Brainfuck.Proofs.Stepper.Display

/-! # A stepper on a machine

A stepper that takes its commands from a text of its own leaves alone the machine that it watches. What it
shows are the moments at which an operator is pending, one block for each, and the last line of a block is
that of the decision which the governor makes at this moment. The governor is followed through the moments by
itself: neither the machine nor what was shown before has to be known for that. A run with a stepper differs
from one without it only if it comes to a count that is too long to be written, and then it ends there. -/
namespace Brainfuck

/-- A moment of a run with the governor after its decision, and the decision. -/
structure Decided where
  moment : Moment
  governor : Governor
  decision : Decision

/-- What a governor decides at some moments, one after another. The next command of a text is the answer to a
prompt. -/
def Governor.onMoments (g : Governor) (commands : List Char) : List Moment → List Decided
  | [] => []
  | μ :: rest =>
    let (decided, decision) := g.decide (some μ.operator) μ.machine.tape.read
    ⟨μ, decided, decision⟩ ::
      match decision with
      | .prompt => (decided.apply (Command.read commands).1).onMoments (Command.read commands).2 rest
      | _ => decided.onMoments commands rest

/-- The last line of the block can be told: if it is that of a count, this has no more than the given
digits. -/
def Decided.Told (digits : Option Nat) (δ : Decided) : Prop :=
  δ.decision = .proceed → δ.governor.regime = .counting → ∀ n ∈ digits, δ.governor.remaining.natAbs < 10 ^ n

namespace Stepper

/-- Rows that show the state at a moment to a range: the cells of the window on the tape with the mark and
the addresses, what was written before, and what the pending operator is about to do. -/
def ShowsState (range : Int) (μ : Moment) (rows : List String) : Prop :=
  ∃ first last, μ.machine.tape.Views range first last ∧ rows =
    [ "", cellRow (cellsBetween μ.machine.tape first last),
      markRow (μ.machine.tape.pointer - first) (last - μ.machine.tape.pointer),
      "Address:   " ++ " ".intercalate ((List.range' first (last + 1 - first)).map column),
      "Output:   " ++ (if μ.written.isEmpty then "(empty)" else Text.quotedCodes μ.written.toList),
      μ.machine.location.text ++ ": " ++ μ.machine.source.charText ++ "    " ++
        (Prospect.of μ.machine (some μ.operator)).text ]

/-- The last line of a block, by what the governor decided. -/
inductive Closes : Governor → Decision → String → Prop
  | awaitInput {g : Governor} : Closes g .awaitInput "Enter one character to step the program."
  | prompt {g : Governor} : Closes g .prompt Command.help
  | continuous {r : Int} : Closes ⟨.continuous, r⟩ .proceed "Continuing program to completion..."
  | untilLoopExit {r : Int} : Closes ⟨.untilLoopExit, r⟩ .proceed "Waiting for loop exit..."
  | counting {r : Int} : Closes ⟨.counting, r⟩ .proceed s!"Skipping {r} steps..."

/-- A block that shows the state at a moment and the decision. -/
def Shows (range : Int) (δ : Decided) (block : List String) : Prop :=
  ∃ rows line, ShowsState range δ.moment rows ∧ Closes δ.governor δ.decision line ∧ block = rows ++ [line]

variable {s : Stepper} {g : Governor} {d : Decision} {digits : Option Nat} {δ : Decided} {μ : Moment}
  {commands : List Char} {rest : List Moment} {line : String}

/-- The last line of a block cannot be told exactly if it is that of a count which is too long. -/
theorem told_iff : δ.Told digits ↔ ∃ line, closing δ.governor digits δ.decision = .ok line := by
  rcases hclosing : closing δ.governor digits δ.decision with f | line
  · obtain ⟨⟨hproceed, hregime, hlong⟩, -⟩ := closing_eq_error_iff.1 hclosing
    refine iff_of_false (fun htold => ?_) (by simp)
    rw [Numeral.isWritten_iff.2 (htold hproceed hregime)] at hlong
    cases hlong
  · refine iff_of_true (fun hproceed hregime => ?_) ⟨line, rfl⟩
    by_contra hlong
    rw [← Numeral.isWritten_iff, Bool.not_eq_true] at hlong
    rw [closing_eq_error_iff.2 ⟨⟨hproceed, hregime, hlong⟩, rfl⟩] at hclosing
    cases hclosing

/-- The governor goes on from its decision as a stepper does that responds to it. -/
lemma onMoments_cons (h : s.governor.decide (some μ.operator) μ.machine.tape.read = (g, d)) :
    s.governor.onMoments commands (μ :: rest) =
      let settled := { s with governor := g }.respond d commands
      ⟨μ, g, d⟩ :: settled.1.governor.onMoments settled.2 rest := by
  rw [Governor.onMoments, h]
  cases d <;> rfl

/-- A stepper whose count is short tells every last line. -/
theorem WritesCounts.told (hs : s.WritesCounts) (commands : List Char) (moments : List Moment) :
    ∀ δ ∈ s.governor.onMoments commands moments, δ.Told s.digits := by
  induction moments generalizing s commands with
  | nil => simp [Governor.onMoments]
  | cons μ rest ih =>
    rcases hdecide : s.governor.decide (some μ.operator) μ.machine.tape.read with ⟨g, d⟩
    rw [onMoments_cons hdecide, List.forall_mem_cons]
    refine ⟨told_iff.2 (hs.exists_closing hdecide), ?_⟩
    have hrest := ih ((hs.decide hdecide).respond d commands) ({ s with governor := g }.respond d commands).2
    rwa [respond_digits] at hrest

end Stepper

/-- What a run shows, tells and comes to that breaks off at a count which cannot be told. The moments before
it were shown whole, and of this one the state. -/
structure BreaksOff (range : Int) (digits : Option Nat) (decided : List Decided) (stopped : Machine)
    (shown : List String) (events : List Event) (result : Except Fault Unit) : Prop where
  result_eq : result = .error .tooManyDigits
  shown_eq : ∃ before δ after blocks rows, decided = before ++ δ :: after ∧
    (∀ ε ∈ before, ε.Told digits) ∧ ¬ δ.Told digits ∧ stopped = δ.moment.machine ∧
    Event.pendings events = (before ++ [δ]).map (·.moment.event) ∧ shown = blocks.flatten ++ rows ∧
    List.Forall₂ (Stepper.Shows range) before blocks ∧ Stepper.ShowsState range δ.moment rows

namespace BreaksOff

variable {range : Int} {digits : Option Nat} {decided : List Decided} {stopped : Machine}
  {shown : List String} {events : List Event} {result : Except Fault Unit} {δ : Decided}

/-- A run that breaks off at its first moment. -/
lemma first {rows : List String} (hlong : ¬ δ.Told digits) (hshown : Stepper.ShowsState range δ.moment rows)
    (hevents : Event.pendings events = [δ.moment.event]) :
    BreaksOff range digits (δ :: decided) δ.moment.machine rows events (.error .tooManyDigits) :=
  ⟨rfl, [], δ, decided, [], rows, rfl, by simp, hlong, rfl, hevents, rfl, .nil, hshown⟩

end BreaksOff

namespace Watched

open Machine Stepper

variable {w : Watched} {x : Machine} {commands : List Char} {events : List Event} {op : Operator}
  {g : Governor} {d : Decision} {line : String}

/-- The watched machine after it told its last line and carried out the pending operator, with the commands
that a text holds. -/
def carriedOut (w : Watched) (x : Machine) (op : Operator) (g : Governor) (d : Decision)
    (commands : List Char) : Watched :=
  let settled := { w.stepper with governor := g }.respond d commands
  ⟨(x.complete op).machine, settled.1.noteOutput (x.complete op).events, some settled.2⟩

@[simp] lemma carriedOut_range : (w.carriedOut x op g d commands).stepper.range = w.stepper.range :=
  respond_range ..

@[simp] lemma carriedOut_digits : (w.carriedOut x op g d commands).stepper.digits = w.stepper.digits :=
  respond_digits ..

/-- What the governor decides in a run of up to `n` steps. -/
def decided (w : Watched) (commands : List Char) (n : Nat) : List Decided :=
  w.stepper.governor.onMoments commands (w.machine.moments w.stepper.output n)

/-- One instruction more than the largest number of four thousand and three hundred digits still to go by. -/
example : ((attach (.ofText {} #[43] []) { governor := ⟨.counting, 10 ^ 4300 + 1⟩ } (some [])).run 1).2.2.2 =
    .error .tooManyDigits := by
  decide +kernel

end Watched

end Brainfuck
