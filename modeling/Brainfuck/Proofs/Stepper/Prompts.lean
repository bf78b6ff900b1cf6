import Brainfuck.Proofs.Pacing.NextPrompt
import Brainfuck.Proofs.Stepper.Console

/-! # Prompts of a watched run

Each step with a pending operator is one call of the governor, and the next line that is a command is the
answer if there is a prompt. A prompt is shown by a line that no other line of a block can be taken for.
Every prompt but the last one is paid for by a line: it takes at least one line of the commands, or it
finds none that is a command, and then the governor goes on to the end and never prompts again. -/
namespace Brainfuck

open Text

namespace Text

end Text

namespace Machine

variable {m : Machine}

end Machine

namespace Governor

variable {g : Governor} {c : Call}

end Governor

/-! ## The line of a prompt -/

/-- A prompt is told from all other lines by how it begins. -/
def BeginsAsHelp (line : String) : Prop := line.toList.take 2 = ['P', 'r']

lemma beginsAsHelp_help : BeginsAsHelp Command.help := by
  unfold BeginsAsHelp
  decide +kernel

namespace Stepper

/-- No line that shows the state begins as a prompt does. -/
lemma not_beginsAsHelp_of_mem_block (s : Stepper) (m : Machine) (op : Option Operator) :
    ∀ line ∈ s.block m op, ¬ BeginsAsHelp line := by
  simp [block, Location.text, toString, BeginsAsHelp]

lemma count_help_rows (s : Stepper) (m : Machine) (op : Option Operator) :
    (s.block m op).count Command.help = 0 := by
  apply List.count_eq_zero_of_not_mem
  intro hmem
  exact s.not_beginsAsHelp_of_mem_block m op _ hmem beginsAsHelp_help

variable {g : Governor} {digits : Option Nat} {d : Decision} {line : String}

/-- A block ends in the line of a prompt if there is a prompt, and not otherwise. -/
lemma closing_eq_help_iff (h : closing g digits d = .ok line) : line = Command.help ↔ d = .prompt := by
  constructor
  · rintro rfl
    have hbegins := beginsAsHelp_help
    cases d with
    | prompt => rfl
    | awaitInput =>
      rw [← Except.ok.inj h] at hbegins
      simp [BeginsAsHelp] at hbegins
    | proceed =>
      simp only [closing, Governor.status] at h
      split at h
      · rw [← Except.ok.inj h] at hbegins
        simp [BeginsAsHelp] at hbegins
      · rw [← Except.ok.inj h] at hbegins
        simp [BeginsAsHelp] at hbegins
      · split at h
        · rw [← Except.ok.inj h] at hbegins
          simp [toString, BeginsAsHelp] at hbegins
        · cases h
  · rintro rfl
    exact (Except.ok.inj h).symm

/-- A block with its last line holds one prompt, or none. -/
lemma count_help_block (s : Stepper) (m : Machine) (op : Option Operator) (h : closing g digits d = .ok line) :
    (s.block m op ++ [line]).count Command.help = if d = .prompt then 1 else 0 := by
  rw [List.count_append, s.count_help_rows m op, Nat.zero_add, List.count_singleton]
  simp only [beq_iff_eq, closing_eq_help_iff h]

end Stepper

namespace Watched

variable {w : Watched}

/-- The text from which the stepper takes its commands. -/
def stream (w : Watched) : List Char := w.commands.getD w.machine.console

/-- The call of the governor in the next step, if an operator is pending in it. -/
def call? (w : Watched) : Option Governor.Call :=
  match w.machine.fetch.result with
  | .ok (some op) => some ⟨some op, w.machine.tape.read, (Command.read w.stream).1⟩
  | _ => none

/-- Whether the next step prompts. -/
def Prompts (w : Watched) : Prop := ∃ c ∈ w.call?, w.stepper.governor.PromptsAt c

instance (g : Governor) (c : Governor.Call) : Decidable (g.PromptsAt c) :=
  inferInstanceAs (Decidable (_ = _))

instance (w : Watched) : Decidable w.Prompts := inferInstanceAs (Decidable (∃ c ∈ w.call?, _))

/-! ## One step -/

section

variable {x : Machine} {events : List Event} {op : Operator} {g : Governor} {d : Decision}
  {c : Governor.Call}

lemma settle_machine (w : Watched) (d : Decision) :
    (w.settle d).machine = { w.machine with console := (w.settle d).machine.console } := by
  unfold settle
  split <;> rfl

lemma settle_governor (w : Watched) (d : Decision) :
    (w.settle d).stepper.governor =
      if d = .prompt then w.stepper.governor.apply (Command.read w.stream).1 else w.stepper.governor := by
  unfold settle stream
  cases hcommands : w.commands <;> cases d <;> simp [Stepper.respond]

/-- A watched machine with a pending operator that was shown, before it is settled how to go on. A count
that cannot be told ends the step there. -/
structure Pending (w v : Watched) (c : Governor.Call) (op : Operator) (d : Decision) : Prop where
  result : w.machine.fetch.result = .ok (some op)
  machine : v.machine = w.machine.fetch.machine
  operator : c.operator = some op
  value : c.value = w.machine.tape.read
  answer : c.answer = (Command.read v.stream).1
  decide_eq : w.stepper.governor.decide c.operator c.value = (v.stepper.governor, d)
  stream : v.stream = w.stream
  step_watched : w.step.watched = (v.complete op d).watched ∨
    w.step.watched = v ∧ d = .proceed ∧ v.stepper.governor.regime = .counting
  count_shown : w.step.shown.count Command.help = if d = .prompt then 1 else 0

lemma exists_pending (h : w.call? = some c) : ∃ v op d, w.Pending v c op d := by
  obtain ⟨⟨hconsole, -⟩, htape⟩ := w.machine.sameConsole_fetch
  unfold call? at h
  rcases hfetch : w.machine.fetch with ⟨x, events, f | _ | op⟩ <;> rw [hfetch] at h hconsole htape <;>
    simp only [reduceCtorEq, Option.some.injEq] at h
  rcases hdecide : w.stepper.governor.decide (some op) x.tape.read with ⟨g, d⟩
  have hstream : (w.drawn x g).stream = w.stream := congrArg w.commands.getD hconsole
  subst h
  obtain ⟨hstep, hcount⟩ : (w.step.watched = ((w.drawn x g).complete op d).watched ∨
      w.step.watched = w.drawn x g ∧ d = .proceed ∧ g.regime = .counting) ∧
      w.step.shown.count Command.help = if d = .prompt then 1 else 0 := by
    rcases hline : Stepper.closing g w.stepper.digits d with f | line
    · rw [step_of_untold hfetch hdecide hline]
      obtain ⟨⟨rfl, hregime, -⟩, -⟩ := Stepper.closing_eq_error_iff.1 hline
      exact ⟨.inr ⟨rfl, rfl, hregime⟩, w.stepper.count_help_rows x (some op)⟩
    · rw [step_of_told hfetch hdecide hline]
      exact ⟨.inl rfl, w.stepper.count_help_block x (some op) hline⟩
  refine ⟨w.drawn x g, op, d, by rw [hfetch], by rw [hfetch]; rfl, rfl, rfl, ?_, ?_, hstream, hstep, hcount⟩
  · exact congrArg (fun text => (Command.read text).1) hstream.symm
  · rw [← htape]
    exact hdecide

lemma governor_complete (w : Watched) (op : Operator) (d : Decision) :
    (w.complete op d).watched.stepper.governor = (w.settle d).stepper.governor := rfl

/-- A step with a pending operator is a call of the governor. -/
theorem governor_step (h : w.call? = some c) :
    w.step.watched.stepper.governor = w.stepper.governor.next c := by
  obtain ⟨v, op, d, hpending⟩ := exists_pending h
  rw [Governor.next, hpending.decide_eq, hpending.answer]
  obtain hstep | ⟨hstep, rfl, -⟩ := hpending.step_watched
  · rw [hstep, governor_complete, settle_governor]
    cases d <;> rfl
  · rw [hstep]

lemma Pending.prompts_iff {v : Watched} (h : w.Pending v c op d) :
    w.stepper.governor.PromptsAt c ↔ d = .prompt := by
  unfold Governor.PromptsAt
  rw [h.decide_eq]

lemma prompts_iff (h : w.call? = some c) : w.Prompts ↔ w.stepper.governor.PromptsAt c := by
  simp [Prompts, h]

/-- A step without a pending operator shows nothing and takes nothing. -/
lemma step_of_no_call (h : w.call? = none) :
    w.step.shown = [] ∧ w.step.watched.stepper = w.stepper ∧ w.step.watched.stream = w.stream := by
  obtain ⟨⟨hconsole, -⟩, -⟩ := w.machine.sameConsole_fetch
  unfold call? at h
  rcases hfetch : w.machine.fetch with ⟨x, events, f | _ | op⟩ <;> rw [hfetch] at h hconsole
  · rw [step_of_fetch_error hfetch]
    exact ⟨rfl, rfl, congrArg w.commands.getD hconsole⟩
  · rw [step_of_none hfetch]
    exact ⟨rfl, rfl, congrArg w.commands.getD hconsole⟩
  · simp at h

end

/-! ## Calls and runs -/

variable {Q : Governor.Call → Prop} {j : Nat}

lemma afterCalls_add (w : Watched) (j k : Nat) : w.afterCalls (j + k) = (w.afterCalls j).afterCalls k := by
  induction k with
  | zero => rfl
  | succ k ih => exact congrArg (·.step.watched) ih

/-- The bound is reached: one line, a prompt that it answers and a prompt that finds no line. -/
example :
    (((attach (.ofText .standard #[43, 43, 43] []) {} (some ['\n'])).run 4).2.1.count Command.help) = 2 := by
  decide +kernel

end Watched

end Brainfuck
