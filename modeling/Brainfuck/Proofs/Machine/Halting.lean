import Brainfuck.Proofs.Machine.Faults
import Brainfuck.Proofs.Stepper.Prompts

/-! # How a run ends

A run whose cells are characters is never at fault, and it is halted exactly if it remarked on a loop
without an end. This does not depend on what the console holds and when it changes, so it holds of a run
under a stepper too, which takes commands from the console between drawing an operator and carrying it
out. -/
namespace Brainfuck

namespace Event

/-- Whether there is a remark on a loop that has no end. -/
def Unclosed (events : List Event) : Prop :=
  ∃ l, Problem.unclosedLoop.diagnosticAt l ∈ remarks events

lemma unclosed_iff {events : List Event} :
    Unclosed events ↔ ∃ l, Problem.unclosedLoop.diagnosticAt l ∈ structural events := by
  have hcategory (l : Location) : (Problem.unclosedLoop.diagnosticAt l).category = .structural := rfl
  simp [Unclosed, structural, hcategory]

lemma not_unclosed {events : List Event} (h : structural events = []) : ¬ Unclosed events := by
  simp [unclosed_iff, h]

lemma unclosed_append_iff {xs ys : List Event} : Unclosed (xs ++ ys) ↔ Unclosed xs ∨ Unclosed ys := by
  simp [Unclosed, exists_or]

end Event

namespace Machine

open Event

variable {e : Edition} {c c' : Control} {m : Machine} {op : Operator} {f : Fault} {events : List Event}

lemma cellMax_execute_action (m : Machine) (a : Action) :
    (m.execute a.operator).machine.tape.cellMax = m.tape.cellMax := by
  cases a with
  | right | left =>
    simp only [Action.operator, execute, walk]
    split <;> exact m.tape.cellMax_move _
  | increment | decrement =>
    simp only [Action.operator, execute, add]
    split
    next hwrite => exact (Tape.write_eq_ok hwrite).2.1
    · rfl
  | output =>
    simp only [Action.operator, execute, write]
    split <;> rfl
  | input =>
    simp only [Action.operator, execute, read]
    split
    · rfl
    · split
      next hwrite => exact (Tape.write_eq_ok hwrite).2.1
      · rfl

lemma cellMax_executes {o : Outcome Unit} (hx : Executes e m c op c' o) :
    o.machine.tape.cellMax = m.tape.cellMax := by
  cases hx with
  | action _ a => exact m.cellMax_execute_action a
  | enter | skip | halt | stray | leave | again => rfl

/-- Cells that are characters are never overrun. -/
lemma not_overruns (hmax : m.tape.cellMax ≤ lastCodePoint) : ¬ m.Overruns op f := by
  have hcapacity : lastCodePoint < cellCapacity := by decide
  have hread := m.tape.read_le
  rintro (⟨-, h⟩ | ⟨-, h⟩ | h) <;> omega

lemma Executes.ok_of_le {o : Outcome Unit} (hx : Executes e m c op c' o)
    (hmax : m.tape.cellMax ≤ lastCodePoint) : o.result = .ok () := by
  cases hresult : o.result with
  | ok => rfl
  | error f => exact absurd (hx.error_iff.1 hresult) (not_overruns hmax)

lemma unclosed_problemEvent (m : Machine) : Unclosed [m.problemEvent .unclosedLoop] :=
  ⟨m.location, by simp [problemEvent, event, Event.remark?]⟩

lemma not_unclosed_problemEvent (m : Machine) : ¬ Unclosed [m.problemEvent .unopenedLoop] := by
  rintro ⟨l, hl⟩
  have hmessage : Problem.unclosedLoop.message = Problem.unopenedLoop.message :=
    congrArg Diagnostic.message (List.mem_singleton.1 hl)
  revert hmessage
  decide

/-- An operator halts the machine exactly if it remarks on a loop without an end. -/
theorem Executes.unclosed_iff {o : Outcome Unit} (hx : Executes e m c op c' o) (hlive : m.halted = false) :
    Unclosed o.events ↔ o.machine.halted = true := by
  cases hx with
  | action _ a =>
    obtain ⟨tape, console, output, hmachine⟩ := m.execute_action a
    rw [hmachine]
    exact iff_of_false (not_unclosed (m.structural_action a)) (by simp [hlive])
  | enter => exact iff_of_false (not_unclosed rfl) (by simp [entered, hlive])
  | skip => exact iff_of_false (not_unclosed structural_skipEvents) (by simp [withSource, hlive])
  | halt =>
    apply iff_of_true _ rfl
    exact unclosed_append_iff.2 (.inr (unclosed_problemEvent _))
  | stray => exact iff_of_false (not_unclosed_problemEvent _) (by simp [hlive])
  | leave => exact iff_of_false (not_unclosed rfl) (by simp [outside, hlive])
  | again => exact iff_of_false (not_unclosed rfl) (by simp [withSource, hlive])

/-- A run whose cells are characters, with the events so far. It stands somewhere in a program, and it is
halted exactly if it remarked on a loop without an end. -/
structure Sound (m : Machine) (events : List Event) : Prop where
  stands : ∃ e c, m.At e c ∧ m.Course e c
  cellMax_le : m.tape.cellMax ≤ lastCodePoint
  halted_iff : m.halted = true ↔ Unclosed events

/-- A step of such a run is not at fault. -/
theorem Sound.step (h : m.Sound events) :
    (∃ b, m.step.result = .ok b) ∧ m.step.machine.Sound (events ++ m.step.events) := by
  obtain ⟨e, c, hat, hcourse⟩ := h.stands
  obtain ⟨c', hstep⟩ := hat.step
  have hstands : ∃ e c, m.step.machine.At e c ∧ m.step.machine.Course e c :=
    ⟨e, c', hstep.at hat, hcourse.step hat hstep⟩
  have hlive (hf : m.finished = false) : ¬ Unclosed events := by
    rw [← h.halted_iff, hcourse.not_halted hf]
    exact Bool.false_ne_true
  generalize m.step = o at hstep hstands
  cases hstep with
  | finished | limit => exact ⟨⟨_, rfl⟩, hstands, h.cellMax_le, by simpa using h.halted_iff⟩
  | @ended s hf =>
    have hreports : ¬ Unclosed ((e.remarks c.index (c.index + 1)).map (m.withSource s).reportEvent) := by
      apply not_unclosed
      rw [Event.structural, remarks_reports, e.structural_remarks]
    refine ⟨⟨_, rfl⟩, hstands, h.cellMax_le, ?_⟩
    rw [unclosed_append_iff, or_iff_left hreports]
    exact h.halted_iff
  | @done _ s op m' more hf _ _ _ hx =>
    -- neither drawing the operator nor counting the step can remark on a loop
    have hdrawn : ¬ Unclosed (m.drawEvents e c.index s op) := not_unclosed structural_drawEvents
    have hlast : ¬ Unclosed [m'.counted.event .applied (some op)] := not_unclosed rfl
    have hhalted := hx.unclosed_iff (hcourse.not_halted hf)
    refine ⟨⟨_, rfl⟩, hstands, (cellMax_executes hx).trans_le h.cellMax_le, ?_⟩
    simp only [unclosed_append_iff, hlive hf, hdrawn, hlast, hhalted, false_or, or_false]
    rfl
  | fault _ _ _ _ hx => cases hx.ok_of_le h.cellMax_le

end Machine

/-- A run that had no fault. It is halted exactly if it remarked on a loop without an end; then it is over,
and no limit ended it. -/
structure Outcome.Orderly (o : Outcome Unit) : Prop where
  result_eq : o.result = .ok ()
  halted_iff : o.machine.halted = true ↔ Event.Unclosed o.events
  finished_of_halted : o.machine.halted = true → o.machine.finished = true
  not_halted_of_limit : o.machine.hitStepLimit = true → o.machine.halted = false

namespace Machine

variable {m : Machine}

lemma Sound.orderly {events : List Event} (h : m.Sound events) (source : Source) :
    (⟨m.withSource source, events, .ok ()⟩ : Outcome Unit).Orderly := by
  obtain ⟨e, c, -, hcourse⟩ := h.stands
  exact ⟨rfl, h.halted_iff, hcourse.halted_finished, fun hl => (hcourse.limit_finished hl).2⟩

theorem Sound.stepsFrom (n : Nat) (events : Array Event) (h : m.Sound events.toList) (taken : Nat) :
    ∃ m' events' taken', stepsFrom events taken n m = (m', events', .ok taken') ∧
      m'.Sound events'.toList := by
  induction n generalizing m events taken with
  | zero => exact ⟨m, events, taken, rfl, h⟩
  | succ n ih =>
    have hstep := h.step
    rcases hm : m.step with ⟨m', more, f | _ | _⟩ <;> rw [hm] at hstep
    · simp at hstep
    · exact ⟨m', events ++ more, taken, by simp [Machine.stepsFrom, hm], by simpa using hstep.2⟩
    · obtain ⟨m'', events'', taken'', hrest, hsound⟩ :=
        ih (events ++ more) (by simpa using hstep.2) (taken + 1)
      exact ⟨m'', events'', taken'', by simp [Machine.stepsFrom, hm, hrest], hsound⟩

/-- A run whose cells are characters ends in order. -/
theorem Sound.run {source : Source} (hsource : m.source.opened = .ok source)
    (h : (m.withSource source).Sound []) (n : Nat) : (m.run n).Orderly := by
  obtain ⟨m', events, taken, hsteps, hsound⟩ := Sound.stepsFrom n #[] h 0
  have hrun : m.run n = ⟨m'.withSource m'.source.closed, events.toList, .ok ()⟩ := by
    simp [Machine.run, hsource, takeSteps, hsteps, Except.map]
  rw [hrun]
  exact hsound.orderly _

/-- The machine with another text on its console. -/
def withConsole (m : Machine) (console : List Char) : Machine := { m with console := console }

lemma Sound.withConsole {events : List Event} (h : m.Sound events) (console : List Char) :
    (m.withConsole console).Sound events := by
  obtain ⟨e, c, hat, hcourse⟩ := h.stands
  exact ⟨⟨e, c, ⟨hat.source, hat.frames, hat.scan, hat.loops_le⟩,
    ⟨hcourse.halted_finished, hcourse.limit_finished, hcourse.live, hcourse.ended, hcourse.index_le⟩⟩,
    h.cellMax_le, h.halted_iff⟩

/-- Drawing an operator does not look at the console. -/
lemma fetch_withConsole (m : Machine) (console : List Char) :
    (m.withConsole console).fetch =
      ⟨m.fetch.machine.withConsole console, m.fetch.events, m.fetch.result⟩ := by
  have hamid : m.withConsole console = m.amid { m.surroundings with console := console } := rfl
  rw [hamid, fetch_amid rfl, ← surroundings_fetch]
  rfl

end Machine

namespace Watched

variable {w : Watched}

/-- A step under a stepper that tells its counts is a step of the machine, except that the operator may
have taken commands from the console. -/
lemma exists_step_eq (hs : w.stepper.WritesCounts) : ∃ console,
    let o := (w.machine.withConsole console).step
    w.step.watched.machine = o.machine ∧ w.step.events = o.events ∧ w.step.result = o.result := by
  rcases hm : w.machine.fetch with ⟨x, drawn, f | _ | op⟩
  · refine ⟨w.machine.console, ?_⟩
    rw [step_of_fetch_error hm]
    exact (Machine.step_of_fetch_error hm) ▸ ⟨rfl, rfl, rfl⟩
  · refine ⟨w.machine.console, ?_⟩
    rw [step_of_none hm]
    exact (Machine.step_of_none hm) ▸ ⟨rfl, rfl, rfl⟩
  · rcases hdecide : w.stepper.governor.decide (some op) x.tape.read with ⟨g, d⟩
    obtain ⟨line, hline⟩ := hs.exists_closing hdecide
    -- the operator is carried out over what the command has left on the console
    let settled := ((w.drawn x g).settle d).machine
    have hfetch := w.machine.fetch_withConsole settled.console
    have hsettled : x.withConsole settled.console = settled := ((w.drawn x g).settle_machine d).symm
    rw [hm, hsettled] at hfetch
    refine ⟨settled.console, ?_⟩
    rw [Machine.step_of_pending hfetch, step_of_told hm hdecide hline]
    exact ⟨rfl, rfl, rfl⟩

theorem sound_step {events : List Event} (hs : w.stepper.WritesCounts) (h : w.machine.Sound events) :
    (∃ b, w.step.result = .ok b) ∧ w.step.watched.machine.Sound (events ++ w.step.events) := by
  obtain ⟨console, hmachine, hevents, hresult⟩ := exists_step_eq hs
  rw [hmachine, hevents, hresult]
  exact (h.withConsole console).step

theorem sound_stepsFrom (n : Nat) (shown : Array String) (events : Array Event)
    (hs : w.stepper.WritesCounts) (h : w.machine.Sound events.toList) :
    ∃ w' shown' events', stepsFrom shown events n w = (w', shown', events', .ok ()) ∧
      w'.machine.Sound events'.toList := by
  induction n generalizing w shown events with
  | zero => exact ⟨w, shown, events, rfl, h⟩
  | succ n ih =>
    have hstep := sound_step hs h
    have hkept := writesCounts_step hs
    rcases hw : w.step with ⟨w', lines, more, f | _ | _⟩ <;> rw [hw] at hstep hkept
    · simp at hstep
    · exact ⟨w', shown ++ lines, events ++ more, by simp [stepsFrom, hw], by simpa using hstep.2⟩
    · obtain ⟨w'', shown'', events'', hrest, hsound⟩ :=
        ih (shown ++ lines) (events ++ more) hkept (by simpa using hstep.2)
      exact ⟨w'', shown'', events'', by simp [stepsFrom, hw, hrest], hsound⟩

/-- What came of up to `n` steps, without what was shown. -/
def outcome (w : Watched) (n : Nat) : Outcome Unit :=
  match w.run n with
  | (w, _, events, result) => ⟨w.machine, events, result⟩

/-- A run under a stepper whose cells are characters ends in order. -/
theorem orderly_outcome {source : Source} (hsource : w.machine.source.opened = .ok source)
    (hs : w.stepper.WritesCounts) (h : (w.machine.withSource source).Sound []) (n : Nat) :
    (w.outcome n).Orderly := by
  obtain ⟨w', shown, events, hsteps, hsound⟩ :=
    sound_stepsFrom n (w := { w with machine := w.machine.withSource source }) #[] #[] hs h
  have hrun : w.outcome n =
      ⟨w'.machine.withSource w'.machine.source.closed, events.toList, .ok ()⟩ := by
    simp [outcome, run, hsource, hsteps]
  rw [hrun]
  exact hsound.orderly _

end Watched

end Brainfuck
