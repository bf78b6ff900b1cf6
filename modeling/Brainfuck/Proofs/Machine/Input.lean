import Brainfuck.Proofs.Stepper.Console

/-! # Input by lines and by characters

A console that is read by lines gives the first character of each line. So if every line holds one, a run
does the same over the text of these first characters, which it reads one by one: where the one run takes a
line the other takes a character, and both meet the end of their console at the same operator. -/
namespace Brainfuck

open Text

/-- The first characters of the lines, to be read one by one. -/
def Surroundings.byCharacters (s : Surroundings) : Surroundings :=
  { s with console := firsts s.console, lineInput := false }

/-- The machine that reads the first characters of the lines of its console. -/
def Machine.byCharacters (m : Machine) : Machine := m.amid m.surroundings.byCharacters

/-- What comes of an operation, when the machine goes on by characters. -/
def Outcome.byCharacters {α : Type} (o : Outcome α) : Outcome α :=
  ⟨o.machine.byCharacters, o.events, o.result⟩

namespace Machine

variable {m : Machine} {op : Operator} {k n : Nat}

/-- A machine that reads its console by lines, each of which holds a character. -/
structure ByLines (m : Machine) : Prop where
  lineInput : m.lineInput = true
  filled : Filled m.console

/-- The machine has taken lines from the front of its console, if any, and goes on to read by lines. -/
structure TookLines (m m' : Machine) : Prop where
  lineInput : m'.lineInput = m.lineInput
  suffix : lines m'.console <:+ lines m.console

lemma TookLines.of_surroundings {m' : Machine} (h : m'.surroundings = m.surroundings) :
    m.TookLines m' := by
  obtain ⟨hconsole, hlineInput⟩ := sameConsole_of_surroundings h
  exact ⟨hlineInput, hconsole ▸ List.suffix_refl _⟩

lemma TookLines.trans {m' m'' : Machine} (h : m.TookLines m') (h' : m'.TookLines m'') :
    m.TookLines m'' :=
  ⟨h'.lineInput.trans h.lineInput, h'.suffix.trans h.suffix⟩

lemma ByLines.after {m' : Machine} (h : m.ByLines) (htook : m.TookLines m') : m'.ByLines :=
  ⟨htook.lineInput.trans h.lineInput, h.filled.of_suffix htook.suffix⟩

/-! ## One step -/

/-- A line gives the same character as it does by itself. -/
lemma ByLines.read (h : m.ByLines) :
    m.byCharacters.read = m.read.byCharacters ∧ m.TookLines m.read.machine := by
  obtain ⟨-, hlines, hlineInput, -⟩ := m.read_line h.lineInput
  refine ⟨?_, hlineInput.trans h.lineInput.symm, hlines ▸ List.tail_suffix _⟩
  have hbyLines : readConsole m.lineInput m.console =
      ((chomp (splitLine m.console).1).head?, (splitLine m.console).2) := by
    simp [readConsole, h.lineInput]
  have hrest : firsts (splitLine m.console).2 = (firsts m.console).tail := by
    rw [h.filled.firsts_eq_drop (n := 1) (by rw [lines_splitLine_snd, List.drop_one]), List.drop_one]
  have hbyCharacters : readConsole m.byCharacters.lineInput m.byCharacters.console =
      ((chomp (splitLine m.console).1).head?, firsts (splitLine m.console).2) := by
    rw [hrest, ← h.filled.head?_firsts]
    rfl
  rw [Machine.read, Machine.read, hbyLines, hbyCharacters]
  rcases (chomp (splitLine m.console).1).head? with _ | char
  · rfl
  · have htape : m.byCharacters.tape.write char.toNat = m.tape.write char.toNat := rfl
    simp only [htape]
    rcases m.tape.write char.toNat with f | tape <;> rfl

theorem ByLines.execute (h : m.ByLines) (op : Operator) :
    m.byCharacters.execute op = (m.execute op).byCharacters ∧ m.TookLines (m.execute op).machine := by
  by_cases hop : op = .input
  · subst hop
    exact h.read
  · have hkept : (m.execute op).machine.surroundings = m.surroundings := surroundings_execute hop
    refine ⟨?_, .of_surroundings hkept⟩
    rw [byCharacters, execute_amid hop fun _ => rfl, ← hkept]
    rfl

lemma fetch_byCharacters (m : Machine) : m.byCharacters.fetch = m.fetch.byCharacters := by
  rw [byCharacters, fetch_amid rfl, ← surroundings_fetch]
  rfl

/-- A step by lines is a step by characters. -/
theorem ByLines.step (h : m.ByLines) :
    m.byCharacters.step = m.step.byCharacters ∧ m.TookLines m.step.machine := by
  have hfetch := m.fetch_byCharacters
  have htook : m.TookLines m.fetch.machine := .of_surroundings m.surroundings_fetch
  rcases hm : m.fetch with ⟨x, events, f | _ | op⟩ <;> rw [hm] at hfetch htook
  · rw [step_of_fetch_error hm, step_of_fetch_error hfetch]
    exact ⟨rfl, htook⟩
  · rw [step_of_none hm, step_of_none hfetch]
    exact ⟨rfl, htook⟩
  · obtain ⟨hexecute, hmore⟩ := (h.after htook).execute op
    rcases hx : x.execute op with ⟨x', more, f | _⟩ <;> rw [hx] at hexecute hmore
    · rw [step_of_error hm hx, step_of_error hfetch hexecute]
      exact ⟨rfl, htook.trans hmore⟩
    · have hdone := htook.trans hmore
      rw [step_of_ok hm hx, step_of_ok hfetch hexecute]
      exact ⟨rfl, hdone.lineInput, hdone.suffix⟩

/-! ## Runs -/

theorem ByLines.afterCalls (h : m.ByLines) (k : Nat) :
    m.byCharacters.afterCalls k = (m.afterCalls k).byCharacters ∧
      m.byCharacters.callEvents k = m.callEvents k ∧ m.TookLines (m.afterCalls k) := by
  induction k with
  | zero => exact ⟨rfl, rfl, .of_surroundings rfl⟩
  | succ k ih =>
    obtain ⟨hafter, hevents, htook⟩ := ih
    obtain ⟨hstep, hmore⟩ := (h.after htook).step
    rw [Machine.afterCalls, Machine.callEvents, hafter, hevents, hstep]
    exact ⟨rfl, rfl, htook.trans hmore⟩

lemma ByLines.stepsFrom (h : m.ByLines) (events : Array Event) (taken n : Nat) :
    stepsFrom events taken n m.byCharacters =
      ((stepsFrom events taken n m).1.byCharacters, (stepsFrom events taken n m).2) := by
  induction n generalizing m events taken with
  | zero => rfl
  | succ n ih =>
    obtain ⟨hstep, htook⟩ := h.step
    rcases hm : m.step with ⟨m', more, f | _ | _⟩ <;> rw [hm] at hstep htook <;>
      simp only [Machine.stepsFrom, hm, hstep, Outcome.byCharacters]
    exact ih (h.after htook) ..

theorem ByLines.run (h : m.ByLines) (n : Nat) : m.byCharacters.run n = (m.run n).byCharacters := by
  have hsource : m.byCharacters.source = m.source := rfl
  rw [Machine.run, Machine.run, hsource]
  cases hs : m.source.opened with
  | error f => rfl
  | ok source =>
    have hopened : (m.withSource source).ByLines := ⟨h.lineInput, h.filled⟩
    have hsteps := hopened.stepsFrom #[] 0 n
    have hself : m.byCharacters.withSource source = (m.withSource source).byCharacters := rfl
    simp only [takeSteps, hself, hsteps]
    rfl

/-- Over a text whose lines all hold a character, a run by lines and a run by characters over the first
characters of the lines are the same run, whatever the program, its kind of source and its settings. After
any number of calls of a step the one has taken as many lines as the other has taken characters. The machines
differ in nothing but what is left on the console, the same has been told and remarked on, and the next step
has the same result. -/
theorem characters_refined_by_lines (m : Machine) (text : List Char)
    (h : ∀ line ∈ lines text, chomp line ≠ []) :
    let byLines : Machine := { m with console := text, lineInput := true }
    let byCharacters : Machine := { m with console := firsts text, lineInput := false }
    (firsts text).length = (lines text).length ∧
    (∀ k, let x := byLines.afterCalls k
      let y := byCharacters.afterCalls k
      (∃ n ≤ (lines text).length,
        lines x.console = (lines text).drop n ∧ y.console = (firsts text).drop n) ∧
      x.lineInput = true ∧ y = { x with console := y.console, lineInput := false } ∧
      byCharacters.callEvents k = byLines.callEvents k ∧ y.step.result = x.step.result) ∧
    ∀ k, let o := byLines.run k
      let o' := byCharacters.run k
      o'.machine = { o.machine with console := firsts o.machine.console, lineInput := false } ∧
        o'.events = o.events ∧ o'.result = o.result := by
  intro byLines byCharacters
  have hlines : byLines.ByLines := ⟨rfl, h⟩
  have hself : byCharacters = byLines.byCharacters := rfl
  refine ⟨hlines.filled.length_firsts, fun k => ?_, fun k => ?_⟩
  · intro x y
    obtain ⟨hafter, hevents, htook⟩ := hlines.afterCalls k
    obtain ⟨hstep, -⟩ := (hlines.after htook).step
    have hy : y = x.byCharacters := hafter
    have hdrop := List.suffix_iff_eq_drop.1 htook.suffix
    refine ⟨⟨_, Nat.sub_le _ _, hdrop, ?_⟩, htook.lineInput, by rw [hy]; rfl, hevents, ?_⟩
    · rw [hy]
      exact hlines.filled.firsts_eq_drop hdrop
    · rw [hy, hstep]
      rfl
  · intro o o'
    have hrun : o' = o.byCharacters := hlines.run k
    rw [hrun]
    exact ⟨rfl, rfl, rfl⟩

/-- Two lines, the last of which has no line break, for a program that reads a third time. -/
theorem characters_refined_by_two_lines :
    let text := ['a', 'b', '\r', '\n', 'c']
    let m := ofText {} #[44, 46, 44, 46, 44, 46] []
    (∀ line ∈ lines text, chomp line ≠ []) ∧ firsts text = ['a', 'c'] ∧
      callEvents { m with console := firsts text, lineInput := false } 6 =
        callEvents { m with console := text, lineInput := true } 6 ∧
      Event.written (callEvents { m with console := text, lineInput := true } 6) = [97, 99, 99] := by
  intro text m
  have hfilled : ∀ line ∈ lines text, chomp line ≠ [] := by decide
  obtain ⟨-, -, -, hevents, -⟩ := (characters_refined_by_lines m text hfilled).2.1 6
  exact ⟨hfilled, by decide, hevents, by decide +kernel⟩

end Machine

end Brainfuck
