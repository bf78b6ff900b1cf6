import Brainfuck.Proofs.Source.Edition

/-! # Control

Where a run is in its program is told by numbers of operators: how many are behind it, and up to which
of them the loops reach that it is inside of. What one step does to a machine is told once here, for
either kind of source, and every property of runs is drawn from it. -/
namespace Brainfuck

open Brackets

/-- How many operators are behind a run, and the loops it is inside of, the innermost first. A loop is
told by the number of operators up to its opening bracket. -/
structure Control where
  index : Nat := 0
  loops : List Nat := []
  deriving DecidableEq, Repr

namespace Machine

/-- A machine of an edition that is where the control says. -/
structure At (e : Edition) (c : Control) (m : Machine) : Prop where
  source : e.Holds c.index m.source
  frames : m.frames = c.loops.map e.frame
  scan : m.skipScan = e.scan
  loops_le : ∀ l ∈ c.loops, l ≤ e.operators.length

variable {e : Edition} {c c' : Control} {m m' : Machine} {s : Source} {op : Operator} {i k l : Nat}
  {ls : List Nat} {events : List Event} {f : Fault}

lemma At.location_eq (h : m.At e c) : m.location = e.place c.index := h.source.location_eq

/-- The machine that has drawn an operator and is to carry it out. -/
def drawn (m : Machine) (s : Source) (op : Operator) : Machine :=
  { m with source := s, current := some op }

/-- The machine whose step is done. -/
def counted (m : Machine) : Machine :=
  { m with steps := m.steps + 1, finished := m.halted || m.finished }

/-- The loop whose bracket was just drawn is noted. -/
def entered (m : Machine) (e : Edition) (i : Nat) : Machine :=
  { m with frames := e.frame i :: m.frames }

/-- The machine outside of its innermost loop. -/
def outside (m : Machine) (e : Edition) (ls : List Nat) : Machine :=
  { m with frames := ls.map e.frame }

/-- The events of drawing an operator. -/
def drawEvents (m : Machine) (e : Edition) (i : Nat) (s : Source) (op : Operator) : List Event :=
  (e.remarks i (i + 1)).map (m.withSource s).reportEvent ++
    [(m.drawn s op).event .pending (some op)]

lemma At.enter (h : m.At e ⟨i, ls⟩) (hi : i ≤ e.operators.length) :
    (m.entered e i).At e ⟨i, i :: ls⟩ :=
  ⟨h.source, congrArg (_ :: ·) h.frames, h.scan, List.forall_mem_cons.2 ⟨hi, h.loops_le⟩⟩

lemma At.leave (h : m.At e ⟨i, l :: ls⟩) : (m.outside e ls).At e ⟨i, ls⟩ :=
  ⟨h.source, rfl, h.scan, fun l hl => h.loops_le l (.tail _ hl)⟩

lemma At.moved (h : m.At e c) (hs : e.Holds k s) : (m.withSource s).At e ⟨k, c.loops⟩ :=
  ⟨hs, h.frames, h.scan, h.loops_le⟩

lemma At.drawn (h : m.At e c) (hs : e.Holds (c.index + 1) s) (op : Operator) :
    (m.drawn s op).At e { c with index := c.index + 1 } :=
  ⟨hs, h.frames, h.scan, h.loops_le⟩

/-! ## Drawing an operator -/

theorem fetch_finished (h : m.finished = true) : m.fetch = ⟨m, [], .ok none⟩ := by
  simp [fetch, h]

theorem fetch_limit (h : m.finished = false) (hl : m.limitReached = true) :
    m.fetch = ⟨{ m with finished := true, hitStepLimit := true }, [], .ok none⟩ := by
  simp [fetch, h, hl]

/-- An operator that the source gives becomes the current one, and is told of. -/
theorem fetch_next {reports : List Diagnostic} (hf : m.finished = false) (hl : m.limitReached = false)
    (h : m.source.next = .ok ⟨s, reports, some op⟩) :
    m.fetch = ⟨m.drawn s op,
      reports.map (m.withSource s).reportEvent ++ [(m.drawn s op).event .pending (some op)],
      .ok (some op)⟩ := by
  simp [fetch, hf, hl, h, withSource, Machine.drawn]

theorem fetch_end {reports : List Diagnostic} (hf : m.finished = false) (hl : m.limitReached = false)
    (h : m.source.next = .ok ⟨s, reports, none⟩) :
    m.fetch = ⟨{ m with source := s, finished := true }, reports.map (m.withSource s).reportEvent,
      .ok none⟩ := by
  simp [fetch, hf, hl, h, withSource]

/-- At the end of the program the machine is finished. -/
theorem At.fetch_none (h : m.At e c) (hf : m.finished = false) (hl : m.limitReached = false)
    (hop : e.operators[c.index]? = none) :
    ∃ s, e.Holds (c.index + 1) s ∧ m.fetch =
      ⟨{ m with source := s, finished := true },
        (e.remarks c.index (c.index + 1)).map (m.withSource s).reportEvent, .ok none⟩ := by
  obtain ⟨s, hs, hnext⟩ := h.source.next
  rw [hop] at hnext
  exact ⟨s, hs, fetch_end hf hl hnext⟩

theorem At.fetch_some (h : m.At e c) (hf : m.finished = false) (hl : m.limitReached = false)
    (hop : e.operators[c.index]? = some op) :
    ∃ s, e.Holds (c.index + 1) s ∧
      m.fetch = ⟨m.drawn s op, m.drawEvents e c.index s op, .ok (some op)⟩ := by
  obtain ⟨s, hs, hnext⟩ := h.source.next
  rw [hop] at hnext
  exact ⟨s, hs, fetch_next hf hl hnext⟩

/-- Unless an operator is drawn, a step is over, and with it the run. -/
theorem At.fetch_cases (h : m.At e c) :
    (∃ x events, m.fetch = ⟨x, events, .ok none⟩ ∧ x.finished = true ∧ x.tape = m.tape ∧
      x.output = m.output ∧ x.steps = m.steps ∧ x.halted = m.halted) ∨
    ∃ s op, m.finished = false ∧ e.operators[c.index]? = some op ∧ e.Holds (c.index + 1) s ∧
      m.fetch = ⟨m.drawn s op, m.drawEvents e c.index s op, .ok (some op)⟩ := by
  cases hf : m.finished with
  | true => exact .inl ⟨m, [], fetch_finished hf, hf, rfl, rfl, rfl, rfl⟩
  | false =>
    cases hl : m.limitReached with
    | true => exact .inl ⟨_, _, fetch_limit hf hl, rfl, rfl, rfl, rfl, rfl⟩
    | false =>
      cases hop : e.operators[c.index]? with
      | none =>
        obtain ⟨s, -, hfetch⟩ := h.fetch_none hf hl hop
        exact .inl ⟨_, _, hfetch, rfl, rfl, rfl, rfl, rfl⟩
      | some op =>
        obtain ⟨s, hs, hfetch⟩ := h.fetch_some hf hl hop
        exact .inr ⟨s, op, rfl, rfl, hs, hfetch⟩

/-! ## Carrying it out -/

/-- An action touches nothing but the tape and the two texts. -/
theorem execute_action (m : Machine) (a : Action) :
    ∃ tape console output, (m.execute a.operator).machine =
      { m with tape := tape, console := console, output := output } := by
  cases a with
  | right | left =>
    simp only [Action.operator, execute, walk]
    split <;> exact ⟨_, _, _, rfl⟩
  | increment | decrement =>
    simp only [Action.operator, execute, add]
    split <;> exact ⟨_, _, _, rfl⟩
  | output =>
    simp only [Action.operator, execute, write]
    split <;> exact ⟨_, _, _, rfl⟩
  | input =>
    simp only [Action.operator, execute, read]
    split
    · exact ⟨_, _, _, rfl⟩
    · split <;> exact ⟨_, _, _, rfl⟩

/-- What an action comes to. It tells nothing, unless it takes the pointer around the tape or writes. -/
inductive Acts (m : Machine) : Action → Outcome Unit → Prop
  | silent {a : Action} (tape : Tape) (console : List Char) (result : Except Fault Unit)
    (hop : a = .output → result ≠ .ok ()) :
    Acts m a ⟨{ m with tape := tape, console := console }, [], result⟩
  | wrapped {a : Action} (tape : Tape) (w : Wrap) (hop : a = .right ∨ a = .left) :
    Acts m a ⟨m.withTape tape, [(m.withTape tape).problemEvent (.wrapped w tape.length)], .ok ()⟩
  | written : Acts m .output
    ⟨{ m with output := m.output.push m.tape.read },
      [m.event (.output m.tape.read) (some .output)], .ok ()⟩

theorem acts (m : Machine) (a : Action) : Acts m a (m.execute a.operator) := by
  cases a with
  | right | left =>
    simp only [Action.operator, execute, walk]
    split
    · exact .silent _ m.console _ (by simp)
    · exact .wrapped _ _ (by simp)
  | increment | decrement =>
    simp only [Action.operator, execute, add]
    split
    · exact .silent _ m.console _ (by simp)
    · exact .silent m.tape m.console _ (by simp)
  | output =>
    simp only [Action.operator, execute, write]
    split
    · exact .written
    · exact .silent m.tape m.console _ (by simp)
  | input =>
    simp only [Action.operator, execute, read]
    split
    · exact .silent m.tape _ _ (by simp)
    · split
      · exact .silent _ _ _ (by simp)
      · exact .silent m.tape _ _ (by simp)

/-- A loop over a cell that is not zero is entered. -/
theorem At.startLoop_enter (h : m.At e c) (hc : c.index ≤ e.operators.length)
    (hv : m.tape.read ≠ 0) :
    m.startLoop = ⟨m.entered e c.index,
      [(m.entered e c.index).event .loopEntered (some .loopStart)], .ok ()⟩ := by
  simp [startLoop, h.source.position_eq hc, hv, h.location_eq, Edition.frame, entered]

/-- Skipping a loop leads to where it ends, with the remarks on the way. If it has no end, the machine
halts at the end of the program, and the note of the loop stays. -/
theorem At.skipLoop (h : m.At e ⟨i + 1, ls⟩) (hop : e.operators[i]? = some .loopStart) :
    ∃ s, e.Holds (e.loopEnd (i + 1)) s ∧ (m.entered e (i + 1)).skipLoop =
      ((if (skipEnd e.scan 0 e.operators (i + 1)).isSome then
        ⟨m.withSource s, [], .ok ()⟩
      else
        ⟨{ (m.entered e (i + 1)).withSource s with halted := true },
          [((m.entered e (i + 1)).withSource s).problemEvent .unclosedLoop], .ok ()⟩) : Outcome Unit).after
        ((e.remarks (i + 1) (e.loopEnd (i + 1))).map (m.entered e (i + 1)).reportEvent) := by
  have hi : i + 1 ≤ e.operators.length := (List.getElem?_eq_some_iff.1 hop).1
  have hpos := h.source.position_eq hi
  have hmatch := h.source.matchingEnd hop
  by_cases hjump : e.precompile = true ∧ (skipEnd e.scan 0 e.operators (i + 1)).isSome
  · -- the table knows the end of the loop, and there is nothing to remark on
    obtain ⟨hp, hsome⟩ := hjump
    obtain ⟨j, hj⟩ := Option.isSome_iff_exists.1 hsome
    obtain ⟨hij, hjn⟩ := skipEnd_bounds hj
    obtain ⟨k, rfl⟩ : ∃ k, j = k + 1 := ⟨j - 1, by omega⟩
    obtain ⟨s, hs, hseek⟩ := h.source.jump hp hjn
    refine ⟨s, by simpa [Edition.loopEnd, hj] using hs, ?_⟩
    rw [hp, if_pos rfl, hj, Option.map_some, Int.ofNat_eq_natCast] at hmatch
    have hsource : (m.entered e (i + 1)).source = m.source := rfl
    simp only [Machine.skipLoop, hsource, hpos, hmatch, hseek]
    simp [hj, Edition.remarks, hp, Outcome.after, entered, withSource]
  · have hnone : m.source.matchingEnd (e.position (i + 1)) = none := by
      rw [hmatch]
      split
      · rw [Option.map_eq_none_iff, ← Option.not_isSome_iff_eq_none]
        exact fun hsome => hjump ⟨‹_›, hsome⟩
      · rfl
    obtain ⟨s, hs, hskip⟩ := h.source.skip hi
    refine ⟨s, hs, ?_⟩
    have hsource : (m.entered e (i + 1)).source = m.source := rfl
    have hscan : (m.entered e (i + 1)).skipScan = e.scan := h.scan
    simp only [Machine.skipLoop, hsource, hscan, hpos, hnone, hskip]
    cases hj : skipEnd e.scan 0 e.operators (i + 1) <;>
      simp [Edition.loopEnd, hj, withSource, Outcome.after, entered]

/-- The events of skipping a loop. -/
def skipEvents (m : Machine) (e : Edition) (i : Nat) : List Event :=
  (m.entered e i).event .loopSkipped (some .loopStart) ::
    (e.remarks i (e.loopEnd i)).map (m.entered e i).reportEvent

lemma At.startLoop_zero (h : m.At e ⟨i + 1, ls⟩) (hop : e.operators[i]? = some .loopStart)
    (hv : m.tape.read = 0) :
    m.startLoop = (m.entered e (i + 1)).skipLoop.after
      [(m.entered e (i + 1)).event .loopSkipped (some .loopStart)] := by
  have hi : i + 1 ≤ e.operators.length := (List.getElem?_eq_some_iff.1 hop).1
  have hpos := h.source.position_eq hi
  have hloc : m.location = e.place (i + 1) := h.location_eq
  simp only [startLoop, hpos, hloc, hv, ne_eq, not_true_eq_false, if_false, List.map_nil,
    List.nil_append]
  rfl

theorem At.startLoop_skip (h : m.At e ⟨i + 1, ls⟩) (hop : e.operators[i]? = some .loopStart)
    (hv : m.tape.read = 0) (hk : skipEnd e.scan 0 e.operators (i + 1) = some k) :
    ∃ s, e.Holds k s ∧ m.startLoop = ⟨m.withSource s, m.skipEvents e (i + 1), .ok ()⟩ := by
  obtain ⟨s, hs, hskip⟩ := h.skipLoop hop
  refine ⟨s, by simpa [Edition.loopEnd, hk] using hs, ?_⟩
  rw [h.startLoop_zero hop hv, hskip, hk]
  simp [Outcome.after, skipEvents]

theorem At.startLoop_halt (h : m.At e ⟨i + 1, ls⟩) (hop : e.operators[i]? = some .loopStart)
    (hv : m.tape.read = 0) (hk : skipEnd e.scan 0 e.operators (i + 1) = none) :
    ∃ s, e.Holds (e.operators.length + 1) s ∧ m.startLoop =
      ⟨{ (m.entered e (i + 1)).withSource s with halted := true },
        m.skipEvents e (i + 1) ++ [((m.entered e (i + 1)).withSource s).problemEvent .unclosedLoop],
        .ok ()⟩ := by
  obtain ⟨s, hs, hskip⟩ := h.skipLoop hop
  refine ⟨s, by simpa [Edition.loopEnd, hk] using hs, ?_⟩
  rw [h.startLoop_zero hop hv, hskip, hk]
  simp [Outcome.after, skipEvents]

theorem At.endLoop_stray (h : m.At e ⟨i, []⟩) :
    m.endLoop = ⟨m, [m.problemEvent .unopenedLoop], .ok ()⟩ := by
  have hframes : m.frames = [] := h.frames
  simp [endLoop, hframes]

theorem At.endLoop_leave (h : m.At e ⟨i, l :: ls⟩) (hv : m.tape.read = 0) :
    m.endLoop = ⟨m.outside e ls, [(m.outside e ls).event .loopExited (some .loopEnd)], .ok ()⟩ := by
  have hframes : m.frames = e.frame l :: ls.map e.frame := h.frames
  simp [endLoop, hframes, hv, outside]

theorem At.endLoop_repeat (h : m.At e ⟨i, l :: ls⟩) (hv : m.tape.read ≠ 0) :
    ∃ s, e.Holds l s ∧ m.endLoop = ⟨m.withSource s,
      [(m.withSource s).event (.loopRepeated (e.place l)) (some .loopEnd)], .ok ()⟩ := by
  have hframes : m.frames = e.frame l :: ls.map e.frame := h.frames
  obtain ⟨s, hs, hseek⟩ := h.source.seek (h.loops_le l (.head _))
  exact ⟨s, hs, by simp [endLoop, hframes, hv, Edition.frame, hseek]⟩

/-- What carrying out an operator comes to, and where it leads. An action leaves the control alone. -/
inductive Executes (e : Edition) (m : Machine) : Control → Operator → Control → Outcome Unit → Prop
  | action (c : Control) (a : Action) : Executes e m c a.operator c (m.execute a.operator)
  | enter {i : Nat} {ls : List Nat} (hop : e.operators[i]? = some .loopStart)
    (hv : m.tape.read ≠ 0) :
    Executes e m ⟨i + 1, ls⟩ .loopStart ⟨i + 1, (i + 1) :: ls⟩
      ⟨m.entered e (i + 1), [(m.entered e (i + 1)).event .loopEntered (some .loopStart)], .ok ()⟩
  | skip {i k : Nat} {ls : List Nat} {s : Source} (hop : e.operators[i]? = some .loopStart)
    (hv : m.tape.read = 0) (hk : skipEnd e.scan 0 e.operators (i + 1) = some k) (hs : e.Holds k s) :
    Executes e m ⟨i + 1, ls⟩ .loopStart ⟨k, ls⟩
      ⟨m.withSource s, m.skipEvents e (i + 1), .ok ()⟩
  | halt {i : Nat} {ls : List Nat} {s : Source} (hop : e.operators[i]? = some .loopStart)
    (hv : m.tape.read = 0) (hk : skipEnd e.scan 0 e.operators (i + 1) = none)
    (hs : e.Holds (e.operators.length + 1) s) :
    Executes e m ⟨i + 1, ls⟩ .loopStart ⟨e.operators.length + 1, (i + 1) :: ls⟩
      ⟨{ (m.entered e (i + 1)).withSource s with halted := true },
        m.skipEvents e (i + 1) ++ [((m.entered e (i + 1)).withSource s).problemEvent .unclosedLoop],
        .ok ()⟩
  | stray {i : Nat} (hop : e.operators[i]? = some .loopEnd) :
    Executes e m ⟨i + 1, []⟩ .loopEnd ⟨i + 1, []⟩ ⟨m, [m.problemEvent .unopenedLoop], .ok ()⟩
  | leave {i l : Nat} {ls : List Nat} (hop : e.operators[i]? = some .loopEnd)
    (hv : m.tape.read = 0) :
    Executes e m ⟨i + 1, l :: ls⟩ .loopEnd ⟨i + 1, ls⟩
      ⟨m.outside e ls, [(m.outside e ls).event .loopExited (some .loopEnd)], .ok ()⟩
  | again {i l : Nat} {ls : List Nat} {s : Source} (hop : e.operators[i]? = some .loopEnd)
    (hv : m.tape.read ≠ 0) (hs : e.Holds l s) :
    Executes e m ⟨i + 1, l :: ls⟩ .loopEnd ⟨l, l :: ls⟩
      ⟨m.withSource s, [(m.withSource s).event (.loopRepeated (e.place l)) (some .loopEnd)], .ok ()⟩

theorem At.executes (h : m.At e ⟨i + 1, ls⟩) (hop : e.operators[i]? = some op) :
    ∃ c', Executes e m ⟨i + 1, ls⟩ op c' (m.execute op) := by
  obtain rfl | rfl | ⟨a, rfl⟩ := op.bracket_or_action
  · by_cases hv : m.tape.read = 0
    · cases hk : skipEnd e.scan 0 e.operators (i + 1) with
      | some k =>
        obtain ⟨s, hs, hx⟩ := h.startLoop_skip hop hv hk
        exact ⟨_, by rw [execute, hx]; exact .skip hop hv hk hs⟩
      | none =>
        obtain ⟨s, hs, hx⟩ := h.startLoop_halt hop hv hk
        exact ⟨_, by rw [execute, hx]; exact .halt hop hv hk hs⟩
    · have hi : i + 1 ≤ e.operators.length := (List.getElem?_eq_some_iff.1 hop).1
      exact ⟨_, by rw [execute, h.startLoop_enter hi hv]; exact .enter hop hv⟩
  · cases ls with
    | nil => exact ⟨_, by rw [execute, h.endLoop_stray]; exact .stray hop⟩
    | cons l ls =>
      by_cases hv : m.tape.read = 0
      · exact ⟨_, by rw [execute, h.endLoop_leave hv]; exact .leave hop hv⟩
      · obtain ⟨s, hs, hx⟩ := h.endLoop_repeat hv
        exact ⟨_, by rw [execute, hx]; exact .again hop hv hs⟩
  · exact ⟨_, .action _ a⟩

/-- The machine is where its control says also after an operator, whether or not there was a fault. -/
theorem Executes.at {o : Outcome Unit} (hx : Executes e m c op c' o) (h : m.At e c) :
    o.machine.At e c' := by
  cases hx with
  | action _ a =>
    obtain ⟨tape, console, output, hm⟩ := m.execute_action a
    rw [hm]
    exact ⟨h.source, h.frames, h.scan, h.loops_le⟩
  | enter hop => exact h.enter (List.getElem?_eq_some_iff.1 hop).1
  | skip _ _ _ hs => exact h.moved hs
  | halt hop _ _ hs =>
    have hentered := (h.enter (List.getElem?_eq_some_iff.1 hop).1).moved hs
    exact ⟨hentered.source, hentered.frames, hentered.scan, hentered.loops_le⟩
  | stray => exact h
  | leave => exact h.leave
  | again _ _ hs => exact h.moved hs

/-- What carrying out an operator leaves to the step. -/
structure Unchanged (m m' : Machine) : Prop where
  stepLimit : m'.stepLimit = m.stepLimit
  lineInput : m'.lineInput = m.lineInput
  steps : m'.steps = m.steps
  finished : m'.finished = m.finished
  hitStepLimit : m'.hitStepLimit = m.hitStepLimit

theorem Executes.unchanged {o : Outcome Unit} (hx : Executes e m c op c' o) : m.Unchanged o.machine := by
  cases hx with
  | action _ a =>
    obtain ⟨tape, console, output, hm⟩ := m.execute_action a
    rw [hm]
    exact ⟨rfl, rfl, rfl, rfl, rfl⟩
  | enter | skip | halt | stray | leave | again => exact ⟨rfl, rfl, rfl, rfl, rfl⟩

/-- Only an action can be at fault. -/
theorem Executes.of_fault (hx : Executes e m c op c' ⟨m', events, .error f⟩) :
    c' = c ∧ ∃ a : Action, op = a.operator ∧ m.execute a.operator = ⟨m', events, .error f⟩ := by
  generalize ho : (⟨m', events, .error f⟩ : Outcome Unit) = o at hx
  cases hx with
  | action c a => exact ⟨rfl, a, rfl, rfl⟩
  | enter | skip | halt | stray | leave | again => simp at ho

/-! ## One step -/

/-- What a step comes to, and where it leads. -/
inductive Step (e : Edition) (m : Machine) : Control → Control → Outcome Bool → Prop
  | finished (c : Control) (hf : m.finished = true) : Step e m c c ⟨m, [], .ok false⟩
  | limit (c : Control) (hf : m.finished = false) (hl : m.limitReached = true) :
    Step e m c c ⟨{ m with finished := true, hitStepLimit := true }, [], .ok false⟩
  | ended {c : Control} {s : Source} (hf : m.finished = false) (hl : m.limitReached = false)
    (hop : e.operators[c.index]? = none) (hs : e.Holds (c.index + 1) s) :
    Step e m c { c with index := c.index + 1 }
      ⟨{ m with source := s, finished := true },
        (e.remarks c.index (c.index + 1)).map (m.withSource s).reportEvent, .ok false⟩
  | done {c c' : Control} {s : Source} {op : Operator} {m' : Machine} {events : List Event}
    (hf : m.finished = false) (hl : m.limitReached = false)
    (hop : e.operators[c.index]? = some op) (hs : e.Holds (c.index + 1) s)
    (hx : Executes e (m.drawn s op) { c with index := c.index + 1 } op c' ⟨m', events, .ok ()⟩) :
    Step e m c c'
      ⟨m'.counted, m.drawEvents e c.index s op ++ (events ++ [m'.counted.event .applied (some op)]),
        .ok (!m'.halted)⟩
  | fault {c c' : Control} {s : Source} {op : Operator} {m' : Machine} {events : List Event}
    {f : Fault} (hf : m.finished = false) (hl : m.limitReached = false)
    (hop : e.operators[c.index]? = some op) (hs : e.Holds (c.index + 1) s)
    (hx : Executes e (m.drawn s op) { c with index := c.index + 1 } op c' ⟨m', events, .error f⟩) :
    Step e m c c' ⟨m', m.drawEvents e c.index s op ++ events, .error f⟩

lemma step_of_none {x : Machine} (h : m.fetch = ⟨x, events, .ok none⟩) :
    m.step = ⟨x, events, .ok false⟩ := by
  simp [Machine.step, h, Outcome.bind, Outcome.after]

lemma step_of_ok {x : Machine} {more : List Event} (h : m.fetch = ⟨x, events, .ok (some op)⟩)
    (hx : x.execute op = ⟨m', more, .ok ()⟩) :
    m.step = ⟨m'.counted, events ++ (more ++ [m'.counted.event .applied (some op)]),
      .ok (!m'.halted)⟩ := by
  simp [Machine.step, h, Outcome.bind, Outcome.after, complete, hx, count, counted]

lemma step_of_error {x : Machine} {more : List Event} (h : m.fetch = ⟨x, events, .ok (some op)⟩)
    (hx : x.execute op = ⟨m', more, .error f⟩) : m.step = ⟨m', events ++ more, .error f⟩ := by
  simp [Machine.step, h, Outcome.bind, Outcome.after, complete, hx]

theorem At.step (h : m.At e c) : ∃ c', Step e m c c' m.step := by
  cases hf : m.finished with
  | true => exact ⟨c, by rw [step_of_none (fetch_finished hf)]; exact .finished c hf⟩
  | false =>
    cases hl : m.limitReached with
    | true => exact ⟨c, by rw [step_of_none (fetch_limit hf hl)]; exact .limit c hf hl⟩
    | false =>
      cases hop : e.operators[c.index]? with
      | none =>
        obtain ⟨s, hs, hfetch⟩ := h.fetch_none hf hl hop
        exact ⟨_, by rw [step_of_none hfetch]; exact .ended hf hl hop hs⟩
      | some op =>
        obtain ⟨s, hs, hfetch⟩ := h.fetch_some hf hl hop
        obtain ⟨c', hx⟩ := (h.drawn hs op).executes hop
        rcases ho : (m.drawn s op).execute op with ⟨m', events, _ | _⟩
        · exact ⟨c', by rw [step_of_error hfetch ho]; exact .fault hf hl hop hs (ho ▸ hx)⟩
        · exact ⟨c', by rw [step_of_ok hfetch ho]; exact .done hf hl hop hs (ho ▸ hx)⟩

theorem Step.at {o : Outcome Bool} (hstep : Step e m c c' o) (h : m.At e c) : o.machine.At e c' := by
  cases hstep with
  | finished => exact h
  | limit => exact ⟨h.source, h.frames, h.scan, h.loops_le⟩
  | ended _ _ _ hs => exact ⟨hs, h.frames, h.scan, h.loops_le⟩
  | done _ _ _ hs hx =>
    have hx := hx.at (h.drawn hs _)
    exact ⟨hx.source, hx.frames, hx.scan, hx.loops_le⟩
  | fault _ _ _ hs hx => exact hx.at (h.drawn hs _)

end Machine

end Brainfuck
