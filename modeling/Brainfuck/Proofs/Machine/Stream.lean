import Brainfuck.Proofs.Machine.Course

/-! # What a run tells

The events of a step are told in a fixed order: what the decoder remarks on, the pending operator, what
comes of it, and that it was applied. The pending operator is told of over the tape before the step and
the applied one over the tape after it. The events of a whole run add up to its state: one applied
operator for each step, the texts that were written in the order of the output, and the loops that were
entered and not left, which are those that the run is inside of. -/
namespace Brainfuck

namespace Event

/-- The event carries a remark of a category. -/
def Remarks (category : Category) (x : Event) : Prop :=
  ∃ d, x.kind = .diagnostic d ∧ d.category = category

/-- The event is of a kind, and tells of an operator and of the pointer and the cell of a tape. -/
structure Over (t : Tape) (kind : Kind) (op : Operator) (x : Event) : Prop where
  kind : x.kind = kind
  operator : x.operator = some op
  pointer : x.pointer = t.pointer
  value : x.value = t.read

lemma over_event (m : Machine) (kind : Kind) (op : Operator) :
    (m.event kind (some op)).Over m.tape kind op := ⟨rfl, rfl, rfl, rfl⟩

/-- Nothing is told but remarks of the decoder, and not even these if the program was decoded in
advance. -/
def DecodeOnly (precompile : Bool) (events : List Event) : Prop :=
  ∀ x ∈ events, precompile = false ∧ x.Remarks .decode

lemma DecodeOnly.nil (precompile : Bool) : DecodeOnly precompile [] := by simp [DecodeOnly]

lemma decodeOnly_remarks (e : Edition) (m : Machine) (i j : Nat) :
    DecodeOnly e.precompile ((e.remarks i j).map m.reportEvent) := by
  intro x hx
  obtain ⟨d, hd, rfl⟩ := List.mem_map.1 hx
  have hdecode := Edition.isDecode_of_mem_remarks hd
  refine ⟨?_, d, rfl, by simpa [Diagnostic.isDecode] using hdecode⟩
  by_contra hp
  simp [Edition.remarks, hp] at hd

lemma remarks_problemEvent (m : Machine) (p : Problem) : (m.problemEvent p).Remarks p.category :=
  ⟨_, rfl, rfl⟩

/-- What is told between an operator that is pending over a tape and its being applied. -/
inductive Body (precompile : Bool) (t : Tape) : Operator → List Event → Prop
  | quiet {op : Operator} (hop : op ∈ [Operator.increment, .decrement, .input]) : Body precompile t op []
  | inside {op : Operator} (hop : op ∈ [Operator.right, .left]) : Body precompile t op []
  | wrapped {op : Operator} {x : Event} (hop : op ∈ [Operator.right, .left]) (hx : x.Remarks .range) :
    Body precompile t op [x]
  | written {x : Event} (hx : x.Over t (.output t.read) .output) : Body precompile t .output [x]
  | entered {x : Event} (hv : t.read ≠ 0) (hx : x.Over t .loopEntered .loopStart) :
    Body precompile t .loopStart [x]
  | skipped {x : Event} {decodes : List Event} (hv : t.read = 0) (hx : x.Over t .loopSkipped .loopStart)
    (hdecodes : DecodeOnly precompile decodes) : Body precompile t .loopStart (x :: decodes)
  | unclosed {x y : Event} {decodes : List Event} (hv : t.read = 0)
    (hx : x.Over t .loopSkipped .loopStart) (hdecodes : DecodeOnly precompile decodes)
    (hy : y.Remarks .structural) : Body precompile t .loopStart (x :: decodes ++ [y])
  | exited {x : Event} (hv : t.read = 0) (hx : x.Over t .loopExited .loopEnd) :
    Body precompile t .loopEnd [x]
  | repeated {x : Event} {target : Location} (hv : t.read ≠ 0)
    (hx : x.Over t (.loopRepeated target) .loopEnd) : Body precompile t .loopEnd [x]
  | unopened {x : Event} (hx : x.Remarks .structural) : Body precompile t .loopEnd [x]

/-- How many events are of a kind. -/
def tally (kind : Kind) (events : List Event) : Nat := events.countP (·.kind = kind)

variable {kind : Kind}

@[simp] lemma tally_nil (kind : Kind) : tally kind [] = 0 := rfl

@[simp] lemma tally_append (kind : Kind) (xs ys : List Event) :
    tally kind (xs ++ ys) = tally kind xs + tally kind ys := List.countP_append ..

@[simp] lemma tally_event (m : Machine) (k : Kind) (op : Option Operator) (events : List Event) :
    tally kind (m.event k op :: events) = tally kind events + if k = kind then 1 else 0 := by
  simp [tally, List.countP_cons, Machine.event]

@[simp] lemma tally_reports (h : ∀ d, .diagnostic d ≠ kind) (m : Machine) (ds : List Diagnostic) :
    tally kind (ds.map m.reportEvent) = 0 := by
  simp [tally, List.countP_eq_zero, Machine.reportEvent, Machine.event, h]

@[simp] lemma tally_problem (h : ∀ d, .diagnostic d ≠ kind) (m : Machine) (p : Problem) :
    tally kind [m.problemEvent p] = 0 := by
  simp [Machine.problemEvent, h]

@[simp] lemma written_nil : written [] = [] := rfl

@[simp] lemma written_append (xs ys : List Event) : written (xs ++ ys) = written xs ++ written ys :=
  List.filterMap_append

@[simp] lemma written_event (m : Machine) (k : Kind) (op : Option Operator) (events : List Event) :
    written (m.event k op :: events) =
      (match k with | .output code => [code] | _ => []) ++ written events := by
  cases k <;> rfl

@[simp] lemma written_reports (m : Machine) (ds : List Diagnostic) :
    written (ds.map m.reportEvent) = [] := by
  simp [written, written?, Machine.reportEvent, Machine.event]

@[simp] lemma written_problem (m : Machine) (p : Problem) : written [m.problemEvent p] = [] := by
  simp [Machine.problemEvent]

end Event

namespace Machine

open Event

variable {e : Edition} {c c' : Control} {m : Machine} {op : Operator} {i : Nat} {ls : List Nat}
  {s : Source} {kind : Kind} {f : Fault}

/-! ## One step -/

/-- An action that is carried out tells what comes of it. -/
lemma Acts.body {a : Action} {o : Outcome Unit} (hacts : m.Acts a o) (hok : o.result = .ok ())
    (precompile : Bool) : Body precompile m.tape a.operator o.events := by
  cases hacts with
  | silent _ _ _ hop =>
    cases a with
    | right | left => exact .inside (by simp [Action.operator])
    | increment | decrement | input => exact .quiet (by simp [Action.operator])
    | output => exact absurd hok (hop rfl)
  | wrapped _ _ hop =>
    refine .wrapped ?_ (remarks_problemEvent ..)
    rcases hop with rfl | rfl <;> simp [Action.operator]
  | written => exact .written ⟨rfl, rfl, rfl, rfl⟩

/-- An operator that is carried out tells what comes of it. -/
theorem Executes.body {o : Outcome Unit} (hx : Executes e m c op c' o) (hok : o.result = .ok ()) :
    Body e.precompile m.tape op o.events := by
  cases hx with
  | action _ a => exact (m.acts a).body hok e.precompile
  | enter _ hv => exact .entered hv (over_event (m.entered e _) ..)
  | skip _ hv => exact .skipped hv (over_event (m.entered e _) ..) (decodeOnly_remarks _ _ _ _)
  | halt _ hv =>
    exact .unclosed hv (over_event (m.entered e _) ..) (decodeOnly_remarks _ _ _ _)
      (remarks_problemEvent ..)
  | stray => exact .unopened (remarks_problemEvent ..)
  | leave _ hv => exact .exited hv (over_event (m.outside e _) ..)
  | @again _ _ _ s _ hv => exact .repeated hv (over_event (m.withSource s) ..)

/-- An operator that is at fault tells nothing. -/
theorem Executes.events_of_fault {o : Outcome Unit} (hx : Executes e m c op c' o)
    (hfault : o.result = .error f) : o.events = [] := by
  cases hx with
  | action _ a =>
    have hacts := m.acts a
    generalize m.execute a.operator = o at hacts hfault
    cases hacts with
    | silent => rfl
    | wrapped | written => simp at hfault
  | enter | skip | halt | stray | leave | again => simp at hfault

/-- What a call of a step tells: remarks of the decoder if the run is over, and else the pending
operator, what comes of it and that it was applied, unless there is a fault. -/
inductive Tells (precompile : Bool) (m : Machine) (o : Outcome Bool) : Prop
  | over (hevents : DecodeOnly precompile o.events) (hfinished : o.machine.finished = true)
    (hsteps : o.machine.steps = m.steps) (htape : o.machine.tape = m.tape)
    (hresult : o.result = .ok false)
  | done {decodes body : List Event} {pending applied : Event} {op : Operator}
    (hdecodes : DecodeOnly precompile decodes) (hpending : pending.Over m.tape .pending op)
    (hbody : Body precompile m.tape op body) (happlied : applied.Over o.machine.tape .applied op)
    (hevents : o.events = decodes ++ (pending :: body ++ [applied]))
    (hsteps : o.machine.steps = m.steps + 1) (hresult : o.result = .ok (!o.machine.halted))
  | fault {decodes : List Event} {pending : Event} {op : Operator} {f : Fault}
    (hdecodes : DecodeOnly precompile decodes) (hpending : pending.Over m.tape .pending op)
    (hevents : o.events = decodes ++ [pending]) (hsteps : o.machine.steps = m.steps)
    (hresult : o.result = .error f)

theorem Step.tells {o : Outcome Bool} (hstep : Step e m c c' o) : Tells e.precompile m o := by
  cases hstep with
  | finished hf => exact .over (.nil _) hf rfl rfl rfl
  | limit => exact .over (.nil _) rfl rfl rfl rfl
  | ended => exact .over (decodeOnly_remarks _ _ _ _) rfl rfl rfl rfl
  | @done _ s op m' events _ _ _ _ hx =>
    have hdecodes := decodeOnly_remarks e (m.withSource s) c.index (c.index + 1)
    have hpending := over_event (m.drawn s op) .pending op
    have hsteps := congrArg (· + 1) hx.unchanged.steps
    exact .done hdecodes hpending (hx.body rfl) (over_event m'.counted ..) (by simp [drawEvents]) hsteps rfl
  | @fault _ s op _ events _ _ _ _ _ hx =>
    have hdecodes := decodeOnly_remarks e (m.withSource s) c.index (c.index + 1)
    have hpending := over_event (m.drawn s op) .pending op
    obtain rfl : events = [] := hx.events_of_fault rfl
    exact .fault hdecodes hpending (List.append_nil _) hx.unchanged.steps rfl

/-! ## A whole run -/

@[simp] lemma tally_drawEvents (h : ∀ d, .diagnostic d ≠ kind) (hp : .pending ≠ kind) :
    tally kind (m.drawEvents e i s op) = 0 := by
  simp [drawEvents, h, hp]

@[simp] lemma tally_skipEvents (h : ∀ d, .diagnostic d ≠ kind) (hs : .loopSkipped ≠ kind) :
    tally kind (m.skipEvents e i) = 0 := by
  simp [skipEvents, h, hs]

@[simp] lemma tally_action (h : ∀ d, .diagnostic d ≠ kind) (hw : ∀ code, .output code ≠ kind)
    (m : Machine) (a : Action) : tally kind (m.execute a.operator).events = 0 := by
  have hacts := m.acts a
  generalize m.execute a.operator = o at hacts ⊢
  cases hacts with
  | silent => rfl
  | wrapped => exact tally_problem h ..
  | written => simp [hw]

@[simp] lemma written_drawEvents : written (m.drawEvents e i s op) = [] := by simp [drawEvents]

@[simp] lemma written_skipEvents : written (m.skipEvents e i) = [] := by simp [skipEvents]

/-- What an action writes is told of. -/
lemma output_action (m : Machine) (a : Action) :
    (m.execute a.operator).machine.output.toList =
      m.output.toList ++ written (m.execute a.operator).events := by
  have hacts := m.acts a
  generalize m.execute a.operator = o at hacts ⊢
  cases hacts with
  | silent | wrapped => simp [withTape]
  | written => simp

/-- The events of a run add up to its state. The loop of a bracket that halted the machine is noted but
was not entered. -/
structure Tallied (m : Machine) (events : List Event) : Prop where
  applied : tally .applied events = m.steps
  written : written events = m.output.toList
  loops : tally .loopEntered events + m.halted.toNat = tally .loopExited events + m.frames.length

/-- What an operator adds to the events it adds to the state, but for the step, which is counted
later. -/
theorem Executes.tallied {o : Outcome Unit} (hx : Executes e m c op c' o) (hm : m.At e c)
    (hlive : m.halted = false) {events : List Event} (h : m.Tallied events) :
    o.machine.Tallied (events ++ o.events) := by
  obtain ⟨happlied, hwritten, hloops⟩ := h
  cases hx with
  | action _ a =>
    have houtput := m.output_action a
    obtain ⟨tape, console, output, hmachine⟩ := m.execute_action a
    rw [hmachine] at houtput ⊢
    constructor <;> simp_all
  | enter | skip | halt | stray =>
    constructor <;> simp_all [entered, withSource]
    all_goals omega
  | leave =>
    have hframes := hm.frames
    constructor <;> simp_all [outside]
    all_goals omega
  | again => constructor <;> simp_all [withSource]

theorem Step.tallied {o : Outcome Bool} (hstep : Step e m c c' o) (hat : m.At e c)
    (hcourse : m.Course e c) {events : List Event} (h : m.Tallied events) :
    o.machine.Tallied (events ++ o.events) := by
  have hdraw (s : Source) (op : Operator) :
      (m.drawn s op).Tallied (events ++ m.drawEvents e c.index s op) :=
    ⟨by simpa [drawn] using h.applied, by simpa [drawn] using h.written, by simpa [drawn] using h.loops⟩
  cases hstep with
  | finished | limit =>
    rw [List.append_nil]
    exact ⟨h.applied, h.written, h.loops⟩
  | ended => exact ⟨by simpa using h.applied, by simpa using h.written, by simpa using h.loops⟩
  | @done _ s op m' more hf _ _ hs hx =>
    have h' := hx.tallied (hat.drawn hs op) (hcourse.not_halted hf) (hdraw s op)
    rw [← List.append_assoc, ← List.append_assoc]
    have happlied := congrArg (· + 1) h'.applied
    exact ⟨by simpa [counted, Nat.add_assoc] using happlied, by simpa [counted] using h'.written,
      by simpa [counted] using h'.loops⟩
  | @fault _ s op m' more _ hf _ _ hs hx =>
    rw [← List.append_assoc]
    exact hx.tallied (hat.drawn hs op) (hcourse.not_halted hf) (hdraw s op)

/-- After every number of calls the events add up to the state. -/
theorem ofText_tallied (s : Settings) (text : Array UInt8) (console : List Char) (k : Nat) :
    ((ofText s text console).afterCalls k).Tallied ((ofText s text console).callEvents k) := by
  have hstart : (ofText s text console).Tallied [] := ⟨rfl, rfl, rfl⟩
  obtain ⟨c, -, -, h⟩ := (ofText_at s text console).afterCalls_induction
    (P := fun c m events => m.Course (.ofSettings s text) c ∧ m.Tallied events)
    ⟨ofText_course .., hstart⟩
    (fun hat h hstep => ⟨h.1.step hat hstep, hstep.tallied hat h.1 h.2⟩) k
  exact h

end Machine

end Brainfuck
