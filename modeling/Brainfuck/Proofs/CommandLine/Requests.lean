import Brainfuck.CommandLine.Session
import Brainfuck.Proofs.Machine.Halting
import Brainfuck.Proofs.Machine.Stream
import Brainfuck.Proofs.Machine.Wraps

/-! # Requests of a session

A session asks the console and the output for what its operators and commands take and write. As long as these
do what is asked, the session carries out the steps of its machine, alone or under a stepper, and its status
tells how they end. The first request that is not met ends it with a fault. Without bytes that are no text on
the console these are the requests to write half of a surrogate pair. -/
namespace Brainfuck

namespace Machine

open Event

variable {m : Machine}

/-- An operator changes the values of cells and not what they can be. -/
theorem cellMax_complete (m : Machine) (op : Operator) :
    (m.complete op).machine.tape.cellMax = m.tape.cellMax := by
  have hexecute : (m.execute op).machine.tape.cellMax = m.tape.cellMax := by
    obtain rfl | rfl | ⟨a, rfl⟩ := op.bracket_or_action
    · exact congrArg Tape.cellMax m.still_startLoop.2
    · exact congrArg Tape.cellMax m.still_endLoop.2
    · exact m.cellMax_execute_action a
  rcases hx : m.execute op with ⟨x, events, f | ⟨⟩⟩ <;> rw [hx] at hexecute <;>
    simpa [complete, hx, Outcome.bind, Outcome.after, count] using hexecute

/-- The code point that an operator writes. -/
def code? (m : Machine) (op : Operator) : Option Nat :=
  if op = .output ∧ m.tape.read ≤ lastCodePoint then some m.tape.read else none

lemma written_fetch (m : Machine) : written m.fetch.events = [] := by
  unfold fetch
  split
  · rfl
  split
  · rfl
  cases m.source.next with
  | error f => rfl
  | ok d => cases hd : d.operator <;> simp [hd]

/-- The events of carrying out an operator tell what it writes. -/
theorem written_complete (m : Machine) (op : Operator) :
    written (m.complete op).events = (m.code? op).toList := by
  have hexecute : written (m.execute op).events = (m.code? op).toList := by
    by_cases hop : op = .output
    · simp only [hop, execute, write, code?]
      split <;> simp [*]
    · simp [(m.quiet_execute hop).written, code?, hop]
  rcases hx : m.execute op with ⟨x, events, f | ⟨⟩⟩ <;> rw [hx] at hexecute <;>
    simpa [complete, hx, Outcome.bind, Outcome.after, count] using hexecute

end Machine

namespace Watched

lemma written_present (w : Watched) : Event.written w.present.events = [] := by
  have hfetch := w.machine.written_fetch
  unfold present
  split <;> simp_all

lemma commands_present (w : Watched) : w.present.watched.commands = w.commands := by
  unfold present
  split <;> rfl

lemma tape_present (w : Watched) : w.present.watched.machine.tape = w.machine.tape := by
  have hfetch := w.machine.still_fetch.2
  unfold present
  split <;> simp_all

lemma tape_settle (w : Watched) (d : Decision) : (w.settle d).machine.tape = w.machine.tape := by
  unfold settle
  split <;> rfl

lemma written_complete (w : Watched) (op : Operator) (d : Decision) :
    Event.written (w.complete op d).events = (w.machine.code? op).toList := by
  have hcode : (w.settle d).machine.code? op = w.machine.code? op := by
    rw [Machine.code?, tape_settle, Machine.code?]
  rw [← hcode]
  exact (w.settle d).machine.written_complete op

lemma commands_complete (w : Watched) (op : Operator) (d : Decision) (h : w.commands = none) :
    (w.complete op d).watched.commands = none := by
  simp [complete, settle, h]

lemma cellMax_complete (w : Watched) (op : Operator) (d : Decision) :
    (w.complete op d).watched.machine.tape.cellMax = w.machine.tape.cellMax := by
  rw [← w.tape_settle d]
  exact (w.settle d).machine.cellMax_complete op

end Watched

namespace Session

open Event

variable {s x : Session} {op : Operator} {d : Decision} {f : Fault} {n : Nat}

/-- An operator that was drawn by a session and is about to be carried out. -/
structure Request where
  session : Session
  operator : Operator
  decision : Decision

namespace Request

/-- What keeps a request from being met. -/
def fault? (q : Request) : Option Fault := q.session.hostFault? q.operator q.decision

/-- The code point that is asked to be written. -/
def code? (q : Request) : Option Nat := q.session.machine.code? q.operator

end Request

/-- The requests of up to `n` steps, as long as they are met. -/
def requestsFrom : Nat → Session → List Request
  | 0, _ => []
  | n + 1, s =>
    match s.present with
    | ⟨x, _, .ok (some (op, d))⟩ =>
      ⟨x, op, d⟩ ::
        match x.carryOut op d with
        | ⟨s, _, .ok true⟩ => requestsFrom n s
        | _ => []
    | _ => []

/-- The requests of a run of up to `n` steps, as long as they are met. -/
def requests (s : Session) (n : Nat) : List Request :=
  match s.opened with
  | .ok s => requestsFrom n s
  | .error _ => []

/-- The fault of the first request that is not met. -/
def failure? (s : Session) (n : Nat) : Option Fault := (s.requests n).findSome? Request.fault?

/-- What comes of up to `n` steps of the program, without what is printed, where all requests are met. -/
def outcome (s : Session) (n : Nat) : Outcome Unit :=
  match s.stepper with
  | none => s.machine.run n
  | some stepper => (Watched.mk s.machine stepper none).outcome n

/-- The status of a machine at the end of its run. -/
def statusOf (m : Machine) : ExitStatus := if m.halted then .halted else .ok

/-! ## Steps -/

/-- A session whose next request is met, if there is one. -/
def Served (s : Session) : Prop :=
  ∀ x printed op d, s.present = ⟨x, printed, .ok (some (op, d))⟩ → x.hostFault? op d = none

lemma step_of_met {printed : Printed} (h : s.present = ⟨x, printed, .ok (some (op, d))⟩)
    (hmet : x.hostFault? op d = none) :
    s.step = { x.carryOut op d with printed := printed ++ (x.carryOut op d).printed } := by
  simp [step, h, complete, hmet]

lemma step_of_unmet {printed : Printed} (h : s.present = ⟨x, printed, .ok (some (op, d))⟩)
    (hunmet : x.hostFault? op d = some f) : s.step = ⟨x, printed ++ {}, .error f⟩ := by
  simp [step, h, complete, hunmet]

/-- Without a stepper, a step is one of the machine. -/
lemma step_alone (hs : s.stepper = none) (hserved : s.Served) : ∃ printed,
    s.step = ⟨{ s with machine := s.machine.step.machine }, printed, s.machine.step.result⟩ := by
  rcases hm : s.machine.fetch with ⟨x, drawn, f | _ | op⟩
  · simp [step, present, hs, hm, Except.map, Machine.step_of_fetch_error hm]
  · simp [step, present, hs, hm, Except.map, Machine.step_of_none hm]
  · have hpresent : s.present = ⟨{ s with machine := x }, s.printed [] drawn, .ok (some (op, .proceed))⟩ := by
      simp [present, hs, hm, Except.map]
    rw [step_of_met hpresent (hserved _ _ _ _ hpresent), Machine.step_of_pending hm]
    simp [carryOut, hs, Outcome.after]

/-- With a stepper, a step is one of the machine that it watches. -/
lemma step_watched {stepper : Stepper} (hs : s.stepper = some stepper) (hserved : s.Served) : ∃ printed,
    let r := (Watched.mk s.machine stepper none).step
    s.step = ⟨{ s with machine := r.watched.machine, stepper := some r.watched.stepper }, printed,
      r.result⟩ ∧ r.watched.commands = none := by
  rcases hw : (Watched.mk s.machine stepper none).present with ⟨⟨m, stepper', commands⟩, shown, drawn, result⟩
  obtain rfl : commands = none := by simpa [hw] using (Watched.mk s.machine stepper none).commands_present
  have hpresent : s.present =
      ⟨{ s with machine := m, stepper := some stepper' }, s.printed shown drawn, result⟩ := by
    simp [present, hs, hw]
  rcases result with f | _ | ⟨op, d⟩
  · simp [step, hpresent, Watched.step, hw]
  · simp [step, hpresent, Watched.step, hw]
  · rw [step_of_met hpresent (hserved _ _ _ _ hpresent)]
    simp [carryOut, Watched.step, hw, Watched.complete, Watched.settle]

/-! ## Runs -/

/-- The first request that is not met ends a run. -/
theorem runFrom_of_failure (n : Nat) (printed : Printed)
    (h : (requestsFrom n s).findSome? Request.fault? = some f) : (runFrom printed n s).2 = .error f := by
  induction n generalizing s printed with
  | zero => cases h
  | succ n ih =>
    rcases hs : s.present with ⟨x, shown, e | _ | ⟨op, d⟩⟩ <;> simp only [requestsFrom, hs] at h
    · cases h
    · cases h
    · cases hfault : x.hostFault? op d with
      | some f' =>
        obtain rfl : f' = f := by simpa [Request.fault?, hfault] using h
        simp [runFrom, step_of_unmet hs hfault]
      | none =>
        simp only [List.findSome?_cons, Request.fault?, hfault] at h
        rcases hx : x.carryOut op d with ⟨y, told, e | _ | _⟩ <;> simp only [hx] at h
        · cases h
        · cases h
        · simp [runFrom, step_of_met hs hfault, hx, ih _ h]

/-- As long as requests are met, the next one is, and so are those after it. -/
lemma served_of_met (h : ∀ q ∈ requestsFrom (n + 1) s, q.fault? = none) :
    s.Served ∧ ∀ y printed, s.step = ⟨y, printed, .ok true⟩ → ∀ q ∈ requestsFrom n y, q.fault? = none := by
  rcases hs : s.present with ⟨x, shown, e | _ | ⟨op, d⟩⟩ <;> simp only [requestsFrom, hs] at h
  · simp [Served, step, hs]
  · simp [Served, step, hs]
  · obtain ⟨hmet, hrest⟩ := List.forall_mem_cons.1 h
    have hserved : s.Served := by
      intro x' printed op' d' hs'
      rw [hs] at hs'
      cases hs'
      exact hmet
    refine ⟨hserved, fun y printed hstep => ?_⟩
    rw [step_of_met hs hmet] at hstep
    rcases hx : x.carryOut op d with ⟨z, told, result⟩
    rw [hx] at hstep hrest
    cases hstep
    exact hrest

lemma runFrom_alone (n : Nat) (hs : s.stepper = none) (hmet : ∀ q ∈ requestsFrom n s, q.fault? = none)
    (printed : Printed) (events : Array Event) (taken : Nat) :
    let r := Machine.stepsFrom events taken n s.machine
    (runFrom printed n s).2 = r.2.2.map fun _ => statusOf r.1 := by
  induction n generalizing s printed events taken with
  | zero => rfl
  | succ n ih =>
    obtain ⟨hserved, hrest⟩ := served_of_met hmet
    obtain ⟨more, hstep⟩ := step_alone hs hserved
    rcases hm : s.machine.step with ⟨m, events', f | _ | _⟩ <;> rw [hm] at hstep <;>
      simp only [runFrom, hstep, Machine.stepsFrom, hm]
    · rfl
    · rfl
    · exact ih (s := { s with machine := m }) hs (hrest _ _ hstep) ..

lemma runFrom_watched (n : Nat) {stepper : Stepper} (hs : s.stepper = some stepper)
    (hmet : ∀ q ∈ requestsFrom n s, q.fault? = none) (printed : Printed) (shown : Array String)
    (events : Array Event) :
    let r := Watched.stepsFrom shown events n ⟨s.machine, stepper, none⟩
    (runFrom printed n s).2 = r.2.2.2.map fun _ => statusOf r.1.machine := by
  induction n generalizing s stepper printed shown events with
  | zero => rfl
  | succ n ih =>
    obtain ⟨hserved, hrest⟩ := served_of_met hmet
    obtain ⟨more, hstep, hcommands⟩ := step_watched hs hserved
    rcases hw : (Watched.mk s.machine stepper none).step with
      ⟨⟨m, stepper', commands⟩, lines, events', f | _ | _⟩ <;> rw [hw] at hstep hcommands <;>
      simp only [runFrom, hstep, Watched.stepsFrom, hw]
    · rfl
    · rfl
    · obtain rfl : commands = none := hcommands
      exact ih (s := { s with machine := m, stepper := some stepper' }) rfl (hrest _ _ hstep) ..

/-- If a request is not met, the run is at fault. -/
theorem run_of_failure (h : s.failure? n = some f) : (s.run n).2 = .error f := by
  unfold failure? requests at h
  unfold run
  cases hopened : s.opened with
  | error e => simp [hopened] at h
  | ok x =>
    rw [hopened] at h
    exact runFrom_of_failure n {} h

/-- As long as requests are met, the status of a session is told by the machine at the end of the run. -/
theorem run_status (h : s.failure? n = none) :
    (s.run n).2 = (s.outcome n).result.map fun _ => statusOf (s.outcome n).machine := by
  cases hsource : s.machine.source.opened with
  | error f =>
    unfold outcome
    cases s.stepper <;> simp [run, opened, Machine.run, Watched.outcome, Watched.run, hsource, Except.map]
  | ok source =>
    let started := { s with machine := s.machine.withSource source }
    have hopened : s.opened = .ok started := by simp [opened, hsource, Except.map, started]
    have hmet : ∀ q ∈ requestsFrom n started, q.fault? = none := by
      rwa [failure?, requests, hopened, List.findSome?_eq_none_iff] at h
    have hrun : (s.run n).2 = (runFrom {} n started).2 := by simp [run, hopened]
    rw [hrun]
    unfold outcome
    cases hstepper : s.stepper with
    | none =>
      rw [runFrom_alone n (s := started) hstepper hmet {} #[] 0]
      simp only [Machine.run, hsource, Machine.takeSteps]
      rcases Machine.stepsFrom #[] 0 n started.machine with ⟨m, events, f | taken⟩ <;> rfl
    | some stepper =>
      rw [runFrom_watched n (s := started) hstepper hmet {} #[] #[]]
      simp only [Watched.outcome, Watched.run, hsource]
      rcases Watched.stepsFrom #[] #[] n ⟨started.machine, stepper, none⟩ with
        ⟨w, shown, events, f | taken⟩ <;> rfl

/-! ## Characters -/

/-- The code points that are asked to be written. -/
def codes (requests : List Request) : List Nat := requests.filterMap Request.code?

@[simp] lemma codes_nil : codes [] = [] := rfl

@[simp] lemma codes_cons (q : Request) (rest : List Request) :
    codes (q :: rest) = (q.session.machine.code? q.operator).toList ++ codes rest := by
  rw [codes, List.filterMap_cons, Request.code?]
  cases q.session.machine.code? q.operator <;> rfl

lemma written_alone (n : Nat) (hs : s.stepper = none) (events : Array Event) (taken : Nat) :
    written (Machine.stepsFrom events taken n s.machine).2.1.toList =
      written events.toList ++ codes (requestsFrom n s) := by
  induction n generalizing s events taken with
  | zero => simp [Machine.stepsFrom, requestsFrom]
  | succ n ih =>
    have hfetch := s.machine.written_fetch
    rcases hm : s.machine.fetch with ⟨x, drawn, f | _ | op⟩ <;> rw [hm] at hfetch
    · simp [Machine.stepsFrom, Machine.step_of_fetch_error hm, requestsFrom, present, hs, hm, Except.map, hfetch]
    · simp [Machine.stepsFrom, Machine.step_of_none hm, requestsFrom, present, hs, hm, Except.map, hfetch]
    · have hcomplete := x.written_complete op
      rcases hx : x.complete op with ⟨m, more, f | _ | _⟩ <;> rw [hx] at hcomplete <;>
        simp only [Machine.stepsFrom, Machine.step_of_pending hm, hx, Outcome.after, requestsFrom, present, hs,
          hm, Except.map, Option.map_some, carryOut]
      · simp [hfetch, hcomplete]
      · simp [hfetch, hcomplete]
      · rw [ih rfl (s := { s with machine := m, stepper := none })]
        simp [hfetch, hcomplete]

lemma written_watched (n : Nat) {stepper : Stepper} (hs : s.stepper = some stepper) (shown : Array String)
    (events : Array Event) :
    written (Watched.stepsFrom shown events n ⟨s.machine, stepper, none⟩).2.2.1.toList =
      written events.toList ++ codes (requestsFrom n s) := by
  induction n generalizing s stepper shown events with
  | zero => simp [Watched.stepsFrom, requestsFrom]
  | succ n ih =>
    have hdrawn := (Watched.mk s.machine stepper none).written_present
    have hkept := (Watched.mk s.machine stepper none).commands_present
    rcases hw : (Watched.mk s.machine stepper none).present with
      ⟨⟨m, stepper', commands⟩, lines, drawn, f | _ | ⟨op, d⟩⟩ <;> rw [hw] at hdrawn hkept
    · simp [Watched.stepsFrom, Watched.step, hw, requestsFrom, present, hs, hdrawn]
    · simp [Watched.stepsFrom, Watched.step, hw, requestsFrom, present, hs, hdrawn]
    · obtain rfl : commands = none := hkept
      have hcomplete := (Watched.mk m stepper' none).written_complete op d
      have hcommands := (Watched.mk m stepper' none).commands_complete op d rfl
      rcases hx : (Watched.mk m stepper' none).complete op d with
        ⟨⟨m', stepper'', commands⟩, lines', more, f | _ | _⟩ <;> rw [hx] at hcomplete hcommands <;>
        simp only [Watched.stepsFrom, Watched.step, hw, hx, requestsFrom, present, hs, carryOut]
      · simp [hdrawn, hcomplete]
      · simp [hdrawn, hcomplete]
      · obtain rfl : commands = none := hcommands
        rw [ih rfl (s := { s with machine := m', stepper := some stepper'' })]
        simp [hdrawn, hcomplete]

/-- What a run writes, where all requests are met, is what it asks to be written. -/
theorem written_outcome (s : Session) (n : Nat) : written (s.outcome n).events = codes (s.requests n) := by
  unfold outcome requests opened
  cases hsource : s.machine.source.opened with
  | error f => cases s.stepper <;> simp [Machine.run, Watched.outcome, Watched.run, hsource, Except.map]
  | ok source =>
    let started := { s with machine := s.machine.withSource source }
    cases hstepper : s.stepper with
    | none =>
      have hsteps := written_alone n (s := started) hstepper #[] 0
      simpa [Machine.run, hsource, Machine.takeSteps, Except.map, started, hstepper] using hsteps
    | some stepper =>
      have hsteps := written_watched n (s := started) hstepper #[] #[]
      simpa [Watched.outcome, Watched.run, hsource, Except.map, started, hstepper] using hsteps

/-- Drawing an operator does not change what kind of console there is and what cells can be. -/
lemma keeps_present (s : Session) : s.present.session.undecodable = s.undecodable ∧
    s.present.session.machine.tape.cellMax = s.machine.tape.cellMax := by
  unfold present
  split
  · exact ⟨rfl, congrArg Tape.cellMax s.machine.still_fetch.2⟩
  · exact ⟨rfl, congrArg Tape.cellMax (Watched.tape_present _)⟩

/-- Nor does carrying it out. -/
lemma keeps_carryOut (s : Session) (op : Operator) (d : Decision) :
    (s.carryOut op d).session.undecodable = s.undecodable ∧
      (s.carryOut op d).session.machine.tape.cellMax = s.machine.tape.cellMax := by
  unfold carryOut
  split
  · exact ⟨rfl, s.machine.cellMax_complete op⟩
  · exact ⟨rfl, Watched.cellMax_complete ..⟩

lemma keeps_requestsFrom (n : Nat) : ∀ q ∈ requestsFrom n s,
    q.session.undecodable = s.undecodable ∧ q.session.machine.tape.cellMax = s.machine.tape.cellMax := by
  induction n generalizing s with
  | zero => simp [requestsFrom]
  | succ n ih =>
    obtain ⟨hundecodable, hmax⟩ := s.keeps_present
    rw [requestsFrom]
    rcases hs : s.present with ⟨x, shown, f | _ | ⟨op, d⟩⟩ <;> rw [hs] at hundecodable hmax
    · simp
    · simp
    · refine List.forall_mem_cons.2 ⟨⟨hundecodable, hmax⟩, ?_⟩
      obtain ⟨hundecodable', hmax'⟩ := x.keeps_carryOut op d
      rcases hx : x.carryOut op d with ⟨y, told, f | _ | _⟩ <;> rw [hx] at hundecodable' hmax'
      · simp
      · simp
      · intro q hq
        obtain ⟨hq, hqmax⟩ := ih q hq
        exact ⟨hq.trans (hundecodable'.trans hundecodable), hqmax.trans (hmax'.trans hmax)⟩

lemma keeps_requests (s : Session) (n : Nat) : ∀ q ∈ s.requests n,
    q.session.undecodable = s.undecodable ∧ q.session.machine.tape.cellMax = s.machine.tape.cellMax := by
  unfold requests opened
  cases s.machine.source.opened with
  | error f => simp [Except.map]
  | ok source => exact keeps_requestsFrom n (s := { s with machine := s.machine.withSource source })

/-- Without bytes that are no text on the console, a request is met unless it is to write half of a
surrogate pair. -/
lemma hostFault?_eq_none_iff (hdecodable : s.undecodable = false) :
    s.hostFault? op d = none ↔ ∀ code ∈ s.machine.code? op, code.isValidChar := by
  have hcode (code : Nat) : codeText? code = none ↔ ¬ code.isValidChar := by
    unfold codeText?
    split <;> simp only [*, not_true_eq_false, not_false_eq_true, reduceCtorEq]
  simp only [hostFault?, hdecodable, Bool.false_and, Bool.false_eq_true, if_false, hcode, Machine.code?]
  by_cases hwrites : op = .output ∧ s.machine.tape.read ≤ Machine.lastCodePoint
  · simp only [hwrites, true_and, if_true, Option.mem_some_iff, forall_eq', ite_eq_right_iff, reduceCtorEq,
      imp_false, not_not]
  · simp only [← and_assoc, hwrites, false_and, if_false, Option.not_mem_none, false_implies, implies_true]

/-- Without bytes that are no text on the console, all requests of a run are met exactly if it writes
characters only. -/
theorem failure?_eq_none_iff (hdecodable : s.undecodable = false) :
    s.failure? n = none ↔ ∀ code ∈ written (s.outcome n).events, code.isValidChar := by
  rw [written_outcome, failure?, List.findSome?_eq_none_iff, codes]
  constructor
  · intro h code hcode
    obtain ⟨q, hq, hcode⟩ := List.mem_filterMap.1 hcode
    have hkept := (s.keeps_requests n q hq).1.trans hdecodable
    exact (hostFault?_eq_none_iff hkept).1 (h q hq) code hcode
  · intro h q hq
    have hkept := (s.keeps_requests n q hq).1.trans hdecodable
    exact (hostFault?_eq_none_iff hkept).2 fun code hcode => h code (List.mem_filterMap.2 ⟨q, hq, hcode⟩)

/-- What is written fits a cell. -/
theorem le_of_written (s : Session) (n : Nat) :
    ∀ code ∈ written (s.outcome n).events, code ≤ s.machine.tape.cellMax := by
  intro code hcode
  rw [written_outcome] at hcode
  obtain ⟨q, hq, hcode⟩ := List.mem_filterMap.1 hcode
  have hread := q.session.machine.tape.read_le
  rw [(s.keeps_requests n q hq).2] at hread
  simp only [Request.code?, Machine.code?, Option.ite_none_right_eq_some, Option.some.injEq] at hcode
  exact hcode.2 ▸ hread

end Session

end Brainfuck
