import Brainfuck.Proofs.Machine.Faults
import Brainfuck.Proofs.Source.Extent
import Brainfuck.Proofs.Tape.Edits

/-! # Machines after a fault

Loading a program, taking steps, running, and opening and closing the source lead to machines that stand
at a position of their program, and that can go back to every loop that they are inside of. Such a machine
meets a fault only where a value has no representation, and then the operator was drawn and nothing else
was done. A run ends with the first fault. -/
namespace Brainfuck

/-- Why an operator cannot be carried out over a tape: the value that it comes to has no room in a cell, or
the value that it writes is no character. -/
def Tape.fault? (t : Tape) : Operator → Option Fault
  | .increment =>
    if 0x8000000000000000 ≤ ((t.read : Int) + 1) % (t.cellMax + 1) then some .cellTooLarge else none
  | .decrement =>
    if 0x8000000000000000 ≤ ((t.read : Int) - 1) % (t.cellMax + 1) then some .cellTooLarge else none
  | .output =>
    if t.read ≤ 0x10FFFF then none
    else if t.read ≤ 0x7FFFFFFF then some .notACharacter
    else some .characterTooLarge
  | _ => none

lemma Tape.adjust_eq_error_iff {t : Tape} {f : Fault} (d : Int) :
    t.adjust d = .error f ↔
      0x8000000000000000 ≤ ((t.read : Int) + d) % (t.cellMax + 1) ∧ .cellTooLarge = f := by
  rw [adjust, write_refused_iff, eq_comm (a := f)]
  rfl

namespace Machine

variable {extent : Option Nat} {m : Machine} {op : Operator} {f : Fault} {events : Array Event}
  {taken n k : Nat}

/-- A machine whose source is in bounds and can go back to every loop. -/
structure Settled (extent : Option Nat) (m : Machine) : Prop where
  source : m.source.Stands extent
  frames : ∀ f ∈ m.frames, InExtent extent f.position

/-! ## One operator -/

lemma Settled.skipLoop (h : m.Settled extent) :
    m.skipLoop.result = .ok () ∧ m.skipLoop.machine.Settled extent := by
  have houter : ∀ f ∈ m.frames.tail, InExtent extent f.position :=
    fun f hf => h.frames f (List.mem_of_mem_tail hf)
  unfold Machine.skipLoop
  dsimp only
  cases htarget : m.source.matchingEnd m.source.position.1 with
  | some target =>
    obtain ⟨s, reports, hseek, hs⟩ := h.source.seek (h.source.matchingEnd htarget) none
    simp only [hseek, true_and]
    exact ⟨hs, houter⟩
  | none =>
    obtain ⟨⟨found, hfound⟩, hs⟩ := h.source.skip m.skipScan 0
    cases found with
    | true =>
      simp only [hfound, true_and]
      exact ⟨hs, houter⟩
    | false =>
      simp only [hfound, true_and]
      exact ⟨hs, h.frames⟩

lemma Settled.startLoop (h : m.Settled extent) :
    m.startLoop.result = .ok () ∧ m.startLoop.machine.Settled extent := by
  have hnoted : Settled extent { m with frames := ⟨m.source.position.1, m.location⟩ :: m.frames } :=
    ⟨h.source, List.forall_mem_cons.2 ⟨h.source.position, h.frames⟩⟩
  unfold Machine.startLoop
  dsimp only
  split
  · exact ⟨rfl, hnoted⟩
  · exact hnoted.skipLoop

lemma Settled.endLoop (h : m.Settled extent) :
    m.endLoop.result = .ok () ∧ m.endLoop.machine.Settled extent := by
  unfold Machine.endLoop
  cases hframes : m.frames with
  | nil => exact ⟨rfl, h⟩
  | cons frame outer =>
    obtain ⟨hframe, houter⟩ := List.forall_mem_cons.1 (hframes ▸ h.frames)
    obtain ⟨s, reports, hseek, hs⟩ := h.source.seek hframe frame.location
    dsimp only
    split
    · exact ⟨rfl, h.source, houter⟩
    · simp only [hseek, true_and]
      exact ⟨hs, h.frames⟩

theorem Settled.execute (h : m.Settled extent) (op : Operator) : (m.execute op).machine.Settled extent := by
  obtain rfl | rfl | ⟨a, rfl⟩ := op.bracket_or_action
  · exact h.startLoop.2
  · exact h.endLoop.2
  · obtain ⟨tape, console, output, hm⟩ := m.execute_action a
    rw [hm]
    exact ⟨h.source, h.frames⟩

/-- An operator that is carried out is at fault exactly if its value has no representation. -/
theorem Settled.execute_error_iff (h : m.Settled extent) (op : Operator) :
    (m.execute op).result = .error f ↔ m.tape.fault? op = some f := by
  cases op with
  | right | left => simp [Machine.execute, walk_ok, Tape.fault?]
  | input => simp [Machine.execute, read_ok, Tape.fault?]
  | loopStart => simp [Machine.execute, h.startLoop.1, Tape.fault?]
  | loopEnd => simp [Machine.execute, h.endLoop.1, Tape.fault?]
  | increment => simp [Machine.execute, add_error_iff, Tape.adjust_eq_error_iff, Tape.fault?]
  | decrement =>
    rw [Machine.execute, add_error_iff, Tape.adjust_eq_error_iff, Tape.fault?, Int.sub_eq_add_neg]
    simp
  | output =>
    have hchar : lastCodePoint < m.tape.read ↔ ¬ m.tape.read ≤ 0x10FFFF := Nat.not_le.symm
    have hshort : m.tape.read < shortWordLimit ↔ m.tape.read ≤ 0x7FFFFFFF := by
      rw [shortWordLimit]
      omega
    rw [Machine.execute, write_error_iff, Fault.ofCode, Tape.fault?]
    simp only [hchar, hshort]
    by_cases hle : m.tape.read ≤ 0x10FFFF
    · rw [if_pos hle]
      exact iff_of_false (fun h => h.1 hle) (by simp)
    · rw [if_neg hle, ← apply_ite some, Option.some.injEq, and_iff_right hle, eq_comm]

/-- An operator that is at fault has done nothing. -/
theorem Settled.execute_of_error (h : m.Settled extent) (hf : (m.execute op).result = .error f) :
    m.execute op = ⟨m, [], .error f⟩ := by
  cases op with
  | right | left => simp [Machine.execute, walk_ok] at hf
  | input => simp [Machine.execute, read_ok] at hf
  | loopStart => simp [Machine.execute, h.startLoop.1] at hf
  | loopEnd => simp [Machine.execute, h.endLoop.1] at hf
  | increment | decrement =>
    simp only [Machine.execute, add] at hf ⊢
    split <;> simp_all
  | output =>
    simp only [Machine.execute, write] at hf ⊢
    split <;> simp_all

/-! ## One step -/

/-- A machine that may go on draws the first of the operators ahead. -/
lemma Settled.fetch (h : m.Settled extent) (hf : m.finished = false) (hl : m.limitReached = false) :
    m.fetch.result = .ok m.source.ahead.head? := by
  obtain ⟨⟨s, reports, next⟩, hd⟩ := h.source.draws
  rw [← hd.operator_eq]
  cases next with
  | none => rw [fetch_end hf hl hd.next_eq]
  | some op => rw [fetch_next hf hl hd.next_eq]

/-- What a step comes to that is at fault: an operator was drawn, and it is the current one. -/
structure FaultyStep (m : Machine) (f : Fault) (s : Source) (reports : List Diagnostic)
    (op : Operator) : Prop where
  next_eq : m.source.next = .ok ⟨s, reports, some op⟩
  ahead_eq : m.source.ahead = op :: s.ahead
  step_eq : m.step = ⟨m.drawn s op, reports.map (m.withSource s).reportEvent ++
    [(m.drawn s op).event .pending (some op)], .error f⟩
  going_on : (m.drawn s op).fetch.result = .ok s.ahead.head?

/-- A step is at fault if the run is not over and the next operator ahead cannot be carried out. Otherwise it
asks to go on or not, and nothing that is ahead is at fault. -/
theorem Settled.step_cases (h : m.Settled extent) :
    ((∃ b, m.step.result = .ok b) ∧ m.step.machine.Settled extent ∧
      (m.finished = false → m.limitReached = false →
        ∀ op ∈ m.source.ahead.head?, m.tape.fault? op = none)) ∨
    ∃ f s reports op, m.FaultyStep f s reports op ∧ (m.drawn s op).Settled extent ∧
      m.finished = false ∧ m.limitReached = false ∧ m.tape.fault? op = some f := by
  cases hf : m.finished with
  | true =>
    rw [step_of_none (fetch_finished hf)]
    exact .inl ⟨⟨false, rfl⟩, h, by simp⟩
  | false =>
    cases hl : m.limitReached with
    | true =>
      rw [step_of_none (fetch_limit hf hl)]
      exact .inl ⟨⟨false, rfl⟩, ⟨h.source, h.frames⟩, by simp⟩
    | false =>
      obtain ⟨⟨s, reports, next⟩, hd⟩ := h.source.draws
      have hnext : next = m.source.ahead.head? := hd.operator_eq
      have hrest : s.ahead = m.source.ahead.tail := hd.ahead_eq
      cases next with
      | none =>
        rw [step_of_none (fetch_end hf hl hd.next_eq), ← hnext]
        exact .inl ⟨⟨false, rfl⟩, ⟨hd.stands, h.frames⟩, by simp⟩
      | some op =>
        have hfetch := fetch_next hf hl hd.next_eq
        have hdrawn : (m.drawn s op).Settled extent := ⟨hd.stands, h.frames⟩
        have hsettled := hdrawn.execute op
        rcases ho : (m.drawn s op).execute op with ⟨m', events, f | _⟩
        · have hnothing := hdrawn.execute_of_error (f := f) (by rw [ho])
          have hvalue : m.tape.fault? op = some f := (hdrawn.execute_error_iff op).1 (by rw [ho])
          refine .inr ⟨f, s, reports, op, ⟨hd.next_eq, ?_, ?_, hdrawn.fetch hf hl⟩, hdrawn, rfl, rfl,
            hvalue⟩
          · rw [hrest]
            exact List.eq_cons_of_mem_head? hnext.symm
          · rw [step_of_error hfetch hnothing, List.append_nil]
        · have hvalue : m.tape.fault? op = none := by
            refine Option.eq_none_iff_forall_ne_some.2 fun f hvalue => ?_
            have herror := (hdrawn.execute_error_iff op).2 hvalue
            simp [ho] at herror
          rw [ho] at hsettled
          rw [step_of_ok hfetch ho, ← hnext]
          exact .inl ⟨⟨_, rfl⟩, ⟨hsettled.source, hsettled.frames⟩, by simpa using hvalue⟩

theorem Settled.step_error_iff (h : m.Settled extent) :
    m.step.result = .error f ↔ m.finished = false ∧ m.limitReached = false ∧
      ∃ op ∈ m.source.ahead.head?, m.tape.fault? op = some f := by
  obtain ⟨⟨b, hok⟩, -, hnone⟩ | ⟨f', s, reports, op, hstep, -, hf, hl, hvalue⟩ := h.step_cases
  · refine iff_of_false (by simp [hok]) ?_
    rintro ⟨hf, hl, op, hop, hvalue⟩
    simp [hnone hf hl op hop] at hvalue
  · simp [hstep.step_eq, hstep.ahead_eq, hf, hl, hvalue]

theorem Settled.faultyStep (h : m.Settled extent) (hfault : m.step.result = .error f) :
    ∃ s reports op, m.FaultyStep f s reports op := by
  obtain ⟨⟨b, hok⟩, -⟩ | ⟨f', s, reports, op, hstep, -⟩ := h.step_cases
  · simp [hok] at hfault
  · obtain rfl : f' = f := by simpa [hstep.step_eq] using hfault
    exact ⟨s, reports, op, hstep⟩

theorem Settled.step (h : m.Settled extent) : m.step.machine.Settled extent := by
  obtain ⟨-, hsettled, -⟩ | ⟨f, s, reports, op, hstep, hdrawn, -⟩ := h.step_cases
  · exact hsettled
  · rwa [hstep.step_eq]

/-! ## Runs -/

/-- The first of the calls of a step that is at fault. The ones before asked to go on. -/
structure FirstFault (m : Machine) (k : Nat) (f : Fault) : Prop where
  before : ∀ j < k, (m.afterCalls j).step.result = .ok true
  fault : (m.afterCalls k).step.result = .error f

lemma FirstFault.succ (hok : m.step.result = .ok true) (h : m.step.machine.FirstFault k f) :
    m.FirstFault (k + 1) f := by
  refine ⟨fun j hj => ?_, afterCalls_succ m k ▸ h.fault⟩
  cases j with
  | zero => exact hok
  | succ j =>
    rw [afterCalls_succ]
    exact h.before j (by omega)

/-- Taking steps ends with the first fault, if there is one. -/
theorem stepsFrom_fault (h : (stepsFrom events taken n m).2.2 = .error f) :
    ∃ k < n, m.FirstFault k f ∧
      stepsFrom events taken n m = (m.afterCalls (k + 1), events ++ m.callEvents (k + 1), .error f) := by
  induction n generalizing events taken m with
  | zero => simp [stepsFrom] at h
  | succ n ih =>
    rcases hm : m.step with ⟨m', more, fault | _ | _⟩
    · obtain rfl : fault = f := by simpa [stepsFrom, hm] using h
      refine ⟨0, Nat.succ_pos n, ⟨by simp, by simp [hm]⟩, ?_⟩
      simp [stepsFrom, hm, afterCalls_succ, callEvents_succ]
    · simp [stepsFrom, hm] at h
    · have hrest : stepsFrom events taken (n + 1) m = stepsFrom (events ++ more) (taken + 1) n m' := by
        simp [stepsFrom, hm]
      obtain ⟨k, hk, hfirst, heq⟩ := ih (hrest ▸ h)
      refine ⟨k + 1, Nat.succ_lt_succ hk, .succ (by simp [hm]) (by simpa [hm] using hfirst), ?_⟩
      rw [hrest, heq, afterCalls_succ m (k + 1), callEvents_succ m (k + 1), hm]
      have happend : events ++ more ++ m'.callEvents (k + 1) =
          events ++ (more ++ m'.callEvents (k + 1)) := Array.toList_inj.1 (by simp)
      simp only [happend]

lemma Settled.afterCalls (h : m.Settled extent) (k : Nat) : (m.afterCalls k).Settled extent := by
  induction k with
  | zero => exact h
  | succ k ih => exact ih.step

theorem Settled.run (h : m.Settled extent) (n : Nat) : (m.run n).machine.Settled extent := by
  obtain ⟨f, hrun⟩ | ⟨s, k, r, hs, -, hrun⟩ := m.exists_run_eq n
  · rwa [hrun]
  · have hopened : (m.withSource s).Settled extent := ⟨h.source.opened hs, h.frames⟩
    have hcalls := hopened.afterCalls k
    rw [hrun]
    exact ⟨hcalls.source.closed, hcalls.frames⟩

/-! ## Reachable machines -/

/-- The machines that a program comes to when it is loaded, run and stepped through, while its source is
opened and closed and its host exchanges the tape and the console. -/
inductive Reachable : Machine → Prop
  | text (s : Settings) (text : Array UInt8) (console : List Char) (tape : Option Tape) :
    Reachable (start s (Source.ofText s text).1 console tape)
  | file (s : Settings) (name : String) (text : Option (Array UInt8)) (console : List Char)
    (tape : Option Tape) {source : Source} {reports : List Diagnostic}
    (h : Source.ofFile s name text = .ok (source, reports)) : Reachable (start s source console tape)
  | hosted {m : Machine} (h : Reachable m) (tape : Tape) (console : List Char) (lineInput : Bool) :
    Reachable { m with tape := tape, console := console, lineInput := lineInput }
  | opened {m : Machine} (h : Reachable m) : Reachable m.openSource.machine
  | closed {m : Machine} (h : Reachable m) : Reachable m.closeSource.machine
  | step {m : Machine} (h : Reachable m) : Reachable m.step.machine
  | run {m : Machine} (h : Reachable m) (n : Nat) : Reachable (m.run n).machine

lemma stands_ofText (s : Settings) (text : Array UInt8) :
    ∃ extent, (Source.ofText s text).1.Stands extent := by
  refine ⟨_, rfl, fun p hp => ?_⟩
  obtain rfl : 0 = p := by
    unfold Source.ofText at hp
    split at hp <;> exact Option.some.inj hp
  exact .zero _

lemma stands_ofFile {s : Settings} {name : String} {text : Option (Array UInt8)} {source : Source}
    {reports : List Diagnostic} (h : Source.ofFile s name text = .ok (source, reports)) :
    ∃ extent, source.Stands extent := by
  unfold Source.ofFile Source.loaded at h
  dsimp only at h
  split at h
  · cases hopened : (Reader.ofFile name text).opened with
    | error f => simp [hopened, Except.map] at h
    | ok r =>
      obtain ⟨rfl, -⟩ : Source.compiled (.start (Listing.ofReader s.skipScan r).1) = source ∧ _ := by
        simpa [hopened, Except.map] using h
      refine ⟨_, rfl, fun p hp => ?_⟩
      obtain rfl : 0 = p := Option.some.inj hp
      exact .zero _
  · obtain ⟨rfl, -⟩ : Source.stream (.ofFile name text) = source ∧ _ := by simpa using h
    exact ⟨_, rfl, by simp [Source.position?, Reader.ofFile]⟩

theorem Reachable.settled (h : Reachable m) : ∃ extent, m.Settled extent := by
  induction h with
  | text s text =>
    obtain ⟨extent, hstands⟩ := stands_ofText s text
    exact ⟨extent, hstands, by simp [start]⟩
  | file s name text _ _ hsource =>
    obtain ⟨extent, hstands⟩ := stands_ofFile hsource
    exact ⟨extent, hstands, by simp [start]⟩
  | hosted _ _ _ _ ih =>
    obtain ⟨extent, ih⟩ := ih
    exact ⟨extent, ih.source, ih.frames⟩
  | @opened m _ ih =>
    obtain ⟨extent, ih⟩ := ih
    refine ⟨extent, ?_⟩
    unfold openSource
    cases hs : m.source.opened with
    | error f => exact ih
    | ok s => exact ⟨ih.source.opened hs, ih.frames⟩
  | closed _ ih =>
    obtain ⟨extent, ih⟩ := ih
    exact ⟨extent, ih.source.closed, ih.frames⟩
  | step _ ih => exact ih.imp fun extent ih => ih.step
  | run _ n ih => exact ih.imp fun extent ih => ih.run n

lemma Reachable.afterCalls (h : Reachable m) (k : Nat) : Reachable (m.afterCalls k) := by
  induction k with
  | zero => exact h
  | succ k ih => exact ih.step

/-- A run that is opened ends with the first fault, and closes its source then. -/
theorem run_fault {s : Source} (hs : m.source.opened = .ok s) (hf : (m.run n).result = .error f) :
    ∃ k < n, (m.withSource s).FirstFault k f ∧
      m.run n = ⟨((m.withSource s).afterCalls (k + 1)).withSource
          ((m.withSource s).afterCalls (k + 1)).source.closed,
        (m.withSource s).callEvents (k + 1), .error f⟩ := by
  have htaken : (stepsFrom #[] 0 n (m.withSource s)).2.2 = .error f := by
    simp only [Machine.run, hs] at hf
    cases hresult : ((m.withSource s).takeSteps n).result with
    | error f' =>
      obtain rfl : f' = f := by simpa [hresult, Except.map] using hf
      exact hresult
    | ok taken => simp [hresult, Except.map] at hf
  obtain ⟨k, hk, hfirst, heq⟩ := stepsFrom_fault htaken
  exact ⟨k, hk, hfirst, by simp [Machine.run, hs, takeSteps, heq, Except.map]⟩

end Machine

end Brainfuck
