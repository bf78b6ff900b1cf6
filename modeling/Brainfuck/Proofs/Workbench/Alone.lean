import Brainfuck.Proofs.Machine.Stream
import Brainfuck.Proofs.Workbench.Calls

/-! # A machine with a collector of its own

A machine that shares its collector with no other is told of everything that happens in it, in order and
once each, since it subscribes before its first step. So what is delivered to it is the stream of its
events, and what its collector keeps are the remarks of that stream. -/
namespace Brainfuck.Workbench

open Machine

variable {m m' : Machine} {c : Collector Nat} {sharesTape : Bool}

@[simp] lemma place_alone : place #[m] 0 m' sharesTape = #[m'] := by
  cases sharesTape <;> simp [place, withTape]

/-- A subscribed machine gets each of its events as it is. -/
lemma flatMap_deliveries_alone (hc : c.subscribers = [0]) (events : List Event) :
    events.flatMap ((sharing #[m] c sharesTape).deliveries 0) = events.map (0, ·) := by
  rw [List.map_eq_flatMap]
  congr 1
  funext x
  unfold deliveries
  cases x.remark? <;> simp [hc]

/-- A call of a step delivers the events of the step, and the collector keeps the remarks among them. -/
theorem call_alone (m : Machine) (sharesTape : Bool) (hc : c.subscribers = [] ∨ c.subscribers = [0]) :
    ∃ c' : Collector Nat, (sharing #[m] c sharesTape).call (.step 0) =
        (sharing #[m.step.machine] (c'.reportAll (Event.remarks m.step.events)) sharesTape,
          m.step.events.map (0, ·)) ∧
      c'.records = c.records ∧ (c'.subscribers = [] ∨ c'.subscribers = [0]) := by
  refine ⟨joined c 0 m, ?_, ?_, ?_⟩
  · rw [call_step (m := m) rfl, place_alone]
    congr 1
    by_cases hf : m.finished = true
    · simp [step_finished hf]
    · apply flatMap_deliveries_alone
      rcases hc with hc | hc <;> simp [joined, hf, hc, Collector.subscribe]
  · unfold joined
    split <;> rfl
  · unfold joined
    split
    · exact hc
    · rcases hc with hc | hc <;> simp_all [Collector.subscribe]

/-- Calls of a step leave the machine, its collector and what was delivered as its own calls do. -/
theorem after_alone (m : Machine) (records : Array Diagnostic) (sharesTape : Bool) (k : Nat) :
    let w := sharing #[m] { records := records } sharesTape
    let calls := List.replicate k (Call.step 0)
    w.delivered calls = (m.callEvents k).map (0, ·) ∧
    ∃ c, w.after calls = sharing #[m.afterCalls k] c sharesTape ∧
      c.records = records ++ Event.remarks (m.callEvents k) ∧
      (c.subscribers = [] ∨ c.subscribers = [0]) := by
  intro w calls
  induction k with
  | zero => exact ⟨rfl, _, rfl, by simp, .inl rfl⟩
  | succ k ih =>
    obtain ⟨hdelivered, c, hafter, hrecords, hsubscribers⟩ := ih
    obtain ⟨c', hcall, hrecords', hsubscribers'⟩ := call_alone (m.afterCalls k) sharesTape hsubscribers
    have hcalls : calls = List.replicate k (Call.step 0) ++ [.step 0] := List.replicate_succ'
    refine ⟨?_, c'.reportAll (Event.remarks (m.afterCalls k).step.events), ?_, ?_, hsubscribers'⟩
    · rw [hcalls, delivered_append, hdelivered, hafter]
      simp [delivered, hcall, callEvents]
    · rw [hcalls, after_append, hafter]
      simp [hcall, Machine.afterCalls]
    · apply Array.toList_inj.1
      simp [Collector.reportAll, hrecords', hrecords, callEvents]

/-- A run that is never at fault delivers what so many calls of a step do. -/
theorem run_alone {e : Edition} {ctrl : Control} (hat : m.At e ctrl) (hlive : m.finished = false)
    (records : Array Diagnostic) (sharesTape : Bool) (n : Nat)
    (hok : ∀ j < n, ∃ b, (m.afterCalls j).step.result = .ok b) :
    ((sharing #[m] { records := records } sharesTape).call (.run 0 n)).2 =
      (m.callEvents n).map (0, ·) := by
  rw [call_run (m := m) rfl hat.source.opened_eq, hat.run_eq hok]
  apply flatMap_deliveries_alone
  simp [joined, hlive, Collector.subscribe]

/-- A machine with a collector of its own is told of its whole run, be it called step by step or for a run.
Each call of a step delivers the events of the step, in their order, and nothing but remarks of the
decoder when the run is over. What was delivered so far adds up to the state: one applied operator for
each step, the texts of the output, the remarks that the collector has kept since the start, and the loops
that the machine is inside of. -/
theorem delivered_alone (s : Settings) (text : Array UInt8) (console : List Char)
    (records : Array Diagnostic) (sharesTape : Bool) (k : Nat) :
    let start := ofText s text console
    let m := start.afterCalls k
    let told := start.callEvents k
    let w := sharing #[start] { records := records } sharesTape
    let calls := List.replicate k (Call.step 0)
    (w.after calls).machines = #[m] ∧ w.delivered calls = told.map (0, ·) ∧
    ((w.after calls).call (.step 0)).2 = m.step.events.map (0, ·) ∧
    ((∀ j < k, ∃ b, (start.afterCalls j).step.result = .ok b) →
      (w.call (.run 0 k)).2 = told.map (0, ·)) ∧
    Tells s.precompile m m.step ∧ (m.finished = true → m.step.events = []) ∧
    Event.tally .applied told = m.steps ∧ Event.written told = m.output.toList ∧
    ((w.after calls).collector 0).records = records ++ Event.remarks told ∧
    Event.tally .loopEntered told + m.halted.toNat =
      Event.tally .loopExited told + m.frames.length := by
  intro start m told w calls
  obtain ⟨hdelivered, c, hafter, hrecords, hsubscribers⟩ := after_alone start records sharesTape k
  obtain ⟨c', hcall, -⟩ := call_alone m sharesTape hsubscribers
  obtain ⟨ctrl, hat⟩ := (ofText_at s text console).afterCalls k
  obtain ⟨ctrl', hstep⟩ := hat.step
  have htallied := ofText_tallied s text console k
  refine ⟨?_, hdelivered, ?_, run_alone (ofText_at s text console) rfl records sharesTape k, hstep.tells,
    fun hf => ?_, htallied.applied, htallied.written, ?_, htallied.loops⟩
  · rw [hafter]
    rfl
  · rw [hafter, hcall]
  · rw [step_finished hf]
  · rw [hafter]
    exact hrecords

end Brainfuck.Workbench
