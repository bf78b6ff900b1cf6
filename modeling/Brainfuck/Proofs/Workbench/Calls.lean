import Brainfuck.Proofs.Machine.Remarks
import Brainfuck.Workbench

/-! # Calls on a workbench

The machines on a workbench are called by turns, each for a step or for a run. What such a call comes to
is told here for machines that report to the same collector: the machine moves on as if it were alone,
the collector keeps what was remarked on, and the events reach those that were subscribed. -/
namespace Brainfuck

lemma Collector.reportAll_append {ι : Type} (c : Collector ι) (xs ys : List Diagnostic) :
    (c.reportAll xs).reportAll ys = c.reportAll (xs ++ ys) := by
  have hrecords : c.records ++ xs ++ ys = c.records ++ (xs ++ ys) := Array.toList_inj.1 (by simp)
  simp only [reportAll, hrecords]

namespace Workbench

/-- A call to one of the machines, for a step or for a run of up to `n` steps. -/
inductive Call
  | step (i : Nat)
  | run (i n : Nat)
  deriving DecidableEq, Repr

namespace Call

/-- The machine that is called. -/
def machine : Call → Nat
  | step i => i
  | run i _ => i

/-- What happens in a machine that is called. -/
def events : Call → Machine → List Event
  | step _, m => m.step.events
  | run _ n, m => (m.run n).events

end Call

/-- The workbench after a call, and what was delivered in it. A call to a machine that is not there does
nothing. -/
def call (w : Workbench) : Call → Workbench × List Delivery
  | .step i => ((w.step i).map fun r => (r.workbench, r.deliveries)).getD (w, [])
  | .run i n => ((w.run i n).map fun r => (r.workbench, r.deliveries)).getD (w, [])

/-- The workbench after a row of calls. -/
def after (w : Workbench) (calls : List Call) : Workbench := calls.foldl (fun w c => (w.call c).1) w

/-- What is delivered in a row of calls. -/
def delivered (w : Workbench) : List Call → List Delivery
  | [] => []
  | c :: calls => (w.call c).2 ++ delivered (w.call c).1 calls

@[simp] lemma after_nil (w : Workbench) : w.after [] = w := rfl

@[simp] lemma after_cons (w : Workbench) (c : Call) (calls : List Call) :
    w.after (c :: calls) = (w.call c).1.after calls := rfl

lemma after_append (w : Workbench) (calls more : List Call) :
    w.after (calls ++ more) = (w.after calls).after more := List.foldl_append ..

lemma delivered_append (w : Workbench) (calls more : List Call) :
    w.delivered (calls ++ more) = w.delivered calls ++ (w.after calls).delivered more := by
  induction calls generalizing w with
  | nil => rfl
  | cons c calls ih => simp [delivered, ih]

/-- Machines that report to the same collector, and which may share a tape. -/
def sharing (machines : Array Machine) (c : Collector Nat) (sharesTape : Bool) : Workbench :=
  ⟨machines, #[c], #[], sharesTape⟩

/-- The collector of a machine that is about to take a step, which it subscribes to unless it did before
or is finished. -/
def joined (c : Collector Nat) (i : Nat) (m : Machine) : Collector Nat :=
  if m.finished ∨ i ∈ c.subscribers then c else c.subscribe i

/-- The machines with one of them replaced. Each is given the tape of that one if they share it. -/
def place (machines : Array Machine) (i : Nat) (m : Machine) (sharesTape : Bool) : Array Machine :=
  let machines := machines.setIfInBounds i m
  if sharesTape then machines.map (·.withTape m.tape) else machines

section Sharing

variable {machines : Array Machine} {c : Collector Nat} {sharesTape : Bool} {i j n : Nat} {m : Machine}

@[simp] lemma collector_sharing : (sharing machines c sharesTape).collector i = c := rfl

@[simp] lemma machines_sharing : (sharing machines c sharesTape).machines = machines := rfl

@[simp] lemma modifyCollector_sharing (f : Collector Nat → Collector Nat) :
    (sharing machines c sharesTape).modifyCollector i f = sharing machines (f c) sharesTape := by
  simp [modifyCollector, sharing, collectorIndex]

@[simp] lemma setMachine_sharing :
    (sharing machines c sharesTape).setMachine i m =
      sharing (place machines i m sharesTape) c sharesTape := rfl

lemma record_sharing (x : Event) :
    (sharing machines c sharesTape).record i x =
      sharing machines (c.reportAll x.remark?.toList) sharesTape := by
  unfold record
  cases x.remark? with
  | none => simp [Collector.reportAll]
  | some d => simp [Collector.report, Collector.reportAll]

/-- A collector keeps the remarks among the events. -/
lemma foldl_record_sharing (events : List Event) :
    events.foldl (fun w x => w.record i x) (sharing machines c sharesTape) =
      sharing machines (c.reportAll (Event.remarks events)) sharesTape := by
  induction events generalizing c with
  | nil => simp [Collector.reportAll]
  | cons x events ih =>
    rw [List.foldl_cons, record_sharing, ih, Event.remarks_cons, Collector.reportAll_append]

lemma attachForStep_sharing (hm : machines[i]? = some m) :
    (sharing machines c sharesTape).attachForStep i = sharing machines (joined c i m) sharesTape := by
  simp only [attachForStep, machines_sharing, hm, joined, attach, isAttached, collector_sharing]
  by_cases hf : m.finished = true
  · simp [hf]
  · by_cases hi : i ∈ c.subscribers <;> simp [hf, hi]

/-- What happens in a machine is kept by the collector and delivered to its subscribers. -/
lemma perform_sharing {α : Type} (hm : machines[i]? = some m) (act : Machine → Outcome α) :
    (sharing machines c sharesTape).perform i act =
      some ⟨sharing (place machines i (act m).machine sharesTape)
          (c.reportAll (Event.remarks (act m).events)) sharesTape,
        (act m).events.flatMap ((sharing machines c sharesTape).deliveries i), (act m).result⟩ := by
  simp [perform, hm, foldl_record_sharing]

/-- A call of a step subscribes the machine, unless it is finished, and takes the step. -/
theorem call_step (hm : machines[i]? = some m) :
    (sharing machines c sharesTape).call (.step i) =
      (sharing (place machines i m.step.machine sharesTape)
          ((joined c i m).reportAll (Event.remarks m.step.events)) sharesTape,
        m.step.events.flatMap ((sharing machines (joined c i m) sharesTape).deliveries i)) := by
  simp [call, step, attachForStep_sharing hm, perform_sharing hm]

/-- A call of a run that can be opened takes the steps, and ends the subscription of the machine. -/
theorem call_run {s : Source} (hm : machines[i]? = some m) (hs : m.source.opened = .ok s) :
    (sharing machines c sharesTape).call (.run i n) =
      (sharing (place machines i (m.run n).machine sharesTape)
          (((joined c i m).reportAll (Event.remarks (m.run n).events)).unsubscribe i) sharesTape,
        (m.run n).events.flatMap ((sharing machines (joined c i m) sharesTape).deliveries i)) := by
  simp [call, run, hm, hs, attachForStep_sharing hm, perform_sharing hm, detach]

/-- A run that cannot be opened changes nothing. -/
theorem call_run_error {f : Fault} (hm : machines[i]? = some m) (hs : m.source.opened = .error f) :
    (sharing machines c sharesTape).call (.run i n) = (sharing machines c sharesTape, []) := by
  simp [call, run, hm, hs]

theorem call_none {call : Call} (hm : machines[call.machine]? = none) :
    (sharing machines c sharesTape).call call = (sharing machines c sharesTape, []) := by
  cases call with
  | step i =>
    have hi : machines[i]? = none := hm
    have hattach : (sharing machines c sharesTape).attachForStep i = sharing machines c sharesTape := by
      simp [attachForStep, hi]
    simp [Workbench.call, step, hattach, perform, hi]
  | run i n =>
    have hi : machines[i]? = none := hm
    simp [Workbench.call, run, hi]

end Sharing

end Workbench

end Brainfuck
