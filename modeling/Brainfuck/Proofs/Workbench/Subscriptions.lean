import Mathlib.Data.List.Nodup
import Brainfuck.Proofs.Workbench.Calls

/-! # Subscriptions

Of the machines that report to one collector, those are subscribed to it that began a step and did not
end a run since. A remark reaches each of them once, whichever machine it is of, so that a machine hears
of the others as long as it is subscribed, even when it is finished. Where every call is a run no
subscription is left, and every machine hears of itself only. -/
namespace Brainfuck

namespace Machine

variable {m : Machine}

/-- A run of a finished machine tells nothing. -/
lemma events_run_finished (hf : m.finished = true) (n : Nat) : (m.run n).events = [] := by
  unfold run
  cases m.source.opened with
  | error f => rfl
  | ok s =>
    have hstep : (m.withSource s).step = ⟨m.withSource s, [], .ok false⟩ := step_finished hf
    cases n with
    | zero => rfl
    | succ n => simp [takeSteps, stepsFrom, hstep]

end Machine

namespace Workbench

open Machine

/-- The remarks among deliveries that reach a machine. -/
def remarksTo (j : Nat) (deliveries : List Delivery) : List Diagnostic :=
  deliveries.filterMap fun d => if d.1 = j then d.2.remark? else none

/-- The remarks of a machine that is called. -/
def reported (w : Workbench) (c : Call) : List Diagnostic :=
  Event.remarks ((w.machines[c.machine]?.map c.events).getD [])

/-- A machine that takes a step when it is called for one. -/
def IsRunning (w : Workbench) (j : Nat) : Prop := ∃ m, w.machines[j]? = some m ∧ m.finished = false

/-- A machine whose source can be opened for a run. -/
def Opens (w : Workbench) (j : Nat) : Prop := ∃ m s, w.machines[j]? = some m ∧ m.source.opened = .ok s

/-- Whether a machine is subscribed after a call, if it is told whether it was before. The first step
begins a subscription, and a run that was opened ends it. -/
def Call.Subscribed (w : Workbench) (j : Nat) (before : Prop) : Call → Prop
  | .step i => before ∨ i = j ∧ w.IsRunning j
  | .run i _ => before ∧ ¬(i = j ∧ w.Opens j)

/-- Whether a machine is subscribed after a row of calls. -/
def Subscribed (w : Workbench) (j : Nat) (before : Prop) : List Call → Prop
  | [] => before
  | c :: calls => (w.call c).1.Subscribed j (c.Subscribed w j before) calls

/-- Runs begin no subscription that lasts. -/
lemma not_subscribed_of_runs {w : Workbench} {j : Nat} {before : Prop} {calls : List Call}
    (hruns : ∀ c ∈ calls, ∃ i n, c = .run i n) (hbefore : ¬before) : ¬w.Subscribed j before calls := by
  induction calls generalizing w before with
  | nil => exact hbefore
  | cons c calls ih =>
    obtain ⟨⟨i, n, rfl⟩, hmore⟩ := List.forall_mem_cons.1 hruns
    apply ih hmore
    rintro ⟨h, -⟩
    exact hbefore h

/-! ## One event -/

lemma remark?_seenBy (w : Workbench) (j : Nat) (x : Event) : (w.seenBy j x).remark? = x.remark? := by
  unfold seenBy
  split
  · rfl
  · dsimp only
    split <;> rfl

@[simp] lemma remarksTo_append (j : Nat) (ds ds' : List Delivery) :
    remarksTo j (ds ++ ds') = remarksTo j ds ++ remarksTo j ds' := List.filterMap_append

lemma filterMap_of_nodup {ks : List Nat} (h : ks.Nodup) (j : Nat) (d : Diagnostic) :
    (ks.filterMap fun k => if k = j then some d else none) = if j ∈ ks then [d] else [] := by
  induction h with
  | nil => rfl
  | @cons k ks hk _ ih =>
    by_cases hkj : k = j
    · subst hkj
      have hmem : k ∉ ks := fun hmem => hk k hmem rfl
      simp [ih, hmem]
    · simp [hkj, ih, Ne.symm hkj]

/-- A remark reaches each subscriber once. -/
lemma remarksTo_deliveries {w : Workbench} {i : Nat} (hnodup : (w.collector i).subscribers.Nodup) (j : Nat)
    (x : Event) :
    remarksTo j (w.deliveries i x) = if j ∈ (w.collector i).subscribers then x.remark?.toList else [] := by
  unfold deliveries
  cases hx : x.remark? with
  | none => simp [remarksTo, hx]
  | some d =>
    have hkind (k : Nat) : (if k = i then x else w.seenBy k x).remark? = some d := by
      split
      · exact hx
      · rw [remark?_seenBy, hx]
    simp only [remarksTo, List.filterMap_map, Function.comp_def, hkind, Option.toList_some]
    exact filterMap_of_nodup hnodup j d

lemma remarksTo_flatMap {w : Workbench} {i : Nat} (hnodup : (w.collector i).subscribers.Nodup) (j : Nat)
    (events : List Event) :
    remarksTo j (events.flatMap (w.deliveries i)) =
      if j ∈ (w.collector i).subscribers then Event.remarks events else [] := by
  induction events with
  | nil => simp [remarksTo]
  | cons x events ih =>
    rw [List.flatMap_cons, remarksTo_append, remarksTo_deliveries hnodup, ih, Event.remarks_cons]
    split <;> rfl

/-! ## One call -/

section Sharing

variable {machines : Array Machine} {c : Collector Nat} {sharesTape : Bool} {i j : Nat} {m : Machine}

lemma mem_joined : j ∈ (joined c i m).subscribers ↔ j ∈ c.subscribers ∨ i = j ∧ m.finished = false := by
  unfold joined
  split
  next h =>
    constructor
    · exact .inl
    · rintro (hj | ⟨rfl, hf⟩)
      · exact hj
      · exact h.resolve_left (by simp [hf])
  next h =>
    have hf : m.finished = false := by simpa using fun hf => h (.inl hf)
    simp [Collector.subscribe, hf, eq_comm]

lemma nodup_joined (h : c.subscribers.Nodup) : (joined c i m).subscribers.Nodup := by
  unfold joined
  split
  · exact h
  next hi =>
    apply List.Nodup.append h (List.nodup_singleton i)
    simpa using fun hmem => hi (.inr hmem)

/-- What happens in a machine reaches it, and whoever else is subscribed. A machine that is not
subscribed by then is finished. -/
lemma remarksTo_joined (hnodup : c.subscribers.Nodup) {events : List Event}
    (hquiet : m.finished = true → events = []) (j : Nat) :
    let deliveries := events.flatMap ((sharing machines (joined c i m) sharesTape).deliveries i)
    (j = i ∨ j ∈ c.subscribers → remarksTo j deliveries = Event.remarks events) ∧
    (¬(j = i ∨ j ∈ c.subscribers) → remarksTo j deliveries = []) := by
  intro deliveries
  have hall : remarksTo j deliveries =
      if j ∈ (joined c i m).subscribers then Event.remarks events else [] := by
    apply remarksTo_flatMap
    exact nodup_joined hnodup
  rw [hall]
  constructor
  · intro h
    cases hf : m.finished with
    | true => simp [hquiet hf]
    | false =>
      rw [if_pos (mem_joined.2 ?_)]
      exact h.symm.imp_right fun hj => ⟨hj.symm, hf⟩
  · intro h
    rw [if_neg]
    rintro hj
    exact h ((mem_joined.1 hj).symm.imp_left fun hi => hi.1.symm)

/-- A call makes its remarks known to the machine that is called and to every other subscriber. -/
theorem remarksTo_call_sharing (machines : Array Machine) (sharesTape : Bool)
    (hnodup : c.subscribers.Nodup) (call : Call) (j : Nat) :
    (j = call.machine ∨ j ∈ c.subscribers →
      remarksTo j ((sharing machines c sharesTape).call call).2 =
        (sharing machines c sharesTape).reported call) ∧
    (¬(j = call.machine ∨ j ∈ c.subscribers) →
      remarksTo j ((sharing machines c sharesTape).call call).2 = []) := by
  cases hm : machines[call.machine]? with
  | none => simp [call_none hm, reported, hm, remarksTo]
  | some m =>
    have hreported : (sharing machines c sharesTape).reported call = Event.remarks (call.events m) := by
      simp [reported, hm]
    rw [hreported]
    cases call with
    | step i =>
      have hm : machines[i]? = some m := hm
      rw [call_step hm]
      apply remarksTo_joined hnodup
      intro hf
      rw [step_finished hf]
    | run i n =>
      have hm : machines[i]? = some m := hm
      cases hs : m.source.opened with
      | error f =>
        have hnone : (m.run n).events = [] := by simp [Machine.run, hs]
        rw [call_run_error hm hs]
        simp [Call.events, hnone, remarksTo]
      | ok s =>
        rw [call_run hm hs]
        apply remarksTo_joined hnodup
        intro hf
        exact events_run_finished hf n

lemma isRunning_iff (hm : machines[i]? = some m) :
    (sharing machines c sharesTape).IsRunning i ↔ m.finished = false := by
  simp [IsRunning, hm]

lemma opens_iff (hm : machines[i]? = some m) :
    (sharing machines c sharesTape).Opens i ↔ ∃ s, m.source.opened = .ok s := by
  simp [Opens, hm]

/-- A machine that is not there neither runs nor opens. -/
lemma subscribed_none {call : Call} (hm : machines[call.machine]? = none) (j : Nat) (before : Prop) :
    call.Subscribed (sharing machines c sharesTape) j before ↔ before := by
  cases call with
  | step i =>
    have hm : machines[i]? = none := hm
    constructor
    · rintro (h | ⟨rfl, m, hm', -⟩)
      · exact h
      · simp [hm] at hm'
    · exact .inl
  | run i n =>
    have hm : machines[i]? = none := hm
    refine and_iff_left ?_
    rintro ⟨rfl, m, s, hm', -⟩
    simp [hm] at hm'

/-- A call leaves no machine subscribed twice, and those subscribed that the call says. -/
theorem subscribers_call_sharing (machines : Array Machine) (sharesTape : Bool)
    (hnodup : c.subscribers.Nodup) (call : Call) :
    ∃ machines' c', ((sharing machines c sharesTape).call call).1 = sharing machines' c' sharesTape ∧
      c'.subscribers.Nodup ∧
      ∀ j, j ∈ c'.subscribers ↔
        call.Subscribed (sharing machines c sharesTape) j (j ∈ c.subscribers) := by
  cases hm : machines[call.machine]? with
  | none => exact ⟨machines, c, by rw [call_none hm], hnodup, fun j => (subscribed_none hm j _).symm⟩
  | some m =>
    cases call with
    | step i =>
      have hm : machines[i]? = some m := hm
      refine ⟨_, _, congrArg Prod.fst (call_step hm), nodup_joined hnodup, fun j => ?_⟩
      apply mem_joined.trans
      apply or_congr_right
      apply and_congr_right
      rintro rfl
      exact (isRunning_iff hm).symm
    | run i n =>
      have hm : machines[i]? = some m := hm
      cases hs : m.source.opened with
      | error f =>
        refine ⟨_, _, congrArg Prod.fst (call_run_error hm hs), hnodup, fun j => ?_⟩
        symm
        apply and_iff_left
        rintro ⟨rfl, hopens⟩
        simpa [hs] using (opens_iff hm).1 hopens
      | ok s =>
        refine ⟨_, _, congrArg Prod.fst (call_run hm hs), (nodup_joined hnodup).erase i, fun j => ?_⟩
        apply ((nodup_joined hnodup).mem_erase_iff).trans
        rw [mem_joined]
        constructor
        · rintro ⟨hji, hj⟩
          exact ⟨hj.resolve_right fun h => hji h.1.symm, fun h => hji h.1.symm⟩
        · rintro ⟨hj, hi⟩
          refine ⟨?_, .inl hj⟩
          rintro rfl
          exact hi ⟨rfl, (opens_iff hm).2 ⟨s, hs⟩⟩

/-- After a row of calls those are subscribed that the calls say. -/
theorem subscribers_after (machines : Array Machine) (sharesTape : Bool)
    (hnodup : c.subscribers.Nodup) (calls : List Call) :
    ∃ machines' c', (sharing machines c sharesTape).after calls = sharing machines' c' sharesTape ∧
      c'.subscribers.Nodup ∧
      ∀ j, j ∈ c'.subscribers ↔
        (sharing machines c sharesTape).Subscribed j (j ∈ c.subscribers) calls := by
  induction calls generalizing machines c with
  | nil => exact ⟨machines, c, rfl, hnodup, fun j => Iff.rfl⟩
  | cons call calls ih =>
    obtain ⟨machines', c', hcall, hnodup', hmem⟩ :=
      subscribers_call_sharing machines sharesTape hnodup call
    obtain ⟨machines'', c'', hafter, hnodup'', hmem'⟩ := ih machines' hnodup'
    refine ⟨machines'', c'', ?_, hnodup'', fun j => ?_⟩
    · rw [after_cons, hcall, hafter]
    · rw [hmem', hmem, Subscribed, hcall]

end Sharing

/-- A remark of a machine reaches that machine and all that are subscribed, once each, and nobody else.
Subscribed are those machines that began a step and did not end a run since, each of them once. If all
calls were runs, then no subscription is left and a machine hears of no other. -/
theorem remarks_reach_subscribers (machines : Array Machine) (records : Array Diagnostic)
    (sharesTape : Bool) (calls : List Call) (c : Call) :
    let start := sharing machines { records := records } sharesTape
    let w := start.after calls
    (∀ j, (j = c.machine ∨ start.Subscribed j False calls →
        remarksTo j (w.call c).2 = w.reported c) ∧
      (¬(j = c.machine ∨ start.Subscribed j False calls) → remarksTo j (w.call c).2 = [])) ∧
    (w.collector 0).subscribers.Nodup ∧
    (∀ j, j ∈ (w.collector 0).subscribers ↔ start.Subscribed j False calls) ∧
    ((∀ c' ∈ calls, ∃ i n, c' = .run i n) → (w.collector 0).subscribers = [] ∧
      ∀ j, j ≠ c.machine → remarksTo j (w.call c).2 = []) := by
  intro start w
  obtain ⟨machines', c', hafter, hnodup, hmem⟩ := subscribers_after machines sharesTape
    (c := { records := records }) List.nodup_nil calls
  have hmem (j : Nat) : j ∈ c'.subscribers ↔ start.Subscribed j False calls := by
    simpa [start] using hmem j
  have hreach (j : Nat) := remarksTo_call_sharing machines' sharesTape hnodup c j
  have hw : w = sharing machines' c' sharesTape := hafter
  clear_value w
  subst hw
  refine ⟨fun j => ?_, hnodup, hmem, fun hruns => ?_⟩
  · rw [← hmem]
    exact hreach j
  · have hnone (j : Nat) : j ∉ c'.subscribers := by
      rw [hmem]
      exact not_subscribed_of_runs hruns id
    refine ⟨List.eq_nil_iff_forall_not_mem.2 hnone, fun j hj => (hreach j).2 ?_⟩
    rintro (h | h)
    · exact hj h
    · exact hnone j h

/-- A machine that has begun a step is told of the remarks of another one, and machines that finished
step by step stay subscribed. -/
theorem told_of_another :
    let program (text : Array UInt8) : Machine := ofText { tapeLength := 1 } text []
    let start := sharing #[program #[43], program #[120, 43]] {} false
    let w := start.after [.step 0]
    let last := start.after [.step 0, .step 0, .step 1, .step 1]
    (w.reported (.step 1) = remarksTo 0 (w.call (.step 1)).2 ∧ remarksTo 0 (w.call (.step 1)).2 ≠ []) ∧
    (∀ m ∈ last.machines, m.finished = true) ∧ (last.collector 0).subscribers = [0, 1] := by
  decide +kernel

end Workbench

end Brainfuck
