import Brainfuck.Proofs.Machine.Control

/-! # Calls of a step

A step may be asked for again and again, also after it refused to go on and after a fault. The machine
and the events after so many calls are what a run comes to, as long as there is no fault: once a step
says that the run is over, further calls change nothing. -/
namespace Brainfuck.Machine

variable {e : Edition} {c : Control} {m : Machine} {j k n : Nat}

/-- The machine after `k` calls of a step, whatever these return. -/
def afterCalls (m : Machine) : Nat → Machine
  | 0 => m
  | k + 1 => (afterCalls m k).step.machine

/-- What happens in the first `k` calls of a step. -/
def callEvents (m : Machine) : Nat → List Event
  | 0 => []
  | k + 1 => callEvents m k ++ (m.afterCalls k).step.events

@[simp] lemma afterCalls_zero (m : Machine) : m.afterCalls 0 = m := rfl

@[simp] lemma callEvents_zero (m : Machine) : m.callEvents 0 = [] := rfl

theorem afterCalls_add (m : Machine) (j k : Nat) :
    m.afterCalls (j + k) = (m.afterCalls j).afterCalls k := by
  induction k with
  | zero => rfl
  | succ k ih =>
    change (m.afterCalls (j + k)).step.machine = _
    rw [ih]
    rfl

theorem callEvents_add (m : Machine) (j k : Nat) :
    m.callEvents (j + k) = m.callEvents j ++ (m.afterCalls j).callEvents k := by
  induction k with
  | zero => simp
  | succ k ih =>
    change m.callEvents (j + k) ++ (m.afterCalls (j + k)).step.events = _
    rw [ih, afterCalls_add, List.append_assoc]
    rfl

lemma afterCalls_succ (m : Machine) (k : Nat) :
    m.afterCalls (k + 1) = m.step.machine.afterCalls k := by
  rw [Nat.add_comm, afterCalls_add]
  rfl

lemma callEvents_succ (m : Machine) (k : Nat) :
    m.callEvents (k + 1) = m.step.events ++ m.step.machine.callEvents k := by
  rw [Nat.add_comm, callEvents_add]
  rfl

/-- What holds at the start and is kept by every step holds after every number of calls. -/
theorem At.afterCalls_induction {P : Control → Machine → List Event → Prop} (h : m.At e c)
    (start : P c m [])
    (step : ∀ {c c' m' events o}, m'.At e c → P c m' events → Step e m' c c' o →
      P c' o.machine (events ++ o.events)) (k : Nat) :
    ∃ c', (m.afterCalls k).At e c' ∧ P c' (m.afterCalls k) (m.callEvents k) := by
  induction k with
  | zero => exact ⟨c, h, start⟩
  | succ k ih =>
    obtain ⟨c', hat, hp⟩ := ih
    obtain ⟨c'', hstep⟩ := hat.step
    exact ⟨c'', hstep.at hat, step hat hp hstep⟩

/-- Some control says where a machine is after every number of calls. -/
theorem At.afterCalls (h : m.At e c) (k : Nat) : ∃ c', (m.afterCalls k).At e c' :=
  (h.afterCalls_induction (P := fun _ _ _ => True) trivial (fun _ _ _ => trivial) k).imp
    fun _ hat => hat.1

lemma step_finished (h : m.finished = true) : m.step = ⟨m, [], .ok false⟩ :=
  step_of_none (fetch_finished h)

/-- A finished machine stays as it is. -/
theorem afterCalls_finished (h : m.finished = true) (k : Nat) :
    m.afterCalls k = m ∧ m.callEvents k = [] := by
  induction k with
  | zero => exact ⟨rfl, rfl⟩
  | succ k ih =>
    rw [afterCalls_succ, callEvents_succ, step_finished h]
    exact ih

/-- A step that refuses to go on leaves the machine finished, and any other one does not. -/
theorem At.finished_iff (h : m.At e c) {b : Bool} (hb : m.step.result = .ok b) :
    m.step.machine.finished = true ↔ b = false := by
  obtain ⟨c', hstep⟩ := h.step
  generalize m.step = o at hstep hb
  cases hstep with
  | finished hf => simp_all
  | limit => simp_all
  | ended => simp_all
  | done hf _ _ _ hx =>
    have hfin := hx.unchanged.finished.trans hf
    obtain rfl := Except.ok.inj hb
    simp_all [counted]
  | fault => simp at hb

lemma stepsFrom_eq (h : m.At e c) (hok : ∀ k < n, ∃ b, (m.afterCalls k).step.result = .ok b)
    (events : Array Event) (taken : Nat) :
    ∃ r, stepsFrom events taken n m =
      (m.afterCalls n, events ++ m.callEvents n, .ok r) := by
  induction n generalizing m c events taken with
  | zero => exact ⟨taken, by simp [stepsFrom]⟩
  | succ n ih =>
    obtain ⟨b, hb⟩ := hok 0 (by omega)
    obtain ⟨c', hstep⟩ := h.step
    have hrest := ih (hstep.at h) fun k hk => by
      simpa [afterCalls_succ] using hok (k + 1) (by omega)
    have hfinished := h.finished_iff hb
    rw [afterCalls_succ, callEvents_succ]
    rcases hm : m.step with ⟨m', more, result⟩
    simp only [afterCalls_zero, hm] at hb hrest hfinished
    subst hb
    cases b with
    | true =>
      obtain ⟨r, hr⟩ := hrest (events ++ more) (taken + 1)
      refine ⟨r, ?_⟩
      simp only [stepsFrom, hm, hr]
      have happend : events ++ more ++ m'.callEvents n = events ++ (more ++ m'.callEvents n) :=
        Array.toList_inj.1 (by simp)
      rw [happend]
    | false =>
      obtain ⟨hafter, hevents⟩ := afterCalls_finished (hfinished.2 rfl) n
      exact ⟨taken, by simp [stepsFrom, hm, hafter, hevents]⟩

/-- Without a fault a run is so many calls of a step, and then the source is closed. -/
theorem At.run_eq (h : m.At e c) (hok : ∀ k < n, ∃ b, (m.afterCalls k).step.result = .ok b) :
    m.run n = ⟨(m.afterCalls n).withSource (m.afterCalls n).source.closed, m.callEvents n, .ok ()⟩ := by
  obtain ⟨r, hr⟩ := stepsFrom_eq h hok #[] 0
  have hself : m.withSource m.source = m := rfl
  simp [run, h.source.opened_eq, hself, takeSteps, hr, Except.map]

/-- Taking steps is calling for so many of them, whatever comes of the last one. -/
lemma exists_stepsFrom_eq (events : Array Event) (taken n : Nat) (m : Machine) :
    ∃ k r, k ≤ n ∧ stepsFrom events taken n m = (m.afterCalls k, events ++ m.callEvents k, r) := by
  induction n generalizing events taken m with
  | zero => exact ⟨0, .ok taken, Nat.le_refl 0, by simp [stepsFrom]⟩
  | succ n ih =>
    rcases hm : m.step with ⟨m', more, f | _ | _⟩
    · exact ⟨1, .error f, by omega, by simp [stepsFrom, hm, afterCalls_succ, callEvents_succ]⟩
    · exact ⟨1, .ok taken, by omega, by simp [stepsFrom, hm, afterCalls_succ, callEvents_succ]⟩
    · obtain ⟨k, r, hk, hrest⟩ := ih (events ++ more) (taken + 1) m'
      have happend : events ++ more ++ m'.callEvents k = events ++ (more ++ m'.callEvents k) :=
        Array.toList_inj.1 (by simp)
      exact ⟨k + 1, r, by omega,
        by simp [stepsFrom, hm, hrest, happend, afterCalls_succ, callEvents_succ]⟩

/-- A run is so many calls of a step between opening and closing the source, unless there is nothing to
open. -/
theorem exists_run_eq (m : Machine) (n : Nat) :
    (∃ f, m.run n = ⟨m, [], .error f⟩) ∨
    ∃ s k r, m.source.opened = .ok s ∧ k ≤ n ∧ m.run n =
      ⟨((m.withSource s).afterCalls k).withSource ((m.withSource s).afterCalls k).source.closed,
        (m.withSource s).callEvents k, r⟩ := by
  cases hs : m.source.opened with
  | error f => exact .inl ⟨f, by simp [run, hs]⟩
  | ok s =>
    obtain ⟨k, r, hk, hsteps⟩ := exists_stepsFrom_eq #[] 0 n (m.withSource s)
    exact .inr ⟨s, k, r.map fun _ => (), rfl, hk, by simp [run, hs, takeSteps, hsteps]⟩

/-- A machine that is loaded with a text stands at its start. -/
theorem ofText_at (s : Settings) (text : Array UInt8) (console : List Char) :
    (ofText s text console).At (.ofSettings s text) {} :=
  ⟨Edition.ofText_holds s text, rfl, rfl, by simp⟩

end Brainfuck.Machine
