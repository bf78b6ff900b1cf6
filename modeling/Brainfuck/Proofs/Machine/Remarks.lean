import Brainfuck.Proofs.Machine.Calls

/-! # The remarks of a step

Remarks are made by the decoder on the way from one operator to another, by a pointer that leaves the
tape, and by a bracket without a partner. -/
namespace Brainfuck

variable {e : Edition} {m : Machine} {s : Source} {op : Operator} {i j : Nat}

/-- The remarks on brackets without a partner. -/
def Event.structural (events : List Event) : List Diagnostic :=
  (Event.remarks events).filter (·.category = .structural)

namespace Event

@[simp] lemma remarks_nil : remarks [] = [] := rfl

@[simp] lemma remarks_append (xs ys : List Event) : remarks (xs ++ ys) = remarks xs ++ remarks ys :=
  List.filterMap_append

@[simp] lemma remarks_cons (x : Event) (xs : List Event) :
    remarks (x :: xs) = x.remark?.toList ++ remarks xs := by
  cases h : x.remark? <;> simp [remarks, h]

@[simp] lemma remarks_reports (m : Machine) (ds : List Diagnostic) :
    remarks (ds.map m.reportEvent) = ds := by
  induction ds with
  | nil => rfl
  | cons d ds ih =>
    rw [List.map_cons, remarks_cons, ih]
    rfl

@[simp] lemma structural_nil : structural [] = [] := rfl

@[simp] lemma structural_append (xs ys : List Event) :
    structural (xs ++ ys) = structural xs ++ structural ys := by
  simp [structural]

lemma structural_eq_nil {events : List Event}
    (h : ∀ d ∈ remarks events, d.category ≠ .structural) : structural events = [] := by
  simpa [structural] using h

end Event

namespace Edition

lemma structural_eq_nil {remarks : List Diagnostic} (h : ∀ d ∈ remarks, d.isDecode) :
    remarks.filter (·.category = .structural) = [] := by
  rw [List.filter_eq_nil_iff]
  intro d hd
  have := h d hd
  simp_all [Diagnostic.isDecode]

lemma structural_remarks (e : Edition) (i j : Nat) :
    (e.remarks i j).filter (·.category = .structural) = [] :=
  structural_eq_nil fun _ hd => isDecode_of_mem_remarks hd

/-- Loading a program does not look at its structure. -/
lemma structural_reports (s : Settings) (text : Array UInt8) :
    (Source.ofText s text).2.filter (·.category = .structural) = [] :=
  structural_eq_nil fun _ => isDecode_of_mem_reports

end Edition

namespace Machine

@[simp] lemma remarks_drawEvents : Event.remarks (m.drawEvents e i s op) = e.remarks i (i + 1) := by
  simp [drawEvents, event, Event.remark?]

@[simp] lemma remarks_skipEvents : Event.remarks (m.skipEvents e i) = e.remarks i (e.loopEnd i) := by
  simp [skipEvents, event, Event.remark?]

@[simp] lemma events_add (m : Machine) (n : Int) : (m.add n).events = [] := by
  unfold add
  split <;> rfl

@[simp] lemma events_read (m : Machine) : m.read.events = [] := by
  simp only [read]
  split
  · rfl
  · split <;> rfl

@[simp] lemma remarks_write (m : Machine) : Event.remarks m.write.events = [] := by
  simp only [write]
  split <;> simp [event, Event.remark?]

/-- The only remark of a walk is that the pointer left the tape, at the place where the machine is. -/
theorem mem_remarks_walk {n : Int} {d : Diagnostic} (h : d ∈ Event.remarks (m.walk n).events) :
    ∃ w, (m.tape.move n).2 = some w ∧
      d = (Problem.wrapped w (m.tape.move n).1.length).diagnosticAt m.location := by
  unfold walk at h
  rcases hmove : m.tape.move n with ⟨tape, wrap⟩
  have hplace : (m.withTape tape).location = m.location := rfl
  simp only [hmove] at h
  cases wrap with
  | none => simp at h
  | some w => exact ⟨w, rfl, by simpa [problemEvent, event, Event.remark?, hplace] using h⟩

/-- An action remarks on nothing but a pointer that left the tape. -/
theorem remarks_action (m : Machine) (a : Action) :
    ∀ d ∈ Event.remarks (m.execute a.operator).events, d.category = .range := by
  intro d hd
  cases a with
  | right | left =>
    obtain ⟨w, -, rfl⟩ := mem_remarks_walk hd
    rfl
  | increment | decrement | output | input => simp [Action.operator, execute] at hd

@[simp] lemma structural_action (m : Machine) (a : Action) :
    Event.structural (m.execute a.operator).events = [] :=
  Event.structural_eq_nil fun d hd => by simp [remarks_action m a d hd]

@[simp] lemma structural_drawEvents : Event.structural (m.drawEvents e i s op) = [] := by
  rw [Event.structural, remarks_drawEvents, Edition.structural_remarks]

@[simp] lemma structural_skipEvents : Event.structural (m.skipEvents e i) = [] := by
  rw [Event.structural, remarks_skipEvents, Edition.structural_remarks]

lemma structural_problemEvent {p : Problem} (hp : p.category = .structural) :
    Event.structural [m.problemEvent p] = [p.diagnosticAt m.location] := by
  simp [Event.structural, problemEvent, event, Event.remark?, Problem.diagnosticAt, hp]

end Machine

end Brainfuck
