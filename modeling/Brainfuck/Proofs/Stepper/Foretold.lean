import Brainfuck.Proofs.Machine.Stream
import Brainfuck.Proofs.Machine.Wraps
import Brainfuck.Stepper.Prospect

/-! # What is foretold comes true

What a stepper says of an operator is worked out from the loops, the cell and the pointer alone, before the
operator is carried out. It is what then happens: a loop is entered, skipped, left or repeated exactly if it
was said so, and a bracket is stray exactly if it was said to be. The pointer and the cell come to what was said
but for the ends of the tape and of the values of a cell. -/
namespace Brainfuck

open Event

variable {m : Machine} {op : Operator} {s s' : Source} {reports : List Diagnostic} {p : Int} {l : Location}

/-- An operator is drawn from an open source only. -/
lemma Source.isOpen_of_next (h : s.next = .ok ⟨s', reports, some op⟩) : s'.isOpen = true := by
  cases s with
  | stream r =>
    obtain ⟨rfl, -, hop⟩ : stream r.next.source = s' ∧ r.next.reports = reports ∧ r.next.operator = some op := by
      simpa [next] using h
    cases hoffset : r.offset with
    | none => simp [Reader.next, hoffset] at hop
    | some p =>
      have hnext : r.next = Reader.decodeFrom r.medium.text r p := by simp [Reader.next, hoffset]
      rw [isOpen, Reader.isOpen, hnext, Reader.decodeFrom_eq _ _ _ hoffset]
      rfl
  | compiled c =>
    rcases hnext : c.next with f | d
    · simp [next, hnext, Except.map] at h
    · obtain ⟨rfl, -, -⟩ : compiled d.source = s' ∧ d.reports = reports ∧ d.operator = some op := by
        simpa [next, hnext, Except.map] using h
      rfl

/-- An open source that goes to a place is there. -/
lemma Source.location_seek (hopen : s.isOpen = true) (h : s.seek p (some l) = .ok (s', reports)) :
    s'.location = l ∧ reports = [] := by
  cases s with
  | stream r =>
    obtain ⟨offset, hoffset⟩ := Option.isSome_iff_exists.1 (show r.offset.isSome = true from hopen)
    simp only [seek, Reader.seek, hoffset] at h
    split at h
    · cases h
    split at h
    · split at h <;> cases h
    · obtain ⟨rfl, rfl⟩ : _ = s' ∧ [] = reports := by simpa [Except.map] using h
      exact ⟨rfl, rfl⟩
  | compiled c =>
    obtain ⟨rfl, rfl⟩ : compiled (c.seek p (some l)) = s' ∧ [] = reports := by simpa [seek] using h
    exact ⟨rfl, rfl⟩

namespace Machine

lemma isOpen_of_drawn (h : m.fetch.result = .ok (some op)) : m.fetch.machine.source.isOpen = true := by
  cases hf : m.finished with
  | true => simp [fetch_finished hf] at h
  | false =>
    cases hl : m.limitReached with
    | true => simp [fetch_limit hf hl] at h
    | false =>
      rcases hnext : m.source.next with f | ⟨s, reports, _ | op'⟩
      · simp [fetch, hf, hl, hnext] at h
      · simp [fetch_end hf hl hnext] at h
      · rw [fetch_next hf hl hnext]
        exact Source.isOpen_of_next hnext

/-- What the words on an operator that a machine is about to carry out have to do with what comes of it. -/
def Foretold (m : Machine) (text : String) (o : Outcome Unit) (op : Operator) : Prop :=
  let p := m.tape.pointer
  let v := m.tape.read
  match op with
  | .right => ∃ stated : Int, text = s!"Move pointer to right ({p} -> {stated})" ∧
      (o.machine.tape.pointer = stated ↔ excursions o.events = [])
  | .left => ∃ stated : Int, text = s!"Move pointer to left ({p} -> {stated})" ∧
      (o.machine.tape.pointer = stated ↔ excursions o.events = [])
  | .increment => ∃ stated : Int, text = s!"Increase value at position {p} ({v} -> {stated})" ∧
      o.machine.tape.pointer = p ∧ o.machine.tape.read = stated % (m.tape.cellMax + 1)
  | .decrement => ∃ stated : Int, text = s!"Decrease value at position {p} ({v} -> {stated})" ∧
      o.machine.tape.pointer = p ∧ o.machine.tape.read = stated % (m.tape.cellMax + 1)
  | .loopStart =>
    (text = "Skipping loop. Moving execution forward to closing bracket." ↔
      ∃ x ∈ o.events, x.kind = .loopSkipped) ∧
    (text = "Beginning a loop" ↔ ∃ x ∈ o.events, x.kind = .loopEntered)
  | .loopEnd =>
    (text = "Closing bracket without an opening bracket" ↔
      structural o.events = [Problem.unopenedLoop.diagnosticAt m.location]) ∧
    (text = "Breaking out of a loop" ↔ ∃ x ∈ o.events, x.kind = .loopExited) ∧
    ((∃ rest, text = "Moving execution back to " ++ rest) ↔
      ∃ x ∈ o.events, ∃ target, x.kind = .loopRepeated target) ∧
    ∀ x ∈ o.events, ∀ target, x.kind = .loopRepeated target →
      o.machine.location = target ∧ o.machine.tape = m.tape ∧ v ≠ 0 ∧
      text = s!"Moving execution back to {target.text} until value at position {p} is zero (currently {v})"
  | .output => text = s!"Print out current value as character (value {v})" ∧ written o.events = [v]
  | .input => text = s!"Input next character input into position {p}" ∧
      ∀ i ≠ p, o.machine.tape.cells[i]? = m.tape.cells[i]?

/-! ## Moves and changes of a cell -/

lemma toString_succ (n : Nat) : toString ((n : Int) + 1) = toString (n + 1) := rfl

lemma text_moveRight (p : Nat) :
    (Prospect.moveRight p).text = s!"Move pointer to right ({p} -> {(p : Int) + 1})" := by
  rw [toString_succ]
  rfl

lemma text_moveLeft (p : Nat) :
    (Prospect.moveLeft p).text = s!"Move pointer to left ({p} -> {(p : Int) - 1})" := rfl

lemma text_increase (p v : Nat) :
    (Prospect.increase p v).text = s!"Increase value at position {p} ({v} -> {(v : Int) + 1})" := by
  rw [toString_succ]
  rfl

lemma text_decrease (p v : Nat) :
    (Prospect.decrease p v).text = s!"Decrease value at position {p} ({v} -> {(v : Int) - 1})" := rfl

/-- A pointer that leaves the tape does not come to the place that was named. -/
lemma walk_pointer_iff (m : Machine) (d : Int) :
    ((m.walk d).machine.tape.pointer = m.tape.pointer + d ↔ excursions (m.walk d).events = []) := by
  have hlt : m.tape.pointer < m.tape.length := m.tape.pointer_lt
  rw [excursions_walk, machine_walk]
  obtain ⟨hp, hover, hmove⟩ | ⟨hp, hunder, hmove⟩ | ⟨p, hp, hsum, hmove⟩ := m.tape.move_cases d
  · simp [Tape.warnings, Tape.walk, hmove, withTape, Tape.pointAt]
    omega
  · simp [Tape.warnings, Tape.walk, hmove, withTape, Tape.pointAt]
    omega
  · simp [Tape.warnings, Tape.walk, hmove, withTape, Tape.pointAt, hsum]

lemma add_of_ok (m : Machine) (d : Int) (hok : (m.add d).result = .ok ()) :
    (m.add d).machine.tape.pointer = m.tape.pointer ∧
      (m.add d).machine.tape.read = (m.tape.read + d : Int) % (m.tape.cellMax + 1) := by
  unfold add at hok ⊢
  cases hadjust : m.tape.adjust d with
  | error f => simp [hadjust] at hok
  | ok tape =>
    have hread := congrArg Int.ofNat (Tape.read_of_write hadjust)
    exact ⟨(Tape.write_eq_ok hadjust).1, hread.trans (m.tape.natCast_fold _)⟩

/-! ## Texts -/

lemma written_of_ok (m : Machine) (hok : m.write.result = .ok ()) : written m.write.events = [m.tape.read] := by
  simp only [write] at hok ⊢
  split at hok
  next hle => rw [if_pos hle, written_event, written_nil, List.append_nil]
  next => cases hok

/-- Input changes no cell but the one under the pointer. -/
lemma cells_read (m : Machine) {i : Nat} (hi : i ≠ m.tape.pointer) :
    m.read.machine.tape.cells[i]? = m.tape.cells[i]? := by
  simp only [read]
  split
  · rfl
  split
  next hwrite => exact (Tape.getElem?_write hwrite i).trans (if_neg hi.symm)
  · rfl

/-! ## Brackets -/

lemma tells_iff {kind : Kind} {events : List Event} :
    (∃ x ∈ events, x.kind = kind) ↔ tally kind events ≠ 0 := by
  simp [tally, List.countP_eq_zero]

lemma tally_skipLoop {kind : Kind} (h : ∀ d, .diagnostic d ≠ kind) (m : Machine) :
    tally kind m.skipLoop.events = 0 := by
  refine List.countP_eq_zero.2 fun x hx => ?_
  obtain ⟨d, hkind, -⟩ := m.remarking_skipLoop.1 x hx
  simp [hkind, h]

theorem foretold_startLoop (m : Machine) :
    m.Foretold (Prospect.of m (some .loopStart)).text m.startLoop .loopStart := by
  rw [Foretold, tells_iff, tells_iff]
  by_cases hv : m.tape.read = 0
  · have hof : Prospect.of m (some .loopStart) = .skipLoop := if_pos hv
    have htext : Prospect.text .skipLoop = "Skipping loop. Moving execution forward to closing bracket." := rfl
    rw [hof, htext]
    refine ⟨iff_of_true rfl ?_, iff_of_false (by simp) ?_⟩
    · simp [startLoop, hv, Outcome.after, tally_skipLoop]
    · simp [startLoop, hv, Outcome.after, tally_skipLoop]
  · have hof : Prospect.of m (some .loopStart) = .beginLoop := if_neg hv
    have htext : Prospect.text .beginLoop = "Beginning a loop" := rfl
    rw [hof, htext]
    refine ⟨iff_of_false (by simp) ?_, iff_of_true rfl ?_⟩
    · simp [startLoop, hv]
    · simp [startLoop, hv]

lemma text_repeatLoop (target : Location) (p v : Nat) :
    ∃ rest, (Prospect.repeatLoop target p v).text = "Moving execution back to " ++ rest := by
  refine ⟨target.text ++ (s!" until value at position {p} is zero (currently {v})"), ?_⟩
  have htext : (Prospect.repeatLoop target p v).text =
    s!"Moving execution back to {target.text} until value at position {p} is zero (currently {v})" := rfl
  rw [htext]
  simp only [toString, String.append_assoc]

lemma back_ne {rest text : String} (h : text.toList.head? ≠ some 'M') :
    text ≠ "Moving execution back to " ++ rest := by
  rintro rfl
  exact h (by simp [String.toList_append])

/-- What a closing bracket comes to, if it comes to anything. -/
lemma endLoop_cases (hopen : m.source.isOpen = true) (hok : m.endLoop.result = .ok ()) :
    (m.frames = [] ∧ m.endLoop = ⟨m, [m.problemEvent .unopenedLoop], .ok ()⟩) ∨
    (∃ frame outer, m.frames = frame :: outer ∧ m.tape.read = 0 ∧ m.endLoop =
      ⟨{ m with frames := outer }, [event { m with frames := outer } .loopExited (some .loopEnd)], .ok ()⟩) ∨
    ∃ frame outer s, m.frames = frame :: outer ∧ m.tape.read ≠ 0 ∧ s.location = frame.location ∧ m.endLoop =
      ⟨m.withSource s, [(m.withSource s).event (.loopRepeated frame.location) (some .loopEnd)], .ok ()⟩ := by
  unfold endLoop at hok ⊢
  cases hframes : m.frames with
  | nil => exact .inl ⟨rfl, rfl⟩
  | cons frame outer =>
    by_cases hv : m.tape.read = 0
    · exact .inr (.inl ⟨frame, outer, rfl, hv, by simp [hv]⟩)
    · rcases hseek : m.source.seek frame.position (some frame.location) with f | ⟨s, reports⟩
      · simp [hframes, hv, hseek] at hok
      · obtain ⟨hlocation, rfl⟩ := Source.location_seek hopen hseek
        exact .inr (.inr ⟨frame, outer, s, rfl, hv, hlocation, by simp [hv, hseek]⟩)

/-- A closing bracket whose loop is repeated leads to the place that the loop was noted with. -/
theorem foretold_endLoop (hopen : m.source.isOpen = true) (hok : m.endLoop.result = .ok ()) :
    m.Foretold (Prospect.of m (some .loopEnd)).text m.endLoop .loopEnd := by
  obtain ⟨hframes, hend⟩ | ⟨frame, outer, hframes, hv, hend⟩ | ⟨frame, outer, s, hframes, hv, hlocation, hend⟩ :=
    endLoop_cases hopen hok
  · have hof : Prospect.of m (some .loopEnd) = .strayEnd := by simp [Prospect.of, hframes]
    have htext : Prospect.text .strayEnd = "Closing bracket without an opening bracket" := rfl
    rw [Foretold, hof, hend, htext]
    refine ⟨iff_of_true rfl (structural_problemEvent rfl), iff_of_false (by simp) ?_,
      iff_of_false (by rintro ⟨rest, h⟩; exact back_ne (by simp) h) ?_, ?_⟩
    all_goals simp [problemEvent, event]
  · have hof : Prospect.of m (some .loopEnd) = .leaveLoop := by simp [Prospect.of, hframes, hv]
    have htext : Prospect.text .leaveLoop = "Breaking out of a loop" := rfl
    rw [Foretold, hof, hend, htext]
    refine ⟨iff_of_false (by simp) ?_, iff_of_true rfl ?_,
      iff_of_false (by rintro ⟨rest, h⟩; exact back_ne (by simp) h) ?_, ?_⟩
    all_goals simp [structural, event, remark?]
  · have hof : Prospect.of m (some .loopEnd) = .repeatLoop frame.location m.tape.pointer m.tape.read := by
      simp [Prospect.of, hframes, hv]
    obtain ⟨rest, htext⟩ := text_repeatLoop frame.location m.tape.pointer m.tape.read
    rw [Foretold, hof, hend]
    refine ⟨iff_of_false ?_ ?_, iff_of_false ?_ ?_, iff_of_true ⟨rest, htext⟩ ?_, ?_⟩
    · exact fun h => back_ne (by simp) (h.symm.trans htext)
    · simp [structural, event, remark?]
    · exact fun h => back_ne (by simp) (h.symm.trans htext)
    · simp [event]
    · simp [event]
    · rintro x hx target hkind
      obtain rfl := List.mem_singleton.1 hx
      obtain rfl : frame.location = target := by simpa [event] using hkind
      exact ⟨hlocation, rfl, hv, rfl⟩

/-- What a stepper says of an operator that is then carried out without a fault is what happens. -/
theorem foretold_of_drawn (m : Machine) {op : Operator} (hdrawn : m.fetch.result = .ok (some op))
    (hok : (m.fetch.machine.execute op).result = .ok ()) :
    m.fetch.machine.Foretold (Prospect.of m.fetch.machine (some op)).text (m.fetch.machine.execute op) op := by
  have hopen := isOpen_of_drawn hdrawn
  generalize m.fetch.machine = x at hok hopen ⊢
  cases op with
  | right => exact ⟨x.tape.pointer + 1, text_moveRight _, x.walk_pointer_iff 1⟩
  | left =>
    refine ⟨x.tape.pointer - 1, text_moveLeft _, ?_⟩
    rw [Int.sub_eq_add_neg]
    exact x.walk_pointer_iff (-1)
  | increment => exact ⟨x.tape.read + 1, text_increase _ _, x.add_of_ok 1 hok⟩
  | decrement =>
    refine ⟨x.tape.read - 1, text_decrease _ _, ?_⟩
    rw [Int.sub_eq_add_neg]
    exact x.add_of_ok (-1) hok
  | output => exact ⟨rfl, x.written_of_ok hok⟩
  | input => exact ⟨rfl, fun i hi => x.cells_read hi⟩
  | loopStart => exact x.foretold_startLoop
  | loopEnd => exact foretold_endLoop hopen hok

/-- A loop over a cell that holds one, when its end is drawn. -/
theorem foretold_repeat :
    let m := (ofText {} #[43, 91, 93] []).afterCalls 2
    let x := m.fetch.machine
    m.fetch.result = .ok (some .loopEnd) ∧ (x.execute .loopEnd).result = .ok () ∧
      Prospect.of x (some .loopEnd) = .repeatLoop ⟨1, 2⟩ 0 1 ∧
      x.Foretold (Prospect.of x (some .loopEnd)).text (x.execute .loopEnd) .loopEnd := by
  intro m x
  have hdrawn : m.fetch.result = .ok (some .loopEnd) := by decide +kernel
  have hok : (x.execute .loopEnd).result = .ok () := by decide +kernel
  exact ⟨hdrawn, hok, by decide +kernel, foretold_of_drawn m hdrawn hok⟩

end Machine

end Brainfuck
