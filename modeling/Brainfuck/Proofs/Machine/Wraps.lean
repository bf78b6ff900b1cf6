import Brainfuck.Proofs.Machine.Remarks
import Brainfuck.Proofs.Source.Reports
import Brainfuck.Proofs.Tape.Walks
import Brainfuck.Proofs.Tape.Writes

/-! # Warnings of the pointer

A run moves its pointer where an operator says so, and nowhere else. Each operator that is carried out is told
of, so the events of a run tell how the pointer walked; the warnings among them are one for each move that
left the tape, at the place of its operator and in the order of the moves. This holds of every machine, however
it was come by, and whether or not steps were at fault. -/
namespace Brainfuck

/-- By how many cells an operator moves the pointer, if it moves it. -/
def Operator.stride? : Operator → Option Int
  | .right => some 1
  | .left => some (-1)
  | _ => none

/-- The warnings of a pointer that makes moves, each at its place in a program. -/
def Tape.warnings (t : Tape) (moves : List (Int × Location)) : List Diagnostic :=
  ((t.walk (moves.map Prod.fst)).2.zip (moves.map Prod.snd)).filterMap fun (wrap, place) =>
    wrap.map fun w => (Problem.wrapped w t.length).diagnosticAt place

lemma Tape.warnings_append (t : Tape) (xs ys : List (Int × Location)) :
    t.warnings (xs ++ ys) = t.warnings xs ++ (t.walk (xs.map Prod.fst)).1.warnings ys := by
  obtain ⟨hlength, htold⟩ := t.walk_length (xs.map Prod.fst)
  have hplaces : (t.walk (xs.map Prod.fst)).2.length = (xs.map Prod.snd).length := by
    rw [htold, List.length_map, List.length_map]
  simp only [warnings, List.map_append, walk_append, List.zip_append hplaces, List.filterMap_append, hlength]

lemma Tape.warnings_congr {t u : Tape} (hpointer : u.pointer = t.pointer) (hlength : u.length = t.length)
    (moves : List (Int × Location)) : u.warnings moves = t.warnings moves := by
  simp only [warnings, (walk_congr hpointer hlength _).2, hlength]

namespace Event

variable {m : Machine} {k : Kind} {op : Option Operator} {events : List Event}

/-- The warnings of a pointer that left the tape. -/
def excursions (events : List Event) : List Diagnostic := (remarks events).filter (·.category = .range)

/-- The move that an event tells of, with its place: an operator that moves the pointer was carried out. -/
def move? (x : Event) : Option (Int × Location) :=
  if x.kind = .applied then (x.operator.bind Operator.stride?).map (·, x.location) else none

def moves (events : List Event) : List (Int × Location) := events.filterMap move?

@[simp] lemma excursions_append (xs ys : List Event) : excursions (xs ++ ys) = excursions xs ++ excursions ys := by
  simp [excursions]

@[simp] lemma moves_append (xs ys : List Event) : moves (xs ++ ys) = moves xs ++ moves ys :=
  List.filterMap_append

lemma unit_of_mem_moves : ∀ x ∈ moves events, x.1 = 1 ∨ x.1 = -1 := by
  intro x hx
  obtain ⟨y, -, hy⟩ := List.mem_filterMap.1 hx
  unfold move? at hy
  split at hy
  · obtain ⟨d, hd, rfl⟩ := Option.map_eq_some_iff.1 hy
    obtain ⟨op, -, hstride⟩ := Option.bind_eq_some_iff.1 hd
    cases op <;> cases hstride <;> simp
  · cases hy

/-- Events that tell of no move and warn of none. -/
structure Still (events : List Event) : Prop where
  moves : moves events = []
  excursions : excursions events = []

lemma Still.nil : Still [] := ⟨rfl, rfl⟩

lemma Still.append {xs ys : List Event} (h : Still xs) (h' : Still ys) : Still (xs ++ ys) :=
  ⟨by rw [moves_append, h.moves, h'.moves, List.nil_append],
    by rw [excursions_append, h.excursions, h'.excursions, List.nil_append]⟩

/-- Remarks, none of which is about the range of the pointer. -/
def Remarking (events : List Event) : Prop :=
  ∀ x ∈ events, ∃ d, x.kind = .diagnostic d ∧ d.category ≠ .range

lemma Remarking.append {xs ys : List Event} (h : Remarking xs) (h' : Remarking ys) : Remarking (xs ++ ys) :=
  List.forall_mem_append.2 ⟨h, h'⟩

lemma remarking_reports {ds : List Diagnostic} (h : ∀ d ∈ ds, d.OfSource) (m : Machine) :
    Remarking (ds.map m.reportEvent) := by
  intro x hx
  obtain ⟨d, hd, rfl⟩ := List.mem_map.1 hx
  refine ⟨d, rfl, ?_⟩
  rcases h d hd with hcategory | hcategory <;> simp [hcategory]

lemma remarking_problem (m : Machine) {p : Problem} (hp : p.category ≠ .range) :
    Remarking [m.problemEvent p] :=
  List.forall_mem_singleton.2 ⟨_, rfl, hp⟩

lemma Remarking.still (h : Remarking events) : Still events := by
  constructor
  · refine List.filterMap_eq_nil_iff.2 fun x hx => ?_
    obtain ⟨d, hkind, -⟩ := h x hx
    simp [move?, hkind]
  · refine List.filter_eq_nil_iff.2 fun d hd => ?_
    obtain ⟨x, hx, hremark⟩ := List.mem_filterMap.1 hd
    obtain ⟨d', hkind, hcategory⟩ := h x hx
    obtain rfl : d' = d := by simpa [remark?, hkind] using hremark
    simpa using hcategory

lemma still_event (m : Machine) (op : Option Operator) (hk : k ≠ .applied) (hd : ∀ d, k ≠ .diagnostic d) :
    Still [m.event k op] := by
  constructor
  · simp [Event.moves, move?, Machine.event, hk]
  · cases k with
    | diagnostic d => exact absurd rfl (hd d)
    | _ => rfl

end Event

namespace Machine

open Event

variable {m m' m'' : Machine} {op : Operator} {events xs ys : List Event} {d : Int}

/-- What events tell of the moves of a pointer is what became of it, and they warn of what these moves came
to, and of nothing else. -/
structure Walked (m m' : Machine) (events : List Event) : Prop where
  pointer : m'.tape.pointer = (m.tape.walk ((moves events).map Prod.fst)).1.pointer
  length : m'.tape.length = m.tape.length
  excursions : Event.excursions events = m.tape.warnings (moves events)

lemma Walked.of_still (h : Still events) (hpointer : m'.tape.pointer = m.tape.pointer)
    (hlength : m'.tape.length = m.tape.length) : Walked m m' events := by
  constructor
  · rw [h.moves]
    exact hpointer
  · exact hlength
  · rw [h.moves, h.excursions]
    rfl

lemma Walked.trans (h : Walked m m' xs) (h' : Walked m' m'' ys) : Walked m m'' (xs ++ ys) := by
  have hlength := h.length.trans (m.tape.walk_length ((moves xs).map Prod.fst)).1.symm
  constructor
  · rw [h'.pointer, (Tape.walk_congr h.pointer hlength _).1, moves_append, List.map_append,
      Tape.walk_append]
  · exact h'.length.trans h.length
  · rw [excursions_append, h.excursions, h'.excursions, Tape.warnings_congr h.pointer hlength,
      moves_append, Tape.warnings_append]

/-! ## One step -/

lemma still_fetch (m : Machine) : Still m.fetch.events ∧ m.fetch.machine.tape = m.tape := by
  unfold fetch
  split
  · exact ⟨.nil, rfl⟩
  split
  · exact ⟨.nil, rfl⟩
  rcases hnext : m.source.next with f | ⟨s, reports, _ | op⟩
  · exact ⟨.nil, rfl⟩
  · exact ⟨(remarking_reports (Source.ofSource_next hnext) _).still, rfl⟩
  · have hreports := remarking_reports (Source.ofSource_next hnext) (m.withSource s)
    exact ⟨hreports.still.append (still_event _ _ (by simp) (by simp)), rfl⟩

/-- On the way over a loop that is skipped nothing is told but remarks. -/
lemma remarking_skipLoop (m : Machine) :
    Remarking m.skipLoop.events ∧ m.skipLoop.machine.tape = m.tape := by
  have hposition := remarking_reports m.source.ofSource_position m
  have hskip := remarking_reports (m.source.ofSource_skip m.skipScan 0) m
  unfold skipLoop
  dsimp only
  split
  · split
    next hseek => exact ⟨hposition.append (remarking_reports (Source.ofSource_seek hseek) m), rfl⟩
    · exact ⟨hposition, rfl⟩
  · split
    · exact ⟨hposition.append hskip, rfl⟩
    · exact ⟨(hposition.append hskip).append (remarking_problem _ (by simp [Problem.category])), rfl⟩
    · exact ⟨hposition.append hskip, rfl⟩

lemma still_startLoop (m : Machine) : Still m.startLoop.events ∧ m.startLoop.machine.tape = m.tape := by
  have hposition := (remarking_reports m.source.ofSource_position m).still
  unfold startLoop
  dsimp only
  split
  · exact ⟨hposition.append (still_event _ _ (by simp) (by simp)), rfl⟩
  · obtain ⟨hremarking, htape⟩ := remarking_skipLoop
      { m with frames := ⟨m.source.position.1, m.location⟩ :: m.frames }
    exact ⟨(hposition.append (still_event _ _ (by simp) (by simp))).append hremarking.still, htape⟩

lemma still_endLoop (m : Machine) : Still m.endLoop.events ∧ m.endLoop.machine.tape = m.tape := by
  unfold endLoop
  split
  · exact ⟨(remarking_problem m (by simp [Problem.category])).still, rfl⟩
  split
  · exact ⟨still_event _ _ (by simp) (by simp), rfl⟩
  split
  next hseek =>
    have hreports := remarking_reports (Source.ofSource_seek hseek) m
    exact ⟨hreports.still.append (still_event _ _ (by simp) (by simp)), rfl⟩
  · exact ⟨.nil, rfl⟩

/-- An operator that does not move the pointer tells of no move, and leaves the pointer where it is. -/
theorem still_execute (m : Machine) (h : op.stride? = none) :
    Still (m.execute op).events ∧ (m.execute op).machine.tape.pointer = m.tape.pointer ∧
      (m.execute op).machine.tape.length = m.tape.length := by
  cases op with
  | right | left => cases h
  | increment | decrement =>
    simp only [execute, add]
    split
    next hwrite => exact ⟨.nil, (Tape.write_eq_ok hwrite).1, Tape.length_write hwrite⟩
    · exact ⟨.nil, rfl, rfl⟩
  | output =>
    simp only [execute, write]
    split
    · exact ⟨still_event _ _ (by simp) (by simp), rfl, rfl⟩
    · exact ⟨.nil, rfl, rfl⟩
  | input =>
    simp only [execute, read]
    split
    · exact ⟨.nil, rfl, rfl⟩
    split
    next hwrite => exact ⟨.nil, (Tape.write_eq_ok hwrite).1, Tape.length_write hwrite⟩
    · exact ⟨.nil, rfl, rfl⟩
  | loopStart =>
    obtain ⟨hstill, htape⟩ := m.still_startLoop
    exact ⟨hstill, congrArg Tape.pointer htape, congrArg Tape.length htape⟩
  | loopEnd =>
    obtain ⟨hstill, htape⟩ := m.still_endLoop
    exact ⟨hstill, congrArg Tape.pointer htape, congrArg Tape.length htape⟩

lemma execute_stride (m : Machine) (h : op.stride? = some d) : m.execute op = m.walk d := by
  cases op <;> cases h <;> rfl

lemma machine_walk (m : Machine) (d : Int) : (m.walk d).machine = m.withTape (m.tape.move d).1 := by
  unfold walk
  rcases m.tape.move d with ⟨tape, _ | w⟩ <;> rfl

lemma moves_walk (m : Machine) (d : Int) : moves (m.walk d).events = [] := by
  unfold walk
  rcases m.tape.move d with ⟨tape, _ | w⟩ <;> rfl

lemma excursions_walk (m : Machine) (d : Int) :
    Event.excursions (m.walk d).events = m.tape.warnings [(d, m.location)] := by
  have hlength := m.tape.move_length d
  unfold walk
  rcases hmove : m.tape.move d with ⟨tape, _ | w⟩
  · simp [Tape.warnings, Tape.walk, hmove, Event.excursions]
  · have hplace : (m.withTape tape).location = m.location := rfl
    have htape : tape.length = m.tape.length := by simpa [hmove] using hlength
    simp [Tape.warnings, Tape.walk, hmove, htape, Event.excursions, problemEvent, event, remark?, hplace,
      Problem.diagnosticAt, Problem.category]

lemma moves_applied (m : Machine) (op : Operator) :
    moves [m.event .applied (some op)] = (op.stride?.map (·, m.location)).toList := by
  cases op <;> rfl

/-- A move is told of when it was carried out, and after its warning if it left the tape. -/
lemma walked_walk (m : Machine) (h : op.stride? = some d) :
    Walked m (m.walk d).machine.counted
      ((m.walk d).events ++ [(m.walk d).machine.counted.event .applied (some op)]) := by
  have hplace : (m.walk d).machine.counted.location = m.location := by
    rw [machine_walk]
    rfl
  have hmoves : moves ((m.walk d).events ++ [(m.walk d).machine.counted.event .applied (some op)]) =
      [(d, m.location)] := by
    rw [moves_append, moves_walk, moves_applied, h, hplace]
    rfl
  constructor
  · rw [hmoves, machine_walk]
    rfl
  · rw [machine_walk]
    exact m.tape.move_length d
  · rw [hmoves, excursions_append, excursions_walk]
    exact List.append_nil _

theorem walked_complete (m : Machine) (op : Operator) :
    Walked m (m.complete op).machine (m.complete op).events := by
  cases hstride : op.stride? with
  | none =>
    obtain ⟨hstill, hpointer, hlength⟩ := m.still_execute hstride
    rcases hx : m.execute op with ⟨x, events, f | ⟨⟩⟩ <;> rw [hx] at hstill hpointer hlength
    · have hcomplete : m.complete op = ⟨x, events, .error f⟩ := by simp [complete, hx, Outcome.bind]
      rw [hcomplete]
      exact .of_still hstill hpointer hlength
    · have hcomplete : m.complete op =
          ⟨x.counted, events ++ [x.counted.event .applied (some op)], .ok (!x.halted)⟩ := by
        simp [complete, hx, Outcome.bind, Outcome.after, count, counted]
      have happlied : Still [x.counted.event .applied (some op)] :=
        ⟨by simp [moves_applied, hstride], rfl⟩
      rw [hcomplete]
      exact .of_still (hstill.append happlied) hpointer hlength
  | some d =>
    have hwalk := m.execute_stride hstride
    have hcomplete : m.complete op = ⟨(m.walk d).machine.counted,
        (m.walk d).events ++ [(m.walk d).machine.counted.event .applied (some op)],
        .ok (!(m.walk d).machine.halted)⟩ := by
      unfold complete walk at *
      rw [hwalk]
      rcases m.tape.move d with ⟨tape, _ | w⟩ <;> rfl
    rw [hcomplete]
    exact m.walked_walk hstride

/-- One call of a step, whatever it returns. -/
theorem walked_step (m : Machine) : Walked m m.step.machine m.step.events := by
  obtain ⟨hstill, htape⟩ := m.still_fetch
  have hfetch : Walked m m.fetch.machine m.fetch.events := .of_still hstill (by rw [htape]) (by rw [htape])
  rcases hx : m.fetch with ⟨x, events, f | _ | op⟩ <;> rw [hx] at hfetch
  · have hstep : m.step = ⟨x, events, .error f⟩ := by simp [step, hx, Outcome.bind]
    rw [hstep]
    exact hfetch
  · rw [step_of_none hx]
    exact hfetch
  · have hstep : m.step = (x.complete op).after events := by simp [step, hx, Outcome.bind]
    rw [hstep]
    exact hfetch.trans (x.walked_complete op)

/-! ## Runs -/

theorem walked_calls (m : Machine) (k : Nat) : Walked m (m.afterCalls k) (m.callEvents k) := by
  induction k with
  | zero => exact .of_still .nil rfl rfl
  | succ k ih => exact ih.trans (m.afterCalls k).walked_step

theorem walked_run (m : Machine) (n : Nat) : Walked m (m.run n).machine (m.run n).events := by
  obtain ⟨f, hrun⟩ | ⟨s, k, r, -, -, hrun⟩ := m.exists_run_eq n
  · rw [hrun]
    exact .of_still .nil rfl rfl
  · obtain ⟨hpointer, hlength, hexcursions⟩ := (m.withSource s).walked_calls k
    rw [hrun]
    exact ⟨hpointer, hlength, hexcursions⟩

/-- Moves by one cell take the pointer around the tape as around a ring. The overflows that they tell of are
more than the underflows by as many as there are turns, and each move tells of a wrap exactly if it leads off
the tape. The moves of a run, and of any number of steps, are of this kind, and the warnings of range that are
made in it are those of these moves. -/
theorem pointer_walks_ring (t : Tape) (ds : List Int) (hds : ∀ d ∈ ds, d = 1 ∨ d = -1) (m : Machine)
    (n : Nat) :
    (((t.walk ds).1.pointer : Int) = (t.pointer + ds.sum) % t.length ∧
      Wrap.turns (t.walk ds).2 = (t.pointer + ds.sum) / t.length ∧
      (t.walk ds).2.length = ds.length ∧ (t.walk ds).1.cells = t.cells ∧
      ∀ k d, ds[k]? = some d → (t.walk ds).2[k]? =
        some (Wrap.beyond t.length ((t.pointer + (ds.take k).sum) % t.length + d))) ∧
    ((∀ x ∈ moves (m.run n).events, x.1 = 1 ∨ x.1 = -1) ∧
      Walked m (m.run n).machine (m.run n).events) ∧
    (∀ x ∈ moves (m.callEvents n), x.1 = 1 ∨ x.1 = -1) ∧
      Walked m (m.afterCalls n) (m.callEvents n) := by
  obtain ⟨hpointer, hturns⟩ := t.walk_eq_mod hds
  exact ⟨⟨hpointer, hturns, (t.walk_length ds).2, t.walk_cells ds, fun k d hd => t.walk_told hds hd⟩,
    ⟨unit_of_mem_moves, m.walked_run n⟩, unit_of_mem_moves, m.walked_calls n⟩

/-- A tape of one cell, which every move leaves. -/
theorem pointer_walks_one_cell :
    let t := Tape.blank 1 255 (by decide) (by decide)
    let m := { ofText {} #[62, 43, 60] [] with tape := t }
    (t.walk [1, -1, -1]).2 = [some .overflow, some .underflow, some .underflow] ∧
      Wrap.turns (t.walk [1, -1, -1]).2 = (0 + -1) / 1 ∧
      moves (m.run 9).events = [(1, ⟨1, 1⟩), (-1, ⟨1, 3⟩)] ∧
      Event.excursions (m.run 9).events =
        [(Problem.wrapped .overflow 1).diagnosticAt ⟨1, 1⟩,
          (Problem.wrapped .underflow 1).diagnosticAt ⟨1, 3⟩] := by
  intro t m
  obtain ⟨⟨-, hturns, -, -, -⟩, ⟨-, hwalked⟩, -⟩ :=
    pointer_walks_ring t [1, -1, -1] (by decide) m 9
  have hmoves : moves (m.run 9).events = [(1, ⟨1, 1⟩), (-1, ⟨1, 3⟩)] := by decide +kernel
  refine ⟨by decide, hturns, hmoves, ?_⟩
  rw [hwalked.excursions, hmoves]
  rfl

end Machine

end Brainfuck
