import Brainfuck.Proofs.Machine.Remarks
import Brainfuck.Proofs.Number.Decimal
import Brainfuck.Stepper.Basic

/-! # Watched runs

The moments of a run are those at which an operator is pending. At each of them a stepper shows the state,
lets the governor decide and tells what is waited for, and then the operator is carried out. Only a count
that is too long to be written cannot be told, and a stepper that is given no such count never comes to
one. -/
namespace Brainfuck

/-- A moment of a run at which an operator is pending, with what has been written before. -/
structure Moment where
  machine : Machine
  operator : Operator
  written : Array Nat

/-- The event that tells of the pending operator. -/
def Moment.event (μ : Moment) : Event := μ.machine.event .pending (some μ.operator)

namespace Event

/-- Whether an event tells of a pending operator. -/
def isPending (x : Event) : Bool := x.kind = .pending

/-- The events that tell of pending operators. -/
def pendings (events : List Event) : List Event := events.filter isPending

@[simp] lemma pendings_nil : pendings [] = [] := rfl

@[simp] lemma pendings_reports (m : Machine) (ds : List Diagnostic) :
    pendings (ds.map m.reportEvent) = [] := by
  simp [pendings, isPending, Machine.reportEvent, Machine.event]

@[simp] lemma pendings_event (m : Machine) (k : Kind) (op : Option Operator) (events : List Event) :
    pendings (m.event k op :: events) =
      if k = .pending then m.event k op :: pendings events else pendings events := by
  by_cases h : k = .pending <;> simp [pendings, isPending, Machine.event, h]

/-- Whether events of a kind tell neither of a pending operator nor of what is written. -/
def Kind.isQuiet : Kind → Bool
  | .pending | .output _ => false
  | _ => true

/-- Events that tell neither of a pending operator nor of what is written. -/
def Quiet (events : List Event) : Prop := ∀ x ∈ events, x.kind.isQuiet = true

@[simp] lemma quiet_nil : Quiet [] := by simp [Quiet]

@[simp] lemma quiet_append {xs ys : List Event} : Quiet (xs ++ ys) ↔ Quiet xs ∧ Quiet ys :=
  List.forall_mem_append

@[simp] lemma quiet_event (m : Machine) (k : Kind) (op : Option Operator) (events : List Event) :
    Quiet (m.event k op :: events) ↔ k.isQuiet = true ∧ Quiet events :=
  List.forall_mem_cons

@[simp] lemma quiet_reports (m : Machine) (ds : List Diagnostic) : Quiet (ds.map m.reportEvent) := by
  simp [Quiet, Kind.isQuiet, Machine.reportEvent, Machine.event]

@[simp] lemma quiet_problem (m : Machine) (p : Problem) : Quiet [m.problemEvent p] := by
  simp [Machine.problemEvent, Kind.isQuiet]

lemma Quiet.pendings {events : List Event} (h : Quiet events) : pendings events = [] := by
  refine List.filter_eq_nil_iff.2 fun x hx hpending => ?_
  have hkind : x.kind = .pending := by simpa [isPending] using hpending
  have hquiet := h x hx
  simp [Kind.isQuiet, hkind] at hquiet

lemma Quiet.written {events : List Event} (h : Quiet events) : written events = [] := by
  refine List.filterMap_eq_nil_iff.2 fun x hx => ?_
  have hquiet := h x hx
  cases hkind : x.kind <;> simp_all [Kind.isQuiet, written?]

end Event

namespace Machine

open Event

variable {m x : Machine} {events : List Event} {op : Operator} {f : Fault}

lemma step_of_pending (h : m.fetch = ⟨x, events, .ok (some op)⟩) :
    m.step = (x.complete op).after events := by
  simp [Machine.step, h, Outcome.bind]

lemma step_of_fetch_error (h : m.fetch = ⟨x, events, .error f⟩) : m.step = ⟨x, events, .error f⟩ := by
  simp [Machine.step, h, Outcome.bind]

lemma quiet_walk (m : Machine) (d : Int) : Quiet (m.walk d).events := by
  unfold walk
  split
  split <;> simp

lemma quiet_skipLoop (m : Machine) : Quiet m.skipLoop.events := by
  simp only [skipLoop]
  split
  · split <;> simp
  · split <;> simp

lemma quiet_startLoop (m : Machine) : Quiet m.startLoop.events := by
  simp only [startLoop]
  split
  · simp [Kind.isQuiet]
  · simp [Outcome.after, quiet_skipLoop, Kind.isQuiet]

lemma quiet_endLoop (m : Machine) : Quiet m.endLoop.events := by
  unfold endLoop
  split
  · simp
  split
  · simp [Kind.isQuiet]
  · split <;> simp [Kind.isQuiet]

/-- Only output writes, and carrying out an operator makes no other one pending. -/
theorem quiet_execute (m : Machine) (hop : op ≠ .output) : Quiet (m.execute op).events := by
  cases op with
  | right | left => exact m.quiet_walk _
  | increment | decrement | input => simp [execute]
  | output => exact absurd rfl hop
  | loopStart => exact quiet_startLoop m
  | loopEnd => exact quiet_endLoop m

/-- The moments of up to `n` steps, where something has been written before. -/
def momentsFrom (written : Array Nat) : Nat → Machine → List Moment
  | 0, _ => []
  | n + 1, m =>
    match m.fetch with
    | ⟨x, _, .ok (some op)⟩ =>
      ⟨x, op, written⟩ ::
        match x.complete op with
        | ⟨m, events, .ok true⟩ => momentsFrom (written ++ Event.written events) n m
        | _ => []
    | _ => []

/-- The moments of a run of up to `n` steps, where something has been written before. -/
def moments (m : Machine) (written : Array Nat) (n : Nat) : List Moment :=
  match m.source.opened with
  | .ok source => momentsFrom written n (m.withSource source)
  | .error _ => []

end Machine

namespace Stepper

/-- Every index that is shown is that of a cell on the tape. -/
theorem shownIndices_lt (s : Stepper) (t : Tape) : ∀ i ∈ s.shownIndices t, i < t.length := by
  intro i hi
  have hpos : 0 < t.length := Nat.zero_lt_of_lt t.pointer_lt
  simp only [shownIndices, Tape.window, List.mem_map, List.mem_range] at hi
  omega

@[simp] lemma respond_range (s : Stepper) (d : Decision) (commands : List Char) :
    (s.respond d commands).1.range = s.range := by
  cases d <;> rfl

@[simp] lemma respond_digits (s : Stepper) (d : Decision) (commands : List Char) :
    (s.respond d commands).1.digits = s.digits := by
  cases d <;> rfl

variable {s : Stepper} {g : Governor} {d : Decision} {f : Fault} {digits : Option Nat}

/-- The last line cannot be told exactly if it is that of a count with too many digits. -/
theorem closing_eq_error_iff :
    closing g digits d = .error f ↔
      (d = .proceed ∧ g.regime = .counting ∧ Numeral.isWritten digits g.remaining = false) ∧
        f = .tooManyDigits := by
  cases d with
  | awaitInput | prompt => simp [closing]
  | proceed =>
    unfold closing Governor.status
    cases hregime : g.regime with
    | untilLoopExit | continuous => simp
    | counting => cases Numeral.isWritten digits g.remaining <;> simp [eq_comm]

/-- A stepper whose count is not too long to be written once an instruction of it went by. Counts that are
asked for at a prompt have two digits at most. -/
def WritesCounts (s : Stepper) : Prop :=
  ∀ n ∈ s.digits, 2 ≤ n ∧ (s.governor.regime = .counting → s.governor.remaining.toNat ≤ 10 ^ n)

lemma writesCounts_default : ({} : Stepper).WritesCounts := by
  intro n hn
  obtain rfl : Numeral.maxDigits = n := Option.some.inj hn
  exact ⟨by decide, fun _ => Nat.zero_le _⟩

end Stepper

namespace Governor

variable {g g' : Governor} {d : Decision} {op : Option Operator} {v : Int}

/-- A decision only counts down, or ends a wait. -/
lemma remaining_decide_le {b : Nat} (h : g.decide op v = (g', d))
    (hle : g.regime = .counting → g.remaining.toNat ≤ b) :
    g'.regime = .counting → g'.remaining.toNat ≤ b := by
  unfold decide atLoopExit at h
  split at h
  · next hcount =>
    obtain ⟨rfl, -⟩ := Prod.mk.inj h
    have := hle hcount.1
    exact fun _ => by simp only; omega
  · obtain ⟨rfl, -⟩ := Prod.mk.inj h
    split
    · exact fun _ => Nat.zero_le b
    · exact hle

/-- An instruction goes by while counting only if the count goes down. -/
lemma counted_of_proceed (h : g.decide op v = (g', .proceed)) (hregime : g'.regime = .counting) :
    g.regime = .counting ∧ 0 < g.remaining ∧ g'.remaining = g.remaining - 1 := by
  unfold decide at h
  split at h
  · next hcount =>
    obtain ⟨rfl, -⟩ := Prod.mk.inj h
    exact ⟨hcount.1, hcount.2, rfl⟩
  · obtain ⟨rfl, hd⟩ := Prod.mk.inj h
    rw [hregime] at hd
    split at hd <;> simp at hd

/-- A count that is asked for at a prompt has two digits at most. -/
lemma remaining_apply_le (g : Governor) (c : Command) : (g.apply c).remaining.toNat ≤ 10 ^ 2 := by
  cases c <;> simp [apply, Command.count?]

end Governor

namespace Stepper

variable {s : Stepper} {g : Governor} {d : Decision} {op : Option Operator} {v : Int}

/-- Such a stepper tells every last line. -/
theorem WritesCounts.exists_closing (hs : s.WritesCounts) (h : s.governor.decide op v = (g, d)) :
    ∃ line, closing g s.digits d = .ok line := by
  rcases hclosing : closing g s.digits d with f | line
  · obtain ⟨⟨rfl, hregime, hlong⟩, -⟩ := closing_eq_error_iff.1 hclosing
    obtain ⟨hcounting, hpos, hdown⟩ := Governor.counted_of_proceed h hregime
    have hwritten : Numeral.isWritten s.digits g.remaining = true := by
      rw [Numeral.isWritten_iff]
      intro n hn
      have hle := (hs n hn).2 hcounting
      omega
    rw [hlong] at hwritten
    cases hwritten
  · exact ⟨line, rfl⟩

lemma WritesCounts.decide (hs : s.WritesCounts) (h : s.governor.decide op v = (g, d)) :
    ({ s with governor := g } : Stepper).WritesCounts := by
  intro n hn
  obtain ⟨htwo, hle⟩ := hs n hn
  exact ⟨htwo, Governor.remaining_decide_le h hle⟩

lemma WritesCounts.respond (hs : s.WritesCounts) (d : Decision) (commands : List Char) :
    (s.respond d commands).1.WritesCounts := by
  cases d with
  | proceed | awaitInput => exact hs
  | prompt =>
    intro n hn
    obtain ⟨htwo, -⟩ := hs n hn
    have hsmall := s.governor.remaining_apply_le (Command.read commands).1
    exact ⟨htwo, fun _ => Nat.le_trans hsmall (Nat.pow_le_pow_right (by decide) htwo)⟩

end Stepper

namespace Watched

variable {w : Watched} {x : Machine} {commands : List Char} {events : List Event} {op : Operator}
  {f : Fault} {g : Governor} {d : Decision} {line : String}

lemma step_of_fetch_error (h : w.machine.fetch = ⟨x, events, .error f⟩) :
    w.step = ⟨{ w with machine := x }, [], events, .error f⟩ := by
  simp [step, present, h]

lemma step_of_none (h : w.machine.fetch = ⟨x, events, .ok none⟩) :
    w.step = ⟨{ w with machine := x }, [], events, .ok false⟩ := by
  simp [step, present, h]

/-- A watched machine that has drawn an operator on which the governor has decided. -/
def drawn (w : Watched) (x : Machine) (g : Governor) : Watched :=
  { w with machine := x, stepper := { w.stepper with governor := g } }

/-- With a pending operator, a step shows the moment and carries the operator out. -/
theorem step_of_told (h : w.machine.fetch = ⟨x, events, .ok (some op)⟩)
    (hdecide : w.stepper.governor.decide (some op) x.tape.read = (g, d))
    (hline : Stepper.closing g w.stepper.digits d = .ok line) :
    w.step =
      let r := (w.drawn x g).complete op d
      ⟨r.watched, w.stepper.block x (some op) ++ [line], events ++ r.events, r.result⟩ := by
  simp [step, present, h, Stepper.announce, hdecide, hline, Except.map, drawn]

/-- If the last line of a block cannot be told, a step ends there. -/
theorem step_of_untold (h : w.machine.fetch = ⟨x, events, .ok (some op)⟩)
    (hdecide : w.stepper.governor.decide (some op) x.tape.read = (g, d))
    (hline : Stepper.closing g w.stepper.digits d = .error f) :
    w.step = ⟨w.drawn x g, w.stepper.block x (some op), events, .error f⟩ := by
  simp [step, present, h, Stepper.announce, hdecide, hline, Except.map, drawn]

lemma writesCounts_complete (hs : w.stepper.WritesCounts) (op : Operator) (d : Decision) :
    (w.complete op d).watched.stepper.WritesCounts := by
  unfold complete settle
  split
  · exact hs.respond d _
  · exact hs.respond d _

/-- A step keeps the count short. -/
theorem writesCounts_step (hs : w.stepper.WritesCounts) : w.step.watched.stepper.WritesCounts := by
  rcases hm : w.machine.fetch with ⟨x, drawn, f | _ | op⟩
  · rw [step_of_fetch_error hm]
    exact hs
  · rw [step_of_none hm]
    exact hs
  · rcases hdecide : w.stepper.governor.decide (some op) x.tape.read with ⟨g, d⟩
    obtain ⟨line, hline⟩ := hs.exists_closing hdecide
    rw [step_of_told hm hdecide hline]
    exact writesCounts_complete (w := w.drawn x g) (hs.decide hdecide) op d

end Watched

end Brainfuck
