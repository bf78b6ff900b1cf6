import Brainfuck.Proofs.Machine.Remarks

/-! # Stages of a run

What a program does is followed call by call: where the control is, what is on the tape, and how often the
pointer has left it. An operator whose effect on these is known leads from one stage to the next, and nothing
else changes but the count of the steps. When there is no operator left the run is over. -/
namespace Brainfuck

/-- How often the pointer left the tape. -/
def Event.wraps (events : List Event) : Nat := (remarks events).countP (·.category = .range)

namespace Event

@[simp] lemma wraps_nil : wraps [] = 0 := rfl

@[simp] lemma wraps_append (xs ys : List Event) : wraps (xs ++ ys) = wraps xs + wraps ys := by
  rw [wraps, remarks_append, List.countP_append]
  rfl

lemma wraps_of_decode {events : List Event} (h : ∀ d ∈ remarks events, d.isDecode) : wraps events = 0 := by
  refine List.countP_eq_zero.2 fun d hd => ?_
  have hdecode := h d hd
  simp_all [Diagnostic.isDecode]

@[simp] lemma wraps_remarks (m : Machine) (e : Edition) (i j : Nat) :
    wraps ((e.remarks i j).map m.reportEvent) = 0 :=
  wraps_of_decode (by simpa using fun d => Edition.isDecode_of_mem_remarks)

@[simp] lemma wraps_drawEvents (m : Machine) (e : Edition) (i : Nat) (s : Source) (op : Operator) :
    wraps (m.drawEvents e i s op) = 0 :=
  wraps_of_decode (by simpa using fun d => Edition.isDecode_of_mem_remarks)

@[simp] lemma wraps_skipEvents (m : Machine) (e : Edition) (i : Nat) : wraps (m.skipEvents e i) = 0 :=
  wraps_of_decode (by simpa using fun d => Edition.isDecode_of_mem_remarks)

end Event

namespace Machine

open Event Brackets

variable {e : Edition} {m : Machine} {op : Operator} {c c' : Control} {t t' : Tape} {d : Int}
  {i k l n wraps more : Nat} {ls : List Nat}

/-! ## The effect of an operator -/

/-- Carrying out an operator leads from one control and tape to others, with so many warnings of a pointer
that left the tape, and changes nothing else. -/
def Does (e : Edition) (op : Operator) (c : Control) (t : Tape) (c' : Control) (t' : Tape)
    (wraps : Nat) : Prop :=
  ∀ m : Machine, m.At e c → m.tape = t → ∃ s frames events,
    m.execute op = ⟨{ m with source := s, frames := frames, tape := t' }, events, .ok ()⟩ ∧
    At e c' { m with source := s, frames := frames, tape := t' } ∧ Event.wraps events = wraps

/-- An operator that works on nothing but the tape leaves the control where it is. -/
lemma does_of_tape (h : ∀ m : Machine, m.tape = t → ∃ events,
    m.execute op = ⟨m.withTape t', events, .ok ()⟩ ∧ Event.wraps events = wraps) :
    Does e op c t c t' wraps := by
  intro m hm htape
  obtain ⟨events, hexecute, hwraps⟩ := h m htape
  exact ⟨m.source, m.frames, events, hexecute, ⟨hm.source, hm.frames, hm.scan, hm.loops_le⟩, hwraps⟩

lemma does_increment (h : t.adjust 1 = .ok t') : Does e .increment c t c t' 0 :=
  does_of_tape fun m hm => ⟨[], by simp [execute, add, hm, h], rfl⟩

lemma does_decrement (h : t.adjust (-1) = .ok t') : Does e .decrement c t c t' 0 :=
  does_of_tape fun m hm => ⟨[], by simp [execute, add, hm, h], rfl⟩

/-- A move of the pointer warns if it left the tape. -/
lemma walk_eq {wrap : Option Wrap} (h : m.tape.move d = (t', wrap)) :
    ∃ events, m.walk d = ⟨m.withTape t', events, .ok ()⟩ ∧ Event.wraps events = wrap.toList.length := by
  unfold walk
  rw [h]
  cases wrap with
  | none => exact ⟨[], rfl, rfl⟩
  | some w => exact ⟨_, rfl, rfl⟩

lemma does_right {wrap : Option Wrap} (h : t.move 1 = (t', wrap)) :
    Does e .right c t c t' wrap.toList.length :=
  does_of_tape fun m hm => m.walk_eq (hm ▸ h)

lemma does_left {wrap : Option Wrap} (h : t.move (-1) = (t', wrap)) :
    Does e .left c t c t' wrap.toList.length :=
  does_of_tape fun m hm => m.walk_eq (hm ▸ h)

/-- A loop over a cell that is not zero is entered. -/
lemma does_enter (hop : e.operators[i]? = some .loopStart) (hv : t.read ≠ 0) :
    Does e .loopStart ⟨i + 1, ls⟩ t ⟨i + 1, (i + 1) :: ls⟩ t 0 := by
  rintro m hm rfl
  have hi : i + 1 ≤ e.operators.length := (List.getElem?_eq_some_iff.1 hop).1
  exact ⟨_, _, _, hm.startLoop_enter hi hv, hm.enter hi, rfl⟩

/-- A loop over a zero is skipped. -/
lemma does_skip (hop : e.operators[i]? = some .loopStart) (hv : t.read = 0)
    (hk : skipEnd e.scan 0 e.operators (i + 1) = some k) :
    Does e .loopStart ⟨i + 1, ls⟩ t ⟨k, ls⟩ t 0 := by
  rintro m hm rfl
  obtain ⟨s, hs, hrun⟩ := hm.startLoop_skip hop hv hk
  exact ⟨_, _, _, hrun, hm.moved hs, wraps_skipEvents ..⟩

/-- A loop is left over a zero. -/
lemma does_leave (hv : t.read = 0) : Does e .loopEnd ⟨i, l :: ls⟩ t ⟨i, ls⟩ t 0 := by
  rintro m hm rfl
  exact ⟨_, _, _, hm.endLoop_leave hv, hm.leave, rfl⟩

/-- A loop over a cell that is not zero is repeated. -/
lemma does_repeat (hv : t.read ≠ 0) : Does e .loopEnd ⟨i, l :: ls⟩ t ⟨l, l :: ls⟩ t 0 := by
  rintro m hm rfl
  obtain ⟨s, hs, hrun⟩ := hm.endLoop_repeat hv
  exact ⟨_, _, _, hrun, hm.moved hs, rfl⟩

/-! ## Calls of a step -/

/-- A machine that goes on as long as there are operators. -/
structure Unlimited (m : Machine) : Prop where
  finished : m.finished = false
  halted : m.halted = false
  stepLimit : m.stepLimit = none

/-- What `k` calls of a step have come to, which all asked to go on: where the control is, the tape, and how
often the pointer left it. Nothing else has changed but the count of the steps. -/
structure Stage (e : Edition) (m : Machine) (k : Nat) (c : Control) (t : Tape) (wraps : Nat) : Prop where
  here : (m.afterCalls k).At e c
  same : ∃ s frames op, m.afterCalls k =
    { m with source := s, frames := frames, current := op, tape := t, steps := m.steps + k }
  wraps_eq : Event.wraps (m.callEvents k) = wraps
  going : ∀ j < k, (m.afterCalls j).step.result = .ok true

lemma At.stage (h : m.At e c) : Stage e m 0 c m.tape 0 :=
  ⟨h, ⟨m.source, m.frames, m.current, rfl⟩, rfl, by simp⟩

/-- The next operator leads to the next stage. -/
theorem Stage.next (h : Stage e m k ⟨i, ls⟩ t wraps) (hm : m.Unlimited) (hop : e.operators[i]? = some op)
    (hdoes : Does e op ⟨i + 1, ls⟩ t c' t' more) : Stage e m (k + 1) c' t' (wraps + more) := by
  obtain ⟨hat, ⟨s₀, frames₀, op₀, hsame⟩, hwraps, hgoing⟩ := h
  have hfinished : (m.afterCalls k).finished = false := by rw [hsame, hm.finished]
  have hhalted : (m.afterCalls k).halted = false := by rw [hsame, hm.halted]
  have hlimit : (m.afterCalls k).limitReached = false := by simp [limitReached, hsame, hm.stepLimit]
  have htape : (m.afterCalls k).tape = t := by rw [hsame]
  obtain ⟨s, hs, hfetch⟩ := hat.fetch_some hfinished hlimit hop
  obtain ⟨s', frames', events, hexecute, hat', hmore⟩ := hdoes _ (hat.drawn hs op) htape
  have hstep := step_of_ok hfetch hexecute
  have hresult : (m.afterCalls k).step.result = .ok true := by simp [hstep, drawn, hhalted]
  refine ⟨?_, ⟨s', frames', some op, ?_⟩, ?_, fun j hj => ?_⟩
  · rw [afterCalls, hstep]
    exact ⟨hat'.source, hat'.frames, hat'.scan, hat'.loops_le⟩
  · rw [afterCalls, hstep, hsame]
    simp [counted, drawn, hm.halted, hm.finished, Nat.add_assoc]
  · have happlied (x : Machine) : Event.wraps [x.event .applied (some op)] = 0 := rfl
    rw [callEvents, hstep]
    simp [hwraps, hmore, happlied]
  · rcases Nat.lt_succ_iff_lt_or_eq.1 hj with hj | rfl
    · exact hgoing j hj
    · exact hresult

/-- A run is over when there is no operator left, and closes its source. -/
theorem Stage.run_eq (h : Stage e m k ⟨i, ls⟩ t wraps) (hm : m.Unlimited) (hat₀ : m.At e c)
    (hop : e.operators[i]? = none) (hn : k < n) :
    ∃ s op events, m.run n =
      ⟨{ m with
          source := s
          frames := ls.map e.frame
          current := op
          tape := t
          steps := m.steps + k
          finished := true }, events, .ok ()⟩ ∧ Event.wraps events = wraps := by
  obtain ⟨hat, ⟨s₀, frames₀, op₀, hsame⟩, hwraps, hgoing⟩ := h
  have hframes : frames₀ = ls.map e.frame := by
    have hframes := hat.frames
    rwa [hsame] at hframes
  have hfinished : (m.afterCalls k).finished = false := by rw [hsame, hm.finished]
  have hlimit : (m.afterCalls k).limitReached = false := by simp [limitReached, hsame, hm.stepLimit]
  obtain ⟨s, hs, hfetch⟩ := hat.fetch_none hfinished hlimit hop
  have hstep := step_of_none hfetch
  have hover : (m.afterCalls (k + 1)).finished = true := by rw [afterCalls, hstep]
  have hrest (r : Nat) : m.afterCalls (k + 1 + r) = m.afterCalls (k + 1) ∧
      m.callEvents (k + 1 + r) = m.callEvents (k + 1) := by
    obtain ⟨hafter, hevents⟩ := afterCalls_finished hover r
    rw [afterCalls_add, callEvents_add, hafter, hevents, List.append_nil]
    exact ⟨rfl, rfl⟩
  have hok : ∀ j < n, ∃ b, (m.afterCalls j).step.result = .ok b := by
    intro j _
    rcases Nat.lt_trichotomy j k with hlt | rfl | hgt
    · exact ⟨true, hgoing j hlt⟩
    · exact ⟨false, by rw [hstep]⟩
    · obtain ⟨r, rfl⟩ := Nat.exists_eq_add_of_le hgt
      exact ⟨false, by rw [(hrest r).1, step_finished hover]⟩
  obtain ⟨r, rfl⟩ := Nat.exists_eq_add_of_le hn
  refine ⟨s.closed, op₀, m.callEvents (k + 1), ?_, ?_⟩
  · rw [hat₀.run_eq hok, (hrest r).1, (hrest r).2, afterCalls, hstep, hsame, hframes]
    rfl
  · rw [callEvents, hstep]
    simp [hwraps]

end Machine

end Brainfuck
