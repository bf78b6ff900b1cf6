import Brainfuck.Proofs.Machine.Course

/-! # Faults of a run

A machine is not made if there is no room for its tape. From then on a step is at fault only where a number
has no representation: a cell is written that is no character, or a value is stored that is too large for the
width of a cell. Cells that count no further than the last code point never come to that, and these are the
only ones, since the largest value of a cell is one step away from zero; only a run of a single step is too
short to write it. -/
namespace Brainfuck

namespace Tape

variable {t : Tape} {f : Fault}

/-- Counting up leaves the width of a cell just behind the last value that has room. -/
lemma adjust_up_eq_error_iff :
    t.adjust 1 = .error f ↔
      (t.read + 1 = cellCapacity ∧ cellCapacity ≤ t.cellMax) ∧ f = .cellTooLarge := by
  have hlt := t.read_lt
  have hfold : t.fold (t.read + 1) = (t.read + 1) % (t.cellMax + 1) := t.fold_natCast (t.read + 1)
  rw [adjust, write_eq_error_iff, hfold]
  refine and_congr_left fun _ => ?_
  rcases Nat.lt_or_eq_of_le t.read_le with hread | hread
  · rw [Nat.mod_eq_of_lt (by omega)]
    omega
  · rw [hread, Nat.mod_self]
    omega

/-- Counting down leaves it at zero, if the largest value has no room. -/
lemma adjust_down_eq_error_iff :
    t.adjust (-1) = .error f ↔ (t.read = 0 ∧ cellCapacity ≤ t.cellMax) ∧ f = .cellTooLarge := by
  have hlt := t.read_lt
  have hle := t.read_le
  rw [adjust, write_eq_error_iff, fold_read_sub_one]
  refine and_congr_left fun _ => ?_
  rcases Nat.eq_zero_or_pos t.read with hread | hread
  · rw [hread, Nat.zero_add, Nat.mod_eq_of_lt (Nat.lt_succ_self _)]
    simp
  · rw [show t.read + t.cellMax = t.read - 1 + (t.cellMax + 1) by omega, Nat.add_mod_right,
      Nat.mod_eq_of_lt (by omega)]
    omega

/-- A character always has room. -/
lemma write_char_ok (t : Tape) (c : Char) : ∃ t', t.write c.toNat = .ok t' := by
  have hfold : t.fold c.toNat = c.toNat % (t.cellMax + 1) := t.fold_natCast c.toNat
  have hchar : c.toNat < 2 ^ 32 := c.val.toNat_lt
  have hfits : t.fold c.toNat < cellCapacity := by
    rw [hfold]
    exact Nat.lt_of_le_of_lt (Nat.mod_le ..) (Nat.lt_trans hchar (by decide))
  exact ⟨_, dif_pos hfits⟩

end Tape

namespace Machine

variable {e : Edition} {c c' : Control} {m : Machine} {op : Operator} {f : Fault}

/-- A machine over a cell whose value has no representation when an operator is carried out. -/
inductive Overruns (m : Machine) : Operator → Fault → Prop
  | increment (hread : m.tape.read + 1 = cellCapacity) (hmax : cellCapacity ≤ m.tape.cellMax) :
    Overruns m .increment .cellTooLarge
  | decrement (hread : m.tape.read = 0) (hmax : cellCapacity ≤ m.tape.cellMax) :
    Overruns m .decrement .cellTooLarge
  | output (hread : lastCodePoint < m.tape.read) : Overruns m .output (.ofCode m.tape.read)

/-- A machine that stores the current cell counted up and counted down, from one end of its values to the
other, and that writes the value as it is. -/
structure Represents (m : Machine) : Prop where
  up : ∃ t, m.execute .increment = ⟨m.withTape t, [], .ok ()⟩ ∧
    t.read = (m.tape.read + 1) % (m.tape.cellMax + 1)
  down : ∃ t, m.execute .decrement = ⟨m.withTape t, [], .ok ()⟩ ∧
    t.read = (m.tape.read + m.tape.cellMax) % (m.tape.cellMax + 1)
  written : ∃ events,
    m.execute .output = ⟨{ m with output := m.output.push m.tape.read }, events, .ok ()⟩

lemma walk_ok (m : Machine) (d : Int) : (m.walk d).result = .ok () := by
  unfold walk
  rcases m.tape.move d with ⟨tape, _ | w⟩ <;> rfl

lemma add_error_iff (m : Machine) (d : Int) :
    (m.add d).result = .error f ↔ m.tape.adjust d = .error f := by
  unfold add
  split <;> simp [*]

lemma write_error_iff (m : Machine) :
    m.write.result = .error f ↔ lastCodePoint < m.tape.read ∧ f = .ofCode m.tape.read := by
  unfold write
  dsimp only
  split
  next h => simp [Nat.not_lt_of_le h]
  next h => simp [Nat.lt_of_not_le h, eq_comm]

lemma read_ok (m : Machine) : m.read.result = .ok () := by
  unfold read
  rcases readConsole m.lineInput m.console with ⟨_ | char, rest⟩
  · rfl
  · obtain ⟨t', hwrite⟩ := m.tape.write_char_ok char
    simp [hwrite]

/-- An action is at fault exactly if the cell has no representation then. -/
theorem execute_action_error_iff (m : Machine) (a : Action) :
    (m.execute a.operator).result = .error f ↔ m.Overruns a.operator f := by
  cases a with
  | right | left =>
    simp only [Action.operator, execute, walk_ok, reduceCtorEq, false_iff]
    rintro ⟨⟩
  | increment =>
    rw [Action.operator, execute, add_error_iff, Tape.adjust_up_eq_error_iff]
    constructor
    · rintro ⟨⟨hread, hmax⟩, rfl⟩
      exact .increment hread hmax
    · rintro ⟨hread, hmax⟩
      exact ⟨⟨hread, hmax⟩, rfl⟩
  | decrement =>
    rw [Action.operator, execute, add_error_iff, Tape.adjust_down_eq_error_iff]
    constructor
    · rintro ⟨⟨hread, hmax⟩, rfl⟩
      exact .decrement hread hmax
    · rintro (_ | ⟨hread, hmax⟩)
      exact ⟨⟨hread, hmax⟩, rfl⟩
  | output =>
    rw [Action.operator, execute, write_error_iff]
    constructor
    · rintro ⟨hread, rfl⟩
      exact .output hread
    · rintro (_ | _ | hread)
      exact ⟨hread, rfl⟩
  | input =>
    simp only [Action.operator, execute, read_ok, reduceCtorEq, false_iff]
    rintro ⟨⟩

/-- The brackets are never at fault, whether or not they have partners. -/
theorem Executes.error_iff {o : Outcome Unit} (hx : Executes e m c op c' o) :
    o.result = .error f ↔ m.Overruns op f := by
  cases hx with
  | action _ a => exact m.execute_action_error_iff a
  | enter | skip | halt | stray | leave | again =>
    simp only [reduceCtorEq, false_iff]
    rintro ⟨⟩

/-- A step is at fault exactly if it draws an operator that overruns a cell. -/
theorem At.step_error_iff (h : m.At e c) :
    m.step.result = .error f ↔
      ∃ x events op, m.fetch = ⟨x, events, .ok (some op)⟩ ∧ x.Overruns op f := by
  obtain ⟨x, events, hfetch, -⟩ | ⟨s, op, -, hop, hs, hfetch⟩ := h.fetch_cases
  · simp [step_of_none hfetch, hfetch]
  · obtain ⟨c', hx⟩ := (h.drawn hs op).executes hop
    have hresult : m.step.result = .error f ↔ ((m.drawn s op).execute op).result = .error f := by
      rcases ho : (m.drawn s op).execute op with ⟨m', events, _ | _⟩
      · simp [step_of_error hfetch ho]
      · simp [step_of_ok hfetch ho]
    rw [hresult, hx.error_iff, hfetch]
    simp

/-! ## Runs -/

/-- The limit is not reached with fewer steps. -/
lemma limitReached_eq_false (h : ∀ n ∈ m.stepLimit, m.steps < n) : m.limitReached = false := by
  unfold limitReached
  cases hn : m.stepLimit with
  | none => rfl
  | some n => exact decide_eq_false (Nat.not_le_of_lt (h n hn))

/-- If a cell counts further than the last code point, then counting down from zero and writing the
outcome is at fault, if there is a second step: either there is no room for the largest value, or it is no
character. -/
theorem exists_fault (s : Settings) (h : lastCodePoint < s.cellMax)
    (hlimit : s.stepLimit ≠ some 1 ∨ cellCapacity ≤ s.cellMax) :
    ∃ k f, ((ofText s #[45, 46] []).afterCalls k).step.result = .error f := by
  let m := ofText s #[45, 46] []
  have hzero : m.tape.read = 0 := by simp [m, ofText, start, Tape.blank, Tape.read]
  let e := Edition.ofSettings s #[45, 46]
  have hdown : e.operators[0]? = some .decrement := rfl
  have hwritten : e.operators[1]? = some .output := rfl
  have hat : m.At e {} := ofText_at ..
  have hfree : m.limitReached = false := limitReached_eq_false s.stepLimit_pos
  obtain ⟨s₁, hs₁, hfetch⟩ := hat.fetch_some rfl hfree hdown
  let x := m.drawn s₁ .decrement
  by_cases hroom : s.cellMax < cellCapacity
  · -- the largest value has room, and is written next
    obtain ⟨t, hwrite⟩ := x.tape.exists_write hroom (x.tape.read + -1)
    have hread := Tape.read_of_write hwrite
    have hlargest : t.read = s.cellMax := by
      rw [hread, Tape.fold_read_sub_one]
      change (m.tape.read + s.cellMax) % (s.cellMax + 1) = s.cellMax
      rw [hzero, Nat.zero_add, Nat.mod_eq_of_lt (Nat.lt_succ_self _)]
    have hexecute : x.execute .decrement = ⟨x.withTape t, [], .ok ()⟩ := by
      simp [execute, add, Tape.adjust, hwrite]
    have hx : Executes e x ⟨1, []⟩ .decrement ⟨1, []⟩ ⟨x.withTape t, [], .ok ()⟩ :=
      hexecute ▸ .action _ .decrement
    have hat₁ : (x.withTape t).counted.At e ⟨1, []⟩ := (Step.done rfl hfree hdown hs₁ hx).at hat
    have hmore : (x.withTape t).counted.limitReached = false := by
      apply limitReached_eq_false
      intro n hn
      have hone : s.stepLimit ≠ some 1 := hlimit.resolve_right (Nat.not_le_of_lt hroom)
      have hpos : 0 < n := s.stepLimit_pos n hn
      have hne : n ≠ 1 := fun h => hone (h ▸ hn)
      exact Nat.lt_of_le_of_ne hpos (Ne.symm hne)
    obtain ⟨s₂, -, hfetch₂⟩ := hat₁.fetch_some rfl hmore hwritten
    refine ⟨1, .ofCode t.read, ?_⟩
    change m.step.machine.step.result = _
    rw [step_of_ok hfetch hexecute]
    exact hat₁.step_error_iff.2 ⟨_, _, _, hfetch₂, .output (hlargest ▸ h)⟩
  · exact ⟨0, _, hat.step_error_iff.2 ⟨x, _, _, hfetch, .decrement hzero (Nat.le_of_not_lt hroom)⟩⟩

/-- A cell that counts no further than the last code point represents every value. -/
theorem represents_of_le (hmax : m.tape.cellMax ≤ lastCodePoint) : m.Represents := by
  have hroom : m.tape.cellMax < cellCapacity := Nat.lt_of_le_of_lt hmax (by decide)
  constructor
  case up =>
    obtain ⟨t, hwrite⟩ := m.tape.exists_write hroom (m.tape.read + 1)
    have hread := Tape.read_of_write hwrite
    refine ⟨t, by simp [execute, add, Tape.adjust, hwrite], hread.trans ?_⟩
    exact m.tape.fold_natCast (m.tape.read + 1)
  case down =>
    obtain ⟨t, hwrite⟩ := m.tape.exists_write hroom (m.tape.read + -1)
    have hread := Tape.read_of_write hwrite
    exact ⟨t, by simp [execute, add, Tape.adjust, hwrite], hread.trans m.tape.fold_read_sub_one⟩
  case written => simp [execute, write, Nat.le_trans m.tape.read_le hmax]

/-- A cell that represents every value counts no further than the last code point. -/
lemma le_of_represents {cellMax : Nat} (hpos : 0 < cellMax)
    (h : ∀ m : Machine, m.tape.cellMax = cellMax → m.Represents) : cellMax ≤ lastCodePoint := by
  let m := ofText { cellMax := cellMax, cellMax_pos := hpos } #[] []
  obtain ⟨t, hdown, hread⟩ := (h m rfl).down
  have hzero : m.tape.read = 0 := by simp [m, ofText, start, Tape.blank, Tape.read]
  have hlargest : t.read = cellMax := by
    rw [hread, hzero]
    change (0 + cellMax) % (cellMax + 1) = cellMax
    rw [Nat.zero_add, Nat.mod_eq_of_lt (Nat.lt_succ_self _)]
  have hkept : t.cellMax = cellMax := by
    simp only [execute, add] at hdown
    split at hdown
    next t' hwrite =>
      have htape : t' = t := congrArg (·.machine.tape) hdown
      exact htape ▸ (Tape.write_eq_ok hwrite).2.1
    next => simp at hdown
  obtain ⟨events, hwritten⟩ := (h (m.withTape t) hkept).written
  by_contra hmax
  have hfault := ((m.withTape t).write_error_iff (f := .ofCode t.read)).2 ⟨by
    change lastCodePoint < t.read
    omega, rfl⟩
  rw [execute] at hwritten
  rw [hwritten] at hfault
  cases hfault

/-! ## A single step -/

/-- A machine whose run is over, or that may take no step more. -/
def Spent (m : Machine) : Prop := m.finished = true ∨ m.limitReached = true

lemma Spent.step (h : m.Spent) : m.step.result = .ok false ∧ m.step.machine.Spent := by
  unfold Spent at h
  by_cases hfinished : m.finished = true
  · rw [step_of_none (fetch_finished hfinished)]
    exact ⟨rfl, .inl hfinished⟩
  · have hfetch : m.fetch = ⟨{ m with finished := true, hitStepLimit := true }, [], .ok none⟩ := by
      simp [fetch, hfinished, h.resolve_left hfinished]
    rw [step_of_none hfetch]
    exact ⟨rfl, .inl rfl⟩

lemma Spent.afterCalls (h : m.Spent) (k : Nat) : (m.afterCalls k).Spent := by
  induction k with
  | zero => exact h
  | succ k ih => exact ih.step.2

/-- The only step of a run over a blank tape is not at fault if the largest value has room. -/
lemma single_step (h : m.At e c) (hzero : m.tape.read = 0) (hroom : m.tape.cellMax < cellCapacity)
    (hlimit : m.stepLimit = some 1) : (∃ b, m.step.result = .ok b) ∧ m.step.machine.Spent := by
  obtain ⟨c', hstep⟩ := h.step
  generalize m.step = o at hstep
  cases hstep with
  | finished hf => exact ⟨⟨_, rfl⟩, .inl hf⟩
  | limit | ended => exact ⟨⟨_, rfl⟩, .inl rfl⟩
  | done _ _ _ _ hx =>
    refine ⟨⟨_, rfl⟩, .inr ?_⟩
    have hkept := hx.unchanged.stepLimit.trans hlimit
    simp_all [limitReached, counted]
  | fault _ _ _ _ hx =>
    have hcapacity : 1 < cellCapacity := by decide
    have hoverruns := hx.error_iff.1 rfl
    cases hoverruns with
    | increment hread =>
      change m.tape.read + 1 = cellCapacity at hread
      omega
    | decrement _ hmax => exact absurd hmax (Nat.not_le_of_lt hroom)
    | output hread =>
      change lastCodePoint < m.tape.read at hread
      omega

/-- Valid settings do not keep a run from faults. Runs of all programs are made and have none exactly if there
is room for the tape and cells count no further than the last code point, or there is a single step and the
largest value of a cell has room; and exactly if they count no further than the last code point, every value
that a cell can hold is stored by counting up and down and is written. A machine is not made exactly if there
is no room for its tape, and whatever the settings, a step is at fault exactly if the operator that it draws
overruns the current cell: nothing else that a program does wrong raises a fault. -/
theorem faultless_iff (room : Nat) (s : Settings) :
    ((∀ text console, ∃ m, ofTextWithin room s text console = .ok m ∧
        ∀ k, ∃ b, (m.afterCalls k).step.result = .ok b) ↔
      s.tapeLength ≤ room ∧
        (s.cellMax ≤ lastCodePoint ∨ s.stepLimit = some 1 ∧ s.cellMax < cellCapacity)) ∧
    ((∀ m : Machine, m.tape.cellMax = s.cellMax → m.Represents) ↔ s.cellMax ≤ lastCodePoint) ∧
    ∀ text console,
      (∀ f, ofTextWithin room s text console = .error f ↔
        room < s.tapeLength ∧ f = .noRoom s.tapeLength) ∧
      ∀ m, ofTextWithin room s text console = .ok m → ∀ k f,
        (m.afterCalls k).step.result = .error f ↔
          ∃ x events op, (m.afterCalls k).fetch = ⟨x, events, .ok (some op)⟩ ∧ x.Overruns op f := by
  have hmade (text : Array UInt8) (console : List Char) (m : Machine) :
      ofTextWithin room s text console = .ok m ↔ s.tapeLength ≤ room ∧ ofText s text console = m := by
    unfold ofTextWithin startWithin ofText
    split <;> simp [*]
  refine ⟨⟨fun h => ?_, ?_⟩, ⟨le_of_represents s.cellMax_pos, ?_⟩, fun text console => ⟨fun f => ?_, ?_⟩⟩
  · obtain ⟨m, hm, hok⟩ := h #[45, 46] []
    obtain ⟨hroom, rfl⟩ := (hmade _ _ _).1 hm
    refine ⟨hroom, ?_⟩
    by_contra hmax
    rw [not_or, not_and_or] at hmax
    obtain ⟨hlarge, hlimit⟩ := hmax
    obtain ⟨k, f, hfault⟩ := exists_fault s (Nat.lt_of_not_le hlarge) (hlimit.imp_right Nat.le_of_not_lt)
    obtain ⟨b, hb⟩ := hok k
    simp [hfault] at hb
  · rintro ⟨hroom, hcells⟩ text console
    refine ⟨_, (hmade text console _).2 ⟨hroom, rfl⟩, fun k => ?_⟩
    have hat := ofText_at s text console
    obtain hmax | ⟨hlimit, hmax⟩ := hcells
    · exact (ofText_plain s text console hmax).ok_afterCalls hat k
    · have hzero : (ofText s text console).tape.read = 0 := by simp [ofText, start, Tape.blank, Tape.read]
      obtain ⟨hfirst, hspent⟩ := single_step hat hzero hmax hlimit
      cases k with
      | zero => exact hfirst
      | succ k =>
        rw [afterCalls_succ]
        exact ⟨false, (hspent.afterCalls k).step.1⟩
  · rintro hmax m hm
    exact represents_of_le (hm ▸ hmax)
  · unfold ofTextWithin startWithin
    split
    next hroom => simp [Nat.not_lt_of_le hroom]
    next hroom => simp [Nat.lt_of_not_le hroom, eq_comm]
  · rintro m hm k f
    obtain ⟨-, rfl⟩ := (hmade text console m).1 hm
    obtain ⟨c, hat⟩ := (ofText_at s text console).afterCalls k
    exact hat.step_error_iff

/-- One value more than there are characters is enough for a fault. -/
theorem not_faultless :
    ¬ ∀ (s : Settings) (text : Array UInt8) (console : List Char) (k : Nat),
      ∃ b, ((ofText s text console).afterCalls k).step.result = .ok b := by
  intro h
  obtain ⟨b, hb⟩ := h { tapeLength := 1, cellMax := 0x110000 } #[45, 46] [] 1
  have hfault : ((ofText { tapeLength := 1, cellMax := 0x110000 } #[45, 46] []).afterCalls
      1).step.result = .error .notACharacter := by decide +kernel
  simp [hfault] at hb

end Machine

end Brainfuck
