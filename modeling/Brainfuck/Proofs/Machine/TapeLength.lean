import Brainfuck.Proofs.Machine.Remarks
import Brainfuck.Proofs.Tape.Moves
import Brainfuck.Proofs.Tape.Writes

/-! # The length of the tape

A run sees how long its tape is only when the pointer leaves it, and then it warns. So a run that makes no
such warning goes through the same states on every tape that has the cells it comes to, be it longer or
shorter, and the cells that it does not come to stay zero. -/
namespace Brainfuck

/-! ## Tapes -/

namespace Tape

/-- Tapes of `N` and of `n` cells with the same pointer and the same numbers in their cells. A cell that a
tape does not have counts as zero. -/
structure Alike (N n : Nat) (t t' : Tape) : Prop where
  size_left : t.cells.size = N
  size_right : t'.cells.size = n
  pointer_eq : t'.pointer = t.pointer
  cellMax_eq : t'.cellMax = t.cellMax
  cell_eq (i : Nat) : t'.cells[i]?.getD 0 = t.cells[i]?.getD 0

variable {N n : Nat} {t t' u : Tape} {d v : Int}

lemma Alike.read_eq (h : t.Alike N n t') : t'.read = t.read := by
  have hcell := h.cell_eq t.pointer
  rwa [← h.pointer_eq, getElem?_pointer, h.pointer_eq, getElem?_pointer] at hcell

lemma alike_blank {c : Nat} (hN : 0 < N) (hn : 0 < n) (hc : 0 < c) :
    (blank N c hN hc).Alike N n (blank n c hn hc) := by
  refine ⟨by simp [blank], by simp [blank], rfl, rfl, fun i => ?_⟩
  simp only [blank, Array.getElem?_replicate]
  split <;> split <;> rfl

/-- A number is stored alike. -/
lemma Alike.write (h : t.Alike N n t') (v : Int) :
    (∃ f, t.write v = .error f ∧ t'.write v = .error f) ∨
      ∃ u u', t.write v = .ok u ∧ t'.write v = .ok u' ∧ u.Alike N n u' := by
  have hfold : t'.fold v = t.fold v := by rw [fold, fold, modulus, modulus, h.cellMax_eq]
  unfold Tape.write
  by_cases hroom : t.fold v < cellCapacity
  · rw [dif_pos hroom, dif_pos (hfold ▸ hroom)]
    refine .inr ⟨_, _, rfl, rfl, by simp [h.size_left], by simp [h.size_right], h.pointer_eq, h.cellMax_eq,
      fun i => ?_⟩
    simp only [Array.getElem?_set, h.pointer_eq, hfold]
    split
    · rfl
    · exact h.cell_eq i
  · rw [dif_neg hroom, dif_neg (hfold ▸ hroom)]
    exact .inl ⟨_, rfl, rfl⟩

/-- A pointer that stays on its tape moves alike, if it comes to a cell of the other tape. -/
lemma Alike.move (h : t.Alike N n t') (hmove : t.move d = (u, none)) (hn : u.pointer < n) :
    ∃ u', t'.move d = (u', none) ∧ u.Alike N n u' := by
  obtain ⟨hp, hu, hpointer⟩ := move_of_stays hmove
  have hp' : u.pointer < t'.cells.size := h.size_right.symm ▸ hn
  refine ⟨t'.pointAt u.pointer hp', move_within (by rw [h.pointer_eq, hpointer]) hp', ?_⟩
  have hmax : u.cellMax = t.cellMax := by rw [hu]; rfl
  have hcells : u.cells = t.cells := by rw [hu]; rfl
  exact ⟨hcells ▸ h.size_left, h.size_right, rfl, h.cellMax_eq.trans hmax.symm,
    fun i => hcells ▸ h.cell_eq i⟩

end Tape

/-! ## One step -/

/-- There is no warning of a pointer that left the tape. -/
def Event.Unwrapped (events : List Event) : Prop := ∀ d ∈ remarks events, d.category ≠ .range

lemma Event.unwrapped_append {xs ys : List Event} :
    Unwrapped (xs ++ ys) ↔ Unwrapped xs ∧ Unwrapped ys := by
  rw [Unwrapped, remarks_append, List.forall_mem_append]
  rfl

/-- Outcomes that differ only in the tape, where the tapes are alike. -/
def Outcome.Alike {α : Type} (N n : Nat) (o o' : Outcome α) : Prop :=
  ∃ t, o.machine.tape.Alike N n t ∧ o' = ⟨o.machine.withTape t, o.events, o.result⟩

lemma Outcome.Alike.after {α : Type} {N n : Nat} {o o' : Outcome α} (h : o.Alike N n o')
    (events : List Event) : (o.after events).Alike N n (o'.after events) := by
  obtain ⟨t, ht, rfl⟩ := h
  exact ⟨t, ht, rfl⟩

namespace Machine

open Event

variable {N n : Nat} {m : Machine} {t : Tape} {k : Nat}

lemma event_withTape (h : m.tape.Alike N n t) (kind : Event.Kind) (op : Option Operator) :
    (m.withTape t).event kind op = m.event kind op := by
  simp only [event, withTape, h.pointer_eq, h.read_eq]
  rfl

lemma reportEvent_withTape (h : m.tape.Alike N n t) : (m.withTape t).reportEvent = m.reportEvent := by
  funext d
  simp only [reportEvent, event_withTape h]
  rfl

lemma problemEvent_withTape (h : m.tape.Alike N n t) (p : Problem) :
    (m.withTape t).problemEvent p = m.problemEvent p :=
  event_withTape h ..

lemma walk_alike (h : m.tape.Alike N n t) {d : Int} (hquiet : Unwrapped (m.walk d).events)
    (hn : (m.walk d).machine.tape.pointer < n) : (m.walk d).Alike N n ((m.withTape t).walk d) := by
  unfold walk at hquiet hn ⊢
  rcases hmove : m.tape.move d with ⟨u, _ | w⟩
  · rw [hmove] at hn
    obtain ⟨u', hmove', hu⟩ := h.move hmove hn
    have hmove' : (m.withTape t).tape.move d = (u', none) := hmove'
    rw [hmove']
    exact ⟨u', hu, rfl⟩
  · rw [hmove] at hquiet
    exact absurd rfl (hquiet _ (List.mem_singleton_self _))

lemma add_alike (h : m.tape.Alike N n t) (d : Int) : (m.add d).Alike N n ((m.withTape t).add d) := by
  have hadjust : (m.withTape t).tape.adjust d = t.write (m.tape.read + d) := by
    rw [← h.read_eq]
    rfl
  unfold add
  rw [hadjust, Tape.adjust]
  obtain ⟨f, hwrite, hwrite'⟩ | ⟨u, u', hwrite, hwrite', hu⟩ := h.write (m.tape.read + d)
  · rw [hwrite, hwrite']
    exact ⟨t, h, rfl⟩
  · rw [hwrite, hwrite']
    exact ⟨u', hu, rfl⟩

lemma write_alike (h : m.tape.Alike N n t) : m.write.Alike N n (m.withTape t).write := by
  have hread : (m.withTape t).tape.read = m.tape.read := h.read_eq
  unfold write
  simp only [hread]
  split
  · refine ⟨t, h, ?_⟩
    have hevent := event_withTape (m := { m with output := m.output.push m.tape.read }) h
    rw [← hevent]
    rfl
  · exact ⟨t, h, rfl⟩

lemma read_alike (h : m.tape.Alike N n t) : m.read.Alike N n (m.withTape t).read := by
  have hconsole : readConsole (m.withTape t).lineInput (m.withTape t).console =
    readConsole m.lineInput m.console := rfl
  unfold read
  rw [hconsole]
  rcases readConsole m.lineInput m.console with ⟨_ | char, rest⟩
  · exact ⟨t, h, rfl⟩
  · have htape : (m.withTape t).tape.write char.toNat = t.write char.toNat := rfl
    simp only [htape]
    obtain ⟨f, hwrite, hwrite'⟩ | ⟨u, u', hwrite, hwrite', hu⟩ := h.write char.toNat
    · simp only [hwrite, hwrite']
      exact ⟨t, h, rfl⟩
    · simp only [hwrite, hwrite']
      exact ⟨u', hu, rfl⟩

lemma skipLoop_alike (h : m.tape.Alike N n t) : m.skipLoop.Alike N n (m.withTape t).skipLoop := by
  have hsource : (m.withTape t).source = m.source := rfl
  have hscan : (m.withTape t).skipScan = m.skipScan := rfl
  rw [skipLoop, skipLoop, hsource, hscan, reportEvent_withTape h]
  rcases m.source.position with ⟨position, reports⟩
  rcases hend : m.source.matchingEnd position with _ | target
  · simp only [hend]
    rcases m.source.skip m.skipScan 0 with ⟨source, reports, f | _ | _⟩
    · exact ⟨t, h, rfl⟩
    · refine ⟨t, h, ?_⟩
      have hevent := problemEvent_withTape (m := m.withSource source) h
      simp only [← hevent]
      rfl
    · exact ⟨t, h, rfl⟩
  · simp only [hend]
    rcases m.source.seek target none with f | ⟨source, reports⟩ <;> exact ⟨t, h, rfl⟩

lemma startLoop_alike (h : m.tape.Alike N n t) : m.startLoop.Alike N n (m.withTape t).startLoop := by
  let noted : Machine := { m with frames := ⟨m.source.position.1, m.location⟩ :: m.frames }
  let before := m.source.position.2.map m.reportEvent
  have hnoted : noted.tape.Alike N n t := h
  have hleft : m.startLoop =
      if noted.tape.read ≠ 0 then
        ⟨noted, before ++ [noted.event .loopEntered (some .loopStart)], .ok ()⟩
      else noted.skipLoop.after (before ++ [noted.event .loopSkipped (some .loopStart)]) := rfl
  have hright : (m.withTape t).startLoop =
      if (noted.withTape t).tape.read ≠ 0 then
        ⟨noted.withTape t, before ++ [(noted.withTape t).event .loopEntered (some .loopStart)], .ok ()⟩
      else (noted.withTape t).skipLoop.after
        (before ++ [(noted.withTape t).event .loopSkipped (some .loopStart)]) := by
    rw [show before = m.source.position.2.map (m.withTape t).reportEvent by rw [reportEvent_withTape h]]
    rfl
  have hread : (noted.withTape t).tape.read = noted.tape.read := h.read_eq
  rw [hleft, hright, hread, event_withTape hnoted, event_withTape hnoted]
  split
  · exact ⟨t, h, rfl⟩
  · exact (skipLoop_alike hnoted).after _

lemma endLoop_alike (h : m.tape.Alike N n t) : m.endLoop.Alike N n (m.withTape t).endLoop := by
  have hsource : (m.withTape t).source = m.source := rfl
  have hframes : (m.withTape t).frames = m.frames := rfl
  have hread : (m.withTape t).tape.read = m.tape.read := h.read_eq
  rw [endLoop, endLoop, hsource, hframes, hread, reportEvent_withTape h]
  rcases m.frames with _ | ⟨frame, outer⟩
  · exact ⟨t, h, by rw [problemEvent_withTape h]⟩
  · by_cases hv : m.tape.read = 0
    · simp only [hv, if_true]
      have hevent := event_withTape (m := { m with frames := outer }) h
      exact ⟨t, h, by rw [← hevent]; rfl⟩
    · simp only [hv, if_false]
      rcases m.source.seek frame.position (some frame.location) with f | ⟨source, reports⟩
      · exact ⟨t, h, rfl⟩
      · have hevent := event_withTape (m := m.withSource source) h
        exact ⟨t, h, by simp only [← hevent]; rfl⟩

/-- An operator does the same over a tape that is alike, unless the pointer leaves one of the two. -/
theorem execute_alike (h : m.tape.Alike N n t) (op : Operator) (hquiet : Unwrapped (m.execute op).events)
    (hn : (m.execute op).machine.tape.pointer < n) :
    (m.execute op).Alike N n ((m.withTape t).execute op) := by
  cases op with
  | right | left => exact walk_alike h hquiet hn
  | increment | decrement => exact add_alike h _
  | output => exact write_alike h
  | input => exact read_alike h
  | loopStart => exact startLoop_alike h
  | loopEnd => exact endLoop_alike h

/-- What is drawn does not depend on the tape. -/
lemma fetch_alike (h : m.tape.Alike N n t) : m.fetch.Alike N n (m.withTape t).fetch := by
  have hfinished : (m.withTape t).finished = m.finished := rfl
  have hlimit : (m.withTape t).limitReached = m.limitReached := rfl
  have hsource : (m.withTape t).source = m.source := rfl
  cases hf : m.finished with
  | true =>
    rw [fetch_finished hf, fetch_finished (hfinished.trans hf)]
    exact ⟨t, h, rfl⟩
  | false =>
    cases hl : m.limitReached with
    | true =>
      rw [fetch_limit hf hl, fetch_limit (hfinished.trans hf) (hlimit.trans hl)]
      exact ⟨t, h, rfl⟩
    | false =>
      rcases hnext : m.source.next with f | ⟨s, reports, _ | op⟩
      · refine ⟨t, ?_, ?_⟩ <;> simp [fetch, hf, hl, hnext, hfinished, hlimit, hsource, h]
      · have hreport : ((m.withTape t).withSource s).reportEvent = (m.withSource s).reportEvent :=
          reportEvent_withTape (m := m.withSource s) h
        rw [fetch_end hf hl hnext, fetch_end (hfinished.trans hf) (hlimit.trans hl) hnext, hreport]
        exact ⟨t, h, rfl⟩
      · have hreport : ((m.withTape t).withSource s).reportEvent = (m.withSource s).reportEvent :=
          reportEvent_withTape (m := m.withSource s) h
        have hevent : ((m.withTape t).drawn s op).event .pending (some op) =
          (m.drawn s op).event .pending (some op) := event_withTape (m := m.drawn s op) h ..
        rw [fetch_next hf hl hnext, fetch_next (hfinished.trans hf) (hlimit.trans hl) hnext, hreport, hevent]
        exact ⟨t, h, rfl⟩

/-- A step does the same over a tape that is alike, unless the pointer leaves one of the two. -/
theorem step_alike (h : m.tape.Alike N n t) (hquiet : Unwrapped m.step.events)
    (hn : m.step.machine.tape.pointer < n) : m.step.Alike N n (m.withTape t).step := by
  obtain ⟨u, hu, hfetch⟩ := fetch_alike h
  rcases hm : m.fetch with ⟨x, events, f | _ | op⟩ <;> rw [hm] at hu hfetch
  · have hstep : m.step = ⟨x, events, .error f⟩ := by simp [step, hm, Outcome.bind]
    have hstep' : (m.withTape t).step = ⟨x.withTape u, events, .error f⟩ := by
      simp [step, hfetch, Outcome.bind]
    rw [hstep, hstep']
    exact ⟨u, hu, rfl⟩
  · rw [step_of_none hm, step_of_none hfetch]
    exact ⟨u, hu, rfl⟩
  · rcases hx : x.execute op with ⟨x', more, f | _⟩
    · rw [step_of_error hm hx] at hquiet hn ⊢
      have hexecute := execute_alike hu op (by rw [hx]; exact (unwrapped_append.1 hquiet).2)
        (by rwa [hx])
      rw [hx] at hexecute
      obtain ⟨u', hu', hx'⟩ := hexecute
      rw [step_of_error hfetch hx']
      exact ⟨u', hu', rfl⟩
    · rw [step_of_ok hm hx] at hquiet hn ⊢
      have hmore := (unwrapped_append.1 (unwrapped_append.1 hquiet).2).1
      have hexecute := execute_alike hu op (by rwa [hx]) (by rwa [hx])
      rw [hx] at hexecute
      obtain ⟨u', hu', hx'⟩ := hexecute
      have hevent : (x'.withTape u').counted.event .applied (some op) =
        x'.counted.event .applied (some op) := event_withTape (m := x'.counted) hu' ..
      rw [step_of_ok hfetch hx', hevent]
      exact ⟨u', hu', rfl⟩

/-! ## Calls of a step -/

/-- The highest cell that the pointer comes to in `k` calls of a step. -/
def reach (m : Machine) : Nat → Nat
  | 0 => m.tape.pointer
  | k + 1 => max (reach m k) (m.afterCalls (k + 1)).tape.pointer

lemma pointer_le_reach (m : Machine) (k : Nat) : (m.afterCalls k).tape.pointer ≤ m.reach k := by
  cases k with
  | zero => exact Nat.le_refl _
  | succ k => exact Nat.le_max_right ..

lemma reach_le_succ (m : Machine) (k : Nat) : m.reach k ≤ m.reach (k + 1) := Nat.le_max_left ..

/-- Calls of a step do the same over a tape that is alike, as long as no pointer leaves its tape. -/
theorem afterCalls_alike (h : m.tape.Alike N n t) (hquiet : Unwrapped (m.callEvents k))
    (hn : m.reach k < n) :
    (∃ u, (m.afterCalls k).tape.Alike N n u ∧ (m.withTape t).afterCalls k = (m.afterCalls k).withTape u) ∧
      (m.withTape t).callEvents k = m.callEvents k ∧
      ∀ j < k, ((m.withTape t).afterCalls j).step.result = (m.afterCalls j).step.result := by
  induction k with
  | zero => exact ⟨⟨t, h, rfl⟩, rfl, by simp⟩
  | succ k ih =>
    obtain ⟨hbefore, hstep⟩ := unwrapped_append.1 hquiet
    obtain ⟨⟨u, hu, hafter⟩, hevents, hresults⟩ :=
      ih hbefore (Nat.lt_of_le_of_lt (m.reach_le_succ k) hn)
    obtain ⟨u', hu', hstep'⟩ :=
      step_alike hu hstep (Nat.lt_of_le_of_lt (m.pointer_le_reach (k + 1)) hn)
    rw [← hafter] at hstep'
    refine ⟨⟨u', hu', congrArg Outcome.machine hstep'⟩, ?_, fun j hj => ?_⟩
    · rw [callEvents, callEvents, hevents, hstep']
    · rcases Nat.lt_succ_iff_lt_or_eq.1 hj with hj | rfl
      · exact hresults j hj
      · rw [hstep']

/-- Where the pointer was is a cell of the tape. -/
lemma reach_lt (h : m.tape.Alike N n t) (hquiet : Unwrapped (m.callEvents k)) (hn : m.reach k < n) :
    m.reach k < N := by
  induction k with
  | zero => exact h.size_left ▸ m.tape.pointer_lt
  | succ k ih =>
    have hbefore := ih (unwrapped_append.1 hquiet).1 (Nat.lt_of_le_of_lt (m.reach_le_succ k) hn)
    obtain ⟨⟨u, hu, -⟩, -⟩ := afterCalls_alike h hquiet hn
    exact Nat.max_lt.2 ⟨hbefore, hu.size_left ▸ (m.afterCalls (k + 1)).tape.pointer_lt⟩

/-- A machine at the start of a run over a blank tape. -/
def onBlank (s : Settings) (source : Source) (console : List Char) (lineInput : Bool) : Machine :=
  { start s source console none with lineInput := lineInput }

/-- A run that makes no warning of a pointer that left the tape does not depend on the length of the tape.
Over any other tape that has all cells that the pointer came to, the first `k` steps lead to the same
machine but for its tape, with the same results, events and remarks. The tapes have the pointer on the same
cell, the same values up to the highest cell that the pointer came to, and zeros behind it. Loading a program
does not look at the length of the tape either. -/
theorem tape_length_unseen (s : Settings) (source : Source) (console : List Char) (lineInput : Bool)
    (k n : Nat) (hquiet : Unwrapped ((onBlank s source console lineInput).callEvents k))
    (hn : (onBlank s source console lineInput).reach k < n) :
    let s' := { s with tapeLength := n, tapeLength_pos := Nat.zero_lt_of_lt hn }
    let m := onBlank s source console lineInput
    let m' := onBlank s' source console lineInput
    let tape := (m.afterCalls k).tape
    let tape' := (m'.afterCalls k).tape
    m'.afterCalls k = (m.afterCalls k).withTape tape' ∧
    m'.callEvents k = m.callEvents k ∧
    (∀ j < k, (m'.afterCalls j).step.result = (m.afterCalls j).step.result) ∧
    (tape.cells.size = s.tapeLength ∧ tape'.cells.size = n ∧ m.reach k < s.tapeLength) ∧
    tape'.pointer = tape.pointer ∧ tape'.cellMax = tape.cellMax ∧
    (∀ i ≤ m.reach k, tape'.cells[i]? = tape.cells[i]?) ∧
    (∀ i, m.reach k < i → tape.cells[i]?.getD 0 = 0 ∧ tape'.cells[i]?.getD 0 = 0) ∧
    (∀ text, Source.ofText s' text = Source.ofText s text) ∧
    ∀ name text, Source.ofFile s' name text = Source.ofFile s name text := by
  intro s' m m' tape tape'
  have hblank (n : Nat) (hpos : 0 < n) :
      m.tape.Alike s.tapeLength n (.blank n s.cellMax hpos s.cellMax_pos) :=
    Tape.alike_blank s.tapeLength_pos hpos s.cellMax_pos
  have hstart := hblank n (Nat.zero_lt_of_lt hn)
  obtain ⟨⟨u, hu, hafter⟩, hevents, hresults⟩ := afterCalls_alike hstart hquiet hn
  have hafter : m'.afterCalls k = (m.afterCalls k).withTape u := hafter
  obtain rfl : u = tape' := (congrArg Machine.tape hafter).symm
  have hreach : m.reach k < s.tapeLength := reach_lt hstart hquiet hn
  refine ⟨hafter, hevents, hresults, ⟨hu.size_left, hu.size_right, hreach⟩, hu.pointer_eq, hu.cellMax_eq,
    fun i hi => ?_, fun i hi => ?_, fun _ => rfl, fun _ _ => rfl⟩
  · have hleft : i < tape.cells.size := hu.size_left ▸ Nat.lt_of_le_of_lt hi hreach
    have hright : i < tape'.cells.size := hu.size_right ▸ Nat.lt_of_le_of_lt hi hn
    have hcell := hu.cell_eq i
    rw [Array.getElem?_eq_getElem hleft, Array.getElem?_eq_getElem hright] at hcell ⊢
    exact congrArg some hcell
  · -- a tape that ends at the highest cell has nothing behind it
    obtain ⟨⟨short, hshort, -⟩, -⟩ :=
      afterCalls_alike (hblank (m.reach k + 1) (Nat.succ_pos _)) hquiet (Nat.lt_succ_self _)
    have hend : short.cells[i]? = none := Array.getElem?_eq_none (hshort.size_right ▸ hi)
    have hzero : tape.cells[i]?.getD 0 = 0 := by rw [← hshort.cell_eq i, hend]; rfl
    exact ⟨hzero, (hu.cell_eq i).trans hzero⟩

/-- A program that comes to the second cell, over a tape of two cells and over one of five. -/
theorem tape_length_unseen_two_cells :
    let s : Settings := { tapeLength := 2 }
    let m := onBlank s (Source.ofText s #[43, 62, 43, 60]).1 [] false
    Unwrapped (m.callEvents 5) ∧ m.reach 5 < 5 ∧
      (onBlank { tapeLength := 5 } (Source.ofText s #[43, 62, 43, 60]).1 [] false).callEvents 5 =
        m.callEvents 5 ∧
      m.callEvents 5 ≠ [] := by
  intro s m
  have hquiet : Unwrapped (m.callEvents 5) := by
    have hnone : Event.remarks (m.callEvents 5) = [] := by decide +kernel
    simp [Unwrapped, hnone]
  have hreach : m.reach 5 < 5 := by decide +kernel
  exact ⟨hquiet, hreach, (tape_length_unseen s _ [] false 5 5 hquiet hreach).2.1, by decide +kernel⟩

end Machine

end Brainfuck
