import Brainfuck.Proofs.Machine.Nesting
import Brainfuck.Proofs.Machine.Remarks

/-! # Loops that were entered

In either reading of the brackets a run keeps notes of exactly those loops that it told of as entered and
did not yet tell of as left. In the legacy reading these need not be the loops that are open in the text,
but each of them lies behind the one below it and none lies behind the run, since a note is put on top
where the run is, and going back to it leaves nothing above it. So a run goes back only to a loop that it
entered, and is inside of no more loops than there are opening brackets. -/
namespace Brainfuck

/-- Whether an event tells that a loop is entered, left or repeated. -/
def Event.marksLoop (x : Event) : Bool :=
  match x.kind with
  | .loopEntered | .loopExited | .loopRepeated _ => true
  | _ => false

namespace Event

/-- The events that tell of loops which are entered, left or repeated. -/
def loopMarks (events : List Event) : List Event := events.filter marksLoop

@[simp] lemma loopMarks_nil : loopMarks [] = [] := rfl

@[simp] lemma loopMarks_append (xs ys : List Event) :
    loopMarks (xs ++ ys) = loopMarks xs ++ loopMarks ys := List.filter_append ..

@[simp] lemma loopMarks_cons (x : Event) (xs : List Event) :
    loopMarks (x :: xs) = if x.marksLoop then x :: loopMarks xs else loopMarks xs := List.filter_cons

@[simp] lemma loopMarks_reports (m : Machine) (ds : List Diagnostic) :
    loopMarks (ds.map m.reportEvent) = [] := by
  simp [loopMarks, marksLoop, Machine.reportEvent, Machine.event]

@[simp] lemma marksLoop_problemEvent (m : Machine) (p : Problem) :
    (m.problemEvent p).marksLoop = false := rfl

@[simp] lemma marksLoop_event (m : Machine) (kind : Kind) (op : Option Operator) :
    (m.event kind op).marksLoop =
      match kind with
      | .loopEntered | .loopExited | .loopRepeated _ => true
      | _ => false := rfl

end Event

namespace Edition

variable {e : Edition} {i j : Nat} {s : Source}

/-- Behind more operators the position is further on. -/
lemma position_strictMono (hij : i < j) (hj : j ≤ e.operators.length) : e.position i < e.position j := by
  apply lt_of_le_of_ne
  · unfold position
    split
    · omega
    · exact Int.ofNat_le.2 (Decoding.offset_mono (Nat.le_of_lt hij))
  · intro heq
    have := position_inj (Nat.le_of_lt (Nat.lt_of_lt_of_le hij hj)) hj heq
    omega

/-- No operator that is behind a source has a position further on. -/
lemma Holds.position_le (h : e.Holds i s) (hj : j ≤ e.operators.length) (hji : j ≤ i) :
    e.position j ≤ s.position.1 := by
  cases h with
  | stream hp h =>
    rw [position_stream hp]
    simp only [Source.position, Reader.position, h.offset_eq]
    exact Int.ofNat_le.2 (Decoding.offset_mono hji)
  | compiled hp _ h _ =>
    rw [position_compiled hp]
    simp only [Source.position, h]
    omega

/-- Opening brackets are as many as the bytes that spell them. -/
lemma count_loopStart (e : Edition) :
    e.operators.count .loopStart = e.bytes.count Operator.loopStart.byte := by
  rw [operators, Decoding.operators, List.count_eq_countP, List.countP_filterMap, List.count_eq_countP]
  apply List.countP_congr
  intro b _
  constructor
  · intro h
    cases hop : Operator.ofByte? b with
    | none => simp [hop] at h
    | some op =>
      obtain rfl : op = .loopStart := by simpa [hop] using h
      simpa using Decoding.byte_of_ofByte? hop
  · intro h
    obtain rfl : b = Operator.loopStart.byte := by simpa using h
    rfl

end Edition

/-- The loops of a control, each opened behind the one below it and none behind its index. -/
structure Control.Stacked (e : Edition) (c : Control) : Prop where
  sorted : c.loops.Pairwise (· > ·)
  le_index : ∀ l ∈ c.loops, l ≤ c.index
  opened : ∀ l ∈ c.loops, ∃ i, l = i + 1 ∧ e.operators[i]? = some .loopStart

namespace Control.Stacked

variable {e : Edition} {c : Control} {i l : Nat} {ls : List Nat}

lemma start (e : Edition) : Stacked e {} := ⟨.nil, by simp, by simp⟩

/-- Going on takes nothing from the stack. -/
lemma goes_on {j : Nat} (h : Stacked e ⟨i, ls⟩) (hij : i ≤ j) : Stacked e ⟨j, ls⟩ :=
  ⟨h.sorted, fun l hl => Nat.le_trans (h.le_index l hl) hij, h.opened⟩

lemma push (h : Stacked e ⟨i, ls⟩) (hop : e.operators[i]? = some .loopStart) :
    Stacked e ⟨i + 1, (i + 1) :: ls⟩ := by
  refine ⟨.cons ?_ h.sorted, ?_, ?_⟩
  · intro l hl
    exact Nat.lt_succ_of_le (h.le_index l hl)
  · exact List.forall_mem_cons.2 ⟨Nat.le_refl _, (h.goes_on (Nat.le_succ i)).le_index⟩
  · exact List.forall_mem_cons.2 ⟨⟨i, rfl, hop⟩, h.opened⟩

lemma pop (h : Stacked e ⟨i, l :: ls⟩) : Stacked e ⟨i, ls⟩ :=
  ⟨h.sorted.of_cons, fun l hl => h.le_index l (.tail _ hl), fun l hl => h.opened l (.tail _ hl)⟩

/-- Going back to the innermost loop leaves nothing behind the index. -/
lemma rewind (h : Stacked e ⟨i, l :: ls⟩) : Stacked e ⟨l, l :: ls⟩ := by
  refine ⟨h.sorted, ?_, h.opened⟩
  intro l' hl'
  obtain rfl | hl' := List.mem_cons.1 hl'
  · exact Nat.le_refl _
  · exact Nat.le_of_lt (List.rel_of_pairwise_cons h.sorted hl')

/-- There are no more loops on the stack than opening brackets before its top. -/
theorem length_le (h : Stacked e c) : c.loops.length ≤ (e.operators.take c.index).count .loopStart := by
  obtain ⟨i, ls⟩ := c
  induction ls generalizing i with
  | nil => exact Nat.zero_le _
  | cons l ls ih =>
    obtain ⟨j, rfl, hop⟩ := h.opened l (.head _)
    have hbelow : Stacked e ⟨j, ls⟩ := by
      refine ⟨h.pop.sorted, ?_, h.pop.opened⟩
      intro l hl
      exact Nat.le_of_lt_succ (List.rel_of_pairwise_cons h.sorted hl)
    calc ls.length + 1
        ≤ (e.operators.take j).count .loopStart + 1 := Nat.succ_le_succ (ih j hbelow)
      _ = (e.operators.take (j + 1)).count .loopStart := by
        rw [List.take_add_one, hop, Option.toList_some, List.count_append, List.count_singleton_self]
      _ ≤ (e.operators.take i).count .loopStart :=
        (List.take_sublist_take_left (h.le_index (j + 1) (.head _))).count_le _

end Control.Stacked

namespace Machine

open Event

variable {e : Edition} {c c' : Control} {m : Machine} {op : Operator} {i k : Nat} {ls : List Nat}
  {s : Source}

/-- Every operator keeps the stack in order, also one that halts the machine. -/
theorem Executes.stacked {o : Outcome Unit} (hx : Executes e m ⟨i + 1, ls⟩ op c' o)
    (h : Control.Stacked e ⟨i, ls⟩) : Control.Stacked e c' := by
  have hnext := h.goes_on (Nat.le_succ i)
  cases hx with
  | action => exact hnext
  | enter hop => exact h.push hop
  | skip _ _ hk => exact hnext.goes_on (Nat.le_of_lt (Brackets.skipEnd_bounds hk).1)
  | halt hop =>
    have hlt := (List.getElem?_eq_some_iff.1 hop).1
    exact (h.push hop).goes_on (by omega)
  | stray => exact hnext
  | leave => exact hnext.pop
  | again => exact hnext.rewind

theorem Step.stacked {o : Outcome Bool} (hstep : Step e m c c' o) (h : Control.Stacked e c) :
    Control.Stacked e c' := by
  cases hstep with
  | finished | limit => exact h
  | ended => exact h.goes_on (Nat.le_succ c.index)
  | done _ _ _ _ hx => exact hx.stacked h
  | fault _ _ _ _ hx => exact hx.stacked h

/-! ## What is told of loops -/

/-- What is told of loops on the way from a control to another: nothing, if the loops stay the same, that
the loop is entered behind whose bracket the run is, that the innermost loop is left, or that it is
repeated from its start. -/
inductive Marks (e : Edition) (c c' : Control) : List Event → Prop
  | none (h : c'.loops = c.loops) : Marks e c c' []
  | entered {x : Event} (hkind : x.kind = .loopEntered) (hplace : x.location = e.place c'.index)
    (h : c'.loops = c'.index :: c.loops) : Marks e c c' [x]
  | exited {x : Event} {l : Nat} (hkind : x.kind = .loopExited) (h : c.loops = l :: c'.loops) :
    Marks e c c' [x]
  | repeated {x : Event} {l : Nat} {ls : List Nat} (hkind : x.kind = .loopRepeated (e.place l))
    (h : c.loops = l :: ls) (h' : c' = ⟨l, l :: ls⟩) : Marks e c c' [x]

@[simp] lemma loopMarks_drawEvents : loopMarks (m.drawEvents e i s op) = [] := by
  simp [drawEvents]

@[simp] lemma loopMarks_skipEvents : loopMarks (m.skipEvents e i) = [] := by
  simp [skipEvents]

@[simp] lemma loopMarks_action (m : Machine) (a : Action) :
    loopMarks (m.execute a.operator).events = [] := by
  have hacts := m.acts a
  generalize m.execute a.operator = o at hacts ⊢
  cases hacts with
  | silent => rfl
  | wrapped | written => simp

/-- An operator tells what becomes of the loops, unless it halts the machine and leaves the note of a
loop that it tells nothing more of. -/
theorem Executes.marks {o : Outcome Unit} (hx : Executes e m ⟨i + 1, ls⟩ op c' o)
    (hat : m.At e ⟨i + 1, ls⟩) :
    Marks e ⟨i, ls⟩ c' (loopMarks o.events) ∨
      o.machine.halted = true ∧ loopMarks o.events = [] := by
  cases hx with
  | halt => exact .inr ⟨rfl, by simp⟩
  | action _ a =>
    rw [loopMarks_action]
    exact .inl (.none rfl)
  | enter => exact .inl (.entered rfl hat.location_eq rfl)
  | skip =>
    rw [loopMarks_skipEvents]
    exact .inl (.none rfl)
  | stray => exact .inl (.none rfl)
  | leave => exact .inl (.exited rfl rfl)
  | again => exact .inl (.repeated rfl rfl rfl)

theorem Step.marks {o : Outcome Bool} (hstep : Step e m c c' o) (hat : m.At e c) :
    Marks e c c' (loopMarks o.events) ∨ o.machine.halted = true ∧ loopMarks o.events = [] := by
  cases hstep with
  | finished | limit => exact .inl (.none rfl)
  | ended =>
    rw [loopMarks_reports]
    exact .inl (.none rfl)
  | done _ _ _ hs hx => simpa [counted] using hx.marks (hat.drawn hs _)
  | fault _ _ _ hs hx => simpa using hx.marks (hat.drawn hs _)

/-- The notes after one more event, which are told by the event and by where the machine is then. -/
def noteEvent (m : Machine) (frames : List Frame) (x : Event) : List Frame :=
  match x.kind with
  | .loopEntered => ⟨m.source.position.1, x.location⟩ :: frames
  | .loopExited => frames.tail
  | _ => frames

/-- The notes of the loops that `k` calls of a step told of as entered, without those that they told of
as left since. -/
def toldFrames (m : Machine) : Nat → List Frame
  | 0 => []
  | k + 1 => (m.afterCalls k).step.events.foldl (m.afterCalls (k + 1)).noteEvent (m.toldFrames k)

/-- Only what is told of loops changes the notes. -/
lemma foldl_noteEvent (m : Machine) (frames : List Frame) (events : List Event) :
    events.foldl m.noteEvent frames = (loopMarks events).foldl m.noteEvent frames := by
  induction events generalizing frames with
  | nil => rfl
  | cons x events ih =>
    cases hx : x.marksLoop with
    | true => simp [hx, ih]
    | false =>
      have hnote : m.noteEvent frames x = frames := by
        unfold marksLoop at hx
        unfold noteEvent
        split at hx <;> simp_all
      simp [hx, hnote, ih]

/-- A note was there before, or is that of a loop which is entered. -/
lemma mem_foldl_noteEvent {f : Frame} {frames : List Frame} {events : List Event}
    (h : f ∈ events.foldl m.noteEvent frames) :
    f ∈ frames ∨ f.position = m.source.position.1 ∧
      ∃ x ∈ events, x.kind = .loopEntered ∧ x.location = f.location := by
  induction events generalizing frames with
  | nil => exact .inl h
  | cons x events ih =>
    rcases ih h with hnote | ⟨hposition, y, hy, htold⟩
    · unfold noteEvent at hnote
      split at hnote
      next hkind =>
        obtain rfl | hf := List.mem_cons.1 hnote
        · exact .inr ⟨rfl, x, .head _, hkind, rfl⟩
        · exact .inl hf
      · exact .inl (List.mem_of_mem_tail hnote)
      · exact .inl hnote
    · exact .inr ⟨hposition, y, .tail _ hy, htold⟩

/-- A call that told of a loop as entered, and led to behind its bracket. -/
def EnteredAt (m : Machine) (j : Nat) (f : Frame) : Prop :=
  (m.afterCalls (j + 1)).source.position.1 = f.position ∧
    ∃ x ∈ (m.afterCalls j).step.events, x.kind = .loopEntered ∧ x.location = f.location

/-- Every note is that of a loop which was really entered. -/
theorem enteredAt_of_mem {f : Frame} (h : f ∈ m.toldFrames k) : ∃ j < k, m.EnteredAt j f := by
  induction k with
  | zero => simp [toldFrames] at h
  | succ k ih =>
    rcases mem_foldl_noteEvent h with h | ⟨hposition, hentered⟩
    · obtain ⟨j, hj, hentered⟩ := ih h
      exact ⟨j, Nat.lt_succ_of_lt hj, hentered⟩
    · exact ⟨k, Nat.lt_succ_self k, hposition.symm, hentered⟩

/-- The notes follow what is told. -/
lemma Marks.foldl_noteEvent {events : List Event} (hmarks : Marks e c c' events) (hat : m.At e c') :
    events.foldl m.noteEvent (c.loops.map e.frame) = m.frames := by
  rw [hat.frames]
  cases hmarks with
  | none h => rw [h, List.foldl_nil]
  | entered hkind hplace h =>
    have hle := hat.loops_le c'.index (h ▸ .head _)
    simp [noteEvent, hkind, hplace, h, hat.source.position_eq hle, Edition.frame]
  | exited hkind h => simp [noteEvent, hkind, h]
  | repeated hkind h h' => simp [noteEvent, hkind, h, h']

/-! ## Runs -/

/-- A run that is halted stays so. -/
lemma Step.live {o : Outcome Bool} (hstep : Step e m c c' o) (hcourse : m.Course e c)
    (hlive : o.machine.halted = false) : m.halted = false := by
  cases hstep with
  | finished | limit => exact hlive
  | ended hf | done hf | fault hf => exact hcourse.not_halted hf

theorem ofText_stacked (s : Settings) (text : Array UInt8) (console : List Char) (k : Nat) :
    ∃ c, ((ofText s text console).afterCalls k).At (.ofSettings s text) c ∧
      ((ofText s text console).afterCalls k).Course (.ofSettings s text) c ∧
      Control.Stacked (.ofSettings s text) c ∧
      (((ofText s text console).afterCalls k).halted = false →
        (ofText s text console).toldFrames k = ((ofText s text console).afterCalls k).frames) := by
  induction k with
  | zero => exact ⟨{}, ofText_at .., ofText_course .., .start _, fun _ => rfl⟩
  | succ k ih =>
    obtain ⟨c, hat, hcourse, hstacked, htold⟩ := ih
    obtain ⟨c', hstep⟩ := hat.step
    refine ⟨c', hstep.at hat, hcourse.step hat hstep, hstep.stacked hstacked, fun hlive => ?_⟩
    rcases hstep.marks hat with hmarks | ⟨hhalted, -⟩
    · have hnotes := hmarks.foldl_noteEvent (hstep.at hat)
      rw [← foldl_noteEvent, ← hat.frames, ← htold (hstep.live hcourse hlive)] at hnotes
      exact hnotes
    · have hlive : ((ofText s text console).afterCalls k).step.machine.halted = false := hlive
      simp [hhalted] at hlive

/-- What is told of as repeated is the innermost loop, and the run is at its start again. -/
theorem At.repeated (hat : m.At e c) {x : Event} {target : Location} (hx : x ∈ m.step.events)
    (hkind : x.kind = .loopRepeated target) :
    ∃ f rest, m.frames = f :: rest ∧ f.location = target ∧ m.step.machine.frames = m.frames ∧
      m.step.machine.source.position = (f.position, []) ∧ m.step.machine.location = f.location := by
  obtain ⟨c', hstep⟩ := hat.step
  have hat' := hstep.at hat
  have hmark : x ∈ loopMarks m.step.events := by
    apply List.mem_filter.2
    exact ⟨hx, by simp [marksLoop, hkind]⟩
  have hmarks := hstep.marks hat
  generalize loopMarks m.step.events = marks at hmark hmarks
  rcases hmarks with hmarks | ⟨-, rfl⟩
  · cases hmarks with
    | none => simp at hmark
    | entered hkind' | exited hkind' => simp_all
    | @repeated _ l ls hkind' hloops hc' =>
      obtain rfl := List.mem_singleton.1 hmark
      obtain rfl : target = e.place l := by simpa using hkind.symm.trans hkind'
      have hle : l ≤ e.operators.length := hat.loops_le l (hloops ▸ .head _)
      subst hc'
      refine ⟨e.frame l, ls.map e.frame, ?_, rfl, ?_, ?_, ?_⟩
      · rw [hat.frames, hloops, List.map_cons]
      · rw [hat.frames, hloops, hat'.frames]
      · exact hat'.source.position_eq hle
      · exact hat'.location_eq
  · simp at hmark

/-- In either reading of the brackets, the frames of a machine that is not halted are the notes of the
loops that it told of as entered, without those that it told of as left since. Each is behind the one
below it and none is behind the position of the machine; each is the note of an opening bracket of the
text, and there are no more of them than opening brackets. A machine that tells of a loop as repeated is
then at the start of the innermost loop that it had entered, and is inside of the same loops. -/
theorem frames_eq_toldFrames (s : Settings) (text : Array UInt8) (console : List Char) (k : Nat) :
    let e := Edition.ofSettings s text
    let start := ofText s text console
    let m := start.afterCalls k
    (m.halted = false →
      m.frames = start.toldFrames k ∧ (∀ f ∈ m.frames, ∃ j < k, start.EnteredAt j f) ∧
      m.frames.Pairwise (fun inner outer => outer.position < inner.position) ∧
      (∀ f ∈ m.frames, f.position ≤ m.source.position.1) ∧
      (∀ f ∈ m.frames, ∃ q, e.bytes[q]? = some Operator.loopStart.byte ∧ f = e.note q) ∧
      m.frames.length ≤ e.bytes.count Operator.loopStart.byte) ∧
    ∀ x ∈ m.step.events, ∀ target, x.kind = .loopRepeated target →
      ∃ f rest, start.toldFrames k = f :: rest ∧ f.location = target ∧
        m.step.machine.frames = m.frames ∧ m.step.machine.source.position = (f.position, []) ∧
        m.step.machine.location = f.location := by
  intro e start m
  obtain ⟨c, hat, hcourse, hstacked, htold⟩ := ofText_stacked s text console k
  have hcontrol : ∀ f ∈ m.frames, ∃ l ∈ c.loops, e.frame l = f := by
    intro f hf
    rw [hat.frames] at hf
    exact List.mem_map.1 hf
  refine ⟨fun hlive => ⟨(htold hlive).symm, ?_, ?_, ?_, ?_, ?_⟩, fun x hx target hkind => ?_⟩
  · intro f hf
    rw [← htold hlive] at hf
    exact enteredAt_of_mem hf
  · rw [hat.frames, List.pairwise_map]
    apply hstacked.sorted.imp_of_mem
    intro l l' hl _ hlt
    exact e.position_strictMono hlt (hat.loops_le l hl)
  · intro f hf
    obtain ⟨l, hl, rfl⟩ := hcontrol f hf
    exact hat.source.position_le (hat.loops_le l hl) (hstacked.le_index l hl)
  · intro f hf
    obtain ⟨l, hl, rfl⟩ := hcontrol f hf
    obtain ⟨i, rfl, hop⟩ := hstacked.opened l hl
    obtain ⟨q, b, hq, hb, hindex, -⟩ := Decoding.exists_byte hop
    obtain rfl := Decoding.byte_of_ofByte? hb
    exact ⟨q, hq, by rw [Edition.note_eq hq hb, hindex]⟩
  · rw [hat.frames, List.length_map, ← e.count_loopStart]
    exact hstacked.length_le.trans ((List.take_sublist c.index e.operators).count_le _)
  · have hlive : m.halted = false := by
      by_contra hhalted
      have hfinished := hcourse.halted_finished (by simpa using hhalted)
      simp [m, start, step_finished hfinished] at hx
    obtain ⟨f, rest, hframes, hrepeated⟩ := hat.repeated hx hkind
    exact ⟨f, rest, (htold hlive).trans hframes, hrepeated⟩

end Machine

end Brainfuck
