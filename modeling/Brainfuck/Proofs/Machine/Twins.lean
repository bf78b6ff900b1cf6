import Mathlib.Data.List.Forall2
import Brainfuck.Proofs.Machine.Course

/-! # Twin runs

Two editions are twins when they have the same operators and the same way of skipping loops. What
happens in a run depends on nothing else: runs of twins that start alike go on alike, call by call, and
tell of the same events except for what decoding remarks on. Places may differ, as far as a relation
between them says. -/
namespace Brainfuck

/-- Kinds of events that tell of the same at related places. -/
inductive Event.Kind.Alike (R : Location → Location → Prop) : Event.Kind → Event.Kind → Prop
  | same (k : Event.Kind) : Alike R k k
  | repeated {l l' : Location} (h : R l l') : Alike R (.loopRepeated l) (.loopRepeated l')
  | problem (p : Problem) {l l' : Location} (h : R l l') :
    Alike R (.diagnostic (p.diagnosticAt l)) (.diagnostic (p.diagnosticAt l'))

/-- Events that tell of the same at related places. -/
structure Event.Alike (R : Location → Location → Prop) (x y : Event) : Prop where
  kind : x.kind.Alike R y.kind
  operator : x.operator = y.operator
  location : R x.location y.location
  pointer : x.pointer = y.pointer
  value : x.value = y.value

namespace Event

variable {R : Location → Location → Prop}

def isDecode (x : Event) : Bool := x.remark?.any (·.isDecode)

/-- The events of running, as opposed to what decoding remarks on. -/
def ofRunning (events : List Event) : List Event := events.filter (!·.isDecode)

@[simp] lemma ofRunning_append (xs ys : List Event) :
    ofRunning (xs ++ ys) = ofRunning xs ++ ofRunning ys := List.filter_append ..

lemma ofRunning_reports {ds : List Diagnostic} (m : Machine) (h : ∀ d ∈ ds, d.isDecode) :
    ofRunning (ds.map m.reportEvent) = [] := by
  simpa [ofRunning, isDecode, remark?, Machine.reportEvent, Machine.event] using h

@[simp] lemma ofRunning_remarks (m : Machine) (e : Edition) (i j : Nat) :
    ofRunning ((e.remarks i j).map m.reportEvent) = [] :=
  ofRunning_reports m fun _ => Edition.isDecode_of_mem_remarks

/-- Lists of events that tell of the same running. -/
def RunAlike (R : Location → Location → Prop) (xs ys : List Event) : Prop :=
  List.Forall₂ (Alike R) (ofRunning xs) (ofRunning ys)

lemma RunAlike.nil : RunAlike R [] [] := List.Forall₂.nil

lemma RunAlike.append {xs xs' ys ys' : List Event} (h : RunAlike R xs ys) (h' : RunAlike R xs' ys') :
    RunAlike R (xs ++ xs') (ys ++ ys') := by
  unfold RunAlike
  simpa using List.rel_append h h'

lemma RunAlike.remarks (m m' : Machine) (e e' : Edition) (i j i' j' : Nat) :
    RunAlike R ((e.remarks i j).map m.reportEvent) ((e'.remarks i' j').map m'.reportEvent) := by
  simp [RunAlike]

lemma RunAlike.single {x y : Event} (h : x.Alike R y) (hx : x.isDecode = false)
    (hy : y.isDecode = false) : RunAlike R [x] [y] := by
  simpa [RunAlike, ofRunning, hx, hy] using h

end Event

/-- Editions with the same operators and the same way of skipping loops. -/
structure Edition.Twins (R : Location → Location → Prop) (e e' : Edition) : Prop where
  operators : e'.operators = e.operators
  scan : e'.scan = e.scan
  place (i : Nat) : R (e.place i) (e'.place i)

/-- Machines of two editions that stand behind the same operators and differ only in where they draw
them from. -/
structure Machine.Twins (e e' : Edition) (c : Control) (m m' : Machine) : Prop where
  left : m.At e c
  right : m'.At e' c
  same : m' = { m with source := m'.source, frames := m'.frames }

/-- Operations with the same result that lead to twins and tell of the same. -/
structure Outcome.Twins {α : Type} (R : Location → Location → Prop) (e e' : Edition) (c : Control)
    (o o' : Outcome α) : Prop where
  machine : o.machine.Twins e e' c o'.machine
  events : Event.RunAlike R o.events o'.events
  result : o'.result = o.result

namespace Machine

variable {R : Location → Location → Prop} {e e' : Edition} {c c' : Control} {m m' : Machine}
  {s s' : Source} {op : Operator} {i l : Nat} {ls : List Nat} {k k' : Event.Kind}

lemma event_alike (h : m.Twins e e' c m') (hR : e.Twins R e') (hk : k.Alike R k')
    (op : Option Operator) : (m.event k op).Alike R (m'.event k' op) := by
  have hloc := hR.place c.index
  rw [← h.left.location_eq, ← h.right.location_eq] at hloc
  refine ⟨hk, rfl, hloc, ?_, ?_⟩ <;> (rw [h.same]; rfl)

/-- Twins stay twins when both are changed alike, and neither in where it draws operators from. -/
lemma Twins.change (h : m.Twins e e' c m') {x x' : Machine} (hsource : x.source = m.source)
    (hframes : x.frames = m.frames) (hscan : x.skipScan = m.skipScan)
    (hx : x' = { x with source := m'.source, frames := m'.frames }) : x.Twins e e' c x' := by
  subst hx
  have hscan' : m'.skipScan = m.skipScan := by rw [h.same]
  exact ⟨⟨hsource ▸ h.left.source, hframes ▸ h.left.frames, hscan ▸ h.left.scan, h.left.loops_le⟩,
    ⟨h.right.source, h.right.frames, hscan.trans (hscan' ▸ h.right.scan), h.right.loops_le⟩, rfl⟩

lemma problemEvent_alike (h : m.Twins e e' c m') (hR : e.Twins R e') {p : Problem}
    (hp : p.category ≠ .decode) : Event.RunAlike R [m.problemEvent p] [m'.problemEvent p] := by
  have hloc := hR.place c.index
  rw [← h.left.location_eq, ← h.right.location_eq] at hloc
  have hcurrent : m'.current = m.current := by rw [h.same]
  have hdecode (m : Machine) : (m.problemEvent p).isDecode = false := by
    simpa [problemEvent, event, Event.isDecode, Event.remark?, Diagnostic.isDecode,
      Problem.diagnosticAt] using hp
  refine .single ?_ (hdecode m) (hdecode m')
  rw [problemEvent, problemEvent, hcurrent]
  exact event_alike h hR (.problem p hloc) m.current

lemma walk_twins (h : m.Twins e e' c m') (hR : e.Twins R e') (d : Int) :
    (m.walk d).Twins R e e' c (m'.walk d) := by
  have htape : m'.tape = m.tape := by rw [h.same]
  unfold walk
  rw [htape]
  rcases m.tape.move d with ⟨tape, wrap⟩
  have hmoved : (m.withTape tape).Twins e e' c (m'.withTape tape) :=
    h.change rfl rfl rfl (by rw [h.same]; rfl)
  cases wrap with
  | none => exact ⟨hmoved, .nil, rfl⟩
  | some w => exact ⟨hmoved, problemEvent_alike hmoved hR (by simp [Problem.category]), rfl⟩

lemma add_twins (h : m.Twins e e' c m') (d : Int) : (m.add d).Twins R e e' c (m'.add d) := by
  have htape : m'.tape = m.tape := by rw [h.same]
  unfold add
  rw [htape]
  cases m.tape.adjust d with
  | ok tape => exact ⟨h.change rfl rfl rfl (by rw [h.same]; rfl), .nil, rfl⟩
  | error f => exact ⟨h, .nil, rfl⟩

lemma write_twins (h : m.Twins e e' c m') (hR : e.Twins R e') :
    m.write.Twins R e e' c m'.write := by
  have hcode : m'.tape.read = m.tape.read := by rw [h.same]
  unfold write
  simp only [hcode]
  split
  · have hwritten : Twins e e' c { m with output := m.output.push m.tape.read }
        { m' with output := m'.output.push m.tape.read } :=
      h.change rfl rfl rfl (by rw [h.same])
    exact ⟨hwritten, .single (event_alike hwritten hR (.same _) _) rfl rfl, rfl⟩
  · exact ⟨h, .nil, rfl⟩

lemma read_twins (h : m.Twins e e' c m') : m.read.Twins R e e' c m'.read := by
  have hwrite (v : Int) : m'.tape.write v = m.tape.write v := by rw [h.same]
  have hread : readConsole m'.lineInput m'.console = readConsole m.lineInput m.console := by
    rw [h.same]
  unfold read
  simp only [hread, hwrite]
  rcases readConsole m.lineInput m.console with ⟨char, rest⟩
  have hrest : Twins e e' c { m with console := rest } { m' with console := rest } :=
    h.change rfl rfl rfl (by rw [h.same])
  cases char with
  | none => exact ⟨hrest, .nil, rfl⟩
  | some x =>
    dsimp only
    cases m.tape.write x.toNat with
    | ok tape => exact ⟨hrest.change rfl rfl rfl (by rw [h.same]; rfl), .nil, rfl⟩
    | error f => exact ⟨hrest, .nil, rfl⟩

/-- An action does not look at where its machine draws operators from. -/
theorem execute_action_twins (h : m.Twins e e' c m') (hR : e.Twins R e') (a : Action) :
    (m.execute a.operator).Twins R e e' c (m'.execute a.operator) := by
  cases a with
  | right => exact walk_twins h hR 1
  | left => exact walk_twins h hR (-1)
  | increment => exact add_twins h 1
  | decrement => exact add_twins h (-1)
  | output => exact write_twins h hR
  | input => exact read_twins h

lemma Twins.enter (h : m.Twins e e' ⟨i, ls⟩ m') (hR : e.Twins R e') (hi : i ≤ e.operators.length) :
    (m.entered e i).Twins e e' ⟨i, i :: ls⟩ (m'.entered e' i) :=
  ⟨h.left.enter hi, h.right.enter (hR.operators ▸ hi), by rw [h.same]; rfl⟩

lemma Twins.leave (h : m.Twins e e' ⟨i, l :: ls⟩ m') :
    (m.outside e ls).Twins e e' ⟨i, ls⟩ (m'.outside e' ls) :=
  ⟨h.left.leave, h.right.leave, by rw [h.same]; rfl⟩

lemma Twins.moved (h : m.Twins e e' c m') {j : Nat} (hs : e.Holds j s) (hs' : e'.Holds j s') :
    (m.withSource s).Twins e e' ⟨j, c.loops⟩ (m'.withSource s') :=
  ⟨h.left.moved hs, h.right.moved hs', by rw [h.same]; rfl⟩

lemma skipEvents_alike (h : m.Twins e e' ⟨i, ls⟩ m') (hR : e.Twins R e')
    (hi : i ≤ e.operators.length) : Event.RunAlike R (m.skipEvents e i) (m'.skipEvents e' i) :=
  (Event.RunAlike.single (event_alike (h.enter hR hi) hR (.same _) _) rfl rfl).append
    (.remarks ..)

/-- Twins carry out an operator alike. -/
theorem Executes.twins {o : Outcome Unit} (hx : Executes e m ⟨i + 1, ls⟩ op c' o)
    (h : m.Twins e e' ⟨i + 1, ls⟩ m') (hR : e.Twins R e') :
    o.Twins R e e' c' (m'.execute op) := by
  have hvalue : m'.tape.read = m.tape.read := by rw [h.same]
  cases hx with
  | action _ a => exact execute_action_twins h hR a
  | enter hop hv =>
    have hi := (List.getElem?_eq_some_iff.1 hop).1
    have hentered := h.enter hR hi
    rw [execute, h.right.startLoop_enter (hR.operators ▸ hi) (hvalue ▸ hv)]
    exact ⟨hentered, .single (event_alike hentered hR (.same _) _) rfl rfl, rfl⟩
  | skip hop hv hk hs =>
    rw [← hR.operators, ← hR.scan] at hk
    obtain ⟨s', hs', hrun⟩ := h.right.startLoop_skip (hR.operators ▸ hop) (hvalue ▸ hv) hk
    rw [execute, hrun]
    exact ⟨h.moved hs hs', skipEvents_alike h hR (List.getElem?_eq_some_iff.1 hop).1, rfl⟩
  | halt hop hv hk hs =>
    have hi := (List.getElem?_eq_some_iff.1 hop).1
    rw [← hR.operators, ← hR.scan] at hk
    obtain ⟨s', hs', hrun⟩ := h.right.startLoop_halt (hR.operators ▸ hop) (hvalue ▸ hv) hk
    rw [hR.operators] at hs'
    have hskipped := (h.enter hR hi).moved hs hs'
    rw [execute, hrun]
    refine ⟨⟨?_, ?_, ?_⟩, (skipEvents_alike h hR hi).append
      (problemEvent_alike hskipped hR (by simp [Problem.category])), rfl⟩
    · exact ⟨hskipped.left.source, hskipped.left.frames, hskipped.left.scan, hskipped.left.loops_le⟩
    · exact ⟨hskipped.right.source, hskipped.right.frames, hskipped.right.scan, hskipped.right.loops_le⟩
    · rw [h.same]
      rfl
  | stray =>
    rw [execute, h.right.endLoop_stray]
    exact ⟨h, problemEvent_alike h hR (by simp [Problem.category]), rfl⟩
  | leave _ hv =>
    rw [execute, h.right.endLoop_leave (hvalue ▸ hv)]
    exact ⟨h.leave, .single (event_alike h.leave hR (.same _) _) rfl rfl, rfl⟩
  | again _ hv hs =>
    obtain ⟨s', hs', hrun⟩ := h.right.endLoop_repeat (hvalue ▸ hv)
    have hback := h.moved hs hs'
    rw [execute, hrun]
    exact ⟨hback, .single (event_alike hback hR (.repeated (hR.place _)) _) rfl rfl, rfl⟩

lemma Twins.draw (h : m.Twins e e' c m') (hs : e.Holds (c.index + 1) s)
    (hs' : e'.Holds (c.index + 1) s') :
    (m.drawn s op).Twins e e' { c with index := c.index + 1 } (m'.drawn s' op) :=
  ⟨h.left.drawn hs op, h.right.drawn hs' op, by rw [h.same]; rfl⟩

lemma drawEvents_alike (h : (m.drawn s op).Twins e e' c (m'.drawn s' op)) (hR : e.Twins R e')
    (i i' : Nat) : Event.RunAlike R (m.drawEvents e i s op) (m'.drawEvents e' i' s' op) :=
  (Event.RunAlike.remarks ..).append (.single (event_alike h hR (.same _) _) rfl rfl)

/-- Twins take a step alike. -/
theorem Step.twins {o : Outcome Bool} (hstep : Step e m c c' o) (h : m.Twins e e' c m')
    (hR : e.Twins R e') : o.Twins R e e' c' m'.step := by
  have hfinished : m'.finished = m.finished := by rw [h.same]
  have hlimit : m'.limitReached = m.limitReached := by rw [h.same]; rfl
  cases hstep with
  | finished hf =>
    rw [step_of_none (fetch_finished (hfinished.trans hf))]
    exact ⟨h, .nil, rfl⟩
  | limit hf hl =>
    rw [step_of_none (fetch_limit (hfinished.trans hf) (hlimit.trans hl))]
    exact ⟨h.change rfl rfl rfl (by rw [h.same]), .nil, rfl⟩
  | ended hf hl hop hs =>
    obtain ⟨s', hs', hfetch⟩ :=
      h.right.fetch_none (hfinished.trans hf) (hlimit.trans hl) (hR.operators ▸ hop)
    rw [step_of_none hfetch]
    exact ⟨(h.moved hs hs').change rfl rfl rfl (by rw [h.same]; rfl), .remarks .., rfl⟩
  | @done _ s op x _ hf hl hop hs hx =>
    obtain ⟨s', hs', hfetch⟩ :=
      h.right.fetch_some (hfinished.trans hf) (hlimit.trans hl) (hR.operators ▸ hop)
    have hdrawn : (m.drawn s op).Twins e e' _ (m'.drawn s' op) := h.draw hs hs'
    have htwins := hx.twins hdrawn hR
    rcases ho : (m'.drawn s' op).execute op with ⟨x', events', result⟩
    rw [ho] at htwins
    obtain rfl : result = .ok () := htwins.result
    have hsame : x' = { x with source := x'.source, frames := x'.frames } := htwins.machine.same
    have hhalted : x'.halted = x.halted := by rw [hsame]
    have hcounted : x.counted.Twins e e' c' x'.counted :=
      htwins.machine.change rfl rfl rfl (by simp only [counted]; rw [hsame])
    rw [step_of_ok hfetch ho, hhalted]
    exact ⟨hcounted, (drawEvents_alike hdrawn hR ..).append (htwins.events.append
      (.single (event_alike hcounted hR (.same _) _) rfl rfl)), rfl⟩
  | @fault _ s op x _ f hf hl hop hs hx =>
    obtain ⟨s', hs', hfetch⟩ :=
      h.right.fetch_some (hfinished.trans hf) (hlimit.trans hl) (hR.operators ▸ hop)
    have hdrawn : (m.drawn s op).Twins e e' _ (m'.drawn s' op) := h.draw hs hs'
    have htwins := hx.twins hdrawn hR
    rcases ho : (m'.drawn s' op).execute op with ⟨x', events', result⟩
    rw [ho] at htwins
    obtain rfl : result = .error f := htwins.result
    rw [step_of_error hfetch ho]
    exact ⟨htwins.machine, (drawEvents_alike hdrawn hR ..).append htwins.events, rfl⟩

/-- Twins go on alike after every number of calls. -/
theorem Twins.afterCalls (h : m.Twins e e' c m') (hcourse : m.Course e c) (hR : e.Twins R e')
    (k : Nat) :
    ∃ c', (m.afterCalls k).Twins e e' c' (m'.afterCalls k) ∧ (m.afterCalls k).Course e c' ∧
      Event.RunAlike R (m.callEvents k) (m'.callEvents k) ∧
      (m'.afterCalls k).step.result = (m.afterCalls k).step.result := by
  suffices ∃ c', (m.afterCalls k).Twins e e' c' (m'.afterCalls k) ∧ (m.afterCalls k).Course e c' ∧
      Event.RunAlike R (m.callEvents k) (m'.callEvents k) by
    obtain ⟨c', htwins, hcourse, hevents⟩ := this
    obtain ⟨c'', hstep⟩ := htwins.left.step
    exact ⟨c', htwins, hcourse, hevents, (hstep.twins htwins hR).result⟩
  induction k with
  | zero => exact ⟨c, h, hcourse, .nil⟩
  | succ k ih =>
    obtain ⟨c', htwins, hcourse, hevents⟩ := ih
    obtain ⟨c'', hstep⟩ := htwins.left.step
    have hnext := hstep.twins htwins hR
    exact ⟨c'', hnext.machine, hcourse.step htwins.left hstep, hevents.append hnext.events⟩

end Machine

end Brainfuck
