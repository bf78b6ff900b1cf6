import Brainfuck.Proofs.Decoding.Repeats
import Brainfuck.Proofs.Machine.Remarks
import Brainfuck.Proofs.Machine.Twins

/-! # Decoding in advance

A run over a text and one over its listing are twin runs at the same places, so they differ in nothing
but what a position is and when the decoder makes its remarks. A run over a text first reads every byte
in order, and whatever it decodes again has been remarked on before. -/
namespace Brainfuck

/-- The remarks of the decoder among the events. -/
def Event.decodeRemarks (events : List Event) : List Diagnostic :=
  (Event.remarks events).filter (·.isDecode)

namespace Event

@[simp] lemma decodeRemarks_append (xs ys : List Event) :
    decodeRemarks (xs ++ ys) = decodeRemarks xs ++ decodeRemarks ys := by
  simp [decodeRemarks]

lemma decodeRemarks_eq_nil {events : List Event} (h : ∀ d ∈ remarks events, d.category ≠ .decode) :
    decodeRemarks events = [] := by
  simpa [decodeRemarks, Diagnostic.isDecode] using h

/-- The events of running carry the remarks that are not the decoder's. -/
lemma remarks_ofRunning (events : List Event) :
    remarks (ofRunning events) = (remarks events).filter (!·.isDecode) := by
  induction events with
  | nil => rfl
  | cons x events ih =>
    cases hx : x.remark? with
    | none => simp [ofRunning, remarks, isDecode, hx] at ih ⊢; exact ih
    | some d => cases hd : d.isDecode <;> simp_all [ofRunning, remarks, isDecode]

lemma Kind.eq_of_alike {k k' : Kind} (h : k.Alike (· = ·) k') : k = k' := by
  cases h with
  | same => rfl
  | repeated h => rw [h]
  | problem p h => rw [h]

lemma eq_of_alike {x y : Event} (h : x.Alike (· = ·) y) : x = y := by
  obtain ⟨hkind, hop, hloc, hpointer, hvalue⟩ := h
  replace hkind := Kind.eq_of_alike hkind
  cases x
  cases y
  simp_all

/-- Running that is told of alike at the same places is told of in the same way. -/
lemma RunAlike.ofRunning_eq {xs ys : List Event} (h : RunAlike (· = ·) xs ys) :
    ofRunning ys = ofRunning xs := by
  have := List.Forall₂.imp (fun _ _ => eq_of_alike) h
  rw [List.forall₂_eq_eq_eq] at this
  exact this.symm

end Event

namespace Machine

variable {e : Edition} {c c' : Control} {m : Machine} {op : Operator} {i h : Nat} {ls : List Nat}
  {events : List Event}

@[simp] lemma decodeRemarks_drawEvents {s : Source} :
    Event.decodeRemarks (m.drawEvents e i s op) = e.remarks i (i + 1) := by
  rw [Event.decodeRemarks, remarks_drawEvents, List.filter_eq_self]
  exact fun _ => Edition.isDecode_of_mem_remarks

@[simp] lemma decodeRemarks_skipEvents :
    Event.decodeRemarks (m.skipEvents e i) = e.remarks i (e.loopEnd i) := by
  rw [Event.decodeRemarks, remarks_skipEvents, List.filter_eq_self]
  exact fun _ => Edition.isDecode_of_mem_remarks

/-- Carrying out an operator decodes from behind it on, as far as to where a loop is left that is
skipped. Where it leads has been decoded then, or is where a loop starts that the run is inside of. -/
theorem Executes.decodeRemarks {o : Outcome Unit} (hx : Executes e m ⟨i + 1, ls⟩ op c' o)
    (hi : i < e.operators.length) :
    ∃ j, i + 1 ≤ j ∧ j ≤ e.operators.length + 1 ∧
      Event.decodeRemarks o.events = e.remarks (i + 1) j ∧
      (c'.index ≤ j ∨ c'.index ∈ ls) ∧ ∀ l ∈ c'.loops, l ≤ j ∨ l ∈ ls := by
  have hkeep (j : Nat) : ∀ l ∈ ls, l ≤ j ∨ l ∈ ls := fun l hl => .inr hl
  have hhere {events : List Event} (h : ∀ d ∈ Event.remarks events, d.category ≠ .decode) :
      Event.decodeRemarks events = e.remarks (i + 1) (i + 1) := by
    rw [Edition.remarks_self, Event.decodeRemarks_eq_nil h]
  cases hx with
  | action _ a =>
    refine ⟨i + 1, Nat.le_refl _, by omega, hhere fun d hd => ?_, .inl (Nat.le_refl _), hkeep _⟩
    simp [remarks_action m a d hd]
  | enter =>
    exact ⟨i + 1, Nat.le_refl _, by omega, hhere (by simp [event, Event.remark?]),
      .inl (Nat.le_refl _), List.forall_mem_cons.2 ⟨.inl (Nat.le_refl _), hkeep _⟩⟩
  | @skip _ k _ _ _ _ hk =>
    have hend : e.loopEnd (i + 1) = k := by simp [Edition.loopEnd, hk]
    have := Brackets.skipEnd_bounds hk
    exact ⟨k, by omega, by omega, by rw [decodeRemarks_skipEvents, hend], .inl (Nat.le_refl _), hkeep _⟩
  | halt _ _ hk =>
    have hend : e.loopEnd (i + 1) = e.operators.length + 1 := by simp [Edition.loopEnd, hk]
    refine ⟨e.operators.length + 1, by omega, Nat.le_refl _, ?_, .inl (Nat.le_refl _),
      List.forall_mem_cons.2 ⟨.inl (by omega), hkeep _⟩⟩
    rw [Event.decodeRemarks_append, decodeRemarks_skipEvents, hend, Event.decodeRemarks_eq_nil,
      List.append_nil]
    simp [problemEvent, event, Event.remark?, Problem.diagnosticAt, Problem.category]
  | stray =>
    refine ⟨i + 1, Nat.le_refl _, by omega, hhere ?_, .inl (Nat.le_refl _), hkeep _⟩
    simp [problemEvent, event, Event.remark?, Problem.diagnosticAt, Problem.category]
  | leave =>
    exact ⟨i + 1, Nat.le_refl _, by omega, hhere (by simp [event, Event.remark?]),
      .inl (Nat.le_refl _), fun l hl => .inr (.tail _ hl)⟩
  | again =>
    exact ⟨i + 1, Nat.le_refl _, by omega, hhere (by simp [event, Event.remark?]),
      .inr (.head _), hkeep _⟩

/-- Up to where a text has been decoded, with the remarks on the way there. -/
def Decoded (e : Edition) (c : Control) (events : List Event) : Prop :=
  ∃ h, c.index ≤ h ∧ (∀ l ∈ c.loops, l ≤ h) ∧ h ≤ e.operators.length + 1 ∧
    (Event.decodeRemarks events).eraseDups = e.remarks 0 h

/-- Decoding goes on from behind an operator to where the run has come. -/
lemma Decoded.extend (hd : Decoded e c events) {more : List Event} {j : Nat} (hj : c.index ≤ j)
    (hle : j ≤ e.operators.length + 1) (hmore : Event.decodeRemarks more = e.remarks c.index j)
    (hindex : c'.index ≤ j ∨ c'.index ∈ c.loops) (hloops : ∀ l ∈ c'.loops, l ≤ j ∨ l ∈ c.loops) :
    Decoded e c' (events ++ more) := by
  obtain ⟨h, hch, hlh, hhle, hremarks⟩ := hd
  have hmax {l : Nat} (hl : l ≤ j ∨ l ∈ c.loops) : l ≤ max h j :=
    hl.elim (fun hl => by omega) fun hl => by have := hlh l hl; omega
  refine ⟨max h j, hmax hindex, fun l hl => hmax (hloops l hl), by omega, ?_⟩
  rw [Event.decodeRemarks_append, hmore]
  exact e.eraseDups_remarks hremarks hch hj

/-- A step decodes from its place on, and leads to where that has come, or to where a loop starts that
the run is inside of. -/
theorem Step.decodeRemarks {o : Outcome Bool} (hstep : Step e m c c' o) (hcourse : m.Course e c) :
    ∃ j, c.index ≤ j ∧ j ≤ e.operators.length + 1 ∧
      Event.decodeRemarks o.events = e.remarks c.index j ∧
      (c'.index ≤ j ∨ c'.index ∈ c.loops) ∧ ∀ l ∈ c'.loops, l ≤ j ∨ l ∈ c.loops := by
  cases hstep with
  | finished | limit =>
    exact ⟨c.index, Nat.le_refl _, hcourse.index_le, by simp [Event.decodeRemarks],
      .inl (Nat.le_refl _), fun l hl => .inr hl⟩
  | ended hf _ hop =>
    have hle := hcourse.live (.inl hf)
    refine ⟨c.index + 1, Nat.le_succ _, by omega, ?_, .inl (Nat.le_refl _), fun l hl => .inr hl⟩
    rw [Event.decodeRemarks, Event.remarks_reports, List.filter_eq_self]
    exact fun _ => Edition.isDecode_of_mem_remarks
  | done _ _ hop _ hx =>
    obtain ⟨j, hij, hj, hmore, hindex, hloops⟩ :=
      hx.decodeRemarks (List.getElem?_eq_some_iff.1 hop).1
    refine ⟨j, by omega, hj, ?_, hindex, hloops⟩
    have happlied (x : Machine) (op : Operator) :
        Event.decodeRemarks [x.event .applied (some op)] = [] := rfl
    simp only at hmore
    simp [hmore, happlied, Edition.remarks_append (Nat.le_succ c.index) hij]
  | fault _ _ hop _ hx =>
    obtain ⟨j, hij, hj, hmore, hindex, hloops⟩ :=
      hx.decodeRemarks (List.getElem?_eq_some_iff.1 hop).1
    refine ⟨j, by omega, hj, ?_, hindex, hloops⟩
    simp only at hmore
    simp [hmore, Edition.remarks_append (Nat.le_succ c.index) hij]

theorem Decoded.step {o : Outcome Bool} (hd : Decoded e c events) (hcourse : m.Course e c)
    (hstep : Step e m c c' o) : Decoded e c' (events ++ o.events) := by
  obtain ⟨j, hj, hle, hmore, hindex, hloops⟩ := hstep.decodeRemarks hcourse
  exact hd.extend hj hle hmore hindex hloops

theorem ofText_decoded (s : Settings) (text : Array UInt8) (console : List Char) (k : Nat) :
    ∃ c, ((ofText s text console).afterCalls k).Course (.ofSettings s text) c ∧
      Decoded (.ofSettings s text) c ((ofText s text console).callEvents k) := by
  obtain ⟨c, -, hcourse, hdecoded⟩ := (ofText_at s text console).afterCalls_induction
    (P := fun c m events => m.Course (.ofSettings s text) c ∧ Decoded (.ofSettings s text) c events)
    ⟨ofText_course s text console, 0, by simp [Event.decodeRemarks]⟩
    (fun hat ⟨hcourse, hdecoded⟩ hstep =>
      ⟨hcourse.step hat hstep, hdecoded.step hcourse hstep⟩) k
  exact ⟨c, hcourse, hdecoded⟩

/-- Machines in the same state, one over a text and one over its listing. The frames and, unless the
end of the program is met, the position are behind so many operators, which the one tells by the offset
just behind them in the text and the other by their number. -/
structure SameState (bytes : List UInt8) (m m' : Machine) : Prop where
  tape : m'.tape = m.tape
  console : m'.console = m.console
  output : m'.output = m.output
  current : m'.current = m.current
  steps : m'.steps = m.steps
  halted : m'.halted = m.halted
  finished : m'.finished = m.finished
  hitStepLimit : m'.hitStepLimit = m.hitStepLimit
  location : m'.location = m.location
  frames : ∃ loops : List (Nat × Location),
    (∀ x ∈ loops, x.1 ≤ (Decoding.operators bytes).length) ∧
    m.frames = loops.map (fun x => ⟨Decoding.offset bytes x.1, x.2⟩) ∧
    m'.frames = loops.map (fun x => ⟨x.1, x.2⟩)
  position : m.finished = false ∨ m.hitStepLimit = true →
    ∃ i, i ≤ (Decoding.operators bytes).length ∧
      m.source.position = ((Decoding.offset bytes i : Int), []) ∧
      m'.source.position = ((i : Int), [])

theorem Twins.sameState {e' : Edition} {m' : Machine} (h : m.Twins e e' c m')
    (htext : e'.text = e.text) (hp : e.precompile = false) (hp' : e'.precompile = true)
    (hcourse : m.Course e c) : SameState e.bytes m m' := by
  have hplace (i : Nat) : e'.place i = e.place i := by
    simp [Edition.place, Edition.bytes, htext]
  have hops : e'.operators = e.operators := by
    simp [Edition.operators, Edition.bytes, htext]
  have hlocation : m'.location = m.location := by
    rw [h.left.location_eq, h.right.location_eq, hplace]
  have hframes : ∃ loops : List (Nat × Location),
      (∀ x ∈ loops, x.1 ≤ (Decoding.operators e.bytes).length) ∧
      m.frames = loops.map (fun x => ⟨Decoding.offset e.bytes x.1, x.2⟩) ∧
      m'.frames = loops.map (fun x => ⟨x.1, x.2⟩) := by
    refine ⟨c.loops.map fun l => (l, e.place l), ?_, ?_, ?_⟩
    · exact List.forall_mem_map.2 h.left.loops_le
    · rw [h.left.frames, List.map_map]
      exact List.map_congr_left fun l _ => by
        simp [Edition.frame, Edition.position_stream hp, Edition.offset]
    · rw [h.right.frames, List.map_map]
      exact List.map_congr_left fun l _ => by
        simp [Edition.frame, Edition.position_compiled hp', hplace]
  have hposition (hmet : m.finished = false ∨ m.hitStepLimit = true) :
      ∃ i, i ≤ (Decoding.operators e.bytes).length ∧
        m.source.position = ((Decoding.offset e.bytes i : Int), []) ∧
        m'.source.position = ((i : Int), []) := by
    have hle := hcourse.live hmet
    refine ⟨c.index, hle, ?_, ?_⟩
    · rw [h.left.source.position_eq hle, Edition.position_stream hp]
      rfl
    · rw [h.right.source.position_eq (hops ▸ hle), Edition.position_compiled hp']
  rw [h.same] at hlocation hframes hposition ⊢
  exact ⟨rfl, rfl, rfl, rfl, rfl, rfl, rfl, rfl, hlocation, hframes, hposition⟩

/-- The whole text is decoded in advance, and nothing is left for the run to remark on. -/
theorem ofText_decodeRemarks_compiled (s : Settings) (text : Array UInt8) (console : List Char)
    (hp : s.precompile = true) (k : Nat) :
    ((Source.ofText s text).2 ++ Event.remarks ((ofText s text console).callEvents k)).filter
      (·.isDecode) = Decoding.remarks text.toList 0 text.toList.length := by
  obtain ⟨_, -, _, -, -, -, hremarks⟩ := ofText_decoded s text console k
  have hload : (Source.ofText s text).2.filter (·.isDecode) = (Source.ofText s text).2 :=
    List.filter_eq_self.2 fun d hd => Edition.isDecode_of_mem_reports hd
  have hevents : Event.decodeRemarks ((ofText s text console).callEvents k) = [] :=
    eq_nil_of_eraseDups (hremarks.trans (if_pos hp))
  rw [List.filter_append, hload, Edition.ofText_reports, if_pos hp]
  exact (congrArg _ hevents).trans (List.append_nil _)

/-- Without its repeats, what decoding remarks on in a run over a text is what there is to remark on up
to some place, and at the end of the program all of it. -/
theorem ofText_decodeRemarks_stream (s : Settings) (text : Array UInt8) (console : List Char)
    (hp : s.precompile = false) (k : Nat) :
    let m := (ofText s text console).afterCalls k
    let ds := ((Source.ofText s text).2 ++
      Event.remarks ((ofText s text console).callEvents k)).filter (·.isDecode)
    ds.eraseDups <+: Decoding.remarks text.toList 0 text.toList.length ∧
      (m.finished = true → m.hitStepLimit = false →
        ds.eraseDups = Decoding.remarks text.toList 0 text.toList.length) := by
  intro m ds
  obtain ⟨c, hcourse, h, hindex, -, hle, hremarks⟩ := ofText_decoded s text console k
  have hload : (Source.ofText s text).2 = [] :=
    (Edition.ofText_reports s text).trans (if_neg (by simp [hp]))
  have hds : ds.eraseDups = (Edition.ofSettings s text).remarks 0 h := by
    simp only [ds, hload, List.nil_append]
    exact hremarks
  have hall : (Edition.ofSettings s text).remarks 0 ((Edition.ofSettings s text).operators.length + 1) =
      Decoding.remarks text.toList 0 text.toList.length := Edition.remarks_all hp
  refine ⟨?_, fun hf hl => ?_⟩
  · rw [hds]
    rw [← hall, ← Edition.remarks_append (Nat.zero_le h) hle]
    exact List.prefix_append ..
  · have hend : h = (Edition.ofSettings s text).operators.length + 1 :=
      Nat.le_antisymm hle (hcourse.ended hf hl ▸ hindex)
    rw [hds, hend]
    exact hall

/-- Decoding a program in advance changes nothing but when the decoder makes its remarks. After any
number of calls of a step, a machine over a text and one over its listing are in the same state, their
next step has the same result, and the same has been told and remarked on in their running. The
remarks of the decoder on the text, without their repeats, are the first of those on the listing, and
all of them when the end of the program is met. -/
theorem precompiled_agrees (s : Settings) (text : Array UInt8) (console : List Char) (k : Nat) :
    let start (precompile : Bool) := ofText { s with precompile := precompile } text console
    let remarks (precompile : Bool) := (Source.ofText { s with precompile := precompile } text).2 ++
      Event.remarks ((start precompile).callEvents k)
    let m := (start false).afterCalls k
    let m' := (start true).afterCalls k
    SameState text.toList m m' ∧ m'.step.result = m.step.result ∧
    Event.ofRunning ((start true).callEvents k) = Event.ofRunning ((start false).callEvents k) ∧
    (remarks true).filter (!·.isDecode) = (remarks false).filter (!·.isDecode) ∧
    ((remarks false).filter (·.isDecode)).eraseDups <+: (remarks true).filter (·.isDecode) ∧
    (m.finished = true → m.hitStepLimit = false →
      ((remarks false).filter (·.isDecode)).eraseDups = (remarks true).filter (·.isDecode)) := by
  intro start remarks m m'
  let edition (precompile : Bool) := Edition.ofSettings { s with precompile := precompile } text
  have hstart : (start false).Twins (edition false) (edition true) {} (start true) :=
    ⟨ofText_at { s with precompile := false } text console,
      ofText_at { s with precompile := true } text console, rfl⟩
  have hR : (edition false).Twins (· = ·) (edition true) := ⟨rfl, rfl, fun _ => rfl⟩
  obtain ⟨c, htwins, hcourse, hevents, hresult⟩ :=
    hstart.afterCalls (ofText_course { s with precompile := false } text console) hR k
  have hrunning := hevents.ofRunning_eq
  have hload (precompile : Bool) :
      (Source.ofText { s with precompile := precompile } text).2.filter (!·.isDecode) = [] := by
    simpa using fun d hd => Edition.isDecode_of_mem_reports hd
  have hrest := congrArg Event.remarks hrunning
  rw [Event.remarks_ofRunning, Event.remarks_ofRunning] at hrest
  have hlisting : (remarks true).filter (·.isDecode) = _ :=
    ofText_decodeRemarks_compiled { s with precompile := true } text console rfl k
  have hstream := ofText_decodeRemarks_stream { s with precompile := false } text console rfl k
  refine ⟨htwins.sameState rfl rfl rfl hcourse, hresult, hrunning, ?_, ?_, ?_⟩
  · simpa [remarks, hload] using hrest
  · rw [hlisting]
    exact hstream.1
  · exact fun hf hl => (hstream.2 hf hl).trans hlisting.symm

end Machine

end Brainfuck
