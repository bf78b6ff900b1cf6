import Brainfuck.Proofs.Decoding.Brackets
import Brainfuck.Proofs.Decoding.Places
import Brainfuck.Proofs.Machine.Precompiled

/-! # Places of a run

However often a run goes back or skips ahead, the place of its source is the one that is counted in the
text before its position. So a remark is made at the place of what it is about, in every round of a
loop: of the byte that spells nothing, of the operator at which the pointer leaves the tape, of the
closing bracket without a loop, or of the end of the text where a loop has no end. -/
namespace Brainfuck

/-- What a remark made in carrying out an operator is about, on a tape of some length. It concerns the
place behind the operator, but a loop without an end is found out at the end of the text. -/
inductive Diagnostic.Concerns (here finish : Location) (length : Nat) : Operator → Diagnostic → Prop
  | overflow : Concerns here finish length .right ((Problem.wrapped .overflow length).diagnosticAt here)
  | underflow : Concerns here finish length .left ((Problem.wrapped .underflow length).diagnosticAt here)
  | unopened : Concerns here finish length .loopEnd (Problem.unopenedLoop.diagnosticAt here)
  | unclosed : Concerns here finish length .loopStart (Problem.unclosedLoop.diagnosticAt finish)

/-- A streaming source tells its offset, also at the end of its text. -/
lemma Edition.Holds.position_offset {e : Edition} {i : Nat} {s : Source} (h : e.Holds i s)
    (hp : e.precompile = false) : s.position = ((e.offset i : Int), []) := by
  cases h with
  | stream _ h => simp [Source.position, Reader.position, h.offset_eq, offset, bytes]
  | compiled hp' => simp [hp] at hp'

lemma Edition.not_mem_remarks (e : Edition) {i j : Nat} {d : Diagnostic} (h : d.isDecode = false) :
    d ∉ e.remarks i j := fun hd => by
  simp [isDecode_of_mem_remarks hd] at h

namespace Machine

variable {e : Edition} {c c' : Control} {m : Machine} {op : Operator} {i : Nat} {ls : List Nat}
  {d : Diagnostic}

/-- The remarks of carrying out an operator, other than those of the decoder, concern the place behind
the operator or the end of the text. -/
theorem Executes.concerns {o : Outcome Unit} (hx : Executes e m ⟨i + 1, ls⟩ op c' o)
    (hat : m.At e ⟨i + 1, ls⟩) (hd : d ∈ Event.remarks o.events) (hrun : d.isDecode = false) :
    d.Concerns (e.place (i + 1)) (e.place (e.operators.length + 1)) m.tape.length op := by
  have hhere : m.location = e.place (i + 1) := hat.location_eq
  have hdecode {j k : Nat} := e.not_mem_remarks (i := j) (j := k) hrun
  cases hx with
  | action _ a =>
    cases a with
    | right =>
      obtain ⟨w, hw, rfl⟩ := mem_remarks_walk hd
      rw [Tape.wrap_right hw, Tape.move_length, hhere]
      exact .overflow
    | left =>
      obtain ⟨w, hw, rfl⟩ := mem_remarks_walk hd
      rw [Tape.wrap_left hw, Tape.move_length, hhere]
      exact .underflow
    | increment | decrement | output | input => simp [Action.operator, execute] at hd
  | enter | leave | again => simp [event, Event.remark?] at hd
  | skip => simp [hdecode] at hd
  | halt _ _ _ hs =>
    have hloc : ((m.entered e (i + 1)).withSource _).location = _ := hs.location_eq
    simp [hdecode, problemEvent, event, Event.remark?, hloc] at hd
    subst hd
    exact .unclosed
  | stray =>
    simp [problemEvent, event, Event.remark?, hhere] at hd
    subst hd
    exact .unopened

/-- So do the remarks of a step, which are then made in carrying out the operator that it draws. -/
theorem Step.concerns {o : Outcome Bool} (hstep : Step e m c c' o) (hat : m.At e c)
    (hd : d ∈ Event.remarks o.events) (hrun : d.isDecode = false) :
    ∃ op, m.finished = false ∧ m.limitReached = false ∧ e.operators[c.index]? = some op ∧
      d.Concerns (e.place (c.index + 1)) (e.place (e.operators.length + 1)) m.tape.length op := by
  have hdecode {j k : Nat} := e.not_mem_remarks (i := j) (j := k) hrun
  cases hstep with
  | finished | limit => simp at hd
  | ended => simp [hdecode] at hd
  | done hf hl hop hs hx =>
    have hd' := by simpa [hdecode, event, Event.remark?] using hd
    exact ⟨_, hf, hl, hop, hx.concerns (hat.drawn hs _) hd' hrun⟩
  | fault hf hl hop hs hx =>
    have hd' := by simpa [hdecode] using hd
    exact ⟨_, hf, hl, hop, hx.concerns (hat.drawn hs _) hd' hrun⟩

/-- After any number of calls of a step, over a text that is not decoded in advance, the place of a
machine is the one that is counted before its position. The decoder remarks in the next step on the
bytes that it reads from there on, each at its own place, and every other remark of the step concerns
the operator that is drawn, at the place of its byte, or the end of the text. Decoded in advance, the
text gives rise to the same remarks on running. -/
theorem location_eq_counted (s : Settings) (text : Array UInt8) (console : List Char) (k : Nat) :
    let bytes := text.toList
    let start (precompile : Bool) := ofText { s with precompile := precompile } text console
    let m := (start false).afterCalls k
    ∃ p : Nat, m.source.position = ((p : Int), []) ∧ p ≤ bytes.length ∧
      m.location = Location.counted (bytes.take p) ∧
      (∃ q, p ≤ q ∧ q ≤ bytes.length ∧
        (Event.remarks m.step.events).filter (·.isDecode) =
          (List.range' p (q - p)).filterMap (Decoding.remarkAt? bytes)) ∧
      (∀ d ∈ Event.remarks m.step.events, d.isDecode = false →
        ∃ x events op q, m.fetch = ⟨x, events, .ok (some op)⟩ ∧ bytes[q]? = some op.byte ∧
          x.source.position = (((q + 1 : Nat) : Int), []) ∧
          d.Concerns (Location.counted (bytes.take (q + 1))) (Location.counted bytes) m.tape.length op) ∧
      (Event.remarks ((start true).afterCalls k).step.events).filter (!·.isDecode) =
        (Event.remarks m.step.events).filter (!·.isDecode) := by
  intro bytes start m
  let e := Edition.ofSettings { s with precompile := false } text
  let e' := Edition.ofSettings { s with precompile := true } text
  have hstart : (start false).Twins e e' {} (start true) := ⟨ofText_at .., ofText_at .., rfl⟩
  have hR : e.Twins (· = ·) e' := ⟨rfl, rfl, fun _ => rfl⟩
  obtain ⟨c, htwins, hcourse, -, -⟩ := hstart.afterCalls (ofText_course ..) hR k
  obtain ⟨c', hstep⟩ := htwins.left.step
  refine ⟨e.offset c.index, htwins.left.source.position_offset rfl, Decoding.offset_le_length .., ?_, ?_,
    ?_, ?_⟩
  · rw [htwins.left.location_eq]
    exact Decoding.place_eq ..
  · obtain ⟨j, hj, -, hremarks, -⟩ := hstep.decodeRemarks hcourse
    have hle : e.offset j ≤ bytes.length := Decoding.offset_le_length ..
    have hmono : e.offset c.index ≤ e.offset j := Decoding.offset_mono hj
    exact ⟨e.offset j, hmono, hle, hremarks.trans (Decoding.remarks_eq_filterMap hmono hle)⟩
  · intro d hd hrun
    obtain ⟨op, hf, hl, hop, hconcerns⟩ := hstep.concerns htwins.left hd hrun
    obtain ⟨src, hs, hfetch⟩ := htwins.left.fetch_some hf hl hop
    obtain ⟨q, b, hq, hb, -, hoffset⟩ := Decoding.exists_byte hop
    obtain rfl := Decoding.byte_of_ofByte? hb
    have hhere : e.place (c.index + 1) = Location.counted (bytes.take (q + 1)) := by
      rw [← hoffset]
      exact Decoding.place_eq ..
    have hend : e.place (e.operators.length + 1) = Location.counted bytes :=
      e.place_end.trans (Location.after_eq_counted bytes)
    refine ⟨_, _, op, q, hfetch, hq, ?_, ?_⟩
    · rw [← hoffset]
      exact hs.position_offset rfl
    · rwa [hhere, hend] at hconcerns
  · have hevents := (hstep.twins htwins hR).events
    rw [← Event.remarks_ofRunning, ← Event.remarks_ofRunning, hevents.ofRunning_eq]

end Machine

end Brainfuck
