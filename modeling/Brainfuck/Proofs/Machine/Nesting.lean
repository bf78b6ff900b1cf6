import Brainfuck.Proofs.Decoding.Brackets
import Brainfuck.Proofs.Machine.Course

/-! # Run-time nesting

In the nested reading the loops that a run is inside of are the ones that are open at its index in the
text, whatever way it took to get there. A loop that is skipped ends at its partner, and a loop that is
repeated is the innermost one, so that jumps in both directions keep to the static nesting. -/
namespace Brainfuck

open Brackets

namespace Machine

variable {e : Edition} {c c' : Control} {m : Machine} {op : Operator} {i : Nat} {ls : List Nat}

/-- Carrying out an operator moves from the loops before its byte to the loops behind it, and a jump
moves between places where the same loops are open. -/
theorem Executes.loops_eq {o : Outcome Unit} (hx : Executes e m ⟨i + 1, ls⟩ op c' o)
    (hscan : e.scan = .nested) (hop : e.operators[i]? = some op) (hls : ls = openLoops e.operators i)
    (hlive : o.machine.halted = false) : c'.loops = openLoops e.operators c'.index := by
  cases hx with
  | action _ a => rw [openLoops_action hop, hls]
  | enter => rw [openLoops_open hop, hls]
  | skip _ _ hk =>
    obtain ⟨j, rfl, hpartners⟩ := partners_of_skipEnd hop (hscan ▸ hk)
    rw [(openLoops_of_partners hpartners).2, hls]
  | halt => simp at hlive
  | stray => rw [openLoops_close hop, ← hls, List.tail_nil]
  | leave => rw [openLoops_close hop, ← hls, List.tail_cons]
  | again => exact (openLoops_of_cons hls.symm).2.2.symm

/-- The loops of a machine are the ones that are open in the text. A machine that halts keeps the note
of the loop that it could not skip. -/
def Nested (e : Edition) (c : Control) (m : Machine) : Prop :=
  m.halted = false → c.loops = openLoops e.operators c.index

theorem Nested.step {o : Outcome Bool} (h : m.Nested e c) (hcourse : m.Course e c)
    (hstep : Step e m c c' o) (hscan : e.scan = .nested) : o.machine.Nested e c' := by
  cases hstep with
  | finished | limit => exact h
  | ended _ _ hop => exact fun hlive => by rw [h hlive, openLoops_of_getElem?_eq_none hop]
  | done hf _ hop _ hx => exact hx.loops_eq hscan hop (h (hcourse.not_halted hf))
  | fault hf _ hop _ hx => exact hx.loops_eq hscan hop (h (hcourse.not_halted hf))

theorem ofText_nested (s : Settings) (text : Array UInt8) (console : List Char)
    (hscan : s.skipScan = .nested) (k : Nat) :
    ∃ c, ((ofText s text console).afterCalls k).At (.ofSettings s text) c ∧
      ((ofText s text console).afterCalls k).Course (.ofSettings s text) c ∧
      ((ofText s text console).afterCalls k).Nested (.ofSettings s text) c := by
  refine (ofText_at s text console).afterCalls_induction
    (P := fun c m _ => m.Course _ c ∧ m.Nested _ c) ⟨ofText_course s text console, fun _ => ?_⟩ ?_ k
  · simp
  · rintro c c' m events o hat ⟨hcourse, hnested⟩ hstep
    exact ⟨hcourse.step hat hstep, hnested.step hcourse hstep hscan⟩

end Machine

/-- The operators that a source at position `p` has passed, each with the note of a loop that opens
there. Positions count bytes, or the instructions of the listing of the text. -/
def Edition.passed (e : Edition) (p : Nat) : List (Operator × Frame) :=
  if e.precompile then (Listing.ofText e.scan e.text).1.noted p else Decoding.noted e.bytes p

/-- The note of a loop whose bracket is the byte at offset `p`. -/
def Edition.note (e : Edition) (p : Nat) : Frame :=
  ⟨if e.precompile then Decoding.index e.bytes p + 1 else p + 1, Location.after (e.bytes.take (p + 1))⟩

namespace Edition

variable {e : Edition} {c : Control} {i p : Nat} {s : Source}

/-- Wherever a source is, the brackets that are left open before its position are the open loops. -/
theorem Holds.leftOpen_passed (h : e.Holds i s) :
    ∃ p : Nat, s.position = ((p : Int), []) ∧
      leftOpen (e.passed p) = (openLoops e.operators i).map e.frame := by
  cases h with
  | stream hp h =>
    refine ⟨e.offset i, by simp [Source.position, Reader.position, h.offset_eq, offset, bytes], ?_⟩
    rw [passed, hp, if_neg Bool.false_ne_true, leftOpen_noted hp]
  | compiled hp _ h _ =>
    refine ⟨min i e.operators.length, by simp [Source.position, h], ?_⟩
    rw [passed, if_pos hp, leftOpen_listing hp, openLoops, openLoops, ← List.take_eq_take_min]

/-- The note of a bracket is the frame behind it. -/
theorem note_eq {b : UInt8} {op : Operator} (hb : e.bytes[p]? = some b)
    (hop : Operator.ofByte? b = some op) : e.note p = e.frame (Decoding.index e.bytes p + 1) := by
  have hoffset := (Decoding.getElem?_index hb hop).2.2
  unfold note frame position place Decoding.place offset
  rw [hoffset]
  split <;> simp

end Edition

namespace Machine

variable {e : Edition} {c : Control} {m : Machine}

/-- A closing bracket that is to be carried out. -/
theorem At.fetch_loopEnd (h : m.At e c) {x : Machine} {events : List Event}
    (hx : m.fetch = ⟨x, events, .ok (some .loopEnd)⟩) :
    m.finished = false ∧ e.operators[c.index]? = some .loopEnd ∧ x.frames = m.frames ∧
      e.Holds (c.index + 1) x.source := by
  obtain ⟨x', _, hfetch, -⟩ | ⟨s, op, hf, hop, hs, hfetch⟩ := h.fetch_cases
  · simp [hfetch] at hx
  · obtain ⟨rfl, -, hok⟩ := Outcome.mk.inj (hfetch.symm.trans hx)
    obtain rfl : op = .loopEnd := by simpa using hok
    exact ⟨hf, hop, rfl, hs⟩

/-- In the nested reading the frames of a machine that is not halted are the notes of the brackets
that are left open before its position, after any number of calls of a step. When it is to carry out a
closing bracket, there is no frame exactly if the bracket has no partner in the text, and else the
frame on top is the note of the partner. -/
theorem frames_eq_leftOpen (s : Settings) (text : Array UInt8) (console : List Char)
    (hscan : s.skipScan = .nested) (k : Nat) :
    let e := Edition.ofSettings s text
    let m := (ofText s text console).afterCalls k
    (m.halted = false →
      ∃ p : Nat, m.source.position = ((p : Int), []) ∧ m.frames = leftOpen (e.passed p)) ∧
    ∀ x events, m.fetch = ⟨x, events, .ok (some .loopEnd)⟩ →
      ∃ q, e.bytes[q]? = some Operator.loopEnd.byte ∧
        x.source.position = ((e.note q).position, []) ∧ x.location = (e.note q).location ∧
        (x.frames = [] ↔ ∀ p, ¬ Decoding.Partners e.bytes p q) ∧
        ∀ p, Decoding.Partners e.bytes p q → x.frames.head? = some (e.note p) := by
  intro e m
  obtain ⟨c, hat, hcourse, hnested⟩ := ofText_nested s text console hscan k
  refine ⟨fun hlive => ?_, fun x events hx => ?_⟩
  · obtain ⟨p, hp, hopen⟩ := hat.source.leftOpen_passed
    exact ⟨p, hp, by rw [hopen, hat.frames, hnested hlive]⟩
  · obtain ⟨hf, hop, hframes, hs⟩ := hat.fetch_loopEnd hx
    have hstack : x.frames = (openLoops e.operators c.index).map e.frame := by
      rw [hframes, hat.frames, hnested (hcourse.not_halted hf)]
    obtain ⟨q, b, hq, hb, hindex, -⟩ := Decoding.exists_byte hop
    obtain rfl := Decoding.byte_of_ofByte? hb
    have hnote := Edition.note_eq hq hb
    rw [hindex] at hnote
    refine ⟨q, hq, ?_, ?_, ?_, ?_⟩
    · rw [hs.position_eq (List.getElem?_eq_some_iff.1 hop).1, hnote]
      rfl
    · rw [hnote]
      exact hs.location_eq
    · have hstray : Decoding.Stray e.bytes q ↔ Stray e.operators c.index :=
        hindex ▸ Decoding.stray_iff hq
      rw [Decoding.Stray, and_iff_right hq, stray_iff, and_iff_right hop] at hstray
      rw [hstack, List.map_eq_nil_iff, hstray]
    · intro p hp
      have hpartners : Partners e.operators (Decoding.index e.bytes p) c.index :=
        hindex ▸ (Decoding.partners_iff hp.opening hq).1 hp
      rw [hstack, (openLoops_of_partners hpartners).1,
        Edition.note_eq hp.opening (Operator.ofByte?_byte _)]
      rfl

theorem frames_in_open_loop :
    ({ tapeLength := 2 } : Settings).skipScan = .nested ∧
    ((ofText { tapeLength := 2 } #[43, 91] []).afterCalls 2).frames = [⟨2, ⟨1, 2⟩⟩] := by
  obtain ⟨hframes, -⟩ := frames_eq_leftOpen { tapeLength := 2 } #[43, 91] [] rfl 2
  obtain ⟨p, hp, hopen⟩ := hframes (by decide +kernel)
  have hposition : ((ofText { tapeLength := 2 } #[43, 91] []).afterCalls 2).source.position =
      ((2 : Int), []) := by decide +kernel
  obtain rfl : p = 2 := Int.ofNat.inj (Prod.mk.inj (hp.symm.trans hposition)).1
  exact ⟨rfl, hopen.trans (by decide +kernel)⟩

end Machine

end Brainfuck
