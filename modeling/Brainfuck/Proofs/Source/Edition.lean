import Brainfuck.Machine.Load
import Brainfuck.Proofs.Brackets.Table
import Brainfuck.Proofs.Decoding.Reader

/-! # Editions of a program

A program text with the way in which it is held and skipped over is an edition. Both kinds of sources
stand behind a number of operators of their edition, and every move of a source is told by that
number: a streaming source counts bytes and scans, a precompiled one counts operators and jumps, but
they come to stand at the same place. Behind one operator more than there are is the end of the text. -/
namespace Brainfuck

open Brackets Decoding

namespace Source

variable {scan : SkipScan} {depth : Nat} {s s' : Source} {reports : List Diagnostic} {op : Operator}

lemma skip_of_none (h : s.next = .ok ⟨s', reports, none⟩) :
    s.skip scan depth = ⟨s', reports, .ok false⟩ := by
  unfold skip
  split <;> simp_all

lemma skip_of_some_none (h : s.next = .ok ⟨s', reports, some op⟩)
    (hd : depthAfter scan depth op = none) : s.skip scan depth = ⟨s', reports, .ok true⟩ := by
  unfold skip
  split <;> simp_all

lemma skip_of_some_some {depth' : Nat} (h : s.next = .ok ⟨s', reports, some op⟩)
    (hd : depthAfter scan depth op = some depth') :
    s.skip scan depth =
      { s'.skip scan depth' with reports := reports ++ (s'.skip scan depth').reports } := by
  conv_lhs => unfold skip
  split <;> simp_all

end Source

/-- A program text, how its loops are skipped, and whether it is decoded in advance. -/
structure Edition where
  text : Array UInt8
  scan : SkipScan
  precompile : Bool

namespace Edition

variable (e : Edition)

def bytes : List UInt8 := e.text.toList

/-- The operators of the text. -/
def operators : List Operator := Decoding.operators e.bytes

/-- The offset behind the first `i` operators. -/
def offset (i : Nat) : Nat := Decoding.offset e.bytes i

/-- The place behind the first `i` operators. -/
def place (i : Nat) : Location := Decoding.place e.bytes i

/-- How a source tells that it is behind the first `i` operators. -/
def position (i : Nat) : Int := if e.precompile then i else e.offset i

/-- The note of a loop whose bracket is the last of the first `i` operators. -/
def frame (i : Nat) : Frame := ⟨e.position i, e.place i⟩

/-- The remarks made on the way from behind `i` operators to behind `j`. -/
def remarks (i j : Nat) : List Diagnostic :=
  if e.precompile then [] else Decoding.remarks e.bytes (e.offset i) (e.offset j)

/-- Where a loop is left that is skipped from behind the first `i` operators on, or else the end of the
program. -/
def loopEnd (i : Nat) : Nat := (skipEnd e.scan 0 e.operators i).getD (e.operators.length + 1)

/-- A source of the edition that stands behind the first `i` operators. -/
inductive Holds (i : Nat) : Source → Prop
  | stream {r : Reader} (hp : e.precompile = false) (h : r.At e.text i) : Holds i (.stream r)
  | compiled {c : Cursor} (hp : e.precompile = true)
    (listing : c.listing = (Listing.ofText e.scan e.text).1)
    (index : c.index = min i e.operators.length) (location : c.location = e.place i) :
    Holds i (.compiled c)

variable {e} {i j k : Nat} {s : Source}

lemma position_stream (hp : e.precompile = false) : e.position i = e.offset i := by
  simp [position, hp]

lemma position_compiled (hp : e.precompile = true) : e.position i = i := by
  simp [position, hp]

/-- The place at the end of the program. -/
theorem place_end : e.place (e.operators.length + 1) = Location.after e.bytes := by
  have hlt : (Decoding.operators e.bytes).length < e.operators.length + 1 := Nat.lt_succ_self _
  rw [place, Decoding.place, offset_of_length_lt hlt, List.take_length]

theorem remarks_append (hij : i ≤ j) (hjk : j ≤ k) :
    e.remarks i j ++ e.remarks j k = e.remarks i k := by
  unfold remarks
  split
  · rfl
  · exact Decoding.remarks_append _ (offset_mono hij) (offset_mono hjk)

@[simp] lemma remarks_self (e : Edition) (i : Nat) : e.remarks i i = [] := by
  simp [remarks]

theorem isDecode_of_mem_remarks {d : Diagnostic} (h : d ∈ e.remarks i j) : d.isDecode := by
  unfold remarks at h
  split at h
  · simp at h
  · exact Decoding.isDecode_of_mem_remarks h

theorem Holds.location_eq (h : e.Holds i s) : s.location = e.place i := by
  cases h with
  | stream _ h => exact h.location_eq
  | compiled _ _ _ h => exact h

theorem Holds.position_eq (h : e.Holds i s) (hi : i ≤ e.operators.length) :
    s.position = (e.position i, []) := by
  cases h with
  | stream hp h =>
    rw [position_stream hp]
    simp [Source.position, Reader.position, h.offset_eq, offset, bytes]
  | compiled hp _ h _ => simp [Source.position, position_compiled hp, h, Nat.min_eq_left hi]

theorem Holds.opened_eq (h : e.Holds i s) : s.opened = .ok s := by
  cases h with
  | stream _ h => simp [Source.opened, Reader.opened, h.offset_eq, Except.map]
  | compiled => rfl

/-- The code of the listing of the text. -/
private lemma listing_code (e : Edition) (k : Nat) :
    (Listing.ofText e.scan e.text).1.code.size = e.operators.length ∧
      ((Listing.ofText e.scan e.text).1.code[k]?).map (·.operator) = e.operators[k]? ∧
      ∀ x ∈ (Listing.ofText e.scan e.text).1.code[k]?, x.location = e.place (k + 1) := by
  obtain ⟨code, hcode, hops, hplaces⟩ := Listing.ofText_eq e.scan e.text
  simp only [hcode, operators, bytes, ← hops]
  refine ⟨by simp, by simp, fun x hx => ?_⟩
  obtain ⟨hk, rfl⟩ := List.getElem?_eq_some_iff.1 (by simpa using hx)
  exact hplaces k hk

/-- Drawing an operator goes on by one. At the end nothing is drawn, but the text is read to its end. -/
theorem Holds.next (h : e.Holds i s) :
    ∃ s', e.Holds (i + 1) s' ∧ s.next = .ok ⟨s', e.remarks i (i + 1), e.operators[i]?⟩ := by
  cases h with
  | stream hp h =>
    obtain ⟨r', hr', hnext⟩ := h.next
    exact ⟨_, .stream hp hr', by simp [Source.next, hnext, remarks, hp, operators, offset, bytes]⟩
  | @compiled c hp listing index location =>
    obtain ⟨hsize, hop, hplace⟩ := listing_code e i
    rw [← listing] at hsize hop hplace
    have hrem : e.remarks i (i + 1) = [] := by simp [remarks, hp]
    by_cases hi : i < e.operators.length
    · have hindex : c.index = i := by omega
      obtain ⟨x, hx⟩ : ∃ x, c.listing.code[i]? = some x := ⟨_, Array.getElem?_eq_getElem (by omega)⟩
      have hx' : c.instruction? = some x := by
        have hneg : ¬ (i : Int) < 0 := by omega
        simpa [Cursor.instruction?, hindex, hneg] using hx
      refine ⟨.compiled { c with index := c.index + 1, location := x.location, lastByte := x.byte },
        .compiled hp listing (by simp; omega) (hplace x hx), ?_⟩
      have hend : ¬ (c.listing.code.size : Int) ≤ c.index := by omega
      simp [Source.next, Cursor.next, hend, hx', Except.map, hrem, ← hop, hx]
    · have hend : (c.listing.code.size : Int) ≤ c.index := by omega
      refine ⟨.compiled { c with location := c.listing.endLocation },
        .compiled hp listing (by simp; omega) ?_, ?_⟩
      · obtain ⟨code, hcode, -⟩ := Listing.ofText_eq e.scan e.text
        have hlt : (Decoding.operators e.bytes).length < i + 1 :=
          Nat.lt_succ_of_le (Nat.le_of_not_lt hi)
        rw [place, Decoding.place, offset_of_length_lt hlt, List.take_length]
        simp [listing, hcode, bytes]
      · have hnone : e.operators[i]? = none := List.getElem?_eq_none (Nat.le_of_not_lt hi)
        simp [Source.next, Cursor.next, hend, Except.map, hrem, hnone]

/-- A source can go back to behind any operator of its text. -/
theorem Holds.seek (h : e.Holds i s) (hj : j ≤ e.operators.length) :
    ∃ s', e.Holds j s' ∧ s.seek (e.position j) (some (e.place j)) = .ok (s', []) := by
  cases h with
  | @stream r hp h =>
    have htell : r.canTell (e.offset j) = true := by
      have := offset_le_length e.bytes j
      simp only [Reader.canTell, h.text_eq, Bool.or_eq_true, Bool.and_eq_true, decide_eq_true_eq]
      refine .inr ⟨by omega, ?_⟩
      simpa [offset, bytes] using this
    refine ⟨.stream { r with offset := some (e.offset j), location := e.place j },
      .stream hp ⟨h.text_eq, rfl, rfl⟩, ?_⟩
    have hneg : ¬ (e.offset j : Int) < 0 := by omega
    simp [Source.seek, Reader.seek, h.offset_eq, position_stream hp, htell, hneg, Except.map]
  | @compiled c hp listing index location =>
    refine ⟨.compiled (c.seek j (some (e.place j))), .compiled hp listing ?_ rfl, ?_⟩
    · simp [Cursor.seek, Nat.min_eq_left hj]
    · simp [Source.seek, position_compiled hp]

/-- A scan comes to stand where it ends, or else at the end of the text. -/
theorem Holds.skip {scan : SkipScan} {d : Nat} (h : e.Holds i s) (hi : i ≤ e.operators.length) :
    ∃ s', e.Holds ((skipEnd scan d e.operators i).getD (e.operators.length + 1)) s' ∧
      s.skip scan d =
        ⟨s', e.remarks i ((skipEnd scan d e.operators i).getD (e.operators.length + 1)),
          .ok (skipEnd scan d e.operators i).isSome⟩ := by
  induction hn : e.operators.length - i generalizing i s d with
  | zero =>
    obtain rfl : i = e.operators.length := by omega
    obtain ⟨s', hs', hnext⟩ := h.next
    rw [List.getElem?_eq_none (Nat.le_refl _)] at hnext
    rw [skipEnd_of_length_le (Nat.le_refl _)]
    exact ⟨s', hs', Source.skip_of_none hnext⟩
  | succ n ih =>
    have hop := List.getElem?_eq_getElem (l := e.operators) (i := i) (by omega)
    obtain ⟨s', hs', hnext⟩ := h.next
    rw [hop] at hnext
    cases hd : Source.depthAfter scan d e.operators[i] with
    | none =>
      rw [skipEnd_of_ends hop hd]
      exact ⟨s', hs', Source.skip_of_some_none hnext hd⟩
    | some depth =>
      obtain ⟨s'', hs'', hskip⟩ := ih (d := depth) hs' (by omega) (by omega)
      rw [skipEnd_of_goes_on hop hd]
      refine ⟨s'', hs'', ?_⟩
      have hend : i + 1 ≤ (skipEnd scan depth e.operators (i + 1)).getD (e.operators.length + 1) := by
        cases hj : skipEnd scan depth e.operators (i + 1) with
        | none => simp only [Option.getD_none]; omega
        | some j => exact Nat.le_of_lt (skipEnd_bounds hj).1
      rw [Source.skip_of_some_some hnext hd, hskip, ← remarks_append (Nat.le_add_right i 1) hend]

/-- A precompiled source knows where a loop ends, and jumps there. -/
theorem Holds.matchingEnd (h : e.Holds (i + 1) s) (hi : e.operators[i]? = some .loopStart) :
    s.matchingEnd (e.position (i + 1)) =
      if e.precompile then (skipEnd e.scan 0 e.operators (i + 1)).map Int.ofNat else none := by
  cases h with
  | stream hp _ => simp [Source.matchingEnd, hp]
  | @compiled c hp listing index location =>
    obtain ⟨code, hcode, -⟩ := Listing.ofText_eq e.scan e.text
    have hpartners : c.listing.partners = table e.scan e.operators := by
      rw [listing, hcode]
      rfl
    have hpos : ¬ (i : Int) + 1 ≤ 0 := by omega
    rw [← getElem?_table hi, position_compiled hp]
    cases hj : ((table e.scan e.operators)[i]?).join <;>
      simp [Source.matchingEnd, Cursor.matchingEnd, hp, hpos, hpartners, hj]

/-- A jump to behind an operator finds its place by itself. -/
theorem Holds.jump (h : e.Holds i s) (hp : e.precompile = true) (hj : j < e.operators.length) :
    ∃ s', e.Holds (j + 1) s' ∧ s.seek ((j + 1 : Nat) : Int) none = .ok (s', []) := by
  cases h with
  | stream hp' _ => simp [hp] at hp'
  | @compiled c _ listing index location =>
    refine ⟨.compiled (c.seek (j + 1 : Nat) none), .compiled hp listing ?_ ?_, rfl⟩
    · simp [Cursor.seek]
      omega
    · obtain ⟨hsize, -, hplace⟩ := listing_code e j
      rw [← listing] at hsize hplace
      obtain ⟨x, hx⟩ : ∃ x, c.listing.code[j]? = some x := ⟨_, Array.getElem?_eq_getElem (by omega)⟩
      have hpos : ¬ (j : Int) + 1 ≤ 0 := by omega
      simp [Cursor.seek, hpos, hx, hplace x hx]

/-- The edition of a text that the settings ask for. -/
def ofSettings (s : Settings) (text : Array UInt8) : Edition := ⟨text, s.skipScan, s.precompile⟩

theorem ofText_holds (s : Settings) (text : Array UInt8) :
    (ofSettings s text).Holds 0 (Source.ofText s text).1 := by
  cases hp : s.precompile with
  | true =>
    simp only [Source.ofText, hp, if_true]
    exact .compiled hp rfl (by simp [Cursor.start]) (by simp [Cursor.start, place])
  | false =>
    simp only [Source.ofText, hp, Bool.false_eq_true, if_false]
    exact .stream hp (Reader.ofText_at text)

/-- Decoding in advance remarks on the whole text, and loading a text without decoding it on nothing. -/
theorem ofText_reports (s : Settings) (text : Array UInt8) :
    (Source.ofText s text).2 =
      if s.precompile then Decoding.remarks text.toList 0 text.toList.length else [] := by
  unfold Source.ofText
  split
  · obtain ⟨code, hcode, -⟩ := Listing.ofText_eq s.skipScan text
    simp [hcode]
  · rfl

theorem isDecode_of_mem_reports {s : Settings} {text : Array UInt8} {d : Diagnostic}
    (h : d ∈ (Source.ofText s text).2) : d.isDecode := by
  rw [ofText_reports] at h
  split at h
  · exact Decoding.isDecode_of_mem_remarks h
  · simp at h

/-- The remarks on the whole text. -/
theorem remarks_all (hp : e.precompile = false) :
    e.remarks 0 (e.operators.length + 1) = Decoding.remarks e.bytes 0 e.bytes.length := by
  have hend : e.offset (e.operators.length + 1) = e.bytes.length :=
    offset_of_length_lt (Nat.lt_succ_self _)
  have hstart : e.offset 0 = 0 := offset_zero e.bytes
  simp [remarks, hp, hend, hstart]

end Edition

end Brainfuck
