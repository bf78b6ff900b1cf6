import Brainfuck.Program.Listing
import Brainfuck.Proofs.Decoding.Text

/-! # Readers decode what a text spells

A reader that stands behind some operators of its text draws the next one, remarks on the bytes on
the way and then stands behind one more. Decoding in advance is drawing all operators in turn, so a
listing holds the operators of the text with their places. -/
namespace Brainfuck

open Decoding

/-- Decoding from an offset reads the bytes up to the next operator, or all of them. -/
theorem Reader.decodeFrom_eq (text : Array UInt8) (r : Reader) (p : Nat) (hr : r.offset = some p) :
    decodeFrom text r p =
      let read := (text.toList.drop p).take (Decoding.offset (text.toList.drop p) 1)
      ⟨{ r with
          offset := some (p + Decoding.offset (text.toList.drop p) 1)
          location := read.foldl Location.advance r.location
          lastByte := read.getLast?.or r.lastByte },
        remarksFrom r.location read, (operators (text.toList.drop p)).head?⟩ := by
  fun_induction decodeFrom text r p with
  | case1 r p h b r' op hb =>
    have hdrop : text.toList.drop p = b :: text.toList.drop (p + 1) := List.drop_eq_getElem_cons h
    simp [hdrop, offset_cons_some hb, operators, hb, remarksFrom, remark?, r', advance]
  | case2 r p h b r' hb rest problem hp ih =>
    have hdrop : text.toList.drop p = b :: text.toList.drop (p + 1) := List.drop_eq_getElem_cons h
    have hrest := ih rfl
    simp only [rest, r', advance] at hrest ⊢
    simp only [hdrop, offset_cons_none hb, hrest, List.take_succ_cons, List.foldl_cons, remarksFrom,
      remark?, hb, hp, operators, List.filterMap_cons_none hb]
    simp [List.getLast?_cons]
    omega
  | case3 r p h b r' hb rest hp ih =>
    have hdrop : text.toList.drop p = b :: text.toList.drop (p + 1) := List.drop_eq_getElem_cons h
    have hrest := ih rfl
    simp only [rest, r', advance] at hrest ⊢
    simp only [hdrop, offset_cons_none hb, hrest, List.take_succ_cons, List.foldl_cons, remarksFrom,
      remark?, hb, hp, operators, List.filterMap_cons_none hb]
    simp [List.getLast?_cons]
    omega
  | case4 r p h =>
    have hdrop : text.toList.drop p = [] := List.drop_eq_nil_of_le (by simpa using h)
    simp [hdrop, operators, remarksFrom, ← hr]

/-- A reader that stands behind the first `i` operators of a text, with the place that is there. -/
structure Reader.At (text : Array UInt8) (i : Nat) (r : Reader) : Prop where
  text_eq : r.medium.text = text
  offset_eq : r.offset = some (Decoding.offset text.toList i)
  location_eq : r.location = place text.toList i

variable {text : Array UInt8} {i : Nat} {r : Reader}

theorem Reader.ofText_at (text : Array UInt8) : (ofText text).At text 0 := by
  constructor <;> simp [ofText, Medium.text]

/-- What a reader comes to that draws the next operator is told by the bytes up to the place behind it. -/
theorem Reader.At.next_eq (h : r.At text i) :
    r.next =
      let read := (text.toList.take (Decoding.offset text.toList (i + 1))).drop
        (Decoding.offset text.toList i)
      ⟨{ r with
          offset := some (Decoding.offset text.toList (i + 1))
          location := place text.toList (i + 1)
          lastByte := read.getLast?.or r.lastByte },
        remarks text.toList (Decoding.offset text.toList i) (Decoding.offset text.toList (i + 1)),
        (operators text.toList)[i]?⟩ := by
  have hread : (text.toList.drop (Decoding.offset text.toList i)).take
      (Decoding.offset (text.toList.drop (Decoding.offset text.toList i)) 1) =
      (text.toList.take (Decoding.offset text.toList (i + 1))).drop (Decoding.offset text.toList i) := by
    rw [offset_add, List.take_drop]
  have hnext : r.next = decodeFrom text r (Decoding.offset text.toList i) := by
    simp [Reader.next, h.offset_eq, h.text_eq]
  rw [hnext, decodeFrom_eq text r _ h.offset_eq, hread, operators_drop_offset, List.head?_drop,
    ← offset_add, h.location_eq]
  simp only [place, after_take _ (offset_mono (Nat.le_succ i)), remarks]

/-- The next operator is drawn with the remarks on the bytes before it, and the reader is then behind
it. If there is none, the reader comes to the end of the text. -/
theorem Reader.At.next (h : r.At text i) :
    ∃ r' : Reader, r'.At text (i + 1) ∧
      r.next = ⟨r', remarks text.toList (Decoding.offset text.toList i)
        (Decoding.offset text.toList (i + 1)), (operators text.toList)[i]?⟩ := by
  have hat : r.next.source.At text (i + 1) := by
    rw [h.next_eq]
    exact ⟨h.text_eq, rfl, rfl⟩
  exact ⟨r.next.source, hat, by rw [h.next_eq]⟩

namespace Listing

variable {r' : Reader} {reports : List Diagnostic} {op : Operator}

lemma drain_of_none (h : r.next = ⟨r', reports, none⟩) : drain r = (r', reports, []) := by
  unfold drain
  split <;> simp_all

lemma drain_of_some (h : r.next = ⟨r', reports, some op⟩) :
    drain r = ((drain r').1, reports ++ (drain r').2.1,
      ⟨op, r'.location, r'.lastByte⟩ :: (drain r').2.2) := by
  conv_lhs => unfold drain
  split <;> simp_all

/-- Decoding in advance gives the operators of the text with their places, and all the remarks. -/
theorem drain_eq (h : r.At text i) :
    ∃ (last : Reader) (code : List Instruction),
      drain r = (last, remarks text.toList (offset text.toList i) text.toList.length, code) ∧
      last.location = Location.after text.toList ∧
      code.map (·.operator) = (operators text.toList).drop i ∧
      ∀ k (hk : k < code.length), code[k].location = place text.toList (i + k + 1) := by
  induction hn : r.remaining using Nat.strongRecOn generalizing i r with
  | ind n ih =>
    subst hn
    obtain ⟨r', hr', hnext⟩ := h.next
    cases hop : (operators text.toList)[i]? with
    | none =>
      have hle := List.getElem?_eq_none_iff.1 hop
      have hend := offset_of_length_lt (Nat.lt_succ_of_le hle)
      refine ⟨r', [], ?_, ?_, ?_, by simp⟩
      · rw [drain_of_none (hop ▸ hnext), hend]
      · rw [hr'.location_eq, place, hend, List.take_length]
      · simpa using hle
    | some op =>
      obtain ⟨hi, rfl⟩ := List.getElem?_eq_some_iff.1 hop
      have hlt : r'.remaining < r.remaining := by
        simpa [hop ▸ hnext] using r.next_remaining
      obtain ⟨last, code, hdrain, hlast, hops, hplaces⟩ := ih _ hlt hr' rfl
      refine ⟨last, ⟨(operators text.toList)[i], r'.location, r'.lastByte⟩ :: code, ?_, hlast, ?_, ?_⟩
      · rw [drain_of_some (hop ▸ hnext), hdrain,
          remarks_append _ (offset_mono (Nat.le_add_right i 1)) (offset_le_length ..)]
      · rw [List.map_cons, hops, ← List.drop_eq_getElem_cons hi]
      · intro k hk
        cases k with
        | zero => exact hr'.location_eq
        | succ k =>
          rw [List.getElem_cons_succ, hplaces]
          congr 1
          omega

/-- The listing of a text holds its operators, each with the place behind it, the end of the text and
the table of the operators, and its remarks are those on the whole text. -/
theorem ofText_eq (scan : SkipScan) (text : Array UInt8) :
    ∃ code : List Instruction,
      ofText scan text =
        (⟨code.toArray, Location.after text.toList, Brackets.table scan (operators text.toList)⟩,
          remarks text.toList 0 text.toList.length) ∧
      code.map (·.operator) = operators text.toList ∧
      ∀ k (hk : k < code.length), code[k].location = place text.toList (k + 1) := by
  obtain ⟨last, code, hdrain, hlast, hops, hplaces⟩ := drain_eq (Reader.ofText_at text)
  refine ⟨code, ?_, by simpa using hops, by simpa using hplaces⟩
  simp only [offset_zero, List.drop_zero] at hdrain hops
  simp [ofText, ofReader, hdrain, ofInstructions, hlast, hops]

end Listing

end Brainfuck
