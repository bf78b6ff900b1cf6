import Brainfuck.Proofs.Decoding.Brackets
import Brainfuck.Proofs.Decoding.Places

/-! # Draining a text

A reader that is asked for one operator after another reads its text once, from the first byte to the
last. What it comes to is told here from the bytes and their offsets: every byte that spells an operator
gives that operator, every byte that lays out the text gives nothing, and every other byte gives one
error. Decoding in advance keeps the same record. -/
namespace Brainfuck

open Decoding

namespace Decoding

variable {bytes : List UInt8} {b : UInt8}

/-- The bytes that spell operators, each with its operator and the place that is counted up to it. -/
def spelled (bytes : List UInt8) : List Instruction :=
  bytes.zipIdx.filterMap fun (b, p) =>
    (Operator.ofByte? b).map (⟨·, Location.counted (bytes.take (p + 1)), some b⟩)

/-- The error on a byte that means nothing. A number sign begins what would be a comment elsewhere. -/
def complaint (b : UInt8) (l : Location) : Diagnostic where
  severity := .error
  category := .decode
  message :=
    if b = 35 then "comments are not supported in standard brainfuck."
    else "unsupported operator " ++ Text.quotedCodes [b.toNat]
  location := some l

/-- The errors on the bytes that neither spell an operator nor lay out the text, each at the place that is
counted up to it. -/
def complaints (bytes : List UInt8) : List Diagnostic :=
  bytes.zipIdx.filterMap fun (b, p) =>
    if (Operator.ofByte? b).isSome || isLayout b then none
    else some (complaint b (Location.counted (bytes.take (p + 1))))

/-- The remark that the decoder makes on a byte is the error on it. -/
lemma remark?_eq (l : Location) (b : UInt8) :
    remark? l b = if (Operator.ofByte? b).isSome || isLayout b then none else some (complaint b l) := by
  unfold remark? Reader.problemOf complaint
  by_cases hop : (Operator.ofByte? b).isSome
  · simp [hop]
  · by_cases hlayout : isLayout b
    · simp [hop, hlayout]
    · by_cases hb : b = 35
      · subst hb
        rfl
      · simp [hop, hlayout, hb]
        rfl

theorem remarks_eq_complaints (bytes : List UInt8) : remarks bytes 0 bytes.length = complaints bytes := by
  rw [remarks_eq_filterMap (Nat.zero_le _) (Nat.le_refl _), Nat.sub_zero, ← List.zipIdx_map_snd,
    List.filterMap_map]
  refine List.filterMap_congr fun x hx => ?_
  have hbyte : bytes[x.2]? = some x.1 := List.mem_zipIdx_iff_getElem?.1 hx
  simp [remarkAt?, hbyte, remark?_eq]

/-- The operators that a text spells have their places behind them, and the bytes there. -/
theorem spelled_eq (bytes : List UInt8) :
    spelled bytes = ((operators bytes).zipIdx 1).map fun (op, i) =>
      ⟨op, place bytes i, (bytes.take (offset bytes i)).getLast?⟩ := by
  let record (x : Operator × List UInt8) : Instruction := ⟨x.1, Location.counted x.2, x.2.getLast?⟩
  have hmap := congrArg (List.map record) (filterMap_zipIdx bytes.take bytes 0)
  rw [List.map_filterMap, List.map_map] at hmap
  have hleft : spelled bytes = bytes.zipIdx.filterMap fun x =>
      ((Operator.ofByte? x.1).map (·, bytes.take (x.2 + 1))).map record := by
    refine List.filterMap_congr fun x hx => ?_
    have hbyte : bytes[x.2]? = some x.1 := List.mem_zipIdx_iff_getElem?.1 hx
    have hlast : (bytes.take (x.2 + 1)).getLast? = some x.1 := by
      simp [List.getLast?_take, hbyte]
    simp [record, hlast, Function.comp_def]
  rw [hleft, hmap]
  refine List.map_congr_left fun x _ => ?_
  simp [record, place_eq]

lemma map_operator_spelled (bytes : List UInt8) :
    (spelled bytes).map (·.operator) = operators bytes := by
  simp [spelled_eq, Function.comp_def]

lemma length_spelled (bytes : List UInt8) : (spelled bytes).length = (operators bytes).length := by
  rw [← map_operator_spelled, List.length_map]

lemma getElem?_spelled (bytes : List UInt8) (k : Nat) :
    (spelled bytes)[k]? = (operators bytes)[k]?.map
      (⟨·, place bytes (k + 1), (bytes.take (offset bytes (k + 1))).getLast?⟩) := by
  simp [spelled_eq, List.getElem?_zipIdx, Function.comp_def, Nat.add_comm 1]

/-- An operator is spelled by its own byte. -/
lemma byte_of_mem_spelled {x : Instruction} (hx : x ∈ spelled bytes) :
    x.byte = some x.operator.byte := by
  obtain ⟨⟨b, p⟩, -, hx⟩ := List.mem_filterMap.1 hx
  obtain ⟨op, hop, rfl⟩ := Option.map_eq_some_iff.1 hx
  exact congrArg some (byte_of_ofByte? hop)

/-- Layout spells nothing. -/
lemma ofByte?_of_isLayout (h : isLayout b = true) : Operator.ofByte? b = none := by
  have hb : b = 32 ∨ b = 9 ∨ b = 13 ∨ b = 10 := by simpa [isLayout, or_assoc] using h
  rcases hb with rfl | rfl | rfl | rfl <;> rfl

lemma length_complaints (bytes : List UInt8) :
    (complaints bytes).length =
      bytes.countP fun b => !((Operator.ofByte? b).isSome || isLayout b) := by
  have hfst : bytes.countP (fun b => !((Operator.ofByte? b).isSome || isLayout b)) =
      bytes.zipIdx.countP fun x => !((Operator.ofByte? x.1).isSome || isLayout x.1) := by
    conv_lhs => rw [← List.zipIdx_map_fst 0 bytes, List.countP_map]
    rfl
  rw [complaints, List.length_filterMap_eq_countP, hfst]
  refine List.countP_congr fun x _ => ?_
  by_cases hmeans : ((Operator.ofByte? x.1).isSome || isLayout x.1) = true <;> simp [hmeans]

/-- Every byte is accounted for once. -/
theorem length_eq_add (bytes : List UInt8) :
    bytes.length = (spelled bytes).length + (complaints bytes).length + bytes.countP isLayout := by
  rw [length_spelled, length_complaints, operators]
  induction bytes with
  | nil => rfl
  | cons b bytes ih =>
    by_cases hlayout : isLayout b
    · simp [ofByte?_of_isLayout hlayout, hlayout, ih]
      omega
    · cases hop : Operator.ofByte? b <;> simp [hop, hlayout, ih] <;> omega

end Decoding

namespace Reader

/-- The reader after it was asked for an operator `k` times. -/
def after (r : Reader) : Nat → Reader
  | 0 => r
  | k + 1 => (r.after k).next.source

/-- The remarks made while it was asked for an operator `k` times. -/
def reportsIn (r : Reader) : Nat → List Diagnostic
  | 0 => []
  | k + 1 => r.reportsIn k ++ (r.after k).next.reports

variable {text : Array UInt8} {i k : Nat} {r : Reader}

/-- The byte that was read last is the one before the offset. -/
lemma At.lastByte_next (h : r.At text i)
    (hlast : r.lastByte = (text.toList.take (Decoding.offset text.toList i)).getLast?) :
    r.next.source.lastByte = (text.toList.take (Decoding.offset text.toList (i + 1))).getLast? := by
  have hbefore : Decoding.offset text.toList i ≤ Decoding.offset text.toList (i + 1) :=
    offset_mono (Nat.le_succ i)
  rw [h.next_eq, hlast]
  conv_rhs => rw [← List.take_append_drop (Decoding.offset text.toList i)
    (text.toList.take (Decoding.offset text.toList (i + 1))), List.take_take, Nat.min_eq_left hbefore,
    List.getLast?_append]

/-- A reader that was asked for an operator `k` times is behind so many operators or at the end, and has
remarked on the bytes before. -/
theorem ofText_after (text : Array UInt8) (k : Nat) :
    ((ofText text).after k).At text k ∧
      ((ofText text).after k).lastByte = (text.toList.take (Decoding.offset text.toList k)).getLast? ∧
      (ofText text).reportsIn k = remarks text.toList 0 (Decoding.offset text.toList k) := by
  induction k with
  | zero => exact ⟨ofText_at text, by simp [after, ofText], by simp [reportsIn]⟩
  | succ k ih =>
    obtain ⟨hat, hlast, hreports⟩ := ih
    obtain ⟨r', hat', hnext⟩ := hat.next
    refine ⟨?_, hat.lastByte_next hlast, ?_⟩
    · rw [after, hnext]
      exact hat'
    · rw [reportsIn, hreports, hnext]
      exact remarks_append _ (Nat.zero_le _) (offset_mono (Nat.le_succ k))

/-- Asked for the next operator, the reader gives what is spelled next and remarks on the bytes before. -/
theorem next_after (text : Array UInt8) (k : Nat) :
    ((ofText text).after k).next =
      ⟨(ofText text).after (k + 1),
        remarks text.toList (Decoding.offset text.toList k) (Decoding.offset text.toList (k + 1)),
        (spelled text.toList)[k]?.map (·.operator)⟩ := by
  have hnext := (ofText_after text k).1.next_eq
  have hafter : (ofText text).after (k + 1) = ((ofText text).after k).next.source := rfl
  rw [hafter, hnext, getElem?_spelled]
  simp [Function.comp_def]

/-- The reader is then at the place of what was spelled, and its byte is the last one read. -/
theorem after_of_mem_spelled {x : Instruction} (hx : (spelled text.toList)[k]? = some x) :
    ((ofText text).after (k + 1)).location = x.location ∧
      ((ofText text).after (k + 1)).lastByte = x.byte := by
  obtain ⟨hat, hlast, -⟩ := ofText_after text (k + 1)
  rw [getElem?_spelled] at hx
  obtain ⟨op, -, rfl⟩ := Option.map_eq_some_iff.1 hx
  exact ⟨hat.location_eq, hlast⟩

/-- At the end of the text nothing more is spelled, and the whole text was remarked on. -/
theorem after_of_length_lt (hk : (spelled text.toList).length < k) :
    ((ofText text).after k).location = Location.counted text.toList ∧
      (ofText text).reportsIn k = complaints text.toList := by
  obtain ⟨hat, -, hreports⟩ := ofText_after text k
  have hend := offset_of_length_lt (length_spelled text.toList ▸ hk)
  rw [hat.location_eq, place_eq, hreports, hend, List.take_length, remarks_eq_complaints]
  exact ⟨rfl, rfl⟩

end Reader

namespace Listing

variable {text : Array UInt8} {k : Nat}

/-- Decoding in advance goes on to the end of the text, and keeps what is spelled on the way. -/
theorem drain_after (hk : k ≤ (spelled text.toList).length) :
    drain ((Reader.ofText text).after k) =
      ((Reader.ofText text).after ((spelled text.toList).length + 1),
        remarks text.toList (offset text.toList k) text.toList.length, (spelled text.toList).drop k) := by
  have hnext := Reader.next_after text k
  induction hn : (spelled text.toList).length - k generalizing k with
  | zero =>
    obtain rfl : k = (spelled text.toList).length := by omega
    have hend : offset text.toList ((spelled text.toList).length + 1) = text.toList.length := by
      rw [length_spelled]
      exact offset_of_length_lt (Nat.lt_succ_self _)
    rw [List.getElem?_eq_none (Nat.le_refl _), hend] at hnext
    rw [drain_of_none hnext, List.drop_length]
  | succ n ih =>
    have hlt : k < (spelled text.toList).length := by omega
    obtain ⟨hlocation, hbyte⟩ := Reader.after_of_mem_spelled (List.getElem?_eq_getElem hlt)
    rw [List.getElem?_eq_getElem hlt] at hnext
    rw [drain_of_some hnext, ih hlt (Reader.next_after text (k + 1)) (by omega), hlocation, hbyte,
      remarks_append _ (offset_mono (Nat.le_succ k)) (offset_le_length ..),
      List.drop_eq_getElem_cons hlt]

/-- Decoding accounts for every byte of a text once. Asked for one operator after another, a reader gives
those that are spelled, in order, each at its own place and with its own byte, and then none for ever. On
the way it makes one error for each byte that neither spells an operator nor lays out the text, in order
and at the place of the byte, and it remarks on nothing else. Decoding in advance keeps the same operators,
places and bytes, the place of the end, and the same errors. -/
theorem every_byte_decoded_once (text : Array UInt8) :
    let bytes := text.toList
    let code := spelled bytes
    let reader := (Reader.ofText text).after
    code.map (·.operator) = bytes.filterMap Operator.ofByte? ∧
    bytes.length = code.length + (complaints bytes).length + bytes.countP isLayout ∧
    (∀ k, (reader k).next.operator = code[k]?.map (·.operator)) ∧
    (∀ k, ∀ x ∈ code[k]?, (reader (k + 1)).location = x.location ∧ (reader (k + 1)).lastByte = x.byte ∧
      (Source.stream (reader (k + 1))).charText = String.singleton (Char.ofNat x.operator.byte.toNat)) ∧
    (∀ k, code.length < k → (reader k).location = Location.counted bytes ∧
      (Reader.ofText text).reportsIn k = complaints bytes) ∧
    drain (.ofText text) = (reader (code.length + 1), complaints bytes, code) ∧
    ∀ scan, ofText scan text = (ofInstructions scan code (Location.counted bytes), complaints bytes) := by
  intro bytes code reader
  have hdrain : drain (.ofText text) = (reader (code.length + 1), complaints bytes, code) := by
    have hstart : drain (reader 0) = _ := drain_after (Nat.zero_le _)
    rwa [offset_zero, remarks_eq_complaints, List.drop_zero] at hstart
  refine ⟨map_operator_spelled bytes, length_eq_add bytes, fun k => ?_, fun k x hx => ?_,
    fun k => Reader.after_of_length_lt, hdrain, fun scan => ?_⟩
  · exact congrArg Decoded.operator (Reader.next_after text k)
  · obtain ⟨hlocation, hbyte⟩ := Reader.after_of_mem_spelled hx
    have hlast : (Source.stream (reader (k + 1))).lastByte = some x.operator.byte :=
      hbyte.trans (byte_of_mem_spelled (List.mem_of_getElem? hx))
    exact ⟨hlocation, hbyte, by rw [Source.charText, hlast]⟩
  · obtain ⟨hend, -⟩ := Reader.after_of_length_lt (Nat.lt_succ_self code.length)
    rw [ofText, ofReader, hdrain]
    simp only [reader, hend]
    rfl

/-- A tab takes room on its line, and a carriage return does not. -/
example : (spelled [43, 35, 13, 10, 9, 13, 45]).map (·.location) = [⟨1, 1⟩, ⟨2, 2⟩] := by decide +kernel

end Listing

end Brainfuck
