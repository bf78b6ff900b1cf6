import Mathlib.Data.List.Sort
import Brainfuck.Proofs.Brackets.Nesting
import Brainfuck.Proofs.Source.Edition

/-! # Brackets in a text

Matching brackets byte by byte in a text is matching them among its operators. The operators that a
source has passed are noted here with the frames that a loop gets that opens there, from the text or
from its listing alone, and the brackets that are left open among them are the open loops. -/
namespace Brainfuck

open Brackets

namespace Decoding

variable {bytes : List UInt8} {i j l p q : Nat} {op : Operator}

/-- How many operators are spelled by the first `p` bytes. -/
def index (bytes : List UInt8) (p : Nat) : Nat := (operators (bytes.take p)).length

/-- Two bracket bytes are partners when the operators between them are balanced. -/
structure Partners (bytes : List UInt8) (p q : Nat) : Prop where
  lt : p < q
  opening : bytes[p]? = some Operator.loopStart.byte
  closing : bytes[q]? = some Operator.loopEnd.byte
  between : Balanced (operators ((bytes.take q).drop (p + 1)))

lemma operators_append (xs ys : List UInt8) : operators (xs ++ ys) = operators xs ++ operators ys :=
  List.filterMap_append

lemma operators_take (bytes : List UInt8) (p : Nat) :
    operators (bytes.take p) = (operators bytes).take (index bytes p) := by
  conv_rhs => rw [← List.take_append_drop p bytes, operators_append]
  simp [index]

lemma operators_drop (bytes : List UInt8) (p : Nat) :
    operators (bytes.drop p) = (operators bytes).drop (index bytes p) := by
  conv_rhs => rw [← List.take_append_drop p bytes, operators_append]
  simp [index]

lemma index_take (bytes : List UInt8) (h : p ≤ q) : index (bytes.take q) p = index bytes p := by
  rw [index, List.take_take, Nat.min_eq_left h, index]

lemma index_mono (bytes : List UInt8) (h : p ≤ q) : index bytes p ≤ index bytes q := by
  rw [← index_take bytes h, index, operators_take]
  exact List.length_take_le' ..

lemma lt_of_index_lt (h : index bytes p < index bytes q) : p < q := by
  by_contra hle
  have := index_mono bytes (Nat.le_of_not_lt hle)
  omega

lemma index_offset (bytes : List UInt8) (hi : i ≤ (operators bytes).length) :
    index bytes (offset bytes i) = i := by
  rw [index, operators_take_offset, List.length_take, Nat.min_eq_left hi]

/-- A byte that spells an operator stands behind as many operators as its index says. -/
theorem getElem?_index {b : UInt8} (hb : bytes[p]? = some b) (hop : Operator.ofByte? b = some op) :
    (operators bytes)[index bytes p]? = some op ∧ index bytes (p + 1) = index bytes p + 1 ∧
      offset bytes (index bytes p + 1) = p + 1 := by
  induction bytes generalizing p with
  | nil => simp at hb
  | cons b' bytes ih =>
    cases p with
    | zero =>
      obtain rfl : b' = b := by simpa using hb
      simp [index, operators, hop, offset_cons_some hop]
    | succ p =>
      obtain ⟨hget, hindex, hoffset⟩ := ih (p := p) (by simpa using hb)
      cases h' : Operator.ofByte? b' with
      | some op' => simp_all [index, operators, offset_cons_some h']
      | none => simp_all [index, operators, offset_cons_none h']

lemma index_inj {b b' : UInt8} {op' : Operator} (hp : bytes[p]? = some b) (hq : bytes[q]? = some b')
    (hop : Operator.ofByte? b = some op) (hop' : Operator.ofByte? b' = some op')
    (h : index bytes p = index bytes q) : p = q := by
  have hp := (getElem?_index hp hop).2.2
  have hq := (getElem?_index hq hop').2.2
  rw [h] at hp
  omega

/-- The last byte before the offset behind an operator spells it. -/
theorem exists_byte (h : (operators bytes)[i]? = some op) :
    ∃ p b, bytes[p]? = some b ∧ Operator.ofByte? b = some op ∧ index bytes p = i ∧
      offset bytes (i + 1) = p + 1 := by
  induction bytes generalizing i with
  | nil => simp [operators] at h
  | cons b bytes ih =>
    cases hb : Operator.ofByte? b with
    | some op' =>
      cases i with
      | zero =>
        obtain rfl : op' = op := by simpa [operators, hb] using h
        exact ⟨0, b, rfl, hb, rfl, by simp [offset_cons_some hb]⟩
      | succ i =>
        obtain ⟨p, b', hp, hop, hi, hoffset⟩ := ih (i := i) (by simpa [operators, hb] using h)
        refine ⟨p + 1, b', by simpa using hp, hop, ?_, by rw [offset_cons_some hb, hoffset]⟩
        simpa [index, operators, hb] using hi
    | none =>
      obtain ⟨p, b', hp, hop, hi, hoffset⟩ := ih (i := i) (by simpa [operators, hb] using h)
      refine ⟨p + 1, b', by simpa using hp, hop, ?_, by rw [offset_cons_none hb, hoffset]⟩
      simpa [index, operators, hb] using hi

lemma operators_between (bytes : List UInt8) (h : p ≤ q) :
    operators ((bytes.take q).drop p) =
      ((operators bytes).take (index bytes q)).drop (index bytes p) := by
  rw [operators_drop, operators_take, index_take bytes h]

/-- Partners among the bytes of a text are partners among its operators. -/
theorem partners_iff (hp : bytes[p]? = some Operator.loopStart.byte)
    (hq : bytes[q]? = some Operator.loopEnd.byte) :
    Partners bytes p q ↔ Brackets.Partners (operators bytes) (index bytes p) (index bytes q) := by
  obtain ⟨hopen, hnext, -⟩ := getElem?_index hp (Operator.ofByte?_byte _)
  obtain ⟨hclose, -, -⟩ := getElem?_index hq (Operator.ofByte?_byte _)
  constructor
  · intro h
    have hlt : index bytes (p + 1) ≤ index bytes q := index_mono bytes h.lt
    refine ⟨by omega, hopen, hclose, ?_⟩
    rw [← hnext, ← operators_between bytes (Nat.succ_le_of_lt h.lt)]
    exact h.between
  · intro h
    have hlt := lt_of_index_lt h.lt
    refine ⟨hlt, hp, hq, ?_⟩
    rw [operators_between bytes (Nat.succ_le_of_lt hlt), hnext]
    exact h.between

lemma byte_of_ofByte? {b : UInt8} (h : Operator.ofByte? b = some op) : b = op.byte := by
  apply UInt8.toNat_inj.1
  unfold Operator.ofByte? at h
  split at h <;> simp_all [Operator.byte] <;> subst h <;> rfl

/-- Partners among the operators are spelled by partners among the bytes. -/
theorem exists_partners (h : Brackets.Partners (operators bytes) i j) :
    ∃ p q, Partners bytes p q ∧ index bytes p = i ∧ index bytes q = j := by
  obtain ⟨p, b, hp, hop, rfl, -⟩ := exists_byte h.opening
  obtain ⟨q, b', hq, hop', rfl, -⟩ := exists_byte h.closing
  obtain rfl := byte_of_ofByte? hop
  obtain rfl := byte_of_ofByte? hop'
  exact ⟨p, q, (partners_iff hp hq).2 h, rfl, rfl⟩

/-- A bracket byte without a partner that opens before it. -/
def Stray (bytes : List UInt8) (q : Nat) : Prop :=
  bytes[q]? = some Operator.loopEnd.byte ∧ ∀ p, ¬ Partners bytes p q

theorem stray_iff (hq : bytes[q]? = some Operator.loopEnd.byte) :
    Stray bytes q ↔ Brackets.Stray (operators bytes) (index bytes q) := by
  have hop := (getElem?_index hq (Operator.ofByte?_byte _)).1
  rw [Stray, Brackets.Stray, and_iff_right hq, and_iff_right hop]
  refine ⟨fun h i hi => ?_, fun h p hp => h _ ((partners_iff hp.opening hq).1 hp)⟩
  obtain ⟨p, q', hp, -, hindex⟩ := exists_partners hi
  obtain rfl := index_inj hp.closing hq (Operator.ofByte?_byte _) (Operator.ofByte?_byte _) hindex
  exact h p hp

/-- An opening bracket has a partner among the bytes if it has one among the operators. -/
theorem unclosed_iff (hp : bytes[p]? = some Operator.loopStart.byte) :
    (∀ q, ¬ Partners bytes p q) ↔ ∀ j, ¬ Brackets.Partners (operators bytes) (index bytes p) j := by
  refine ⟨fun h j hj => ?_, fun h q hq => h _ ((partners_iff hp hq.closing).1 hq)⟩
  obtain ⟨p', q, hq, hindex, -⟩ := exists_partners hj
  obtain rfl := index_inj hq.opening hp (Operator.ofByte?_byte _) (Operator.ofByte?_byte _) hindex
  exact h q hq

instance : DecidablePred (Stray bytes) := fun q =>
  decidable_of_iff (bytes[q]? = some Operator.loopEnd.byte ∧
    Brackets.Stray (operators bytes) (index bytes q))
    ⟨fun h => (stray_iff h.1).2 h.2, fun h => ⟨h.1, (stray_iff h.1).1 h⟩⟩

/-- The offsets of the closing brackets without a partner. -/
def strays (bytes : List UInt8) : List Nat := (List.range bytes.length).filter (Stray bytes)

/-- The closing brackets without a partner are the same, whether counted by bytes or by operators. -/
theorem strays_eq (bytes : List UInt8) :
    strays bytes = ((List.range (operators bytes).length).filter
      (Brackets.Stray (operators bytes))).map fun j => offset bytes (j + 1) - 1 := by
  refine List.Pairwise.eq_of_mem_iff (List.pairwise_lt_range.filter _) ?_ fun q => ?_
  · rw [List.pairwise_map]
    refine (List.pairwise_lt_range.filter _).imp_of_mem fun {j j'} hj hj' hlt => ?_
    simp only [List.mem_filter, decide_eq_true_eq] at hj hj'
    obtain ⟨p, b, -, -, hp, hoffset⟩ := exists_byte hj.2.1
    obtain ⟨p', b', -, -, hp', hoffset'⟩ := exists_byte hj'.2.1
    have hpp : p < p' := lt_of_index_lt (show index bytes p < index bytes p' by omega)
    omega
  · simp only [strays, List.mem_filter, List.mem_range, List.mem_map, decide_eq_true_eq]
    constructor
    · rintro ⟨-, hq⟩
      obtain ⟨hop, -, hoffset⟩ := getElem?_index hq.1 (Operator.ofByte?_byte _)
      exact ⟨index bytes q, ⟨(List.getElem?_eq_some_iff.1 hop).1, (stray_iff hq.1).1 hq⟩, by
        rw [hoffset, Nat.add_sub_cancel]⟩
    · rintro ⟨j, ⟨-, hj⟩, rfl⟩
      obtain ⟨p, b, hb, hop, rfl, hoffset⟩ := exists_byte hj.1
      obtain rfl := byte_of_ofByte? hop
      rw [hoffset, Nat.add_sub_cancel]
      exact ⟨(List.getElem?_eq_some_iff.1 hb).1, (stray_iff hb).2 hj⟩

/-- Offsets are the same in a part of the text that reaches far enough. -/
lemma offset_take (h : l ≤ index bytes p) : offset (bytes.take p) l = offset bytes l := by
  induction bytes generalizing p l with
  | nil => simp
  | cons b bytes ih =>
    cases l with
    | zero => simp
    | succ l =>
      cases p with
      | zero => simp [index, operators] at h
      | succ p =>
        cases hb : Operator.ofByte? b with
        | some op =>
          have h : l ≤ index bytes p := by simpa [index, operators, hb] using h
          rw [List.take_succ_cons, offset_cons_some hb, offset_cons_some hb, ih h]
        | none =>
          have h : l + 1 ≤ index bytes p := by simpa [index, operators, hb] using h
          rw [List.take_succ_cons, offset_cons_none hb, offset_cons_none hb, ih h]

/-- Labels that are taken from the offset behind a byte can be counted by operators. -/
lemma filterMap_zipIdx {α : Type} (f : Nat → α) (bytes : List UInt8) (n : Nat) :
    ((bytes.zipIdx n).filterMap fun x => (Operator.ofByte? x.1).map (·, f (x.2 + 1))) =
      ((operators bytes).zipIdx 1).map fun x => (x.1, f (n + offset bytes x.2)) := by
  induction bytes generalizing n with
  | nil => rfl
  | cons b bytes ih =>
    cases hb : Operator.ofByte? b with
    | some op =>
      have hshift : (operators bytes).zipIdx 2 =
          ((operators bytes).zipIdx 1).map fun x => (x.1, x.2 + 1) := List.zipIdx_succ
      have hops : operators (b :: bytes) = op :: operators bytes := List.filterMap_cons_some hb
      simp only [List.zipIdx_cons, List.filterMap_cons, hb, Option.map_some, ih, hops, hshift,
        List.map_cons, List.map_map]
      simp [offset_cons_some hb, Nat.add_assoc, Nat.add_comm 1]
    | none =>
      simp only [List.zipIdx_cons, List.filterMap_cons, hb, Option.map_none, ih, operators]
      refine List.map_congr_left fun x hx => ?_
      obtain ⟨l, hl⟩ : ∃ l, x.2 = l + 1 := ⟨x.2 - 1, by have := List.le_snd_of_mem_zipIdx hx; omega⟩
      rw [hl, offset_cons_none hb]
      congr 2
      omega

/-- The operators in the first `p` bytes of a text, each with the note of a loop that opens there. -/
def noted (bytes : List UInt8) (p : Nat) : List (Operator × Frame) :=
  (bytes.take p).zipIdx.filterMap fun (b, q) =>
    (Operator.ofByte? b).map (·, ⟨q + 1, Location.after (bytes.take (q + 1))⟩)

end Decoding

/-- The first `i` operators of a listing, each with the note of a loop that opens there. -/
def Listing.noted (l : Listing) (i : Nat) : List (Operator × Frame) :=
  (l.code.toList.take i).zipIdx.map fun (x, k) => (x.operator, ⟨k + 1, x.location⟩)

namespace Edition

variable {e : Edition}

/-- The position tells how many operators are behind a source. -/
theorem position_inj {i j : Nat} (hi : i ≤ e.operators.length) (hj : j ≤ e.operators.length)
    (h : e.position i = e.position j) : i = j := by
  unfold position at h
  split at h
  · omega
  · have hoffset : Decoding.offset e.bytes i = Decoding.offset e.bytes j := Int.ofNat.inj h
    rw [← Decoding.index_offset e.bytes hi, hoffset, Decoding.index_offset e.bytes hj]

/-- The brackets that are left open in a part of the text are the open loops. -/
theorem leftOpen_noted (hp : e.precompile = false) (i : Nat) :
    leftOpen (Decoding.noted e.bytes (e.offset i)) = (openLoops e.operators i).map e.frame := by
  have hops : Decoding.operators (e.bytes.take (e.offset i)) = e.operators.take i :=
    Decoding.operators_take_offset e.bytes i
  have hnoted := Decoding.filterMap_zipIdx
    (fun q => (⟨q, Location.after (e.bytes.take q)⟩ : Frame)) (e.bytes.take (e.offset i)) 0
  simp only [hops, Nat.zero_add] at hnoted
  rw [openLoops, ← leftOpen_map]
  refine congrArg leftOpen (hnoted.trans (List.map_congr_left fun x hx => ?_))
  have hle : x.2 ≤ Decoding.index e.bytes (e.offset i) := by
    have := List.snd_lt_of_mem_zipIdx hx
    rw [Decoding.index, hops]
    omega
  rw [Decoding.offset_take hle, frame, position_stream hp]
  rfl

/-- The brackets that are left open in a part of the listing are the open loops. -/
theorem leftOpen_listing (hp : e.precompile = true) (i : Nat) :
    leftOpen ((Listing.ofText e.scan e.text).1.noted i) = (openLoops e.operators i).map e.frame := by
  obtain ⟨code, hcode, hops, hplaces⟩ := Listing.ofText_eq e.scan e.text
  rw [openLoops, ← leftOpen_map, hcode]
  refine congrArg leftOpen (List.ext_getElem? fun k => ?_)
  have hget : e.operators[k]? = code[k]?.map (·.operator) := by
    rw [← List.getElem?_map, hops]
    rfl
  by_cases hk : k < i
  · cases hx : code[k]? with
    | none => simp [Listing.noted, List.getElem?_zipIdx, hk, hget, hx]
    | some x =>
      obtain ⟨hlt, rfl⟩ := List.getElem?_eq_some_iff.1 hx
      simp [Listing.noted, List.getElem?_zipIdx, hk, hget, hx, hplaces k hlt, frame,
        position_compiled hp, place, bytes, Nat.add_comm 1]
  · simp [Listing.noted, hk]

end Edition

end Brainfuck
