import Mathlib.Data.List.DropRight
import Brainfuck.Proofs.Decoding.Text

/-! # Places by counting

The place behind a text is told by counting its line feeds and the bytes after the last of them. What
decoding remarks on between two offsets is one remark for each byte there that spells nothing, in order,
each at the place behind its byte. -/
namespace Brainfuck

/-- The place behind a text: its line is one more than the line feeds, and its column is the number of
bytes after the last line feed, where carriage returns do not count. -/
def Location.counted (text : List UInt8) : Location where
  line := 1 + text.count 10
  column := (text.rtakeWhile (· ≠ 10)).countP (· ≠ 13)

theorem Location.after_eq_counted (text : List UInt8) : after text = counted text := by
  induction text using List.reverseRecOn with
  | nil => rfl
  | append_singleton text b ih =>
    rw [after_append, ih, List.foldl_cons, List.foldl_nil]
    by_cases hfeed : b = 10
    · subst hfeed
      simp [advance, counted, List.count_append, Int.add_assoc]
    · by_cases hreturn : b = 13
      · subst hreturn
        simp [advance, counted]
      · simp [advance, counted, hfeed, hreturn]

namespace Decoding

variable {bytes : List UInt8} {i p q : Nat} {b : UInt8}

/-- The remark on the byte at an offset of a text, if it spells nothing and is no layout. -/
def remarkAt? (bytes : List UInt8) (p : Nat) : Option Diagnostic :=
  bytes[p]?.bind (remark? (Location.counted (bytes.take (p + 1))))

theorem place_eq (bytes : List UInt8) (i : Nat) :
    place bytes i = Location.counted (bytes.take (offset bytes i)) :=
  Location.after_eq_counted _

lemma remarks_succ (hp : p < bytes.length) : remarks bytes p (p + 1) = (remarkAt? bytes p).toList := by
  have hread : (bytes.take (p + 1)).drop p = [bytes[p]] := by
    rw [← List.take_append_getElem hp, List.drop_append_of_le_length (by simp; omega)]
    simp
  have hplace : Location.counted (bytes.take (p + 1)) =
      (Location.after (bytes.take p)).advance bytes[p] := by
    rw [← Location.after_eq_counted, ← List.take_append_getElem hp, Location.after_append]
    rfl
  rw [remarks, hread, remarkAt?, List.getElem?_eq_getElem hp, Option.bind_some, hplace]
  exact List.append_nil _

/-- What is remarked on between two offsets are the bytes there, one by one. -/
theorem remarks_eq_filterMap (hpq : p ≤ q) (hq : q ≤ bytes.length) :
    remarks bytes p q = (List.range' p (q - p)).filterMap (remarkAt? bytes) := by
  obtain ⟨n, rfl⟩ := Nat.exists_eq_add_of_le hpq
  rw [Nat.add_sub_cancel_left]
  clear hpq
  induction n with
  | zero => simp
  | succ n ih =>
    rw [← remarks_append bytes (Nat.le_add_right p n) (by omega), ih (by omega),
      show p + (n + 1) = p + n + 1 from rfl, remarks_succ (by omega), List.range'_1_concat,
      List.filterMap_append]
    cases h : remarkAt? bytes (p + n) <;> simp [h]

end Decoding

end Brainfuck
