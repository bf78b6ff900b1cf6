import Mathlib.Algebra.Ring.Nat
import Mathlib.Data.List.TakeWhile
import Brainfuck.Number.Numeral

/-! # Numbers written in decimal digits

A natural number that is written in decimal digits is read back, if there are not too many digits. Blanks may
stand around it, but for the separators of records: where one of these stands before or behind the digits,
there is no numeral. A number that is read has no more digits than are written. -/
namespace Brainfuck.Numeral

open Text

variable {c : Char} {digits rest front back : List Char} {n : Nat} {text : String}

/-! ## Characters -/

lemma toNat_of_isDigit (h : c.isDigit = true) : 48 ≤ c.toNat ∧ c.toNat ≤ 57 := by
  simp only [Char.isDigit, Bool.and_eq_true, decide_eq_true_eq] at h
  exact ⟨UInt32.le_iff_toNat_le.1 h.1, UInt32.le_iff_toNat_le.1 h.2⟩

lemma digitIn?_of_isDigit (h : c.isDigit = true) : digitIn? 10 c = some (c.toNat - '0'.toNat) := by
  obtain ⟨h₁, h₂⟩ := toNat_of_isDigit h
  have hdigit : digit? c = some (c.toNat - 48) := by
    have hrow : 48 ≤ c.toNat ∧ c.toNat < 48 + 10 := by omega
    simp [digit?, zeros, hrow]
  have hlt : c.toNat - 48 < 10 := by omega
  simp [digitIn?, hdigit, hlt]

/-- No row of digits has a blank in it. -/
lemma isBlank_of_row : ∀ z ∈ zeros, ∀ d < 10, isBlank (Char.ofNat (z + d)) = false := by
  decide +kernel

lemma isAlpha_eq_false (h : c.toNat < 65 ∨ 122 < c.toNat) : c.isAlpha = false := by
  have hupper : c.isUpper = decide (65 ≤ c.toNat ∧ c.toNat ≤ 90) := rfl
  have hlower : c.isLower = (decide (97 ≤ c.toNat) && decide (c.toNat ≤ 122)) := rfl
  have hletter : c.isAlpha = (c.isUpper || c.isLower) := rfl
  simp only [hletter, hupper, hlower, Bool.or_eq_false_iff, Bool.and_eq_false_iff, decide_eq_false_iff_not]
  omega

lemma isAlpha_of_isBlank (h : isBlank c = true) : c.isAlpha = false := by
  apply isAlpha_eq_false
  simp only [isBlank, Bool.or_eq_true, Bool.and_eq_true, decide_eq_true_eq, beq_iff_eq] at h
  omega

lemma isAlpha_of_isDigit (h : c.isDigit = true) : c.isAlpha = false := by
  have := toNat_of_isDigit h
  exact isAlpha_eq_false (by omega)

/-- A blank is no digit in any base. -/
lemma digitIn?_of_isBlank (base : Nat) (h : isBlank c = true) : digitIn? base c = none := by
  have hdigit : digit? c = none := by
    rw [digit?, Option.map_eq_none_iff, List.find?_eq_none]
    intro z hz hrow
    simp only [Bool.and_eq_true, decide_eq_true_eq] at hrow
    have hblank := isBlank_of_row z hz (c.toNat - z) (by omega)
    rw [Nat.add_sub_cancel' hrow.1, Char.ofNat_toNat, h] at hblank
    cases hblank
  simp [digitIn?, hdigit, isAlpha_of_isBlank h]

lemma isMargin_of_isDigit (h : c.isDigit = true) : isMargin c = false := by
  obtain ⟨h₁, h₂⟩ := toNat_of_isDigit h
  simp [isMargin, isBlank]
  omega

lemma takeSign_cons (hminus : c ≠ '-') (hplus : c ≠ '+') (rest : List Char) :
    takeSign (c :: rest) = (false, c :: rest) := by
  unfold takeSign
  split
  · simp_all
  · simp_all
  · rfl

lemma dropBaseMark_ten (body : List Char) : dropBaseMark 10 body = body := by
  unfold dropBaseMark
  simp only [show ¬ (10 = 2) by omega, show ¬ (10 = 8) by omega, show ¬ (10 = 16) by omega, if_false,
    reduceCtorEq]
  split <;> rfl

/-! ## Digits -/

/-- Digits are taken as long as there are some. -/
lemma takeDigitsAfter_append (hdigits : ∀ c ∈ digits, c.isDigit = true)
    (hrest : ∀ c ∈ rest.head?, c ≠ '_' ∧ digitIn? 10 c = none) (afterDigit : Bool) :
    takeDigitsAfter 10 afterDigit (digits ++ rest) =
      some (digits.map fun c => c.toNat - '0'.toNat, rest) := by
  induction digits generalizing afterDigit with
  | nil =>
    cases rest with
    | nil => rfl
    | cons c rest =>
      obtain ⟨hunderscore, hdigit⟩ := hrest c rfl
      simp [takeDigitsAfter, hunderscore, hdigit]
  | cons c digits ih =>
    obtain ⟨hc, hdigits⟩ := List.forall_mem_cons.1 hdigits
    have hunderscore : c ≠ '_' := by
      rintro rfl
      exact absurd hc (by decide)
    rw [List.cons_append, takeDigitsAfter]
    simp [hunderscore, digitIn?_of_isDigit hc, ih hdigits true]

lemma toList_toString (n : Nat) : (toString n).toList = Nat.toDigits 10 n := by
  rw [Nat.toString_eq_repr, Nat.toList_repr]

lemma isDigit_of_mem_toDigits (h : c ∈ Nat.toDigits 10 n) : c.isDigit = true :=
  Nat.isDigit_of_mem_toDigits (by omega) (by omega) h

lemma toDigits_eq_cons (n : Nat) : ∃ d ds, Nat.toDigits 10 n = d :: ds ∧ d.isDigit = true := by
  obtain ⟨d, ds, hds⟩ := List.exists_cons_of_ne_nil (Nat.toDigits_ne_nil (n := n) (b := 10))
  exact ⟨d, ds, hds, isDigit_of_mem_toDigits (hds ▸ List.mem_cons_self ..)⟩

/-- The digits of a number have it as their value. -/
lemma ofDigitsIn_toDigits (n : Nat) :
    ofDigitsIn 10 ((Nat.toDigits 10 n).map fun c => c.toNat - '0'.toNat) = n := by
  rw [ofDigitsIn, List.foldl_map, ← Nat.ofDigitChars_eq_foldl]
  exact Nat.ofDigitChars_ten_toDigits

/-! ## Numerals -/

/-- What begins with a blank that may not stand around a numeral is none. -/
lemma parseInt_of_separator (htext : text.toList.dropWhile isMargin = c :: rest) (hc : isBlank c = true) :
    (parseInt text).toOption = none := by
  have hsign : takeSign (c :: rest) = (false, c :: rest) := by
    apply takeSign_cons <;> rintro rfl <;> exact absurd hc (by decide)
  have hdigits : takeDigitsAfter 10 false (c :: rest) = some ([], c :: rest) := by
    simp [takeDigitsAfter, digitIn?_of_isBlank 10 hc]
  simp [parseInt, parseBase, htext, hsign, dropBaseMark_ten, hdigits, Except.toOption]

/-- Digits in front of blanks are read if numerals may have all of these behind them. -/
lemma parseInt_of_digits (htext : text.toList.dropWhile isMargin = Nat.toDigits 10 n ++ back)
    (hback : ∀ c ∈ back, isBlank c = true) (hlength : (Nat.toDigits 10 n).length ≤ maxDigits) :
    (parseInt text).toOption = if back.all isMargin then some (n : Int) else none := by
  obtain ⟨d, ds, hds, hd⟩ := toDigits_eq_cons n
  have hsign : takeSign (Nat.toDigits 10 n ++ back) = (false, Nat.toDigits 10 n ++ back) := by
    rw [hds]
    apply takeSign_cons <;> rintro rfl <;> exact absurd hd (by decide)
  have hrest : ∀ c ∈ back.head?, c ≠ '_' ∧ digitIn? 10 c = none := by
    intro c hc
    have hblank := hback c (List.mem_of_mem_head? hc)
    refine ⟨?_, digitIn?_of_isBlank 10 hblank⟩
    rintro rfl
    exact absurd hblank (by decide)
  have htaken := takeDigitsAfter_append (fun _ => isDigit_of_mem_toDigits (n := n)) hrest false
  have hsome : ((Nat.toDigits 10 n).map fun c => c.toNat - '0'.toNat).isEmpty = false := by simp [hds]
  rw [parseInt, parseBase]
  simp only [htext, hsign, dropBaseMark_ten, htaken, hsome, List.length_map, Nat.not_lt.2 hlength,
    ofDigitsIn_toDigits]
  cases back.all isMargin <;> simp [Except.toOption]

/-- A number with blanks around its digits is read, unless there is a separator of records among them. -/
theorem parseInt_surrounded (htext : text.toList = front ++ (toString n).toList ++ back)
    (hfront : ∀ c ∈ front, isBlank c = true) (hback : ∀ c ∈ back, isBlank c = true)
    (hlength : (toString n).length ≤ maxDigits) :
    (parseInt text).toOption = if (front ++ back).all isMargin then some (n : Int) else none := by
  rw [← String.length_toList, toList_toString] at hlength
  rw [toList_toString, List.append_assoc] at htext
  cases hremaining : front.dropWhile isMargin with
  | nil =>
    have hall := List.dropWhile_eq_nil_iff.1 hremaining
    obtain ⟨d, ds, hds, hd⟩ := toDigits_eq_cons n
    rw [List.all_append, List.all_eq_true.2 hall, Bool.true_and]
    apply parseInt_of_digits _ hback hlength
    rw [htext, List.dropWhile_append_of_pos hall, hds, List.cons_append,
      List.dropWhile_cons_of_neg (by simp [isMargin_of_isDigit hd])]
  | cons c rest =>
    have hc : c ∈ front := (List.dropWhile_sublist isMargin).subset (hremaining ▸ List.mem_cons_self ..)
    have hneg : isMargin c = false := by
      have hhead := List.head?_dropWhile_not isMargin front
      simpa [hremaining] using hhead
    have hsome : (front ++ back).all isMargin = false :=
      List.all_eq_false.2 ⟨c, List.mem_append_left back hc, by simp [hneg]⟩
    have hbegins : text.toList.dropWhile isMargin = c :: (rest ++ (Nat.toDigits 10 n ++ back)) := by
      rw [htext, List.dropWhile_append, hremaining]
      rfl
    rw [hsome]
    exact parseInt_of_separator hbegins (hfront c hc)

/-! ## Numbers that are read -/

lemma isWritten_iff {written : Option Nat} {n : Int} :
    isWritten written n = true ↔ ∀ d ∈ written, n.natAbs < 10 ^ d := by
  simp [isWritten, Option.all_eq_true]

/-- A digit is below its base. -/
lemma lt_of_mem_takeDigitsAfter {base : Nat} {afterDigit : Bool} {taken : List Nat}
    (h : takeDigitsAfter base afterDigit digits = some (taken, rest)) : ∀ d ∈ taken, d < base := by
  induction digits generalizing afterDigit taken with
  | nil =>
    obtain ⟨rfl, -⟩ := Prod.mk.inj (Option.some.inj h)
    simp
  | cons c digits ih =>
    rw [takeDigitsAfter] at h
    split at h
    · split at h
      · exact ih h
      · cases h
    · cases hc : digitIn? base c with
      | none =>
        rw [hc] at h
        obtain ⟨rfl, -⟩ := Prod.mk.inj (Option.some.inj h)
        simp
      | some d =>
        rw [hc] at h
        obtain ⟨⟨more, following⟩, htaken, hcons⟩ := Option.map_eq_some_iff.1 h
        obtain ⟨rfl, rfl⟩ := Prod.mk.inj hcons
        have hd : d < base := by simpa using (Option.filter_eq_some_iff.1 hc).2
        exact List.forall_mem_cons.2 ⟨hd, ih htaken⟩

/-- Digits in a base make up a number below the power of their count. -/
lemma ofDigitsIn_lt {base : Nat} {ds : List Nat} (h : ∀ d ∈ ds, d < base) :
    ofDigitsIn base ds < base ^ ds.length := by
  have hfold (n : Nat) : ds.foldl (fun n d => base * n + d) n < (n + 1) * base ^ ds.length := by
    induction ds generalizing n with
    | nil => simp
    | cons d ds ih =>
      obtain ⟨hd, hds⟩ := List.forall_mem_cons.1 h
      have hnext : base * n + d + 1 ≤ (n + 1) * base := by
        rw [Nat.add_mul, Nat.mul_comm base n]
        omega
      calc ds.foldl (fun n d => base * n + d) (base * n + d)
          < (base * n + d + 1) * base ^ ds.length := ih hds _
        _ ≤ (n + 1) * base * base ^ ds.length := Nat.mul_le_mul_right _ hnext
        _ = (n + 1) * base ^ (ds.length + 1) := by rw [Nat.mul_assoc, ← Nat.pow_succ']
  simpa [ofDigitsIn] using hfold 0

/-- A number that is read can be written. -/
theorem isWritten_of_parseInt {n : Int} (h : parseInt text = .ok n) : isWritten (some maxDigits) n = true := by
  rw [isWritten_iff]
  intro places hplaces
  obtain rfl := Option.some.inj hplaces
  unfold parseInt parseBase at h
  dsimp only at h
  split at h
  · cases h
  next taken following htaken =>
    split at h
    · cases h
    split at h
    · cases h
    next hlength =>
      have hle : taken.length ≤ maxDigits := by simpa using hlength
      have hlt : ofDigitsIn 10 taken < 10 ^ maxDigits :=
        Nat.lt_of_lt_of_le (ofDigitsIn_lt (lt_of_mem_takeDigitsAfter htaken)) (Nat.pow_le_pow_right (by omega) hle)
      split at h
      · obtain rfl := Except.ok.inj h
        split
        · rwa [Int.natAbs_neg, Int.natAbs_natCast]
        · rwa [Int.natAbs_natCast]
      · cases h

end Brainfuck.Numeral
