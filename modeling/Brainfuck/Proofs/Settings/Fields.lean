import Brainfuck.Proofs.Number.Decimal
import Brainfuck.Proofs.Settings.Entries
import Brainfuck.Proofs.Text.Stripping
import Brainfuck.Settings.Merge

/-! # Fields of settings

Valid settings are told by what they hold in each field. A draft that is not yet known to be valid holds in
each field something valid or not, and it is valid as a whole if it is so in each field. A value given for
a field is read on its own: whether it fits, and what the field holds then, does not depend on the other
fields. -/
namespace Brainfuck

namespace Settings

/-- What a field holds in valid settings. -/
def Field.Content : Field → Type
  | tapeLength => Nat
  | cellMax => Nat
  | stepLimit => Option Nat
  | skipScan => SkipScan
  | precompile => Bool

def get (s : Settings) : (f : Field) → f.Content
  | .tapeLength => s.tapeLength
  | .cellMax => s.cellMax
  | .stepLimit => s.stepLimit
  | .skipScan => s.skipScan
  | .precompile => s.precompile

variable {s s' : Settings} {d d' : Draft} {f g : Field} {v : Value}

lemma ext_get (h : ∀ f, s.get f = s'.get f) : s = s' := by
  obtain ⟨l, c, n, k, p⟩ := s
  obtain ⟨l', c', n', k', p'⟩ := s'
  obtain rfl : l = l' := h .tapeLength
  obtain rfl : c = c' := h .cellMax
  obtain rfl : n = n' := h .stepLimit
  obtain rfl : k = k' := h .skipScan
  obtain rfl : p = p' := h .precompile
  rfl

/-- A number of at least one. -/
def positive? (n : Int) : Option Nat := if 1 ≤ n then some n.toNat else none

/-- What a field of valid settings holds when a value is given for it, if the value has the form of the
field and lies in its range. -/
def Field.read? : (f : Field) → Value → Option f.Content
  | tapeLength, v => (wholeNumber? v).bind positive?
  | cellMax, v => (wholeNumber? v).bind positive?
  | stepLimit, v => (wholeNumber? v).bind fun n => (positive? n).map some
  | skipScan, v => SkipScan.ofWord? (word v)
  | precompile, v => truth? v

/-- What a field of a draft holds, if that is valid. -/
def Draft.content? (d : Draft) : (f : Field) → Option f.Content
  | .tapeLength => positive? d.tapeLength
  | .cellMax => positive? d.cellMax
  | .stepLimit => d.stepLimit.elim (some none) fun n => (positive? n).map some
  | .skipScan => SkipScan.ofWord? d.skipScan
  | .precompile => some d.precompile

lemma positive?_natCast {n : Nat} (h : 0 < n) : positive? n = some n := by
  simp only [positive?, Int.toNat_natCast, ite_eq_left_iff]
  omega

/-- Settings are valid in each field. -/
lemma content?_draft (s : Settings) (f : Field) : s.draft.content? f = some (s.get f) := by
  cases f with
  | tapeLength => exact positive?_natCast s.tapeLength_pos
  | cellMax => exact positive?_natCast s.cellMax_pos
  | stepLimit =>
    have hpos := s.stepLimit_pos
    cases hlimit : s.stepLimit with
    | none => simp [Draft.content?, draft, get, hlimit]
    | some n =>
      simp only [Draft.content?, draft, get, hlimit]
      exact congrArg (Option.map some) (positive?_natCast (hpos n hlimit))
  | skipScan => exact SkipScan.ofWord?_word s.skipScan
  | precompile => rfl

lemma positive?_of_le {n : Int} (h : 1 ≤ n) : positive? n = some n.toNat := if_pos h

lemma le_of_positive? {n : Int} (h : (positive? n).isSome) : 1 ≤ n := by
  by_contra hn
  simp [positive?, hn] at h

lemma checkLimit_eq_ok {n : Option Int} {limit : { limit : Option Nat // ∀ n ∈ limit, 0 < n }}
    (h : checkLimit n = .ok limit) :
    (n.elim (some none) fun n => (positive? n).map some) = some limit.1 := by
  cases n with
  | none =>
    obtain rfl := Except.ok.inj h
    rfl
  | some n =>
    by_cases hn : 1 ≤ n
    · simp only [checkLimit, hn, dite_true, Except.ok.injEq] at h
      subst h
      exact congrArg (Option.map some) (positive?_of_le hn)
    · simp [checkLimit, hn] at h

lemma exists_checkLimit {n : Option Int}
    (h : (n.elim (some none) fun n => (positive? n).map some).isSome) :
    ∃ limit, checkLimit n = .ok limit := by
  cases n with
  | none => exact ⟨_, rfl⟩
  | some n =>
    have hn : 1 ≤ n := le_of_positive? (by simpa using h)
    simp [checkLimit, hn]

/-- A draft that is found valid keeps what it holds. -/
lemma content?_of_check (h : d.check = .ok s) (f : Field) : d.content? f = some (s.get f) := by
  unfold Draft.check at h
  split at h
  next hl =>
    split at h
    next hc =>
      cases hlimit : checkLimit d.stepLimit with
      | error e => simp [hlimit] at h
      | ok limit =>
        obtain ⟨limit, hpos⟩ := limit
        cases hscan : SkipScan.ofWord? d.skipScan with
        | none => simp [hlimit, hscan] at h
        | some scan =>
          simp only [hlimit, hscan, Except.ok.injEq] at h
          subst h
          cases f with
          | tapeLength => exact positive?_of_le hl
          | cellMax => exact positive?_of_le hc
          | stepLimit => exact checkLimit_eq_ok hlimit
          | skipScan => exact hscan
          | precompile => rfl
    · simp at h
  · simp at h

/-- A draft is found valid if it is so in each field. -/
lemma exists_check (h : ∀ f, (d.content? f).isSome) : ∃ s, d.check = .ok s := by
  have hl := le_of_positive? (h .tapeLength)
  have hc := le_of_positive? (h .cellMax)
  obtain ⟨limit, hlimit⟩ := exists_checkLimit (h .stepLimit)
  obtain ⟨scan, hscan⟩ := Option.isSome_iff_exists.1 (h .skipScan)
  have hscan : SkipScan.ofWord? d.skipScan = some scan := hscan
  simp [Draft.check, hl, hc, hlimit, hscan]

/-! ## Values with long numbers -/

lemma mem_between (c : Char) (s back : String) : c ∈ (String.singleton c ++ s ++ back).toList := by
  simp

/-- A value with a long number has a character that is no letter: a collection begins with a bracket, and a
number has a sign or a digit. -/
lemma exists_mark (h : v.hasLongNumber = true) :
    ∃ c ∈ v.plain.toList, c.isDigit = true ∨ c ∈ ['-', '[', '(', '\x7b'] := by
  cases v with
  | int n =>
    cases n with
    | ofNat n =>
      obtain ⟨d, ds, hdigits, hd⟩ := Numeral.toDigits_eq_cons n
      refine ⟨d, ?_, .inl hd⟩
      change d ∈ (toString n).toList
      rw [Numeral.toList_toString, hdigits]
      exact List.mem_cons_self ..
    | negSucc n =>
      refine ⟨'-', ?_, .inr (by decide)⟩
      change '-' ∈ ("-" ++ toString (n + 1)).toList
      simp
  | list items => exact ⟨'[', mem_between '[' _ "]", .inr (by decide)⟩
  | row items =>
    refine ⟨'(', ?_, .inr (by decide)⟩
    rcases items with _ | ⟨item, _ | ⟨next, rest⟩⟩
    · exact mem_between '(' _ ")"
    · exact mem_between '(' _ ",)"
    · exact mem_between '(' _ ")"
  | set items =>
    refine ⟨'\x7b', ?_, .inr (by decide)⟩
    cases items with
    | nil => cases h
    | cons item rest => exact mem_between '\x7b' _ "\x7d"
  | map entries => exact ⟨'\x7b', mem_between '\x7b' _ "\x7d", .inr (by decide)⟩
  | null | bool | float | text | bytes | date | moment | again => cases h

/-- Such a character stays where it is when blanks are stripped and letters lowered. -/
lemma mem_word_of_mark {c : Char} (hc : c ∈ v.plain.toList)
    (hmark : c.isDigit = true ∨ c ∈ ['-', '[', '(', '\x7b']) : c ∈ (word v).toList := by
  have hplain : c.toLower = c ∧ Text.isBlank c = false ∧ c.toNat < 128 := by
    obtain hdigit | hmark := hmark
    · obtain ⟨hle, hge⟩ := Numeral.toNat_of_isDigit hdigit
      refine ⟨(Text.toLower_eq_self_or c).resolve_right (by omega), ?_, by omega⟩
      simp [Text.isBlank]
      omega
    · simp only [List.mem_cons, List.not_mem_nil, or_false] at hmark
      rcases hmark with rfl | rfl | rfl | rfl <;> decide
  obtain ⟨hlower, hblank, hsmall⟩ := hplain
  have hmem := Text.mem_lower_strip hc hblank hsmall
  rwa [hlower, ← String.toList_ofList (l := Text.lower _)] at hmem

/-- A value with a long number does not say how loops are skipped. -/
theorem ofWord?_of_hasLongNumber (h : v.hasLongNumber = true) : SkipScan.ofWord? (word v) = none := by
  obtain ⟨c, hc, hmark⟩ := exists_mark h
  have hword := mem_word_of_mark hc hmark
  have hne {w : String} (hletters : w.toList.all Char.isAlpha = true) : word v ≠ w := by
    rintro rfl
    have hletter := List.all_eq_true.1 hletters c hword
    obtain hdigit | hmark := hmark
    · rw [Numeral.isAlpha_of_isDigit hdigit] at hletter
      cases hletter
    · simp only [List.mem_cons, List.not_mem_nil, or_false] at hmark
      rcases hmark with rfl | rfl | rfl | rfl <;> revert hletter <;> decide
  rw [SkipScan.ofWord?, if_neg (hne (by decide)), if_neg (hne (by decide))]

/-! ## Giving a field a value -/

lemma content?_set?_self (h : d.set? f v = some d') : d'.content? f = f.read? v := by
  cases f with
  | tapeLength | cellMax | stepLimit =>
    obtain ⟨n, hn, rfl⟩ := Option.map_eq_some_iff.1 h
    rw [Field.read?, hn]
    rfl
  | skipScan =>
    obtain ⟨-, hd⟩ := Option.ite_none_left_eq_some.1 h
    obtain rfl := Option.some.inj hd
    rfl
  | precompile =>
    obtain ⟨b, hb, rfl⟩ := Option.map_eq_some_iff.1 h
    exact hb.symm

/-- A value that fits changes its field only. -/
lemma content?_set?_of_ne (h : d.set? f v = some d') (hg : g ≠ f) : d'.content? g = d.content? g := by
  cases f with
  | tapeLength | cellMax | stepLimit | precompile =>
    obtain ⟨c, -, rfl⟩ := Option.map_eq_some_iff.1 h
    cases g <;> first | rfl | exact absurd rfl hg
  | skipScan =>
    obtain ⟨-, hd⟩ := Option.ite_none_left_eq_some.1 h
    obtain rfl := Option.some.inj hd
    generalize word v = scan
    cases g <;> first | rfl | exact absurd rfl hg

/-- A value in the range of a field fits it. -/
lemma exists_set? (h : (f.read? v).isSome) (d : Draft) : ∃ d', d.set? f v = some d' := by
  cases f with
  | tapeLength | cellMax | stepLimit =>
    cases hn : wholeNumber? v with
    | none =>
      rw [Field.read?, hn] at h
      cases h
    | some n => simp [Draft.set?, hn]
  | skipScan =>
    have hshort : ¬ v.hasLongNumber = true := by
      intro hlong
      rw [Field.read?, ofWord?_of_hasLongNumber hlong] at h
      cases h
    exact ⟨_, if_neg hshort⟩
  | precompile =>
    obtain ⟨b, hb⟩ := Option.isSome_iff_exists.1 h
    exact ⟨{ d with precompile := b }, congrArg (Option.map _) hb⟩

end Settings

end Brainfuck
