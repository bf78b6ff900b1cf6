import Mathlib.Data.Option.Basic
import Brainfuck.Proofs.Number.Decimal
import Brainfuck.Proofs.Settings.Precedence
import Brainfuck.Proofs.Text.Stripping

/-! # Settings written down

What settings hold in their fields can be written as texts in the environment, with blanks around them and in
any letter case, and the settings that are then loaded are these settings. Around numbers the separators of
records do not count as blanks, and a number next to one is refused. Given the values of their own fields,
settings stay as they are. -/
namespace Brainfuck

namespace Settings

open Value Text

variable {s : Settings} {f : Field} {n : Nat} {text value : String} {layer : Layer}
  {environment : List (String × String)}

/-! ## Texts for fields -/

/-- The text for what a field holds. A limit that is absent has none. -/
def Field.text? : (f : Field) → f.Content → Option String
  | tapeLength => fun (n : Nat) => some (toString n)
  | cellMax => fun (n : Nat) => some (toString n)
  | stepLimit => fun (limit : Option Nat) => limit.map toString
  | skipScan => fun (scan : SkipScan) => some scan.word
  | precompile => fun (b : Bool) => some (if b then "true" else "false")

def Field.isNumber : Field → Bool
  | tapeLength | cellMax | stepLimit => true
  | skipScan | precompile => false

/-- No number has more digits than are read. -/
def FewDigits (s : Settings) : Prop :=
  ∀ f : Field, f.isNumber = true → ∀ text ∈ f.text? (s.get f), text.length ≤ Numeral.maxDigits

/-- A value that is a text in any letter case with blanks around it. -/
def Spells (value text : String) : Prop :=
  ∃ front body back : List Char, value.toList = front ++ body ++ back ∧
    (∀ c ∈ front, isBlank c = true) ∧ (∀ c ∈ back, isBlank c = true) ∧
    body.map Char.toLower = text.toList

/-- The control characters that separate records. -/
def isSeparator (c : Char) : Bool := 28 ≤ c.toNat && c.toNat ≤ 31

def hasSeparator (value : String) : Bool := value.toList.any isSeparator

lemma ne_empty_of_spells (h : Spells value text) (htext : text ≠ "") : value ≠ "" := by
  obtain ⟨front, body, back, hvalue, -, -, hbody⟩ := h
  rintro rfl
  obtain rfl : body = [] := by simp_all
  exact htext (String.toList_eq_nil_iff.1 hbody.symm)

/-- All of this can be computed. A statement about the members of a list is decided by a search through all
characters where they are known to be finitely many. -/
lemma spells_of_all (front body back : List Char)
    (h : value.toList = front ++ body ++ back ∧ front.all isBlank = true ∧ back.all isBlank = true ∧
      body.map Char.toLower = text.toList) : Spells value text := by
  obtain ⟨hvalue, hfront, hback, hbody⟩ := h
  exact ⟨front, body, back, hvalue, List.all_eq_true.1 hfront, List.all_eq_true.1 hback, hbody⟩

/-- Digits have no letter case. -/
lemma map_toLower_eq_toString_iff {body : List Char} :
    body.map Char.toLower = (toString n).toList ↔ body = (toString n).toList := by
  have hdigit {c : Char} (hc : c ∈ (toString n).toList) : c.toNat ≤ 57 := by
    rw [Numeral.toList_toString] at hc
    exact (Numeral.toNat_of_isDigit (Numeral.isDigit_of_mem_toDigits hc)).2
  have hself (hsmall : ∀ c ∈ body, c.toLower.toNat ≤ 57 ∨ c.toNat ≤ 57) : body.map Char.toLower = body := by
    -- Lower case changes only capitals, and what it makes of them is above the digits as well.
    have hsame : ∀ c ∈ body, c.toLower = c := by
      intro c hc
      obtain hlower | hcapital := toLower_eq_self_or c
      · exact hlower
      · have := hsmall c hc
        omega
    rw [List.map_congr_left hsame, List.map_id']
  constructor
  · intro h
    rw [← h, hself fun c hc => .inl (hdigit (h ▸ List.mem_map_of_mem hc))]
  · rintro rfl
    exact hself fun c hc => .inr (hdigit hc)

/-! ## Texts of numbers and words -/

lemma eq_toString_of_isNumber (hnumber : f.isNumber = true) (htext : f.text? (s.get f) = some text) :
    ∃ n : Nat, text = toString n := by
  cases f with
  | tapeLength | cellMax => exact ⟨_, (Option.some.inj htext).symm⟩
  | stepLimit =>
    obtain ⟨n, -, rfl⟩ := Option.map_eq_some_iff.1 htext
    exact ⟨n, rfl⟩
  | skipScan | precompile => cases hnumber

lemma mem_words_of_not_isNumber (hnumber : f.isNumber = false) (htext : f.text? (s.get f) = some text) :
    text ∈ ["nested", "legacy", "true", "false"] := by
  cases f with
  | tapeLength | cellMax | stepLimit => cases hnumber
  | skipScan =>
    have hscan (scan : SkipScan) : scan.word ∈ ["nested", "legacy", "true", "false"] := by
      cases scan <;> decide
    exact Option.some.inj htext ▸ hscan s.skipScan
  | precompile =>
    have hword (b : Bool) : (if b then "true" else "false") ∈ ["nested", "legacy", "true", "false"] := by
      cases b <;> decide
    exact Option.some.inj htext ▸ hword s.precompile

lemma text_ne_empty (htext : f.text? (s.get f) = some text) : text ≠ "" := by
  cases hnumber : f.isNumber with
  | true =>
    obtain ⟨n, rfl⟩ := eq_toString_of_isNumber hnumber htext
    obtain ⟨d, ds, hds, -⟩ := Numeral.toDigits_eq_cons n
    rw [Ne, ← String.toList_eq_nil_iff, Numeral.toList_toString, hds]
    exact List.cons_ne_nil d ds
  | false =>
    have hwords : ∀ word ∈ ["nested", "legacy", "true", "false"], word ≠ "" := by decide
    exact hwords text (mem_words_of_not_isNumber hnumber htext)

/-- The text of a field spells itself. -/
lemma spells_self (htext : f.text? (s.get f) = some text) : Spells text text := by
  have hlower : text.toList.map Char.toLower = text.toList := by
    cases hnumber : f.isNumber with
    | true =>
      obtain ⟨n, rfl⟩ := eq_toString_of_isNumber hnumber htext
      exact map_toLower_eq_toString_iff.2 rfl
    | false =>
      have hwords : ∀ word ∈ ["nested", "legacy", "true", "false"],
          word.toList.map Char.toLower = word.toList := by decide
      exact hwords text (mem_words_of_not_isNumber hnumber htext)
  exact ⟨[], text.toList, [], by simp, List.forall_mem_nil _, List.forall_mem_nil _, hlower⟩

/-! ## Reading what is spelled -/

lemma all_isMargin_eq {blanks : List Char} (h : ∀ c ∈ blanks, isBlank c = true) :
    blanks.all Numeral.isMargin = !blanks.any isSeparator := by
  rw [List.not_any_eq_all_not, Bool.eq_iff_iff, List.all_eq_true, List.all_eq_true]
  apply forall₂_congr
  intro c hc
  rw [Numeral.isMargin, h c hc, Bool.true_and]
  rfl

lemma any_isSeparator_toString (n : Nat) : (toString n).toList.any isSeparator = false := by
  rw [List.any_eq_false, Numeral.toList_toString]
  intro c hc
  have := Numeral.toNat_of_isDigit (Numeral.isDigit_of_mem_toDigits hc)
  simp only [isSeparator, Bool.and_eq_true, decide_eq_true_eq]
  omega

/-- A number that is spelled is read, unless a separator stands next to it. -/
lemma wholeNumber?_of_spells (h : Spells value (toString n)) (hlength : (toString n).length ≤ Numeral.maxDigits) :
    wholeNumber? (.text value) = if hasSeparator value then none else some (n : Int) := by
  obtain ⟨front, body, back, hvalue, hfront, hback, hbody⟩ := h
  obtain rfl := map_toLower_eq_toString_iff.1 hbody
  have hsurrounded : (front ++ back).all Numeral.isMargin = !hasSeparator value := by
    rw [hasSeparator, hvalue, List.any_append, List.any_append, any_isSeparator_toString, Bool.or_false, Bool.not_or,
      List.all_append, all_isMargin_eq hfront, all_isMargin_eq hback]
  rw [wholeNumber?, Numeral.parseInt_surrounded hvalue hfront hback hlength, hsurrounded]
  cases hasSeparator value <;> rfl

lemma positive_of_spells (hpos : 0 < n) (h : Spells value (toString n))
    (hlength : (toString n).length ≤ Numeral.maxDigits) :
    (wholeNumber? (.text value)).bind positive? = if hasSeparator value then none else some n := by
  rw [wholeNumber?_of_spells h hlength]
  cases hasSeparator value with
  | true => rfl
  | false => exact positive?_natCast hpos

lemma word_of_spells (h : Spells value text)
    (htext : text.toList.all (fun c => c.toNat < 128 && !isBlank c) = true) : word (.text value) = text := by
  obtain ⟨front, body, back, hvalue, hfront, hback, hbody⟩ := h
  have hplain : ∀ c ∈ text.toList, c.toNat < 128 ∧ isBlank c = false := by simpa using htext
  rw [word, plain, hvalue, lower_strip_surrounded hfront hback hbody hplain, String.ofList_toList]

lemma truth?_of_spells (b : Bool) (h : Spells value (if b then "true" else "false")) :
    truth? (.text value) = some b := by
  cases b with
  | true =>
    have hword : word (.text value) = "true" := word_of_spells h (by decide)
    simp [truth?, hword]
  | false =>
    have hword : word (.text value) = "false" := word_of_spells h (by decide)
    simp [truth?, hword]

/-- What is spelled for a field is read as what the field holds, unless it is a number with a separator. -/
theorem read?_of_spells (s : Settings) (f : Field) (htext : f.text? (s.get f) = some text)
    (h : Spells value text) (hlength : f.isNumber = true → text.length ≤ Numeral.maxDigits) :
    f.read? (.text value) = if f.isNumber && hasSeparator value then none else some (s.get f) := by
  cases f with
  | tapeLength =>
    obtain rfl := Option.some.inj htext
    exact positive_of_spells s.tapeLength_pos h (hlength rfl)
  | cellMax =>
    obtain rfl := Option.some.inj htext
    exact positive_of_spells s.cellMax_pos h (hlength rfl)
  | stepLimit =>
    obtain ⟨n, hn, rfl⟩ := Option.map_eq_some_iff.1 htext
    have hread : Field.stepLimit.read? (.text value) = ((wholeNumber? (.text value)).bind positive?).map some :=
      Option.map_bind.symm
    have hheld : some (s.get .stepLimit) = some (some n) := congrArg some hn
    rw [hread, positive_of_spells (s.stepLimit_pos n hn) h (hlength rfl)]
    cases hasSeparator value with
    | true => rfl
    | false => exact hheld.symm
  | skipScan =>
    obtain rfl := Option.some.inj htext
    have hword : word (.text value) = s.skipScan.word := word_of_spells h (by cases s.skipScan <;> decide)
    rw [Field.read?, hword, SkipScan.ofWord?_word]
    rfl
  | precompile =>
    obtain rfl := Option.some.inj htext
    rw [Field.read?, truth?_of_spells s.precompile h]
    rfl

/-! ## The environment -/

lemma lookup_eq_find? (name : String) (environment : List (String × String)) :
    environment.lookup name = (environment.find? fun (n, _) => n == name).map (·.2) := by
  induction environment with
  | nil => rfl
  | cons e rest ih =>
    obtain ⟨n, value⟩ := e
    by_cases hname : name = n
    · simp [hname]
    · simp [List.lookup_cons, beq_false_of_ne hname, Ne.symm hname, ih]

lemma textIn?_of_none (h : environment.reverse.lookup f.environmentName = none) :
    textIn? environment f = none := by
  rw [lookup_eq_find?, Option.map_eq_none_iff] at h
  rw [textIn?, h]

/-- A variable that is not empty gives its text. -/
lemma textIn?_of_some (h : environment.reverse.lookup f.environmentName = some value) (hvalue : value ≠ "") :
    textIn? environment f = some value := by
  rw [lookup_eq_find?] at h
  obtain ⟨e, he, rfl⟩ := Option.map_eq_some_iff.1 h
  rw [textIn?, he]
  exact if_neg fun hempty => hvalue (String.isEmpty_iff.1 hempty)

/-- Only an absent limit has no text, and the standard settings have none. -/
lemma get_of_text?_eq_none (h : f.text? (s.get f) = none) : s.get f = standard.get f := by
  cases f with
  | stepLimit => exact Option.map_eq_none_iff.1 h
  | _ => cases h

/-- Every field that has a text is spelled by its variable, and a field that has none has no variable. -/
def SpelledIn (environment : List (String × String)) (s : Settings) : Prop :=
  ∀ f : Field, Option.Rel Spells (environment.reverse.lookup f.environmentName) (f.text? (s.get f))

/-- A separator stands next to a number in the environment. -/
def SeparatorIn (environment : List (String × String)) : Prop :=
  ∃ f : Field, f.isNumber = true ∧
    ∃ value ∈ environment.reverse.lookup f.environmentName, hasSeparator value = true

/-- Without other layers the environment decides. -/
lemma layered_environment_eq_ok_iff : layered [] environment [] = .ok s ↔
    ∀ f, heldAfter ((textIn? environment f).map .text) f (some (standard.get f)) = some (s.get f) := by
  have hgiven (f : Field) : heldAfter (givenAll [] environment [] f).getLast? f (some (standard.get f)) =
      heldAfter ((textIn? environment f).map .text) f (some (standard.get f)) :=
    (heldAfter_givenAll _).symm
  rw [layered_eq_ok_iff]
  simp only [hgiven]
  constructor
  · exact And.right
  · intro h
    refine ⟨⟨List.forall_mem_nil _, List.forall_mem_nil _, fun f => ?_⟩, h⟩
    rw [forall_givenAll]
    exact ⟨fun v hv => (Option.not_mem_none v hv).elim, read_of_heldAfter (h f),
      fun v hv => (Option.not_mem_none v hv).elim⟩

/-- A field that is spelled comes to hold what was spelled, unless it is a number with a separator. -/
lemma heldAfter_of_spelled (h : SpelledIn environment s) (hdigits : s.FewDigits) (f : Field) :
    heldAfter ((textIn? environment f).map .text) f (some (standard.get f)) =
      if f.isNumber && (environment.reverse.lookup f.environmentName).any hasSeparator then none
      else some (s.get f) := by
  have hspelled := h f
  cases hvalue : environment.reverse.lookup f.environmentName with
  | none =>
    cases htext : f.text? (s.get f) with
    | none => simp [textIn?_of_none hvalue, heldAfter, get_of_text?_eq_none htext]
    | some text => simp [hvalue, htext] at hspelled
  | some value =>
    cases htext : f.text? (s.get f) with
    | none => simp [hvalue, htext] at hspelled
    | some text =>
      rw [hvalue, htext, Option.rel_some_some] at hspelled
      have hempty : value ≠ "" := ne_empty_of_spells hspelled (text_ne_empty htext)
      rw [textIn?_of_some hvalue hempty]
      exact read?_of_spells s f htext hspelled fun hnumber => hdigits f hnumber text htext

/-- Settings that are spelled in the environment are what the layers make up, unless a separator stands next
to a number: then nothing is made up. -/
theorem layered_eq_ok_iff_of_spelled (h : SpelledIn environment s) (hdigits : s.FewDigits) {s' : Settings} :
    layered [] environment [] = .ok s' ↔ s' = s ∧ ¬ SeparatorIn environment := by
  have hseparator : SeparatorIn environment ↔
      ∃ f : Field, (f.isNumber && (environment.reverse.lookup f.environmentName).any hasSeparator) = true := by
    simp only [Bool.and_eq_true, Option.any_eq_true]
    rfl
  simp only [layered_environment_eq_ok_iff, heldAfter_of_spelled h hdigits, hseparator, not_exists]
  constructor
  · intro hget
    have hfield (f : Field) := Option.ite_none_left_eq_some.1 (hget f)
    refine ⟨?_, fun f => (hfield f).1⟩
    apply ext_get
    intro f
    exact (Option.some.inj (hfield f).2).symm
  · rintro ⟨rfl, hnone⟩ f
    exact if_neg (hnone f)

/-! ## Values of fields -/

/-- The value that a field holds. -/
def Field.valueOf : (f : Field) → f.Content → Value
  | tapeLength => fun (n : Nat) => .int n
  | cellMax => fun (n : Nat) => .int n
  | stepLimit => fun (limit : Option Nat) => limit.elim .null fun n => .int n
  | skipScan => fun (scan : SkipScan) => .text scan.word
  | precompile => fun (b : Bool) => .bool b

/-- The layer of all values that settings hold. -/
def ownLayer (s : Settings) : Layer := Field.all.map fun f => (.text f.name, f.valueOf (s.get f))

lemma textsOnce_ownLayer (s : Settings) : TextsOnce s.ownLayer := by
  have hfields : Field.all.Pairwise (· ≠ ·) := by decide
  unfold TextsOnce ownLayer
  rw [List.map_map, List.pairwise_map]
  apply hfields.imp
  intro f g hfg name hname hname'
  exact hfg (name_injective (text.inj (hname.trans hname'.symm)))

lemma given?_ownLayer (s : Settings) (f : Field) : given? s.ownLayer f = unlessNull (f.valueOf (s.get f)) := by
  have hall : f ∈ Field.all := by cases f <;> decide
  have hmem : (.text f.name, f.valueOf (s.get f)) ∈ s.ownLayer :=
    List.mem_map_of_mem (f := fun f => (Value.text f.name, f.valueOf (s.get f))) hall
  have honce := textsOnce_ownLayer s
  rw [given?, ← lookup?_perm (List.reverse_perm _).symm honce, lookup?_of_mem honce hmem]
  rfl

/-- A field that is given the value it holds keeps it. -/
lemma heldAfter_valueOf (s : Settings) (f : Field) :
    heldAfter (unlessNull (f.valueOf (s.get f))) f (some (s.get f)) = some (s.get f) := by
  cases f with
  | tapeLength => exact positive?_natCast s.tapeLength_pos
  | cellMax => exact positive?_natCast s.cellMax_pos
  | stepLimit =>
    have hlimit (limit : Option Nat) (hpos : ∀ n ∈ limit, 0 < n) :
        heldAfter (unlessNull (Field.stepLimit.valueOf limit)) .stepLimit (some limit) = some limit := by
      cases limit with
      | none => rfl
      | some n => exact congrArg (Option.map some) (positive?_natCast (hpos n rfl))
    exact hlimit s.stepLimit s.stepLimit_pos
  | skipScan =>
    have hscan (scan : SkipScan) : SkipScan.ofWord? (word (.text scan.word)) = some scan := by
      cases scan <;> decide
    exact hscan s.skipScan
  | precompile => rfl

/-- Settings that are given the values they hold stay as they are. -/
theorem merged_ownLayer (hperm : layer.Perm s.ownLayer) : s.merged layer = .ok s := by
  have honce := textsOnce_ownLayer s
  have hknown : Known layer := by
    rw [known_perm hperm]
    rintro e he
    obtain ⟨f, -, rfl⟩ := List.mem_map.1 he
    exact ⟨f, rfl⟩
  have hgiven (f : Field) : given? layer f = unlessNull (f.valueOf (s.get f)) := by
    rw [← given?_perm hperm.symm honce, given?_ownLayer]
  obtain ⟨s', hs'⟩ := exists_merged hknown (fun f v hv => by
    rw [hgiven f] at hv
    exact read_of_heldAfter (heldAfter_valueOf s f) v hv) s
  obtain rfl : s' = s := by
    apply ext_get
    intro f
    have hget := (get_of_merged hs').2 f
    rw [hgiven, heldAfter_valueOf] at hget
    exact (Option.some.inj hget).symm
  exact hs'

/-! ## Loading -/

/-- The environment in which each field that has a text has this text. -/
def written (s : Settings) : List (String × String) :=
  Field.all.filterMap fun f => (f.text? (s.get f)).map fun text => (f.environmentName, text)

lemma lookup_written (s : Settings) (f : Field) :
    s.written.reverse.lookup f.environmentName = f.text? (s.get f) := by
  cases hlimit : s.stepLimit <;> cases f <;>
    simp [written, Field.all, Field.text?, Field.environmentName, get, hlimit, List.lookup_cons] <;> rfl

lemma spelledIn_written (s : Settings) : SpelledIn s.written s := by
  intro f
  rw [lookup_written]
  cases htext : f.text? (s.get f) with
  | none => exact .none
  | some text => exact .some (spells_self htext)

lemma not_separatorIn_written (s : Settings) : ¬ SeparatorIn s.written := by
  rintro ⟨f, hnumber, text, htext, hseparator⟩
  rw [lookup_written] at htext
  obtain ⟨n, rfl⟩ := eq_toString_of_isNumber hnumber htext
  rw [hasSeparator, any_isSeparator_toString] at hseparator
  cases hseparator

lemma load_without_file {ε : Type} (safeLoad : List Char → Except ε Value) (file : FileState)
    (environment : List (String × String)) (explicit : Layer) :
    load safeLoad "" file environment explicit = (layered [] environment explicit).mapError .refused := by
  simp [load, pure, Except.pure, bind, Except.bind]

/-- Any settings can be written in the environment. Where they are spelled there, with no more digits than are
read, they are what is loaded without a file and without values given by hand, unless a separator of records
stands next to a number: then nothing is loaded. The plain texts of the fields spell them. Settings that are
given the values they hold, in any order, stay as they are. -/
theorem load_spelled_settings {ε : Type} (safeLoad : List Char → Except ε Value) (s : Settings) :
    (s.FewDigits → ∀ (environment : List (String × String)) (file : FileState), SpelledIn environment s →
        (load safeLoad "" file environment [] = .ok s ↔ ¬ SeparatorIn environment) ∧
        (SeparatorIn environment → ∃ e, load safeLoad "" file environment [] = .error (.refused e))) ∧
    (SpelledIn s.written s ∧ ¬ SeparatorIn s.written) ∧
    ∀ layer : Layer, layer.Perm s.ownLayer → s.merged layer = .ok s := by
  refine ⟨?_, ⟨spelledIn_written s, not_separatorIn_written s⟩, fun _ => merged_ownLayer⟩
  intro hdigits environment file h
  rw [load_without_file]
  cases hresult : layered [] environment [] with
  | ok s' =>
    obtain ⟨rfl, hseparator⟩ := (layered_eq_ok_iff_of_spelled h hdigits).1 hresult
    exact ⟨iff_of_true rfl hseparator, fun hin => absurd hin hseparator⟩
  | error e =>
    have hseparator : SeparatorIn environment := by
      by_contra hnone
      have hok := (layered_eq_ok_iff_of_spelled h hdigits).2 ⟨rfl, hnone⟩
      rw [hresult] at hok
      cases hok
    exact ⟨iff_of_false nofun (not_not_intro hseparator), fun _ => ⟨e, rfl⟩⟩

/-- Blanks of all kinds, capitals and other variables are passed over. -/
theorem load_spelled_capitals :
    let environment := [("PATH", "/bin"), ("BFVM_PRECOMPILE", "\x1cTRUE "), ("BFVM_SKIP_SCAN", " LeGacy\n"),
      ("BFVM_CELL_MAX", "\t65535"), ("BFVM_TAPE_LENGTH", "\u30008\x85")]
    let s : Settings := { tapeLength := 8, cellMax := 65535, skipScan := .legacy, precompile := true }
    s.FewDigits ∧ SpelledIn environment s ∧
      ∀ safeLoad : List Char → Except Unit Value, load safeLoad "" .missing environment [] = .ok s := by
  intro environment s
  have hdigits : s.FewDigits := by
    intro f hnumber text htext
    cases f <;> cases hnumber <;> cases htext <;> decide
  have hspelled : SpelledIn environment s := by
    intro f
    cases f with
    | tapeLength => exact .some (spells_of_all ['\u3000'] ['8'] ['\x85'] (by decide))
    | cellMax => exact .some (spells_of_all ['\t'] "65535".toList [] (by decide))
    | stepLimit => exact .none
    | skipScan => exact .some (spells_of_all [' '] "LeGacy".toList ['\n'] (by decide))
    | precompile => exact .some (spells_of_all ['\x1c'] "TRUE".toList [' '] (by decide))
  have hseparator : ¬ SeparatorIn environment := by
    rintro ⟨f, hnumber, value, hvalue, hin⟩
    cases f <;> cases hnumber <;> cases hvalue <;> revert hin <;> decide
  refine ⟨hdigits, hspelled, fun safeLoad => ?_⟩
  exact (((load_spelled_settings safeLoad s).1 hdigits environment .missing hspelled).1).2 hseparator

/-- Not every blank may stand next to a number: in front of the length of a tape a separator is refused. -/
theorem separator_not_passed_over :
    ¬ ∀ (safeLoad : List Char → Except Unit Value) (s : Settings) (environment : List (String × String))
        (file : FileState), s.FewDigits → SpelledIn environment s →
          load safeLoad "" file environment [] = .ok s := by
  intro hload
  let safeLoad : List Char → Except Unit Value := fun _ => .error ()
  let s : Settings := { tapeLength := 8 }
  let environment := [("BFVM_TAPE_LENGTH", "\x1c8"), ("BFVM_CELL_MAX", "255"), ("BFVM_SKIP_SCAN", "nested"),
    ("BFVM_PRECOMPILE", "false")]
  have hdigits : s.FewDigits := by
    intro f hnumber text htext
    cases f <;> cases hnumber <;> cases htext <;> decide
  have hspelled : SpelledIn environment s := by
    intro f
    cases f with
    | tapeLength => exact .some (spells_of_all ['\x1c'] ['8'] [] (by decide))
    | cellMax => exact .some (spells_of_all [] "255".toList [] (by decide))
    | stepLimit => exact .none
    | skipScan => exact .some (spells_of_all [] "nested".toList [] (by decide))
    | precompile => exact .some (spells_of_all [] "false".toList [] (by decide))
  have hrefused : load safeLoad "" .missing environment [] =
      .error (.refused (.invalidValue "tape_length" (.text "\x1c8"))) := by rfl
  have hok := hload safeLoad s environment .missing hdigits hspelled
  rw [hrefused] at hok
  cases hok

end Settings

end Brainfuck
