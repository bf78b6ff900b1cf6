import Brainfuck.Proofs.Number.Decimal
import Brainfuck.Proofs.Settings.Entries
import Brainfuck.Settings.Merge

/-! # Refused settings

What is said of settings that are refused speaks of a key or a value that was given, or of a number that one
stands for. So it can be told unless there is a number among them that is too long to be written. -/
namespace Brainfuck

namespace Value

variable {k v : Value} {entries : List (Value × Value)}

/-- Entries without a number that is too long to be written. -/
def Short (entries : List (Value × Value)) : Prop :=
  ∀ e ∈ entries, e.1.hasLongNumber = false ∧ e.2.hasLongNumber = false

lemma short_cons : Short ((k, v) :: entries) ↔
    (k.hasLongNumber = false ∧ v.hasLongNumber = false) ∧ Short entries :=
  List.forall_mem_cons

lemma Short.insertEntry (h : Short entries) (hk : k.hasLongNumber = false) (hv : v.hasLongNumber = false) :
    Short (insertEntry k v entries) := by
  induction entries with
  | nil => exact short_cons.2 ⟨⟨hk, hv⟩, h⟩
  | cons e rest ih =>
    obtain ⟨k', v'⟩ := e
    obtain ⟨he, hrest⟩ := short_cons.1 h
    unfold Value.insertEntry
    split
    · exact short_cons.2 ⟨⟨he.1, hv⟩, hrest⟩
    · exact short_cons.2 ⟨he, ih hrest⟩

/-- Putting entries in order adds no number. -/
lemma Short.ofEntries (h : Short entries) : Short (ofEntries entries) := by
  induction entries using List.reverseRecOn with
  | nil => exact h
  | append_singleton entries e ih =>
    obtain ⟨hentries, he⟩ := List.forall_mem_append.1 h
    obtain ⟨hk, hv⟩ := he e (List.mem_singleton_self e)
    rw [ofEntries_concat]
    exact (ih hentries).insertEntry hk hv

end Value

namespace Settings

open Value

variable {s s' : Settings} {d d' : Draft} {f : Field} {v : Value} {e : Error} {n : Int}
  {layer file explicit : Layer} {environment : List (String × String)}

/-- A number that is within its bounds or can be written. -/
def Tellable (n : Int) : Prop := 1 ≤ n ∨ Numeral.isWritten (some Numeral.maxDigits) n = true

/-- A draft whose numbers can be told where they are refused. -/
structure Draft.Tellable (d : Draft) : Prop where
  tapeLength : Settings.Tellable d.tapeLength
  cellMax : Settings.Tellable d.cellMax
  stepLimit : ∀ n ∈ d.stepLimit, Settings.Tellable n

lemma tellable_draft (s : Settings) : s.draft.Tellable := by
  refine ⟨.inl ?_, .inl ?_, fun n hn => .inl ?_⟩
  · exact Int.ofNat_le.2 s.tapeLength_pos
  · exact Int.ofNat_le.2 s.cellMax_pos
  · obtain ⟨limit, hlimit, rfl⟩ := Option.map_eq_some_iff.1 hn
    exact Int.ofNat_le.2 (s.stepLimit_pos limit hlimit)

/-- The number that a value stands for can be written if those in the value can. -/
lemma tellable_of_wholeNumber? (hv : v.hasLongNumber = false) (h : wholeNumber? v = some n) : Tellable n := by
  cases v with
  | int m =>
    obtain rfl := Option.some.inj h
    exact .inr (by simpa [hasLongNumber] using hv)
  | text t =>
    unfold wholeNumber? at h
    cases hparse : Numeral.parseInt t with
    | error e => simp [hparse, Except.toOption] at h
    | ok m =>
      obtain rfl : m = n := by simpa [hparse, Except.toOption] using h
      exact .inr (Numeral.isWritten_of_parseInt hparse)
  | _ => cases h

lemma Draft.Tellable.set? (hd : d.Tellable) (hv : v.hasLongNumber = false) (h : d.set? f v = some d') :
    d'.Tellable := by
  cases f with
  | tapeLength =>
    obtain ⟨n, hn, rfl⟩ := Option.map_eq_some_iff.1 h
    exact ⟨tellable_of_wholeNumber? hv hn, hd.cellMax, hd.stepLimit⟩
  | cellMax =>
    obtain ⟨n, hn, rfl⟩ := Option.map_eq_some_iff.1 h
    exact ⟨hd.tapeLength, tellable_of_wholeNumber? hv hn, hd.stepLimit⟩
  | stepLimit =>
    obtain ⟨n, hn, rfl⟩ := Option.map_eq_some_iff.1 h
    refine ⟨hd.tapeLength, hd.cellMax, fun m hm => ?_⟩
    obtain rfl := Option.some.inj hm
    exact tellable_of_wholeNumber? hv hn
  | skipScan =>
    simp only [Draft.set?, hv, Bool.false_eq_true, if_false, Option.some.injEq] at h
    subst h
    exact ⟨hd.tapeLength, hd.cellMax, hd.stepLimit⟩
  | precompile =>
    obtain ⟨b, -, rfl⟩ := Option.map_eq_some_iff.1 h
    exact ⟨hd.tapeLength, hd.cellMax, hd.stepLimit⟩

/-- Values that are taken keep a draft tellable, and what is refused among them can be told. -/
lemma Draft.Tellable.apply (hd : d.Tellable) (hlayer : Short layer) :
    (∀ d', d.apply layer = .ok d' → d'.Tellable) ∧
      ∀ e, d.apply layer = .error e → e.hasLongNumber = false := by
  induction layer generalizing d with
  | nil => simp [Draft.apply, hd]
  | cons entry rest ih =>
    obtain ⟨k, v⟩ := entry
    obtain ⟨⟨hk, hv⟩, hrest⟩ := short_cons.1 hlayer
    rw [Draft.apply]
    cases Field.ofKey? k with
    | none => simp [Error.hasLongNumber, hk]
    | some f =>
      dsimp only
      split
      · exact ih hd hrest
      · cases hset : d.set? f v with
        | none => simp [Error.hasLongNumber, hv]
        | some d' => exact ih (hd.set? hv hset) hrest

lemma Tellable.isWritten (h : Tellable n) (hn : ¬ 1 ≤ n) :
    (!Numeral.isWritten (some Numeral.maxDigits) n) = false := by
  rw [h.resolve_left hn]
  rfl

lemma not_hasLongNumber_of_checkLimit {limit : Option Int} (hlimit : ∀ n ∈ limit, Tellable n)
    (h : checkLimit limit = .error e) : e.hasLongNumber = false := by
  cases limit with
  | none => cases h
  | some n =>
    by_cases hn : 1 ≤ n
    · simp [checkLimit, hn] at h
    · simp only [checkLimit, hn, dite_false, Except.error.injEq] at h
      exact h ▸ (hlimit n rfl).isWritten hn

/-- What is refused of a draft as a whole can be told. -/
lemma Draft.Tellable.check (hd : d.Tellable) (h : d.check = .error e) : e.hasLongNumber = false := by
  unfold Draft.check at h
  split at h
  next =>
    split at h
    next =>
      split at h
      next e' hlimit =>
        obtain rfl := Except.error.inj h
        exact not_hasLongNumber_of_checkLimit hd.stepLimit hlimit
      next =>
        split at h
        · obtain rfl := Except.error.inj h
          rfl
        · cases h
    next hn =>
      obtain rfl := Except.error.inj h
      exact hd.cellMax.isWritten hn
  next hn =>
    obtain rfl := Except.error.inj h
    exact hd.tapeLength.isWritten hn

/-- What is said of a layer that is refused can be told, if the numbers in it can be written. -/
lemma not_hasLongNumber_of_merged (hlayer : Short layer) (h : s.merged layer = .error e) : e.hasLongNumber = false := by
  obtain ⟨htaken, hrefused⟩ := (tellable_draft s).apply hlayer.ofEntries
  unfold merged at h
  split at h
  next e' happly =>
    obtain rfl := Except.error.inj h
    exact hrefused _ happly
  next d happly => exact (htaken d happly).check h

/-- The texts of the environment hold no numbers. -/
lemma short_environment (environment : List (String × String)) :
    Short (layerOf (environmentLayer environment)) := by
  intro e he
  obtain ⟨_, -, rfl⟩ := List.mem_map.1 he
  exact ⟨rfl, rfl⟩

/-- What is said of settings that are refused can be told, if the numbers in the file and among the explicit
values can be written. -/
lemma not_hasLongNumber_of_layered (hfile : Short file) (hexplicit : Short explicit)
    (h : layered file environment explicit = .error e) : e.hasLongNumber = false := by
  unfold layered at h
  split at h
  next e' hmerged =>
    obtain rfl := Except.error.inj h
    exact not_hasLongNumber_of_merged hfile hmerged
  · split at h
    next e' hmerged =>
      obtain rfl := Except.error.inj h
      exact not_hasLongNumber_of_merged (short_environment environment) hmerged
    · exact not_hasLongNumber_of_merged hexplicit h

theorem message_of_layered (hfile : Short file) (hexplicit : Short explicit)
    (h : layered file environment explicit = .error e) : e.message = .ok e.text := by
  simp [Error.message, not_hasLongNumber_of_layered hfile hexplicit h]

end Settings

end Brainfuck
