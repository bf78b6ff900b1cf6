import Brainfuck.CommandLine.Options
import Brainfuck.Proofs.Settings.Refusals

/-! # Numbers on the command line

The numbers among the options are read from arguments, and a number that is read can be written. So options
alone never hold a number that cannot be told. -/
namespace Brainfuck.Options

open Numeral

variable {o o' : Options} {f : Flag} {v : String} {n : Int} {extra extra' : List String}
  {arguments : List Argument} {words : List String}

/-- Options whose numbers can be written. -/
structure Written (o : Options) : Prop where
  tapeLength : ∀ n ∈ o.tapeLength, isWritten (some maxDigits) n = true
  cellMax : ∀ n ∈ o.cellMax, isWritten (some maxDigits) n = true
  stepLimit : ∀ n ∈ o.stepLimit, isWritten (some maxDigits) n = true

lemma isWritten_of_number (h : number f v = .ok n) : isWritten (some maxDigits) n = true := by
  unfold number at h
  split at h
  next m hparse =>
    obtain rfl := Except.ok.inj h
    exact isWritten_of_parseInt hparse
  next => cases h

lemma isWritten_of_map_number {g : Int → Options} (h : (number f v).map g = .ok o') :
    ∃ n, isWritten (some maxDigits) n = true ∧ g n = o' := by
  cases hnumber : number f v with
  | error e => simp [hnumber, Except.map] at h
  | ok n => exact ⟨n, isWritten_of_number hnumber, by simpa [hnumber, Except.map] using h⟩

lemma Written.setValue (ho : o.Written) (h : o.setValue f v = .ok o') : o'.Written := by
  have hsome {n : Int} (hn : isWritten (some maxDigits) n = true) : ∀ m ∈ some n, isWritten (some maxDigits) m := by
    rintro m ⟨⟩
    exact hn
  cases f with
  | config =>
    obtain rfl := Except.ok.inj h
    exact ⟨ho.tapeLength, ho.cellMax, ho.stepLimit⟩
  | tapeLength =>
    obtain ⟨n, hn, rfl⟩ := isWritten_of_map_number h
    exact ⟨hsome hn, ho.cellMax, ho.stepLimit⟩
  | cellMax =>
    obtain ⟨n, hn, rfl⟩ := isWritten_of_map_number h
    exact ⟨ho.tapeLength, hsome hn, ho.stepLimit⟩
  | stepLimit =>
    obtain ⟨n, hn, rfl⟩ := isWritten_of_map_number h
    exact ⟨ho.tapeLength, ho.cellMax, hsome hn⟩
  | skipScan =>
    unfold Options.setValue at h
    dsimp only at h
    split at h
    · obtain rfl := Except.ok.inj h
      exact ⟨ho.tapeLength, ho.cellMax, ho.stepLimit⟩
    · cases h
  | _ => cases h

lemma Written.set (ho : o.Written) (f : Flag) : (o.set f).Written := by
  cases f <;> exact ⟨ho.tapeLength, ho.cellMax, ho.stepLimit⟩

lemma Written.setProgram (ho : o.Written) (name : String) :
    Options.Written { o with program := some name } :=
  ⟨ho.tapeLength, ho.cellMax, ho.stepLimit⟩

/-- Reading on after an option with a value. -/
lemma exists_setValue_of_bind {r : Read} (h : (do readAll (← o.setValue f v) extra arguments) = .ok r) :
    ∃ o₁, o.setValue f v = .ok o₁ ∧ readAll o₁ extra arguments = .ok r := by
  cases hset : o.setValue f v with
  | error e => simp [hset, bind, Except.bind] at h
  | ok o₁ => exact ⟨o₁, rfl, by simpa [hset, bind, Except.bind] using h⟩

/-- Going through arguments, from options whose numbers can be written. -/
lemma Written.readAll (ho : o.Written) (h : readAll o extra arguments = .ok (.options o' extra')) :
    o'.Written := by
  fun_induction Options.readAll o extra arguments with
  | case1 o extra =>
    obtain ⟨rfl, -⟩ := Read.options.inj (Except.ok.inj h)
    exact ho
  -- The first name is the program, and what else is not taken is left over.
  | case2 o extra t rest hnone ih | case4 o extra t rest hname hnone ih | case6 o extra t rest hnone ih =>
    exact ih (ho.setProgram t) h
  | case3 o extra t rest hsome ih | case5 o extra t rest hname hsome ih | case7 o extra t rest hsome ih
  | case8 o extra rest hname ih | case9 o extra t rest ih => exact ih ho h
  -- Only an option with a value can bring a number.
  | case11 o extra f s v rest htakes hdashes ih | case15 o extra f s htakes v rest ih =>
    obtain ⟨o₁, hset, hrest⟩ := exists_setValue_of_bind h
    exact ih o₁ (ho.setValue hset) hrest
  | case18 o extra f s rest htakes hhelp ih => exact ih (ho.set f) h
  | case10 | case12 | case13 | case14 | case16 | case17 => cases h

/-- The numbers of options that a command line comes to can be written. -/
theorem written_of_parse (h : parse words = .ok (.options o extra)) : o.Written := by
  unfold parse at h
  rcases hclassify : classifyAll words with e | arguments
  · simp [hclassify, bind, Except.bind] at h
  rcases hread : readAll {} [] arguments with e | _ | ⟨o₁, extra₁⟩
  · simp [hclassify, hread, bind, Except.bind] at h
  · simp [hclassify, hread, bind, Except.bind, pure, Except.pure] at h
  · have hwritten : o₁.Written := Written.readAll ⟨by simp, by simp, by simp⟩ hread
    simp only [hclassify, hread, bind, Except.bind, pure, Except.pure] at h
    split at h
    · cases h
    split at h
    · cases h
    · obtain ⟨rfl, -⟩ := Read.options.inj (Except.ok.inj h)
      exact hwritten

/-- The settings that are given with such options hold no number that is too long to be written. -/
lemma Written.short_layer (ho : o.Written) : Value.Short o.layer := by
  have hnumber {limit : Option Int} (hlimit : ∀ n ∈ limit, isWritten (some maxDigits) n = true) :
      ((limit.map Value.int).getD .null).hasLongNumber = false := by
    cases limit with
    | none => rfl
    | some n => simpa [Value.hasLongNumber] using hlimit n rfl
  refine Value.short_cons.2 ⟨⟨rfl, hnumber ho.tapeLength⟩, Value.short_cons.2 ⟨⟨rfl, hnumber ho.cellMax⟩,
    Value.short_cons.2 ⟨⟨rfl, hnumber ho.stepLimit⟩, Value.short_cons.2 ⟨⟨rfl, ?_⟩,
      Value.short_cons.2 ⟨⟨rfl, ?_⟩, List.forall_mem_nil _⟩⟩⟩⟩⟩
  · cases o.skipScan <;> rfl
  · cases o.precompile <;> rfl

end Brainfuck.Options
