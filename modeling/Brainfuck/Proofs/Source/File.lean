import Brainfuck.Proofs.Source.Edition

/-! # Programs in files

Where a text is kept makes no difference to what a reader decodes, as long as the text is open. So a
program that is read from a file is the program of the text in it, decoded in advance or not. -/
namespace Brainfuck

namespace Reader

variable {r : Reader} {medium : Medium}

/-- The reader at the same point of a text that is kept elsewhere. -/
def keptIn (r : Reader) (medium : Medium) : Reader := { r with medium := medium }

@[simp] lemma keptIn_offset (r : Reader) (medium : Medium) : (r.keptIn medium).offset = r.offset := rfl

@[simp] lemma keptIn_location (r : Reader) (medium : Medium) : (r.keptIn medium).location = r.location := rfl

/-- Drawing an operator leaves the text where it is. -/
lemma next_medium (r : Reader) : r.next.source.medium = r.medium := by
  cases hoffset : r.offset with
  | none => simp [next, hoffset]
  | some p => simp [next, hoffset, decodeFrom_eq _ r p hoffset]

/-- The operator that is drawn and the remarks on the way do not depend on where the text is kept. -/
lemma next_keptIn (htext : medium.text = r.medium.text) :
    (r.keptIn medium).next = { r.next with source := r.next.source.keptIn medium } := by
  cases hoffset : r.offset with
  | none => simp [next, hoffset, unopened]
  | some p =>
    have hmedium : (r.keptIn medium).medium.text = r.medium.text := htext
    simp only [next, keptIn_offset, hoffset, hmedium]
    rw [decodeFrom_eq _ r p hoffset, decodeFrom_eq _ (r.keptIn medium) p hoffset]
    rfl

end Reader

namespace Listing

variable {r : Reader} {medium : Medium}

/-- Decoding in advance does not depend on where the text is kept. -/
theorem drain_keptIn (htext : medium.text = r.medium.text) :
    drain (r.keptIn medium) = ((drain r).1.keptIn medium, (drain r).2) := by
  induction hn : r.remaining using Nat.strongRecOn generalizing r with
  | ind n ih =>
    subst hn
    have hmedium := r.next_medium
    have hlt := r.next_remaining
    have hnext := Reader.next_keptIn htext
    rcases hr : r.next with ⟨r', reports, _ | op⟩ <;> rw [hr] at hmedium hlt hnext
    · rw [drain_of_none hr, drain_of_none hnext]
    · have hrest := ih r'.remaining (hlt rfl) (htext.trans (congrArg Medium.text hmedium.symm)) rfl
      rw [drain_of_some hr, drain_of_some hnext, hrest]
      rfl

/-- The listing of a file that is open is that of its text. -/
theorem ofReader_file (scan : SkipScan) (name : String) (text : Array UInt8) :
    ofReader scan { medium := .file name (some text), offset := some 0 } = ofText scan text := by
  let medium : Medium := .file name (some text)
  have hdrain : drain ((Reader.ofText text).keptIn medium) = _ := drain_keptIn rfl
  change drain { medium := medium, offset := some 0 } = _ at hdrain
  rw [ofReader, hdrain]
  rfl

end Listing

namespace Edition

/-- A program in a file is loaded, and when it is opened it stands at the start of the text. What is
remarked on in loading it is what is remarked on in loading the text. -/
theorem ofFile_holds (s : Settings) (name : String) (text : Array UInt8) :
    ∃ source opened, Source.ofFile s name (some text) = .ok (source, (Source.ofText s text).2) ∧
      source.opened = .ok opened ∧ (ofSettings s text).Holds 0 opened := by
  let file : Reader := { medium := .file name (some text), offset := some 0 }
  have hopened : (Reader.ofFile name (some text)).opened = .ok file := rfl
  cases hp : s.precompile with
  | true =>
    have hloaded : Source.ofFile s name (some text) = .ok (Source.ofText s text) := by
      simp [Source.ofFile, Source.loaded, Source.ofText, hp, hopened, Except.map, file, Listing.ofReader_file]
    exact ⟨_, _, hloaded, (ofText_holds s text).opened_eq, ofText_holds s text⟩
  | false =>
    refine ⟨.stream (.ofFile name (some text)), .stream file, ?_, ?_, .stream hp ?_⟩
    · simp [Source.ofFile, Source.loaded, Source.ofText, hp]
    · simp [Source.opened, hopened, Except.map]
    · constructor <;> simp [file, Medium.text, ofSettings]

end Edition

end Brainfuck
