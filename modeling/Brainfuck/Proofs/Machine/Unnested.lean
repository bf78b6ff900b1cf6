import Brainfuck.Proofs.Machine.Rules
import Brainfuck.Proofs.Source.Scanning

/-! # Programs without nested brackets

In the legacy reading a skipped loop ends at the first closing bracket behind it, and in the nested one
at its partner. The two are the same bracket for all loops exactly if no bracket opens in between, and
then a run in the one reading goes through the same states as a run in the other. -/
namespace Brainfuck

open Brackets

namespace Listing

variable {text : Array UInt8}

lemma partners_ofText (scan : SkipScan) (text : Array UInt8) :
    (ofText scan text).1.partners = table scan (Decoding.operators text.toList) := by
  obtain ⟨code, hcode, -⟩ := ofText_eq scan text
  rw [hcode]

/-- A listing depends on the reading of the brackets by its table only. -/
lemma ofText_legacy_eq (h : Unnested (Decoding.operators text.toList)) :
    ofText .legacy text = ofText .nested text := by
  obtain ⟨last, code, hdrain, -, hops, -⟩ := drain_eq (Reader.ofText_at text)
  rw [List.drop_zero] at hops
  simp [ofText, ofReader, hdrain, ofInstructions, hops, table_legacy_eq_nested_iff.2 h]

end Listing

namespace Machine

variable {e : Edition} {c : Control} {m : Machine} {text : Array UInt8}

/-- Without nested brackets both readings scan alike from behind an opening bracket. -/
lemma skip_legacy_eq (h : Unnested e.operators) {s : Source} {i : Nat} (hs : e.Holds (i + 1) s)
    (hi : e.operators[i]? = some .loopStart) : s.skip .legacy 0 = s.skip .nested 0 := by
  refine hs.yields.skip_congr ?_
  have hend : skipEnd .legacy 0 e.operators (i + 1) = skipEnd .nested 0 e.operators (i + 1) := by
    rw [← getElem?_table hi, ← getElem?_table hi, table_legacy_eq_nested_iff.2 h]
  exact Option.map_injective (fun _ _ => Nat.add_left_cancel) hend

/-- Without nested brackets a step comes to the same in both readings. -/
theorem At.step_legacy (hat : m.At e c) (hscan : e.scan = .nested) (h : Unnested e.operators) :
    ({ m with skipScan := .legacy } : Machine).step =
      ⟨{ m.step.machine with skipScan := .legacy }, m.step.events, m.step.result⟩ := by
  have hunder : (m.under m.stepLimit .legacy).step = m.step.under m.stepLimit .legacy := by
    refine step_under rfl fun x events hfetch => ?_
    obtain ⟨_, _, hnone, -⟩ | ⟨s, op, -, hop, hs, hsome⟩ := hat.fetch_cases
    · simp [hnone] at hfetch
    · obtain ⟨rfl, -, hok⟩ := Outcome.mk.inj (hsome.symm.trans hfetch)
      obtain rfl : op = .loopStart := by simpa using hok
      have hnested : (m.drawn s .loopStart).skipScan = .nested := hat.scan.trans hscan
      rw [hnested]
      exact skip_legacy_eq h hs hop
  obtain ⟨c', hstep⟩ := hat.step
  refine hunder.trans ?_
  rw [← hstep.stepLimit_eq]
  rfl

theorem At.afterCalls_legacy (hat : m.At e c) (hscan : e.scan = .nested) (h : Unnested e.operators)
    (k : Nat) :
    ({ m with skipScan := .legacy } : Machine).afterCalls k =
        { m.afterCalls k with skipScan := .legacy } ∧
      ({ m with skipScan := .legacy } : Machine).callEvents k = m.callEvents k := by
  induction k with
  | zero => exact ⟨rfl, rfl⟩
  | succ k ih =>
    obtain ⟨c', hat'⟩ := hat.afterCalls k
    have hstep := hat'.step_legacy hscan h
    rw [← ih.1] at hstep
    refine ⟨congrArg Outcome.machine hstep, ?_⟩
    rw [callEvents, callEvents, ih.2, hstep]

/-- Without nested brackets a text is loaded in the legacy reading as in the nested one. -/
lemma sourceOfText_legacy (s : Settings) (h : Unnested (Decoding.operators text.toList)) :
    Source.ofText { s with skipScan := .legacy } text =
      Source.ofText { s with skipScan := .nested } text := by
  simp [Source.ofText, Listing.ofText_legacy_eq h]

/-- The two readings of the brackets agree exactly on programs without nesting. Their tables are the same
exactly if no bracket opens between an opening bracket and the first closing bracket behind it. For
every such program, decoded in advance or not, a machine in the legacy reading is after any number of
calls of a step in the state of one in the nested reading, except for the setting itself, has told and
remarked on the same, and its next step has the same result. -/
theorem readings_agree (s : Settings) (text : Array UInt8) (console : List Char) :
    let ops := Decoding.operators text.toList
    let start (scan : SkipScan) := ofText { s with skipScan := scan } text console
    ((Listing.ofText .legacy text).1.partners = (Listing.ofText .nested text).1.partners ↔
      Unnested ops) ∧
    (Unnested ops → ∀ k,
      (start .legacy).afterCalls k = { (start .nested).afterCalls k with skipScan := .legacy } ∧
      (start .legacy).callEvents k = (start .nested).callEvents k ∧
      (Source.ofText { s with skipScan := .legacy } text).2 =
        (Source.ofText { s with skipScan := .nested } text).2 ∧
      ((start .legacy).afterCalls k).step.result = ((start .nested).afterCalls k).step.result) := by
  intro ops start
  refine ⟨?_, fun h k => ?_⟩
  · rw [Listing.partners_ofText, Listing.partners_ofText, table_legacy_eq_nested_iff]
  · have hsource := sourceOfText_legacy s h
    have hstart : start .legacy = { start .nested with skipScan := .legacy } := by
      simp only [start, ofText, hsource]
      rfl
    have hat : (start .nested).At (.ofSettings { s with skipScan := .nested } text) {} := ofText_at ..
    obtain ⟨hmachine, hevents⟩ := hat.afterCalls_legacy rfl h k
    obtain ⟨c, hat'⟩ := hat.afterCalls k
    rw [hstart, hmachine, hevents, hsource]
    exact ⟨rfl, rfl, rfl, by rw [hat'.step_legacy rfl h]⟩

end Machine

end Brainfuck
