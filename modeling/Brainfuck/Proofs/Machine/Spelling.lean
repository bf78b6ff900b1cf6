import Brainfuck.Proofs.Machine.Precompiled

/-! # Spellings of a program

What a program does is told by its operators alone. Two texts with the same operator bytes are twins
whose places have nothing to do with each other, however much else is written between their operators,
in loops and in loops that are skipped, and whether or not they are decoded in advance. -/
namespace Brainfuck

namespace Decoding

/-- The bytes of a text that spell operators. -/
def operatorBytes (bytes : List UInt8) : List UInt8 :=
  bytes.filter fun b => (Operator.ofByte? b).isSome

/-- The other bytes spell nothing. -/
theorem operators_operatorBytes (bytes : List UInt8) :
    operators (operatorBytes bytes) = operators bytes := by
  rw [operators, operatorBytes, List.filterMap_filter, operators]
  refine List.filterMap_congr fun b _ => ?_
  cases h : Operator.ofByte? b <;> rfl

end Decoding

/-- What a remark says, apart from the place that it concerns. -/
def Diagnostic.wording (d : Diagnostic) : Severity × Category × String :=
  (d.severity, d.category, d.message)

namespace Event

variable {R : Location → Location → Prop}

/-- Events that tell of the same carry the same remarks, apart from their places. -/
lemma Alike.wording_eq {x y : Event} (h : x.Alike R y) :
    y.remark?.map Diagnostic.wording = x.remark?.map Diagnostic.wording := by
  have hkind := h.kind
  unfold remark?
  generalize x.kind = k, y.kind = k' at hkind
  cases hkind <;> rfl

lemma RunAlike.wording_eq {xs ys : List Event} (h : RunAlike R xs ys) :
    ((Event.remarks ys).filter (!·.isDecode)).map Diagnostic.wording =
      ((Event.remarks xs).filter (!·.isDecode)).map Diagnostic.wording := by
  rw [← remarks_ofRunning, ← remarks_ofRunning]
  unfold RunAlike at h
  generalize ofRunning xs = xs, ofRunning ys = ys at h
  induction h with
  | nil => rfl
  | @cons x y xs ys hxy _ ih =>
    have hwording := congrArg Option.toList hxy.wording_eq
    rw [remarks_cons, remarks_cons, List.map_append, List.map_append, ih]
    simpa [Option.toList_map] using hwording

end Event

namespace Machine

/-- Machines that differ in nothing but where they are in their texts, and are inside of as many loops. -/
structure SameButPlace (m m' : Machine) : Prop where
  same : m' = { m with source := m'.source, frames := m'.frames }
  depth : m'.frames.length = m.frames.length

/-- What a program does depends only on the bytes that spell its operators. After any number of calls of
a step, machines over two texts with the same operator bytes differ in nothing but where they are in
their texts, their next step has the same result, and they have made the same remarks in running,
though at other places. Either text may be decoded in advance. -/
theorem run_of_same_operators (s : Settings) (text text' : Array UInt8) (console : List Char)
    (precompile precompile' : Bool)
    (h : Decoding.operatorBytes text'.toList = Decoding.operatorBytes text.toList) (k : Nat) :
    let start (precompile : Bool) (text : Array UInt8) :=
      ofText { s with precompile := precompile } text console
    let remarks (precompile : Bool) (text : Array UInt8) :=
      (Source.ofText { s with precompile := precompile } text).2 ++
        Event.remarks ((start precompile text).callEvents k)
    let m := (start precompile text).afterCalls k
    let m' := (start precompile' text').afterCalls k
    SameButPlace m m' ∧ m'.step.result = m.step.result ∧
    ((remarks precompile' text').filter (!·.isDecode)).map Diagnostic.wording =
      ((remarks precompile text).filter (!·.isDecode)).map Diagnostic.wording := by
  intro start remarks m m'
  let edition (precompile : Bool) (text : Array UInt8) :=
    Edition.ofSettings { s with precompile := precompile } text
  have hoperators : Decoding.operators text'.toList = Decoding.operators text.toList := by
    rw [← Decoding.operators_operatorBytes, h, Decoding.operators_operatorBytes]
  have hstart : (start precompile text).Twins (edition precompile text) (edition precompile' text') {}
      (start precompile' text') :=
    ⟨ofText_at .., ofText_at .., rfl⟩
  have hR : (edition precompile text).Twins (fun _ _ => True) (edition precompile' text') :=
    ⟨hoperators, rfl, fun _ => trivial⟩
  obtain ⟨c, htwins, -, hevents, hresult⟩ := hstart.afterCalls (ofText_course ..) hR k
  have hload (precompile : Bool) (text : Array UInt8) :
      (Source.ofText { s with precompile := precompile } text).2.filter (!·.isDecode) = [] := by
    simpa using fun d hd => Edition.isDecode_of_mem_reports hd
  refine ⟨⟨htwins.same, ?_⟩, hresult, ?_⟩
  · rw [htwins.left.frames, htwins.right.frames, List.length_map, List.length_map]
  · simpa [remarks, hload] using hevents.wording_eq

/-- A text and the same with a comment, blanks and a line feed in it, one of them decoded in advance: the
loops that are skipped are the same, but they are elsewhere. -/
theorem run_of_same_operators_commented :
    let plain : Array UInt8 := #[91, 45, 93, 43, 91, 45, 93]
    let commented : Array UInt8 := #[91, 32, 35, 45, 10, 93, 43, 120, 91, 45, 93]
    let m := (ofText { tapeLength := 2, precompile := false } plain []).afterCalls 4
    let m' := (ofText { tapeLength := 2, precompile := true } commented []).afterCalls 4
    Decoding.operatorBytes commented.toList = Decoding.operatorBytes plain.toList ∧
      SameButPlace m m' ∧ m'.step.result = m.step.result ∧ m.location ≠ m'.location :=
  have h : Decoding.operatorBytes (#[91, 32, 35, 45, 10, 93, 43, 120, 91, 45, 93] : Array UInt8).toList =
      Decoding.operatorBytes (#[91, 45, 93, 43, 91, 45, 93] : Array UInt8).toList := by decide
  have hrun := run_of_same_operators { tapeLength := 2 } _ _ [] false true h 4
  ⟨h, hrun.1, hrun.2.1, by decide +kernel⟩

end Machine

end Brainfuck
