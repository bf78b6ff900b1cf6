import Brainfuck.Proofs.Decoding.Draining

/-! # Reading a file again

A file that is closed and opened again is read from its first byte on: it gives the same operators and
makes the same remarks as the first time. The places are not those of the first time. Opening a file
leaves the place where the reader had come to, so that it is counted on from the bytes of all passes
before, and it is the place in the text only if those bytes moved neither the line nor the column. -/
namespace Brainfuck

open Decoding

/-- The remark without its place. -/
def Diagnostic.unplaced (d : Diagnostic) : Diagnostic := { d with location := none }

namespace Location

variable {before text : List UInt8}

lemma rtakeWhile_of_not_mem (h : 10 ∉ text) : text.rtakeWhile (· ≠ 10) = text := by
  rw [List.rtakeWhile_eq_self_iff]
  rintro b hb
  have hne : b ≠ 10 := fun heq => h (heq ▸ hb)
  simpa using hne

/-- The last line of a text begins in the part where its last line feed is. -/
lemma rtakeWhile_append (before text : List UInt8) :
    (before ++ text).rtakeWhile (· ≠ 10) =
      if 10 ∈ text then text.rtakeWhile (· ≠ 10) else before.rtakeWhile (· ≠ 10) ++ text := by
  induction text using List.reverseRecOn with
  | nil => simp
  | append_singleton text b ih =>
    rw [← List.append_assoc, List.rtakeWhile_concat, List.rtakeWhile_concat, ih]
    by_cases hfeed : b = 10
    · simp [hfeed]
    · by_cases hmem : 10 ∈ text <;> simp [hfeed, hmem, Ne.symm hfeed]

lemma column_append_eq_iff : (counted (before ++ text)).column = (counted text).column ↔
    10 ∈ text ∨ ∀ b ∈ before.rtakeWhile (· ≠ 10), b = 13 := by
  have hroom (bytes : List UInt8) : bytes.countP (· ≠ 13) = 0 ↔ ∀ b ∈ bytes, b = 13 := by
    simp [List.countP_eq_zero]
  simp only [counted, rtakeWhile_append]
  by_cases hmem : 10 ∈ text
  · simp [hmem]
  · rw [if_neg hmem, List.countP_append, rtakeWhile_of_not_mem hmem, or_iff_right hmem, ← hroom]
    omega

/-- Bytes in front of a text leave the place behind it as it is exactly if they take no room, or if there
is a line feed in the text and none in front of it. -/
theorem counted_append_eq_iff :
    counted (before ++ text) = counted text ↔ (∀ b ∈ before, b = 13) ∨ 10 ∉ before ∧ 10 ∈ text := by
  have hline : (counted (before ++ text)).line = (counted text).line ↔ 10 ∉ before := by
    rw [← List.count_eq_zero]
    simp only [counted, List.count_append]
    omega
  have hreturns (h : ∀ b ∈ before, b = 13) : 10 ∉ before := fun hmem => absurd (h 10 hmem) (by decide)
  rw [counted, counted, Location.mk.injEq]
  refine (and_congr hline column_append_eq_iff).trans ?_
  constructor
  · rintro ⟨hfeed, hmem | hroom⟩
    · exact .inr ⟨hfeed, hmem⟩
    · exact .inl (rtakeWhile_of_not_mem hfeed ▸ hroom)
  · rintro (hroom | ⟨hfeed, hmem⟩)
    · exact ⟨hreturns hroom, .inr ((rtakeWhile_of_not_mem (hreturns hroom)).symm ▸ hroom)⟩
    · exact ⟨hfeed, .inl hmem⟩

end Location

/-- What a reader is asked for. -/
inductive Request
  | opening
  | next
  | position
  | closing
  deriving DecidableEq, Repr

/-- The passes over a file, told by how often the next operator was asked for in each: in those that have
ended, and in the one that goes on while the file is open. -/
structure Passes where
  ended : List Nat := []
  current : Option Nat := none
  deriving DecidableEq, Repr

namespace Passes

variable {passes : Passes} {bytes : List UInt8} {k : Nat}

/-- An open file is not opened anew, and nothing is read from one that is closed. -/
def after (passes : Passes) : Request → Passes
  | .opening => { passes with current := some (passes.current.getD 0) }
  | .next => { passes with current := passes.current.map (· + 1) }
  | .position => passes
  | .closing => ⟨passes.ended ++ passes.current.toList, none⟩

def ofRequests (requests : List Request) : Passes := requests.foldl after {}

/-- The bytes that were read in the passes that have ended. -/
def bytesBefore (passes : Passes) (bytes : List UInt8) : List UInt8 :=
  passes.ended.flatMap fun k => bytes.take (offset bytes k)

/-- The bytes that were read in all passes. -/
def bytesRead (passes : Passes) (bytes : List UInt8) : List UInt8 :=
  passes.bytesBefore bytes ++ passes.current.toList.flatMap fun k => bytes.take (offset bytes k)

lemma bytesRead_of_current (h : passes.current = some k) :
    passes.bytesRead bytes = passes.bytesBefore bytes ++ bytes.take (offset bytes k) := by
  simp [bytesRead, h]

lemma bytesRead_opening : (passes.after .opening).bytesRead bytes = passes.bytesRead bytes := by
  cases hcurrent : passes.current <;> simp [after, bytesRead, bytesBefore, hcurrent]

lemma bytesRead_closing : (passes.after .closing).bytesRead bytes = passes.bytesRead bytes := by
  simp [after, bytesRead, bytesBefore]

/-- Asking for the next operator reads on to behind it. -/
lemma bytesRead_next (h : passes.current = some k) :
    (passes.after .next).bytesRead bytes =
      passes.bytesRead bytes ++ (bytes.take (offset bytes (k + 1))).drop (offset bytes k) := by
  have hcurrent : (passes.after .next).current = some (k + 1) := by simp [after, h]
  have hbefore : (passes.after .next).bytesBefore bytes = passes.bytesBefore bytes := rfl
  have hmono : offset bytes k ≤ offset bytes (k + 1) := offset_mono (Nat.le_succ k)
  have hcut : bytes.take (offset bytes (k + 1)) =
      bytes.take (offset bytes k) ++ (bytes.take (offset bytes (k + 1))).drop (offset bytes k) := by
    conv_lhs => rw [← List.take_append_drop (offset bytes k) (bytes.take (offset bytes (k + 1))),
      List.take_take, Nat.min_eq_left hmono]
  rw [bytesRead_of_current hcurrent, bytesRead_of_current h, hbefore, List.append_assoc, ← hcut]

end Passes

namespace Decoding

/-- What is remarked on depends on the bytes that are read, and only its place on those before. -/
lemma unplaced_remarksFrom (l l' : Location) (bytes : List UInt8) :
    (remarksFrom l bytes).map Diagnostic.unplaced = (remarksFrom l' bytes).map Diagnostic.unplaced := by
  induction bytes generalizing l l' with
  | nil => rfl
  | cons b bytes ih =>
    have hbyte (l : Location) : (remark? l b).toList.map Diagnostic.unplaced =
        (remark? {} b).toList.map Diagnostic.unplaced := by
      unfold remark?
      split
      · rfl
      · cases Reader.problemOf b <;> rfl
    rw [remarksFrom, remarksFrom, List.map_append, List.map_append, hbyte, hbyte (l'.advance b),
      ih _ (l'.advance b)]

end Decoding

namespace Reader

variable {name : String} {text : Array UInt8} {passes : Passes} {k : Nat}

/-- What comes of a request: the reader after it, the remarks, and the operator if one was drawn. -/
def serve (r : Reader) : Request → Except Fault (Decoded Reader)
  | .opening => r.opened.map fun r => ⟨r, [], none⟩
  | .next => .ok r.next
  | .position => .ok ⟨r, r.position.2, none⟩
  | .closing => .ok ⟨r.closed, [], none⟩

/-- The reader after a row of requests. -/
def served (r : Reader) (requests : List Request) : Except Fault Reader :=
  requests.foldlM (fun r request => (r.serve request).map (·.source)) r

/-- The reader of a file after some passes over it. Its place is counted in the bytes of all of them. -/
def passed (name : String) (text : Array UInt8) (passes : Passes) : Reader where
  medium := .file name (some text)
  offset := passes.current.map (Decoding.offset text.toList)
  location := Location.after (passes.bytesRead text.toList)
  lastByte := (passes.bytesRead text.toList).getLast?

lemma next_passed (h : passes.current = some k) :
    (passed name text passes).next =
      ⟨passed name text (passes.after .next),
        remarksFrom (passed name text passes).location
          ((text.toList.take (Decoding.offset text.toList (k + 1))).drop (Decoding.offset text.toList k)),
        (operators text.toList)[k]?⟩ := by
  have hoffset : (passed name text passes).offset = some (Decoding.offset text.toList k) := by
    simp [passed, h]
  have hread : (text.toList.drop (Decoding.offset text.toList k)).take
      (Decoding.offset (text.toList.drop (Decoding.offset text.toList k)) 1) =
      (text.toList.take (Decoding.offset text.toList (k + 1))).drop (Decoding.offset text.toList k) := by
    rw [offset_add, List.take_drop]
  have hcurrent : (passes.after .next).current = some (k + 1) := by simp [Passes.after, h]
  have hnext : (passed name text passes).next =
      decodeFrom text (passed name text passes) (Decoding.offset text.toList k) := by
    simp only [Reader.next, hoffset]
    rfl
  rw [hnext, decodeFrom_eq text _ _ hoffset, hread, operators_drop_offset, List.head?_drop, ← offset_add]
  simp [passed, hcurrent, Passes.bytesRead_next h, Location.after_append, List.getLast?_append]

lemma next_closed {r : Reader} (h : r.offset = none) : r.next = ⟨r, [r.unopened], none⟩ := by
  simp [next, h]

/-- A request leads from one row of passes to the next. -/
lemma serve_passed (name : String) (text : Array UInt8) (passes : Passes) (request : Request) :
    ((passed name text passes).serve request).map (·.source) =
      .ok (passed name text (passes.after request)) := by
  cases request with
  | opening =>
    have hread : (passes.after .opening).bytesRead text.toList = passes.bytesRead text.toList :=
      Passes.bytesRead_opening
    simp only [serve, passed, hread]
    cases hcurrent : passes.current <;> simp [opened, Passes.after, hcurrent, Except.map]
  | next =>
    cases hcurrent : passes.current with
    | none =>
      have hoffset : (passed name text passes).offset = none := by simp [passed, hcurrent]
      have hsame : passes.after .next = passes := by
        obtain ⟨ended, current⟩ := passes
        obtain rfl : current = none := hcurrent
        rfl
      simp [serve, next_closed hoffset, hsame, Except.map]
    | some k => simp [serve, next_passed hcurrent, Except.map]
  | position => rfl
  | closing =>
    have hread : (passes.after .closing).bytesRead text.toList = passes.bytesRead text.toList :=
      Passes.bytesRead_closing
    simp only [serve, passed, hread]
    rfl

/-- A row of requests to a file that is there never fails. -/
theorem served_passed (name : String) (text : Array UInt8) (passes : Passes) (requests : List Request) :
    (passed name text passes).served requests =
      .ok (passed name text (requests.foldl Passes.after passes)) := by
  induction requests generalizing passes with
  | nil => rfl
  | cons request requests ih =>
    rw [served, List.foldlM_cons, serve_passed]
    exact ih (passes.after request)

theorem served_ofFile (name : String) (text : Array UInt8) (requests : List Request) :
    (ofFile name (some text)).served requests = .ok (passed name text (.ofRequests requests)) :=
  served_passed name text {} requests

/-- The first pass over a file, as far as the next operator was asked for. -/
lemma ofRequests_first (k : Nat) :
    Passes.ofRequests (.opening :: List.replicate k .next) = ⟨[], some k⟩ := by
  induction k with
  | zero => rfl
  | succ k ih =>
    rw [Passes.ofRequests] at ih ⊢
    rw [List.replicate_succ', ← List.cons_append, List.foldl_append, ih]
    rfl

/-- However a file is opened, read and closed, a reader of it fails at nothing. While the file is closed, no
operator is drawn from it. While it is open, the reader stands where it stood in the first pass that went
as far, draws the same operator next and makes the same remarks but for their places. Its own place is
counted in all the bytes that were read before, and this is the place of the first pass exactly if the bytes
of the passes that have ended take no room, or if they are without a line feed and one has been read since. -/
theorem reopened_reads_again (name : String) (text : Array UInt8) (requests : List Request) :
    let passes := Passes.ofRequests requests
    ∃ r, (ofFile name (some text)).served requests = .ok r ∧
      (passes.current = none → r.next = ⟨r, [r.unopened], none⟩) ∧
      ∀ k ∈ passes.current,
        let here := text.toList.take (Decoding.offset text.toList k)
        let before := passes.bytesBefore text.toList
        ∃ first, (ofFile name (some text)).served (.opening :: List.replicate k .next) = .ok first ∧
          first.location = Location.counted here ∧
          r.offset = first.offset ∧
          r.next.operator = first.next.operator ∧
          r.next.reports.map Diagnostic.unplaced = first.next.reports.map Diagnostic.unplaced ∧
          r.next.reports = remarksFrom r.location
            ((text.toList.take (Decoding.offset text.toList (k + 1))).drop here.length) ∧
          r.location = Location.counted (before ++ here) ∧
          (r.location = first.location ↔ (∀ b ∈ before, b = 13) ∨ 10 ∉ before ∧ 10 ∈ here) := by
  intro passes
  refine ⟨passed name text passes, served_ofFile name text requests, fun hclosed => ?_, ?_⟩
  · exact next_closed (by simp [passed, hclosed])
  · intro k hk here before
    have hfirst : (⟨[], some k⟩ : Passes).current = some k := rfl
    have hplace : (passed name text passes).location = Location.counted (before ++ here) := by
      rw [← Location.after_eq_counted, ← Passes.bytesRead_of_current hk]
      rfl
    have hplaceFirst : (passed name text ⟨[], some k⟩).location = Location.counted here := by
      rw [← Location.after_eq_counted]
      exact congrArg Location.after (Passes.bytesRead_of_current hfirst)
    refine ⟨passed name text ⟨[], some k⟩, ?_, hplaceFirst, ?_, ?_, ?_, ?_, hplace, ?_⟩
    · rw [served_ofFile, ofRequests_first]
    · simp [passed, Option.mem_def.1 hk]
    · rw [next_passed hk, next_passed hfirst]
    · rw [next_passed hk, next_passed hfirst]
      exact unplaced_remarksFrom _ _ _
    · rw [next_passed hk, List.length_take_of_le (offset_le_length ..)]
    · rw [hplace, hplaceFirst]
      exact Location.counted_append_eq_iff

/-- A reader that has opened its file again need not be at the place of its offset. -/
theorem reopened_misplaced :
    ¬ ∀ (name : String) (text : Array UInt8) (requests : List Request) (r : Reader) (p : Nat),
      (ofFile name (some text)).served requests = .ok r → r.offset = some p →
        r.location = Location.counted (text.toList.take p) := by
  intro h
  have hserved := served_ofFile "file" #[120, 43] [.opening, .next, .closing, .opening]
  have hplace := h "file" #[120, 43] _ _ 0 hserved rfl
  exact absurd hplace (by decide)

end Reader

end Brainfuck
