import Brainfuck.Program.Listing

/-! # Sources of operators

A machine draws its operators from a reader of the program text or from a cursor over a listing. The
two differ in what a position is, in whether decoding can remark on anything, and in whether the end
of a loop is known without looking for it. -/
namespace Brainfuck

/-- Where a machine draws its operators from. -/
inductive Source
  | stream (reader : Reader)
  | compiled (cursor : Cursor)
  deriving DecidableEq, Repr

namespace Source

def location : Source → Location
  | stream r => r.location
  | compiled c => c.location

def lastByte : Source → Option UInt8
  | stream r => r.lastByte
  | compiled c => c.lastByte

/-- The character of the byte drawn last, and nothing before the first. -/
def charText (s : Source) : String :=
  match s.lastByte with
  | none => ""
  | some b => String.singleton (Char.ofNat b.toNat)

/-- A listing is open at all times. -/
def isOpen : Source → Bool
  | stream r => r.isOpen
  | compiled _ => true

/-- Opens the program text; there is nothing to open in a listing. -/
def opened : Source → Except Fault Source
  | stream r => r.opened.map stream
  | compiled c => .ok (compiled c)

/-- Closes the program text; there is nothing to close in a listing. -/
def closed : Source → Source
  | stream r => stream r.closed
  | compiled c => compiled c

def next : Source → Except Fault (Decoded Source)
  | stream r => .ok ⟨stream r.next.source, r.next.reports, r.next.operator⟩
  | compiled c => c.next.map fun d => ⟨compiled d.source, d.reports, d.operator⟩

/-- The position of the next operator, and the remark made if the source is not open. -/
def position : Source → Int × List Diagnostic
  | stream r => r.position
  | compiled c => (c.index, [])

/-- The position as it can be seen without any remark. -/
def position? : Source → Option Int
  | stream r => r.offset.map Int.ofNat
  | compiled c => some c.index

def seek (s : Source) (position : Int) (location : Option Location) :
    Except Fault (Source × List Diagnostic) :=
  match s with
  | stream r => (r.seek position location).map fun (r, reports) => (stream r, reports)
  | compiled c => .ok (compiled (c.seek position location), [])

/-- The position after the loop that opens just before the given one, where it is known. -/
def matchingEnd : Source → Int → Option Int
  | stream _, _ => none
  | compiled c, position => c.matchingEnd position

/-- A bound on the number of operators still to be drawn. -/
def remaining : Source → Nat
  | stream r => r.remaining
  | compiled c => c.remaining

/-- Drawing an operator leaves fewer of them. -/
theorem next_remaining {s : Source} {d : Decoded Source} (h : s.next = .ok d)
    (hop : d.operator.isSome) : d.source.remaining < s.remaining := by
  cases s with
  | stream r =>
    simp only [next, Except.ok.injEq] at h
    subst h
    exact r.next_remaining hop
  | compiled c =>
    simp only [next] at h
    cases hc : c.next with
    | error e => simp [hc, Except.map] at h
    | ok e =>
      simp only [hc, Except.map, Except.ok.injEq] at h
      subst h
      exact Cursor.next_remaining hc hop

/-- What came of looking for the end of a loop. The flag tells whether it was found before the end of
the program. -/
structure Skipped where
  source : Source
  reports : List Diagnostic
  found : Except Fault Bool

/-- The depth of loops after an operator inside a loop that is skipped, and nothing if that operator
ends the loop. The legacy scan does not count the loops that open inside. -/
def depthAfter (scan : SkipScan) (depth : Nat) : Operator → Option Nat
  | .loopEnd =>
    match scan, depth with
    | .legacy, _ => none
    | .nested, 0 => none
    | .nested, depth + 1 => some depth
  | .loopStart =>
    match scan with
    | .legacy => some depth
    | .nested => some (depth + 1)
  | _ => some depth

/-- Draws operators until the loop that is open at the given depth ends. -/
def skip (scan : SkipScan) (depth : Nat) (s : Source) : Skipped :=
  match h : s.next with
  | .error fault => ⟨s, [], .error fault⟩
  | .ok ⟨source, reports, none⟩ => ⟨source, reports, .ok false⟩
  | .ok ⟨source, reports, some op⟩ =>
    match depthAfter scan depth op with
    | none => ⟨source, reports, .ok true⟩
    | some depth =>
      have : source.remaining < s.remaining := next_remaining h rfl
      let rest := skip scan depth source
      { rest with reports := reports ++ rest.reports }
termination_by s.remaining

end Source

end Brainfuck
