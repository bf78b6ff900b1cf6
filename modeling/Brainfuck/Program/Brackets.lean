import Brainfuck.Program.Operator

/-! # Matching brackets

The two readings of where a skipped loop ends. In the nested reading a closing bracket closes the
innermost open loop; in the legacy reading the first closing bracket closes every loop open before
it. A table of the pairs is made in one pass with the list of brackets still open. -/
namespace Brainfuck

/-- How a skipped loop finds its end. -/
inductive SkipScan
  | nested
  | legacy
  deriving DecidableEq, Repr, Inhabited

namespace Brackets

/-- Which open brackets a closing bracket closes, and which stay open. -/
def close : SkipScan → List Nat → List Nat × List Nat
  | .nested, [] => ([], [])
  | .nested, i :: rest => ([i], rest)
  | .legacy, pending => (pending, [])

/-- The pairs of brackets of a list of operators, where the first operator has the index `index` and
the brackets `pending` are open before it. -/
def pairsFrom (scan : SkipScan) (pending : List Nat) (index : Nat) : List Operator → List (Nat × Nat)
  | [] => []
  | .loopStart :: ops => pairsFrom scan (index :: pending) (index + 1) ops
  | .loopEnd :: ops =>
    let (closed, opened) := close scan pending
    closed.map (·, index) ++ pairsFrom scan opened (index + 1) ops
  | _ :: ops => pairsFrom scan pending (index + 1) ops

def pairs (scan : SkipScan) (ops : List Operator) : List (Nat × Nat) := pairsFrom scan [] 0 ops

/-- The partner of every opening bracket, by its index. -/
def table (scan : SkipScan) (ops : List Operator) : Array (Option Nat) :=
  (pairs scan ops).foldl (fun t (i, j) => t.setIfInBounds i (some j))
    (Array.replicate ops.length none)

end Brackets

end Brainfuck
