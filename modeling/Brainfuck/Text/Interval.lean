/-! # Sets of code points given by their edges

A set of code points is written as the ascending list of points at which membership changes,
starting outside. This is the shortest plain form of a character property, and membership is decided
by reading the list from its front. -/
namespace Brainfuck.Text

/-- Membership flips at each edge that is not above the point. -/
def inside : List Nat → Nat → Bool
  | [], _ => false
  | edge :: edges, c => if c < edge then false else !inside edges c

end Brainfuck.Text
