import Brainfuck.Text.Letter

/-! # Dialects by file name

The ending of a program file tells which dialect it is written in. Only the standard dialect can be
run; the endings of the extended one are known so that it can be refused by name. -/
namespace Brainfuck

inductive Dialect
  | standard
  | extended
  deriving DecidableEq, Repr

namespace Dialect

def standardEndings : List String := [".bf", ".br", ".b"]

def extendedEndings : List String := [".bpp", ".b++", ".bfpp", ".bf++", ".brpp", ".br++"]

/-- The dialect that a path ends in, in letters of either case. -/
def ofPath? (path : String) : Option Dialect :=
  let lowered := Text.lower path.toList
  let endsIn (endings : List String) : Bool :=
    endings.any fun e => e.toList.isSuffixOf lowered
  if endsIn extendedEndings then some extended
  else if endsIn standardEndings then some standard
  else none

end Dialect

namespace Path

def lastName (path : List Char) : List Char := (path.reverse.takeWhile (· != '/')).reverse

/-- The last point of a file name and what follows it, unless only points stand before. -/
def ending (path : List Char) : List Char :=
  let name := (lastName path).dropWhile (· == '.')
  if name.contains '.' then '.' :: (name.reverse.takeWhile (· != '.')).reverse else []

end Path

end Brainfuck
