import Brainfuck.Program.Reader

/-! # Files

A tree of files as seen from one directory, given by the paths of its files and directories. A path
may go up and down by dots and may repeat its slashes. What lies outside the tree is a directory
above it or does not exist. Paths and the names on them have a largest length, and a path with a zero
character is none at all. -/
namespace Brainfuck

/-- What stands at the end of a path. A file that is denied is there but must not be read. -/
inductive FileState
  | missing
  | directory
  | belowFile
  | tooLong
  | notAPath
  | denied
  | file (content : ByteArray)

namespace FileState

/-- The content of a file, or the fault of reading what is none. -/
def read (name : String) : FileState → Except Fault ByteArray
  | missing => .error (.missingFile name)
  | directory => .error (.directory name)
  | belowFile => .error (.notADirectory name)
  | tooLong => .error (.nameTooLong name)
  | notAPath => .error .nulInName
  | denied => .error (.permissionDenied name)
  | file content => .ok content

/-- A reader of the file, if there is one. -/
def reader? (name : String) : FileState → Option Reader
  | file content => some (.ofFile name (some content.data))
  | denied => some (.ofLocked name)
  | _ => none

end FileState

/-- Files and directories by their paths; a directory has no content. -/
structure FileTree where
  entries : List (String × Option ByteArray)

namespace FileTree

def maxNameLength : Nat := 255

def maxPathLength : Nat := 4095

/-- The names on a path between its slashes. -/
def names (path : String) : List String :=
  ((path.toList.splitOn '/').map String.ofList).filter fun n => n != "" && n != "."

/-- What stands at a path without dots. -/
def stateAt (t : FileTree) (path : List String) : FileState :=
  if path.isEmpty then .directory
  else
    match t.entries.find? fun (name, _) => names name == path with
    | some (_, some content) => .file content
    | some (_, none) => .directory
    | none => if t.entries.any fun (name, _) => path.isPrefixOf (names name) then .directory else .missing

/-- What stands at the end of a path that goes on from a directory by the given names. Outside the
tree only the way up is known. -/
def follow (t : FileTree) (here : List String) (above : Nat) : List String → FileState
  | [] => if above = 0 then t.stateAt here else .directory
  | ".." :: rest =>
    if above = 0 ∧ !here.isEmpty then t.follow here.dropLast 0 rest else t.follow [] (above + 1) rest
  | name :: rest =>
    if above ≠ 0 then .missing
    else if maxNameLength < name.utf8ByteSize then .tooLong
    else
      let next := here ++ [name]
      match t.stateAt next with
      | .directory => t.follow next 0 rest
      | .file content => if rest.isEmpty then .file content else .belowFile
      | other => other

/-- What stands at the end of a path. A slash at its end is allowed after directories only. -/
def state (t : FileTree) (path : String) : FileState :=
  if path.contains '\x00' then .notAPath
  else if maxPathLength < path.utf8ByteSize then .tooLong
  else if path.isEmpty then .missing
  else if path.startsWith "/" then
    if (names path).all (· == "..") then .directory else .missing
  else
    match t.follow [] 0 (names path) with
    | .file content => if path.endsWith "/" || path.endsWith "/." then .belowFile else .file content
    | other => other

end FileTree

end Brainfuck
