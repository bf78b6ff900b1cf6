import Brainfuck.FileTree
import Brainfuck.Settings.Merge

/-! # Loading settings

Settings are loaded in layers: what is there without any, a settings file, the environment and the
values given by hand, later ones over earlier. A settings file is text whose lines may end in any of
the usual ways. How the text is read as a value is up to a loader, which either gives the value or says
why the text is malformed. -/
namespace Brainfuck

namespace Settings

/-- Why there are no settings. What is wrong with a malformed text is told in words of the loader. -/
inductive LoadError (ε : Type)
  | refused (e : Error)
  | unreadable (fault : Fault)
  | undecodable
  | malformed (e : ε)

/-- A text in which every line ends in a line feed. -/
def unifyLines : List Char → List Char
  | '\r' :: '\n' :: rest => '\n' :: unifyLines rest
  | '\r' :: rest => '\n' :: unifyLines rest
  | c :: rest => c :: unifyLines rest
  | [] => []

section

variable {ε : Type} (safeLoad : List Char → Except ε Value)

/-- The layer in the content of a settings file. -/
def layerOfContent (name : String) (content : ByteArray) : Except (LoadError ε) Layer :=
  match String.fromUTF8? content with
  | none => .error .undecodable
  | some text =>
    match safeLoad (unifyLines text.toList) with
    | .error e => .error (.malformed e)
    | .ok value => (fileLayer name value).mapError .refused

/-- The layer in a settings file. -/
def layerOfFile (name : String) (file : FileState) : Except (LoadError ε) Layer :=
  match file.read name with
  | .error fault => .error (.unreadable fault)
  | .ok content => layerOfContent safeLoad name content

/-- The settings that a file, the environment and values given by hand make up. An empty name stands
for no file. -/
def load (name : String) (file : FileState) (environment : List (String × String)) (explicit : Layer) :
    Except (LoadError ε) Settings := do
  let layer ← if name.isEmpty then pure [] else layerOfFile safeLoad name file
  (layered layer environment explicit).mapError .refused

end

end Settings

end Brainfuck
