import Brainfuck.Yaml.Tag
import Brainfuck.Yaml.Token.Stream

/-! # Nodes

The tokens of a text make up a tree of nodes: texts, sequences and mappings, each with a tag. A text
holds one document at most. A node may be named by an anchor and stand again wherever its alias does;
inside a node its own alias cannot be filled in, and is kept as such. -/
namespace Brainfuck.Yaml

/-- A node of a document. -/
inductive Node
  | scalar (tag text : String)
  | sequence (tag : String) (items : List Node)
  | mapping (tag : String) (entries : List (Node × Node))
  | again (isMapping : Bool)
  deriving Inhabited

namespace Node

/-- What an anchor names. -/
inductive Anchored
  | node (n : Node)
  | unfinished (isMapping : Bool)

/-- The tokens still to be read, with the anchors and the handles of tags that are known. -/
structure Reader where
  tokens : List Token
  anchors : List (String × Anchored) := []
  handles : List (String × String) := []

/-- A step of reading nodes. -/
abbrev Read := StateT Reader (Except Error)

def refuse {α : Type} (rule : Rule) : Read α := fun _ => .error (.rule rule)

def peek : Read (Option Token) := do return (← get).tokens.head?

def advance : Read Unit := modify fun r => { r with tokens := r.tokens.tail }

/-- Passes over the next token if it is the given one, and tells whether it was. -/
def accept (t : Token) : Read Bool := do
  if (← peek) == some t then
    advance
    return true
  else return false

/-- Whether the next token is one of the given ones. -/
def atAny (ts : List Token) : Read Bool := do
  match ← peek with
  | some t => return ts.contains t
  | none => return false

def expect (t : Token) (rule : Rule) : Read Unit := do
  if !(← accept t) then refuse rule

/-- A node left out, which has no value. -/
def missing : Node := scalar Tag.null ""

/-- The tag that a handle and a suffix make up. -/
def expandTag (t : TagText) : Read String := do
  match t.handle with
  | none => return t.suffix
  | some h =>
    match (← get).handles.lookup h with
    | some expansion => return expansion ++ t.suffix
    | none => refuse .tagHandle

/-- The anchor and the tag before a node, in either order. -/
def properties : Read (Option String × Option String) := do
  let readTag : Read (Option String) := do
    match ← peek with
    | some (.tag t) =>
      advance
      return some (← expandTag t)
    | _ => return none
  match ← peek with
  | some (.anchor name) =>
    advance
    return (some name, ← readTag)
  | some (.tag _) =>
    let tag ← readTag
    match ← peek with
    | some (.anchor name) =>
      advance
      return (some name, tag)
    | _ => return (none, tag)
  | _ => return (none, none)

/-- Names a node. A name is given once in a document. -/
def name (anchor : Option String) (a : Anchored) : Read Unit := do
  match anchor with
  | none => return ()
  | some n =>
    if ((← get).anchors.lookup n).isSome then refuse .duplicateAnchor
    else modify fun r => { r with anchors := (n, a) :: r.anchors }

/-- Names a node that was named while it was unfinished. -/
def finish (anchor : Option String) (n : Node) : Read Node := do
  match anchor with
  | none => return n
  | some name =>
    modify fun r =>
      { r with anchors := (name, .node n) :: r.anchors.filter fun (other, _) => other != name }
    return n

/-- The node that an alias stands for. -/
def ofAlias (name : String) : Read Node := do
  match (← get).anchors.lookup name with
  | some (.node n) => return n
  | some (.unfinished isMapping) => return again isMapping
  | none => refuse .undefinedAlias

/-- The tag of a collection: the one given, unless it leaves the kind open. -/
def collectionTag (tag : Option String) (own : String) : String :=
  match tag with
  | none => own
  | some t => if t == "!" then own else t

/-- The tag of a text: the one given, or else the one that the form of a plain text suggests. A tag
that leaves the kind open leaves it to the form in any case. -/
def scalarTag (tag : Option String) (plain : Bool) (text : String) : String :=
  match tag with
  | none => if plain then Tag.ofForm text else Tag.str
  | some t => if t == "!" then Tag.ofForm text else t

mutual

/-- A node. Blocks are allowed outside brackets only, and after a key the items of a sequence need no
indentation of their own. -/
def read (block indentless : Bool) : Nat → Read Node
  | 0 => refuse .nodeContent
  | rounds + 1 => do
    if let some (.alias a) ← peek then
      advance
      return ← ofAlias a
    let (anchor, tag) ← properties
    let sequence (items : Read (List Node)) : Read Node := do
      name anchor (.unfinished false)
      finish anchor (.sequence (collectionTag tag Tag.seq) (← items))
    let mapping (entries : Read (List (Node × Node))) : Read Node := do
      name anchor (.unfinished true)
      finish anchor (.mapping (collectionTag tag Tag.map) (← entries))
    let scalar (plain : Bool) (text : String) : Read Node := do
      let n := scalar (scalarTag tag plain text) text
      name anchor (.node n)
      return n
    match ← peek with
    | some .blockEntry =>
      if indentless then sequence (indentlessItems rounds)
      else if anchor.isSome || tag.isSome then scalar true ""
      else refuse .nodeContent
    | some (.scalar text plain) =>
      advance
      scalar plain text
    | some .flowSequenceStart =>
      advance
      sequence (flowItems true rounds)
    | some .flowMappingStart =>
      advance
      mapping (flowEntries true rounds)
    | some .blockSequenceStart =>
      if block then
        advance
        sequence (blockItems rounds)
      else if anchor.isSome || tag.isSome then scalar true ""
      else refuse .nodeContent
    | some .blockMappingStart =>
      if block then
        advance
        mapping (blockEntries rounds)
      else if anchor.isSome || tag.isSome then scalar true ""
      else refuse .nodeContent
    | _ => if anchor.isSome || tag.isSome then scalar true "" else refuse .nodeContent

/-- The items of an indented sequence, up to the end of its block. -/
def blockItems : Nat → Read (List Node)
  | 0 => refuse .collectionEnd
  | rounds + 1 => do
    if ← accept .blockEntry then
      let item ←
        if ← atAny [.blockEntry, .blockEnd] then pure missing else read true false rounds
      return item :: (← blockItems rounds)
    else
      expect .blockEnd .collectionEnd
      return []

/-- The items of a sequence that is not indented, as long as there are any. -/
def indentlessItems : Nat → Read (List Node)
  | 0 => refuse .collectionEnd
  | rounds + 1 => do
    if ← accept .blockEntry then
      let item ←
        if ← atAny [.blockEntry, .key, .value, .blockEnd] then pure missing
        else read true false rounds
      return item :: (← indentlessItems rounds)
    else return []

/-- The entries of an indented mapping, up to the end of its block. -/
def blockEntries : Nat → Read (List (Node × Node))
  | 0 => refuse .collectionEnd
  | rounds + 1 => do
    let part : Read Node := do
      if ← atAny [.key, .value, .blockEnd] then pure missing else read true true rounds
    if ← accept .key then
      let key ← part
      let value ← if ← accept .value then part else pure missing
      return (key, value) :: (← blockEntries rounds)
    else
      if ← accept .blockEnd then return []
      else refuse .collectionEnd

/-- The items of a sequence in brackets, up to the closing one. An item may be a single entry of a
mapping. -/
def flowItems (first : Bool) : Nat → Read (List Node)
  | 0 => refuse .collectionEnd
  | rounds + 1 => do
    if ← accept .flowSequenceEnd then return []
    if !first then expect .flowEntry .collectionEnd
    if ← accept .key then
      let key ←
        if ← atAny [.value, .flowEntry, .flowSequenceEnd] then pure missing
        else read false false rounds
      let value ←
        if ← accept .value then
          if ← atAny [.flowEntry, .flowSequenceEnd] then pure missing else read false false rounds
        else pure missing
      return .mapping Tag.map [(key, value)] :: (← flowItems false rounds)
    else if ← accept .flowSequenceEnd then return []
    else
      let item ← read false false rounds
      return item :: (← flowItems false rounds)

/-- The entries of a mapping in brackets, up to the closing one. -/
def flowEntries (first : Bool) : Nat → Read (List (Node × Node))
  | 0 => refuse .collectionEnd
  | rounds + 1 => do
    if ← accept .flowMappingEnd then return []
    if !first then expect .flowEntry .collectionEnd
    if ← accept .key then
      let key ←
        if ← atAny [.value, .flowEntry, .flowMappingEnd] then pure missing
        else read false false rounds
      let value ←
        if ← accept .value then
          if ← atAny [.flowEntry, .flowMappingEnd] then pure missing else read false false rounds
        else pure missing
      return (key, value) :: (← flowEntries false rounds)
    else if ← accept .flowMappingEnd then return []
    else
      let key ← read false false rounds
      return (key, missing) :: (← flowEntries false rounds)

end

/-- The handles of tags that are known without a directive. -/
def standardHandles : List (String × String) := [("!", "!"), ("!!", Tag.standard)]

/-- The directives before a document. A version is given once and its first number is one. -/
def directives (versioned : Bool) (handles : List (String × String)) :
    List Token → Except Error (List (String × String) × List Token)
  | .directive (.version major) :: rest =>
    if versioned || major != 1 then .error (.rule .directive) else directives true handles rest
  | .directive (.handle h expansion) :: rest =>
    if (handles.lookup h).isSome then .error (.rule .directive)
    else directives versioned ((h, expansion) :: handles) rest
  | .directive .other :: rest => directives versioned handles rest
  | rest => .ok (handles ++ standardHandles, rest)

/-- A bound on the depth of calls in reading a list of tokens: a call inside another has taken a token
or is one of three that share one. -/
def roundsFor (tokens : List Token) : Nat := 4 * tokens.length + 4

/-- The content of a document, read up to its end. -/
def content : Read Node := do
  let ts := (← get).tokens
  match ts with
  | [] => return missing
  | .directive _ :: _ | .documentStart :: _ | .documentEnd :: _ => return missing
  | _ => read true false (roundsFor ts)

/-- Runs the reading of a document over tokens, and gives the node with the tokens after it. -/
def readDocument (handles : List (String × String)) (tokens : List Token) (step : Read Node) :
    Except Error (Node × List Token) :=
  (step.run { tokens := tokens, handles := handles }).map fun (n, r) => (n, r.tokens)

/-- The only document of a text, if there is any. -/
def ofTokens (tokens : List Token) : Except Error (Option Node) := do
  match tokens with
  | [] => return none
  | .documentStart :: _ | .directive _ :: _ =>
    let (handles, rest) ← directives false [] tokens
    match rest with
    | .documentStart :: rest => finishText (← readDocument handles rest content)
    | _ => throw (.rule .documentStart)
  | _ => finishText (← readDocument standardHandles tokens (read true false (roundsFor tokens)))
where
  /-- Nothing but ends of documents may follow. -/
  finishText (result : Node × List Token) : Except Error (Option Node) :=
    if result.2.all (· == .documentEnd) then .ok (some result.1)
    else .error (.rule .documentCount)

end Node

end Brainfuck.Yaml
