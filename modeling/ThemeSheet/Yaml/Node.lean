import ThemeSheet.Tree.Basic
import ThemeSheet.Yaml.Lexer

/-!
# The nodes of a YAML document

A document is one node: a scalar, or a collection, which is a sequence of nodes or a mapping of
nodes to nodes. A node may be missing wherever the structure alone shows that there is one; it is
then the empty plain scalar.

An alias puts one node in several places, and as an anchor is known from the first token of its node
on, an alias may stand inside the node that it is an alias of. So a collection is known by a mark:
the marks are the numbers of the collections of a document, in the order in which they begin, and
what a collection holds is kept apart from the places where it stands.

A mishap among the tokens is met by whoever looks at the next token, and not before. So nothing here
looks further than it has to.

The readers take fuel. A round passes over a token or hands over to one that does within three
rounds, so four units for each token are enough.

## Main definitions

* `Node`, `Collection`, `Document`, `Document.ofTokens`.
-/

namespace ThemeSheet.Yaml

/-- The tags of the kinds of nodes that need none. -/
structure CoreTag where
  text : String := "tag:yaml.org,2002:str"
  sequence : String := "tag:yaml.org,2002:seq"
  mapping : String := "tag:yaml.org,2002:map"

/-- A node. A scalar without a tag is plain, and its text says what it is; it may have the name of
an anchor. -/
inductive Node where
  | scalar (tag : Option String) (text : String) (anchor : Option String := none)
  | collection (mark : Mark)
deriving DecidableEq, Repr, Inhabited

/-- What a collection holds. -/
inductive Collection where
  | sequence (tag : String) (items : List Node)
  | mapping (tag : String) (entries : List (Node × Node))
deriving DecidableEq, Repr

/-- The node of a document, and its collections by their marks. -/
structure Document where
  root : Node
  collections : Array Collection := #[]
deriving Repr

/-- What is known while nodes are read: the tokens that are left, the nodes of the anchors, the tag
handles, and the collections that have begun. -/
structure Supply where
  tokens : List Token
  anchors : List (String × Node) := []
  handles : List (String × String) := []
  collections : Array Collection := #[]

/-- A step reads something from the supply. -/
abbrev Step := StateT Supply (Except Error)

namespace Node

/-- The missing node. -/
def missing : Node := .scalar none ""

/-- The handles that are always defined. -/
def defaultHandles : List (String × String) := [("!", "!"), ("!!", "tag:yaml.org,2002:")]

/-! ### Tokens -/

/-- The next token, if there is one. A mishap is met here. -/
def next? : Step (Option Token) := do
  match (← get).tokens with
  | .broken mishap :: _ => throw (.unprepared mishap)
  | t :: _ => return some t
  | [] => return none

/-- Passes over the next token. -/
def skip : Step Unit := modify fun s => { s with tokens := s.tokens.drop 1 }

/-- Whether a class has the next token. -/
def sees (p : Token → Bool) : Step Bool := do return (← next?).any p

/-- Passes over a token if it comes next, and says whether it does. -/
def passes (t : Token) : Step Bool := do
  if (← next?) = some t then
    skip
    return true
  else return false

/-- Passes over a token that has to come next. -/
def expect (t : Token) : Step Unit := do
  if !(← passes t) then throw (.malformed .unexpectedToken)

/-! ### Properties -/

/-- The anchor that comes next, if one does. -/
def anchor? : Step (Option String) := do
  match ← next? with
  | some (.anchor name) => skip; return some name
  | _ => return none

/-- The tag that comes next, if one does, as it is written. -/
def tag? : Step (Option (Option String × String)) := do
  match ← next? with
  | some (.tag handle suffix) => skip; return some (handle, suffix)
  | _ => return none

/-- A tag with its handle spelt out. -/
def spelt (handle : Option String) (suffix : String) : Step String := do
  match handle with
  | none => return suffix
  | some h => match (← get).handles.lookup h with
    | some beginning => return beginning ++ suffix
    | none => throw (.malformed .undefinedTagHandle)

/-- An anchor and a tag in any order. -/
def properties : Step (Option String × Option String) := do
  let first ← anchor?
  let tag ← tag?
  let anchor ← if first.isNone && tag.isSome then anchor? else pure first
  return (anchor, ← tag.mapM fun written => spelt written.1 written.2)

/-- Refuses an anchor whose name is known already. -/
def checkNew (anchor : Option String) : Step Unit := do
  match anchor with
  | none => return
  | some name =>
    if ((← get).anchors.lookup name).isSome then throw (.malformed .duplicateAnchor)

/-- Makes the node of an anchor known. -/
def declare (anchor : Option String) (node : Node) : Step Unit :=
  match anchor with
  | none => return
  | some name => modify fun s => { s with anchors := (name, node) :: s.anchors }

/-- A scalar that may have an anchor. -/
def scalarOf (anchor tag : Option String) (text : String) : Step Node := do
  checkNew anchor
  let node := Node.scalar tag text anchor
  declare anchor node
  return node

/-- The mark of a collection that begins. It holds nothing yet. -/
def newMark : Step Mark :=
  modifyGet fun s =>
    (s.collections.size,
      { s with collections := s.collections.push (.sequence ({} : CoreTag).sequence []) })

/-- A collection that may have an anchor and whose content is read by a step. -/
def collectionOf (anchor : Option String) (content : Step Collection) : Step Node := do
  checkNew anchor
  let mark ← newMark
  declare anchor (.collection mark)
  let collection ← content
  modify fun s => { s with collections := s.collections.setIfInBounds mark collection }
  return .collection mark

/-- A sequence of items that are read by a step. -/
def sequenceOf (anchor : Option String) (tag : String) (items : Step (List Node)) : Step Node :=
  collectionOf anchor (return .sequence tag (← items))

/-- A mapping of entries that are read by a step. -/
def mappingOf (anchor : Option String) (tag : String) (entries : Step (List (Node × Node))) :
    Step Node :=
  collectionOf anchor (return .mapping tag (← entries))

/-- The tag of a collection, or the one it has without any. The tag `!` says nothing. -/
def collectionTag (tag : Option String) (default : String) : String :=
  match tag with
  | none => default
  | some t => if t = "!" then default else t

/-- The tag of a scalar. One that is not plain is a text if nothing else is said. -/
def scalarTag (tag : Option String) (plain : Bool) : Option String :=
  match tag with
  | none => if plain then none else some ({} : CoreTag).text
  | some t => if t = "!" then none else some t

/-! ### Nodes -/

/-- Where a node stands: in a block, in a block in which a sequence needs no indentation, or in a
flow collection. -/
inductive Place where
  | block
  | blockValue
  | flow
deriving DecidableEq, Repr

/-- Whether a token ends an item of a sequence that is not indented. -/
def endsOpenItem : Token → Bool
  | .item | .key | .value | .blockEnd => true
  | _ => false

/-- Whether a token ends an item of a block sequence. -/
def endsItem : Token → Bool
  | .item | .blockEnd => true
  | _ => false

/-- Whether a token ends a key or a value of a block mapping. -/
def endsMember : Token → Bool
  | .key | .value | .blockEnd => true
  | _ => false

/-- Whether a token ends a key in a flow collection with a closing bracket. -/
def endsFlowKey (closing : Token) (t : Token) : Bool :=
  t == .value || t == .comma || t == closing

/-- Whether a token ends a value in a flow collection with a closing bracket. -/
def endsFlowValue (closing : Token) (t : Token) : Bool := t == .comma || t == closing

mutual

/-- A node. -/
def read : Nat → Place → Step Node
  | 0, _ => throw (.malformed .unexpectedToken)
  | fuel + 1, place => do
    match ← next? with
    | some (.alias name) =>
      skip
      match (← get).anchors.lookup name with
      | some node => return node
      | none => throw (.malformed .undefinedAlias)
    | _ =>
      let (anchor, tag) ← properties
      readContent fuel place anchor tag

/-- A node after its properties; if it has any, it may be missing. -/
def readContent : Nat → Place → Option String → Option String → Step Node
  | 0, _, _, _ => throw (.malformed .unexpectedToken)
  | fuel + 1, place, anchor, tag => do
    let sequence := collectionTag tag ({} : CoreTag).sequence
    let mapping := collectionTag tag ({} : CoreTag).mapping
    let empty : Step Node :=
      if anchor.isSome || tag.isSome then
        scalarOf anchor (scalarTag tag true) ""
      else throw (.malformed .unexpectedToken)
    match ← next? with
    | some .item =>
      if place = .blockValue then
        sequenceOf anchor sequence (openItems fuel)
      else empty
    | some (.scalar plain text) =>
      skip
      scalarOf anchor (scalarTag tag plain) text
    | some .flowSequenceStart =>
      skip
      sequenceOf anchor sequence (flowItems fuel true)
    | some .flowMappingStart =>
      skip
      mappingOf anchor mapping (flowMembers fuel true)
    | some .blockSequenceStart =>
      if place = .flow then empty
      else
        skip
        sequenceOf anchor sequence (blockItems fuel)
    | some .blockMappingStart =>
      if place = .flow then empty
      else
        skip
        mappingOf anchor mapping (blockMembers fuel)
    | _ => empty

/-- A node, unless a token of a class comes next: then it is missing. -/
def readUnless : Nat → Place → (Token → Bool) → Step Node
  | 0, _, _ => throw (.malformed .unexpectedToken)
  | fuel + 1, place, ends => do
    if ← sees ends then return missing else read fuel place

/-- The items of a block sequence. -/
def blockItems : Nat → Step (List Node)
  | 0 => throw (.malformed .unexpectedToken)
  | fuel + 1 => do
    if ← passes .item then
      let node ← readUnless fuel .block endsItem
      return node :: (← blockItems fuel)
    else
      expect .blockEnd
      return []

/-- The items of a sequence that is not indented. -/
def openItems : Nat → Step (List Node)
  | 0 => throw (.malformed .unexpectedToken)
  | fuel + 1 => do
    if ← passes .item then
      let node ← readUnless fuel .block endsOpenItem
      return node :: (← openItems fuel)
    else return []

/-- The members of a block mapping. -/
def blockMembers : Nat → Step (List (Node × Node))
  | 0 => throw (.malformed .unexpectedToken)
  | fuel + 1 => do
    if ← passes .key then
      let key ← readUnless fuel .blockValue endsMember
      let value ← if ← passes .value then readUnless fuel .blockValue endsMember else pure missing
      return (key, value) :: (← blockMembers fuel)
    else
      expect .blockEnd
      return []

/-- The value of a key in a flow collection with a closing bracket. -/
def flowValue : Nat → Token → Step Node
  | 0, _ => throw (.malformed .unexpectedToken)
  | fuel + 1, closing => do
    if ← passes .value then readUnless fuel .flow (endsFlowValue closing) else return missing

/-- The items of a flow sequence. A key among them makes a mapping of one member. -/
def flowItems : Nat → Bool → Step (List Node)
  | 0, _ => throw (.malformed .unexpectedToken)
  | fuel + 1, first => do
    if ← passes .flowSequenceEnd then return []
    if !first then
      expect .comma
      if ← passes .flowSequenceEnd then return []
    if ← passes .key then
      let key ← readUnless fuel .flow (endsFlowKey .flowSequenceEnd)
      let value ← flowValue fuel .flowSequenceEnd
      let member ← mappingOf none ({} : CoreTag).mapping (return [(key, value)])
      return member :: (← flowItems fuel false)
    else
      let node ← read fuel .flow
      return node :: (← flowItems fuel false)

/-- The members of a flow mapping. -/
def flowMembers : Nat → Bool → Step (List (Node × Node))
  | 0, _ => throw (.malformed .unexpectedToken)
  | fuel + 1, first => do
    if ← passes .flowMappingEnd then return []
    if !first then
      expect .comma
      if ← passes .flowMappingEnd then return []
    if ← passes .key then
      let key ← readUnless fuel .flow (endsFlowKey .flowMappingEnd)
      let value ← flowValue fuel .flowMappingEnd
      return (key, value) :: (← flowMembers fuel false)
    else
      let key ← read fuel .flow
      return (key, missing) :: (← flowMembers fuel false)

end

end Node

/-! ### Documents -/

namespace Document

/-- The tag handles that directives define. The version may be given once. -/
def handlesOf : Bool → List (String × String) → List Directive →
    Except Error (List (String × String))
  | _, handles, [] => .ok handles
  | seen, handles, .version major :: rest =>
    if seen || major != 1 then .error (.malformed .badDirective) else handlesOf true handles rest
  | seen, handles, .tagHandle handle beginning :: rest =>
    if (handles.lookup handle).isSome then .error (.malformed .badDirective)
    else handlesOf seen ((handle, beginning) :: handles) rest
  | seen, handles, .other :: rest => handlesOf seen handles rest

/-- The directives that tokens begin with, and the tokens after them. -/
def directives : List Token → List Directive × List Token
  | .directive d :: rest => (d :: (directives rest).1, (directives rest).2)
  | ts => ([], ts)

/-- Whether a token is outside of the content of a document. -/
def endsContent : Token → Bool
  | .directive _ | .documentStart | .documentEnd => true
  | _ => false

/-- Refuses tokens for a fault, unless a mishap is met first. -/
def refuse {α : Type} (fault : Fault) : List Token → Except Error α
  | .broken mishap :: _ => .error (.unprepared mishap)
  | _ => .error (.malformed fault)

/-- A document whose content begins with tokens, and what follows it. -/
def ofContent (fuel : Nat) (handles : List (String × String)) (ts : List Token) :
    Except Error (Document × List Token) := do
  let (root, s) ← (Node.read fuel .block).run { tokens := ts, handles }
  return ({ root, collections := s.collections }, s.tokens)

/-- The document that tokens begin with, and what follows it. -/
def first (fuel : Nat) (ts : List Token) : Except Error (Document × List Token) := do
  if ts.isEmpty then return ({ root := .missing }, [])
  let (ds, rest) := directives ts
  let handles := (← handlesOf false [] ds) ++ Node.defaultHandles
  match rest with
  | .documentStart :: content =>
    if content.isEmpty || (content.head?).any endsContent then
      return ({ root := .missing }, content)
    else ofContent fuel handles content
  | content =>
    if ds.isEmpty then ofContent fuel handles content
    else refuse .unexpectedToken content

/-- Checks that no further document follows. -/
def checkEnd (ts : List Token) : Except Error Unit := do
  let rest := ts.dropWhile (· == .documentEnd)
  if rest.isEmpty then return
  let (ds, rest) := directives rest
  let _ ← handlesOf false [] ds
  refuse .severalDocuments rest

/-- The only document of a text. -/
def ofTokens (ts : List Token) : Except Error Document := do
  let (document, rest) ← first (4 * ts.length + 4) ts
  checkEnd rest
  return document

end Document

end ThemeSheet.Yaml
