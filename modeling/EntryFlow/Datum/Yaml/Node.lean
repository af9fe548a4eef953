import EntryFlow.Datum.Yaml.Layout

/-!
# Nodes of a YAML document

The tree that a sequence of tokens describes. An alias stands for the node that its anchor names, so
a tree has none. A text holds one document at most.

## Main definitions

* `Yaml.Node`.
* `Yaml.document?`: the node of the document that some tokens hold.
-/

namespace EntryFlow.Yaml

/-- A scalar, a list or a map, with its tag if it has one. -/
inductive Node where
  | scalar (tag : Option String) (isPlain : Bool) (text : String)
  | list (tag : Option String) (items : List Node)
  | map (tag : Option String) (entries : List (Node × Node))

/-- The node where nothing stands. -/
def Node.absent : Node := .scalar none true ""

/-- What is known while a document is read: the nodes that anchors name, the anchors of nodes that
are not finished, and the full forms of tag handles. -/
structure Known where
  anchors : List (String × Node)
  open_ : List String
  handles : List (String × String)

/-- The beginning of the tags that every document knows. -/
def commonTag : String := "tag:yaml.org,2002:"

/-- The tag handles that every document knows. -/
def commonHandles : List (String × String) := [("!", "!"), ("!!", commonTag)]

/-- Readers of tokens. -/
abbrev NodeReader := StateT (List Token × Known) Option

namespace NodeReader

/-- The next token. -/
def peek : NodeReader (Option Token) := do
  return (← get).1.head?

/-- Whether the next token is one of some. -/
def isNext (ts : List Token) : NodeReader Bool := do
  match ← peek with
  | some t => return t ∈ ts
  | none => return false

/-- Pass over the next token. -/
def next : NodeReader Unit :=
  modify fun (ts, known) => (ts.drop 1, known)

/-- Pass over a token that must come next. -/
def expect (t : Token) : NodeReader Unit := do
  if ← isNext [t] then next else failure

/-- The full form of a tag. -/
def fullTag (handle : Option String) (rest : String) : NodeReader String := do
  match handle with
  | none => return rest
  | some handle =>
    match (← get).2.handles.lookup handle with
    | some full => return full ++ rest
    | none => failure

/-- A tag, if one comes next. -/
def tag? : NodeReader (Option String) := do
  match ← peek with
  | some (.tag handle rest) =>
    next
    return some (← fullTag handle rest)
  | _ => return none

/-- An anchor, if one comes next. No two nodes have the same anchor. -/
def anchor? : NodeReader (Option String) := do
  match ← peek with
  | some (.anchor name) =>
    next
    let (ts, known) ← get
    if (known.anchors.lookup name).isSome || name ∈ known.open_ then failure
    set (ts, { known with open_ := name :: known.open_ })
    return some name
  | _ => return none

/-- The anchor and the tag of a node, in either order. -/
def properties : NodeReader (Option String × Option String) := do
  match ← anchor? with
  | some name => return (some name, ← tag?)
  | none =>
    let tag ← tag?
    return (← anchor?, tag)

/-- Give a finished node its anchor. -/
def define (anchor : Option String) (n : Node) : NodeReader Node := do
  match anchor with
  | none => return n
  | some name =>
    modify fun (ts, known) => (ts, { known with anchors := (name, n) :: known.anchors })
    return n

/-- The node that an alias stands for. -/
def aliased (name : String) : NodeReader Node := do
  match (← get).2.anchors.lookup name with
  | some n => return n
  | none => failure

/-- Where a node stands: in a block, where a list may or may not go without indentation, or in
brackets. -/
inductive Site where
  | block
  | blockValue
  | bracket
  deriving DecidableEq, Repr

mutual

/-- A node. `fuel` bounds the depth of the search. -/
def node (fuel : Nat) (site : Site) : NodeReader Node :=
  match fuel with
  | 0 => failure
  | fuel + 1 => do
    match ← peek with
    | some (.alias name) =>
      next
      aliased name
    | _ =>
      let (anchor, tag) ← properties
      define anchor (← content fuel site tag (anchor.isSome || tag.isSome))

/-- The content of a node behind its anchor and tag, which may be nothing if there are any. -/
def content (fuel : Nat) (site : Site) (tag : Option String) (mayBeAbsent : Bool) :
    NodeReader Node :=
  match fuel with
  | 0 => failure
  | fuel + 1 => do
    match ← peek with
    | some (.scalar isPlain text) =>
      next
      return .scalar tag isPlain text
    | some .listStart =>
      next
      return .list tag (← bracketItems fuel true)
    | some .mapStart =>
      next
      return .map tag (← bracketEntries fuel true)
    | some .dash =>
      if site = .blockValue then return .list tag (← looseItems fuel)
      else if mayBeAbsent then return .scalar tag true ""
      else failure
    | some .blockList =>
      if site = .bracket then
        if mayBeAbsent then return .scalar tag true "" else failure
      next
      return .list tag (← blockItems fuel)
    | some .blockMap =>
      if site = .bracket then
        if mayBeAbsent then return .scalar tag true "" else failure
      next
      return .map tag (← blockEntries fuel)
    | _ => if mayBeAbsent then return .scalar tag true "" else failure

/-- A node, or nothing before some tokens. -/
def nodeUnless (fuel : Nat) (site : Site) (ts : List Token) : NodeReader Node :=
  match fuel with
  | 0 => failure
  | fuel + 1 => do if ← isNext ts then return .absent else node fuel site

/-- The items of a list in a block of its own. -/
def blockItems (fuel : Nat) : NodeReader (List Node) :=
  match fuel with
  | 0 => failure
  | fuel + 1 => do
    if ← isNext [.dash] then
      next
      let item ← nodeUnless fuel .block [.dash, .blockEnd]
      return item :: (← blockItems fuel)
    else
      expect .blockEnd
      return []

/-- The items of a list that stands at the indentation of its key. -/
def looseItems (fuel : Nat) : NodeReader (List Node) :=
  match fuel with
  | 0 => failure
  | fuel + 1 => do
    if ← isNext [.dash] then
      next
      let item ← nodeUnless fuel .block [.dash, .key, .value, .blockEnd]
      return item :: (← looseItems fuel)
    else return []

/-- The entries of a map in a block. -/
def blockEntries (fuel : Nat) : NodeReader (List (Node × Node)) :=
  match fuel with
  | 0 => failure
  | fuel + 1 => do
    if ← isNext [.key] then
      next
      let key ← nodeUnless fuel .blockValue [.key, .value, .blockEnd]
      let value ← valueUnless fuel .blockValue [.key, .value, .blockEnd]
      return (key, value) :: (← blockEntries fuel)
    else
      expect .blockEnd
      return []

/-- The value behind a colon, or nothing without one. -/
def valueUnless (fuel : Nat) (site : Site) (ts : List Token) : NodeReader Node :=
  match fuel with
  | 0 => failure
  | fuel + 1 => do
    if ← isNext [.value] then
      next
      nodeUnless fuel site ts
    else return .absent

/-- The items of a list in brackets. An item with a colon is a map of one entry. -/
def bracketItems (fuel : Nat) (isFirst : Bool) : NodeReader (List Node) :=
  match fuel with
  | 0 => failure
  | fuel + 1 => do
    if ← isNext [.listEnd] then
      next
      return []
    if !isFirst then expect .comma
    if ← isNext [.listEnd] then
      next
      return []
    let item ← do
      if ← isNext [.key] then
        next
        let key ← nodeUnless fuel .bracket [.value, .comma, .listEnd]
        let value ← valueUnless fuel .bracket [.comma, .listEnd]
        pure (Node.map none [(key, value)])
      else node fuel .bracket
    return item :: (← bracketItems fuel false)

/-- The entries of a map in brackets. What stands without a colon is a key without value. -/
def bracketEntries (fuel : Nat) (isFirst : Bool) : NodeReader (List (Node × Node)) :=
  match fuel with
  | 0 => failure
  | fuel + 1 => do
    if ← isNext [.mapEnd] then
      next
      return []
    if !isFirst then expect .comma
    if ← isNext [.mapEnd] then
      next
      return []
    let entry ← do
      if ← isNext [.key] then
        next
        let key ← nodeUnless fuel .bracket [.value, .comma, .mapEnd]
        let value ← valueUnless fuel .bracket [.comma, .mapEnd]
        pure (key, value)
      else
        let key ← node fuel .bracket
        pure (key, Node.absent)
    return entry :: (← bracketEntries fuel false)

end

/-- The directives in front of a document. A document asks for one version at most, and for the
first major version. -/
def directives (fuel : Nat) (hasVersion : Bool) (declared : List (String × String)) :
    NodeReader (Option (List (String × String))) :=
  match fuel with
  | 0 => failure
  | fuel + 1 => do
    match ← peek with
    | some (.version major) =>
      if hasVersion || major ≠ 1 then failure
      next
      return some ((← directives fuel true declared).getD [])
    | some (.tagHandle handle full) =>
      if (declared.lookup handle).isSome then failure
      next
      let others := (← directives fuel hasVersion ((handle, full) :: declared)).getD []
      return some ((handle, full) :: others)
    | some .reserved =>
      next
      return some ((← directives fuel hasVersion declared).getD [])
    | _ => return none

/-- Pass over the marks of the ends of documents. -/
def documentEnds (fuel : Nat) : NodeReader Unit :=
  match fuel with
  | 0 => failure
  | fuel + 1 => do
    if ← isNext [.documentEnd] then
      next
      documentEnds fuel

/-- The document behind its mark, which may be empty. -/
def explicitDocument (fuel : Nat) : NodeReader Node := do
  let declared := (← directives fuel false []).getD []
  modify fun (ts, known) => (ts, { known with handles := declared ++ commonHandles })
  expect .documentStart
  match ← peek with
  | none | some .documentStart | some .documentEnd | some (.version _) | some (.tagHandle ..)
  | some .reserved => return .absent
  | _ => node fuel .block

/-- The only document of a text; nothing if there is none. -/
def document (fuel : Nat) : NodeReader (Option Node) := do
  match ← peek with
  | none => return none
  | some .documentStart | some (.version _) | some (.tagHandle ..) | some .reserved =>
    let n ← explicitDocument fuel
    documentEnds fuel
    return some n
  | _ =>
    let n ← node fuel .block
    documentEnds fuel
    return some n

end NodeReader

/-- The node of the document that some tokens hold, if they hold one document at most. -/
def document? (ts : List Token) : Option (Option Node) :=
  match (NodeReader.document (8 * ts.length + 16)).run (ts, ⟨[], [], commonHandles⟩) with
  | some (n, [], _) => some n
  | _ => none

end EntryFlow.Yaml
