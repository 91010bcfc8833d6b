import Catalog.Yaml.Scan

/-!
# From tokens to nodes

A document is one node: a scalar, a list, a mapping, or an alias of another node. Every reader of a
node takes tokens from the front of a list and gives back the rest.

* `Node` is a node with its anchor and its tag;
* `TagHandles` are the declared handles of tags, and `resolveTag` applies them;
* `node` reads a node, with one function for each kind of collection;
* `documentNode` reads the only document of a text, which may be absent.
-/

namespace Catalog.Yaml

/-- A node of a document. -/
inductive Node where
  | aliasOf (name : String)
  | scalar (anchor tag : Option String) (text : String) (isPlain : Bool)
  | list (anchor tag : Option String) (items : List Node)
  | map (anchor tag : Option String) (entries : List (Node × Node))
  deriving Inhabited

/-- The node that stands where nothing is written. -/
def Node.absent : Node := .scalar none none "" true

/-- The handles of tags and what they stand for. -/
abbrev TagHandles := List (String × String)

/-- The handles that need no declaration. -/
def defaultHandles : TagHandles := [("!", "!"), ("!!", "tag:yaml.org,2002:")]

/-- The whole tag for a handle and a suffix. -/
def resolveTag (handles : TagHandles) (handle suffix : String) : Except Fault String :=
  if handle == "" then .ok suffix
  else
    match handles.find? fun h => h.1 == handle with
    | some h => .ok (h.2 ++ suffix)
    | none => .error .tagHandle

/-! ### Anchors and tags -/

/-- The anchor and the tag in front of a node, in either order. -/
structure Properties where
  anchor : Option String := none
  tag : Option (String × String) := none

/-- Takes the anchor and the tag in front of a node. -/
def properties : List Token → Properties × List Token
  | .anchor a :: .tag h s :: rest => ({ anchor := some a, tag := some (h, s) }, rest)
  | .tag h s :: .anchor a :: rest => ({ anchor := some a, tag := some (h, s) }, rest)
  | .anchor a :: rest => ({ anchor := some a }, rest)
  | .tag h s :: rest => ({ tag := some (h, s) }, rest)
  | ts => ({}, ts)

theorem length_properties_le (ts : List Token) : (properties ts).2.length ≤ ts.length := by
  unfold properties
  split <;> simp <;> omega

/-! ### Nodes -/

/-- Whether nothing is written before the next token of a block. -/
def absentInBlock : List Token → Bool
  | .blockEntry :: _ | .key :: _ | .value :: _ | .blockEnd :: _ => true
  | _ => false

/-- Whether nothing is written before the next token of a mapping in block style. -/
def absentInMapping : List Token → Bool
  | .key :: _ | .value :: _ | .blockEnd :: _ => true
  | _ => false

/-- Whether nothing is written before the next token of a list in block style. -/
def absentInSequence : List Token → Bool
  | .blockEntry :: _ | .blockEnd :: _ => true
  | _ => false

/-- Whether nothing is written before the next token inside brackets that close with `close`. -/
def absentInFlow (close : Token) : List Token → Bool
  | .flowEntry :: _ => true
  | t :: _ => t == close
  | [] => false

mutual

/-- Reads a node. Blocks may start only where `inBlock` holds, and the items of a list may follow
without deeper indentation only where `indentless` holds. -/
def node (handles : TagHandles) (inBlock indentless : Bool) (ts : List Token) :
    Except Fault (Node × List Token) := do
  match ts with
  | .aliasOf name :: rest => return (.aliasOf name, rest)
  | ts =>
    let props := (properties ts).1
    have _h : (properties ts).2.length ≤ ts.length := length_properties_le ts
    let tag ←
      match props.tag with
      | some (h, s) => (resolveTag handles h s).map some
      | none => pure none
    content handles inBlock indentless props.anchor tag (properties ts).2
termination_by (ts.length, 3)
decreasing_by
  rcases Nat.lt_or_eq_of_le _h with h | h
  · exact Prod.Lex.left _ _ h
  · rw [h]
    exact Prod.Lex.right _ (by omega)

/-- Reads what follows the anchor and the tag of a node. -/
def content (handles : TagHandles) (inBlock indentless : Bool) (anchor tag : Option String)
    (ts : List Token) : Except Fault (Node × List Token) := do
  let isNamed := anchor.isSome || tag.isSome
  match ts with
  | .scalar text style :: rest =>
    let kept := if tag == some "!" then none else tag
    return (.scalar anchor kept text (style == .plain), rest)
  | .flowSequenceStart :: rest =>
    let (items, after) ← flowItems handles true rest
    return (.list anchor tag items, after)
  | .flowMappingStart :: rest =>
    let (entries, after) ← flowEntries handles true rest
    return (.map anchor tag entries, after)
  | .blockEntry :: rest =>
    if indentless then
      let (items, after) ← indentlessItems handles (.blockEntry :: rest)
      return (.list anchor tag items, after)
    else if isNamed then return (.scalar anchor tag "" true, .blockEntry :: rest)
    else throw .node
  | .blockSequenceStart :: rest =>
    if inBlock then
      let (items, after) ← blockItems handles rest
      return (.list anchor tag items, after)
    else if isNamed then return (.scalar anchor tag "" true, .blockSequenceStart :: rest)
    else throw .node
  | .blockMappingStart :: rest =>
    if inBlock then
      let (entries, after) ← blockEntries handles rest
      return (.map anchor tag entries, after)
    else if isNamed then return (.scalar anchor tag "" true, .blockMappingStart :: rest)
    else throw .node
  | rest => if isNamed then return (.scalar anchor tag "" true, rest) else throw .node
termination_by (ts.length, 2)

/-- Reads the items of a list that is not indented, up to the first token that starts no item. -/
def indentlessItems (handles : TagHandles) (ts : List Token) :
    Except Fault (List Node × List Token) :=
  match ts with
  | .blockEntry :: rest => do
    let (item, after) ←
      if absentInBlock rest then pure (Node.absent, rest) else node handles true false rest
    if _h : after.length ≤ rest.length then
      let (items, last) ← indentlessItems handles after
      return (item :: items, last)
    else throw .node
  | rest => .ok ([], rest)
termination_by (ts.length, 0)

/-- Reads the items of a list in block style, up to the end of the block. -/
def blockItems (handles : TagHandles) (ts : List Token) : Except Fault (List Node × List Token) :=
  match ts with
  | .blockEntry :: rest => do
    let (item, after) ←
      if absentInSequence rest then pure (Node.absent, rest) else node handles true false rest
    if _h : after.length ≤ rest.length then
      let (items, last) ← blockItems handles after
      return (item :: items, last)
    else throw .node
  | .blockEnd :: rest => .ok ([], rest)
  | _ => .error .node
termination_by (ts.length, 0)

/-- Reads the entries of a mapping in block style, up to the end of the block. -/
def blockEntries (handles : TagHandles) (ts : List Token) :
    Except Fault (List (Node × Node) × List Token) :=
  match ts with
  | .key :: rest => do
    let (k, afterKey) ←
      if absentInMapping rest then pure (Node.absent, rest) else node handles true true rest
    if _h : afterKey.length ≤ rest.length then
      let (v, after) ← blockValue handles afterKey
      if _h' : after.length ≤ rest.length then
        let (entries, last) ← blockEntries handles after
        return ((k, v) :: entries, last)
      else throw .node
    else throw .node
  | .blockEnd :: rest => .ok ([], rest)
  | _ => .error .node
termination_by (ts.length, 0)

/-- Reads the value after a key of a mapping in block style. -/
def blockValue (handles : TagHandles) (ts : List Token) : Except Fault (Node × List Token) :=
  match ts with
  | .value :: rest =>
    if absentInMapping rest then .ok (Node.absent, rest) else node handles true true rest
  | rest => .ok (Node.absent, rest)
termination_by (ts.length, 0)

/-- Reads the items of a list in brackets, where every item but the `first` follows a comma. -/
def flowItems (handles : TagHandles) (first : Bool) (ts : List Token) :
    Except Fault (List Node × List Token) :=
  match ts with
  | .flowSequenceEnd :: rest => .ok ([], rest)
  | .flowEntry :: .flowSequenceEnd :: rest => if first then .error .node else .ok ([], rest)
  | .flowEntry :: rest => if first then .error .node else flowItem handles rest
  | rest => if first then flowItem handles rest else .error .node
termination_by (ts.length, 5)

/-- Reads an item of a list in brackets and the items after it. An item with a key is a mapping of
one entry. -/
def flowItem (handles : TagHandles) (ts : List Token) : Except Fault (List Node × List Token) :=
  match ts with
  | .key :: rest => do
    let (entry, after) ← flowPair handles rest
    if _h : after.length ≤ rest.length then
      let (items, last) ← flowItems handles false after
      return (.map none none [entry] :: items, last)
    else throw .node
  | ts => do
    let (item, after) ← node handles false false ts
    if _h : after.length < ts.length then
      let (items, last) ← flowItems handles false after
      return (item :: items, last)
    else throw .node
termination_by (ts.length, 4)

/-- Reads the key and the value of an item that is a mapping of one entry. Where no key is written,
the token in its place is passed over. -/
def flowPair (handles : TagHandles) (ts : List Token) :
    Except Fault ((Node × Node) × List Token) := do
  let isAbsent :=
    match ts with
    | .value :: _ => true
    | _ => absentInFlow .flowSequenceEnd ts
  let (k, afterKey) ←
    if isAbsent then pure (Node.absent, ts.drop 1) else node handles false false ts
  if _h : afterKey.length < ts.length then
    let (v, after) ← flowValue handles .flowSequenceEnd afterKey
    return ((k, v), after)
  else throw .node
termination_by (ts.length, 4)

/-- Reads the value after a key inside brackets that close with `close`. -/
def flowValue (handles : TagHandles) (close : Token) (ts : List Token) :
    Except Fault (Node × List Token) :=
  match ts with
  | .value :: rest =>
    if absentInFlow close rest then .ok (Node.absent, rest) else node handles false false rest
  | rest => .ok (Node.absent, rest)
termination_by (ts.length, 0)

/-- Reads the entries of a mapping in brackets, where every entry but the `first` follows a
comma. -/
def flowEntries (handles : TagHandles) (first : Bool) (ts : List Token) :
    Except Fault (List (Node × Node) × List Token) :=
  match ts with
  | .flowMappingEnd :: rest => .ok ([], rest)
  | .flowEntry :: .flowMappingEnd :: rest => if first then .error .node else .ok ([], rest)
  | .flowEntry :: rest => if first then .error .node else flowField handles rest
  | rest => if first then flowField handles rest else .error .node
termination_by (ts.length, 5)

/-- Reads an entry of a mapping in brackets and the entries after it. A key without colon has no
value. -/
def flowField (handles : TagHandles) (ts : List Token) :
    Except Fault (List (Node × Node) × List Token) :=
  match ts with
  | .key :: rest => do
    let isAbsent :=
      match rest with
      | .value :: _ => true
      | _ => absentInFlow .flowMappingEnd rest
    let (k, afterKey) ←
      if isAbsent then pure (Node.absent, rest) else node handles false false rest
    if _h : afterKey.length ≤ rest.length then
      let (v, after) ← flowValue handles .flowMappingEnd afterKey
      if _h' : after.length ≤ rest.length then
        let (entries, last) ← flowEntries handles false after
        return ((k, v) :: entries, last)
      else throw .node
    else throw .node
  | ts => do
    let (k, after) ← node handles false false ts
    if _h : after.length < ts.length then
      let (entries, last) ← flowEntries handles false after
      return ((k, Node.absent) :: entries, last)
    else throw .node
termination_by (ts.length, 4)

end

/-! ### Documents -/

/-- Reads the directives before a document: at most one version, of the first edition of the
language, and handles that are each declared once. -/
def directives (versionSeen : Bool) (declared : TagHandles) : List Token →
    Except Fault (TagHandles × List Token)
  | .versionDirective major minor :: rest =>
    if versionSeen || major != 1 || !(minor == 1 || minor == 2) then .error .directive
    else directives true declared rest
  | .tagDirective handle expansion :: rest =>
    if declared.any fun d => d.1 == handle then .error .directive
    else directives versionSeen (declared ++ [(handle, expansion)]) rest
  | rest => .ok (declared, rest)

/-- Whether a document without content ends here. -/
def documentOver : List Token → Bool
  | [] | .versionDirective .. :: _ | .tagDirective .. :: _ | .documentStart :: _
  | .documentEnd :: _ => true
  | _ => false

/-- Whether a document needs a mark to start here. -/
def startsExplicitly : List Token → Bool
  | .versionDirective .. :: _ | .tagDirective .. :: _ | .documentStart :: _ => true
  | _ => false

/-- Whether only marks of the end of a document are left. -/
def onlyEnds (ts : List Token) : Bool := ts.all (· == .documentEnd)

/-- The node of the only document of a list of tokens; `none` if there is no document. -/
def documentNode (ts : List Token) : Except Fault (Option Node) := do
  if ts.isEmpty then return none
  let (root, after) ←
    if startsExplicitly ts then
      let (declared, rest) ← directives false [] ts
      match rest with
      | .documentStart :: content =>
        if documentOver content then pure (Node.absent, content)
        else node (declared ++ defaultHandles) true false content
      | _ => throw .directive
    else node defaultHandles true false ts
  if onlyEnds after then return some root else throw .severalDocuments

end Catalog.Yaml
