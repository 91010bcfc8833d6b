import Catalog.Yaml.Anchors

/-!
# Reading documents

* `scalarValue` gives the value of a scalar, with or without a tag;
* `Resolver.value` gives the value of a node, following aliases;
* `read` gives the value of a text that holds one document.

Collections are nested at most 128 deep, and aliases are followed at most a hundred times as often
as the document is long.
-/

namespace Catalog.Yaml

/-- The value of a plain scalar. -/
def plainScalarValue (s : String) : Except Fault Value :=
  match plainValue s with
  | some v => .ok v
  | none => .error .integerTooLarge

/-- The value of a scalar under a tag that is not local: the tags of the core kinds ask for their
kind, and with any other tag the scalar is a text. -/
def coreScalarValue (tag s : String) : Except Fault Value :=
  if tag == "tag:yaml.org,2002:bool" then
    match plainBool? s with
    | some b => .ok (.bool b)
    | none => .error .tagMismatch
  else if tag == "tag:yaml.org,2002:int" then
    match plainInteger s with
    | .value i => .ok (.int i)
    | _ => .error .tagMismatch
  else if tag == "tag:yaml.org,2002:float" then
    match plainFloat? s with
    | some x => .ok (.float x)
    | none => .error .tagMismatch
  else if tag == "tag:yaml.org,2002:null" then
    if plainNull s then .ok .null else .error .tagMismatch
  else .ok (.text s)

/-- Whether a tag is local, so that it stays with its value. -/
def isLocalTag (tag : String) : Bool := tag.toList.head? == some '!'

/-- The value of a scalar. -/
def scalarValue (tag : Option String) (s : String) (isPlain : Bool) : Except Fault Value := do
  let untagged := if isPlain then plainScalarValue s else .ok (.text s)
  match tag with
  | none => untagged
  | some t =>
    if isLocalTag t then return .tagged (Value.tagName t) (← untagged)
    else coreScalarValue t s

/-- A collection with its tag, if that is local. -/
def withTag (tag : Option String) (v : Value) : Value :=
  match tag with
  | some t => if isLocalTag t then .tagged (Value.tagName t) v else v
  | none => v

/-- What the values of a document are read with: its anchors, and how often aliases may be
followed. -/
structure Resolver where
  table : AnchorTable
  limit : Nat

namespace Resolver

/-- Counts a followed alias. -/
abbrev Counting := StateT Nat (Except Fault)

/-- The node itself, or the node that an alias stands for. -/
def target (r : Resolver) (n : BoundNode) : Counting BoundNode :=
  match n with
  | .aliasOf number => do
    let followed := (← get) + 1
    if r.limit < followed then throw .tooManyAliases
    set followed
    match r.table.node? number with
    | some m => return m
    | none => throw .unknownAlias
  | m => return m

/-- Adds an entry to a mapping that has no such key yet. -/
def addEntry (entries : Entries) (k v : Value) : Except Fault Entries :=
  if entries.any fun e => e.1.same k then .error .duplicateKey else .ok (entries ++ [(k, v)])

/-- The value of a node, with collections nested at most `depth` deep. -/
def value (r : Resolver) (depth : Nat) (n : BoundNode) : Counting Value := do
  match depth, (← r.target n) with
  | _, .scalar tag s isPlain => scalarValue tag s isPlain
  | depth + 1, .list tag items => do
    let vs ← items.mapM (r.value depth)
    return withTag tag (.list vs)
  | depth + 1, .map tag entries => do
    let es ← entries.foldlM
      (fun es e => do
        let k ← r.value depth e.1
        let v ← r.value depth e.2
        addEntry es k v) []
    return withTag tag (.map es)
  | 0, _ => throw .tooDeep
  | _, .aliasOf _ => throw .unknownAlias

end Resolver

/-- How deep collections may be nested. -/
def greatestDepth : Nat := 128

/-- The value of a text that holds one document, or none at all. -/
def read (text : String) : Except Fault Value := do
  match ← documentNode (← tokens text) with
  | none => return .null
  | some root =>
    let (bound, table) ← bind {} root
    let r : Resolver := ⟨table, 100 * bound.size⟩
    let (v, _) ← (r.value greatestDepth bound).run 0
    return v

end Catalog.Yaml
