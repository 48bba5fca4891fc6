import StateGuard.Dump.Node
import StateGuard.Json.Writer
import StateGuard.Text.Template
import StateGuard.Semantics.SourceUnit

/-!
# Dumps of units

A unit as a JSON document, for exchange with other front ends. Trees are checked on the way in, and
table entries must belong to nodes of the tree. Positions and parents of nodes are written for the
reader's convenience and ignored when they are read.
-/

namespace StateGuard

/-! ## Writing -/

namespace Table

/-- A table as JSON, by node numbers. -/
def toJson (table : Table) : Json :=
  .obj [("types", .obj (table.types.map fun (node, type) => (toString node, type.toJson))),
    ("symbols", .obj (table.symbols.map fun (node, symbol) => (toString node, .str symbol)))]

end Table

namespace Tree

/-- A node of a tree as JSON, with its position and parent. -/
def nodeJson (tree : Tree) (i : tree.Id) : Json :=
  let node := (tree.node i).map Fin.val
  .obj <| [("id", .nat i.val), ("kind", .str node.kind.key)] ++ node.fieldsJson ++
    [("span", (tree.span i).toJson), ("parent", .ofOption (fun p => .nat p.val) (tree.parent i))]

/-- A tree as JSON. -/
def toJson (tree : Tree) : Json :=
  .obj [("file_path", .str tree.file), ("nodes", .arr (tree.ids.map tree.nodeJson)),
    ("root", .nat tree.root.val)]

end Tree

namespace SourceUnit

/-- A unit as JSON. -/
def toJson (unit : SourceUnit) : Json :=
  .obj [("tree", unit.tree.toJson), ("oracle", unit.oracle.toTable.toJson)]

/-- The text of a dump. -/
def dump (unit : SourceUnit) : String := unit.toJson.write

end SourceUnit

/-! ## Reading -/

/-- Why a document is not the dump of a unit. -/
inductive DumpError where
  /-- Not JSON, or JSON of another shape. -/
  | malformed
  /-- A tree that is not a forest. -/
  | rejected (error : ArenaError) (file : String)
  /-- A table entry for a node that the tree does not have. -/
  | outOfRange (node size : Nat) (file : String)
  deriving DecidableEq, Repr, Inhabited

namespace DumpError

/-- The fault of a dump. A rejected tree shows as a fault of the document around it. -/
def toFault : DumpError → Fault
  | .malformed => .of .parse "JSON error: not the dump of a unit"
  | .rejected error file => .of .parse ("JSON error: " ++ (error.toFault file).display)
  | .outOfRange node size file =>
    (Fault.of .tree ("semantic table refers to node " ++ toString node ++ " but the tree has " ++
      toString size ++ " nodes")).inFile file

end DumpError

namespace Part

/-- A node and its span of JSON. A span may be left out. -/
def ofJson? (json : Json) : Option Part :=
  match json with
  | .obj _ => do
    let node ← Node.ofJson? json
    let fields ← json.fields? ["span"]
    return ⟨node, ← fields.withDefault? "span" Span.ofJson? .zero⟩
  | _ => none

end Part

namespace Tree

/-- A tree of JSON. -/
def ofJson (json : Json) : Except DumpError Tree :=
  let parsed : Option (String × List Part × Nat) := do
    let fields ← json.fields? ["file_path", "nodes", "root"]
    return (← fields.required? "file_path" Json.str?,
      ← fields.required? "nodes" (Json.list? Part.ofJson?), ← fields.required? "root" Json.index?)
  match parsed with
  | none => .error .malformed
  | some (file, parts, root) =>
    (Tree.ofParts file parts.toArray root).mapError (.rejected · file)

end Tree

namespace Table

/-- A node number as the key of an object: digits without leading zeros. -/
def key? (key : String) : Option Nat :=
  let digits := key.toList
  if digits.length ≠ 1 && digits.head? = some '0' then none
  else (Text.decimal? digits).filter (· < Word.capacity 64)

/-- The entries of a table of JSON. Of two entries for one node the later counts. -/
def entries? {α : Type} (decode : Json → Option α) : Json → Option (List (Nat × α))
  | .obj members =>
    members.foldlM (fun entries (key, value) => do return put entries (← key? key) (← decode value))
      []
  | _ => none

/-- A table of JSON. -/
def ofJson? (json : Json) : Option Table := do
  let fields ← json.fields? ["types", "symbols"]
  return ⟨← fields.withDefault? "types" (entries? TypeRef.ofJson?) [],
    ← fields.withDefault? "symbols" (entries? Json.str?) []⟩

end Table

namespace SourceUnit

/-- The members of a dump that have been read. -/
structure Partial where
  tree : Option Tree := none
  table : Option Table := none

/-- Read one more member of a dump, if it stands for anything. -/
def readMember (parts : Partial) (key : String) (value : Option Json) :
    Except DumpError Partial :=
  if key = "tree" then
    match parts.tree, value with
    | none, some value => (Tree.ofJson value).map fun tree => { parts with tree := some tree }
    | _, _ => .error .malformed
  else if key = "oracle" then
    match parts.table, value.bind Table.ofJson? with
    | none, some table => .ok { parts with table := some table }
    | _, _ => .error .malformed
  else .ok parts

/-- The unit of the members of a dump. -/
def ofParts (parts : Partial) : Except DumpError SourceUnit :=
  match parts.tree with
  | none => .error .malformed
  | some tree =>
    let table := parts.table.getD {}
    match table.outOfRange? tree.size with
    | some node => .error (.outOfRange node tree.size tree.file)
    | none => .ok ⟨tree, .ofTable tree.size table⟩

/-- The names of the members of a dump. -/
def fieldNames : List String := ["tree", "oracle"]

/-- The members of a dump: an object, or an array of them in order. -/
def members? : Json → Option (List (String × Json))
  | .obj members => some members
  | .arr items => if items.length ≤ fieldNames.length then some (fieldNames.zip items) else none
  | _ => none

/-- A unit of JSON. -/
def ofJson (json : Json) : Except DumpError SourceUnit := do
  let members ← (members? json).elim (.error .malformed) .ok
  ofParts (← members.foldlM (fun parts (key, value) => readMember parts key (some value)) {})

end SourceUnit

end StateGuard
