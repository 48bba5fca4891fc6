import StateGuard.Dump.Unit
import StateGuard.Json.Reader

/-!
# Texts of dumps

Only the members that a dump is made of are looked into. They are read one after the other, so a
tree that is rejected is noticed before a fault of the text behind it.
-/

namespace StateGuard

namespace Json.Raw

/-- The names of the fields of a type. -/
def typeFields : List String := ["name", "type_args", "is_definition"]

/-- The names of the fields of a span. -/
def spanFields : List String := ["start_line", "start_col", "end_line", "end_col"]

/-- A node of a dump. It is looked into as a whole, apart from its span. -/
def node? : Raw → Option Json
  | .obj members => do
    let found ← members.mapM fun (source, raw) => do
      let key ← key? source
      let counts (name : String) : Bool := key ≠ "span" || spanFields.contains name
      return (key, ← resolve? counts (maxDepth - 4) raw)
    return .obj found
  | _ => none

/-- A tree of a dump. -/
def tree? : Raw → Option Json :=
  record? ["file_path", "nodes", "root"] fun name raw =>
    match name, raw with
    | "nodes", .arr nodes => (nodes.mapM node?).map .arr
    | "nodes", _ => none
    | _, raw => raw.resolveAll? (maxDepth - 2)

/-- A table of a dump. Its keys are numbers, which have no escapes. -/
def table? : Raw → Option Json :=
  record? ["types", "symbols"] fun _ raw =>
    match raw with
    | .obj entries => do
      let found ← entries.mapM fun (key, raw) => do
        return (String.ofList key, ← resolve? typeFields.contains (maxDepth - 3) raw)
      return .obj found
    | _ => none

/-- A member of a dump. -/
def dumpMember? (key : String) (raw : Raw) : Option Json :=
  if key = "tree" then raw.tree? else if key = "oracle" then raw.table? else some .null

end Json.Raw

namespace SourceUnit

/-- Read the members of a dump in order, as they are written. -/
def readMembers (members : List (List Char × Json.Raw)) : Except DumpError Partial :=
  members.foldlM (fun parts (source, raw) =>
    match Json.Raw.key? source with
    | some key => readMember parts key (raw.dumpMember? key)
    | none => .error .malformed) {}

/-- Read the members of a dump that is an object, or an array of them in order. -/
def readRaw : Json.Raw → Except DumpError Partial
  | .obj members => readMembers members
  | .arr items => do
    let parts ← readMembers ((fieldNames.map String.toList).zip items)
    if items.length ≤ fieldNames.length then .ok parts else .error .malformed
  | _ => .error .malformed

/-- The unit of the text of a dump. -/
def ofDump (text : String) : Except DumpError SourceUnit := do
  match Json.Raw.read? text with
  | some raw => ofParts (← readRaw raw)
  | none =>
    let _ ← readRaw (Json.Raw.opening text)
    .error .malformed

end SourceUnit

end StateGuard
