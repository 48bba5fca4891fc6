import StateGuard.Json.Decode
import StateGuard.Span
import StateGuard.Syntax.Node

/-!
# Nodes, types and spans as JSON

The encoding of the parts of a dump, and its inverse.
-/

namespace StateGuard

/-! ## Types -/

namespace TypeRef

mutual
/-- A type as JSON. Arguments and the mark of a definition are left out when there are none. -/
def toJson : TypeRef → Json
  | ⟨name, args, isDefinition⟩ =>
    .obj <| [("name", .str name)] ++
      (if args.isEmpty then [] else [("type_args", .arr (allToJson args))]) ++
      (if isDefinition then [("is_definition", .bool true)] else [])
/-- Each type of a list as JSON. -/
def allToJson : List TypeRef → List Json
  | [] => []
  | type :: types => toJson type :: allToJson types
end

mutual
/-- A type of JSON. -/
def ofJson? : Json → Option TypeRef
  | .obj members => ofMembers? members none none none
  | .arr items => ofItems? items
  | _ => none
/-- A type of the members of an object, given the fields found so far. -/
def ofMembers? : List (String × Json) → Option String → Option (List TypeRef) → Option Bool →
    Option TypeRef
  | [], name, args, isDefinition => do
    return ⟨← name, args.getD [], isDefinition.getD false⟩
  | (key, value) :: rest, name, args, isDefinition =>
    if key = "name" then
      match name, value with
      | none, .str name => ofMembers? rest (some name) args isDefinition
      | _, _ => none
    else if key = "type_args" then
      match args, argsOfJson? value with
      | none, some args => ofMembers? rest name (some args) isDefinition
      | _, _ => none
    else if key = "is_definition" then
      match isDefinition, value with
      | none, .bool isDefinition => ofMembers? rest name args (some isDefinition)
      | _, _ => none
    else ofMembers? rest name args isDefinition
/-- A type of its fields in order. -/
def ofItems? : List Json → Option TypeRef
  | [.str name] => some ⟨name, [], false⟩
  | [.str name, args] => (argsOfJson? args).map (⟨name, ·, false⟩)
  | [.str name, args, .bool isDefinition] => (argsOfJson? args).map (⟨name, ·, isDefinition⟩)
  | _ => none
/-- Type arguments of JSON. -/
def argsOfJson? : Json → Option (List TypeRef)
  | .arr items => allOfJson? items
  | _ => none
/-- Types of a list of JSON values. -/
def allOfJson? : List Json → Option (List TypeRef)
  | [] => some []
  | item :: items => do
    let type ← ofJson? item
    let types ← allOfJson? items
    return type :: types
end

end TypeRef

/-! ## Spans -/

namespace Span

/-- A span as JSON. -/
def toJson (span : Span) : Json :=
  .obj [("start_line", .nat span.start.line), ("start_col", .nat span.start.column),
    ("end_line", .nat span.stop.line), ("end_col", .nat span.stop.column)]

/-- A span of JSON. -/
def ofJson? (json : Json) : Option Span := do
  let fields ← json.fields? ["start_line", "start_col", "end_line", "end_col"]
  return ⟨⟨← fields.required? "start_line" Json.short?, ← fields.required? "start_col" Json.short?⟩,
    ⟨← fields.required? "end_line" Json.short?, ← fields.required? "end_col" Json.short?⟩⟩

end Span

/-! ## Literals, operators and patterns -/

/-- The case of a choice without a value. -/
def unitCase? (json : Json) : Option String :=
  match json with
  | .str name => some name
  | .obj [(name, .null)] => some name
  | _ => none

/-- The choices of a value with the cases without a value as bare names. Inside a node such a case
may also be written with an empty object. -/
def bareCases : Json → Json
  | .obj [(name, .obj [])] => .str name
  | .obj [(name, value)] => .obj [(name, bareCases value)]
  | json => json

/-- The case of a choice with a value. -/
def valueCase? (json : Json) : Option (String × Json) :=
  match json with
  | .obj [(name, value)] => some (name, value)
  | _ => none

namespace Literal

/-- A literal as JSON. -/
def toJson : Literal → Json
  | .bool value => .obj [("bool", .bool value)]
  | .null => .str "null"
  | .int value => .obj [("int", .int value)]
  | .str value => .obj [("str", .str value)]

/-- A literal of JSON. -/
def ofJson? (json : Json) : Option Literal :=
  if unitCase? json = some "null" then some .null
  else
    match valueCase? json with
    | some ("bool", value) => value.bool?.map .bool
    | some ("int", value) => value.long?.map .int
    | some ("str", value) => value.str?.map .str
    | _ => none

end Literal

namespace UnaryOp

/-- The name of a sign in a dump. -/
def key : UnaryOp → String
  | .not => "not"
  | .negate => "negate"

/-- A sign of JSON. -/
def ofJson? (json : Json) : Option UnaryOp := do
  let name ← unitCase? json
  [UnaryOp.not, UnaryOp.negate].find? (·.key == name)

end UnaryOp

namespace BinaryOp

/-- The name of an operator in a dump. -/
def key : BinaryOp → String
  | .eq => "eq"
  | .notEq => "not_eq"
  | .and => "and"
  | .or => "or"
  | .lt => "lt"
  | .ltE => "lt_e"
  | .gt => "gt"
  | .gtE => "gt_e"
  | .add => "add"
  | .sub => "sub"
  | .mul => "mul"
  | .div => "div"

/-- Every operator. -/
def all : List BinaryOp :=
  [.eq, .notEq, .and, .or, .lt, .ltE, .gt, .gtE, .add, .sub, .mul, .div]

/-- An operator of JSON. -/
def ofJson? (json : Json) : Option BinaryOp := do
  let name ← unitCase? json
  all.find? (·.key == name)

end BinaryOp

namespace Pattern

/-- A pattern as JSON. -/
def toJson : Pattern → Json
  | .null => .str "null"
  | .notNull => .str "not_null"
  | .literal value => .obj [("literal", value.toJson)]

/-- A pattern of JSON. -/
def ofJson? (json : Json) : Option Pattern :=
  match unitCase? json with
  | some "null" => some .null
  | some "not_null" => some .notNull
  | _ =>
    match valueCase? json with
    | some ("literal", value) => (Literal.ofJson? value).map .literal
    | _ => none

end Pattern

namespace Argument

/-- An argument as JSON. A name is left out when there is none. -/
def toJson (arg : Argument Nat) : Json :=
  .obj <| (match arg.name with
    | some name => [("name", .str name)]
    | none => []) ++ [("value", .nat arg.value)]

/-- An argument of JSON. -/
def ofJson? (json : Json) : Option (Argument Nat) := do
  let fields ← json.fields? ["name", "value"]
  return ⟨← fields.withDefault? "name" (Json.optional? Json.str?) none,
    ← fields.required? "value" Json.index?⟩

end Argument

/-! ## Nodes -/

namespace NodeKind

/-- The name of a kind of nodes in a dump. -/
def key : NodeKind → String
  | .compilationUnit => "compilation_unit"
  | .method => "method"
  | .parameter => "parameter"
  | .block => "block"
  | .expressionStatement => "expression_statement"
  | .localDeclaration => "local_declaration"
  | .returnStatement => "return"
  | .ifStatement => "if"
  | .identifier => "identifier"
  | .this => "this"
  | .literal => "literal"
  | .memberAccess => "member_access"
  | .conditionalAccess => "conditional_access"
  | .memberBinding => "member_binding"
  | .invocation => "invocation"
  | .outVariable => "out_variable"
  | .unary => "unary"
  | .binary => "binary"
  | .isPattern => "is_pattern"
  | .conditional => "conditional"
  | .lambda => "lambda"
  | .await => "await"
  | .parenthesized => "parenthesized"

/-- A kind of JSON: its name, or its place in the list of kinds. -/
def ofJson? : Json → Option NodeKind
  | .str name => all.find? (·.key == name)
  | json => json.index?.bind fun i => all[i]?

end NodeKind

namespace Node

/-- A list of node numbers as JSON. -/
def ids (nodes : List Nat) : Json := .arr (nodes.map .nat)

/-- The fields of a node apart from its kind. Absent parts are null. -/
def fieldsJson : Node Nat → List (String × Json)
  | .compilationUnit members => [("members", ids members)]
  | .method name returnType params body isAsync =>
    [("name", .str name), ("return_type", .ofOption TypeRef.toJson returnType),
     ("params", ids params), ("body", .nat body), ("is_async", .bool isAsync)]
  | .parameter name type => [("name", .str name), ("ty", .ofOption TypeRef.toJson type)]
  | .block statements => [("statements", ids statements)]
  | .expressionStatement expr => [("expr", .nat expr)]
  | .localDeclaration name type init =>
    [("name", .str name), ("ty", .ofOption TypeRef.toJson type), ("init", .ofOption .nat init)]
  | .returnStatement value => [("value", .ofOption .nat value)]
  | .ifStatement condition thenBranch elseBranch =>
    [("condition", .nat condition), ("then_branch", .nat thenBranch),
     ("else_branch", .ofOption .nat elseBranch)]
  | .identifier name => [("name", .str name)]
  | .this => []
  | .literal value => [("value", value.toJson)]
  | .memberAccess receiver member => [("receiver", .nat receiver), ("member", .str member)]
  | .conditionalAccess receiver rest =>
    [("receiver", .nat receiver), ("when_not_null", .nat rest)]
  | .memberBinding member => [("member", .str member)]
  | .invocation callee args =>
    [("callee", .nat callee), ("args", .arr (args.map Argument.toJson))]
  | .outVariable name type => [("name", .str name), ("ty", .ofOption TypeRef.toJson type)]
  | .unary op operand => [("op", .str op.key), ("operand", .nat operand)]
  | .binary op left right => [("op", .str op.key), ("left", .nat left), ("right", .nat right)]
  | .isPattern operand pattern => [("operand", .nat operand), ("pattern", pattern.toJson)]
  | .conditional condition whenTrue whenFalse =>
    [("condition", .nat condition), ("when_true", .nat whenTrue), ("when_false", .nat whenFalse)]
  | .lambda params body isAsync =>
    [("params", ids params), ("body", .nat body), ("is_async", .bool isAsync)]
  | .await operand => [("operand", .nat operand)]
  | .parenthesized inner => [("inner", .nat inner)]

/-- A node as JSON, its kind first. -/
def toJson (node : Node Nat) : Json := .obj (("kind", .str node.kind.key) :: node.fieldsJson)

/-- The names of the fields of a kind of nodes. -/
def fieldNames : NodeKind → List String
  | .compilationUnit => ["members"]
  | .method => ["name", "return_type", "params", "body", "is_async"]
  | .parameter => ["name", "ty"]
  | .block => ["statements"]
  | .expressionStatement => ["expr"]
  | .localDeclaration => ["name", "ty", "init"]
  | .returnStatement => ["value"]
  | .ifStatement => ["condition", "then_branch", "else_branch"]
  | .identifier => ["name"]
  | .this => []
  | .literal => ["value"]
  | .memberAccess => ["receiver", "member"]
  | .conditionalAccess => ["receiver", "when_not_null"]
  | .memberBinding => ["member"]
  | .invocation => ["callee", "args"]
  | .outVariable => ["name", "ty"]
  | .unary => ["op", "operand"]
  | .binary => ["op", "left", "right"]
  | .isPattern => ["operand", "pattern"]
  | .conditional => ["condition", "when_true", "when_false"]
  | .lambda => ["params", "body", "is_async"]
  | .await => ["operand"]
  | .parenthesized => ["inner"]

/-- A node of a kind, from its fields. -/
def ofFields? (kind : NodeKind) (fields : Json.Fields) : Option (Node Nat) :=
  let name := fields.required? "name" Json.str?
  let type (key : String) := fields.withDefault? key (Json.optional? TypeRef.ofJson?) none
  let part (key : String) := fields.required? key Json.index?
  let part? (key : String) := fields.withDefault? key (Json.optional? Json.index?) none
  let parts (key : String) := fields.required? key (Json.list? Json.index?)
  let isAsync := fields.withDefault? "is_async" Json.bool? false
  let choice {α : Type} (key : String) (decode : Json → Option α) :=
    fields.required? key (decode ∘ bareCases)
  match kind with
  | .compilationUnit => return .compilationUnit (← parts "members")
  | .method =>
    return .method (← name) (← type "return_type") (← parts "params") (← part "body") (← isAsync)
  | .parameter => return .parameter (← name) (← type "ty")
  | .block => return .block (← parts "statements")
  | .expressionStatement => return .expressionStatement (← part "expr")
  | .localDeclaration => return .localDeclaration (← name) (← type "ty") (← part? "init")
  | .returnStatement => return .returnStatement (← part? "value")
  | .ifStatement =>
    return .ifStatement (← part "condition") (← part "then_branch") (← part? "else_branch")
  | .identifier => return .identifier (← name)
  | .this => return .this
  | .literal => return .literal (← choice "value" Literal.ofJson?)
  | .memberAccess =>
    return .memberAccess (← part "receiver") (← fields.required? "member" Json.str?)
  | .conditionalAccess => return .conditionalAccess (← part "receiver") (← part "when_not_null")
  | .memberBinding => return .memberBinding (← fields.required? "member" Json.str?)
  | .invocation =>
    return .invocation (← part "callee")
      (← fields.required? "args" (Json.list? Argument.ofJson?))
  | .outVariable => return .outVariable (← name) (← type "ty")
  | .unary => return .unary (← choice "op" UnaryOp.ofJson?) (← part "operand")
  | .binary =>
    return .binary (← choice "op" BinaryOp.ofJson?) (← part "left") (← part "right")
  | .isPattern =>
    return .isPattern (← part "operand") (← choice "pattern" Pattern.ofJson?)
  | .conditional =>
    return .conditional (← part "condition") (← part "when_true") (← part "when_false")
  | .lambda => return .lambda (← parts "params") (← part "body") (← isAsync)
  | .await => return .await (← part "operand")
  | .parenthesized => return .parenthesized (← part "inner")

/-- A node of JSON: an object with its kind and its fields, or an array of them in order. The kind
says which fields there are. -/
def ofJson? (json : Json) : Option (Node Nat) :=
  match json with
  | .obj _ => do
    let kind ← (← json.fields? ["kind"]).required? "kind" NodeKind.ofJson?
    ofFields? kind (← json.fields? (fieldNames kind))
  | .arr (kind :: rest) => do
    let kind ← NodeKind.ofJson? kind
    ofFields? kind (← (Json.arr rest).fields? (fieldNames kind))
  | _ => none

end Node

end StateGuard
