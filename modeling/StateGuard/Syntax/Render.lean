import StateGuard.Syntax.Walk

/-!
# Rendering expressions

The source text of an expression, as messages quote it. Statements and declarations collapse to
an ellipsis between braces, and the types of lambda parameters are left out.
-/

namespace StateGuard

/-- The source text of a literal. Text is quoted and not escaped. -/
def Literal.render : Literal → String
  | .bool true => "true"
  | .bool false => "false"
  | .null => "null"
  | .int value => toString value
  | .str value => "\"" ++ value ++ "\""

/-- The source text of an `is` test after its operand. -/
def Pattern.render : Pattern → String
  | .null => " is null"
  | .notNull => " is not null"
  | .literal value => " is " ++ value.render

/-- What stands for anything that is not an expression. -/
def ellipsis : String := "\x7b ... \x7d"

/-- The parameter list of a lambda: a single name stands alone. -/
def renderParameters : List String → String
  | [name] => name
  | names => "(" ++ String.intercalate ", " names ++ ")"

namespace Arena

/-- The name of a parameter node. -/
def parameterName? (arena : Arena) (i : arena.Id) : Option String :=
  match arena.node i with
  | .parameter name _ => some name
  | _ => none

/-- The source text of an expression. -/
def render (arena : Arena) (i : arena.Id) : String :=
  match _h : arena.node i with
  | .identifier name => name
  | .this => "this"
  | .literal value => value.render
  | .memberAccess receiver member => arena.render receiver ++ "." ++ member
  | .conditionalAccess receiver rest => arena.render receiver ++ "?" ++ arena.render rest
  | .memberBinding member => "." ++ member
  | .invocation callee args =>
    arena.render callee ++ "(" ++
      String.intercalate ", " (args.attach.map fun ⟨arg, _⟩ =>
        (match arg.name with
          | some name => name ++ ": "
          | none => "") ++ arena.render arg.value) ++ ")"
  | .outVariable name type =>
    "out " ++ (match type with
      | some type => type.shortDisplay
      | none => "var") ++ " " ++ name
  | .unary op operand => op.symbol ++ arena.render operand
  | .binary op left right =>
    arena.render left ++ " " ++ op.symbol ++ " " ++ arena.render right
  | .isPattern operand pattern => arena.render operand ++ pattern.render
  | .conditional condition whenTrue whenFalse =>
    arena.render condition ++ " ? " ++ arena.render whenTrue ++ " : " ++ arena.render whenFalse
  | .lambda params body isAsync =>
    (if isAsync then "async " else "") ++
      renderParameters (params.filterMap arena.parameterName?) ++ " => " ++ arena.render body
  | .await operand => "await " ++ arena.render operand
  | .parenthesized inner => "(" ++ arena.render inner ++ ")"
  | .parameter name _ => name
  | _ => ellipsis
termination_by arena.height i
decreasing_by all_goals exact height_lt_of_mem_children (by grind [Node.children])

end Arena

end StateGuard
