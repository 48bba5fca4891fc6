import StateGuard.Syntax.Tree

/-!
# Terms

A term is a tree of nodes without positions: what a parser produces. Each node says which tokens it
covers. Laying a term out numbers its nodes in postorder, so that the parts of a node stand before
it and the whole term stands last.
-/

namespace StateGuard

/-- A stretch of tokens, measured from the end of the text. -/
structure Extent where
  /-- The number of tokens left where the stretch begins. -/
  before : Nat
  /-- The number of tokens left behind it. -/
  after : Nat
  deriving DecidableEq, Repr, Inhabited

/-- A node whose parts are terms, with the tokens it covers. -/
structure Term where
  node : Node Term
  extent : Extent

/-- A node of a term that has been given its position, with the tokens it covers. -/
structure Laid where
  node : Node Nat
  extent : Extent
  deriving DecidableEq, Repr

namespace Term

mutual
/-- Append the nodes of a term to the parts laid out so far. The result is the position of the
term and all parts. -/
def layOut : Term → Array Laid → Nat × Array Laid
  | ⟨.compilationUnit members, extent⟩, parts =>
    let (members, parts) := layOutAll members parts
    place (.compilationUnit members) extent parts
  | ⟨.method name returnType params body isAsync, extent⟩, parts =>
    let (params, parts) := layOutAll params parts
    let (body, parts) := layOut body parts
    place (.method name returnType params body isAsync) extent parts
  | ⟨.parameter name type, extent⟩, parts => place (.parameter name type) extent parts
  | ⟨.block statements, extent⟩, parts =>
    let (statements, parts) := layOutAll statements parts
    place (.block statements) extent parts
  | ⟨.expressionStatement expr, extent⟩, parts =>
    let (expr, parts) := layOut expr parts
    place (.expressionStatement expr) extent parts
  | ⟨.localDeclaration name type init, extent⟩, parts =>
    let (init, parts) := layOutOption init parts
    place (.localDeclaration name type init) extent parts
  | ⟨.returnStatement value, extent⟩, parts =>
    let (value, parts) := layOutOption value parts
    place (.returnStatement value) extent parts
  | ⟨.ifStatement condition thenBranch elseBranch, extent⟩, parts =>
    let (condition, parts) := layOut condition parts
    let (thenBranch, parts) := layOut thenBranch parts
    let (elseBranch, parts) := layOutOption elseBranch parts
    place (.ifStatement condition thenBranch elseBranch) extent parts
  | ⟨.identifier name, extent⟩, parts => place (.identifier name) extent parts
  | ⟨.this, extent⟩, parts => place .this extent parts
  | ⟨.literal value, extent⟩, parts => place (.literal value) extent parts
  | ⟨.memberAccess receiver member, extent⟩, parts =>
    let (receiver, parts) := layOut receiver parts
    place (.memberAccess receiver member) extent parts
  | ⟨.conditionalAccess receiver rest, extent⟩, parts =>
    let (receiver, parts) := layOut receiver parts
    let (rest, parts) := layOut rest parts
    place (.conditionalAccess receiver rest) extent parts
  | ⟨.memberBinding member, extent⟩, parts => place (.memberBinding member) extent parts
  | ⟨.invocation callee args, extent⟩, parts =>
    let (callee, parts) := layOut callee parts
    let (args, parts) := layOutArguments args parts
    place (.invocation callee args) extent parts
  | ⟨.outVariable name type, extent⟩, parts => place (.outVariable name type) extent parts
  | ⟨.unary op operand, extent⟩, parts =>
    let (operand, parts) := layOut operand parts
    place (.unary op operand) extent parts
  | ⟨.binary op left right, extent⟩, parts =>
    let (left, parts) := layOut left parts
    let (right, parts) := layOut right parts
    place (.binary op left right) extent parts
  | ⟨.isPattern operand pattern, extent⟩, parts =>
    let (operand, parts) := layOut operand parts
    place (.isPattern operand pattern) extent parts
  | ⟨.conditional condition whenTrue whenFalse, extent⟩, parts =>
    let (condition, parts) := layOut condition parts
    let (whenTrue, parts) := layOut whenTrue parts
    let (whenFalse, parts) := layOut whenFalse parts
    place (.conditional condition whenTrue whenFalse) extent parts
  | ⟨.lambda params body isAsync, extent⟩, parts =>
    let (params, parts) := layOutAll params parts
    let (body, parts) := layOut body parts
    place (.lambda params body isAsync) extent parts
  | ⟨.await operand, extent⟩, parts =>
    let (operand, parts) := layOut operand parts
    place (.await operand) extent parts
  | ⟨.parenthesized inner, extent⟩, parts =>
    let (inner, parts) := layOut inner parts
    place (.parenthesized inner) extent parts
/-- Lay out terms one after the other. -/
def layOutAll : List Term → Array Laid → List Nat × Array Laid
  | [], parts => ([], parts)
  | term :: terms, parts =>
    let (i, parts) := layOut term parts
    let (is, parts) := layOutAll terms parts
    (i :: is, parts)
/-- Lay out a term that may be absent. -/
def layOutOption : Option Term → Array Laid → Option Nat × Array Laid
  | none, parts => (none, parts)
  | some term, parts =>
    let (i, parts) := layOut term parts
    (some i, parts)
/-- Lay out the values of arguments one after the other. -/
def layOutArguments : List (Argument Term) → Array Laid → List (Argument Nat) × Array Laid
  | [], parts => ([], parts)
  | ⟨name, value⟩ :: args, parts =>
    let (i, parts) := layOut value parts
    let (is, parts) := layOutArguments args parts
    (⟨name, i⟩ :: is, parts)
/-- Append one node. -/
def place (node : Node Nat) (extent : Extent) (parts : Array Laid) : Nat × Array Laid :=
  (parts.size, parts.push ⟨node, extent⟩)
end

/-- The tree of a term, given the span of every stretch of tokens. -/
def toTree (term : Term) (file : String) (locate : Extent → Span) : Except ArenaError Tree :=
  let (root, laid) := term.layOut #[]
  Tree.ofParts file (laid.map fun part => ⟨part.node, locate part.extent⟩) root

end Term

end StateGuard
