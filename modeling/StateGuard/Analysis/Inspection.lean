import StateGuard.Finding.NullComparison
import StateGuard.Finding.Projection
import StateGuard.Finding.Ternary

/-!
# Inspection

Which rules look at which nodes, and what each of them finds there. The rules of a run are a list;
they look at a node in the order of the list.
-/

namespace StateGuard

namespace Rule

/-- The kinds of nodes that a rule looks at. -/
def kinds : Rule → List NodeKind
  | .directAccess => [.memberAccess, .memberBinding]
  | .ternary => [.conditional]
  | .projection => [.memberAccess, .memberBinding]
  | .nullComparison => [.binary, .isPattern]

/-- Whether a rule looks at a kind of nodes. -/
def inspects (rule : Rule) (kind : NodeKind) : Bool := rule.kinds.contains kind

/-- What a rule finds at a node. -/
def inspect (rule : Rule) (ctx : Context) (i : ctx.Id) : Inquiry (Option Diagnostic) :=
  match rule with
  | .directAccess => ctx.directAccess? i
  | .ternary => ctx.ternary? i
  | .projection => ctx.projectionAccess? i
  | .nullComparison => ctx.nullComparison? i

/-- The rules of a list that look at a kind of nodes. -/
def subscribed (rules : List Rule) (kind : NodeKind) : List Rule := rules.filter (·.inspects kind)

end Rule

/-- The rules that a configuration does not leave out. -/
def Config.rules (config : Config) : List Rule :=
  Rule.all.filter fun rule => config.isRuleEnabled rule.code

/-- What a list of rules finds at a node. -/
def inspectNode (ctx : Context) (i : ctx.Id) : List Rule → Inquiry (List Diagnostic)
  | [] => return []
  | rule :: rest => do
    let found ← rule.inspect ctx i
    return found.toList ++ (← inspectNode ctx i rest)

end StateGuard
