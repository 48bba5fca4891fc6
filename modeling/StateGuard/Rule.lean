import StateGuard.Text.Caseless
import StateGuard.Text.Template

/-!
# Rules

The four rules, each with its code, its wording and its severity.
-/

namespace StateGuard

/-- How serious a finding is. -/
inductive Severity where
  | info
  | warning
  | error
  deriving DecidableEq, Repr, Inhabited

namespace Severity

/-- The word for a severity. -/
def label : Severity → String
  | .info => "info"
  | .warning => "warning"
  | .error => "error"

/-- The place of a severity on the scale. -/
def rank : Severity → Nat
  | .info => 0
  | .warning => 1
  | .error => 2

/-- Whether `a` is at most as serious as `b`. -/
def le (a b : Severity) : Bool := a.rank ≤ b.rank

/-- The more serious of two severities. -/
def max (a b : Severity) : Severity := if a.le b then b else a

/-- The less serious of two severities. -/
def min (a b : Severity) : Severity := if a.le b then a else b

/-- The severity that a word names, in any case. The error is the wording for another word. -/
def ofString (word : String) : Except String Severity :=
  match Text.lowerAscii word with
  | "info" => .ok .info
  | "warning" => .ok .warning
  | "warn" => .ok .warning
  | "error" => .ok .error
  | other => .error ("unknown severity '" ++ other ++ "'")

end Severity

/-- The rules of the checker. -/
inductive Rule where
  /-- A payload is read where its state is not proven. -/
  | directAccess
  /-- A conditional expression spells out a default value. -/
  | ternary
  /-- A payload is read in a projection of unfiltered elements. -/
  | projection
  /-- A wrapper value is compared with null. -/
  | nullComparison
  deriving DecidableEq, Repr, Inhabited

namespace Rule

/-- Every rule, by code. -/
def all : List Rule := [.directAccess, .ternary, .projection, .nullComparison]

/-- The code of a rule. -/
def code : Rule → String
  | .directAccess => "GRD001"
  | .ternary => "GRD002"
  | .projection => "GRD003"
  | .nullComparison => "GRD004"

/-- The name of a rule. -/
def name : Rule → String
  | .directAccess => "direct-access"
  | .ternary => "ternary"
  | .projection => "projection"
  | .nullComparison => "null-comparison"

/-- The title of a rule. -/
def title : Rule → String
  | .directAccess => "Unguarded wrapper payload access"
  | .ternary => "Ternary over wrapper payload"
  | .projection => "Unguarded payload access in projection"
  | .nullComparison => "Null comparison of wrapper value"

/-- The message of a rule, with places for its arguments. -/
def template : Rule → String
  | .directAccess =>
    "Accessing '\x7b0\x7d' on '\x7b1\x7d' without checking '\x7b2\x7d' first may throw"
  | .ternary => "'\x7b0\x7d' can be simplified to '\x7b1\x7d.GetValueOrDefault(\x7b2\x7d)'"
  | .projection =>
    "'\x7b1\x7d.\x7b0\x7d' is read in '\x7b2\x7d' without a preceding filter on '\x7b3\x7d'"
  | .nullComparison => "'\x7b0\x7d' compares a \x7b1\x7d with null; check '\x7b2\x7d' instead"

/-- How serious a finding of a rule is. -/
def severity : Rule → Severity
  | .directAccess => .warning
  | .ternary => .info
  | .projection => .warning
  | .nullComparison => .warning

/-- What to do about a finding of a rule. -/
def help : Rule → String
  | .directAccess => "Check the discriminant, or use Match / GetValueOrDefault / TryGetValue"
  | .ternary => "GetValueOrDefault states the fallback without reading the payload"
  | .projection => "Filter the sequence first, e.g. .Where(x => x.IsSuccess)"
  | .nullComparison =>
    "Wrapper values are never null; their state is read through the discriminant"

/-- The codes of all rules. -/
def codes : List String := all.map code

/-- The rule with a code. -/
def ofCode? (code : String) : Option Rule := all.find? (·.code == code)

/-- The rule with a name. -/
def ofName? (name : String) : Option Rule := all.find? (·.name == name)

/-- The message of a rule with its arguments filled in. -/
def message (rule : Rule) (args : List String) : String := Text.fillTemplate rule.template args

end Rule

end StateGuard
