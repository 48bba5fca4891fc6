import StateGuard.Yaml.Alias
import StateGuard.Yaml.Scan

/-!
# Reading YAML

A text is cut into tokens, the tokens are put together to a tree, and every alias in the tree is
replaced by the part that it names.
-/

namespace StateGuard.Yaml

/-- The value of a text. An empty document is an absent value. -/
def read? (text : String) : Option Yaml := do
  let tokens ← tokens? text.toList
  let node ← Node.ofTokens? tokens
  node.toYaml?

end StateGuard.Yaml
