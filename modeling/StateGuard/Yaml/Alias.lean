import StateGuard.Yaml.Node

/-!
# Aliases

Every alias in the tree of a document is replaced by a part that it names. Names stand for numbers:
a name gets the number of names known so far, also when it is given again, and an alias stands for
the last part of the document with the number that its name has there. How often parts are repeated
is limited by the size of the document, and a part that would repeat itself has no value.
-/

namespace StateGuard.Yaml

/-! ## Numbers of names -/

/-- The names known so far, each with its number. -/
abbrev Numbers : Type := List (String × Nat)

/-- Give a number to the name of a part, if it has one. -/
def Numbers.put (numbers : Numbers) : Option String → Option Nat × Numbers
  | none => (none, numbers)
  | some name =>
    (some numbers.length, (name, numbers.length) :: numbers.filter fun (known, _) => known ≠ name)

namespace Node

mutual
/-- A part with numbers for names, and the names after it. The name of an alias must be known. -/
def number? (numbers : Numbers) : Node String → Option (Node Nat × Numbers)
  | .alias name => (numbers.lookup name).map fun number => (.alias number, numbers)
  | .scalar anchor leaf =>
    let (anchor, numbers) := numbers.put anchor
    some (.scalar anchor leaf, numbers)
  | .seq anchor items =>
    let (anchor, numbers) := numbers.put anchor
    (numberAll? numbers items).map fun (items, numbers) => (.seq anchor items, numbers)
  | .map anchor entries =>
    let (anchor, numbers) := numbers.put anchor
    (numberEntries? numbers entries).map fun (entries, numbers) => (.map anchor entries, numbers)
/-- Parts in a row with numbers for names. -/
def numberAll? (numbers : Numbers) : List (Node String) → Option (List (Node Nat) × Numbers)
  | [] => some ([], numbers)
  | item :: items => do
    let (item, numbers) ← number? numbers item
    let (items, numbers) ← numberAll? numbers items
    return (item :: items, numbers)
/-- Entries with numbers for names. -/
def numberEntries? (numbers : Numbers) :
    List (Node String × Node String) → Option (List (Node Nat × Node Nat) × Numbers)
  | [] => some ([], numbers)
  | (key, value) :: entries => do
    let (key, numbers) ← number? numbers key
    let (value, numbers) ← number? numbers value
    let (entries, numbers) ← numberEntries? numbers entries
    return ((key, value) :: entries, numbers)
end

/-! ## Parts by number -/

/-- The parts that have a number. -/
abbrev Parts : Type := List (Nat × Node Nat)

/-- A part under its number, if it has one. -/
def Parts.ofAnchor (anchor : Option Nat) (part : Node Nat) : Parts :=
  (anchor.map fun number => (number, part)).toList

mutual
/-- The parts with a number, in the order in which they begin. -/
def parts : Node Nat → Parts
  | .alias _ => []
  | .scalar anchor leaf => .ofAnchor anchor (.scalar anchor leaf)
  | .seq anchor items => .ofAnchor anchor (.seq anchor items) ++ partsAll items
  | .map anchor entries => .ofAnchor anchor (.map anchor entries) ++ partsEntries entries
/-- The parts with a number in a row. -/
def partsAll : List (Node Nat) → Parts
  | [] => []
  | item :: items => parts item ++ partsAll items
/-- The parts with a number in entries. -/
def partsEntries : List (Node Nat × Node Nat) → Parts
  | [] => []
  | (key, value) :: entries => parts key ++ parts value ++ partsEntries entries
end

mutual
/-- The size of a part: one for each scalar and alias, and two for each collection. -/
def size : Node Nat → Nat
  | .alias _ => 1
  | .scalar _ _ => 1
  | .seq _ items => 2 + sizeAll items
  | .map _ entries => 2 + sizeEntries entries
/-- The size of parts in a row. -/
def sizeAll : List (Node Nat) → Nat
  | [] => 0
  | item :: items => size item + sizeAll items
/-- The size of entries. -/
def sizeEntries : List (Node Nat × Node Nat) → Nat
  | [] => 0
  | (key, value) :: entries => size key + size value + sizeEntries entries
end

/-! ## Values -/

/-- A way to replace an alias by a value: with so many aliases to go it gives the value, and the
number of those that are left. -/
abbrev Resolve : Type := Nat → Nat → Option (Yaml × Nat)

mutual
/-- The value of a part, and the number of aliases that may still be replaced. Keys must be
scalars. -/
def expand? (resolve : Resolve) (left : Nat) : Node Nat → Option (Yaml × Nat)
  | .alias number => resolve number left
  | .scalar _ leaf => some (.scalar leaf, left)
  | .seq _ items => (expandAll? resolve left items).map fun (items, left) => (.seq items, left)
  | .map _ entries =>
    (expandEntries? resolve left entries).map fun (entries, left) => (.map entries, left)
/-- The values of parts in a row. -/
def expandAll? (resolve : Resolve) (left : Nat) : List (Node Nat) → Option (List Yaml × Nat)
  | [] => some ([], left)
  | item :: items => do
    let (value, left) ← expand? resolve left item
    let (values, left) ← expandAll? resolve left items
    return (value :: values, left)
/-- The keys and values of entries. -/
def expandEntries? (resolve : Resolve) (left : Nat) :
    List (Node Nat × Node Nat) → Option (List (String × Yaml) × Nat)
  | [] => some ([], left)
  | (key, value) :: entries =>
    match expand? resolve left key with
    | some (.scalar leaf, left) => do
      let (value, left) ← expand? resolve left value
      let (entries, left) ← expandEntries? resolve left entries
      return ((leaf.text, value) :: entries, left)
    | _ => none
end

/-- Replace an alias by the value of the part with its number. Aliases inside that part are replaced
in turn, down to a depth. -/
def Parts.resolve? (parts : Parts) : Nat → Resolve
  | 0, _, _ => none
  | depth + 1, number, left =>
    match left, parts.lookup number with
    | left + 1, some part => part.expand? (parts.resolve? depth) left
    | _, _ => none

/-- How many aliases may be replaced for each part of a document. -/
def maxRepetition : Nat := 100

/-- The value of a document, with its aliases replaced. Of the parts with a number the last one
counts. As long as no part repeats itself, aliases nest no deeper than there are such parts. -/
def toYaml? (node : Node String) : Option Yaml := do
  let (node, _) ← node.number? []
  let parts := node.parts.reverse
  let (value, _) ← node.expand? (Parts.resolve? parts parts.length) (maxRepetition * node.size)
  return value

end Node

end StateGuard.Yaml
