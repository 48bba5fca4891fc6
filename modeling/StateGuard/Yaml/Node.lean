import StateGuard.Yaml.Token

/-!
# Documents as trees

The tokens of a document make up one tree, in which parts may be named by an anchor and repeated by
an alias. A part that is left out, such as the value behind a colon at the end of a line, is a
scalar without a text.
-/

namespace StateGuard.Yaml

/-- A part of a document as it is written. The names of parts are of a type of their own. -/
inductive Node (ν : Type) where
  /-- The part that has a name. -/
  | alias (name : ν)
  | scalar (anchor : Option ν) (value : Scalar)
  | seq (anchor : Option ν) (items : List (Node ν))
  | map (anchor : Option ν) (entries : List (Node ν × Node ν))
  deriving Repr, Inhabited

namespace Node

/-- What is left out. -/
def absent : Node String := .scalar none ⟨.plain, none, ""⟩

/-! ## Anchors and tags -/

/-- What stands in front of a part. -/
structure Properties where
  anchor : Option String := none
  tag : Option String := none
  deriving DecidableEq, Repr

/-- Whether nothing stands in front. -/
def Properties.isEmpty (properties : Properties) : Bool :=
  properties.anchor.isNone && properties.tag.isNone

/-- The short forms for the beginnings of tags. -/
abbrev Handles : Type := List (String × String)

/-- The short forms that every document has. -/
def Handles.standard : Handles := [("!", "!"), ("!!", coreTags)]

/-- A tag in full. The handle must be known. -/
def Handles.tag? (handles : Handles) (handle suffix : String) : Option String :=
  if handle.isEmpty then some suffix else (handles.lookup handle).map (· ++ suffix)

/-- Read an anchor and a tag, in either order. -/
def properties? (handles : Handles) : List Token → Option (Properties × List Token)
  | .anchor name :: .tag handle suffix :: rest =>
    (handles.tag? handle suffix).map fun tag => (⟨some name, some tag⟩, rest)
  | .anchor name :: rest => some (⟨some name, none⟩, rest)
  | .tag handle suffix :: .anchor name :: rest =>
    (handles.tag? handle suffix).map fun tag => (⟨some name, some tag⟩, rest)
  | .tag handle suffix :: rest =>
    (handles.tag? handle suffix).map fun tag => (⟨none, some tag⟩, rest)
  | ts => some ({}, ts)

/-- What is read in front of a part takes tokens exactly if there is something. -/
theorem properties?_length {handles : Handles} {ts rest : List Token} {properties : Properties}
    (h : properties? handles ts = some (properties, rest)) :
    rest.length ≤ ts.length ∧ (properties.isEmpty = false → rest.length < ts.length) := by
  unfold properties? at h
  split at h <;> simp only [Option.map_eq_some_iff, Option.some.injEq, Prod.mk.injEq] at h
  · obtain ⟨_, _, _, rfl⟩ := h
    simp only [List.length_cons]
    omega
  · obtain ⟨_, rfl⟩ := h
    simp
  · obtain ⟨_, _, _, rfl⟩ := h
    simp only [List.length_cons]
    omega
  · obtain ⟨_, _, _, rfl⟩ := h
    simp
  · obtain ⟨rfl, rfl⟩ := h
    simp [Properties.isEmpty]

/-! ## Parts -/

/-- What was read, and the tokens after it. -/
structure Taken (bound : Nat) (α : Type) where
  value : α
  rest : List Token
  fits : rest.length < bound

/-- The same with a greater bound. -/
def Taken.weaken {small large : Nat} {α : Type} (taken : Taken small α) (h : small ≤ large) :
    Taken large α :=
  ⟨taken.value, taken.rest, Nat.lt_of_lt_of_le taken.fits h⟩

/-- Whether the next token is one of some. -/
def nextIs (stops : List Token) : List Token → Bool
  | [] => false
  | token :: _ => stops.contains token

mutual
/-- Read a part. In block style it may be a block collection; behind a key, its dashes may stand in
the column of the key. -/
def node? (handles : Handles) (inBlock behindKey : Bool) (ts : List Token) :
    Option (Taken ts.length (Node String)) :=
  match ts with
  | .alias name :: rest => some ⟨.alias name, rest, by simp⟩
  | ts =>
    match hProperties : properties? handles ts with
    | none => none
    | some (properties, rest) =>
      have hRest := properties?_length hProperties
      let blank : Option (Taken ts.length (Node String)) :=
        if hEmpty : properties.isEmpty then none
        else
          some ⟨.scalar properties.anchor ⟨.plain, properties.tag, ""⟩, rest,
            hRest.2 (by simpa using hEmpty)⟩
      match rest with
      | .scalar style text :: rest =>
        let tag := properties.tag.filter (· ≠ "!")
        some ⟨.scalar properties.anchor ⟨style, tag, text⟩, rest, by grind⟩
      | .flowSequence :: rest =>
        (flowItems? handles rest).map fun ⟨items, rest, _⟩ =>
          ⟨.seq properties.anchor items, rest, by grind⟩
      | .flowMapping :: rest =>
        (flowEntries? handles rest).map fun ⟨entries, rest, _⟩ =>
          ⟨.map properties.anchor entries, rest, by grind⟩
      | .blockSequence :: rest =>
        if inBlock then
          (blockItems? handles rest).map fun ⟨items, rest, _⟩ =>
            ⟨.seq properties.anchor items, rest, by grind⟩
        else blank
      | .blockMapping :: rest =>
        if inBlock then
          (blockEntries? handles rest).map fun ⟨entries, rest, _⟩ =>
            ⟨.map properties.anchor entries, rest, by grind⟩
        else blank
      | .item :: rest =>
        if behindKey then
          (openItems? handles rest).map fun ⟨items, rest, _⟩ =>
            ⟨.seq properties.anchor items, rest, by grind⟩
        else blank
      | _ => blank
termination_by 3 * ts.length
decreasing_by all_goals grind

/-- Read a part that may be left out before some tokens. -/
def part? (handles : Handles) (inBlock behindKey : Bool) (stops ts : List Token) :
    Option (Taken (ts.length + 1) (Node String)) :=
  if nextIs stops ts then some ⟨absent, ts, by simp⟩
  else (node? handles inBlock behindKey ts).map (·.weaken (by omega))
termination_by 3 * ts.length + 1

/-- Read the items of a block sequence with its end. -/
def blockItems? (handles : Handles) (ts : List Token) :
    Option (Taken ts.length (List (Node String))) :=
  match ts with
  | .item :: rest => do
    let ⟨item, rest, _⟩ ← part? handles true false [.item, .blockEnd] rest
    let ⟨items, rest, _⟩ ← blockItems? handles rest
    return ⟨item :: items, rest, by grind⟩
  | .blockEnd :: rest => some ⟨[], rest, by simp⟩
  | _ => none
termination_by 3 * ts.length + 2
decreasing_by all_goals grind

/-- Read the items of a sequence in the column of its key, after the first dash. -/
def openItems? (handles : Handles) (ts : List Token) :
    Option (Taken (ts.length + 1) (List (Node String))) := do
  let ⟨item, rest, _⟩ ← part? handles true false [.item, .key, .value, .blockEnd] ts
  match _hRest : rest with
  | .item :: rest =>
    let ⟨items, rest, _⟩ ← openItems? handles rest
    return ⟨item :: items, rest, by grind⟩
  | rest => return ⟨[item], rest, by grind⟩
termination_by 3 * ts.length + 2
decreasing_by all_goals grind

/-- Read the entries of a block mapping with its end. -/
def blockEntries? (handles : Handles) (ts : List Token) :
    Option (Taken ts.length (List (Node String × Node String))) :=
  match ts with
  | .key :: rest => do
    let ⟨key, rest, _⟩ ← part? handles true true [.key, .value, .blockEnd] rest
    let ⟨value, rest, _⟩ ← entryValue? handles true [.key, .value, .blockEnd] rest
    let ⟨entries, rest, _⟩ ← blockEntries? handles rest
    return ⟨(key, value) :: entries, rest, by grind⟩
  | .blockEnd :: rest => some ⟨[], rest, by simp⟩
  | _ => none
termination_by 3 * ts.length + 2
decreasing_by all_goals grind

/-- Read a colon and the value behind it, both of which may be left out. -/
def entryValue? (handles : Handles) (inBlock : Bool) (stops ts : List Token) :
    Option (Taken (ts.length + 1) (Node String)) :=
  match ts with
  | .value :: rest => (part? handles inBlock inBlock stops rest).map (·.weaken (by simp))
  | ts => some ⟨absent, ts, by simp⟩
termination_by 3 * ts.length + 2
decreasing_by all_goals grind

/-- Read the items of a flow sequence with its end. A key among them makes a mapping of one
entry. -/
def flowItems? (handles : Handles) (ts : List Token) :
    Option (Taken ts.length (List (Node String))) :=
  match ts with
  | .flowSequenceEnd :: rest => some ⟨[], rest, by simp⟩
  | .key :: rest => do
    let ⟨key, rest, _⟩ ←
      part? handles false false [.value, .separator, .flowSequenceEnd] rest
    let ⟨value, rest, _⟩ ← entryValue? handles false [.separator, .flowSequenceEnd] rest
    match _hRest : rest with
    | .flowSequenceEnd :: rest => return ⟨[.map none [(key, value)]], rest, by grind⟩
    | .separator :: rest =>
      let ⟨items, rest, _⟩ ← flowItems? handles rest
      return ⟨.map none [(key, value)] :: items, rest, by grind⟩
    | _ => none
  | ts => do
    let ⟨item, rest, _⟩ ← node? handles false false ts
    match _hRest : rest with
    | .flowSequenceEnd :: rest => return ⟨[item], rest, by grind⟩
    | .separator :: rest =>
      let ⟨items, rest, _⟩ ← flowItems? handles rest
      return ⟨item :: items, rest, by grind⟩
    | _ => none
termination_by 3 * ts.length + 2
decreasing_by all_goals grind

/-- Read the entries of a flow mapping with its end. What is no key has no value. -/
def flowEntries? (handles : Handles) (ts : List Token) :
    Option (Taken ts.length (List (Node String × Node String))) :=
  match ts with
  | .flowMappingEnd :: rest => some ⟨[], rest, by simp⟩
  | .key :: rest => do
    let ⟨key, rest, _⟩ ← part? handles false false [.value, .separator, .flowMappingEnd] rest
    let ⟨value, rest, _⟩ ← entryValue? handles false [.separator, .flowMappingEnd] rest
    match _hRest : rest with
    | .flowMappingEnd :: rest => return ⟨[(key, value)], rest, by grind⟩
    | .separator :: rest =>
      let ⟨entries, rest, _⟩ ← flowEntries? handles rest
      return ⟨(key, value) :: entries, rest, by grind⟩
    | _ => none
  | ts => do
    let ⟨key, rest, _⟩ ← node? handles false false ts
    match _hRest : rest with
    | .flowMappingEnd :: rest => return ⟨[(key, absent)], rest, by grind⟩
    | .separator :: rest =>
      let ⟨entries, rest, _⟩ ← flowEntries? handles rest
      return ⟨(key, absent) :: entries, rest, by grind⟩
    | _ => none
termination_by 3 * ts.length + 2
decreasing_by all_goals grind
end

/-! ## Documents -/

/-- Whether a document may be written in a version of YAML. -/
def isSupported (major minor : Nat) : Bool := major == 1 && (minor == 1 || minor == 2)

/-- Read the directives of a document: at most one version, and no handle twice. The handles that
every document has come last. -/
def directives? (hasVersion : Bool) (handles : Handles) : List Token → Option (Handles × List Token)
  | .version major minor :: rest =>
    if hasVersion || !isSupported major minor then none else directives? true handles rest
  | .handle handle tags :: rest =>
    if (handles.lookup handle).isSome then none
    else directives? hasVersion (handles ++ [(handle, tags)]) rest
  | ts => some (handles ++ Handles.standard, ts)

/-- Whether a token stands in front of a document, not inside one. -/
def isOutside : Token → Bool
  | .version _ _ => true
  | .handle _ _ => true
  | .documentStart => true
  | _ => false

/-- Read the tree of a document, and leave the tokens after it. Without a mark of its beginning,
there are no directives. -/
def body? (ts : List Token) : Option (Node String × List Token) :=
  match ts with
  | [] => some (absent, [])
  | first :: _ =>
    if !isOutside first then
      (node? .standard true false ts).map fun taken => (taken.value, taken.rest)
    else
      match directives? false [] ts with
      | some (handles, .documentStart :: rest) =>
        if rest.head?.all fun next => isOutside next || next == .documentEnd then
          some (absent, rest)
        else (node? handles true false rest).map fun taken => (taken.value, taken.rest)
      | _ => none

/-- The tree of the only document. Nothing comes after it but marks of its end. -/
def ofTokens? (ts : List Token) : Option (Node String) := do
  let (node, rest) ← body? ts
  if rest.all (· == .documentEnd) then some node else none

end Node

end StateGuard.Yaml
