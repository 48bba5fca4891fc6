import StateGuard.Yaml.Basic

/-!
# Tokens of YAML

A document as a row of tokens. Besides the marks that are written, the row has marks for what
follows from the columns: where a block collection begins and ends, and where a key begins.
-/

namespace StateGuard.Yaml

/-- A token of a document. -/
inductive Token where
  /-- The version of YAML that a document is written in. -/
  | version (major minor : Nat)
  /-- A short form for the beginning of tags. -/
  | handle (handle : String) (tags : String)
  | documentStart
  | documentEnd
  | blockSequence
  | blockMapping
  /-- The end of a block collection. -/
  | blockEnd
  | flowSequence
  | flowSequenceEnd
  | flowMapping
  | flowMappingEnd
  /-- A dash. -/
  | item
  /-- A comma. -/
  | separator
  /-- The beginning of a key. -/
  | key
  /-- A colon. -/
  | value
  | alias (name : String)
  | anchor (name : String)
  /-- A tag by its handle and the rest of it. Without a handle, the rest is all of it. -/
  | tag (handle suffix : String)
  | scalar (style : Style) (text : String)
  deriving DecidableEq, Repr, Inhabited

end StateGuard.Yaml
