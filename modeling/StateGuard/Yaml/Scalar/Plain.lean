import StateGuard.Yaml.Cursor

/-!
# Scalars without quotes

A scalar without quotes is a row of words with gaps between them. It ends at a colon before a blank,
at a comment, at a mark of documents, and in block style at a line that is not indented enough; in
flow style it also ends at any mark of that style.
-/

namespace StateGuard.Yaml

/-- The word that comes next, up to a blank or a mark; nothing if a colon stands before a mark of
the flow style. -/
def plainWord? (inFlow : Bool) : List Char → Option (List Char)
  | [] => some []
  | c :: rest =>
    if isBlankOrBreak c then some []
    else if inFlow && c == ':' && rest.head?.any (fun d => isFlowMark d || d == '?') then none
    else if (c == ':' && blankNext rest) || (inFlow && isFlowMark c) then some []
    else (plainWord? inFlow rest).map (c :: ·)

/-- A word is no longer than the text it is read from. -/
theorem length_plainWord?_le {inFlow : Bool} {cs word : List Char}
    (h : plainWord? inFlow cs = some word) : word.length ≤ cs.length := by
  induction cs generalizing word with
  | nil => simp_all [plainWord?]
  | cons c rest ih =>
      unfold plainWord? at h
      split at h
      · simp_all
      · split at h
        · simp at h
        · split at h
          · simp_all
          · simp only [Option.map_eq_some_iff] at h
            obtain ⟨more, hMore, rfl⟩ := h
            have := ih hMore
            simp only [List.length_cons]
            omega

/-- A scalar without quotes that has been read. -/
structure PlainText where
  text : List Char
  /-- The place after the scalar and the gap behind it. -/
  stop : Cursor
  /-- Whether that gap has a line break. -/
  broken : Bool
  deriving Repr

/-- Read the words from here on, and the gaps between them. -/
def plainText? (inFlow : Bool) (indent : Nat) (c : Cursor) : Option PlainText :=
  if c.atMark || c.at? '#' then some ⟨[], c, false⟩
  else
    match _hWord : plainWord? inFlow c.rest with
    | none => none
    | some [] => some ⟨[], c, false⟩
    | some (ch :: word) =>
      let gap := Gap.read indent false (c.advance (word.length + 1))
      let broken := !gap.breaks.isEmpty
      if gap.tabbed then none
      else if !inFlow && gap.stop.column < indent then some ⟨ch :: word, gap.stop, broken⟩
      else
        match plainText? inFlow indent gap.stop with
        | none => none
        | some ⟨[], stop, _⟩ => some ⟨ch :: word, stop, broken⟩
        | some more => some ⟨ch :: word ++ gap.joined ++ more.text, more.stop, more.broken⟩
termination_by c.rest.length
decreasing_by
  have hLe := Gap.length_stop_le indent false (c.advance (word.length + 1))
  have hWord := length_plainWord?_le _hWord
  simp only [Cursor.length_rest_advance] at hLe
  simp only [List.length_cons] at hWord
  omega

end StateGuard.Yaml
