import StateGuard.Yaml.Cursor

/-!
# Scalars in blocks

A block begins with a mark and goes on as long as its lines are indented. The mark may say how far,
and what becomes of the line breaks at the end; otherwise the first line that is not empty says how
far, and one line break is kept. A literal block keeps its line breaks. In a folded one, a line
break between two lines that do not begin with a blank joins them.
-/

namespace StateGuard.Yaml

/-- What becomes of the line breaks at the end of a block. -/
inductive Ending where
  /-- All are dropped. -/
  | strip
  /-- One is kept. -/
  | clip
  /-- All are kept. -/
  | keep
  deriving DecidableEq, Repr, Inhabited

/-- How the line breaks at the end are treated, by the mark for it. -/
def ending? : List Char → Option Ending
  | '+' :: _ => some .keep
  | '-' :: _ => some .strip
  | _ => none

/-- The depth of the indentation, by the mark for it. -/
def depth? : List Char → Option Nat
  | c :: _ => if c.isDigit then some (c.toNat - '0'.toNat) else none
  | [] => none

/-- The marks behind the mark of a block, in either order: how it ends, how deep it is indented, and
the length of the marks. A depth of nothing is none. -/
def blockMarks? (cs : List Char) : Option (Ending × Option Nat × Nat) :=
  match ending? cs, depth? cs with
  | some ending, _ =>
    match depth? (cs.drop 1) with
    | some 0 => none
    | some depth => some (ending, some depth, 2)
    | none => some (ending, none, 1)
  | none, some 0 => none
  | none, some depth =>
    match ending? (cs.drop 1) with
    | some ending => some (ending, some depth, 2)
    | none => some (.clip, some depth, 1)
  | none, none => some (.clip, none, 0)

/-- Empty lines and the indentation of the next one: what the line breaks stand for, the deepest
indentation met, and the place after it. With a known depth, deeper blanks belong to the line. -/
def indentation? (depth : Option Nat) (c : Cursor) : Option (List Char × Nat × Cursor) :=
  let blanks := (c.rest.takeWhile (· = ' ')).length
  let first := c.advance ((depth.map fun d => min blanks (d - c.column)).getD blanks)
  if depth.all (first.column < ·) && first.at? '\t' then none
  else
    match _hBreak : lineBreak? first.rest with
    | none => some ([], first.column, first)
    | some (b, n) => do
      let (breaks, deepest, stop) ← indentation? depth (first.newLine n)
      return (b :: breaks, max first.column deepest, stop)
termination_by c.rest.length
decreasing_by
  have hBreak := lineBreak?_length _hBreak
  simp only [first, Cursor.length_rest_advance] at hBreak
  simp only [Cursor.length_rest_newLine, Cursor.length_rest_advance]
  omega

/-- Indentation ends no earlier than it begins. -/
theorem length_indentation?_le {depth : Option Nat} {c stop : Cursor} {breaks : List Char}
    {deepest : Nat} (h : indentation? depth c = some (breaks, deepest, stop)) :
    stop.rest.length ≤ c.rest.length := by
  fun_induction indentation? depth c generalizing breaks deepest stop with
  | case1 => simp at h
  | case2 =>
      simp only [Option.some.injEq, Prod.mk.injEq] at h
      obtain ⟨_, _, rfl⟩ := h
      simp +zetaDelta
  | case3 =>
      rename_i ih
      simp only [Option.bind_eq_bind, Option.bind_eq_some_iff, Option.pure_def, Option.some.injEq,
        Prod.mk.injEq, Prod.exists] at h
      obtain ⟨_, _, _, hMore, _, _, rfl⟩ := h
      have := ih hMore
      simp +zetaDelta at this
      omega

/-- What stands between two lines of a block: their line break and the empty lines behind it. A
folded block drops the line break, or makes it a blank when there is no empty line. -/
def lineJoint (literal blank : Bool) (lineEnd breaks : List Char) : List Char :=
  if !literal && !blank && lineEnd == ['\n'] then
    if breaks.isEmpty then [' '] else breaks
  else lineEnd ++ breaks

/-- The line breaks that are kept at the end of a block. -/
def Ending.kept (ending : Ending) (lineEnd breaks : List Char) : List Char :=
  match ending with
  | .strip => []
  | .clip => lineEnd
  | .keep => lineEnd ++ breaks

/-- Go past the end of a line: what its line break stands for, and the place after it. -/
def lineEnd (c : Cursor) : List Char × Cursor :=
  match lineBreak? c.rest with
  | some (b, n) => ([b], c.newLine n)
  | none => ([], c)

/-- The end of a line ends no earlier than it begins. -/
theorem length_lineEnd_le (c : Cursor) : (lineEnd c).2.rest.length ≤ c.rest.length := by
  unfold lineEnd
  split <;> simp

/-- Read the lines of a block from the first character of one on. What stands before it is the end
of the line before, the empty lines behind that, and whether that line began with a blank. -/
def blockLines? (literal : Bool) (ending : Ending) (depth : Nat) (blankBefore : Bool)
    (endBefore breaks : List Char) (c : Cursor) : Option (List Char × Cursor) :=
  match _hRest : c.rest with
  | [] => some (ending.kept endBefore breaks, c)
  | ch :: rest =>
    if c.column ≠ depth then some (ending.kept endBefore breaks, c)
    else
      let line := ch :: rest.takeWhile (!isBreak ·)
      let joint := lineJoint literal (blankBefore || isBlank ch) endBefore breaks
      let after := lineEnd (c.advance line.length)
      match _hNext : indentation? (some depth) after.2 with
      | none => none
      | some (newBreaks, _, stop) => do
        let (text, stop) ← blockLines? literal ending depth (isBlank ch) after.1 newBreaks stop
        return (joint ++ line ++ text, stop)
termination_by c.rest.length
decreasing_by
  have hLe := length_indentation?_le _hNext
  have hEnd := length_lineEnd_le (c.advance line.length)
  simp only [line, Cursor.length_rest_advance, List.length_cons] at hEnd
  simp only [after, line, List.length_cons] at hLe
  have : c.rest.length = rest.length + 1 := by simp [_hRest]
  omega

/-- Read a block after its mark, inside a collection whose column is given. -/
def blockText? (literal : Bool) (column : Option Nat) (c : Cursor) :
    Option (List Char × Cursor) := do
  let (ending, depth, length) ← blockMarks? c.rest
  let first ← (c.advance length).endLine?
  let depth := depth.map (· + column.getD 0)
  let (breaks, deepest, start) ← indentation? depth first
  let least := max 1 ((column.map (· + 1)).getD 0)
  blockLines? literal ending (depth.getD (max deepest least)) false [] breaks start

end StateGuard.Yaml
