import StateGuard.Yaml.Character

/-!
# Places in a document

A cursor is what is left of a document, with the place where it begins. Lines and columns count from
zero. Between the words of a scalar there may be a gap of blanks and line breaks, which is read here
once for all kinds of scalars.
-/

namespace StateGuard.Yaml

/-- The rest of a document and the place where it begins. -/
structure Cursor where
  rest : List Char
  /-- The number of characters before. -/
  index : Nat := 0
  line : Nat := 0
  column : Nat := 0
  deriving DecidableEq, Repr, Inhabited

namespace Cursor

/-- Go past some characters of a line. -/
def advance (c : Cursor) (n : Nat) : Cursor :=
  { c with rest := c.rest.drop n, index := c.index + n, column := c.column + n }

/-- Go past a line break of some length. -/
def newLine (c : Cursor) (n : Nat) : Cursor := ⟨c.rest.drop n, c.index + n, c.line + 1, 0⟩

/-- Go past the characters of a class, which holds no line break. -/
def skipWhile (p : Char → Bool) (c : Cursor) : Cursor := c.advance (c.rest.takeWhile p).length

/-- Whether a character comes next. -/
def at? (c : Cursor) (ch : Char) : Bool := c.rest.head? == some ch

/-- Whether three equal characters come next, and a blank after them. -/
def isMark (ch : Char) : List Char → Bool
  | a :: b :: d :: rest => a == ch && b == ch && d == ch && blankNext rest
  | _ => false

/-- Whether a line begins here with the mark of the beginning or the end of a document. -/
def atMark (c : Cursor) : Bool := c.column == 0 && (isMark '-' c.rest || isMark '.' c.rest)

/-- Go past blanks, a comment and a line break, which must take up the rest of the line. -/
def endLine? (c : Cursor) : Option Cursor :=
  let c := c.skipWhile isBlank
  let c := if c.at? '#' then c.skipWhile (!isBreak ·) else c
  match lineBreak? c.rest with
  | some (_, n) => some (c.newLine n)
  | none => if c.rest.isEmpty then some c else none

@[simp] theorem length_rest_advance (c : Cursor) (n : Nat) :
    (c.advance n).rest.length = c.rest.length - n := by
  simp [advance]

@[simp] theorem length_rest_newLine (c : Cursor) (n : Nat) :
    (c.newLine n).rest.length = c.rest.length - n := by
  simp [newLine]

theorem length_rest_skipWhile_le (p : Char → Bool) (c : Cursor) :
    (c.skipWhile p).rest.length ≤ c.rest.length := by
  simp only [skipWhile, length_rest_advance]
  omega

end Cursor

/-! ## Gaps -/

/-- A stretch of blanks and line breaks. -/
structure Gap where
  /-- The blanks before the first line break. -/
  blanks : List Char
  /-- What the line breaks stand for. -/
  breaks : List Char
  /-- Whether a line is indented with a tab. -/
  tabbed : Bool
  /-- The place after the gap. -/
  stop : Cursor
  deriving Repr

namespace Gap

/-- What a gap inside a scalar stands for. Blanks stand for themselves. A single line break is a
blank, and of several the first is dropped; separators are kept. Blanks around line breaks do not
count. -/
def joined (gap : Gap) : List Char :=
  match gap.breaks with
  | [] => gap.blanks
  | '\n' :: [] => [' ']
  | '\n' :: more => more
  | breaks => breaks

/-- The gap that begins here, inside a scalar whose lines are indented up to a column. After a line
break the blanks are indentation. -/
def read (indent : Nat) (afterBreak : Bool) (c : Cursor) : Gap :=
  match _hRest : c.rest with
  | [] => ⟨[], [], false, c⟩
  | ch :: _ =>
    if isBlank ch then
      let gap := read indent afterBreak (c.advance 1)
      if afterBreak then
        { gap with tabbed := gap.tabbed || (ch == '\t' && c.column < indent) }
      else { gap with blanks := ch :: gap.blanks }
    else
      match _hBreak : lineBreak? c.rest with
      | some (b, n) =>
        let gap := read indent true (c.newLine n)
        { gap with breaks := b :: gap.breaks }
      | none => ⟨[], [], false, c⟩
termination_by c.rest.length
decreasing_by
  · simp [_hRest]
  · have := length_drop_lineBreak? _hBreak
    simpa [Cursor.newLine] using this

/-- A gap ends no earlier than it begins. -/
theorem length_stop_le (indent : Nat) (afterBreak : Bool) (c : Cursor) :
    (read indent afterBreak c).stop.rest.length ≤ c.rest.length := by
  fun_induction read indent afterBreak c with
  | case1 => simp_all
  | case2 =>
      simp_all +zetaDelta
      omega
  | case3 =>
      simp_all +zetaDelta
      omega
  | case4 =>
      simp_all +zetaDelta
      omega
  | case5 => simp_all

/-- A gap that begins with a blank or a line break ends later than it begins. -/
theorem length_stop_lt {indent : Nat} {afterBreak : Bool} {c : Cursor} {ch : Char}
    {rest : List Char} (hRest : c.rest = ch :: rest) (hBlank : isBlankOrBreak ch = true) :
    (read indent afterBreak c).stop.rest.length < c.rest.length := by
  unfold read
  split
  · simp_all
  · next hEq =>
      rw [hRest] at hEq
      cases hEq
      split
      · have := length_stop_le indent afterBreak (c.advance 1)
        simp only [Cursor.length_rest_advance, hRest, List.length_cons] at this
        split <;> simp only [hRest, List.length_cons] <;> omega
      · next hNot =>
          have hBreak : isBreak ch = true := by simp_all [isBlankOrBreak]
          split
          · next b n hSome =>
              have hLe := length_stop_le indent true (c.newLine n)
              have hLength := lineBreak?_length hSome
              simp only [Cursor.length_rest_newLine] at hLe
              simp only
              omega
          · next hNone =>
              have := lineBreak?_isSome rest hBreak
              rw [← hRest, hNone] at this
              simp at this

end Gap

end StateGuard.Yaml
