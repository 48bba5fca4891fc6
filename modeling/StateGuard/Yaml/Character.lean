/-!
# Characters of YAML

The classes of characters that reading and writing go by. A line ends at a line feed, a carriage
return, both, a next line character, or a line or paragraph separator.
-/

namespace StateGuard.Yaml

/-- A character that ends a line. -/
def isBreak (c : Char) : Bool :=
  c == '\n' || c == '\r' || c == '\u0085' || c == '\u2028' || c == '\u2029'

/-- A blank inside a line. -/
def isBlank (c : Char) : Bool := c == ' ' || c == '\t'

/-- A character after which a mark counts as a mark. -/
def isBlankOrBreak (c : Char) : Bool := isBlank c || isBreak c

/-- Whether a text ends or a blank comes next. -/
def blankNext : List Char → Bool
  | [] => true
  | c :: _ => isBlankOrBreak c

/-- A character that a document may hold. -/
def isAllowed (c : Char) : Bool :=
  let n := c.toNat
  n == 0x09 || n == 0x0a || n == 0x0d || (0x20 ≤ n && n ≤ 0x7e) || n == 0x85 ||
    (0xa0 ≤ n && n ≤ 0xfffd) || 0x10000 ≤ n

/-- A character that need not be escaped. -/
def isPrintable (c : Char) : Bool :=
  let n := c.toNat
  n == 0x0a || (0x20 ≤ n && n ≤ 0x7e) || (0xa0 ≤ n && n ≤ 0xfffd && n != 0xfeff) || 0x10000 ≤ n

/-- The mark of the byte order, which may stand at the beginning of a line. -/
def byteOrderMark : Char := '\ufeff'

/-- A character of the names of anchors, handles and directives. -/
def isNameChar (c : Char) : Bool := c.isAlphanum || c == '_' || c == '-'

/-- The characters with which no scalar without quotes begins. -/
def reserved : List Char :=
  ['#', ',', '[', ']', '\x7b', '\x7d', '&', '*', '!', '|', '>', '\'', '"', '%', '@', '`']

/-- The marks of the flow style. -/
def isFlowMark (c : Char) : Bool := [',', '[', ']', '\x7b', '\x7d'].contains c

/-- The line break that comes next: the character it stands for, and its length. -/
def lineBreak? : List Char → Option (Char × Nat)
  | '\r' :: '\n' :: _ => some ('\n', 2)
  | c :: _ =>
    if c == '\u2028' || c == '\u2029' then some (c, 1)
    else if isBreak c then some ('\n', 1)
    else none
  | [] => none

/-- A line break takes at least a character, and no more than there are. -/
theorem lineBreak?_length {cs : List Char} {b : Char} {n : Nat} (h : lineBreak? cs = some (b, n)) :
    0 < n ∧ n ≤ cs.length := by
  unfold lineBreak? at h
  split at h
  · simp only [Option.some.injEq, Prod.mk.injEq] at h
    simp only [List.length_cons]
    omega
  · split at h
    · simp only [Option.some.injEq, Prod.mk.injEq] at h
      simp only [List.length_cons]
      omega
    · split at h
      · simp only [Option.some.injEq, Prod.mk.injEq] at h
        simp only [List.length_cons]
        omega
      · simp at h
  · simp at h

/-- A character that ends a line begins a line break. -/
theorem lineBreak?_isSome {c : Char} (cs : List Char) (h : isBreak c = true) :
    (lineBreak? (c :: cs)).isSome = true := by
  unfold lineBreak?
  split
  · rfl
  · next hEq =>
      cases hEq
      split
      · rfl
      · simp_all
  · next hEq => cases hEq

/-- What comes after a line break is shorter. -/
theorem length_drop_lineBreak? {cs : List Char} {b : Char} {n : Nat}
    (h : lineBreak? cs = some (b, n)) : (cs.drop n).length < cs.length := by
  have := lineBreak?_length h
  simp only [List.length_drop]
  omega

end StateGuard.Yaml
