import Mathlib.Data.List.TakeWhile
import StateGuard.Yaml.Scan
import StateGuard.Yaml.Writer

/-!
# Texts on one line are read back

A text whose characters are printable and that has no line break is written without quotes or in
single quotes. Either way the reader gets its characters back: without quotes it goes from word to
word, and the gaps between words are blanks that stand for themselves; in quotes only the quote is
special, and it is doubled.

Where a scalar ends is decided by what follows it. The law of scalars without quotes is therefore
stated once for any end (`plainText?_of_end`), and the two ends that the writer makes are a line
break before a line that is indented less (`plainText?_lineEnd`) and the colon of a key
(`plainText?_colon`).
-/

namespace StateGuard.Yaml

/-! ## Characters -/

/-- A character that is printable and ends no line. -/
def isLineChar (c : Char) : Bool := isPrintable c && !isBreak c

/-- A text of one line of printable characters. -/
def isLine (text : String) : Bool := text.toList.all isLineChar

theorem isBreak_of_isLineChar {c : Char} (h : isLineChar c = true) : isBreak c = false := by
  simp only [isLineChar, Bool.and_eq_true, Bool.not_eq_true'] at h
  exact h.2

/-- The only blank in a line of printable characters is the space. -/
theorem isBlankOrBreak_of_isLineChar {c : Char} (h : isLineChar c = true) :
    isBlankOrBreak c = (c == ' ') := by
  have hBreak := isBreak_of_isLineChar h
  have hTab : c ≠ '\t' := by
    rintro rfl
    exact absurd h (by decide)
  simp [isBlankOrBreak, isBlank, hBreak, hTab]

theorem isAllowed_of_isLineChar {c : Char} (h : isLineChar c = true) : isAllowed c = true := by
  simp only [isLineChar, isPrintable, Bool.and_eq_true, Bool.or_eq_true, decide_eq_true_eq,
    beq_iff_eq, bne_iff_ne] at h
  simp only [isAllowed, Bool.or_eq_true, Bool.and_eq_true, decide_eq_true_eq, beq_iff_eq]
  omega

theorem isBlankOrBreak_space : isBlankOrBreak ' ' = true := by decide

/-- Where no line break comes next, no line ends. -/
theorem lineBreak?_eq_none {cs : List Char} (h : ∀ c ∈ cs.head?, isBlankOrBreak c = false) :
    lineBreak? cs = none := by
  cases cs with
  | nil => rfl
  | cons c cs =>
      have hBreak : isBreak c = false := by
        have := h c rfl
        simp only [isBlankOrBreak, Bool.or_eq_false_iff] at this
        exact this.2
      have hNot := hBreak
      simp only [isBreak, Bool.or_eq_false_iff, beq_eq_false_iff_ne] at hNot
      unfold lineBreak?
      split
      · next hEq =>
          cases hEq
          exact absurd rfl hNot.1.1.1.2
      · next hEq =>
          cases hEq
          simp [hNot, hBreak]
      · rfl

/-! ## Indentation -/

/-- The number of blanks in front of a text. -/
def indentOf (cs : List Char) : Nat := (cs.takeWhile (· == ' ')).length

/-- A text without the blanks in front of it. -/
def unindented (cs : List Char) : List Char := cs.dropWhile (· == ' ')

/-- A text that ends, or begins with a character of a token. -/
def StartsWord (cs : List Char) : Prop :=
  ∀ c ∈ cs.head?, isBlankOrBreak c = false ∧ c ≠ '#' ∧ c ≠ byteOrderMark

/-- Lines of which the first begins with a token. -/
def StartsLine (cs : List Char) : Prop := StartsWord (unindented cs)

theorem StartsWord.head_ne_space {cs : List Char} (h : StartsWord cs) :
    ∀ c ∈ cs.head?, (c == ' ') = false := by
  intro c hc
  have hBlank := (h c hc).1
  by_contra hSpace
  simp only [Bool.not_eq_false, beq_iff_eq] at hSpace
  rw [hSpace, isBlankOrBreak_space] at hBlank
  cases hBlank

/-- How a text is taken apart that begins with something else than a blank. -/
private theorem takeWhile_spaces (n : Nat) {cs : List Char}
    (h : ∀ c ∈ cs.head?, (c == ' ') = false) :
    (spaces n ++ cs).takeWhile (· == ' ') = spaces n ∧
      (spaces n ++ cs).dropWhile (· == ' ') = cs := by
  induction n with
  | zero =>
      cases cs with
      | nil => exact ⟨rfl, rfl⟩
      | cons c cs =>
          have := h c rfl
          simp [spaces, this]
  | succ n ih => simpa [spaces, List.replicate_succ] using ih

theorem indentOf_spaces (n : Nat) {cs : List Char} (h : StartsWord cs) :
    indentOf (spaces n ++ cs) = n := by
  rw [indentOf, (takeWhile_spaces n h.head_ne_space).1, spaces, List.length_replicate]

theorem unindented_spaces (n : Nat) {cs : List Char} (h : StartsWord cs) :
    unindented (spaces n ++ cs) = cs := (takeWhile_spaces n h.head_ne_space).2

/-- Every text is its blanks and the rest. -/
theorem spaces_append_unindented (cs : List Char) : spaces (indentOf cs) ++ unindented cs = cs := by
  have hSpaces : cs.takeWhile (· == ' ') = spaces (indentOf cs) := by
    refine List.eq_replicate_iff.mpr ⟨rfl, fun c hc => ?_⟩
    simpa using List.mem_takeWhile_imp hc
  rw [← hSpaces]
  exact List.takeWhile_append_dropWhile

theorem drop_indentOf (cs : List Char) : cs.drop (indentOf cs) = unindented cs := by
  have hDrop : (spaces (indentOf cs) ++ unindented cs).drop (indentOf cs) = unindented cs :=
    List.drop_left' (by simp [spaces])
  rwa [spaces_append_unindented] at hDrop

/-- Behind the blanks there is no other blank. -/
theorem head_unindented {cs : List Char} {c : Char} (h : c ∈ (unindented cs).head?) : c ≠ ' ' := by
  have hNot := List.head?_dropWhile_not (· == ' ') cs
  rw [Option.mem_def, unindented] at h
  rw [h] at hNot
  simpa using hNot

theorem startsLine_spaces (n : Nat) {cs : List Char} (h : StartsWord cs) :
    StartsLine (spaces n ++ cs) := by
  rw [StartsLine, unindented_spaces n h]
  exact h

theorem startsLine_nil : StartsLine [] := by simp [StartsLine, StartsWord, unindented]

/-! ## Cursors -/

namespace Cursor

@[simp] theorem rest_advance (c : Cursor) (n : Nat) : (c.advance n).rest = c.rest.drop n := rfl

@[simp] theorem column_advance (c : Cursor) (n : Nat) : (c.advance n).column = c.column + n := rfl

@[simp] theorem line_advance (c : Cursor) (n : Nat) : (c.advance n).line = c.line := rfl

@[simp] theorem index_advance (c : Cursor) (n : Nat) : (c.advance n).index = c.index + n := rfl

@[simp] theorem rest_newLine (c : Cursor) (n : Nat) : (c.newLine n).rest = c.rest.drop n := rfl

@[simp] theorem column_newLine (c : Cursor) (n : Nat) : (c.newLine n).column = 0 := rfl

theorem advance_zero (c : Cursor) : c.advance 0 = c := rfl

theorem advance_advance (c : Cursor) (n m : Nat) :
    (c.advance n).advance m = c.advance (n + m) := by
  simp [advance, Nat.add_assoc]

theorem atMark_of_column {c : Cursor} (h : 0 < c.column) : c.atMark = false := by
  have : c.column ≠ 0 := by omega
  simp [atMark, this]

/-- The place where the next line begins to say something. -/
def toNextLine (c : Cursor) (tail : List Char) : Cursor := (c.newLine 1).advance (indentOf tail)

theorem rest_toNextLine {c : Cursor} {tail : List Char} (h : c.rest = '\n' :: tail) :
    (c.toNextLine tail).rest = unindented tail := by
  simpa [toNextLine, h] using drop_indentOf tail

@[simp] theorem column_toNextLine (c : Cursor) (tail : List Char) :
    (c.toNextLine tail).column = indentOf tail := by
  simp [toNextLine]

@[simp] theorem line_toNextLine (c : Cursor) (tail : List Char) :
    (c.toNextLine tail).line = c.line + 1 := rfl

end Cursor

/-! ## Gaps -/

/-- Where a word begins there is no gap. -/
theorem Gap.read_word (indent : Nat) (afterBreak : Bool) {c : Cursor}
    (h : ∀ ch ∈ c.rest.head?, isBlankOrBreak ch = false) :
    Gap.read indent afterBreak c = ⟨[], [], false, c⟩ := by
  unfold Gap.read
  split
  · rfl
  · next ch rest hRest =>
      have hBlank : isBlankOrBreak ch = false := h ch (by rw [hRest]; rfl)
      simp only [isBlankOrBreak, Bool.or_eq_false_iff] at hBlank
      rw [if_neg (by simp [hBlank.1])]
      split
      · next hSome => rw [lineBreak?_eq_none h] at hSome; cases hSome
      · rfl

/-- A gap of blanks inside a line stands for itself. -/
theorem Gap.read_spaces (indent : Nat) {rest : List Char}
    (hWord : ∀ ch ∈ rest.head?, isBlankOrBreak ch = false) :
    ∀ (n : Nat) (c : Cursor), c.rest = spaces n ++ rest →
      Gap.read indent false c = ⟨spaces n, [], false, c.advance n⟩ := by
  intro n
  induction n with
  | zero =>
      intro c hRest
      rw [Gap.read_word indent false (by rw [hRest]; simpa [spaces] using hWord)]
      rfl
  | succ n ih =>
      intro c hRest
      have hRest' : c.rest = ' ' :: (spaces n ++ rest) := by
        rw [hRest]; simp [spaces, List.replicate_succ]
      have hNext := ih (c.advance 1) (by simp [hRest'])
      unfold Gap.read
      split
      · next hEq => rw [hRest'] at hEq; cases hEq
      · next hEq =>
          rw [hRest'] at hEq
          cases hEq
          rw [if_pos (by decide), if_neg (by decide), hNext, Cursor.advance_advance,
            Nat.add_comm 1 n]
          simp [spaces, List.replicate_succ]

/-- The blanks at the beginning of a line are indentation. -/
theorem Gap.read_indentation (indent : Nat) {rest : List Char}
    (hWord : ∀ ch ∈ rest.head?, isBlankOrBreak ch = false) :
    ∀ (n : Nat) (c : Cursor), c.rest = spaces n ++ rest →
      Gap.read indent true c = ⟨[], [], false, c.advance n⟩ := by
  intro n
  induction n with
  | zero =>
      intro c hRest
      rw [Gap.read_word indent true (by rw [hRest]; simpa [spaces] using hWord)]
      rfl
  | succ n ih =>
      intro c hRest
      have hRest' : c.rest = ' ' :: (spaces n ++ rest) := by
        rw [hRest]; simp [spaces, List.replicate_succ]
      have hNext := ih (c.advance 1) (by simp [hRest'])
      unfold Gap.read
      split
      · next hEq => rw [hRest'] at hEq; cases hEq
      · next hEq =>
          rw [hRest'] at hEq
          cases hEq
          rw [if_pos (by decide), if_pos rfl, hNext, Cursor.advance_advance, Nat.add_comm 1 n]
          rfl

/-- A gap at the end of a line reaches to the first word of the next one. -/
theorem Gap.read_lineEnd (indent : Nat) {c : Cursor} {tail : List Char}
    (hRest : c.rest = '\n' :: tail) (hTail : StartsLine tail) :
    Gap.read indent false c = ⟨[], ['\n'], false, c.toNextLine tail⟩ := by
  have hNext : Gap.read indent true (c.newLine 1) = ⟨[], [], false, c.toNextLine tail⟩ := by
    refine Gap.read_indentation indent (fun ch hch => (hTail ch hch).1)
      (indentOf tail) (c.newLine 1) ?_
    rw [spaces_append_unindented, Cursor.rest_newLine, hRest]
    rfl
  have hBreak : lineBreak? c.rest = some ('\n', 1) := by rw [hRest]; rfl
  unfold Gap.read
  split
  · next hEq => rw [hRest] at hEq; cases hEq
  · next hEq =>
      rw [hRest] at hEq
      cases hEq
      rw [if_neg (by decide)]
      split
      · next b n hSome =>
          rw [hBreak] at hSome
          cases hSome
          rw [hNext]
      · next hNone => rw [hBreak] at hNone; cases hNone

/-! ## Scalars without quotes -/

/-- A text that can stand without quotes: it has no blank at either end, and no mark inside. -/
structure IsBare (cs : List Char) : Prop where
  nonempty : cs ≠ []
  chars : ∀ c ∈ cs, isLineChar c = true
  head : ∀ c ∈ cs.head?, c ≠ ' '
  last : ∀ c ∈ cs.getLast?, c ≠ ' '
  unmarked : holdsMark ' ' cs = false

/-- A text that the writer leaves without quotes. -/
structure IsPlain (cs : List Char) : Prop extends IsBare cs where
  start : startsWithMark cs = false

theorem isPlain_of_isPlainText {text : String} (h : isPlainText text = true)
    (hNonempty : text ≠ "") : IsPlain text.toList := by
  have hNil : text.toList ≠ [] := by simpa using hNonempty
  rw [isPlainText] at h
  obtain ⟨c, rest, hCons⟩ := List.exists_cons_of_ne_nil hNil
  simp only [hCons, Bool.and_eq_true, bne_iff_ne, Bool.not_eq_true'] at h
  obtain ⟨⟨⟨⟨⟨hHead, hLast⟩, hPrintable⟩, hBreaks⟩, hStart⟩, hMarks⟩ := h
  rw [hCons]
  refine ⟨⟨by simp, ?_, by simpa using hHead, ?_, ?_⟩, hStart⟩
  · intro d hd
    have hBreak : isBreak d = false := by
      simpa using List.any_eq_false.mp hBreaks d hd
    simp [isLineChar, List.all_eq_true.mp hPrintable d hd, hBreak]
  · intro d hd hSpace
    exact hLast (hSpace ▸ hd)
  · simp only [startsWithMark, Bool.or_eq_false_iff] at hStart
    have hHash : c ≠ '#' := by
      rintro rfl
      exact absurd hStart.1.1.1 (by decide)
    have hColon : (c == ':' && blankNext rest) = false := by
      have := hStart.1.1.2
      cases hNext : blankNext rest <;> simp_all
    simp [holdsMark, hMarks, hColon, hHash]

/-- Marks are looked for in each part of a text. -/
theorem holdsMark_append_space {before : Char} {word more : List Char}
    (h : holdsMark before (word ++ ' ' :: more) = false) :
    holdsMark before word = false ∧ holdsMark ' ' more = false := by
  induction word generalizing before with
  | nil =>
      simp only [List.nil_append, holdsMark, Bool.or_eq_false_iff] at h
      exact ⟨rfl, h.2⟩
  | cons c word ih =>
      simp only [List.cons_append, holdsMark, Bool.or_eq_false_iff] at h ⊢
      obtain ⟨⟨hColon, hHash⟩, hRest⟩ := h
      have hParts := ih hRest
      refine ⟨⟨⟨?_, hHash⟩, hParts.1⟩, hParts.2⟩
      cases word with
      | nil => simpa [blankNext, isBlankOrBreak_space] using hColon
      | cons d word => simpa [blankNext] using hColon

theorem holdsMark_spaces {n : Nat} {more : List Char}
    (h : holdsMark ' ' (spaces n ++ more) = false) : holdsMark ' ' more = false := by
  induction n with
  | zero => simpa [spaces] using h
  | succ n ih =>
      simp only [spaces, List.replicate_succ, List.cons_append, holdsMark,
        Bool.or_eq_false_iff] at h
      exact ih h.2

/-- A word without blanks and marks is read as far as it goes. -/
theorem plainWord?_append {before : Char} {word rest : List Char}
    (hBlank : ∀ c ∈ word, isBlankOrBreak c = false) (hMark : holdsMark before word = false)
    (hRest : plainWord? false rest = some []) : plainWord? false (word ++ rest) = some word := by
  induction word generalizing before with
  | nil => exact hRest
  | cons c word ih =>
      simp only [holdsMark, Bool.or_eq_false_iff] at hMark
      obtain ⟨⟨hColon, -⟩, hMore⟩ := hMark
      have hIh := ih (fun d hd => hBlank d (by simp [hd])) hMore
      have hColon' : (c == ':' && blankNext (word ++ rest)) = false := by
        cases word with
        | nil => simp_all [blankNext]
        | cons d word => simpa [blankNext] using hColon
      simp [plainWord?, hBlank c (by simp), hColon', hIh]

/-- A text without quotes is one word, or a word, blanks and such a text again. -/
theorem IsBare.split {cs : List Char} (h : IsBare cs) :
    (∀ c ∈ cs, isBlankOrBreak c = false) ∨
      ∃ word n more, cs = word ++ spaces (n + 1) ++ more ∧ word ≠ [] ∧
        (∀ c ∈ word, isBlankOrBreak c = false) ∧ holdsMark ' ' word = false ∧ IsBare more := by
  have hSpace : ∀ c ∈ cs, isBlankOrBreak c = (c == ' ') := fun c hc =>
    isBlankOrBreak_of_isLineChar (h.chars c hc)
  by_cases hMem : ' ' ∈ cs
  case neg =>
    left
    intro c hc
    rw [hSpace c hc, beq_eq_false_iff_ne]
    rintro rfl
    exact hMem hc
  case pos =>
    right
    obtain ⟨word, more, rfl, hWord⟩ := List.eq_append_cons_of_mem hMem
    have hMarks := holdsMark_append_space h.unmarked
    have hMore := spaces_append_unindented more
    have hMarked : holdsMark ' ' (unindented more) = false := by
      rw [← hMore] at hMarks
      exact holdsMark_spaces hMarks.2
    have hHead : ∀ c ∈ (unindented more).head?, c ≠ ' ' := fun c hc => head_unindented hc
    have hNonempty : unindented more ≠ [] := by
      intro hNil
      rw [hNil, List.append_nil] at hMore
      have hLast := h.last
      rw [← hMore] at hLast
      have : (word ++ ' ' :: spaces (indentOf more)).getLast? = some ' ' := by
        have : ' ' :: spaces (indentOf more) = spaces (indentOf more) ++ [' '] := by
          simp [spaces, ← List.replicate_succ, ← List.replicate_succ']
        rw [this, ← List.append_assoc, List.getLast?_append]
        rfl
      exact hLast ' ' this rfl
    refine ⟨word, indentOf more, unindented more, ?_, ?_, ?_, hMarks.1, hNonempty, ?_, hHead, ?_,
      hMarked⟩
    · rw [spaces, List.replicate_succ, List.append_assoc, List.cons_append]
      exact congrArg (word ++ ' ' :: ·) hMore.symm
    · rintro rfl
      exact h.head ' ' rfl rfl
    · intro c hc
      rw [hSpace c (by simp [hc]), beq_eq_false_iff_ne]
      rintro rfl
      exact hWord hc
    · intro c hc
      refine h.chars c ?_
      rw [← hMore]
      simp [hc]
    · intro c hc
      refine h.last c ?_
      rw [← hMore]
      simp [List.getLast?_append, List.getLast?_cons, Option.mem_def.mp hc]

/-- What comes of a word: the gap behind it decides whether the scalar goes on. -/
theorem plainText?_word (indent : Nat) {c : Cursor} {word : List Char} {gap : Gap}
    (hMark : c.atMark = false) (hHash : c.at? '#' = false)
    (hWord : plainWord? false c.rest = some word) (hNonempty : word ≠ [])
    (hGap : Gap.read indent false (c.advance word.length) = gap) :
    plainText? false indent c =
      if gap.tabbed then none
      else if gap.stop.column < indent then some ⟨word, gap.stop, !gap.breaks.isEmpty⟩
      else
        match plainText? false indent gap.stop with
        | none => none
        | some ⟨[], stop, _⟩ => some ⟨word, stop, !gap.breaks.isEmpty⟩
        | some more => some ⟨word ++ gap.joined ++ more.text, more.stop, more.broken⟩ := by
  rw [plainText?.eq_def, if_neg (by simp [hMark, hHash])]
  split
  · next hNone => rw [hWord] at hNone; cases hNone
  · next hNil => rw [hWord] at hNil; cases hNil; exact absurd rfl hNonempty
  · next ch more hSome =>
      rw [hWord] at hSome
      cases hSome
      simp only [List.length_cons] at hGap
      cases hRest : plainText? false indent gap.stop with
      | none => simp [hGap, hRest]
      | some more =>
          obtain ⟨text, stop, broken⟩ := more
          cases text <;> simp [hGap, hRest]

/-- An end of scalars without quotes: at this place every word is the last one. -/
def EndsPlain (indent : Nat) (stop final : Cursor) (broken : Bool) : Prop :=
  plainWord? false stop.rest = some [] ∧
    ∀ (c : Cursor) (word : List Char), c.atMark = false → c.at? '#' = false → word ≠ [] →
      plainWord? false c.rest = some word → c.advance word.length = stop →
        plainText? false indent c = some ⟨word, final, broken⟩

/-- A text without quotes is read back up to an end. The words in front of the last one are followed
by a gap of blanks. -/
theorem plainText?_of_end {indent : Nat} {stop final : Cursor} {broken : Bool}
    (hEnd : EndsPlain indent stop final broken) {cs : List Char} (hBare : IsBare cs) {c : Cursor}
    (hRest : c.rest = cs ++ stop.rest) (hStop : c.advance cs.length = stop)
    (hMark : c.atMark = false) (hColumn : indent ≤ c.column + 1) :
    plainText? false indent c = some ⟨cs, final, broken⟩ := by
  induction hLength : cs.length using Nat.strongRecOn generalizing cs c with
  | _ length ih =>
  have hHash : c.at? '#' = false := by
    obtain ⟨d, ds, rfl⟩ := List.exists_cons_of_ne_nil hBare.nonempty
    have hUnmarked := hBare.unmarked
    simp only [holdsMark, isBlankOrBreak_space, Bool.and_true, Bool.or_eq_false_iff] at hUnmarked
    simpa [Cursor.at?, hRest] using hUnmarked.1.2
  rcases hBare.split with hWord | ⟨word, n, more, rfl, hNonempty, hWord, hUnmarked, hMore⟩
  · refine hEnd.2 c cs hMark hHash hBare.nonempty ?_ hStop
    rw [hRest]
    exact plainWord?_append hWord hBare.unmarked hEnd.1
  · have hRest' : c.rest = word ++ (spaces (n + 1) ++ (more ++ stop.rest)) := by
      simpa using hRest
    have hRead : plainWord? false c.rest = some word := by
      rw [hRest']
      refine plainWord?_append hWord hUnmarked ?_
      simp [spaces, List.replicate_succ, plainWord?, isBlankOrBreak_space]
    have hHead : ∀ ch ∈ (more ++ stop.rest).head?, isBlankOrBreak ch = false := by
      obtain ⟨d, ds, rfl⟩ := List.exists_cons_of_ne_nil hMore.nonempty
      intro ch hch
      cases Option.mem_def.mp hch
      rw [isBlankOrBreak_of_isLineChar (hMore.chars d (by simp)), beq_eq_false_iff_ne]
      exact hMore.head d rfl
    have hGap := Gap.read_spaces indent hHead (n + 1) (c.advance word.length) (by simp [hRest'])
    have hWordLength : 0 < word.length := List.length_pos_iff.mpr hNonempty
    have hNext : plainText? false indent ((c.advance word.length).advance (n + 1)) =
        some ⟨more, final, broken⟩ := by
      have hSpaces : (spaces (n + 1)).length = n + 1 := by simp [spaces]
      have hColumn : 0 < ((c.advance word.length).advance (n + 1)).column := by
        rw [Cursor.column_advance]
        omega
      have hIndented : indent ≤ ((c.advance word.length).advance (n + 1)).column + 1 := by
        rw [Cursor.column_advance, Cursor.column_advance]
        omega
      refine ih more.length (by simp only [← hLength, List.length_append, hSpaces]; omega) hMore
        ?_ ?_ (Cursor.atMark_of_column hColumn) hIndented rfl
      · rw [Cursor.rest_advance, Cursor.rest_advance, hRest', List.drop_left,
          List.drop_left' hSpaces]
      · rw [Cursor.advance_advance, Cursor.advance_advance, ← hStop]
        simp [hSpaces]
    rw [plainText?_word indent hMark hHash hRead hNonempty hGap, if_neg (by simp),
      if_neg (by simp; omega), hNext]
    obtain ⟨d, ds, rfl⟩ := List.exists_cons_of_ne_nil hMore.nonempty
    rfl

/-- A scalar ends with its line if the next line is indented less. -/
theorem endsPlain_lineEnd {indent : Nat} {stop : Cursor} {tail : List Char}
    (hRest : stop.rest = '\n' :: tail) (hTail : StartsLine tail) (hLess : indentOf tail < indent) :
    EndsPlain indent stop (stop.toNextLine tail) true := by
  refine ⟨by rw [hRest]; rfl, ?_⟩
  rintro c word hMark hHash hNonempty hWord rfl
  rw [plainText?_word indent hMark hHash hWord hNonempty (Gap.read_lineEnd indent hRest hTail)]
  simp [hLess]

/-- A scalar ends at a colon before a blank. -/
theorem endsPlain_colon {indent : Nat} {stop : Cursor} {rest : List Char}
    (hRest : stop.rest = ':' :: rest) (hBlank : blankNext rest = true)
    (hColumn : indent ≤ stop.column) (hPositive : 0 < stop.column) :
    EndsPlain indent stop stop false := by
  have hEmpty : plainWord? false stop.rest = some [] := by
    rw [hRest]
    simp [plainWord?, hBlank]
  have hNothing : plainText? false indent stop = some ⟨[], stop, false⟩ := by
    rw [plainText?.eq_def]
    have hHash : stop.at? '#' = false := by simp [Cursor.at?, hRest]
    rw [if_neg (by simp [Cursor.atMark_of_column hPositive, hHash])]
    split
    · next hNone => rw [hEmpty] at hNone; cases hNone
    · rfl
    · next hSome => rw [hEmpty] at hSome; cases hSome
  have hGap : Gap.read indent false stop = ⟨[], [], false, stop⟩ := by
    refine Gap.read_word indent false fun ch hch => ?_
    rw [hRest] at hch
    cases Option.mem_def.mp hch
    decide
  refine ⟨hEmpty, ?_⟩
  rintro c word hMark hHash hNonempty hWord rfl
  rw [plainText?_word indent hMark hHash hWord hNonempty hGap, if_neg (by simp),
    if_neg (Nat.not_lt.mpr hColumn), hNothing]
  rfl

/-! ## Scalars in single quotes -/

section SingleQuotes

variable {c : Cursor} {rest : List Char}

/-- A quote that is not doubled closes the text. -/
theorem singleQuoted?_close (hCursor : c.rest = '\'' :: rest) (hRest : rest.head? ≠ some '\'') :
    singleQuoted? c = some ([], c.advance 1) := by
  rw [singleQuoted?.eq_def]
  split <;> rename_i hEq <;> rw [hCursor] at hEq
  · cases hEq
  · cases hEq
    exact absurd rfl hRest
  · next hOther =>
      cases hEq
      exact absurd rfl hOther

/-- A doubled quote is a quote. -/
theorem singleQuoted?_quote (hCursor : c.rest = '\'' :: '\'' :: rest) :
    singleQuoted? c =
      (singleQuoted? (c.advance 2)).map fun (text, stop) => (['\''] ++ text, stop) := by
  rw [singleQuoted?.eq_def]
  split <;> rename_i hEq <;> rw [hCursor] at hEq
  · cases hEq
  · cases singleQuoted? (c.advance 2) <;> rfl
  · next hOther =>
      cases hEq
      exact absurd rfl (hOther rest)
  · next hOther =>
      cases hEq
      exact absurd rfl hOther

/-- A character of a word is itself. -/
theorem singleQuoted?_char {ch : Char} (hCursor : c.rest = ch :: rest) (hQuote : ch ≠ '\'')
    (hBlank : isBlankOrBreak ch = false) :
    singleQuoted? c =
      (singleQuoted? (c.advance 1)).map fun (text, stop) => ([ch] ++ text, stop) := by
  rw [singleQuoted?.eq_def]
  split <;> rename_i hEq <;> rw [hCursor] at hEq
  · cases hEq
  · cases hEq
    exact absurd rfl hQuote
  · cases hEq
    exact absurd rfl hQuote
  · cases hEq
    rw [dif_neg (by simp [hBlank])]
    cases singleQuoted? (c.advance 1) <;> rfl

/-- Blanks are themselves. -/
theorem singleQuoted?_spaces {n : Nat} (hCursor : c.rest = spaces (n + 1) ++ rest)
    (hRest : ∀ ch ∈ rest.head?, isBlankOrBreak ch = false) (hColumn : 0 < c.column) :
    singleQuoted? c =
      (singleQuoted? (c.advance (n + 1))).map
        fun (text, stop) => (spaces (n + 1) ++ text, stop) := by
  have hGap := Gap.read_spaces 0 hRest (n + 1) c hCursor
  have hMark : (c.advance (n + 1)).atMark = false := by
    apply Cursor.atMark_of_column
    rw [Cursor.column_advance]
    omega
  rw [spaces, List.replicate_succ, List.cons_append] at hCursor
  rw [singleQuoted?.eq_def]
  split <;> rename_i hEq <;> rw [hCursor] at hEq <;> cases hEq
  rw [dif_pos isBlankOrBreak_space, hGap]
  simp only [hMark, Bool.false_eq_true, if_false]
  cases singleQuoted? (c.advance (n + 1)) <;> rfl

end SingleQuotes

/-- Blanks need no escape. -/
theorem flatMap_doubleQuote_spaces (n : Nat) : (spaces n).flatMap doubleQuote = spaces n := by
  induction n with
  | zero => rfl
  | succ n ih =>
      rw [spaces, List.replicate_succ, List.flatMap_cons]
      exact congrArg (' ' :: ·) ih

theorem head?_doubled (cs rest : List Char) :
    (cs.flatMap doubleQuote ++ '\'' :: rest).head? = some (cs.head?.getD '\'') := by
  cases cs with
  | nil => rfl
  | cons c cs =>
      by_cases hQuote : c = '\'' <;> simp [doubleQuote, hQuote]

/-- The first piece of a text in single quotes: a quote, a character of a word, or some blanks. -/
theorem singleQuoted?_piece {cs rest : List Char} (hNonempty : cs ≠ [])
    (hChars : ∀ c ∈ cs, isLineChar c = true) {c : Cursor}
    (hCursor : c.rest = cs.flatMap doubleQuote ++ '\'' :: rest) (hColumn : 0 < c.column) :
    ∃ piece more, cs = piece ++ more ∧ piece ≠ [] ∧
      singleQuoted? c = (singleQuoted? (c.advance (piece.flatMap doubleQuote).length)).map
        fun (text, stop) => (piece ++ text, stop) := by
  obtain ⟨d, ds, rfl⟩ := List.exists_cons_of_ne_nil hNonempty
  by_cases hQuote : d = '\''
  · subst hQuote
    exact ⟨['\''], ds, rfl, by simp, singleQuoted?_quote (by simpa [doubleQuote] using hCursor)⟩
  · by_cases hSpace : d = ' '
    · subst hSpace
      have hSplit := spaces_append_unindented ds
      have hCons : ' ' :: ds = spaces (indentOf ds + 1) ++ unindented ds := by
        rw [spaces, List.replicate_succ, List.cons_append]
        exact congrArg (' ' :: ·) hSplit.symm
      refine ⟨spaces (indentOf ds + 1), unindented ds, hCons, by simp [spaces], ?_⟩
      rw [hCons, List.flatMap_append, flatMap_doubleQuote_spaces, List.append_assoc] at hCursor
      have hLength : ((spaces (indentOf ds + 1)).flatMap doubleQuote).length = indentOf ds + 1 := by
        rw [flatMap_doubleQuote_spaces, spaces, List.length_replicate]
      rw [hLength]
      refine singleQuoted?_spaces hCursor (fun ch hch => ?_) hColumn
      rw [head?_doubled] at hch
      cases hWords : (unindented ds).head? with
      | none =>
          rw [hWords] at hch
          cases Option.mem_def.mp hch
          decide
      | some w =>
          rw [hWords] at hch
          cases Option.mem_def.mp hch
          have hMem : w ∈ unindented ds := List.mem_of_head? hWords
          have hChar : isLineChar w = true := hChars w (by rw [hCons]; simp [hMem])
          rw [Option.getD_some, isBlankOrBreak_of_isLineChar hChar, beq_eq_false_iff_ne]
          exact head_unindented hWords
    · have hBlank : isBlankOrBreak d = false := by
        rw [isBlankOrBreak_of_isLineChar (hChars d (by simp)), beq_eq_false_iff_ne]
        exact hSpace
      refine ⟨[d], ds, rfl, by simp, ?_⟩
      have hOne : ([d].flatMap doubleQuote).length = 1 := by simp [doubleQuote, hQuote]
      rw [hOne]
      exact singleQuoted?_char (by simpa [doubleQuote, hQuote] using hCursor) hQuote hBlank

/-- A text in single quotes is read back up to its closing quote. -/
theorem singleQuoted?_doubled {cs rest : List Char} (hChars : ∀ c ∈ cs, isLineChar c = true)
    (hRest : rest.head? ≠ some '\'') {c : Cursor}
    (hCursor : c.rest = cs.flatMap doubleQuote ++ '\'' :: rest) (hColumn : 0 < c.column) :
    singleQuoted? c = some (cs, c.advance ((cs.flatMap doubleQuote).length + 1)) := by
  induction hLength : cs.length using Nat.strongRecOn generalizing cs c with
  | _ length ih =>
  by_cases hNil : cs = []
  · subst hNil
    exact singleQuoted?_close hCursor hRest
  · obtain ⟨piece, more, rfl, hPiece, hStep⟩ := singleQuoted?_piece hNil hChars hCursor hColumn
    have hPositive : 0 < piece.length := List.length_pos_iff.mpr hPiece
    have hMore : singleQuoted? (c.advance (piece.flatMap doubleQuote).length) =
        some (more, (c.advance (piece.flatMap doubleQuote).length).advance
          ((more.flatMap doubleQuote).length + 1)) := by
      refine ih more.length (by rw [← hLength, List.length_append]; omega)
        (fun c hc => hChars c (by simp [hc])) ?_ (by simp; omega) rfl
      rw [Cursor.rest_advance, hCursor, List.flatMap_append, List.append_assoc, List.drop_left]
    rw [hStep, hMore, Cursor.advance_advance, List.flatMap_append, List.length_append,
      Nat.add_assoc]
    rfl

end StateGuard.Yaml
