import StateGuard.Proofs.Yaml.Scanning

/-!
# The lines of a value and their tokens

The values whose scalars fit on a line are written line by line, and the scanner finds the tokens of
each line. `Scans` says so for a value in both of its positions: behind a key, where the dashes of a
sequence stand in the column of the key and no collection is opened for them, and by itself, as an
item. The law holds for what is written in front of any lines that are not indented further, so
that the lines of a collection follow from those of its parts.
-/

namespace StateGuard.Yaml

/-! ## Values of lines -/

/-- A scalar that is written on one line, without quotes or in single quotes. -/
structure Scalar.IsLine (leaf : Scalar) : Prop where
  tag : leaf.tag = none
  chars : ∀ c ∈ leaf.text.toList, isLineChar c = true
  style : leaf.style = .plain ∧ IsPlain leaf.text.toList ∨ leaf.style = .singleQuoted

/-- A key that is written without quotes and not too long. -/
structure IsKey (key : String) : Prop where
  plain : IsPlain key.toList
  short : key.toList.length ≤ maxKeyLength

/-- A value whose scalars fit on a line, and that has no empty mapping. -/
inductive IsWritable : Yaml → Prop
  | scalar {leaf : Scalar} : leaf.IsLine → IsWritable (.scalar leaf)
  | seq {items : List Yaml} : (∀ item ∈ items, IsWritable item) → IsWritable (.seq items)
  | map {entries : List (String × Yaml)} : entries ≠ [] → (∀ entry ∈ entries, IsKey entry.1) →
      (∀ entry ∈ entries, IsWritable entry.2) → IsWritable (.map entries)

/-- The tokens of a value by itself, given those of the value behind a key: a sequence that is not
empty is marked. -/
def asBlock (value : Yaml) (tokens : List Token) : List Token :=
  match value with
  | .seq (_ :: _) => .blockSequence :: tokens ++ [.blockEnd]
  | _ => tokens

mutual
/-- The tokens of a value behind a key. -/
def valueTokens : Yaml → List Token
  | .scalar leaf => [.scalar leaf.style leaf.text]
  | .seq [] => [.flowSequence, .flowSequenceEnd]
  | .seq (item :: items) => itemTokens (item :: items)
  | .map entries => .blockMapping :: entryTokens entries ++ [.blockEnd]
/-- The tokens of items. -/
def itemTokens : List Yaml → List Token
  | [] => []
  | item :: items => .item :: asBlock item (valueTokens item) ++ itemTokens items
/-- The tokens of entries. -/
def entryTokens : List (String × Yaml) → List Token
  | [] => []
  | (key, value) :: entries =>
    .key :: .scalar .plain key :: .value :: valueTokens value ++ entryTokens entries
end

/-! ## Scalars -/

/-- Nothing is indented in a text without line breaks. -/
theorem indentLines_of_line (indent : Nat) {cs : List Char} (h : ∀ c ∈ cs, isBreak c = false) :
    indentLines indent false cs = cs := by
  induction cs with
  | nil => rfl
  | cons c cs ih =>
      rw [indentLines, if_neg (by simp [h c]), ih fun d hd => h d (by simp [hd])]
      simp

/-- Doubling quotes keeps a text on its line. -/
theorem isLineChar_of_mem_doubled {cs : List Char} (h : ∀ c ∈ cs, isLineChar c = true) :
    ∀ c ∈ cs.flatMap doubleQuote ++ ['\''], isLineChar c = true := by
  intro c hc
  simp only [List.mem_append, List.mem_flatMap, List.mem_singleton] at hc
  rcases hc with ⟨d, hd, hc⟩ | rfl
  · unfold doubleQuote at hc
    split at hc
    · simp only [List.mem_cons, List.not_mem_nil, or_false, or_self] at hc
      rw [hc]
      decide
    · rw [List.mem_singleton.mp hc]
      exact h d hd
  · decide

theorem StartsWord.append {cs : List Char} (h : StartsWord cs) (hNonempty : cs ≠ [])
    (more : List Char) : StartsWord (cs ++ more) := by
  obtain ⟨c, rest, rfl⟩ := List.exists_cons_of_ne_nil hNonempty
  exact h

theorem IsPlain.startsWord {cs : List Char} (h : IsPlain cs) : StartsWord cs := by
  intro c hc
  have hChar : isLineChar c = true := h.chars c (List.mem_of_head? hc)
  refine ⟨?_, ?_, ?_⟩
  · rw [isBlankOrBreak_of_isLineChar hChar, beq_eq_false_iff_ne]
    exact h.head c hc
  · rintro rfl
    obtain ⟨d, rest, rfl⟩ := List.exists_cons_of_ne_nil h.nonempty
    cases Option.mem_def.mp hc
    have hStart := h.start
    simp [startsWithMark, reserved] at hStart
  · rintro rfl
    exact absurd hChar (by decide)

namespace Scalar.IsLine

variable {leaf : Scalar}

/-- A scalar of one line does not depend on its place. -/
theorem scalarText_eq (h : leaf.IsLine) (indent : Nat) :
    leaf.style = .plain ∧ IsPlain leaf.text.toList ∧ scalarText indent leaf = leaf.text.toList ∨
      leaf.style = .singleQuoted ∧
        scalarText indent leaf = '\'' :: (leaf.text.toList.flatMap doubleQuote ++ ['\'']) := by
  rcases h.style with ⟨hStyle, hPlain⟩ | hStyle
  · exact .inl ⟨hStyle, hPlain, by simp [scalarText, hStyle]⟩
  · refine .inr ⟨hStyle, ?_⟩
    rw [scalarText, hStyle]
    exact congrArg ('\'' :: ·) (indentLines_of_line indent fun c hc =>
      isBreak_of_isLineChar (isLineChar_of_mem_doubled h.chars c hc))

/-- A scalar of one line begins with a token. -/
theorem startsWord (h : leaf.IsLine) (indent : Nat) (more : List Char) :
    StartsWord (scalarText indent leaf ++ more) := by
  rcases h.scalarText_eq indent with ⟨-, hPlain, hText⟩ | ⟨-, hText⟩ <;> rw [hText]
  · exact hPlain.startsWord.append hPlain.nonempty more
  · intro c hc
    cases Option.mem_def.mp hc
    decide

theorem chars_scalarText (h : leaf.IsLine) (indent : Nat) :
    ∀ c ∈ scalarText indent leaf, isLineChar c = true := by
  rcases h.scalarText_eq indent with ⟨-, -, hText⟩ | ⟨-, hText⟩ <;> rw [hText]
  · exact h.chars
  · intro c hc
    rcases List.mem_cons.mp hc with rfl | hc
    · decide
    · exact isLineChar_of_mem_doubled h.chars c hc

/-- A line of a scalar is ended. -/
theorem endLine_eq (h : leaf.IsLine) (indent : Nat) (front : List Char) :
    endLine (front ++ scalarText indent leaf) = front ++ scalarText indent leaf ++ ['\n'] := by
  have hNonempty : scalarText indent leaf ≠ [] := by
    rcases h.scalarText_eq indent with ⟨-, hPlain, hText⟩ | ⟨-, hText⟩ <;> rw [hText]
    · exact hPlain.nonempty
    · simp
  have hLast : (front ++ scalarText indent leaf).getLast?.any isBreak = false := by
    obtain ⟨d, hd⟩ := Option.ne_none_iff_exists'.mp (List.getLast?_eq_none_iff.not.mpr hNonempty)
    rw [List.getLast?_append, hd]
    have := h.chars_scalarText indent d (List.mem_of_getLast? hd)
    simpa using isBreak_of_isLineChar this
  rw [endLine, hLast, if_neg (by simp)]

/-- A scalar of one line is scanned. -/
theorem scanned (h : leaf.IsLine) {s : Scan} {allowed : Bool} {indent column inner : Nat}
    {tail : List Char} {columns : List Nat} {tokens : List Token}
    (hAt : s.At allowed (scalarText indent leaf ++ '\n' :: tail) column (inner :: columns) tokens)
    (hColumn : inner < column) (hTail : StartsLine tail) (hIndent : indentOf tail ≤ inner) :
    ∃ after : Scan, s.run? = after.run? ∧
      after.At true (unindented tail) (indentOf tail) (inner :: columns)
        (tokens ++ [.scalar leaf.style leaf.text]) := by
  rcases h.scalarText_eq indent with ⟨hStyle, hPlain, hText⟩ | ⟨hStyle, hText⟩ <;>
    rw [hText] at hAt <;> rw [hStyle]
  · simpa using hAt.plain hPlain hColumn hTail hIndent
  · rw [List.cons_append, List.append_assoc] at hAt
    simpa using hAt.quoted h.chars hColumn hTail

end Scalar.IsLine

/-! ## Beginnings of lines -/

/-- The lines of a value by itself begin with its indentation and a token. -/
theorem IsWritable.block_begins {value : Yaml} (h : IsWritable value) (indent : Nat) :
    ∃ body, block indent value = spaces indent ++ body ∧ ∀ more, StartsWord (body ++ more) := by
  cases h with
  | @scalar leaf hLeaf =>
      refine ⟨scalarText indent leaf ++ ['\n'], ?_, fun more => ?_⟩
      · rw [block, hLeaf.endLine_eq, List.append_assoc]
      · rw [List.append_assoc]
        exact hLeaf.startsWord indent _
  | @seq items hItems =>
      cases items with
      | nil => exact ⟨['[', ']', '\n'], by rw [block], fun more c hc => by
          cases Option.mem_def.mp hc; decide⟩
      | cons item items =>
          refine ⟨_, by rw [block, itemLines, List.append_assoc], fun more c hc => ?_⟩
          cases Option.mem_def.mp hc
          decide
  | @map entries hNonempty hKeys hValues =>
      obtain ⟨⟨key, value⟩, entries, rfl⟩ := List.exists_cons_of_ne_nil hNonempty
      refine ⟨_, by rw [block, entryLines, List.append_assoc, List.append_assoc], fun more => ?_⟩
      have hKey := (hKeys (key, value) (by simp)).plain
      rw [List.append_assoc]
      exact hKey.startsWord.append hKey.nonempty _

/-- Behind the colon of a key there is a blank or the end of the line. -/
theorem IsWritable.blankNext_valueLines {value : Yaml} (h : IsWritable value) (indent : Nat)
    (more : List Char) : blankNext (valueLines indent value ++ more) = true := by
  cases h with
  | @scalar leaf hLeaf =>
      have hLine := hLeaf.endLine_eq (indent + 2) [' ']
      rw [List.singleton_append] at hLine
      rw [valueLines, hLine]
      rfl
  | @seq items hItems => cases items <;> rw [valueLines] <;> rfl
  | @map entries hNonempty hKeys hValues =>
      obtain ⟨entry, entries, rfl⟩ := List.exists_cons_of_ne_nil hNonempty
      rw [valueLines]
      rfl

theorem entryLines_cons (indent : Nat) (key : String) (value : Yaml)
    (entries : List (String × Yaml)) (tail : List Char) :
    entryLines indent ((key, value) :: entries) ++ tail = spaces indent ++
      (key.toList ++ ':' :: (valueLines indent value ++ (entryLines indent entries ++ tail))) := by
  simp [entryLines]

theorem itemLines_cons (indent : Nat) (item : Yaml) (items : List Yaml) (tail : List Char) :
    itemLines indent (item :: items) ++ tail = spaces indent ++ '-' :: ' ' ::
      ((block (indent + 2) item).drop (indent + 2) ++ (itemLines indent items ++ tail)) := by
  simp [itemLines]

theorem startsWord_dash (rest : List Char) : StartsWord ('-' :: rest) := by
  intro c hc
  cases Option.mem_def.mp hc
  decide

/-- The lines of entries begin in their column, and what stands behind them no further right. -/
theorem entryLines_begin {indent : Nat} {entries : List (String × Yaml)} {tail : List Char}
    (hKeys : ∀ entry ∈ entries, IsKey entry.1) (hTail : StartsLine tail)
    (hIndent : indentOf tail ≤ indent) :
    StartsLine (entryLines indent entries ++ tail) ∧
      indentOf (entryLines indent entries ++ tail) ≤ indent := by
  cases entries with
  | nil => exact ⟨hTail, hIndent⟩
  | cons entry entries =>
      have hKey := (hKeys entry (by simp)).plain
      have hWord := hKey.startsWord.append hKey.nonempty
      rw [entryLines_cons]
      exact ⟨startsLine_spaces indent (hWord _), (indentOf_spaces indent (hWord _)).le⟩

/-- The same for items. -/
theorem itemLines_begin {indent : Nat} (items : List Yaml) {tail : List Char}
    (hTail : StartsLine tail) (hIndent : indentOf tail ≤ indent) :
    StartsLine (itemLines indent items ++ tail) ∧
      indentOf (itemLines indent items ++ tail) ≤ indent := by
  cases items with
  | nil => exact ⟨hTail, hIndent⟩
  | cons item items =>
      rw [itemLines_cons]
      exact ⟨startsLine_spaces indent (startsWord_dash _),
        (indentOf_spaces indent (startsWord_dash _)).le⟩

/-! ## Tokens of lines -/

/-- The scanner finds the tokens of a value in front of lines that are not indented further, behind
a key and by itself. -/
structure Scans (value : Yaml) : Prop where
  behindKey {s : Scan} {indent column : Nat} {tail : List Char} {columns : List Nat}
    {tokens : List Token} :
    s.Here false (valueLines indent value ++ tail) column (indent :: columns) tokens →
      indent < column → StartsLine tail → indentOf tail ≤ indent →
        ∃ after : Scan, s.run? = after.run? ∧
          after.At true (unindented tail) (indentOf tail) (indent :: columns)
            (tokens ++ valueTokens value)
  byItself {s : Scan} {indent inner : Nat} {tail : List Char} {columns : List Nat}
    {tokens : List Token} :
    s.At true (unindented (block indent value ++ tail)) (indentOf (block indent value ++ tail))
        (inner :: columns) tokens →
      inner < indent → StartsLine tail → indentOf tail ≤ inner →
        ∃ after : Scan, s.run? = after.run? ∧
          after.At true (unindented tail) (indentOf tail) (inner :: columns)
            (tokens ++ asBlock value (valueTokens value))

/-- A collection that has been opened is open. -/
theorem Scan.exists_opened (columns : List Nat) (column : Nat) :
    ∃ outer, Scan.opened columns column = column :: outer := by
  unfold Scan.opened
  split
  · next hHead =>
      cases columns with
      | nil => cases hHead
      | cons d columns =>
          cases hHead
          exact ⟨columns, rfl⟩
  · exact ⟨columns, rfl⟩

theorem Scan.opened_head (column : Nat) (columns : List Nat) :
    Scan.opened (column :: columns) column = column :: columns := by
  simp [Scan.opened]

theorem Scan.openMark_head (column : Nat) (columns : List Nat) (mark : Token) :
    Scan.openMark (column :: columns) column mark = [] := by
  simp [Scan.openMark]

/-- The line of an entry, and those of its value. -/
theorem entry_scanned {s : Scan} {key : String} {value : Yaml} {indent : Nat} {tail : List Char}
    {columns : List Nat} {tokens : List Token} (hKey : IsKey key) (hWritable : IsWritable value)
    (hScans : Scans value)
    (hAt : s.At true (key.toList ++ ':' :: (valueLines indent value ++ tail)) indent columns tokens)
    (hColumns : ∀ d ∈ columns.head?, d ≤ indent) (hTail : StartsLine tail)
    (hIndent : indentOf tail ≤ indent) :
    ∃ after : Scan, s.run? = after.run? ∧
      after.At true (unindented tail) (indentOf tail) (Scan.opened columns indent)
        (tokens ++ Scan.openMark columns indent .blockMapping ++ entryTokens [(key, value)]) := by
  obtain ⟨keyed, hRun, hHere⟩ := hAt.key hColumns hKey.plain hKey.short
    (hWritable.blankNext_valueLines indent tail)
  obtain ⟨outer, hOpened⟩ := Scan.exists_opened columns indent
  rw [hOpened] at hHere ⊢
  obtain ⟨after, hAfter, hDone⟩ := hScans.behindKey hHere (by omega) hTail hIndent
  refine ⟨after, hRun.trans hAfter, ?_⟩
  simpa [entryTokens] using hDone

/-- The lines of the entries of a mapping, which is opened if it is not open. -/
theorem entries_scanned {indent : Nat} {tail : List Char} (hTail : StartsLine tail)
    (hIndent : indentOf tail ≤ indent) {entries : List (String × Yaml)} (hNonempty : entries ≠ [])
    (hKeys : ∀ entry ∈ entries, IsKey entry.1) (hWritable : ∀ entry ∈ entries, IsWritable entry.2)
    (hScans : ∀ entry ∈ entries, Scans entry.2) {s : Scan} {columns : List Nat}
    {tokens : List Token} (hColumns : ∀ d ∈ columns.head?, d ≤ indent)
    (hAt : s.At true (unindented (entryLines indent entries ++ tail))
      (indentOf (entryLines indent entries ++ tail)) columns tokens) :
    ∃ after : Scan, s.run? = after.run? ∧
      after.At true (unindented tail) (indentOf tail) (Scan.opened columns indent)
        (tokens ++ Scan.openMark columns indent .blockMapping ++ entryTokens entries) := by
  induction entries generalizing s columns tokens with
  | nil => exact absurd rfl hNonempty
  | cons entry entries ih =>
      obtain ⟨key, value⟩ := entry
      have hKey := hKeys (key, value) (by simp)
      have hMoreKeys : ∀ entry ∈ entries, IsKey entry.1 := fun entry h => hKeys entry (by simp [h])
      have hMore := entryLines_begin hMoreKeys hTail hIndent
      have hWord := hKey.plain.startsWord.append hKey.plain.nonempty
      rw [entryLines_cons, unindented_spaces indent (hWord _), indentOf_spaces indent (hWord _)]
        at hAt
      obtain ⟨middle, hRun, hMiddle⟩ := entry_scanned hKey (hWritable (key, value) (by simp))
        (hScans (key, value) (by simp)) hAt hColumns hMore.1 hMore.2
      by_cases hLast : entries = []
      · subst hLast
        exact ⟨middle, hRun, hMiddle⟩
      · obtain ⟨outer, hOpened⟩ := Scan.exists_opened columns indent
        rw [hOpened] at hMiddle ⊢
        obtain ⟨after, hAfter, hDone⟩ := ih hLast hMoreKeys
          (fun entry h => hWritable entry (by simp [h])) (fun entry h => hScans entry (by simp [h]))
          (by simp) hMiddle
        rw [Scan.opened_head, Scan.openMark_head, List.append_nil] at hDone
        refine ⟨after, hRun.trans hAfter, ?_⟩
        simpa [entryTokens] using hDone

/-- The first line of an item, and the others. -/
theorem item_scanned {s : Scan} {item : Yaml} {indent : Nat} {tail : List Char}
    {columns : List Nat} {tokens : List Token} (hWritable : IsWritable item) (hScans : Scans item)
    (hAt : s.At true ('-' :: ' ' :: ((block (indent + 2) item).drop (indent + 2) ++ tail)) indent
      columns tokens)
    (hColumns : ∀ d ∈ columns.head?, d ≤ indent) (hTail : StartsLine tail)
    (hIndent : indentOf tail ≤ indent) :
    ∃ after : Scan, s.run? = after.run? ∧
      after.At true (unindented tail) (indentOf tail) (Scan.opened columns indent)
        (tokens ++ Scan.openMark columns indent .blockSequence ++ itemTokens [item]) := by
  obtain ⟨body, hBody, hWord⟩ := hWritable.block_begins (indent + 2)
  have hDrop : (block (indent + 2) item).drop (indent + 2) = body := by
    rw [hBody]
    exact List.drop_left' (by simp [spaces])
  rw [hDrop] at hAt
  obtain ⟨dashed, hRun, hDashed⟩ := hAt.item hColumns (hWord tail)
  obtain ⟨outer, hOpened⟩ := Scan.exists_opened columns indent
  rw [hOpened] at hDashed ⊢
  have hBlock : dashed.At true (unindented (block (indent + 2) item ++ tail))
      (indentOf (block (indent + 2) item ++ tail)) (indent :: outer)
      (tokens ++ Scan.openMark columns indent .blockSequence ++ [.item]) := by
    rw [hBody, List.append_assoc, unindented_spaces _ (hWord tail), indentOf_spaces _ (hWord tail)]
    exact hDashed
  obtain ⟨after, hAfter, hDone⟩ := hScans.byItself hBlock (by omega) hTail hIndent
  refine ⟨after, hRun.trans hAfter, ?_⟩
  simpa [itemTokens] using hDone

/-- The lines of the items of a sequence. It is opened if no collection is open in its column. -/
theorem items_scanned {indent : Nat} {tail : List Char} (hTail : StartsLine tail)
    (hIndent : indentOf tail ≤ indent) {items : List Yaml} (hNonempty : items ≠ [])
    (hWritable : ∀ item ∈ items, IsWritable item) (hScans : ∀ item ∈ items, Scans item) {s : Scan}
    {columns : List Nat} {tokens : List Token} (hColumns : ∀ d ∈ columns.head?, d ≤ indent)
    (hAt : s.At true (unindented (itemLines indent items ++ tail))
      (indentOf (itemLines indent items ++ tail)) columns tokens) :
    ∃ after : Scan, s.run? = after.run? ∧
      after.At true (unindented tail) (indentOf tail) (Scan.opened columns indent)
        (tokens ++ Scan.openMark columns indent .blockSequence ++ itemTokens items) := by
  induction items generalizing s columns tokens with
  | nil => exact absurd rfl hNonempty
  | cons item items ih =>
      have hMore := itemLines_begin items hTail hIndent
      rw [itemLines_cons, unindented_spaces indent (startsWord_dash _),
        indentOf_spaces indent (startsWord_dash _)] at hAt
      obtain ⟨middle, hRun, hMiddle⟩ := item_scanned (hWritable item (by simp))
        (hScans item (by simp)) hAt hColumns hMore.1 hMore.2
      by_cases hLast : items = []
      · subst hLast
        exact ⟨middle, hRun, hMiddle⟩
      · obtain ⟨outer, hOpened⟩ := Scan.exists_opened columns indent
        rw [hOpened] at hMiddle ⊢
        obtain ⟨after, hAfter, hDone⟩ := ih hLast (fun item h => hWritable item (by simp [h]))
          (fun item h => hScans item (by simp [h])) (by simp) hMiddle
        rw [Scan.opened_head, Scan.openMark_head, List.append_nil] at hDone
        refine ⟨after, hRun.trans hAfter, ?_⟩
        simpa [itemTokens] using hDone

theorem Scan.opened_inner {inner column : Nat} (columns : List Nat) (h : inner < column) :
    Scan.opened (inner :: columns) column = column :: inner :: columns := by
  simp [Scan.opened]
  omega

theorem Scan.openMark_inner {inner column : Nat} (columns : List Nat) (mark : Token)
    (h : inner < column) : Scan.openMark (inner :: columns) column mark = [mark] := by
  simp [Scan.openMark]
  omega

/-- The value of a scalar is scanned. -/
theorem Scalar.IsLine.scans {leaf : Scalar} (h : leaf.IsLine) : Scans (.scalar leaf) := by
  refine ⟨?_, ?_⟩
  · intro s indent column tail columns tokens hHere hColumn hTail hIndent
    have hLine := h.endLine_eq (indent + 2) [' ']
    rw [List.singleton_append] at hLine
    rw [valueLines, hLine, List.append_assoc, List.cons_append] at hHere
    exact h.scanned (hHere.sameLine (h.startsWord _ _)) (by omega) hTail hIndent
  · intro s indent inner tail columns tokens hAt hColumn hTail hIndent
    rw [block, h.endLine_eq, List.append_assoc, List.append_assoc,
      unindented_spaces indent (h.startsWord _ _), indentOf_spaces indent (h.startsWord _ _)] at hAt
    exact h.scanned hAt hColumn hTail hIndent

/-- An empty sequence is scanned. -/
theorem scans_empty : Scans (.seq []) := by
  have hWord (tail : List Char) : StartsWord ('[' :: tail) := by
    intro c hc
    cases Option.mem_def.mp hc
    decide
  refine ⟨?_, ?_⟩
  · intro s indent column tail columns tokens hHere hColumn hTail hIndent
    rw [valueLines] at hHere
    exact (hHere.sameLine (hWord _)).brackets (by omega) hTail
  · intro s indent inner tail columns tokens hAt hColumn hTail hIndent
    rw [block, List.append_assoc, List.cons_append, unindented_spaces indent (hWord _),
      indentOf_spaces indent (hWord _)] at hAt
    exact hAt.brackets hColumn hTail

/-- **The scanner finds the tokens of every value of lines.** -/
theorem IsWritable.scans {value : Yaml} (h : IsWritable value) : Scans value := by
  induction h with
  | scalar hLeaf => exact hLeaf.scans
  | @seq items hItems ih =>
      by_cases hNil : items = []
      · subst hNil
        exact scans_empty
      · obtain ⟨item, items, rfl⟩ := List.exists_cons_of_ne_nil hNil
        refine ⟨?_, ?_⟩
        · intro s indent column tail columns tokens hHere hColumn hTail hIndent
          have hLines := itemLines_begin (item :: items) hTail hIndent
          rw [valueLines, List.cons_append] at hHere
          have hDone := items_scanned hTail hIndent hNil hItems ih (by simp)
            (hHere.nextLine hLines.1)
          rwa [Scan.opened_head, Scan.openMark_head, List.append_nil] at hDone
        · intro s indent inner tail columns tokens hAt hColumn hTail hIndent
          rw [block] at hAt
          obtain ⟨after, hRun, hDone⟩ := items_scanned hTail (by omega) hNil hItems ih
            (by simp; omega) hAt
          rw [Scan.opened_inner columns hColumn, Scan.openMark_inner columns _ hColumn] at hDone
          refine ⟨after, hRun, ?_⟩
          simpa [asBlock, valueTokens] using hDone.close (by omega)
  | @map entries hNonempty hKeys hValues ih =>
      obtain ⟨entry, entries, rfl⟩ := List.exists_cons_of_ne_nil hNonempty
      refine ⟨?_, ?_⟩
      · intro s indent column tail columns tokens hHere hColumn hTail hIndent
        have hLines := entryLines_begin hKeys hTail (show indentOf tail ≤ indent + 2 by omega)
        rw [valueLines, List.cons_append] at hHere
        obtain ⟨after, hRun, hDone⟩ := entries_scanned hTail (by omega) hNonempty hKeys hValues ih
          (by simp) (hHere.nextLine hLines.1)
        rw [Scan.opened_inner columns (by omega), Scan.openMark_inner columns _ (by omega)] at hDone
        refine ⟨after, hRun, ?_⟩
        simpa [valueTokens] using hDone.close (by omega)
      · intro s indent inner tail columns tokens hAt hColumn hTail hIndent
        rw [block] at hAt
        obtain ⟨after, hRun, hDone⟩ := entries_scanned hTail (by omega) hNonempty hKeys hValues ih
          (by simp; omega) hAt
        rw [Scan.opened_inner columns hColumn, Scan.openMark_inner columns _ hColumn] at hDone
        refine ⟨after, hRun, ?_⟩
        simpa [asBlock, valueTokens] using hDone.close (by omega)

/-! ## Documents -/

/-- The characters of written lines are allowed in a document. -/
structure Allows (value : Yaml) : Prop where
  behindKey (indent : Nat) : ∀ c ∈ valueLines indent value, isAllowed c = true
  byItself (indent : Nat) : ∀ c ∈ block indent value, isAllowed c = true

theorem isAllowed_spaces (indent : Nat) : ∀ c ∈ spaces indent, isAllowed c = true := by
  intro c hc
  rw [List.eq_of_mem_replicate hc]
  decide

theorem entryLines_allowed (indent : Nat) {entries : List (String × Yaml)}
    (hKeys : ∀ entry ∈ entries, IsKey entry.1) (hAllows : ∀ entry ∈ entries, Allows entry.2) :
    ∀ c ∈ entryLines indent entries, isAllowed c = true := by
  induction entries with
  | nil => simp [entryLines]
  | cons entry entries ih =>
      intro c hc
      simp only [entryLines, List.mem_append, List.mem_cons] at hc
      rcases hc with ((hc | hc) | rfl | hc) | hc
      · exact isAllowed_spaces indent c hc
      · exact isAllowed_of_isLineChar ((hKeys entry (by simp)).plain.chars c hc)
      · decide
      · exact (hAllows entry (by simp)).behindKey indent c hc
      · exact ih (fun entry h => hKeys entry (by simp [h]))
          (fun entry h => hAllows entry (by simp [h])) c hc

theorem itemLines_allowed (indent : Nat) {items : List Yaml}
    (hAllows : ∀ item ∈ items, Allows item) :
    ∀ c ∈ itemLines indent items, isAllowed c = true := by
  induction items with
  | nil => simp [itemLines]
  | cons item items ih =>
      intro c hc
      simp only [itemLines, List.mem_append, List.mem_cons] at hc
      rcases hc with (hc | rfl | rfl | hc) | hc
      · exact isAllowed_spaces indent c hc
      · decide
      · decide
      · exact (hAllows item (by simp)).byItself (indent + 2) c (List.mem_of_mem_drop hc)
      · exact ih (fun item h => hAllows item (by simp [h])) c hc

theorem IsWritable.allows {value : Yaml} (h : IsWritable value) : Allows value := by
  induction h with
  | @scalar leaf hLeaf =>
      have hText (indent : Nat) (c : Char) (hc : c ∈ scalarText indent leaf) :
          isAllowed c = true := isAllowed_of_isLineChar (hLeaf.chars_scalarText indent c hc)
      refine ⟨fun indent c hc => ?_, fun indent c hc => ?_⟩
      · have hLine := hLeaf.endLine_eq (indent + 2) [' ']
        rw [List.singleton_append] at hLine
        rw [valueLines, hLine] at hc
        simp only [List.cons_append, List.mem_cons, List.mem_append, List.not_mem_nil,
          or_false] at hc
        rcases hc with rfl | hc | rfl
        · decide
        · exact hText _ c hc
        · decide
      · rw [block, hLeaf.endLine_eq] at hc
        simp only [List.mem_append, List.mem_singleton] at hc
        rcases hc with (hc | hc) | rfl
        · exact isAllowed_spaces indent c hc
        · exact hText _ c hc
        · decide
  | @seq items hItems ih =>
      have hLines (indent : Nat) := itemLines_allowed indent ih
      cases items with
      | nil =>
          refine ⟨fun indent => ?_, fun indent c hc => ?_⟩
          · rw [valueLines]
            exact List.all_eq_true.1 (by decide)
          · rw [block, List.mem_append] at hc
            rcases hc with hc | hc
            · exact isAllowed_spaces indent c hc
            · exact List.all_eq_true.1 (by decide) c hc
      | cons item items =>
          refine ⟨fun indent c hc => ?_, fun indent c hc => ?_⟩
          · rw [valueLines] at hc
            rcases List.mem_cons.mp hc with rfl | hc
            · decide
            · exact hLines indent c hc
          · rw [block] at hc
            exact hLines indent c hc
  | @map entries hNonempty hKeys hValues ih =>
      have hLines (indent : Nat) := entryLines_allowed indent hKeys ih
      obtain ⟨entry, entries, rfl⟩ := List.exists_cons_of_ne_nil hNonempty
      refine ⟨fun indent c hc => ?_, fun indent c hc => ?_⟩
      · rw [valueLines] at hc
        rcases List.mem_cons.mp hc with rfl | hc
        · decide
        · exact hLines _ c hc
      · rw [block] at hc
        exact hLines indent c hc

/-- **The tokens of a written mapping are the tokens of its entries.** -/
theorem tokens?_block {entries : List (String × Yaml)} (h : IsWritable (.map entries)) :
    tokens? (block 0 (.map entries)) = some (valueTokens (.map entries)) := by
  cases h with
  | map hNonempty hKeys hValues =>
      have hWritable : IsWritable (.map entries) := .map hNonempty hKeys hValues
      have hAllowed : (block 0 (.map entries)).all isAllowed = true :=
        List.all_eq_true.mpr (hWritable.allows.byItself 0)
      have hLines : block 0 (.map entries) = entryLines 0 entries ++ [] := by
        obtain ⟨entry, more, rfl⟩ := List.exists_cons_of_ne_nil hNonempty
        rw [block, List.append_nil]
      rw [tokens?, if_pos hAllowed, hLines]
      have hBegin := entryLines_begin hKeys startsLine_nil (Nat.le_refl 0)
      have hStart : ({ cursor := ⟨entryLines 0 entries ++ [], 0, 0, 0⟩ } : Scan).At true
          (unindented (entryLines 0 entries ++ [])) (indentOf (entryLines 0 entries ++ [])) [] [] :=
        ⟨⟨_, Scan.skip_spaces false true (spaces_append_unindented _).symm hBegin.1,
          drop_indentOf _, by simp, rfl⟩, rfl, [], rfl, by simp, rfl⟩
      obtain ⟨after, hRun, hAfter⟩ := entries_scanned startsLine_nil (Nat.le_refl 0) hNonempty hKeys
        hValues (fun entry h => (hValues entry h).scans) (by simp) hStart
      rw [hRun, hAfter.finish (by simp [Scan.opened])]
      simp [Scan.opened, Scan.openMark, valueTokens]

end StateGuard.Yaml
