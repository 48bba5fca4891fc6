import StateGuard.Proofs.Json.Texts

/-!
# Texts of JSON values

A value that is written is read back.  The grammar keeps texts and numbers as they are written, so
there are two steps: the text of a value is read as the value in its written form, and the written
form stands for the value.  Only the first has to know where a value ends in a longer text: before
anything that does not go on with a number.

A reader that passes over some members finds the value without them.

## Main results

* `Raw.isRead`, `Raw.read?_write`: a value is read in its written form.
* `Raw.isResolved`: the written form of a value that does not nest too deep stands for it.
-/

namespace StateGuard.Json

/-! ## Blanks -/

/-- A character between the tokens of a document. -/
def isBlank (c : Char) : Bool := c == ' ' || c == '\n' || c == '\t' || c == '\r'

/-- Nothing but blanks. -/
def AllBlank (blanks : List Char) : Prop := ∀ c ∈ blanks, isBlank c = true

/-- A text that does not go on with blanks. -/
def EndsBlanks (rest : List Char) : Prop := ∀ c ∈ rest.head?, isBlank c = false

theorem spaceCount_append {blanks rest : List Char} (hBlanks : AllBlank blanks)
    (hRest : EndsBlanks rest) : spaceCount (blanks ++ rest) = blanks.length := by
  have hNone : rest.takeWhile isBlank = [] := by
    cases rest with
    | nil => rfl
    | cons c rest => simp [hRest c rfl]
  show ((blanks ++ rest).takeWhile isBlank).length = _
  rw [List.takeWhile_append_of_pos hBlanks, hNone, List.append_nil]

theorem endsBlanks_cons {c : Char} (h : isBlank c = false) (rest : List Char) :
    EndsBlanks (c :: rest) := by
  intro d hd
  obtain rfl : c = d := by simpa using hd
  exact h

/-- The first character of an integer is no other than its sign or a digit. -/
theorem ne_of_isDigit {c : Char} (hc : c = '-' ∨ c.isDigit = true) (d : Char) (hMinus : d ≠ '-')
    (hDigit : d.isDigit = false) : c ≠ d := by
  rintro rfl
  simp [hMinus, hDigit] at hc

/-! ## Items and members -/

namespace Raw

/-- One item and what follows it. -/
theorem items_step {cs : List Char} {item : Raw} {blanks length gap : Nat}
    (hBlanks : spaceCount cs = blanks) (hValue : value? (cs.drop blanks) = some (item, length))
    (hGap : spaceCount (cs.drop (blanks + length)) = gap) :
    items cs =
      match cs.drop (blanks + length + gap) with
      | ',' :: rest =>
        (item :: (items rest).1, (items rest).2.map (blanks + length + gap + 1 + ·))
      | ']' :: _ => ([item], some (blanks + length + gap + 1))
      | _ => ([item], none) := by
  subst hBlanks hGap
  rw [items]
  simp only [hValue]
  split <;> simp [*]

/-- One member and what follows it. -/
theorem members_step {cs rest : List Char} {value : Raw} {blanks key before after length gap : Nat}
    (hBlanks : spaceCount cs = blanks) (hQuote : cs.drop blanks = '"' :: rest)
    (hKey : textLength? rest = some key)
    (hBefore : spaceCount (cs.drop (blanks + key + 2)) = before)
    (hColon : (cs.drop (blanks + key + 2 + before)).head? = some ':')
    (hAfter : spaceCount (cs.drop (blanks + key + 2 + before + 1)) = after)
    (hValue : value? (cs.drop (blanks + key + 2 + before + 1 + after)) = some (value, length))
    (hGap : spaceCount (cs.drop (blanks + key + 2 + before + 1 + after + length)) = gap) :
    members cs =
      match cs.drop (blanks + key + 2 + before + 1 + after + length + gap) with
      | ',' :: others =>
        ((rest.take key, value) :: (members others).1,
          (members others).2.map (blanks + key + 2 + before + 1 + after + length + gap + 1 + ·))
      | '\x7d' :: _ =>
        ([(rest.take key, value)], some (blanks + key + 2 + before + 1 + after + length + gap + 1))
      | _ => ([(rest.take key, value)], none) := by
  subst hBlanks hBefore hAfter hGap
  rw [members]
  simp only [hQuote, hKey, hColon, hValue]
  simp
  split <;> simp [*]


/-- One item between blanks, and the mark after it. -/
theorem items_append {blanks text gap rest : List Char} {c : Char} {item : Raw}
    (hBlanks : AllBlank blanks) (hGap : AllBlank gap)
    (hText : EndsBlanks (text ++ (gap ++ c :: rest))) (hMark : isBlank c = false)
    (hValue : value? (text ++ (gap ++ c :: rest)) = some (item, text.length)) :
    items (blanks ++ (text ++ (gap ++ c :: rest))) =
      match c :: rest with
      | ',' :: rest =>
        (item :: (items rest).1,
          (items rest).2.map (blanks.length + text.length + gap.length + 1 + ·))
      | ']' :: _ => ([item], some (blanks.length + text.length + gap.length + 1))
      | _ => ([item], none) := by
  have hAfter : (blanks ++ (text ++ (gap ++ c :: rest))).drop (blanks.length + text.length) =
      gap ++ c :: rest := by
    rw [← List.drop_drop, List.drop_left, List.drop_left]
  have hRest : (blanks ++ (text ++ (gap ++ c :: rest))).drop
      (blanks.length + text.length + gap.length) = c :: rest := by
    rw [← List.drop_drop, hAfter, List.drop_left]
  have hValueAt : value? ((blanks ++ (text ++ (gap ++ c :: rest))).drop blanks.length) =
      some (item, text.length) := by
    rw [List.drop_left, hValue]
  have hGapAt : spaceCount ((blanks ++ (text ++ (gap ++ c :: rest))).drop
      (blanks.length + text.length)) = gap.length := by
    rw [hAfter]
    exact spaceCount_append hGap (endsBlanks_cons hMark rest)
  rw [items_step (spaceCount_append hBlanks hText) hValueAt hGapAt, hRest]

/-- One member between blanks, and the mark after it. -/
theorem members_append {blanks key text gap rest : List Char} {c : Char} {value : Raw}
    (hBlanks : AllBlank blanks) (hGap : AllBlank gap)
    (hKey : ∀ rest, textLength? (key ++ '"' :: rest) = some key.length)
    (hText : EndsBlanks (text ++ (gap ++ c :: rest))) (hMark : isBlank c = false)
    (hValue : value? (text ++ (gap ++ c :: rest)) = some (value, text.length)) :
    members (blanks ++ ('"' :: (key ++ ('"' :: ':' :: ' ' :: (text ++ (gap ++ c :: rest)))))) =
      match c :: rest with
      | ',' :: rest =>
        ((key, value) :: (members rest).1, (members rest).2.map
          (blanks.length + key.length + text.length + gap.length + 5 + ·))
      | '\x7d' :: _ =>
        ([(key, value)], some (blanks.length + key.length + text.length + gap.length + 5))
      | _ => ([(key, value)], none) := by
  have hQuote : (blanks ++ ('"' :: (key ++ ('"' :: ':' :: ' ' ::
      (text ++ (gap ++ c :: rest)))))).drop blanks.length = _ := List.drop_left
  have hFirst := spaceCount_append hBlanks (endsBlanks_cons (c := '"') (by decide)
    (key ++ ('"' :: ':' :: ' ' :: (text ++ (gap ++ c :: rest)))))
  -- What is left after the key, after the colon, after the blank, after the value and at the mark.
  have hColon : (blanks ++ ('"' :: (key ++ ('"' :: ':' :: ' ' ::
      (text ++ (gap ++ c :: rest)))))).drop (blanks.length + key.length + 2) =
      ':' :: ' ' :: (text ++ (gap ++ c :: rest)) := by
    have hSplit : blanks ++ ('"' :: (key ++ ('"' :: ':' :: ' ' :: (text ++ (gap ++ c :: rest))))) =
        (blanks ++ ('"' :: (key ++ ['"']))) ++ (':' :: ' ' :: (text ++ (gap ++ c :: rest))) := by
      simp
    rw [hSplit, List.drop_left']
    simp only [List.length_append, List.length_cons, List.length_nil]
    omega
  generalize blanks ++ ('"' :: (key ++ ('"' :: ':' :: ' ' :: (text ++ (gap ++ c :: rest))))) = cs
    at hQuote hFirst hColon ⊢
  have hSpace : cs.drop (blanks.length + key.length + 2 + 0 + 1) =
      ' ' :: (text ++ (gap ++ c :: rest)) := by
    rw [Nat.add_zero, ← List.drop_drop (i := 1), hColon]
    rfl
  have hBegin : cs.drop (blanks.length + key.length + 2 + 0 + 1 + 1) =
      text ++ (gap ++ c :: rest) := by
    rw [← List.drop_drop, hSpace]
    rfl
  have hStop : cs.drop (blanks.length + key.length + 2 + 0 + 1 + 1 + text.length) =
      gap ++ c :: rest := by
    rw [← List.drop_drop, hBegin, List.drop_left]
  have hEnd : cs.drop (blanks.length + key.length + 2 + 0 + 1 + 1 + text.length + gap.length) =
      c :: rest := by
    rw [← List.drop_drop, hStop, List.drop_left]
  -- How many blanks there are at each of these places.
  have hBefore : spaceCount (cs.drop (blanks.length + key.length + 2)) = 0 := by
    rw [hColon]
    rfl
  have hMiddle : (cs.drop (blanks.length + key.length + 2 + 0)).head? = some ':' := by
    rw [Nat.add_zero, hColon]
    rfl
  have hAfter : spaceCount (cs.drop (blanks.length + key.length + 2 + 0 + 1)) = 1 := by
    have hOne : AllBlank [' '] := by simp [AllBlank, isBlank]
    rw [hSpace]
    exact spaceCount_append hOne hText
  have hGapAt : spaceCount (cs.drop (blanks.length + key.length + 2 + 0 + 1 + 1 + text.length)) =
      gap.length := by
    rw [hStop]
    exact spaceCount_append hGap (endsBlanks_cons hMark rest)
  have hSum : blanks.length + key.length + 2 + 0 + 1 + 1 + text.length + gap.length + 1 =
      blanks.length + key.length + text.length + gap.length + 5 := by omega
  rw [members_step hFirst hQuote (hKey _) hBefore hMiddle hAfter (by rw [hBegin, hValue]) hGapAt,
    hEnd, hSum, List.take_left]

/-! ## Values -/

mutual
/-- A value in its written form. -/
def ofJson : Json → Raw
  | .null => .null
  | .bool value => .bool value
  | .int value => .number (digits value)
  | .real source => .number source.toList
  | .str value => .text (escape value.toList)
  | .arr items => .arr (ofItems items)
  | .obj members => .obj (ofMembers members)
/-- The items of an array in their written form. -/
def ofItems : List Json → List Raw
  | [] => []
  | item :: items => ofJson item :: ofItems items
/-- The members of an object in their written form. -/
def ofMembers : List (String × Json) → List (List Char × Raw)
  | [] => []
  | (key, value) :: members => (escape key.toList, ofJson value) :: ofMembers members
end

end Raw

/-- All numbers of a value are integers that are kept as such. -/
inductive IsWhole : Json → Prop where
  | null : IsWhole .null
  | bool (value : Bool) : IsWhole (.bool value)
  | int {value : Int} (hMin : minInt ≤ value) (hMax : value ≤ maxInt) : IsWhole (.int value)
  | str (value : String) : IsWhole (.str value)
  | arr {items : List Json} (h : ∀ item ∈ items, IsWhole item) : IsWhole (.arr items)
  | obj {members : List (String × Json)} (h : ∀ member ∈ members, IsWhole member.2) :
      IsWhole (.obj members)

section Written

theorem toList_newLine (level : Nat) :
    (newLine level).toList = '\n' :: List.replicate (2 * level) ' ' := by
  have hList : (String.ofList (List.replicate (2 * level) ' ')).toList =
      List.replicate (2 * level) ' ' := String.toList_ofList
  rw [newLine, String.toList_append, hList]
  rfl

theorem allBlank_newLine (level : Nat) : AllBlank (newLine level).toList := by
  intro c h
  rw [toList_newLine] at h
  rcases List.mem_cons.1 h with rfl | hSpace
  · rfl
  · rw [List.eq_of_mem_replicate hSpace]
    rfl

theorem toList_quote (text : String) :
    (quote text).toList = '"' :: (escape text.toList ++ ['"']) := by
  simp [quote, escape]

end Written

namespace Raw

/-- The text of a value begins with something else than a blank or a closing bracket. -/
theorem exists_writeAt_eq_cons {json : Json} (h : json.IsWhole) (level : Nat) :
    ∃ c tail, (writeAt level json).toList = c :: tail ∧ isBlank c = false ∧ c ≠ ']' := by
  cases h with
  | null => exact ⟨'n', _, by rw [writeAt]; rfl, by decide, by decide⟩
  | bool value =>
      cases value with
      | true => exact ⟨'t', _, by rw [writeAt]; rfl, by decide, by decide⟩
      | false => exact ⟨'f', _, by rw [writeAt]; rfl, by decide, by decide⟩
  | @int value _ _ =>
      obtain ⟨c, tail, hDigits, hFirst⟩ := exists_digits_eq_cons value
      refine ⟨c, tail, by rw [writeAt, toList_toString_int, hDigits], ?_⟩
      have hNe : ∀ d, d ≠ '-' → d.isDigit = false → c ≠ d := ne_of_isDigit hFirst
      simp [isBlank, hNe]
  | str value => exact ⟨'"', _, by rw [writeAt, toList_quote], by decide, by decide⟩
  | @arr items _ =>
      refine ⟨'[', (writeAt level (.arr items)).toList.tail, ?_, by decide, by decide⟩
      cases items with
      | nil => rw [writeAt]; rfl
      | cons item items => simp [writeAt]
  | @obj members _ =>
      refine ⟨'\x7b', (writeAt level (.obj members)).toList.tail, ?_, by decide, by decide⟩
      cases members with
      | nil => rw [writeAt]; rfl
      | cons member members => simp [writeAt]

/-- A value is read in its written form from any text that begins with it and does not go on with a
number. -/
def IsRead (json : Json) : Prop :=
  ∀ (level : Nat) {rest : List Char}, EndsNumber rest →
    value? ((writeAt level json).toList ++ rest) =
      some (ofJson json, (writeAt level json).toList.length)

/-- A number ends before a comma or a closing bracket, whether or not blanks come first. -/
theorem endsNumber_gap {gap : List Char} (hGap : AllBlank gap) {c : Char}
    (hc : c ∈ [',', ']', '\x7d']) (rest : List Char) : EndsNumber (gap ++ c :: rest) := by
  have hMarks : ∀ d ∈ [',', ']', '\x7d', ' ', '\n', '\t', '\r'],
      d.isDigit = false ∧ d ≠ '.' ∧ d ≠ 'e' ∧ d ≠ 'E' := by simp
  cases gap with
  | nil =>
      intro d hd
      obtain rfl : c = d := by simpa using hd
      refine hMarks c ?_
      simp only [List.mem_cons, List.not_mem_nil, or_false] at hc
      rcases hc with rfl | rfl | rfl <;> simp
  | cons blank gap =>
      intro d hd
      obtain rfl : blank = d := by simpa using hd
      have hBlank := hGap blank List.mem_cons_self
      refine hMarks blank ?_
      simp only [isBlank, Bool.or_eq_true, beq_iff_eq] at hBlank
      rcases hBlank with ((rfl | rfl) | rfl) | rfl <;> simp

theorem endsBlanks_writeAt {json : Json} (h : json.IsWhole) (level : Nat) (rest : List Char) :
    EndsBlanks ((writeAt level json).toList ++ rest) := by
  obtain ⟨c, tail, hText, hBlank, -⟩ := exists_writeAt_eq_cons h level
  rw [hText]
  exact endsBlanks_cons hBlank (tail ++ rest)

/-- The items of an array are read up to its closing bracket. -/
theorem items_writeItems {values : List Json} (hWhole : ∀ value ∈ values, value.IsWhole)
    (hRead : ∀ value ∈ values, IsRead value) {level : Nat} {inner gap : List Char}
    (hInner : (writeItems level values).toList = ',' :: inner) (hGap : AllBlank gap)
    (rest : List Char) :
    items (inner ++ (gap ++ ']' :: rest)) =
      (ofItems values, some (inner.length + gap.length + 1)) := by
  have hNone : AllBlank [] := by simp [AllBlank]
  induction values generalizing inner with
  | nil => simp [writeItems] at hInner
  | cons value values ih =>
      obtain rfl : (newLine level).toList ++ ((writeAt level value).toList ++
          (writeItems level values).toList) = inner := by
        simpa [writeItems] using hInner
      have hValue := hWhole value List.mem_cons_self
      have hItem := fun tail (hTail : EndsNumber tail) =>
        hRead value List.mem_cons_self level hTail
      cases values with
      | nil =>
          have hStep := items_append (allBlank_newLine level) hGap (endsBlanks_writeAt hValue level _)
            (by decide) (hItem _ (endsNumber_gap hGap (c := ']') (by simp) rest))
          simpa [writeItems, ofItems] using hStep
      | cons next values =>
          obtain ⟨more, hMore⟩ : ∃ more, (writeItems level (next :: values)).toList = ',' :: more :=
            ⟨_, by simp [writeItems]; rfl⟩
          have hRest := ih (fun other hOther => hWhole other (List.mem_cons_of_mem _ hOther))
            (fun other hOther => hRead other (List.mem_cons_of_mem _ hOther)) hMore
          have hStep := items_append (allBlank_newLine level) hNone
            (endsBlanks_writeAt hValue level _) (by decide)
            (hItem _ (endsNumber_gap hNone (c := ',') (by simp) (more ++ (gap ++ ']' :: rest))))
          simp only [hRest, Option.map_some] at hStep
          rw [hMore]
          simp only [List.append_assoc, List.cons_append, List.nil_append] at hStep ⊢
          rw [hStep, ofItems]
          simp only [List.length_append, List.length_cons, List.length_nil]
          exact Prod.ext rfl (congrArg some (by omega))

/-- The members of an object are read up to its closing brace. -/
theorem members_writeMembers {entries : List (String × Json)}
    (hWhole : ∀ entry ∈ entries, entry.2.IsWhole) (hRead : ∀ entry ∈ entries, IsRead entry.2)
    {level : Nat} {inner gap : List Char}
    (hInner : (writeMembers level entries).toList = ',' :: inner) (hGap : AllBlank gap)
    (rest : List Char) :
    members (inner ++ (gap ++ '\x7d' :: rest)) =
      (ofMembers entries, some (inner.length + gap.length + 1)) := by
  have hNone : AllBlank [] := by simp [AllBlank]
  induction entries generalizing inner with
  | nil => simp [writeMembers] at hInner
  | cons entry entries ih =>
      obtain ⟨key, value⟩ := entry
      obtain rfl : (newLine level).toList ++ ('"' :: (escape key.toList ++ ('"' :: ':' :: ' ' ::
          ((writeAt level value).toList ++ (writeMembers level entries).toList)))) = inner := by
        simpa [writeMembers, toList_quote] using hInner
      have hValue := hWhole (key, value) List.mem_cons_self
      have hItem := fun tail (hTail : EndsNumber tail) =>
        hRead (key, value) List.mem_cons_self level hTail
      cases entries with
      | nil =>
          have hStep := members_append (allBlank_newLine level) hGap (textLength?_escape key.toList)
            (endsBlanks_writeAt hValue level _) (by decide)
            (hItem _ (endsNumber_gap hGap (c := '\x7d') (by simp) rest))
          simp only [writeMembers, String.toList_empty, List.append_nil, List.append_assoc,
            List.cons_append] at hStep ⊢
          rw [hStep, ofMembers, ofMembers]
          simp only [List.length_append, List.length_cons]
          exact Prod.ext rfl (congrArg some (by omega))
      | cons next entries =>
          obtain ⟨more, hMore⟩ : ∃ more,
              (writeMembers level (next :: entries)).toList = ',' :: more :=
            ⟨_, by simp [writeMembers]; rfl⟩
          have hRest := ih (fun other hOther => hWhole other (List.mem_cons_of_mem _ hOther))
            (fun other hOther => hRead other (List.mem_cons_of_mem _ hOther)) hMore
          have hStep := members_append (allBlank_newLine level) hNone
            (textLength?_escape key.toList) (endsBlanks_writeAt hValue level _) (by decide)
            (hItem _ (endsNumber_gap hNone (c := ',') (by simp) (more ++ (gap ++ '\x7d' :: rest))))
          simp only [hRest, Option.map_some] at hStep
          rw [hMore]
          simp only [List.append_assoc, List.cons_append, List.nil_append] at hStep ⊢
          rw [hStep, ofMembers]
          simp only [List.length_append, List.length_cons, List.length_nil]
          exact Prod.ext rfl (congrArg some (by omega))

theorem value?_simple {c : Char} {rest : List Char} (hQuote : c ≠ '"') (hBracket : c ≠ '[')
    (hBrace : c ≠ '\x7b') : value? (c :: rest) = simple? (c :: rest) := by
  rw [value?]
  · simpa using hQuote
  · simpa using hBracket
  · simpa using hBrace

theorem head?_drop_spaceCount {blanks : List Char} {c : Char} (hBlanks : AllBlank blanks)
    (hc : isBlank c = false) (rest : List Char) :
    ((blanks ++ c :: rest).drop (spaceCount (blanks ++ c :: rest))).head? = some c := by
  rw [spaceCount_append hBlanks (endsBlanks_cons hc rest), List.drop_left]
  rfl

/-- An array is read if its items are. -/
theorem isRead_arr {values : List Json} (hWhole : ∀ value ∈ values, value.IsWhole)
    (hRead : ∀ value ∈ values, IsRead value) : IsRead (.arr values) := by
  intro level rest _
  cases values with
  | nil => simp [writeAt, value?, spaceCount, ofJson, ofItems]
  | cons value values =>
      obtain ⟨c, tail, hText, hBlank, hBracket⟩ :=
        exists_writeAt_eq_cons (hWhole value List.mem_cons_self) (level + 1)
      have hInner : (writeItems (level + 1) (value :: values)).toList =
          ',' :: ((newLine (level + 1)).toList ++ (c :: (tail ++
            (writeItems (level + 1) values).toList))) := by
        simp [writeItems, hText]
      have hItems := items_writeItems hWhole hRead hInner (allBlank_newLine level) rest
      have hFirst := head?_drop_spaceCount (allBlank_newLine (level + 1)) hBlank
        (tail ++ ((writeItems (level + 1) values).toList ++ ((newLine level).toList ++ ']' :: rest)))
      simp only [List.append_assoc, List.cons_append] at hItems
      simp only [writeAt, String.toList_append, hText, ofJson]
      simp [value?, hFirst, hBracket, hItems]
      omega

/-- An object is read if its members are. -/
theorem isRead_obj {entries : List (String × Json)} (hWhole : ∀ entry ∈ entries, entry.2.IsWhole)
    (hRead : ∀ entry ∈ entries, IsRead entry.2) : IsRead (.obj entries) := by
  intro level rest _
  cases entries with
  | nil => simp [writeAt, value?, spaceCount, ofJson, ofMembers]
  | cons entry entries =>
      obtain ⟨key, value⟩ := entry
      have hInner : (writeMembers (level + 1) ((key, value) :: entries)).toList =
          ',' :: ((newLine (level + 1)).toList ++ ('"' :: (escape key.toList ++ ('"' :: ':' :: ' ' ::
            ((writeAt (level + 1) value).toList ++
              (writeMembers (level + 1) entries).toList))))) := by
        simp [writeMembers, toList_quote]
      have hMembers := members_writeMembers hWhole hRead hInner (allBlank_newLine level) rest
      have hFirst := head?_drop_spaceCount (allBlank_newLine (level + 1)) (c := '"') (by decide)
        (escape key.toList ++ ('"' :: ':' :: ' ' :: ((writeAt (level + 1) value).toList ++
          ((writeMembers (level + 1) entries).toList ++ ((newLine level).toList ++ '\x7d' :: rest)))))
      simp only [List.append_assoc, List.cons_append] at hMembers
      simp only [writeAt, String.toList_append, toList_quote, ofJson]
      simp [value?, hFirst, hMembers]
      omega

/-- **A value is read in its written form.** -/
theorem isRead {json : Json} (h : json.IsWhole) : IsRead json := by
  induction h with
  | null =>
      intro level rest _
      simp [writeAt, value?, simple?, ofJson]
  | bool value =>
      intro level rest _
      cases value <;> simp [writeAt, value?, simple?, ofJson]
  | @int value _ _ =>
      intro level rest hRest
      obtain ⟨c, tail, hDigits, hFirst⟩ := exists_digits_eq_cons value
      have hSimple : simple? (digits value ++ rest) = _ := simple?_digits hRest
      rw [writeAt, toList_toString_int, ofJson, ← hSimple, hDigits, List.cons_append]
      exact value?_simple (ne_of_isDigit hFirst _ (by decide) (by decide))
        (ne_of_isDigit hFirst _ (by decide) (by decide))
        (ne_of_isDigit hFirst _ (by decide) (by decide))
  | str value =>
      intro level rest _
      simp [writeAt, toList_quote, value?, textLength?_escape, ofJson]
  | arr h ih => exact isRead_arr h ih
  | obj h ih => exact isRead_obj h ih

/-- **The text of a value is read as its written form.** -/
theorem read?_write {json : Json} (h : json.IsWhole) : read? json.write = some (ofJson json) := by
  have hNone : AllBlank [] := by simp [AllBlank]
  have hBlanks : spaceCount (writeAt 0 json).toList = 0 := by
    simpa using spaceCount_append hNone (endsBlanks_writeAt h 0 [])
  have hDone : EndsNumber [] := by simp [EndsNumber]
  have hValue := isRead h 0 hDone
  rw [List.append_nil] at hValue
  have hEnd : isSpace [] = true := rfl
  simp [read?, write, hBlanks, hValue, hEnd]

end Raw

/-! ## What a written form stands for -/

mutual
/-- How deep a value nests. -/
def depth : Json → Nat
  | .arr items => itemsDepth items + 1
  | .obj members => membersDepth members + 1
  | _ => 0
/-- How deep the items of an array nest. -/
def itemsDepth : List Json → Nat
  | [] => 0
  | item :: items => max (depth item) (itemsDepth items)
/-- How deep the members of an object nest. -/
def membersDepth : List (String × Json) → Nat
  | [] => 0
  | (_, value) :: members => max (depth value) (membersDepth members)
end

mutual
/-- A value without the members whose keys do not count. -/
def prune (counts : String → Bool) : Json → Json
  | .arr items => .arr (pruneItems counts items)
  | .obj members => .obj (pruneMembers counts members)
  | json => json
/-- The items of an array, each without the members whose keys do not count. -/
def pruneItems (counts : String → Bool) : List Json → List Json
  | [] => []
  | item :: items => prune counts item :: pruneItems counts items
/-- The members whose keys count, each without the members inside whose keys do not. -/
def pruneMembers (counts : String → Bool) : List (String × Json) → List (String × Json)
  | [] => []
  | (key, value) :: members =>
    if counts key then (key, prune counts value) :: pruneMembers counts members
    else pruneMembers counts members
end

namespace Raw

variable {counts : String → Bool}

/-- A value that nests no deeper than `depth` is found from its written form. -/
def IsResolved (counts : String → Bool) (json : Json) : Prop :=
  ∀ {depth : Nat}, json.depth ≤ depth → resolve? counts depth (ofJson json) = some (json.prune counts)

theorem resolveItems?_ofItems {items : List Json} (h : ∀ item ∈ items, IsResolved counts item)
    {depth : Nat} (hDepth : itemsDepth items ≤ depth) :
    resolveItems? counts depth (ofItems items) = some (pruneItems counts items) := by
  induction items with
  | nil => rfl
  | cons item items ih =>
      rw [itemsDepth] at hDepth
      have hItem : resolve? counts depth (ofJson item) = some (item.prune counts) :=
        h item List.mem_cons_self (Nat.le_trans (Nat.le_max_left _ _) hDepth)
      have hRest := ih (fun other hOther => h other (List.mem_cons_of_mem _ hOther)) (by omega)
      simp [ofItems, resolveItems?, hItem, hRest, pruneItems]

theorem resolveMembers?_ofMembers {members : List (String × Json)}
    (h : ∀ member ∈ members, IsResolved counts member.2) {depth : Nat}
    (hDepth : membersDepth members ≤ depth) :
    resolveMembers? counts depth (ofMembers members) = some (pruneMembers counts members) := by
  induction members with
  | nil => rfl
  | cons member members ih =>
      obtain ⟨key, value⟩ := member
      rw [membersDepth] at hDepth
      have hValue : resolve? counts depth (ofJson value) = some (value.prune counts) :=
        h (key, value) List.mem_cons_self (Nat.le_trans (Nat.le_max_left _ _) hDepth)
      have hRest := ih (fun other hOther => h other (List.mem_cons_of_mem _ hOther)) (by omega)
      simp only [ofMembers, resolveMembers?, key?_escape, hValue, hRest, pruneMembers,
        Option.bind_eq_bind, Option.bind_some, Option.pure_def]
      split <;> rfl

/-- **The written form of a value stands for it.** -/
theorem isResolved {json : Json} (h : json.IsWhole) : IsResolved counts json := by
  induction h with
  | null => exact fun _ => rfl
  | bool value => exact fun _ => rfl
  | int hMin hMax => exact fun _ => number?_digits hMin hMax
  | str value =>
      intro depth _
      simp [ofJson, resolve?, key?_escape, prune]
  | arr _ ih =>
      intro depth hDepth
      rw [Json.depth] at hDepth
      obtain ⟨depth, rfl⟩ : ∃ d, depth = d + 1 := ⟨depth - 1, by omega⟩
      simp [ofJson, resolve?, resolveItems?_ofItems ih (by omega : _ ≤ depth), prune]
  | obj _ ih =>
      intro depth hDepth
      rw [Json.depth] at hDepth
      obtain ⟨depth, rfl⟩ : ∃ d, depth = d + 1 := ⟨depth - 1, by omega⟩
      simp [ofJson, resolve?, resolveMembers?_ofMembers ih (by omega : _ ≤ depth), prune]

end Raw

end StateGuard.Json
