import StateGuard.Proofs.Text.Numerals
import StateGuard.Proofs.Yaml.Lines
import StateGuard.Yaml.Decode

/-!
# Texts, numbers and records

What the writer makes of a text, a truth value or a number fits on a line and is decoded to what it
was made of. A text that could be taken for the absence of a value, a truth value or a number is in
quotes, so it is always present. The fields of a record are those that were written, as long as
their keys are fields, in order.
-/

namespace StateGuard.Yaml

/-! ## Texts -/

/-- Characters stand in no pair of which they are not a part. -/
theorem holdsPair_eq_false {first second : Char → Bool} {cs : List Char}
    (h : ∀ a ∈ cs, ∀ b ∈ cs, (first a && second b) = false) :
    holdsPair first second cs = false := by
  fun_induction holdsPair first second cs with
  | case1 a b rest ih =>
      rw [h a (by simp) b (by simp), Bool.false_or]
      exact ih fun a ha b hb => h a (List.mem_cons_of_mem _ ha) b (List.mem_cons_of_mem _ hb)
  | case2 => rfl

/-- A text of one line is written without quotes or in single quotes. -/
theorem styleOf_line {text : String} (h : isLine text = true) :
    styleOf text = if !isAmbiguous text && isPlainText text then .plain else .singleQuoted := by
  have hChars : ∀ c ∈ text.toList, isLineChar c = true := List.all_eq_true.mp h
  have hBreak : ∀ c ∈ text.toList, isBreak c = false := fun c hc =>
    isBreak_of_isLineChar (hChars c hc)
  have hFeed : text.toList.contains '\n' = false := by
    rw [List.contains_eq_mem, decide_eq_false_iff_not]
    intro hMem
    exact absurd (hBreak _ hMem) (by decide)
  have hPrintable : text.toList.all isPrintable = true := List.all_eq_true.mpr fun c hc => by
    have := hChars c hc
    simp only [isLineChar, Bool.and_eq_true] at this
    exact this.1
  have hBlankEnd : hasBlankEnd text.toList = false :=
    holdsPair_eq_false fun a _ b hb => by rw [hBreak b hb, Bool.and_false]
  have hBlankStart : holdsPair isBreak (· == ' ') text.toList = false :=
    holdsPair_eq_false fun a ha b _ => by rw [hBreak a ha, Bool.false_and]
  have hSingle : isSingleText text = true := by
    simp [isSingleText, hPrintable, hBlankEnd, hBlankStart]
  rw [styleOf, hFeed, hSingle]
  rfl

/-- A text that is written without quotes is none of the words that stand for something else. -/
theorem not_mem_reservedWords {text : String} (h : isLine text = true)
    (hStyle : styleOf text = .plain) : text ∉ reservedWords ∧ isPlainText text = true := by
  rw [styleOf_line h] at hStyle
  split at hStyle
  · next hPlain =>
      simp only [isAmbiguous, Bool.and_eq_true, Bool.not_eq_true', Bool.or_eq_false_iff] at hPlain
      exact ⟨by simpa using hPlain.1.1, hPlain.2⟩
  · cases hStyle

/-- A text of one line is written as a scalar of one line. -/
theorem isWritable_ofText {text : String} (h : isLine text = true) : IsWritable (.ofText text) := by
  refine .scalar ⟨rfl, List.all_eq_true.mp h, ?_⟩
  by_cases hStyle : styleOf text = .plain
  · obtain ⟨hWord, hPlain⟩ := not_mem_reservedWords h hStyle
    refine .inl ⟨hStyle, isPlain_of_isPlainText hPlain ?_⟩
    rintro rfl
    exact hWord (by simp [reservedWords])
  · right
    rw [styleOf_line h] at hStyle ⊢
    split
    · next hPlain => exact absurd (if_pos hPlain) hStyle
    · rfl

/-- A text that was written is present. -/
theorem isPresent?_ofText {text : String} (h : isLine text = true) :
    isPresent? (.ofText text) = some true := by
  by_cases hStyle : styleOf text = .plain
  · obtain ⟨hWord, -⟩ := not_mem_reservedWords h hStyle
    have hNull : text ∉ nullWords := fun hMem => hWord (by simp [reservedWords, hMem])
    have hEmpty : text ≠ "" := by
      rintro rfl
      exact hWord (by simp [reservedWords])
    rw [ofText, hStyle]
    simp [isPresent?, hNull, hEmpty]
  · cases hOther : styleOf text <;> simp_all [ofText, isPresent?]

/-! ## Truth values and numbers -/

/-- Digits need no quotes. -/
theorem isPlain_digits {cs : List Char} (hNonempty : cs ≠ [])
    (h : ∀ c ∈ cs, c.isDigit = true) : IsPlain cs := by
  have hNe {c : Char} (hc : c ∈ cs) (d : Char) (hd : d.isDigit = false) : c ≠ d := by
    rintro rfl
    rw [h c hc] at hd
    cases hd
  have hMarks (before : Char) (ds : List Char) (hSubset : ds ⊆ cs) :
      holdsMark before ds = false := by
    induction ds generalizing before with
    | nil => rfl
    | cons d ds ih =>
        have hd : d ∈ cs := hSubset (by simp)
        have hRest := ih d fun c hc => hSubset (List.mem_cons_of_mem d hc)
        simp [holdsMark, hNe hd ':' (by decide), hNe hd '#' (by decide), hRest]
  refine ⟨⟨hNonempty, ?_, ?_, ?_, hMarks ' ' cs (List.Subset.refl cs)⟩, ?_⟩
  · intro c hc
    have hRange := Char.isDigit_iff_toNat.mp (h c hc)
    have hBreak : isBreak c = false := by
      simp [isBreak, hNe hc '\n' (by decide), hNe hc '\r' (by decide), hNe hc '\u0085' (by decide),
        hNe hc '\u2028' (by decide), hNe hc '\u2029' (by decide)]
    have hPrintable : isPrintable c = true := by
      simp only [isPrintable, Bool.or_eq_true, Bool.and_eq_true, decide_eq_true_eq]
      refine .inl (.inl (.inr ⟨?_, ?_⟩))
      · exact Nat.le_trans (by decide) hRange.1
      · exact Nat.le_trans hRange.2 (by decide)
    simp [isLineChar, hPrintable, hBreak]
  · exact fun c hc => hNe (List.mem_of_head? hc) ' ' (by decide)
  · exact fun c hc => hNe (List.mem_of_getLast? hc) ' ' (by decide)
  · obtain ⟨c, rest, rfl⟩ := List.exists_cons_of_ne_nil hNonempty
    have hc : c ∈ c :: rest := by simp
    have hReserved : reserved.contains c = false := by
      rw [List.contains_eq_mem, decide_eq_false_iff_not]
      intro hMem
      have hNone : ∀ d ∈ reserved, d.isDigit = false := by simp [reserved]
      exact hNe hc c (hNone c hMem) rfl
    have hDash : c ≠ '-' := hNe hc '-' (by decide)
    have hDot : c ≠ '.' := hNe hc '.' (by decide)
    simp only [startsWithMark, hReserved, Bool.false_or]
    simp [hNe hc '?' (by decide), hNe hc ':' (by decide), hDash, List.isPrefixOf, hDot.symm,
      hDash.symm]

theorem toList_toString (n : Nat) : (toString n).toList = Nat.toDigits 10 n := by
  simp [toString, Nat.repr]

/-- A number is written as a scalar of one line. -/
theorem isWritable_ofNat (n : Nat) : IsWritable (.ofNat n) := by
  have hPlain : IsPlain (toString n).toList := by
    rw [toList_toString]
    exact isPlain_digits Nat.toDigits_ne_nil fun c hc => Text.isDigit_of_mem_toDigits hc
  exact .scalar ⟨rfl, hPlain.chars, .inl ⟨rfl, hPlain⟩⟩

/-- A truth value is written as a scalar of one line. -/
theorem isWritable_ofBool (b : Bool) : IsWritable (.ofBool b) := by
  have hPlain : IsPlain (if b then "true" else "false").toList := by
    cases b <;> exact isPlain_of_isPlainText (by decide) (by decide)
  exact .scalar ⟨rfl, hPlain.chars, .inl ⟨rfl, hPlain⟩⟩

theorem bool?_ofBool (b : Bool) : bool? (.ofBool b) = some b := by
  cases b <;> decide

/-- Digits are read one after another behind those read so far. -/
theorem foldlM_digits {digits : List Char} (h : ∀ c ∈ digits, c.isDigit = true) (value : Nat) :
    digits.foldlM (fun value digit =>
      match digitValue? digit with
      | some d => if d < 10 then some (10 * value + d) else none
      | none => none) value =
    some (digits.foldl (fun n d => 10 * n + (d.toNat - '0'.toNat)) value) := by
  induction digits generalizing value with
  | nil => rfl
  | cons d ds ih =>
      have hDigit := h d (by simp)
      have hSmall : d.toNat - '0'.toNat < 10 := by
        have hRange := Char.isDigit_iff_toNat.mp hDigit
        have hNine : '9'.toNat = '0'.toNat + 9 := by decide
        omega
      simp only [List.foldlM_cons, digitValue?, hDigit, if_true, hSmall, Option.bind_eq_bind,
        Option.bind_some, List.foldl_cons]
      exact ih (fun c hc => h c (by simp [hc])) _

/-- Digits in base ten have their decimal value. -/
theorem inBase?_ten {digits : List Char} (h : ∀ c ∈ digits, c.isDigit = true) :
    inBase? 10 digits = Text.decimal? digits := by
  cases digits with
  | nil => rfl
  | cons d ds =>
      have hAll : (d :: ds).all Char.isDigit = true := List.all_eq_true.mpr h
      rw [inBase?, if_neg (by simp), Text.decimal?, hAll]
      exact foldlM_digits h 0

/-- Digits have no sign in front, and no mark of a base. -/
theorem magnitude?_digits {digits : List Char} (h : ∀ c ∈ digits, c.isDigit = true) :
    dropSign digits = digits ∧ dropPlus digits = digits ∧
      magnitude? digits = inBase? 10 digits := by
  have hNot {d : Char} (hd : d.isDigit = false) : d ∉ digits := fun hMem => by
    rw [h d hMem] at hd
    cases hd
  refine ⟨?_, ?_, ?_⟩
  · unfold dropSign
    split
    · exact absurd (List.mem_cons_self ..) (hNot (d := '+') (by decide))
    · exact absurd (List.mem_cons_self ..) (hNot (d := '-') (by decide))
    · rfl
  · unfold dropPlus
    split
    · exact absurd (List.mem_cons_self ..) (hNot (d := '+') (by decide))
    · rfl
  · unfold magnitude?
    split
    · exact absurd (by simp) (hNot (d := 'x') (by decide))
    · exact absurd (by simp) (hNot (d := 'o') (by decide))
    · exact absurd (by simp) (hNot (d := 'b') (by decide))
    · rfl

/-- A number is decoded from its digits. -/
theorem natural?_toString (n : Nat) : natural? (toString n) = some n := by
  have hDigits : ∀ c ∈ Nat.toDigits 10 n, c.isDigit = true := fun c hc =>
    Text.isDigit_of_mem_toDigits hc
  obtain ⟨hSign, hPlus, hMagnitude⟩ := magnitude?_digits hDigits
  have hPadded : isPadded (Nat.toDigits 10 n) = false := by
    rw [isPadded, hSign]
    split
    · next rest hZero =>
        have hAlone := Text.toDigits_eq_of_head? (n := n) (by rw [hZero]; rfl)
        rw [hZero] at hAlone
        cases hAlone
        rfl
    · rfl
  rw [natural?, toList_toString, hPadded, if_neg (by simp), hPlus, hMagnitude, inBase?_ten hDigits,
    Text.decimal?_toDigits]

theorem nat?_ofNat {bound n : Nat} (h : n < bound) : nat? bound (.ofNat n) = some n := by
  have hOpen : Scalar.isOpen intTag ⟨.plain, none, toString n⟩ = true := rfl
  rw [ofNat, plain, nat?, if_pos hOpen, natural?_toString]
  simp [Option.filter, h]

/-! ## Lists -/

theorem isWritable_ofList {α : Type} {encode : α → Yaml} {values : List α}
    (h : ∀ value ∈ values, IsWritable (encode value)) : IsWritable (.seq (values.map encode)) := by
  refine .seq fun item hItem => ?_
  obtain ⟨value, hValue, rfl⟩ := List.mem_map.mp hItem
  exact h value hValue

/-- A list is decoded item by item. -/
theorem list?_map {α : Type} {encode : α → Yaml} {decode : Yaml → Option α} {values : List α}
    (h : ∀ value ∈ values, decode (encode value) = some value) :
    list? decode (.seq (values.map encode)) = some values := by
  rw [list?]
  induction values with
  | nil => rfl
  | cons value values ih =>
      simp [h value (by simp), ih fun other hOther => h other (by simp [hOther])]

/-! ## Records -/

/-- Whether a name can be a key without quotes. -/
def isKeyName (name : String) : Bool :=
  !name.isEmpty && isPlainText name && name.toList.length ≤ maxKeyLength

theorem isKey_of_isKeyName {name : String} (h : isKeyName name = true) : IsKey name := by
  simp only [isKeyName, Bool.and_eq_true, Bool.not_eq_true', decide_eq_true_eq] at h
  refine ⟨isPlain_of_isPlainText h.1.2 ?_, h.2⟩
  rintro rfl
  exact absurd h.1.1 (by decide)

/-- The names of the fields of a record: they are all different and can be keys. -/
structure AreFields (names : List String) : Prop where
  nodup : names.Nodup
  keys : names.all isKeyName = true

section Record

variable {names : List String} {entries : List (String × Yaml)}

/-- A record is written line by line if its values are. -/
theorem AreFields.isWritable (hNames : AreFields names)
    (hKeys : (entries.map (·.1)).Sublist names) (hNonempty : entries ≠ [])
    (hValues : ∀ entry ∈ entries, IsWritable entry.2) : IsWritable (.map entries) := by
  refine .map hNonempty (fun entry hEntry => ?_) hValues
  have hMem : entry.1 ∈ names := hKeys.subset (List.mem_map_of_mem hEntry)
  exact isKey_of_isKeyName (List.all_eq_true.mp hNames.keys _ hMem)

/-- The fields of a record are what was written. -/
theorem AreFields.fields? (hNames : AreFields names)
    (hKeys : (entries.map (·.1)).Sublist names) :
    fields? names (.map entries) = some entries := by
  have hAll : (entries.map (·.1)).all names.contains = true :=
    List.all_eq_true.mpr fun key hKey => by simpa using hKeys.subset hKey
  have hDups : (entries.map (·.1)).eraseDups = entries.map (·.1) :=
    Text.eraseDups_eq_self_of_nodup (hNames.nodup.sublist hKeys)
  rw [Yaml.fields?, hAll, hDups]
  simp

end Record

/-! ## Codes -/

/-- A value that is written line by line, is present, and is decoded to what it was made of. -/
structure IsCoded {α : Type} (decode : Yaml → Option α) (encoded : Yaml) (value : α) : Prop where
  written : IsWritable encoded
  present : isPresent? encoded = some true
  decoded : decode encoded = some value

section Coded

variable {α : Type} {decode : Yaml → Option α} {fields : Fields} {key : String}

theorem IsCoded.required? {encoded : Yaml} {value : α} (h : IsCoded decode encoded value)
    (hLookup : fields.lookup key = some encoded) : fields.required? key decode = some value := by
  rw [Fields.required?, hLookup]
  exact h.decoded

theorem Fields.withDefault?_of_lookup (fields : Fields) (key : String) (default : α)
    {encoded : Yaml} {value : α} (hLookup : fields.lookup key = some encoded)
    (hDecoded : decode encoded = some value) :
    fields.withDefault? key decode default = some value := by
  rw [Fields.withDefault?, hLookup]
  exact hDecoded

/-- A field that was written if it has a value. -/
theorem withDefault?_optional {encode : α → Yaml} {value : Option α}
    (h : ∀ x ∈ value, IsCoded decode (encode x) x)
    (hLookup : fields.lookup key = value.map encode) :
    fields.withDefault? key (optional? decode) none = some value := by
  rw [Fields.withDefault?, hLookup]
  cases value with
  | none => rfl
  | some x => simp [optional?, (h x rfl).present, (h x rfl).decoded]

end Coded

theorem isCoded_text {text : String} (h : isLine text = true) :
    IsCoded text? (.ofText text) text :=
  ⟨isWritable_ofText h, isPresent?_ofText h, rfl⟩

theorem isCoded_seq {α : Type} {decode : Yaml → Option α} {encode : α → Yaml} {values : List α}
    (h : ∀ value ∈ values, IsCoded decode (encode value) value) :
    IsCoded (list? decode) (.seq (values.map encode)) values :=
  ⟨isWritable_ofList fun value hValue => (h value hValue).written, rfl,
    list?_map fun value hValue => (h value hValue).decoded⟩

end StateGuard.Yaml
