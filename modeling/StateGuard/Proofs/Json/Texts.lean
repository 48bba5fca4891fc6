import StateGuard.Json.Reader
import StateGuard.Json.Writer
import StateGuard.Proofs.Text.Numerals

/-!
# Texts and numbers of JSON documents

The characters of a text are written as they are, by a short escape or by a code, and each way is
read back.  An integer is written in decimal digits, and it ends where the digits do, before anything
that does not go on with a number.

## Main results

* `textLength?_escape`: a text ends at its closing quote.
* `unescape?_escape`: texts are read back.
* `simple?_digits`, `number?_digits`: so are integers.
-/

namespace StateGuard.Json

/-! ## Texts -/

/-- The digits of numbers below sixteen are read back. -/
theorem hexValue?_hexDigit {n : Nat} (h : n < 16) : hexValue? (hexDigit n) = some n := by
  have hAll : ∀ d < 16, hexValue? (hexDigit d) = some d := by decide
  exact hAll n h

/-- The code of a control character is read back. -/
theorem unit?_control {n : Nat} (h : n < 32) (rest : List Char) :
    unit? ('0' :: '0' :: hexDigit (n / 16) :: hexDigit (n % 16) :: rest) = some n := by
  have hZero : hexValue? '0' = some 0 := by decide
  have hHigh := hexValue?_hexDigit (n := n / 16) (by omega)
  have hLow := hexValue?_hexDigit (n := n % 16) (by omega)
  simp only [unit?, hZero, hHigh, hLow, Option.bind_eq_bind, Option.bind_some, Option.pure_def,
    Option.some.injEq]
  omega

/-- A character is written as itself, by a short escape or by its code. -/
theorem escapeChar_cases (c : Char) :
    (escapeChar c = [c] ∧ c ≠ '"' ∧ c ≠ '\\' ∧ 0x20 ≤ c.toNat) ∨
    (∃ mark, escapeChar c = ['\\', mark] ∧ mark ≠ 'u' ∧ shortEscape? mark = some c) ∨
    (escapeChar c = ['\\', 'u', '0', '0', hexDigit (c.toNat / 16), hexDigit (c.toNat % 16)] ∧
      c.toNat < 32) := by
  unfold escapeChar
  split
  · exact .inr (.inl ⟨_, rfl, by decide, rfl⟩)
  · exact .inr (.inl ⟨_, rfl, by decide, rfl⟩)
  · exact .inr (.inl ⟨_, rfl, by decide, rfl⟩)
  · exact .inr (.inl ⟨_, rfl, by decide, rfl⟩)
  · exact .inr (.inl ⟨_, rfl, by decide, rfl⟩)
  · exact .inr (.inl ⟨_, rfl, by decide, rfl⟩)
  · exact .inr (.inl ⟨_, rfl, by decide, rfl⟩)
  · next hQuote hBackslash _ _ _ _ _ =>
      split
      · next hControl => exact .inr (.inr ⟨rfl, hControl⟩)
      · next hControl => exact .inl ⟨rfl, hQuote, hBackslash, by omega⟩

/-- Digits are written as they are. -/
theorem escapeChar_of_isDigit {c : Char} (h : c.isDigit = true) : escapeChar c = [c] := by
  obtain ⟨hSelf, -⟩ | ⟨mark, -, -, hValue⟩ | ⟨-, hControl⟩ := escapeChar_cases c
  · exact hSelf
  · unfold shortEscape? at hValue
    split at hValue <;> simp only [Option.some.injEq, reduceCtorEq] at hValue <;> subst hValue <;>
      exact absurd h (by decide)
  · have hDigit : '0'.toNat ≤ c.toNat := (Char.isDigit_iff_toNat.1 h).1
    have hZero : '0'.toNat = 48 := rfl
    omega

theorem textLength?_escapeChar (c : Char) (rest : List Char) :
    textLength? (escapeChar c ++ rest) =
      (textLength? rest).map ((escapeChar c).length + ·) := by
  obtain ⟨hSelf, hQuote, hBackslash, hPrintable⟩ | ⟨mark, hShort, hMark, hValue⟩ |
    ⟨hCode, hControl⟩ := escapeChar_cases c
  · rw [hSelf, List.singleton_append, textLength?.eq_4 _ _ (by simpa using hQuote)
      (by simpa using hBackslash), if_pos hPrintable]
    simp [Nat.add_comm]
  · rw [hShort]
    have hLength : escapeLength? (mark :: rest) = some 1 := by
      rw [escapeLength?]
      · rw [hValue]
        rfl
      · exact hMark
    simp only [List.cons_append, List.nil_append, textLength?, hLength, Option.bind_eq_bind,
      Option.bind_some, List.drop_succ_cons, List.drop_zero]
    cases textLength? rest <;> rfl
  · rw [hCode]
    have hLength : ∀ tail, escapeLength? ('u' :: '0' :: '0' :: hexDigit (c.toNat / 16) ::
        hexDigit (c.toNat % 16) :: tail) = some 5 := fun tail => by
      rw [escapeLength?, unit?_control hControl]
      rfl
    simp only [List.cons_append, List.nil_append, textLength?, hLength, Option.bind_eq_bind,
      Option.bind_some, List.drop_succ_cons, List.drop_zero]
    cases textLength? rest <;> rfl

/-- The characters of a text as they are written between quotes. -/
def escape (text : List Char) : List Char := text.flatMap escapeChar

/-- A text ends at its closing quote. -/
theorem textLength?_escape (text rest : List Char) :
    textLength? (escape text ++ '"' :: rest) = some (escape text).length := by
  induction text with
  | nil => simp [escape, textLength?]
  | cons c text ih =>
      rw [escape, List.flatMap_cons, List.append_assoc, textLength?_escapeChar, ← escape, ih]
      simp

theorem unescape?_escapeChar (c : Char) (rest : List Char) :
    unescape? (escapeChar c ++ rest) = (unescape? rest).map (c :: ·) := by
  obtain ⟨hSelf, -, hBackslash, -⟩ | ⟨mark, hShort, hMark, hValue⟩ | ⟨hCode, hControl⟩ :=
    escapeChar_cases c
  · rw [hSelf, List.singleton_append, unescape?.eq_3 _ _ (by simpa using hBackslash)]
  · rw [hShort]
    have hEscape : escape? (mark :: rest) = some (c, 1) := by
      rw [escape?]
      · rw [hValue]
        rfl
      · exact hMark
    simp only [List.cons_append, List.nil_append, unescape?, hEscape, Option.bind_eq_bind,
      Option.bind_some, List.drop_succ_cons, List.drop_zero]
    cases unescape? rest <;> rfl
  · rw [hCode]
    have hEscape : ∀ tail, escape? ('u' :: '0' :: '0' :: hexDigit (c.toNat / 16) ::
        hexDigit (c.toNat % 16) :: tail) = some (c, 5) := fun tail => by
      have hHigh : isHighHalf c.toNat = false := by simp [isHighHalf]; omega
      have hLow : isLowHalf c.toNat = false := by simp [isLowHalf]; omega
      simp only [escape?, codeEscape?, unit?_control hControl, Option.bind_eq_bind,
        Option.bind_some, hHigh, hLow]
      simp
    simp only [List.cons_append, List.nil_append, unescape?, hEscape, Option.bind_eq_bind,
      Option.bind_some, List.drop_succ_cons, List.drop_zero]
    cases unescape? rest <;> rfl

/-- **Texts are read back.** -/
theorem unescape?_escape (text : List Char) : unescape? (escape text) = some text := by
  induction text with
  | nil => simp [escape, unescape?]
  | cons c text ih =>
      rw [escape, List.flatMap_cons, unescape?_escapeChar, ← escape, ih]
      rfl

theorem key?_escape (text : String) : Raw.key? (escape text.toList) = some text := by
  simp [Raw.key?, unescape?_escape]

/-! ## Numbers -/

/-- A text that does not go on with a number. -/
def EndsNumber (rest : List Char) : Prop :=
  ∀ c ∈ rest.head?, c.isDigit = false ∧ c ≠ '.' ∧ c ≠ 'e' ∧ c ≠ 'E'

theorem takeWhile_isDigit_toDigits {n : Nat} {rest : List Char} (h : EndsNumber rest) :
    (Nat.toDigits 10 n ++ rest).takeWhile Char.isDigit = Nat.toDigits 10 n := by
  have hRest : rest.takeWhile Char.isDigit = [] := by
    cases rest with
    | nil => rfl
    | cons c rest => simp [(h c rfl).1]
  rw [List.takeWhile_append_of_pos fun c hc => Text.isDigit_of_mem_toDigits hc, hRest,
    List.append_nil]

theorem takeWhile_isDigit_self (n : Nat) :
    (Nat.toDigits 10 n).takeWhile Char.isDigit = Nat.toDigits 10 n := by
  have hEnd : EndsNumber [] := by simp [EndsNumber]
  have hTake := takeWhile_isDigit_toDigits (n := n) hEnd
  rwa [List.append_nil] at hTake

theorem wholeLength?_toDigits {n : Nat} {rest : List Char} (h : EndsNumber rest) :
    wholeLength? (Nat.toDigits 10 n ++ rest) = some (Nat.toDigits 10 n).length := by
  by_cases hZero : (Nat.toDigits 10 n).head? = some '0'
  · rw [Text.toDigits_eq_of_head? hZero]
    rfl
  · have hNil : (Nat.toDigits 10 n) ≠ [] := Nat.toDigits_ne_nil
    have hDigits : digits? (Nat.toDigits 10 n ++ rest) = some (Nat.toDigits 10 n).length := by
      rw [digits?, digitCount, takeWhile_isDigit_toDigits h, if_neg (by simp)]
    rw [← hDigits, wholeLength?]
    intro tail hTail
    refine hZero ?_
    rw [← List.head?_append_of_ne_nil _ hNil, hTail]
    rfl

theorem fractionLength?_of_ends {rest : List Char} (h : EndsNumber rest) :
    fractionLength? rest = some 0 := by
  unfold fractionLength?
  split
  · exact absurd rfl (h '.' rfl).2.1
  · rfl

theorem exponentLength?_of_ends {rest : List Char} (h : EndsNumber rest) :
    exponentLength? rest = some 0 := by
  unfold exponentLength?
  split
  · exact absurd rfl (h 'e' rfl).2.2.1
  · exact absurd rfl (h 'E' rfl).2.2.2
  · rfl

/-- A number ends with its digits. -/
theorem numberLength?_toDigits {n : Nat} {rest : List Char} (h : EndsNumber rest) :
    numberLength? (Nat.toDigits 10 n ++ rest) = some (Nat.toDigits 10 n).length := by
  simp [numberLength?, wholeLength?_toDigits h, fractionLength?_of_ends h,
    exponentLength?_of_ends h]

/-- The digits of an integer with its sign. -/
def digits (value : Int) : List Char :=
  if value < 0 then '-' :: Nat.toDigits 10 value.natAbs else Nat.toDigits 10 value.natAbs

theorem toList_toString_int (value : Int) : (toString value).toList = digits value := by
  cases value with
  | ofNat n =>
      show (String.ofList (Nat.toDigits 10 n)).toList = _
      rw [String.toList_ofList, digits, if_neg (by simp)]
      rfl
  | negSucc n =>
      have hList : (String.ofList (Nat.toDigits 10 (n + 1))).toList = Nat.toDigits 10 (n + 1) :=
        String.toList_ofList
      show ("-" ++ String.ofList (Nat.toDigits 10 (n + 1))).toList = _
      rw [String.toList_append, digits, if_pos (Int.negSucc_lt_zero n), hList]
      rfl

/-- An integer begins with its sign or a digit. -/
theorem exists_digits_eq_cons (value : Int) :
    ∃ c tail, digits value = c :: tail ∧ (c = '-' ∨ c.isDigit = true) := by
  unfold digits
  split
  · exact ⟨'-', _, rfl, .inl rfl⟩
  · cases hDigits : Nat.toDigits 10 value.natAbs with
    | nil => exact absurd hDigits Nat.toDigits_ne_nil
    | cons c tail =>
        have hMem : c ∈ Nat.toDigits 10 value.natAbs := hDigits ▸ List.mem_cons_self
        exact ⟨c, tail, rfl, .inr (Text.isDigit_of_mem_toDigits hMem)⟩

theorem head?_toDigits_ne_minus (n : Nat) : (Nat.toDigits 10 n).head? ≠ some '-' := fun hHead => by
  have hDigit := Text.isDigit_of_mem_toDigits (List.mem_of_head? hHead)
  exact absurd hDigit (by decide)

/-- An integer ends with its digits. -/
theorem simple?_digits {value : Int} {rest : List Char} (h : EndsNumber rest) :
    Raw.simple? (digits value ++ rest) = some (.number (digits value), (digits value).length) := by
  have hWord : ∀ c ∈ ['n', 't', 'f'], ∀ word : List Char,
      (c :: word).isPrefixOf (digits value ++ rest) = false := by
    intro c hc word
    obtain ⟨first, tail, hDigits, hFirst⟩ := exists_digits_eq_cons value
    have hLetter : ∀ c ∈ ['n', 't', 'f'], c ≠ '-' ∧ c.isDigit = false := by simp
    have hNe : c ≠ first := by
      rintro rfl
      simp [hLetter c hc] at hFirst
    rw [hDigits]
    simp [List.isPrefixOf, hNe]
  have hNull : "null".toList.isPrefixOf (digits value ++ rest) = false := hWord 'n' (by simp) _
  have hTrue : "true".toList.isPrefixOf (digits value ++ rest) = false := hWord 't' (by simp) _
  have hFalse : "false".toList.isPrefixOf (digits value ++ rest) = false := hWord 'f' (by simp) _
  simp only [Raw.simple?, hNull, hTrue, hFalse, Bool.false_eq_true, if_false]
  by_cases hNegative : value < 0
  · simp [digits, hNegative, numberLength?_toDigits h]
  · simp only [digits, hNegative, if_false]
    split
    · next hMinus =>
        have hHead : (Nat.toDigits 10 value.natAbs).head? = some '-' := by
          rw [← List.head?_append_of_ne_nil _ Nat.toDigits_ne_nil, hMinus]
          rfl
        exact absurd hHead (head?_toDigits_ne_minus _)
    · simp [numberLength?_toDigits h]

theorem ofSource_toDigits (n : Nat) :
    Numeral.ofSource (Nat.toDigits 10 n) = ⟨false, Nat.toDigits 10 n, [], 0, true⟩ := by
  have hMinus : ((Nat.toDigits 10 n).head? == some '-') = false :=
    beq_false_of_ne (head?_toDigits_ne_minus n)
  simp only [Numeral.ofSource, hMinus, Bool.false_eq_true, if_false, takeWhile_isDigit_self,
    List.drop_length]
  rfl

theorem ofSource_minus (n : Nat) :
    Numeral.ofSource ('-' :: Nat.toDigits 10 n) = ⟨true, Nat.toDigits 10 n, [], 0, true⟩ := by
  have hMinus : (('-' :: Nat.toDigits 10 n).head? == some '-') = true := rfl
  simp only [Numeral.ofSource, hMinus, if_true, List.drop_succ_cons, List.drop_zero,
    takeWhile_isDigit_self, List.drop_length]
  rfl

/-- **Integers are read back.** -/
theorem number?_digits {value : Int} (hMin : minInt ≤ value) (hMax : value ≤ maxInt) :
    number? (digits value) = some (.int value) := by
  have hInteger : integer? (value < 0) (Nat.toDigits 10 value.natAbs) = some value := by
    simp only [integer?, Text.decimal?_toDigits, Option.bind_eq_bind, Option.bind_some]
    have hValue : (if decide (value < 0) = true then -(value.natAbs : Int) else value.natAbs) =
        value := by
      simp only [decide_eq_true_eq]
      split <;> omega
    have hZero : (decide (value < 0) && value.natAbs == 0) = false := by
      simp only [Bool.and_eq_false_iff, decide_eq_false_iff_not, beq_eq_false_iff_ne]
      omega
    rw [hValue, hZero]
    simp [Int.not_lt.2 hMin, Int.not_lt.2 hMax]
  unfold digits
  split
  · next hNegative =>
      simp only [hNegative, decide_true] at hInteger
      simp only [number?, ofSource_minus, if_true, hInteger]
  · next hNegative =>
      simp only [hNegative, decide_false] at hInteger
      simp only [number?, ofSource_toDigits, if_true, hInteger]

end StateGuard.Json
