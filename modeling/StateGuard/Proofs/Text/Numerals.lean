import Mathlib.Data.List.Basic
import StateGuard.Text.Template

/-!
# Numerals and keys of documents

Documents of both formats write numbers in decimal digits and records by their keys.  Here is what
reading either goes back to: the digits of a number have its value and begin with no zero that could
be left out, and keys that are all different are none too many.
-/

namespace StateGuard.Text

theorem isDigit_of_mem_toDigits {n : Nat} {c : Char} (h : c ∈ Nat.toDigits 10 n) :
    c.isDigit = true :=
  Nat.isDigit_of_mem_toDigits (by decide) (by decide) h

/-- What is read as a number: some digits and nothing else. -/
theorem decimal?_eq_some_iff {digits : List Char} {n : Nat} :
    decimal? digits = some n ↔
      digits ≠ [] ∧ (∀ d ∈ digits, d.isDigit = true) ∧ Nat.ofDigitChars 10 digits 0 = n := by
  rw [decimal?, Nat.ofDigitChars_eq_foldl]
  split
  · next hBad =>
      simp only [Bool.or_eq_true, List.isEmpty_iff, Bool.not_eq_true', List.all_eq_false] at hBad
      simp only [reduceCtorEq, false_iff, not_and]
      rintro hSome hDigits -
      rcases hBad with hNone | ⟨d, hd, hOther⟩
      · exact hSome hNone
      · exact hOther (hDigits d hd)
  · next hGood =>
      simp only [Bool.or_eq_true, List.isEmpty_iff, Bool.not_eq_true', not_or,
        Bool.not_eq_false, List.all_eq_true] at hGood
      rw [Option.some.injEq]
      exact ⟨fun h => ⟨hGood.1, hGood.2, h⟩, fun h => h.2.2⟩

/-- The digits of a number have its value. -/
@[simp]
theorem decimal?_toDigits (n : Nat) : decimal? (Nat.toDigits 10 n) = some n :=
  decimal?_eq_some_iff.2
    ⟨Nat.toDigits_ne_nil, fun _ => isDigit_of_mem_toDigits, Nat.ofDigitChars_ten_toDigits⟩

/-- A number that is not zero does not begin with the digit zero. -/
theorem head?_toDigits_ne_zero {n : Nat} (h : 0 < n) : (Nat.toDigits 10 n).head? ≠ some '0' := by
  induction n using Nat.strongRecOn with
  | ind n ih =>
      by_cases hSmall : n < 10
      · have hDigit : ∀ d < 10, 0 < d → d.digitChar ≠ '0' := by decide
        rw [Nat.toDigits_of_lt_base hSmall]
        simpa using hDigit n hSmall h
      · rw [Nat.toDigits_of_base_le (by decide) (by omega), List.head?_append_of_ne_nil _
          Nat.toDigits_ne_nil]
        exact ih (n / 10) (by omega) (by omega)

/-- Digits that begin with a zero are the digit zero alone. -/
theorem toDigits_eq_of_head? {n : Nat} (h : (Nat.toDigits 10 n).head? = some '0') :
    Nat.toDigits 10 n = ['0'] := by
  rcases Nat.eq_zero_or_pos n with rfl | hPos
  · rfl
  · exact absurd h (head?_toDigits_ne_zero hPos)

/-- Names that are all different are none too many. -/
theorem eraseDups_eq_self_of_nodup {names : List String} (h : names.Nodup) :
    names.eraseDups = names := by
  induction names with
  | nil => rfl
  | cons name rest ih =>
      obtain ⟨hNew, hRest⟩ := List.nodup_cons.1 h
      have hFilter : rest.filter (fun other => !other == name) = rest := by
        rw [List.filter_eq_self]
        rintro other hOther
        have hNe : other ≠ name := fun hEq => hNew (hEq ▸ hOther)
        simp [hNe]
      rw [List.eraseDups_cons, hFilter, ih hRest]

theorem length_eraseDups_le (names : List String) : names.eraseDups.length ≤ names.length := by
  match names with
  | [] => simp
  | name :: rest =>
      rw [List.eraseDups_cons, List.length_cons, List.length_cons]
      have hFilter := List.length_filter_le (fun other => !other == name) rest
      have hRest := length_eraseDups_le (rest.filter fun other => !other == name)
      omega
termination_by names.length
decreasing_by exact Nat.lt_succ_of_le (List.length_filter_le _ _)

/-- Names of which none is too many are all different. -/
theorem nodup_of_length_eraseDups {names : List String}
    (h : names.eraseDups.length = names.length) : names.Nodup := by
  induction names with
  | nil => exact List.nodup_nil
  | cons name rest ih =>
      rw [List.eraseDups_cons, List.length_cons, List.length_cons] at h
      have hFilter := List.length_filter_le (fun other => !other == name) rest
      have hErase := length_eraseDups_le (rest.filter fun other => !other == name)
      have hSame : rest.filter (fun other => !other == name) = rest :=
        List.length_filter_eq_length_iff.1 (by omega) |> List.filter_eq_self.2
      rw [hSame] at h
      refine List.nodup_cons.2 ⟨fun hMem => ?_, ih (by omega)⟩
      have hNe := List.filter_eq_self.1 hSame name hMem
      simp at hNe

/-- The value of a key that occurs once. -/
theorem lookup_eq_some_iff {κ α : Type} [BEq κ] [LawfulBEq κ] {entries : List (κ × α)}
    (h : (entries.map (·.1)).Nodup) {key : κ} {value : α} :
    entries.lookup key = some value ↔ (key, value) ∈ entries := by
  induction entries with
  | nil => simp
  | cons entry rest ih =>
      obtain ⟨other, found⟩ := entry
      obtain ⟨hNew, hRest⟩ := List.nodup_cons.1 h
      by_cases hEq : key = other
      · subst hEq
        have hOnce : (key, value) ∉ rest := fun hMem => hNew (List.mem_map.2 ⟨_, hMem, rfl⟩)
        simp [hOnce, eq_comm]
      · have hBeq : (key == other) = false := beq_false_of_ne hEq
        simp [List.lookup_cons, hBeq, hEq, ih hRest]

theorem mem_of_lookup {κ α : Type} [BEq κ] [LawfulBEq κ] {entries : List (κ × α)} {key : κ}
    {value : α} (h : entries.lookup key = some value) : (key, value) ∈ entries := by
  induction entries with
  | nil => simp at h
  | cons entry rest ih =>
      obtain ⟨other, found⟩ := entry
      rw [List.lookup_cons] at h
      split at h
      · next hEq =>
          obtain rfl := eq_of_beq hEq
          obtain rfl := Option.some.inj h
          exact List.mem_cons_self
      · exact List.mem_cons_of_mem _ (ih h)

end StateGuard.Text
