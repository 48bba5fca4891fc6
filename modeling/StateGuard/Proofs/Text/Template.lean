import Mathlib.Data.List.Basic
import StateGuard.Proofs.Text.Numerals

/-!
# The places of a template

A template can be taken apart in exactly one way into places and stretches of text that hold none.
What the places are depends on the template and on the number of the arguments, and so not on
what the arguments say.  Filling a template puts each argument between the stretches as it is.

A place ends with the first closing brace behind its opening brace, as no number holds one, and for
the same reason two places never overlap.

## Main results

* `placeIndex?_eq_some_iff`, `place?_eq_some_iff`: what is read as a number, and as a place.
* `exists_isCutOf`: a template can be taken apart, and filling it fills the places.
* `Cut.eq_of_isCutOf`: it can be taken apart in one way only.
* `fillTemplate_replaces_places`: both, for texts.
-/

namespace StateGuard.Text

/-! ## Numbers -/

/-- The decimal digits of a number, perhaps behind a plus sign. -/
def IsNumeral (text : List Char) (n : Nat) : Prop :=
  ∃ sign digits, text = sign ++ digits ∧ (sign = [] ∨ sign = ['+']) ∧ digits ≠ [] ∧
    (∀ d ∈ digits, d.isDigit = true) ∧ Nat.ofDigitChars 10 digits 0 = n

/-- **A number is read exactly from its digits, with or without a plus sign.** -/
theorem placeIndex?_eq_some_iff {text : List Char} {n : Nat} :
    placeIndex? text = some n ↔ IsNumeral text n := by
  constructor
  · intro h
    unfold placeIndex? at h
    split at h
    · next digits =>
        obtain ⟨hSome, hDigits, hValue⟩ := decimal?_eq_some_iff.1 h
        exact ⟨['+'], digits, rfl, Or.inr rfl, hSome, hDigits, hValue⟩
    · obtain ⟨hSome, hDigits, hValue⟩ := decimal?_eq_some_iff.1 h
      exact ⟨[], text, rfl, Or.inl rfl, hSome, hDigits, hValue⟩
  · rintro ⟨sign, digits, rfl, rfl | rfl, hSome, hDigits, hValue⟩
    · have hDecimal := decimal?_eq_some_iff.2 ⟨hSome, hDigits, hValue⟩
      cases digits with
      | nil => exact absurd rfl hSome
      | cons d digits =>
          have hPlus : d ≠ '+' := by
            rintro rfl
            exact absurd (hDigits '+' List.mem_cons_self) (by decide)
          rw [List.nil_append, placeIndex?.eq_2]
          · exact hDecimal
          · rintro more hMore
            exact hPlus (List.cons.inj hMore).1
    · exact decimal?_eq_some_iff.2 ⟨hSome, hDigits, hValue⟩

/-- A numeral holds nothing but digits and a sign. -/
theorem IsNumeral.notMem {text : List Char} {n : Nat} (h : IsNumeral text n) {c : Char}
    (hDigit : c.isDigit = false) (hSign : c ≠ '+') : c ∉ text := by
  obtain ⟨sign, digits, rfl, hSigns, -, hDigits, -⟩ := h
  intro hMem
  rcases List.mem_append.1 hMem with hMem | hMem
  · rcases hSigns with rfl | rfl
    · cases hMem
    · exact hSign (List.mem_singleton.1 hMem)
  · rw [hDigits c hMem] at hDigit
    cases hDigit

section Closing

variable {text : List Char} {n : Nat}

theorem IsNumeral.all_before_brace (h : IsNumeral text n) :
    ∀ c ∈ text, decide (c ≠ '\x7d') = true := by
  intro c hc
  refine decide_eq_true ?_
  rintro rfl
  exact h.notMem (by decide) (by decide) hc

/-- A numeral ends at the first closing brace behind it. -/
theorem IsNumeral.takeWhile_eq (h : IsNumeral text n) (after : List Char) :
    (text ++ '\x7d' :: after).takeWhile (fun c => decide (c ≠ '\x7d')) = text := by
  rw [List.takeWhile_append_of_pos h.all_before_brace, List.takeWhile_cons_of_neg (by decide),
    List.append_nil]

theorem IsNumeral.dropWhile_eq (h : IsNumeral text n) (after : List Char) :
    (text ++ '\x7d' :: after).dropWhile (fun c => decide (c ≠ '\x7d')) = '\x7d' :: after := by
  rw [List.dropWhile_append_of_pos h.all_before_brace, List.dropWhile_cons_of_neg (by decide)]

end Closing

theorem IsNumeral.unique {text : List Char} {n m : Nat} (hn : IsNumeral text n)
    (hm : IsNumeral text m) : n = m :=
  Option.some.inj ((placeIndex?_eq_some_iff.2 hn).symm.trans (placeIndex?_eq_some_iff.2 hm))

/-! ## Places -/

/-- A place for one of `count` arguments, with its number as it is written.  There are never so many
arguments that one of their numbers would not fit into a word. -/
@[ext]
structure Place (count : Nat) where
  number : List Char
  index : Fin count
  isNumeral : IsNumeral number index

/-- A place as it stands in a template. -/
def Place.text {count : Nat} (place : Place count) : List Char :=
  '\x7b' :: (place.number ++ ['\x7d'])

/-- Some stretch of a text is a place for one of `count` arguments. -/
def HoldsPlace (count : Nat) (text : List Char) : Prop :=
  ∃ place : Place count, place.text <:+: text

theorem not_holdsPlace_nil (count : Nat) : ¬ HoldsPlace count [] := by
  rintro ⟨place, hPlace⟩
  cases List.eq_nil_of_infix_nil hPlace

/-- **A place is a number in range, up to the first closing brace.** -/
theorem place?_eq_some_iff {args : List String} {rest after : List Char} {arg : String} :
    place? args rest = some (arg, after) ↔
      ∃ place : Place args.length,
        rest = place.number ++ '\x7d' :: after ∧ args[place.index] = arg := by
  constructor
  · intro h
    unfold place? at h
    split at h
    · cases h
    · next brace behind hDrop =>
        simp only [Option.bind_eq_bind, Option.bind_eq_some_iff, Option.pure_def,
          Option.some.injEq, Prod.mk.injEq] at h
        obtain ⟨index, hIndex, found, hFound, rfl, rfl⟩ := h
        obtain ⟨hRange, rfl⟩ := List.getElem?_eq_some_iff.1 hFound
        refine ⟨⟨_, ⟨index, hRange⟩, placeIndex?_eq_some_iff.1 hIndex⟩, ?_, rfl⟩
        have hBrace : brace = '\x7d' := by
          have hHead := List.head?_dropWhile_not (fun c => decide (c ≠ '\x7d')) rest
          rw [hDrop] at hHead
          simpa using hHead
        have hSplit := List.takeWhile_append_dropWhile (p := fun c => decide (c ≠ '\x7d')) (l := rest)
        rw [hDrop, hBrace] at hSplit
        exact hSplit.symm
  · rintro ⟨⟨number, index, hNumeral⟩, rfl, rfl⟩
    have hFound : args[(index : Nat)]? = some args[index] := List.getElem?_eq_getElem index.isLt
    rw [place?, hNumeral.dropWhile_eq]
    simp only [hNumeral.takeWhile_eq, placeIndex?_eq_some_iff.2 hNumeral, hFound, Option.bind_eq_bind,
      Option.bind_some, Option.pure_def]

/-- A place begins in front of a text only if it is read there. -/
theorem exists_place?_of_prefix {args : List String} {rest : List Char}
    (place : Place args.length) (h : place.text <+: '\x7b' :: rest) :
    ∃ arg after, place? args rest = some (arg, after) := by
  obtain ⟨after, hAfter⟩ := h
  have hRest : rest = place.number ++ '\x7d' :: after := by
    have hTail := (List.cons.inj hAfter).2
    simpa using hTail.symm
  exact ⟨_, after, place?_eq_some_iff.2 ⟨place, hRest, rfl⟩⟩

/-! ## Taking a template apart -/

/-- A place with the text behind it, up to the next place. -/
abbrev Part (count : Nat) := Place count × List Char

/-- A template as the text before its first place, and its places with the text behind each. -/
structure Cut (count : Nat) where
  lead : List Char
  parts : List (Part count)

namespace Cut

variable {count : Nat}

/-- Some places with the text behind each, as they stand in a template. -/
def partsText (parts : List (Part count)) : List Char :=
  parts.flatMap fun part => part.1.text ++ part.2

/-- The template that was taken apart. -/
def text (cut : Cut count) : List Char := cut.lead ++ partsText cut.parts

/-- The stretches of text before, between and behind the places. -/
def literals (cut : Cut count) : List (List Char) := cut.lead :: cut.parts.map (·.2)

/-- Each place is replaced by its argument, and nothing else is. -/
def filled (args : List String) (cut : Cut args.length) : List Char :=
  cut.lead ++ cut.parts.flatMap fun part => args[part.1.index].toList ++ part.2

theorem partsText_cons (part : Part count) (parts : List (Part count)) :
    partsText (part :: parts) =
      '\x7b' :: (part.1.number ++ '\x7d' :: (part.2 ++ partsText parts)) := by
  simp [partsText, Place.text]

/-- The parts make up the template, and no stretch of text between the places holds another. -/
structure IsCutOf (template : List Char) (cut : Cut count) : Prop where
  text_eq : cut.text = template
  literals_hold_none : ∀ literal ∈ cut.literals, ¬ HoldsPlace count literal

/-- The text before the first place, continued by one character that is not the beginning of a
place. -/
theorem IsCutOf.cons {template : List Char} {cut : Cut count} (h : cut.IsCutOf template) {c : Char}
    (hNone : ∀ place : Place count, ¬ place.text <+: c :: cut.lead) :
    (Cut.mk (c :: cut.lead) cut.parts).IsCutOf (c :: template) where
  text_eq := congrArg (c :: ·) h.text_eq
  literals_hold_none := by
    intro literal hLiteral
    rcases List.mem_cons.1 hLiteral with rfl | hRest
    · rintro ⟨place, hPlace⟩
      rcases List.infix_cons_iff.1 hPlace with hFront | hInner
      · exact hNone place hFront
      · exact h.literals_hold_none cut.lead List.mem_cons_self ⟨place, hInner⟩
    · exact h.literals_hold_none literal (List.mem_cons_of_mem _ hRest)

/-- A place before a template that has been taken apart. -/
theorem IsCutOf.place {template : List Char} {cut : Cut count} (h : cut.IsCutOf template)
    (place : Place count) :
    (Cut.mk [] ((place, cut.lead) :: cut.parts)).IsCutOf
      ('\x7b' :: (place.number ++ '\x7d' :: template)) where
  text_eq := by
    rw [text, partsText_cons, ← h.text_eq]
    rfl
  literals_hold_none := by
    intro literal hLiteral
    rcases List.mem_cons.1 hLiteral with rfl | hRest
    · exact not_holdsPlace_nil count
    · exact h.literals_hold_none literal hRest

end Cut

/-- **A template can be taken apart, and filling it puts the arguments in.** -/
theorem exists_isCutOf (args : List String) (template : List Char) :
    ∃ cut : Cut args.length, cut.IsCutOf template ∧ fillChars args template = cut.filled args := by
  fun_induction fillChars args template with
  | case1 =>
      refine ⟨⟨[], []⟩, ⟨rfl, ?_⟩, rfl⟩
      simpa [Cut.literals] using not_holdsPlace_nil args.length
  | case2 rest arg after hPlace ih =>
      obtain ⟨cut, hCut, hFilled⟩ := ih
      obtain ⟨place, rfl, rfl⟩ := place?_eq_some_iff.1 hPlace
      refine ⟨_, hCut.place place, ?_⟩
      rw [hFilled]
      simp [Cut.filled]
  | case3 rest hPlace ih =>
      obtain ⟨cut, hCut, hFilled⟩ := ih
      refine ⟨_, hCut.cons fun place hFront => ?_, congrArg ('\x7b' :: ·) hFilled⟩
      -- what is read as a place in front of the lead is read in front of the rest of the template
      have hWhole : '\x7b' :: cut.lead <+: '\x7b' :: rest := by
        rw [← hCut.text_eq]
        exact List.prefix_append _ _
      obtain ⟨arg, after, hSome⟩ := exists_place?_of_prefix place (hFront.trans hWhole)
      rw [hPlace] at hSome
      cases hSome
  | case4 c rest hc ih =>
      obtain ⟨cut, hCut, hFilled⟩ := ih
      refine ⟨_, hCut.cons fun place hFront => ?_, congrArg (c :: ·) hFilled⟩
      obtain ⟨more, hMore⟩ := hFront
      exact hc (List.cons.inj hMore).1.symm

/-! ## Only one way -/

section Uniqueness

variable {count : Nat}

theorem HoldsPlace.mono {part text : List Char} (h : HoldsPlace count part) (hPart : part <:+: text) :
    HoldsPlace count text := by
  obtain ⟨place, hPlace⟩ := h
  exact ⟨place, hPlace.trans hPart⟩

theorem head_eq_of_partsText {parts : List (Part count)} {c : Char} {more : List Char}
    (h : Cut.partsText parts = c :: more) : c = '\x7b' := by
  cases parts with
  | nil => cases h
  | cons part parts => exact (List.cons.inj h).1.symm

/-- **Places never overlap.** A text that ends inside a place, in front of another one, is empty. -/
theorem eq_nil_of_partsText_eq {parts others : List (Part count)} {text : List Char}
    (h : Cut.partsText parts = text ++ Cut.partsText others)
    (hNone : ¬ HoldsPlace count text) : text = [] := by
  cases parts with
  | nil => exact (List.append_eq_nil_iff.1 h.symm).1
  | cons part parts =>
      cases text with
      | nil => rfl
      | cons c text =>
          rw [Cut.partsText_cons] at h
          obtain ⟨rfl, hBoth⟩ := List.cons.inj h
          -- the text ends behind the number of the place, or within it
          rcases List.append_eq_append_iff.1 hBoth with ⟨gap, rfl, hGap⟩ | ⟨gap, hNumber, hGap⟩
          · cases gap with
            | nil => exact absurd (head_eq_of_partsText hGap.symm) (by decide)
            | cons c gap =>
                obtain ⟨rfl, -⟩ := List.cons.inj hGap
                exact absurd ⟨part.1, [], gap, by simp [Place.text]⟩ hNone
          · cases gap with
            | nil => exact absurd (head_eq_of_partsText hGap) (by decide)
            | cons c gap =>
                obtain rfl := head_eq_of_partsText hGap
                exact absurd (hNumber ▸ List.mem_append_right _ List.mem_cons_self)
                  (part.1.isNumeral.notMem (by decide) (by decide))

namespace Cut

variable {template : List Char}

theorem lead_eq_of_isCutOf {cut other : Cut count} (h : cut.IsCutOf template)
    (hOther : other.IsCutOf template) : cut.lead = other.lead := by
  have hNone := h.literals_hold_none cut.lead List.mem_cons_self
  have hOtherNone := hOther.literals_hold_none other.lead List.mem_cons_self
  rcases List.append_eq_append_iff.1 (h.text_eq.trans hOther.text_eq.symm) with
    ⟨gap, hLead, hGap⟩ | ⟨gap, hLead, hGap⟩
  · have hNil : gap = [] := eq_nil_of_partsText_eq hGap fun hHolds =>
      hOtherNone (hHolds.mono (hLead ▸ (List.suffix_append _ _).isInfix))
    rw [hLead, hNil, List.append_nil]
  · have hNil : gap = [] := eq_nil_of_partsText_eq hGap fun hHolds =>
      hNone (hHolds.mono (hLead ▸ (List.suffix_append _ _).isInfix))
    rw [hLead, hNil, List.append_nil]

/-- What stands behind the first place has been taken apart, too. -/
theorem IsCutOf.behind {lead : List Char} {part : Part count} {parts : List (Part count)}
    (h : (Cut.mk lead (part :: parts)).IsCutOf template) :
    (Cut.mk part.2 parts).IsCutOf (part.2 ++ partsText parts) where
  text_eq := rfl
  literals_hold_none := fun literal hLiteral =>
    h.literals_hold_none literal (List.mem_cons_of_mem _ hLiteral)

/-- Both numbers reach to the first closing brace. -/
theorem place_eq_of_text_eq {place other : Place count} {rest otherRest : List Char}
    (h : place.number ++ '\x7d' :: rest = other.number ++ '\x7d' :: otherRest) :
    place = other ∧ rest = otherRest := by
  have hNumber : place.number = other.number := by
    rw [← place.isNumeral.takeWhile_eq rest, h, other.isNumeral.takeWhile_eq]
  have hIndex : place.index = other.index :=
    Fin.ext (place.isNumeral.unique (hNumber ▸ other.isNumeral))
  rw [hNumber] at h
  exact ⟨Place.ext hNumber hIndex, (List.cons.inj (List.append_cancel_left h)).2⟩

/-- **A template can be taken apart in one way only.** -/
theorem eq_of_isCutOf {cut other : Cut count} (h : cut.IsCutOf template)
    (hOther : other.IsCutOf template) : cut = other := by
  obtain ⟨lead, parts⟩ := cut
  obtain ⟨otherLead, others⟩ := other
  induction parts generalizing lead otherLead others template with
  | nil =>
      obtain rfl : lead = otherLead := lead_eq_of_isCutOf h hOther
      have hParts := List.append_cancel_left (h.text_eq.trans hOther.text_eq.symm)
      cases others with
      | nil => rfl
      | cons other others => cases hParts
  | cons part parts ih =>
      obtain rfl : lead = otherLead := lead_eq_of_isCutOf h hOther
      have hParts := List.append_cancel_left (h.text_eq.trans hOther.text_eq.symm)
      cases others with
      | nil => cases hParts
      | cons other others =>
          rw [partsText_cons, partsText_cons] at hParts
          obtain ⟨hPlace, hRest⟩ := place_eq_of_text_eq (List.cons.inj hParts).2
          have hOtherBehind := hOther.behind
          rw [← hRest] at hOtherBehind
          obtain ⟨hText, rfl⟩ := Cut.mk.inj (ih _ h.behind _ _ hOtherBehind)
          rw [Prod.ext hPlace hText]

end Cut

end Uniqueness

/-- **Templates are filled in one pass.**  A template can be taken apart in exactly one way into places
for the arguments and stretches of text that hold no place, and filling it puts the argument of each
place, as it is, between the stretches, as they are. -/
theorem fillTemplate_replaces_places (template : String) (args : List String) :
    ∃ cut : Cut args.length, cut.IsCutOf template.toList ∧
      (∀ other : Cut args.length, other.IsCutOf template.toList → other = cut) ∧
      fillTemplate template args = String.ofList (cut.filled args) := by
  obtain ⟨cut, hCut, hFilled⟩ := exists_isCutOf args template.toList
  refine ⟨cut, hCut, fun other hOther => Cut.eq_of_isCutOf hOther hCut, ?_⟩
  rw [fillTemplate, hFilled]

/-- Braces inside braces, numbers out of range, and arguments that look like places. -/
example :
    fillTemplate "\x7b\x7b+1\x7d\x7b2\x7d\x7bx\x7d\x7b00\x7d\x7d\x7b" ["\x7b1\x7d", "\x7b0\x7d"] =
      "\x7b\x7b0\x7d\x7b2\x7d\x7bx\x7d\x7b1\x7d\x7d\x7b" := by
  cbv

end StateGuard.Text
