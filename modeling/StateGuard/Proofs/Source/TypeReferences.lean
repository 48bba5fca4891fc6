import StateGuard.Proofs.Source.Programs
import StateGuard.Proofs.Source.Reading

/-!
# The texts of type references

A type is a name with dots, perhaps type arguments between angle brackets, and perhaps a question mark.
The grammar relates the lexemes before a type to those after it, so it does not say where a type has to
end; the reader takes as much as it can.  Both agree as soon as what follows cannot belong to the type.

## Main results

* `Parser.takesType_of_typeRef`: what is read as a type is one.
* `Parser.TakesType.typeRef_eq`: a type is read as it stands if nothing of what follows belongs to it.
-/

namespace StateGuard

namespace Parser

variable {resolve : String → String} {ts rest : List Lexeme} {type : TypeRef} {names : List String}

/-! ## The grammar -/

/-- A name with dots stands before some lexemes. -/
inductive TakesNames : List Lexeme → List String → List Lexeme → Prop where
  | last {name : String} {rest : List Lexeme} (hName : isKeyword name = false) :
      TakesNames (.word name :: rest) [name] rest
  | more {name : String} {names : List String} {ts rest : List Lexeme}
      (hName : isKeyword name = false) (hNames : TakesNames ts names rest) :
      TakesNames (.word name :: .symbol .dot :: ts) (name :: names) rest

/-- A question mark or nothing stands before some lexemes. -/
inductive TakesMark : List Lexeme → List Lexeme → Prop where
  | none {rest : List Lexeme} : TakesMark rest rest
  | question {rest : List Lexeme} : TakesMark (.symbol .question :: rest) rest

mutual
/-- A type stands before some lexemes. -/
inductive TakesType (resolve : String → String) : List Lexeme → TypeRef → List Lexeme → Prop where
  | named {names : List String} {ts mark rest : List Lexeme} (hNames : TakesNames ts names mark)
      (hMark : TakesMark mark rest) : TakesType resolve ts (.named (fullName resolve names)) rest
  | generic {names : List String} {args : List TypeRef} {ts inner mark rest : List Lexeme}
      (hNames : TakesNames ts names (.symbol .lt :: inner))
      (hArgs : TakesArguments resolve inner args mark) (hMark : TakesMark mark rest) :
      TakesType resolve ts (.generic (fullName resolve names) args) rest

/-- Types with commas between them and a closing bracket stand before some lexemes. -/
inductive TakesArguments (resolve : String → String) :
    List Lexeme → List TypeRef → List Lexeme → Prop where
  | last {arg : TypeRef} {ts rest : List Lexeme}
      (hArg : TakesType resolve ts arg (.symbol .gt :: rest)) : TakesArguments resolve ts [arg] rest
  | more {arg : TypeRef} {args : List TypeRef} {ts others rest : List Lexeme}
      (hArg : TakesType resolve ts arg (.symbol .comma :: others))
      (hArgs : TakesArguments resolve others args rest) :
      TakesArguments resolve ts (arg :: args) rest
end

/-- Nothing of what follows can belong to a type before it. -/
def EndsType (rest : List Lexeme) : Prop :=
  ∀ t, rest.head? = some t → t ∉ [Lexeme.symbol .dot, .symbol .lt, .symbol .question]

theorem EndsType.head?_ne (h : EndsType rest) {t : Lexeme}
    (ht : t ∈ [Lexeme.symbol .dot, .symbol .lt, .symbol .question]) : rest.head? ≠ some t :=
  fun hHead => h t hHead ht

theorem endsType_cons {t : Lexeme} (ht : t ∉ [Lexeme.symbol .dot, .symbol .lt, .symbol .question]) :
    EndsType (t :: rest) := by
  intro u hu
  obtain rfl := Option.some.inj hu
  exact ht

/-- A type begins with a word that is not a keyword. -/
theorem TakesType.exists_word (h : TakesType resolve ts type rest) :
    ∃ name more, ts = .word name :: more ∧ isKeyword name = false := by
  have hWord : ∀ {ts names rest}, TakesNames ts names rest →
      ∃ name more, ts = .word name :: more ∧ isKeyword name = false := by
    intro ts names rest hNames
    cases hNames with
    | last hName => exact ⟨_, _, rfl, hName⟩
    | more hName _ => exact ⟨_, _, rfl, hName⟩
  cases h with
  | named hNames _ => exact hWord hNames
  | generic hNames _ _ => exact hWord hNames

/-! ## What is read is a type -/

theorem accept_eq_some {t : Lexeme} {ts : List Lexeme} {r : Parsed ts.length Unit}
    (h : accept t ts = some r) : ts = t :: r.rest := by
  cases ts with
  | nil => simp [accept] at h
  | cons u ts =>
      simp only [accept] at h
      split at h
      · next hEq =>
          obtain rfl := Option.some.inj h
          rw [hEq]
      · simp at h

theorem accept_eq_none_iff {t : Lexeme} {ts : List Lexeme} :
    accept t ts = none ↔ ts.head? ≠ some t := by
  cases ts with
  | nil => simp [accept]
  | cons u ts => simp [accept]

theorem expect_eq_ok {which : Symbol} {ts : List Lexeme} {r : Parsed ts.length Unit}
    (h : expect which ts = .ok r) : ts = .symbol which :: r.rest := by
  cases ts with
  | nil => simp [expect] at h
  | cons u ts =>
      simp only [expect] at h
      split at h
      · next hEq =>
          obtain rfl := Except.ok.inj h
          rw [hEq]
      · simp at h

theorem expectWord_eq_ok {what : Wanted} {ts : List Lexeme} {r : Parsed ts.length String}
    (h : expectWord what ts = .ok r) : ts = .word r.value :: r.rest ∧ isKeyword r.value = false := by
  unfold expectWord at h
  split at h
  · split at h
    · simp at h
    · next hName =>
        obtain rfl := Except.ok.inj h
        exact ⟨rfl, by simpa using hName⟩
  · simp at h

theorem takesNames_of_qualifiedName (ts : List Lexeme) {r : Parsed ts.length (List String)}
    (h : qualifiedName ts = .ok r) : TakesNames ts r.value r.rest := by
  rw [qualifiedName.eq_def] at h
  obtain ⟨⟨name, rest, fits⟩, hWord, h⟩ := exists_of_bind_eq_ok h
  obtain ⟨hText, hName⟩ := expectWord_eq_ok hWord
  dsimp only at hText hName h
  subst hText
  split at h
  · obtain ⟨⟨names, after, _⟩, hNames, h⟩ := exists_of_bind_eq_ok h
    obtain rfl := Except.ok.inj h
    exact .more hName (takesNames_of_qualifiedName _ hNames)
  · obtain rfl := Except.ok.inj h
    exact .last hName
termination_by ts.length
decreasing_by grind

theorem takesMark_skipQuestion (ts : List Lexeme) : TakesMark ts (skipQuestion ts).rest := by
  unfold skipQuestion
  split
  · exact .question
  · exact .none

mutual
/-- **What is read as a type is one.** -/
theorem takesType_of_typeRef (ts : List Lexeme) {r : Parsed ts.length TypeRef}
    (h : typeRef resolve ts = .ok r) : TakesType resolve ts r.value r.rest := by
  rw [typeRef.eq_def] at h
  obtain ⟨⟨names, rest, fits⟩, hNames, h⟩ := exists_of_bind_eq_ok h
  have hTakes := takesNames_of_qualifiedName ts hNames
  dsimp only at hTakes h
  split at h
  · next more hMore hAccept =>
      obtain ⟨⟨args, mark, _⟩, hArgs, h⟩ := exists_of_bind_eq_ok h
      obtain rfl := Except.ok.inj h
      have hText := accept_eq_some hAccept
      dsimp only at hText
      rw [hText] at hTakes
      exact .generic hTakes (takesArguments_of_typeArguments _ hArgs) (takesMark_skipQuestion mark)
  · obtain rfl := Except.ok.inj h
    exact .named hTakes (takesMark_skipQuestion rest)
termination_by 2 * ts.length
decreasing_by grind

theorem takesArguments_of_typeArguments (ts : List Lexeme) {r : Parsed ts.length (List TypeRef)}
    (h : typeArguments resolve ts = .ok r) : TakesArguments resolve ts r.value r.rest := by
  rw [typeArguments.eq_def] at h
  obtain ⟨⟨arg, rest, fits⟩, hArg, h⟩ := exists_of_bind_eq_ok h
  have hTakes := takesType_of_typeRef ts hArg
  dsimp only at hTakes h
  split at h
  · next others hOthers hAccept =>
      obtain ⟨⟨args, after, _⟩, hArgs, h⟩ := exists_of_bind_eq_ok h
      obtain rfl := Except.ok.inj h
      have hText := accept_eq_some hAccept
      dsimp only at hText
      rw [hText] at hTakes
      exact .more hTakes (takesArguments_of_typeArguments _ hArgs)
  · obtain ⟨⟨_, after, _⟩, hExpect, h⟩ := exists_of_bind_eq_ok h
    obtain rfl := Except.ok.inj h
    have hText := expect_eq_ok hExpect
    dsimp only at hText
    rw [hText] at hTakes
    exact .last hTakes
termination_by 2 * ts.length + 1
decreasing_by all_goals grind
end

/-! ## A type is read as it stands -/

theorem TakesNames.reads (h : TakesNames ts names rest) (hEnd : rest.head? ≠ some (.symbol .dot)) :
    Reads (qualifiedName ts) (· = names) rest := by
  induction h with
  | @last name rest hName =>
      rw [qualifiedName.eq_def, expectWord, if_neg (by simp [hName])]
      simp only [bind, Except.bind]
      split
      · next hDot => simp at hEnd
      · exact Reads.done rfl
  | @more name names ts rest hName hNames ih =>
      obtain ⟨next, more, rfl⟩ : ∃ next more, ts = .word next :: more := by
        cases hNames with
        | last _ => exact ⟨_, _, rfl⟩
        | more _ _ => exact ⟨_, _, rfl⟩
      rw [qualifiedName.eq_def, expectWord, if_neg (by simp [hName])]
      simp only [bind, Except.bind]
      obtain ⟨r, hRead, hValue, hRest⟩ := ih hEnd
      rw [hRead]
      exact ⟨_, rfl, congrArg (name :: ·) hValue, hRest⟩

theorem TakesMark.rest_eq {mark : List Lexeme} (h : TakesMark mark rest) (hEnd : EndsType rest) :
    (skipQuestion mark).rest = rest := by
  cases h with
  | none =>
      unfold skipQuestion
      split
      · exact absurd rfl (hEnd.head?_ne (t := .symbol .question) (by simp))
      · rfl
  | question => rfl

/-- Neither a dot nor a bracket stands where a question mark may stand. -/
theorem TakesMark.head?_ne {mark : List Lexeme} (h : TakesMark mark rest) (hEnd : EndsType rest)
    {t : Lexeme} (ht : t ∈ [Lexeme.symbol .dot, .symbol .lt]) : mark.head? ≠ some t := by
  cases h with
  | none => exact hEnd.head?_ne (by simp at ht ⊢; tauto)
  | question =>
      rintro ⟨⟩
      simp at ht

mutual
/-- **A type is read as it stands** if nothing of what follows belongs to it. -/
theorem TakesType.reads {ts rest : List Lexeme} {type : TypeRef} (h : TakesType resolve ts type rest)
    (hEnd : EndsType rest) : Reads (typeRef resolve ts) (· = type) rest := by
  cases h with
  | named hNames hMark =>
      rw [typeRef.eq_def]
      refine (hNames.reads (hMark.head?_ne hEnd (by simp))).bind ?_
      rintro names fits rfl
      dsimp only
      split
      · next hAccept =>
          have hText := accept_eq_some hAccept
          exact absurd (by rw [hText]; rfl) (hMark.head?_ne hEnd (t := .symbol .lt) (by simp))
      · exact ⟨_, rfl, rfl, hMark.rest_eq hEnd⟩
  | generic hNames hArgs hMark =>
      rw [typeRef.eq_def]
      refine (hNames.reads (by simp)).bind ?_
      rintro names fits rfl
      dsimp only
      rw [accept_cons]
      refine (hArgs.reads).bind ?_
      rintro args fits rfl
      exact ⟨_, rfl, rfl, hMark.rest_eq hEnd⟩

theorem TakesArguments.reads {ts rest : List Lexeme} {args : List TypeRef}
    (h : TakesArguments resolve ts args rest) :
    Reads (typeArguments resolve ts) (· = args) rest := by
  cases h with
  | last hArg =>
      rw [typeArguments.eq_def]
      refine (hArg.reads (endsType_cons (by simp))).bind ?_
      rintro arg fits rfl
      dsimp only
      rw [accept_of_ne (by simp)]
      exact (reads_expect _ _).bind fun _ fits _ => Reads.done rfl
  | more hArg hArgs =>
      rw [typeArguments.eq_def]
      refine (hArg.reads (endsType_cons (by simp))).bind ?_
      rintro arg fits rfl
      dsimp only
      rw [accept_cons]
      refine hArgs.reads.bind ?_
      rintro args fits rfl
      exact Reads.done rfl
end

end Parser

end StateGuard
