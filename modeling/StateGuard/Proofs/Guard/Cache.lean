import StateGuard.Guard.Context

/-!
# Inquiries with a cache

A cache that holds only right classifications answers every inquiry as the configuration itself
would, and still holds only right ones afterwards.  So it does not matter for an answer what has
been asked before.
-/

namespace StateGuard

namespace Cache

/-- Every entry is the classification of its type. -/
def IsRight (classify : TypeRef → Classification) (cache : Cache) : Prop :=
  ∀ type answer, cache.find? type = some answer → answer = classify type

theorem isRight_empty (classify : TypeRef → Classification) : IsRight classify {} := by
  intro type answer h
  simp [find?] at h

/-- One question to a right cache gets the right answer and leaves the cache right. -/
theorem IsRight.classify {classify : TypeRef → Classification} {cache : Cache}
    (h : cache.IsRight classify) (type : TypeRef) :
    (cache.classify classify type).1 = classify type ∧
      (cache.classify classify type).2.IsRight classify := by
  cases hFound : cache.find? type with
  | some answer =>
      simp only [Cache.classify, hFound]
      exact ⟨h type answer hFound, h⟩
  | none =>
      simp only [Cache.classify, hFound]
      refine ⟨trivial, ?_⟩
      intro other answer hOther
      simp only [find?, List.lookup_cons] at hOther
      split at hOther
      · next hEq =>
          rw [eq_of_beq hEq]
          exact (Option.some.inj hOther).symm
      · exact h other answer hOther

end Cache

namespace Inquiry

variable {α : Type} {classify : TypeRef → Classification}

/-- **A right cache does not change an answer,** and it stays right. -/
theorem run_of_isRight (inquiry : Inquiry α) {cache : Cache} (h : cache.IsRight classify) :
    (inquiry.run classify cache).1 = inquiry.answer classify ∧
      (inquiry.run classify cache).2.IsRight classify := by
  induction inquiry generalizing cache with
  | done value => exact ⟨rfl, h⟩
  | ask type next ih =>
      obtain ⟨hAnswer, hRight⟩ := h.classify type
      have hNext := ih (classify type) hRight
      simp only [run, hAnswer, answer]
      exact hNext

end Inquiry

/-- What an inquiry about a unit comes to, whatever has been asked before. -/
abbrev Context.answer {α : Type} (ctx : Context) (inquiry : Inquiry α) : α :=
  inquiry.answer ctx.config.classify

end StateGuard
