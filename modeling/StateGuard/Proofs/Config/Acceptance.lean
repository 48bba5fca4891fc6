import Mathlib.Data.List.ReduceOption
import StateGuard.Config.Basic

/-!
# What acceptance of a configuration says

The rules ask for the role of a member and for the kind of an operator, and stop at the first answer.
A configuration is accepted only if there is no second one.

## Main results

* `Family.role?_of_payload`: in an accepted family the payload of a state has no other role.
* `Config.isPassthrough_of_isFilter`: an operator that filters elements does not count as one that
  keeps them.
-/

namespace StateGuard

/-! ## Families -/

namespace Family

theorem nodup_of_memberFlaw {seen members : List String} (h : memberFlaw? seen members = none) :
    members.Nodup ∧ ∀ member ∈ members, member ∉ seen := by
  induction members generalizing seen with
  | nil => simp
  | cons member rest ih =>
      rw [memberFlaw?] at h
      split at h
      · cases h
      · split at h
        · cases h
        · next hNew =>
            obtain ⟨hNodup, hRest⟩ := ih h
            have hHere : member ∉ rest := fun hMem => hRest member hMem List.mem_cons_self
            refine ⟨List.nodup_cons.2 ⟨hHere, hNodup⟩, List.forall_mem_cons.2 ⟨?_, ?_⟩⟩
            · simpa using hNew
            · exact fun other hOther hSeen => hRest other hOther (List.mem_cons_of_mem _ hSeen)

/-- **The members of an accepted family are different.** -/
theorem nodup_members {family : Family} (h : family.error? = none) : family.members.Nodup := by
  have hFlaw : family.flaw? = none := by simpa [error?] using h
  have hMembers : memberFlaw? [] family.members = none := by
    unfold flaw? at hFlaw
    repeat' split at hFlaw
    all_goals first | exact hFlaw | cases hFlaw
  exact (nodup_of_memberFlaw hMembers).1

/-- **The payload of a state has no other role.** -/
theorem role?_of_payload {family : Family} (h : family.error? = none) {state : State}
    {member : String} (hPayload : family.payload? state = some member) :
    family.role? member = some (.payload state) := by
  obtain ⟨-, hOptional, hApart⟩ := List.nodup_append.1 (nodup_members h)
  have hMem : member ∈ [family.okPayload, family.notOkPayload, family.okTryAccessor,
      family.notOkTryAccessor].reduceOption := by
    rw [List.reduceOption_mem_iff]
    cases state with
    | ok => exact List.mem_cons.2 (.inl hPayload.symm)
    | notOk => exact List.mem_cons_of_mem _ (List.mem_cons.2 (.inl hPayload.symm))
  have hOk : family.okDiscriminant ≠ member := hApart _ List.mem_cons_self _ hMem
  have hNotOk : family.notOkDiscriminant ≠ member :=
    hApart _ (List.mem_cons_of_mem _ List.mem_cons_self) _ hMem
  rw [role?, if_neg hOk.symm, if_neg hNotOk.symm]
  cases state with
  | ok => exact if_pos hPayload.symm
  | notOk =>
      have hPayload' : family.notOkPayload = some member := hPayload
      have hOther : some member ≠ family.okPayload := by
        intro hSame
        simp [← hSame, hPayload', List.reduceOption] at hOptional
      rw [if_neg hOther, if_pos hPayload'.symm]

end Family

theorem Config.error?_of_family {config : Config} (h : config.error? = none) {index : Nat}
    {family : Family} (hFamily : config.families[index]? = some family) : family.error? = none := by
  have hFamilies : familiesError? config.families = none := by
    simp only [Config.error?, List.findSome?_eq_none_iff] at h
    exact h (familiesError? config.families) (by simp)
  unfold familiesError? at hFamilies
  split at hFamilies
  · cases hFamilies
  · split at hFamilies
    · cases hFamilies
    · next hNone => exact List.findSome?_eq_none_iff.1 hNone family (List.mem_of_getElem? hFamily)

/-! ## Operators -/

/-- An operator of an accepted configuration does not both filter elements and keep them. -/
theorem Config.isPassthrough_of_isFilter {config : Config} (h : config.error? = none)
    {method : String} (hFilter : config.pipeline.isFilter method = true) :
    config.pipeline.isPassthrough method = false := by
  have hPipeline : config.pipeline.error? = none := by
    simp only [Config.error?, List.findSome?_eq_none_iff] at h
    exact h config.pipeline.error? (by simp)
  have hConflict : conflict? "filter_methods" config.pipeline.filterMethods "passthrough_methods"
      config.pipeline.passthroughMethods = none := by
    unfold Pipeline.error? at hPipeline
    split at hPipeline
    · simp at hPipeline
    · simp only [List.findSome?_eq_none_iff] at hPipeline
      exact hPipeline (conflict? ..) (by simp)
  simp only [conflict?, Option.map_eq_none_iff, List.find?_eq_none, Bool.not_eq_true] at hConflict
  exact hConflict method (List.contains_iff_mem.1 hFilter)

end StateGuard
