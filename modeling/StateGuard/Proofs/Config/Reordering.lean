import Mathlib.Data.List.Forall2
import Mathlib.Data.List.Pairwise
import Mathlib.Data.List.Perm.Basic
import StateGuard.Guard.Classification
import StateGuard.Proofs.Config.Consistency

/-!
# Configurations in another order

Types, members and methods are looked up by scans that stop at the first match, and a family is known
by its position.  In an accepted configuration there is at most one match for each scan.  So when the
lists of the configuration are put into other orders, a lookup finds the same, up to the positions of
the families, which move with them.

## Main results

* `find?_eq_of_perm`: a scan with one match at most does not depend on the order.
* `Family.roleBy_of_perm`: neither does the role of a member.
* `Config.Reorders.isConsistent`: a configuration stays accepted.
* `Config.Reorders.exists_agreesWith`: the same meaning, with families in other places.
-/

namespace StateGuard

/-- **A scan with one match at most does not depend on the order.** -/
theorem find?_eq_of_perm {α : Type} {p : α → Bool} {l l' : List α} (h : l'.Perm l)
    (hOnce : l.Pairwise fun a b => ¬ (p a = true ∧ p b = true)) : l'.find? p = l.find? p := by
  have hFilter : (l'.filter p).Perm (l.filter p) := h.filter p
  have hSame : l'.filter p = l.filter p := by
    match hMatches : l.filter p with
    | [] => exact List.perm_nil.1 (hMatches ▸ hFilter)
    | [a] => exact List.perm_singleton.1 (hMatches ▸ hFilter)
    | a :: b :: rest =>
        have hTwo := hOnce.filter p
        rw [hMatches, List.pairwise_cons] at hTwo
        have ha : a ∈ l.filter p := by simp [hMatches]
        have hb : b ∈ l.filter p := by simp [hMatches]
        exact absurd ⟨(List.mem_filter.1 ha).2, (List.mem_filter.1 hb).2⟩ (hTwo.1 b (by simp))
  rw [← List.head?_filter, ← List.head?_filter, hSame]

theorem contains_eq_of_perm {names others : List String} (h : others.Perm names) (name : String) :
    others.contains name = names.contains name := by
  rw [Bool.eq_iff_iff, List.contains_iff_mem, List.contains_iff_mem, h.mem_iff]

theorem disjoint_of_perm {names others names' others' : List String} (h : names'.Perm names)
    (h' : others'.Perm others) (hApart : names.Disjoint others) : names'.Disjoint others' :=
  fun _ hName hOther => hApart (h.subset hName) (h'.subset hOther)

/-! ## Families -/

namespace Family

/-- The members of a family with their roles, a member that is absent without a name. -/
def roleTests (family : Family) : List (Option String × Role) :=
  [(some family.okDiscriminant, .discriminant .ok),
    (some family.notOkDiscriminant, .discriminant .notOk),
    (family.okPayload, .payload .ok), (family.notOkPayload, .payload .notOk),
    (family.okTryAccessor, .tryAccessor .ok), (family.notOkTryAccessor, .tryAccessor .notOk)]

/-- The role of a member when the roles are tested in the given order. -/
def roleBy (tests : List (Option String × Role)) (member : String) : Option Role :=
  (tests.find? fun test => some member = test.1).map (·.2)

theorem roleBy_roleTests (family : Family) (member : String) :
    roleBy family.roleTests member = family.role? member := by
  simp only [roleBy, roleTests, role?, List.find?_cons, List.find?_nil, Option.some.injEq]
  grind

theorem filterMap_roleTests (family : Family) :
    family.roleTests.filterMap (·.1) = family.members := by
  simp [roleTests, members, List.reduceOption, List.filterMap_cons]

/-- **The role of a member does not depend on the order in which the roles are tested.** -/
theorem roleBy_of_perm {family : Family} (h : family.IsConsistent)
    {tests : List (Option String × Role)} (hTests : tests.Perm family.roleTests) (member : String) :
    roleBy tests member = family.role? member := by
  have hNodup : family.roleTests.Pairwise fun test other =>
      ∀ name, test.1 = some name → ∀ name', other.1 = some name' → name ≠ name' := by
    rw [← List.pairwise_filterMap, filterMap_roleTests]
    exact h.nodup
  rw [← roleBy_roleTests, roleBy, roleBy, find?_eq_of_perm hTests]
  refine hNodup.imp fun {test other} hApart ⟨hTest, hOther⟩ => ?_
  exact hApart member (of_decide_eq_true hTest).symm member (of_decide_eq_true hOther).symm rfl

/-- The same family with its type names in another order. -/
structure Reorders (family other : Family) : Prop where
  typeNames : other.typeNames.Perm family.typeNames
  rest : other = { family with typeNames := other.typeNames }

namespace Reorders

variable {family other : Family} (h : family.Reorders other)
include h

theorem name : other.name = family.name := by rw [h.rest]

theorem role?_eq : other.role? = family.role? := by rw [h.rest]; rfl

theorem discriminant_eq : other.discriminant = family.discriminant := by rw [h.rest]; rfl

theorem payload?_eq : other.payload? = family.payload? := by rw [h.rest]; rfl

theorem mem_typeNames_iff {name : String} :
    name ∈ other.typeNames ↔ name ∈ family.typeNames := h.typeNames.mem_iff

theorem isConsistent (hFamily : family.IsConsistent) : other.IsConsistent := by
  have hMembers : other.members = family.members := by rw [h.rest]; rfl
  exact {
    name := h.name ▸ hFamily.name
    typeNames := fun hEmpty => hFamily.typeNames (List.perm_nil.1 (hEmpty ▸ h.typeNames).symm)
    definitions := fun name hName => hFamily.definitions name (h.mem_typeNames_iff.1 hName)
    okDiscriminant := by rw [h.rest]; exact hFamily.okDiscriminant
    notOkDiscriminant := by rw [h.rest]; exact hFamily.notOkDiscriminant
    payload := by rw [h.rest]; exact hFamily.payload
    named := hMembers ▸ hFamily.named
    nodup := hMembers ▸ hFamily.nodup }

theorem isApart {family' other' : Family} (h' : family'.Reorders other')
    (hApart : family.IsApart family') : other.IsApart other' := by
  refine ⟨h.name ▸ h'.name ▸ hApart.1, fun name hName hName' => ?_⟩
  exact hApart.2 (h.mem_typeNames_iff.1 hName) (h'.mem_typeNames_iff.1 hName')

end Reorders

end Family

/-! ## Whole configurations -/

namespace Config

/-- The same configuration with its lists in other orders: the families and the type names in each of
them, the tables of methods and names, and the rules to leave out. -/
structure Reorders (c d : Config) : Prop where
  families : ∃ arranged : List Family, arranged.Perm c.families ∧
    List.Forall₂ Family.Reorders arranged d.families
  asyncWrappers : d.asyncWrappers.Perm c.asyncWrappers
  nonThrowingFactories : d.nonThrowingFactories.Perm c.nonThrowingFactories
  dispatchMethods : d.callContexts.dispatchMethods.Perm c.callContexts.dispatchMethods
  okArgumentNames : d.callContexts.okArgumentNames.Perm c.callContexts.okArgumentNames
  notOkArgumentNames : d.callContexts.notOkArgumentNames.Perm c.callContexts.notOkArgumentNames
  okCombinators : d.callContexts.okCombinators.Perm c.callContexts.okCombinators
  notOkCombinators : d.callContexts.notOkCombinators.Perm c.callContexts.notOkCombinators
  projectionMethods : d.pipeline.projectionMethods.Perm c.pipeline.projectionMethods
  filterMethods : d.pipeline.filterMethods.Perm c.pipeline.filterMethods
  passthroughMethods : d.pipeline.passthroughMethods.Perm c.pipeline.passthroughMethods
  analysis : d.analysis = c.analysis
  disabledRules : d.disabledRules.Perm c.disabledRules

/-- A type name belongs to one family of a consistent configuration at most. -/
theorem familyIndex?_eq_some_iff {config : Config} (h : config.IsConsistent) {name : String}
    {index : Nat} : config.familyIndex? name = some index ↔
      ∃ family, config.families[index]? = some family ∧ name ∈ family.typeNames := by
  rw [familyIndex?, List.findIdx?_eq_some_iff_getElem]
  simp only [Family.matchesTypeName_iff]
  constructor
  · rintro ⟨hIndex, hName, -⟩
    exact ⟨config.families[index], List.getElem?_eq_getElem hIndex, hName⟩
  · rintro ⟨family, hFamily, hName⟩
    obtain ⟨hIndex, rfl⟩ := List.getElem?_eq_some_iff.1 hFamily
    refine ⟨hIndex, hName, fun earlier hEarlier hOther => ?_⟩
    have hApart := List.pairwise_iff_getElem.1 h.apart earlier index
      (Nat.lt_trans hEarlier hIndex) hIndex hEarlier
    exact hApart.2 hOther hName

end Config

/-- The same kind of type, with the family in another place. -/
def Classification.map (place : Nat → Nat) : Classification → Classification
  | .wrapper family => .wrapper (place family)
  | .asyncWrapper family => .asyncWrapper (place family)
  | .unrelated => .unrelated

theorem Classification.wrapper?_map (place : Nat → Nat) (classification : Classification) :
    (classification.map place).wrapper? = classification.wrapper?.map place := by
  cases classification <;> rfl

theorem Classification.asyncWrapper?_map (place : Nat → Nat) (classification : Classification) :
    (classification.map place).asyncWrapper? = classification.asyncWrapper?.map place := by
  cases classification <;> rfl

/-- The same kind of type, with families of one name, under two configurations. -/
inductive Classification.SameIn (c d : Config) : Classification → Classification → Prop
  | unrelated : SameIn c d .unrelated .unrelated
  | wrapper {i j : Nat} {family other : Family} (here : c.families[i]? = some family)
      (there : d.families[j]? = some other) (name : other.name = family.name) :
      SameIn c d (.wrapper i) (.wrapper j)
  | asyncWrapper {i j : Nat} {family other : Family} (here : c.families[i]? = some family)
      (there : d.families[j]? = some other) (name : other.name = family.name) :
      SameIn c d (.asyncWrapper i) (.asyncWrapper j)

namespace Config

/-- The second configuration gives types, members and methods the same meaning, but the family at a
position of the first stands at its place in the second. -/
structure AgreesWith (c d : Config) (place : Nat → Nat) : Prop where
  family : ∀ {index family}, c.families[index]? = some family →
    ∃ other, d.families[place index]? = some other ∧ family.Reorders other
  noFamily : ∀ {index}, c.families[index]? = none → d.families[place index]? = none
  classify : ∀ type, d.classify type = (c.classify type).map place
  callbackState : d.callContexts.callbackState? = c.callContexts.callbackState?
  isProjection : d.pipeline.isProjection = c.pipeline.isProjection
  isFilter : d.pipeline.isFilter = c.pipeline.isFilter
  isPassthrough : d.pipeline.isPassthrough = c.pipeline.isPassthrough
  isNonThrowingFactory : d.isNonThrowingFactory = c.isNonThrowingFactory
  crossLambdaBoundaries : d.analysis.crossLambdaBoundaries = c.analysis.crossLambdaBoundaries
  isRuleEnabled : d.isRuleEnabled = c.isRuleEnabled

/-- What does not depend on the order of type names is the same for the family in its place. -/
theorem AgreesWith.congr_family {α : Type} {c d : Config} {place : Nat → Nat}
    (h : c.AgreesWith d place) (f : Option Family → α)
    (hf : ∀ {family other}, family.Reorders other → f (some other) = f (some family))
    (index : Nat) : f d.families[place index]? = f c.families[index]? := by
  cases hFamily : c.families[index]? with
  | none => rw [h.noFamily hFamily]
  | some family =>
      obtain ⟨other, hOther, hReorders⟩ := h.family hFamily
      rw [hOther, hf hReorders]

theorem AgreesWith.role {c d : Config} {place : Nat → Nat} (h : c.AgreesWith d place)
    (family : Nat) (member : String) : d.role? (place family) member = c.role? family member :=
  h.congr_family (·.bind (·.role? member)) (fun hReorders => congrFun hReorders.role?_eq member)
    family

namespace Reorders

variable {c d : Config} (h : c.Reorders d)
include h

theorem exists_of_mem {other : Family} (hOther : other ∈ d.families) :
    ∃ family ∈ c.families, family.Reorders other := by
  obtain ⟨arranged, hPerm, hRelated⟩ := h.families
  obtain ⟨i, hi, rfl⟩ := List.getElem_of_mem hOther
  have hi' : i < arranged.length := hRelated.length_eq ▸ hi
  exact ⟨arranged[i], hPerm.subset (List.getElem_mem hi'), hRelated.get hi' hi⟩

theorem exists_other_of_mem {family : Family} (hFamily : family ∈ c.families) :
    ∃ other ∈ d.families, family.Reorders other := by
  obtain ⟨arranged, hPerm, hRelated⟩ := h.families
  obtain ⟨i, hi, rfl⟩ := List.getElem_of_mem (hPerm.symm.subset hFamily)
  have hi' : i < d.families.length := hRelated.length_eq ▸ hi
  exact ⟨d.families[i], List.getElem_mem hi', hRelated.get hi hi'⟩

theorem map_name_perm : (d.families.map (·.name)).Perm (c.families.map (·.name)) := by
  obtain ⟨arranged, hPerm, hRelated⟩ := h.families
  have hNames : d.families.map (·.name) = arranged.map (·.name) := by
    refine List.ext_getElem (by simp [hRelated.length_eq]) fun i hi hi' => ?_
    simpa using (hRelated.get (by simpa using hi') (by simpa using hi)).name
  exact hNames ▸ hPerm.map _

/-- **A configuration stays accepted** when its lists are put into other orders. -/
theorem isConsistent (hc : c.IsConsistent) : d.IsConsistent where
  families := by
    obtain ⟨arranged, hPerm, hRelated⟩ := h.families
    intro hEmpty
    rw [hEmpty, List.forall₂_nil_right_iff] at hRelated
    exact hc.families (List.perm_nil.1 (hRelated ▸ hPerm).symm)
  family := by
    intro other hOther
    obtain ⟨family, hFamily, hReorders⟩ := h.exists_of_mem hOther
    exact hReorders.isConsistent (hc.family family hFamily)
  apart := by
    obtain ⟨arranged, hPerm, hRelated⟩ := h.families
    have hArranged : arranged.Pairwise Family.IsApart :=
      hPerm.symm.pairwise hc.apart Family.IsApart.symm
    rw [List.pairwise_iff_getElem] at hArranged ⊢
    intro i j hi hj hLt
    have hi' : i < arranged.length := hRelated.length_eq ▸ hi
    have hj' : j < arranged.length := hRelated.length_eq ▸ hj
    exact (hRelated.get hi' hi).isApart (hRelated.get hj' hj) (hArranged i j hi' hj' hLt)
  asyncWrappers := by
    intro name hName other hOther
    obtain ⟨family, hFamily, hReorders⟩ := h.exists_of_mem hOther
    rw [hReorders.mem_typeNames_iff]
    exact hc.asyncWrappers name (h.asyncWrappers.mem_iff.1 hName) family hFamily
  factories := by
    rw [h.nonThrowingFactories.mem_iff]
    exact hc.factories
  callContexts := {
    combinators := disjoint_of_perm h.okCombinators h.notOkCombinators hc.callContexts.combinators
    dispatchOk := disjoint_of_perm h.dispatchMethods h.okCombinators hc.callContexts.dispatchOk
    dispatchNotOk :=
      disjoint_of_perm h.dispatchMethods h.notOkCombinators hc.callContexts.dispatchNotOk
    arguments := disjoint_of_perm h.okArgumentNames h.notOkArgumentNames hc.callContexts.arguments }
  pipeline := {
    projections := fun hEmpty =>
      hc.pipeline.projections (List.perm_nil.1 (hEmpty ▸ h.projectionMethods).symm)
    projectionFilter :=
      disjoint_of_perm h.projectionMethods h.filterMethods hc.pipeline.projectionFilter
    filterPassthrough :=
      disjoint_of_perm h.filterMethods h.passthroughMethods hc.pipeline.filterPassthrough }
  threads := h.analysis ▸ hc.threads
  rules := fun rule hRule => hc.rules rule (h.disabledRules.mem_iff.1 hRule)

/-- A type name leads to the same family, in its place. -/
theorem familyIndex?_eq (hc : c.IsConsistent) {place : Nat → Nat}
    (hPlace : ∀ {index family}, c.families[index]? = some family →
      ∃ other, d.families[place index]? = some other ∧ family.Reorders other) (name : String) :
    d.familyIndex? name = (c.familyIndex? name).map place := by
  cases hIndex : c.familyIndex? name with
  | some index =>
      obtain ⟨family, hFamily, hName⟩ := (familyIndex?_eq_some_iff hc).1 hIndex
      obtain ⟨other, hOther, hReorders⟩ := hPlace hFamily
      exact (familyIndex?_eq_some_iff (h.isConsistent hc)).2
        ⟨other, hOther, hReorders.mem_typeNames_iff.2 hName⟩
  | none =>
      rw [familyIndex?, List.findIdx?_eq_none_iff] at hIndex
      rw [Option.map_none, familyIndex?, List.findIdx?_eq_none_iff]
      intro other hOther
      obtain ⟨family, hFamily, hReorders⟩ := h.exists_of_mem hOther
      have hNot := hIndex family hFamily
      rw [← Bool.not_eq_true, Family.matchesTypeName_iff] at hNot ⊢
      rwa [hReorders.mem_typeNames_iff]

/-- A callback runs in the same state. -/
theorem callbackState?_eq : d.callContexts.callbackState? = c.callContexts.callbackState? := by
  funext method name position
  have hDispatch : d.callContexts.dispatchState? name position =
      c.callContexts.dispatchState? name position := by
    cases name with
    | none => rfl
    | some name =>
        unfold CallContexts.dispatchState?
        dsimp only
        rw [contains_eq_of_perm h.okArgumentNames, contains_eq_of_perm h.notOkArgumentNames]
  have hCombinator : d.callContexts.combinatorState? method =
      c.callContexts.combinatorState? method := by
    unfold CallContexts.combinatorState?
    rw [contains_eq_of_perm h.okCombinators, contains_eq_of_perm h.notOkCombinators]
  unfold CallContexts.callbackState? CallContexts.isDispatch
  rw [hDispatch, hCombinator, contains_eq_of_perm h.dispatchMethods]

/-- **Other orders have the same meaning,** with the families in other places. -/
theorem exists_agreesWith (hc : c.IsConsistent) : ∃ place, c.AgreesWith d place := by
  have hPlaces : ∀ index : Nat, ∃ place : Nat,
      (∀ family : Family, c.families[index]? = some family →
        ∃ other, d.families[place]? = some other ∧ family.Reorders other) ∧
      (c.families[index]? = none → d.families[place]? = none) := by
    intro index
    cases hFamily : c.families[index]? with
    | none => exact ⟨d.families.length, by simp, by simp⟩
    | some family =>
        obtain ⟨other, hOther, hReorders⟩ :=
          h.exists_other_of_mem (List.mem_of_getElem? hFamily)
        obtain ⟨place, hPlace⟩ := List.getElem?_of_mem hOther
        refine ⟨place, ?_, by simp⟩
        intro found hFound
        obtain rfl := Option.some.inj hFound
        exact ⟨other, hPlace, hReorders⟩
  choose place hFamily hNoFamily using hPlaces
  have hIndex := h.familyIndex?_eq hc fun {index family} => hFamily index family
  refine ⟨place, {
    family := fun {index family} => hFamily index family
    noFamily := fun {index} => hNoFamily index
    classify := ?_
    callbackState := ?_
    isProjection := funext (contains_eq_of_perm h.projectionMethods)
    isFilter := funext (contains_eq_of_perm h.filterMethods)
    isPassthrough := funext (contains_eq_of_perm h.passthroughMethods)
    isNonThrowingFactory := funext (contains_eq_of_perm h.nonThrowingFactories)
    crossLambdaBoundaries := congrArg _ h.analysis
    isRuleEnabled := ?_ }⟩
  · intro type
    have hAsync : d.isAsyncWrapper = c.isAsyncWrapper := funext (contains_eq_of_perm h.asyncWrappers)
    unfold Config.classify
    cases type.singleArg? with
    | none => rfl
    | some arg =>
        simp only [hIndex, hAsync]
        cases c.familyIndex? type.name with
        | some family => rfl
        | none =>
            cases c.familyIndex? arg.name with
            | some family => dsimp only [Option.map_none, Option.map_some]; split <;> rfl
            | none => dsimp only [Option.map_none]; split <;> rfl
  · exact h.callbackState?_eq
  · funext code
    simp only [Config.isRuleEnabled, h.disabledRules.any_eq]

end Reorders

/-- A type is only ever classified to a family that there is. -/
theorem exists_family_of_classify {config : Config} {type : TypeRef} {index : Nat}
    (h : config.classify type = .wrapper index ∨ config.classify type = .asyncWrapper index) :
    ∃ family, config.families[index]? = some family := by
  have hFound : ∀ {name : String}, config.familyIndex? name = some index →
      ∃ family, config.families[index]? = some family := by
    intro name hName
    obtain ⟨hIndex, -⟩ := List.findIdx?_eq_some_iff_getElem.1 hName
    exact ⟨config.families[index], List.getElem?_eq_getElem hIndex⟩
  unfold classify at h
  cases hArg : type.singleArg? with
  | none => simp [hArg] at h
  | some arg =>
      cases hHere : config.familyIndex? type.name with
      | some family =>
          obtain rfl : family = index := by simpa [hArg, hHere] using h
          exact hFound hHere
      | none =>
          cases hInner : config.familyIndex? arg.name with
          | none => simp [hArg, hHere, hInner] at h
          | some family =>
              simp only [hArg, hHere, hInner] at h
              split at h
              · obtain rfl : family = index := by simpa using h
                exact hFound hInner
              · simp at h

/-- A type is the same kind of type, with the same family. -/
theorem AgreesWith.classify_sameIn {c d : Config} {place : Nat → Nat} (h : c.AgreesWith d place)
    (type : TypeRef) : (c.classify type).SameIn c d (d.classify type) := by
  rw [h.classify]
  cases hType : c.classify type with
  | unrelated => exact .unrelated
  | wrapper index =>
      obtain ⟨family, hFamily⟩ := exists_family_of_classify (.inl hType)
      obtain ⟨other, hOther, hReorders⟩ := h.family hFamily
      exact .wrapper hFamily hOther hReorders.name
  | asyncWrapper index =>
      obtain ⟨family, hFamily⟩ := exists_family_of_classify (.inr hType)
      obtain ⟨other, hOther, hReorders⟩ := h.family hFamily
      exact .asyncWrapper hFamily hOther hReorders.name

/-- Families with one name have the same members. -/
theorem Reorders.reorders_of_name {c d : Config} (h : c.Reorders d) (hc : c.IsConsistent)
    {family other : Family} (hFamily : family ∈ c.families) (hOther : other ∈ d.families)
    (hName : other.name = family.name) : family.Reorders other := by
  obtain ⟨source, hSource, hReorders⟩ := h.exists_of_mem hOther
  rcases eq_or_ne source family with rfl | hNe
  · exact hReorders
  · have : Std.Symm Family.IsApart := ⟨fun _ _ => Family.IsApart.symm⟩
    have hApart : source.IsApart family := hc.apart.forall hSource hFamily hNe
    exact absurd (hReorders.name.symm.trans hName) hApart.1

end Config

end StateGuard
