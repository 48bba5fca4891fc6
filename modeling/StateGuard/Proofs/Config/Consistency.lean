import Mathlib.Data.List.Basic
import StateGuard.Proofs.Config.Acceptance

/-!
# Consistent configurations

A configuration is checked by scans that stop at the first fault they meet, and the scans follow the
order of the lists.  Taken together they say something without any order: which names must not be
empty, and which lists must have nothing in common.  A configuration is accepted exactly if that
holds.

Two things that one might expect are not among the checks.  An operator may both project elements and
keep them, and only a factory must have a name.

## Main results

* `Family.flaw?_eq_none_iff`, `firstClash?_eq_none_iff`, `conflict?_eq_none_iff`: the single scans.
* `Config.error?_eq_none_iff`: acceptance without order.
* `Config.tables_of_accepted_configuration`: what acceptance says about the tables of methods.
-/

namespace StateGuard

/-! ## Families -/

namespace Family

/-- A family that can be told apart by its names and whose members have one role each. -/
structure IsConsistent (family : Family) : Prop where
  name : Text.isBlankText family.name = false
  typeNames : family.typeNames ≠ []
  definitions : ∀ name ∈ family.typeNames, isDefinitionName name = true
  okDiscriminant : family.okDiscriminant ≠ ""
  notOkDiscriminant : family.notOkDiscriminant ≠ ""
  payload : family.okPayload ≠ none ∨ family.notOkPayload ≠ none
  named : "" ∉ family.members
  nodup : family.members.Nodup

theorem memberFlaw?_eq_none_iff {seen members : List String} :
    memberFlaw? seen members = none ↔
      "" ∉ members ∧ members.Nodup ∧ ∀ member ∈ members, member ∉ seen := by
  induction members generalizing seen with
  | nil => simp [memberFlaw?]
  | cons member rest ih =>
      rw [memberFlaw?]
      by_cases hEmpty : member = ""
      · simp [hEmpty]
      · by_cases hSeen : member ∈ seen
        · simp [hEmpty, hSeen]
        · simp only [String.isEmpty_iff, hEmpty, List.contains_iff_mem, hSeen, if_false, ih,
            List.mem_cons, List.nodup_cons, not_or, Ne.symm hEmpty, not_false_eq_true, true_and]
          constructor
          · rintro ⟨hNamed, hNodup, hRest⟩
            refine ⟨hNamed, ⟨fun hMem => (hRest member hMem).1 rfl, hNodup⟩, ?_⟩
            rintro other (rfl | hOther)
            · exact hSeen
            · exact (hRest other hOther).2
          · rintro ⟨hNamed, ⟨hHere, hNodup⟩, hAll⟩
            exact ⟨hNamed, hNodup, fun other hOther =>
              ⟨fun hEq => hHere (hEq ▸ hOther), hAll other (.inr hOther)⟩⟩

theorem ite_some_eq_none_iff {ε : Type} {fails : Prop} [Decidable fails] {flaw : ε}
    {rest : Option ε} : (if fails then some flaw else rest) = none ↔ ¬ fails ∧ rest = none := by
  by_cases hFails : fails <;> simp [hFails]

theorem flaw?_eq_none_iff {family : Family} : family.flaw? = none ↔ family.IsConsistent := by
  have hDefinitions : family.typeNames.find? (fun name => !isDefinitionName name) = none ↔
      ∀ name ∈ family.typeNames, isDefinitionName name = true := by
    simp [List.find?_eq_none]
  have hMembers : memberFlaw? [] family.members = none ↔
      "" ∉ family.members ∧ family.members.Nodup := by
    simp [memberFlaw?_eq_none_iff]
  have hScan : family.flaw? = none ↔
      ¬ Text.isBlankText family.name = true ∧ family.typeNames ≠ [] ∧
        (∀ name ∈ family.typeNames, isDefinitionName name = true) ∧
        (family.okDiscriminant ≠ "" ∧ family.notOkDiscriminant ≠ "") ∧
        (family.okPayload ≠ none ∨ family.notOkPayload ≠ none) ∧
        "" ∉ family.members ∧ family.members.Nodup := by
    rw [flaw?, ite_some_eq_none_iff, ite_some_eq_none_iff, ← hDefinitions, ← hMembers]
    cases family.typeNames.find? fun name => !isDefinitionName name with
    | some name => simp
    | none => simp [ite_some_eq_none_iff, ← not_and_or, and_assoc]
  rw [hScan]
  constructor
  · rintro ⟨hName, hTypeNames, hDefinitions, ⟨hOk, hNotOk⟩, hPayload, hNamed, hNodup⟩
    exact ⟨by simpa using hName, hTypeNames, hDefinitions, hOk, hNotOk, hPayload, hNamed, hNodup⟩
  · intro h
    exact ⟨by simp [h.name], h.typeNames, h.definitions, ⟨h.okDiscriminant, h.notOkDiscriminant⟩,
      h.payload, h.named, h.nodup⟩

theorem error?_eq_none_iff {family : Family} : family.error? = none ↔ family.IsConsistent := by
  rw [error?, Option.map_eq_none_iff, flaw?_eq_none_iff]

/-- Two families with different names and no type name in common. -/
def IsApart (family other : Family) : Prop :=
  family.name ≠ other.name ∧ family.typeNames.Disjoint other.typeNames

theorem IsApart.symm {family other : Family} (h : family.IsApart other) : other.IsApart family :=
  ⟨h.1.symm, List.disjoint_comm.1 h.2⟩

theorem matchesTypeName_iff {family : Family} {name : String} :
    family.matchesTypeName name = true ↔ name ∈ family.typeNames :=
  List.contains_iff_mem

end Family

namespace Config

theorem familyClash?_eq_none_iff {earlier family : Family} :
    familyClash? earlier family = none ↔ earlier.IsApart family := by
  unfold familyClash? Family.IsApart
  by_cases hName : earlier.name = family.name
  · simp [hName]
  · simp only [hName, if_false, Option.map_eq_none_iff, List.find?_eq_none,
      Family.matchesTypeName_iff, ne_eq, not_false_eq_true, true_and]
    exact ⟨fun h name hEarlier hLater => h name hLater hEarlier,
      fun h name hLater hEarlier => h hEarlier hLater⟩

theorem firstClash?_eq_none_iff {earlier families : List Family} :
    firstClash? earlier families = none ↔
      families.Pairwise Family.IsApart ∧
        ∀ family ∈ families, ∀ other ∈ earlier, other.IsApart family := by
  induction families generalizing earlier with
  | nil => simp [firstClash?]
  | cons family rest ih =>
      have hHere : earlier.findSome? (familyClash? · family) = none ↔
          ∀ other ∈ earlier, other.IsApart family := by
        simp only [List.findSome?_eq_none_iff, familyClash?_eq_none_iff]
      rw [firstClash?]
      cases hFirst : earlier.findSome? (familyClash? · family) with
      | some error =>
          have hNot := mt hHere.2 (by simp [hFirst])
          simp only [reduceCtorEq, List.forall_mem_cons, hNot, false_and, and_false]
      | none =>
          have hHere := hHere.1 hFirst
          simp only [ih, List.pairwise_cons, List.forall_mem_cons, List.mem_append,
            List.mem_singleton, or_imp, forall_and, forall_eq]
          tauto

theorem familiesError?_eq_none_iff {families : List Family} :
    familiesError? families = none ↔
      families ≠ [] ∧ (∀ family ∈ families, family.IsConsistent) ∧
        families.Pairwise Family.IsApart := by
  unfold familiesError?
  by_cases hEmpty : families = []
  · simp [hEmpty]
  · have hFlaws : families.findSome? Family.error? = none ↔
        ∀ family ∈ families, family.IsConsistent := by
      simp only [List.findSome?_eq_none_iff, Family.error?_eq_none_iff]
    rw [if_neg (by simpa using hEmpty)]
    cases hFirst : families.findSome? Family.error? with
    | some error => simp [mt hFlaws.2 (by simp [hFirst])]
    | none =>
        have hFamily := hFlaws.1 hFirst
        simp only [firstClash?_eq_none_iff, List.not_mem_nil, false_imp_iff, implies_true, and_true]
        exact ⟨fun hApart => ⟨hEmpty, hFamily, hApart⟩, fun h => h.2.2⟩

end Config

/-! ## Methods -/

/-- Two tables are not in conflict exactly if no name stands in both. -/
theorem conflict?_eq_none_iff {first second : String} {names others : List String} :
    conflict? first names second others = none ↔ names.Disjoint others := by
  simp only [conflict?, Option.map_eq_none_iff, List.find?_eq_none, List.contains_iff_mem]
  rfl

/-- No method calls back in both states, none is a dispatch and a combinator, and no argument name is
for both states. -/
structure CallContexts.IsConsistent (contexts : CallContexts) : Prop where
  combinators : contexts.okCombinators.Disjoint contexts.notOkCombinators
  dispatchOk : contexts.dispatchMethods.Disjoint contexts.okCombinators
  dispatchNotOk : contexts.dispatchMethods.Disjoint contexts.notOkCombinators
  arguments : contexts.okArgumentNames.Disjoint contexts.notOkArgumentNames

theorem CallContexts.error?_eq_none_iff {contexts : CallContexts} :
    contexts.error? = none ↔ contexts.IsConsistent := by
  simp only [error?, List.findSome?_eq_none_iff, List.forall_mem_cons, List.not_mem_nil,
    false_imp_iff, implies_true, and_true, id_eq, conflict?_eq_none_iff]
  exact ⟨fun ⟨h₁, h₂, h₃, h₄⟩ => ⟨h₁, h₂, h₃, h₄⟩, fun ⟨h₁, h₂, h₃, h₄⟩ => ⟨h₁, h₂, h₃, h₄⟩⟩

/-- There are projections, and no filter is also a projection or an operator that keeps elements. -/
structure Pipeline.IsConsistent (pipeline : Pipeline) : Prop where
  projections : pipeline.projectionMethods ≠ []
  projectionFilter : pipeline.projectionMethods.Disjoint pipeline.filterMethods
  filterPassthrough : pipeline.filterMethods.Disjoint pipeline.passthroughMethods

theorem Pipeline.error?_eq_none_iff {pipeline : Pipeline} :
    pipeline.error? = none ↔ pipeline.IsConsistent := by
  unfold error?
  by_cases hEmpty : pipeline.projectionMethods = []
  · simp only [hEmpty, List.isEmpty_nil, if_true, reduceCtorEq, false_iff]
    exact fun h => h.projections hEmpty
  · rw [if_neg (by simpa using hEmpty)]
    simp only [List.findSome?_eq_none_iff, List.forall_mem_cons, List.not_mem_nil, false_imp_iff,
      implies_true, and_true, id_eq, conflict?_eq_none_iff]
    exact ⟨fun ⟨h₁, h₂⟩ => ⟨hEmpty, h₁, h₂⟩, fun h => ⟨h.projectionFilter, h.filterPassthrough⟩⟩

/-! ## Whole configurations -/

namespace Config

/-- What acceptance of a configuration comes to.  Nothing in it depends on the order of a list. -/
structure IsConsistent (config : Config) : Prop where
  families : config.families ≠ []
  family : ∀ family ∈ config.families, family.IsConsistent
  apart : config.families.Pairwise Family.IsApart
  asyncWrappers : ∀ name ∈ config.asyncWrappers, ∀ family ∈ config.families,
    name ∉ family.typeNames
  factories : "" ∉ config.nonThrowingFactories
  callContexts : config.callContexts.IsConsistent
  pipeline : config.pipeline.IsConsistent
  threads : config.analysis.threads ≤ Options.maxThreads
  rules : ∀ rule ∈ config.disabledRules, ∃ code ∈ Rule.codes, Text.equalCaseless code rule = true

theorem asyncError?_eq_none_iff {config : Config} :
    config.asyncError? = none ↔
      ∀ name ∈ config.asyncWrappers, ∀ family ∈ config.families, name ∉ family.typeNames := by
  simp [asyncError?, List.find?_eq_none, Family.matchesTypeName]

theorem factoryError?_eq_none_iff {config : Config} :
    config.factoryError? = none ↔ "" ∉ config.nonThrowingFactories := by
  simp [factoryError?, String.isEmpty_iff]

theorem ruleError?_eq_none_iff {config : Config} :
    config.ruleError? = none ↔
      ∀ rule ∈ config.disabledRules, ∃ code ∈ Rule.codes,
        Text.equalCaseless code rule = true := by
  simp [ruleError?, List.find?_eq_none]

theorem optionsError?_eq_none_iff {options : Options} :
    options.error? = none ↔ options.threads ≤ Options.maxThreads := by
  simp [Options.error?]

/-- **A configuration is accepted exactly if it is consistent.** -/
theorem error?_eq_none_iff {config : Config} : config.error? = none ↔ config.IsConsistent := by
  simp only [error?, List.findSome?_eq_none_iff, List.forall_mem_cons, List.not_mem_nil,
    false_imp_iff, implies_true, and_true, id_eq, familiesError?_eq_none_iff,
    asyncError?_eq_none_iff, factoryError?_eq_none_iff, CallContexts.error?_eq_none_iff,
    Pipeline.error?_eq_none_iff, optionsError?_eq_none_iff, ruleError?_eq_none_iff]
  constructor
  · rintro ⟨⟨hFamilies, hFamily, hApart⟩, hAsync, hFactories, hContexts, hPipeline, hThreads, hRules⟩
    exact ⟨hFamilies, hFamily, hApart, hAsync, hFactories, hContexts, hPipeline, hThreads, hRules⟩
  · intro h
    exact ⟨⟨h.families, h.family, h.apart⟩, h.asyncWrappers, h.factories, h.callContexts, h.pipeline,
      h.threads, h.rules⟩

theorem validate_eq_ok_iff {config : Config} :
    config.validate = .ok config ↔ config.IsConsistent := by
  rw [← error?_eq_none_iff, validate]
  cases config.error? with
  | none => simp
  | some error => simp

/-! ## What a name in a table means -/

/-- The tables of methods with callbacks, of their argument names, and of operators on sequences. -/
def methodTables (config : Config) : List (List String) :=
  [config.callContexts.dispatchMethods, config.callContexts.okArgumentNames,
    config.callContexts.notOkArgumentNames, config.callContexts.okCombinators,
    config.callContexts.notOkCombinators, config.pipeline.projectionMethods,
    config.pipeline.filterMethods, config.pipeline.passthroughMethods]

/-- Every name in the tables is a name, and has one meaning. -/
structure HasClearTables (config : Config) : Prop where
  callbacks : [config.callContexts.dispatchMethods, config.callContexts.okCombinators,
    config.callContexts.notOkCombinators].Pairwise List.Disjoint
  arguments : config.callContexts.okArgumentNames.Disjoint config.callContexts.notOkArgumentNames
  operators : [config.pipeline.projectionMethods, config.pipeline.filterMethods,
    config.pipeline.passthroughMethods].Pairwise List.Disjoint
  named : ∀ table ∈ config.nonThrowingFactories :: config.methodTables, "" ∉ table

/-- **What acceptance says about the tables of methods.**  Methods with callbacks and their argument
names have one meaning each, a filter is neither a projection nor an operator that keeps elements, and
every factory has a name.  Nothing else is checked: the tables are clear exactly if, besides, no
operator both projects elements and keeps them, and the other tables have no empty name either. -/
theorem tables_of_accepted_configuration {config : Config} (h : config.validate = .ok config) :
    [config.callContexts.dispatchMethods, config.callContexts.okCombinators,
      config.callContexts.notOkCombinators].Pairwise List.Disjoint ∧
    config.callContexts.okArgumentNames.Disjoint config.callContexts.notOkArgumentNames ∧
    config.pipeline.projectionMethods.Disjoint config.pipeline.filterMethods ∧
    config.pipeline.filterMethods.Disjoint config.pipeline.passthroughMethods ∧
    "" ∉ config.nonThrowingFactories ∧
    (config.HasClearTables ↔
      config.pipeline.projectionMethods.Disjoint config.pipeline.passthroughMethods ∧
        ∀ table ∈ config.methodTables, "" ∉ table) := by
  have hConsistent := validate_eq_ok_iff.1 h
  have hContexts := hConsistent.callContexts
  have hPipeline := hConsistent.pipeline
  have hCallbacks : [config.callContexts.dispatchMethods, config.callContexts.okCombinators,
      config.callContexts.notOkCombinators].Pairwise List.Disjoint := by
    simp [hContexts.dispatchOk, hContexts.dispatchNotOk, hContexts.combinators]
  refine ⟨hCallbacks, hContexts.arguments, hPipeline.projectionFilter, hPipeline.filterPassthrough,
    hConsistent.factories, ?_⟩
  constructor
  · intro hClear
    have hOperators := List.pairwise_cons.1 hClear.operators
    exact ⟨hOperators.1 _ (by simp), fun table hTable =>
      hClear.named table (List.mem_cons_of_mem _ hTable)⟩
  · rintro ⟨hApart, hNamed⟩
    exact {
      callbacks := hCallbacks
      arguments := hContexts.arguments
      operators := by
        simp [hPipeline.projectionFilter, hPipeline.filterPassthrough, hApart]
      named := List.forall_mem_cons.2 ⟨hConsistent.factories, hNamed⟩ }

/-- A configuration in which `Select` both projects elements and keeps them, and in which a combinator
has no name. -/
def unclear : Config where
  callContexts := { okCombinators := ["Map", ""] }
  pipeline := { passthroughMethods := ["Select", "OrderBy"] }

/-- In this configuration, which is accepted, `Select` has two meanings. -/
theorem tables_of_unclear_configuration :
    unclear.validate = .ok unclear ∧
      (unclear.HasClearTables ↔
        unclear.pipeline.projectionMethods.Disjoint unclear.pipeline.passthroughMethods ∧
          ∀ table ∈ unclear.methodTables, "" ∉ table) ∧
      "Select" ∈ unclear.pipeline.projectionMethods ∧
      "Select" ∈ unclear.pipeline.passthroughMethods := by
  have hAccepted : unclear.validate = .ok unclear := by decide +kernel
  obtain ⟨-, -, -, -, -, hClear⟩ := tables_of_accepted_configuration hAccepted
  exact ⟨hAccepted, hClear, by decide, by decide⟩

/-- An accepted configuration need not have clear tables. -/
theorem accepted_configuration_with_unclear_tables :
    ¬ ∀ config : Config, config.validate = .ok config → config.HasClearTables := by
  intro hAll
  have hClear := hAll unclear (by decide +kernel)
  have hNamed : "" ∉ unclear.callContexts.okCombinators :=
    hClear.named _ (by simp [methodTables])
  exact hNamed (by decide)

end Config

end StateGuard
