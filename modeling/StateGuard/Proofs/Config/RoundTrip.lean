import StateGuard.Config.Document
import StateGuard.Proofs.Yaml.Records
import StateGuard.Proofs.Yaml.Trees

/-!
# Configurations are loaded back

A configuration whose texts fit on a line is written as a document from which it is loaded back.
Every section has its own law: its value is written line by line, and decoding gives it back. A
document with only some of the sections is the configuration with the other sections at their
defaults, and is accepted or rejected as that configuration is.
-/

namespace StateGuard

/-! ## Texts -/

/-- The texts of a family. -/
def Family.texts (family : Family) : List String :=
  family.name :: family.typeNames ++ family.members

/-- The texts of the methods with callbacks. -/
def CallContexts.texts (contexts : CallContexts) : List String :=
  contexts.dispatchMethods ++ contexts.okArgumentNames ++ contexts.notOkArgumentNames ++
    contexts.okCombinators ++ contexts.notOkCombinators

/-- The texts of the operators on sequences. -/
def Pipeline.texts (pipeline : Pipeline) : List String :=
  pipeline.projectionMethods ++ pipeline.filterMethods ++ pipeline.passthroughMethods

/-- All texts of a configuration. -/
def Config.texts (config : Config) : List String :=
  config.families.flatMap Family.texts ++ config.asyncWrappers ++ config.nonThrowingFactories ++
    config.callContexts.texts ++ config.pipeline.texts ++ config.disabledRules

theorem Yaml.isCoded_texts {texts : List String} (h : ∀ text ∈ texts, Yaml.isLine text = true) :
    Yaml.IsCoded Yaml.texts? (.ofTexts texts) texts :=
  Yaml.isCoded_seq fun text hText => Yaml.isCoded_text (h text hText)

/-! ## Sections -/

theorem Options.isCoded {options : Options} (h : options.threads < Word.capacity 64) :
    Yaml.IsCoded Options.ofYaml? options.toYaml options := by
  have hNames : Yaml.AreFields Options.fieldNames := ⟨by decide, by decide⟩
  refine ⟨hNames.isWritable (List.Sublist.refl _) (by simp) ?_, rfl, ?_⟩
  · intro entry hEntry
    simp only [List.mem_cons, List.not_mem_nil, or_false] at hEntry
    rcases hEntry with rfl | rfl | rfl
    · exact Yaml.isWritable_ofBool _
    · exact Yaml.isWritable_ofBool _
    · exact Yaml.isWritable_ofNat _
  · let entries : List (String × Yaml) :=
      [("cross_lambda_boundaries", .ofBool options.crossLambdaBoundaries),
       ("parallel", .ofBool options.parallel), ("threads", .ofNat options.threads)]
    rw [show options.toYaml = .map entries from rfl, Options.ofYaml?,
      hNames.fields? (List.Sublist.refl _)]
    simp only [Option.bind_eq_bind, Option.bind_some,
      Yaml.Fields.withDefault?_of_lookup entries "cross_lambda_boundaries" _ rfl
        (Yaml.bool?_ofBool _),
      Yaml.Fields.withDefault?_of_lookup entries "parallel" _ rfl (Yaml.bool?_ofBool _),
      Yaml.Fields.withDefault?_of_lookup entries "threads" _ rfl (Yaml.nat?_ofNat h)]
    rfl

theorem Pipeline.isCoded {pipeline : Pipeline}
    (h : ∀ text ∈ pipeline.texts, Yaml.isLine text = true) :
    Yaml.IsCoded Pipeline.ofYaml? pipeline.toYaml pipeline := by
  have hNames : Yaml.AreFields Pipeline.fieldNames := ⟨by decide, by decide⟩
  simp only [Pipeline.texts, List.mem_append] at h
  have hProjection := Yaml.isCoded_texts fun text hText => h text (.inl (.inl hText))
  have hFilter := Yaml.isCoded_texts fun text hText => h text (.inl (.inr hText))
  have hPassthrough := Yaml.isCoded_texts fun text hText => h text (.inr hText)
  refine ⟨hNames.isWritable (List.Sublist.refl _) (by simp) ?_, rfl, ?_⟩
  · simp [hProjection.written, hFilter.written, hPassthrough.written]
  · let entries : List (String × Yaml) :=
      [("projection_methods", .ofTexts pipeline.projectionMethods),
       ("filter_methods", .ofTexts pipeline.filterMethods),
       ("passthrough_methods", .ofTexts pipeline.passthroughMethods)]
    rw [show pipeline.toYaml = .map entries from rfl, Pipeline.ofYaml?,
      hNames.fields? (List.Sublist.refl _)]
    simp only [Option.bind_eq_bind, Option.bind_some,
      Yaml.Fields.withDefault?_of_lookup entries "projection_methods" _ rfl hProjection.decoded,
      Yaml.Fields.withDefault?_of_lookup entries "filter_methods" _ rfl hFilter.decoded,
      Yaml.Fields.withDefault?_of_lookup entries "passthrough_methods" _ rfl hPassthrough.decoded]
    rfl

theorem CallContexts.isCoded {contexts : CallContexts}
    (h : ∀ text ∈ contexts.texts, Yaml.isLine text = true) :
    Yaml.IsCoded CallContexts.ofYaml? contexts.toYaml contexts := by
  have hNames : Yaml.AreFields CallContexts.fieldNames := ⟨by decide, by decide⟩
  have hTable (table : List String) (hMem : ∀ text ∈ table, text ∈ contexts.texts) :=
    Yaml.isCoded_texts fun text hText => h text (hMem text hText)
  have hDispatch := hTable contexts.dispatchMethods fun _ h => by simp [CallContexts.texts, h]
  have hOkNames := hTable contexts.okArgumentNames fun _ h => by simp [CallContexts.texts, h]
  have hNotOkNames := hTable contexts.notOkArgumentNames fun _ h => by simp [CallContexts.texts, h]
  have hOk := hTable contexts.okCombinators fun _ h => by simp [CallContexts.texts, h]
  have hNotOk := hTable contexts.notOkCombinators fun _ h => by simp [CallContexts.texts, h]
  refine ⟨hNames.isWritable (List.Sublist.refl _) (by simp) ?_, rfl, ?_⟩
  · simp [hDispatch.written, hOkNames.written, hNotOkNames.written, hOk.written, hNotOk.written]
  · let entries : List (String × Yaml) :=
      [("dispatch_methods", .ofTexts contexts.dispatchMethods),
       ("ok_argument_names", .ofTexts contexts.okArgumentNames),
       ("not_ok_argument_names", .ofTexts contexts.notOkArgumentNames),
       ("ok_combinators", .ofTexts contexts.okCombinators),
       ("not_ok_combinators", .ofTexts contexts.notOkCombinators)]
    rw [show contexts.toYaml = .map entries from rfl, CallContexts.ofYaml?,
      hNames.fields? (List.Sublist.refl _)]
    simp only [Option.bind_eq_bind, Option.bind_some,
      Yaml.Fields.withDefault?_of_lookup entries "dispatch_methods" _ rfl hDispatch.decoded,
      Yaml.Fields.withDefault?_of_lookup entries "ok_argument_names" _ rfl hOkNames.decoded,
      Yaml.Fields.withDefault?_of_lookup entries "not_ok_argument_names" _ rfl hNotOkNames.decoded,
      Yaml.Fields.withDefault?_of_lookup entries "ok_combinators" _ rfl hOk.decoded,
      Yaml.Fields.withDefault?_of_lookup entries "not_ok_combinators" _ rfl hNotOk.decoded]
    rfl

namespace Family

/-- The entry of a member that may be absent. -/
def optionalEntry (name : String) (member : Option String) : List (String × Yaml) :=
  (member.map fun text => (name, Yaml.ofText text)).toList

theorem keys_optionalEntry (name : String) (member : Option String) :
    ((optionalEntry name member).map (·.1)).Sublist [name] := by
  cases member <;> simp [optionalEntry]

theorem lookup_optionalEntry (key name : String) (member : Option String) :
    (optionalEntry name member).lookup key =
      if key == name then member.map Yaml.ofText else none := by
  cases member with
  | none => simp [optionalEntry]
  | some text => cases hKey : key == name <;> simp [optionalEntry, List.lookup_cons, hKey]

theorem isWritable_optionalEntry (name : String) {member : Option String}
    (h : ∀ text ∈ member, Yaml.IsCoded Yaml.text? (.ofText text) text) :
    ∀ entry ∈ optionalEntry name member, Yaml.IsWritable entry.2 := by
  cases member with
  | none => simp [optionalEntry]
  | some text =>
      intro entry hEntry
      rw [List.mem_singleton.mp hEntry]
      exact (h text rfl).written

/-- A family is decoded from its required and optional members. -/
theorem isCoded {family : Family} (h : ∀ text ∈ family.texts, Yaml.isLine text = true) :
    Yaml.IsCoded Family.ofYaml? family.toYaml family := by
  have hNames : Yaml.AreFields Family.fieldNames := ⟨by decide, by decide⟩
  have hText (text : String) (hMem : text ∈ family.texts) := Yaml.isCoded_text (h text hMem)
  have hMember (text : String) (hMem : text ∈ family.members) := hText text (by simp [texts, hMem])
  have hTypeNames : Yaml.IsCoded Yaml.texts? (.ofTexts family.typeNames) family.typeNames :=
    Yaml.isCoded_texts fun text hMem => h text (by simp [texts, hMem])
  have hName := hText family.name (by simp [texts])
  have hOk := hMember family.okDiscriminant (by simp [members])
  have hNotOk := hMember family.notOkDiscriminant (by simp [members])
  have hOptional (member : Option String) (hMember' : member ∈ [family.okPayload,
      family.notOkPayload, family.okTryAccessor, family.notOkTryAccessor]) :
      ∀ text ∈ member, Yaml.IsCoded Yaml.text? (.ofText text) text := by
    intro text hMem
    refine hMember text (List.mem_append_right _ ?_)
    exact List.mem_filterMap.mpr ⟨member, hMember', hMem⟩
  have hOkPayload := hOptional family.okPayload (by simp)
  have hNotOkPayload := hOptional family.notOkPayload (by simp)
  have hOkTry := hOptional family.okTryAccessor (by simp)
  have hNotOkTry := hOptional family.notOkTryAccessor (by simp)
  let required : List (String × Yaml) := [("name", .ofText family.name),
    ("type_names", .ofTexts family.typeNames), ("ok_discriminant", .ofText family.okDiscriminant),
    ("not_ok_discriminant", .ofText family.notOkDiscriminant)]
  let entries := required ++ optionalEntry "ok_payload" family.okPayload ++
    optionalEntry "not_ok_payload" family.notOkPayload ++
    optionalEntry "ok_try_accessor" family.okTryAccessor ++
    optionalEntry "not_ok_try_accessor" family.notOkTryAccessor
  have hEntries : family.toYaml = .map entries := rfl
  have hKeys : (entries.map (·.1)).Sublist fieldNames := by
    simp only [entries, List.map_append]
    exact ((((List.Sublist.refl _).append (keys_optionalEntry _ _)).append
      (keys_optionalEntry _ _)).append (keys_optionalEntry _ _)).append (keys_optionalEntry _ _)
  refine ⟨?_, rfl, ?_⟩
  · rw [hEntries]
    refine hNames.isWritable hKeys (by simp [entries, required]) fun entry hEntry => ?_
    simp only [entries, List.mem_append] at hEntry
    rcases hEntry with (((hEntry | hEntry) | hEntry) | hEntry) | hEntry
    · revert entry
      simp [required, hName.written, hTypeNames.written, hOk.written, hNotOk.written]
    · exact isWritable_optionalEntry _ hOkPayload entry hEntry
    · exact isWritable_optionalEntry _ hNotOkPayload entry hEntry
    · exact isWritable_optionalEntry _ hOkTry entry hEntry
    · exact isWritable_optionalEntry _ hNotOkTry entry hEntry
  · have hLookup (key : String) : entries.lookup key = ((((required.lookup key).or
        (if key == "ok_payload" then family.okPayload.map Yaml.ofText else none)).or
        (if key == "not_ok_payload" then family.notOkPayload.map Yaml.ofText else none)).or
        (if key == "ok_try_accessor" then family.okTryAccessor.map Yaml.ofText else none)).or
        (if key == "not_ok_try_accessor" then family.notOkTryAccessor.map Yaml.ofText
          else none) := by
      simp only [entries, List.lookup_append, lookup_optionalEntry]
    have hRequired {α : Type} (key : String) {decode : Yaml → Option α} {encoded : Yaml} {value : α}
        (hCoded : Yaml.IsCoded decode encoded value) (hFound : required.lookup key = some encoded) :
        Yaml.Fields.required? entries key decode = some value :=
      hCoded.required? (by rw [hLookup, hFound]; rfl)
    have hFound (key : String) {member : Option String}
        (hCoded : ∀ text ∈ member, Yaml.IsCoded Yaml.text? (.ofText text) text)
        (hMember : entries.lookup key = member.map Yaml.ofText) :
        Yaml.Fields.withDefault? entries key (Yaml.optional? Yaml.text?) none = some member :=
      Yaml.withDefault?_optional hCoded hMember
    rw [hEntries, Family.ofYaml?, hNames.fields? hKeys]
    simp only [Option.bind_eq_bind, Option.bind_some, hRequired "name" hName rfl,
      hRequired "type_names" hTypeNames rfl, hRequired "ok_discriminant" hOk rfl,
      hRequired "not_ok_discriminant" hNotOk rfl,
      hFound "ok_payload" hOkPayload (by simp [hLookup, required, List.lookup_cons]),
      hFound "not_ok_payload" hNotOkPayload (by simp [hLookup, required, List.lookup_cons]),
      hFound "ok_try_accessor" hOkTry (by simp [hLookup, required, List.lookup_cons]),
      hFound "not_ok_try_accessor" hNotOkTry (by simp [hLookup, required, List.lookup_cons])]
    rfl

end Family

namespace Config

/-- The configuration with some of the sections of another, and the others at their defaults. -/
def keeping (config : Config) (keep : String → Bool) : Config :=
  let default : Config := {}
  { families := if keep "families" then config.families else default.families
    asyncWrappers := if keep "async_wrappers" then config.asyncWrappers else default.asyncWrappers
    nonThrowingFactories :=
      if keep "non_throwing_factories" then config.nonThrowingFactories
      else default.nonThrowingFactories
    callContexts := if keep "call_contexts" then config.callContexts else default.callContexts
    pipeline := if keep "pipeline" then config.pipeline else default.pipeline
    analysis := if keep "analysis" then config.analysis else default.analysis
    disabledRules := if keep "disabled_rules" then config.disabledRules else default.disabledRules }

/-- The document of some sections of a configuration. -/
def writeOnly (config : Config) (keep : String → Bool) : String :=
  Yaml.write (.map (("version", .ofNat schemaVersion) ::
    config.sections.filter fun entry => keep entry.1))

/-- What is found among the sections that are kept. -/
theorem lookup_filter (keep : String → Bool) (entries : List (String × Yaml)) (key : String) :
    (entries.filter fun entry => keep entry.1).lookup key =
      if keep key then entries.lookup key else none := by
  induction entries with
  | nil => simp
  | cons entry entries ih =>
      obtain ⟨name, value⟩ := entry
      by_cases hKey : key = name
      · subst hKey
        cases hKeep : keep key with
        | true => simp [hKeep]
        | false =>
            rw [List.filter_cons_of_neg (by simp [hKeep]), ih, hKeep, if_neg (by simp),
              if_neg (by simp)]
      · have hNe : (key == name) = false := beq_eq_false_iff_ne.mpr hKey
        cases hKeep : keep name <;> simp [hKeep, List.lookup_cons, hNe, ih]

/-- Every section is written line by line and decoded to what it was. -/
theorem sections_coded {config : Config} (hTexts : ∀ text ∈ config.texts, Yaml.isLine text = true)
    (hThreads : config.analysis.threads < Word.capacity 64) :
    Yaml.IsCoded (Yaml.list? Family.ofYaml?) (.seq (config.families.map Family.toYaml))
        config.families ∧
      Yaml.IsCoded Yaml.texts? (.ofTexts config.asyncWrappers) config.asyncWrappers ∧
      Yaml.IsCoded Yaml.texts? (.ofTexts config.nonThrowingFactories) config.nonThrowingFactories ∧
      Yaml.IsCoded CallContexts.ofYaml? config.callContexts.toYaml config.callContexts ∧
      Yaml.IsCoded Pipeline.ofYaml? config.pipeline.toYaml config.pipeline ∧
      Yaml.IsCoded Options.ofYaml? config.analysis.toYaml config.analysis ∧
      Yaml.IsCoded Yaml.texts? (.ofTexts config.disabledRules) config.disabledRules := by
  have hSome (texts : List String) (h : ∀ text ∈ texts, text ∈ config.texts) :
      ∀ text ∈ texts, Yaml.isLine text = true := fun text hText => hTexts text (h text hText)
  refine ⟨Yaml.isCoded_seq fun family hFamily => Family.isCoded (hSome _ fun text hText => ?_),
    Yaml.isCoded_texts (hSome _ fun text hText => ?_),
    Yaml.isCoded_texts (hSome _ fun text hText => ?_),
    CallContexts.isCoded (hSome _ fun text hText => ?_),
    Pipeline.isCoded (hSome _ fun text hText => ?_), Options.isCoded hThreads,
    Yaml.isCoded_texts (hSome _ fun text hText => ?_)⟩
  · have hMem : text ∈ config.families.flatMap Family.texts :=
      List.mem_flatMap.mpr ⟨family, hFamily, hText⟩
    simp [texts, hMem]
  all_goals simp [texts, hText]

/-- A section is decoded if it is kept, and else at its default. -/
theorem overlay_section {α : Type} {fields : Yaml.Fields} {key : String} {decode : Yaml → Option α}
    {encoded : Yaml} {value : α} {keep : Bool} (default : α)
    (hCoded : Yaml.IsCoded decode encoded value)
    (hLookup : fields.lookup key = if keep then some encoded else none) :
    (fields.withDefault? key (Yaml.optional? decode) none).map (·.getD default) =
      some (if keep then value else default) := by
  cases keep with
  | false =>
      rw [Yaml.Fields.withDefault?, hLookup]
      rfl
  | true =>
      have hLookup' : fields.lookup key = (some value).map fun _ => encoded := hLookup
      rw [Yaml.withDefault?_optional (fun x hx => ?_) hLookup']
      · rfl
      · cases Option.mem_def.mp hx
        exact hCoded

/-- **A document of some sections is read as the configuration that keeps them.** -/
theorem ofYaml?_writeOnly {config : Config}
    (hTexts : ∀ text ∈ config.texts, Yaml.isLine text = true)
    (hThreads : config.analysis.threads < Word.capacity 64) (keep : String → Bool) :
    (Yaml.read? (config.writeOnly keep)).bind ofYaml? =
      some (some schemaVersion, config.keeping keep) := by
  obtain ⟨hFamilies, hAsync, hFactories, hContexts, hPipeline, hAnalysis, hRules⟩ :=
    sections_coded hTexts hThreads
  have hNames : Yaml.AreFields fieldNames := ⟨by decide, by decide⟩
  let entries : List (String × Yaml) := ("version", .ofNat schemaVersion) ::
    config.sections.filter fun entry => keep entry.1
  have hKeys : (entries.map (·.1)).Sublist fieldNames := by
    have hKept : ((config.sections.filter fun entry => keep entry.1).map (·.1)).Sublist
        fieldNames.tail := List.Sublist.map _ List.filter_sublist
    exact hKept.cons_cons "version"
  have hWritable : Yaml.IsWritable (.map entries) := by
    refine hNames.isWritable hKeys (by simp [entries]) fun entry hEntry => ?_
    rcases List.mem_cons.mp hEntry with rfl | hEntry
    · exact Yaml.isWritable_ofNat _
    · have hSections : ∀ entry ∈ config.sections, Yaml.IsWritable entry.2 := by
        simp [sections, hFamilies.written, hAsync.written, hFactories.written, hContexts.written,
          hPipeline.written, hAnalysis.written, hRules.written]
      exact hSections entry (List.mem_filter.mp hEntry).1
  have hOverlay {α : Type} (key : String) {decode : Yaml → Option α} {encoded : Yaml} {value : α}
      (default : α) (hCoded : Yaml.IsCoded decode encoded value) (hKey : key ≠ "version")
      (hFound : config.sections.lookup key = some encoded) :
      (Yaml.Fields.withDefault? entries key (Yaml.optional? decode) none).map (·.getD default) =
        some (if keep key then value else default) := by
    refine overlay_section default hCoded ?_
    have hNe : (key == "version") = false := beq_eq_false_iff_ne.mpr hKey
    rw [← hFound, ← lookup_filter]
    simp only [entries, List.lookup_cons, hNe]
  have hVersion : Yaml.Fields.withDefault? entries "version"
      (Yaml.optional? (Yaml.nat? (Word.capacity 32))) none = some (some schemaVersion) := by
    have hNat : Yaml.nat? (Word.capacity 32) (.ofNat schemaVersion) = some schemaVersion :=
      Yaml.nat?_ofNat (by decide)
    have hFound : entries.lookup "version" = some (.ofNat schemaVersion) := rfl
    have hPresent : Yaml.isPresent? (.ofNat schemaVersion) = some true := by decide
    simp [Yaml.Fields.withDefault?, hFound, Yaml.optional?, hPresent, hNat]
  have hRead : Yaml.read? (config.writeOnly keep) = some (.map entries) :=
    Yaml.read?_write hWritable
  rw [hRead, Option.bind_some, ofYaml?, hNames.fields? hKeys]
  simp only [Option.bind_eq_bind, Option.bind_some, hVersion,
    hOverlay "families" _ hFamilies (by decide) rfl,
    hOverlay "async_wrappers" _ hAsync (by decide) rfl,
    hOverlay "non_throwing_factories" _ hFactories (by decide) rfl,
    hOverlay "call_contexts" _ hContexts (by decide) rfl,
    hOverlay "pipeline" _ hPipeline (by decide) rfl,
    hOverlay "analysis" _ hAnalysis (by decide) rfl,
    hOverlay "disabled_rules" _ hRules (by decide) rfl]
  rfl

/-- A configuration that is accepted has a number of workers that can be written. -/
theorem threads_lt_of_validate {config : Config} (h : config.validate = .ok config) :
    config.analysis.threads < Word.capacity 64 := by
  have hError : config.error? = none := by
    unfold validate at h
    split at h
    · cases h
    · next hNone => exact hNone
  have hOptions : config.analysis.error? = none := by
    simp only [error?, List.findSome?_eq_none_iff] at hError
    exact hError config.analysis.error? (by simp)
  have hThreads : config.analysis.threads ≤ Options.maxThreads := by
    by_contra hMore
    rw [Options.error?, if_pos (by omega)] at hOptions
    cases hOptions
  exact Nat.lt_of_le_of_lt hThreads (by decide)

theorem keeping_all (config : Config) : (config.keeping fun _ => true) = config := rfl

theorem writeOnly_all (config : Config) : (config.writeOnly fun _ => true) = config.write := by
  rw [writeOnly, List.filter_true]
  rfl

/-- **Configurations are loaded back.** A configuration that is accepted, of texts of one line, is
loaded from its document. From a document of only some of its sections the configuration is loaded
that keeps these and has its other sections at their defaults, if that is accepted; else loading
fails with the error of that configuration. -/
theorem export_is_loaded_back (config : Config) (hValid : config.validate = .ok config)
    (hTexts : ∀ text ∈ config.texts, Yaml.isLine text = true) :
    parse config.write = .ok config ∧
      ∀ keep : String → Bool, parse (config.writeOnly keep) = (config.keeping keep).validate := by
  have hLoad (keep : String → Bool) :
      parse (config.writeOnly keep) = (config.keeping keep).validate := by
    rw [parse, ofYaml?_writeOnly hTexts (threads_lt_of_validate hValid) keep]
    rfl
  refine ⟨?_, hLoad⟩
  rw [← writeOnly_all, hLoad, keeping_all, hValid]

/-- Names that look like a truth value, a number or an item are loaded back, and without its
families the document names a default family as an asynchronous wrapper. -/
theorem unusual_names_are_loaded_back :
    let config : Config :=
      { families := [{ name := "true", typeNames := ["1e3"], okDiscriminant := "- it's: on"
                       notOkDiscriminant := "null", okPayload := some "#1" }]
        asyncWrappers := ["CSharpFunctionalExtensions.Maybe"] }
    parse config.write = .ok config ∧
      parse (config.writeOnly (· == "async_wrappers")) =
        .error (.invalidFamily "CSharpFunctionalExtensions.Maybe" .asyncWrapper) := by
  intro config
  have hLoad := export_is_loaded_back config (by decide) (by decide)
  exact ⟨hLoad.1, (hLoad.2 _).trans (by decide)⟩

end Config

end StateGuard
