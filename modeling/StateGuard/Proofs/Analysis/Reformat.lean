import StateGuard.Proofs.Analysis.Places

/-!
# Reformatting

Two texts with the same lexemes differ in blanks, comments, line breaks and the spelling of literals.
The grammar looks at lexemes only, so both are read as one term, and what is laid out differs in spans
only.  No decision after that looks at a span, and the order of reports depends on the tree alone, so
the two reports differ in places only.

## Main results

* `Term.exists_toTree_relocated`: the trees of a term at two places.
* `Context.Transfer.relocated`: a unit and the same unit at other places.
* `Tree.reformatting_moves_places_only`: the trees, the oracles and the reports of two texts.
-/

namespace StateGuard

/-! ## Trees at other places -/

theorem Tree.exists_ofParts_relocated {file file' : String} {parts parts' : Array Part} {root : Nat}
    {tree : Tree} (hNodes : parts'.map (·.node) = parts.map (·.node))
    (h : Tree.ofParts file parts root = .ok tree) :
    ∃ span, Tree.ofParts file' parts' root = .ok { tree with file := file', span } := by
  unfold Tree.ofParts at h ⊢
  split at h
  · simp at h
  · next arena hArena =>
      obtain rfl := Except.ok.inj h
      split
      · next e hError =>
          rw [hNodes, hArena] at hError
          simp at hError
      · next arena' hArena' =>
          rw [hNodes, hArena] at hArena'
          obtain rfl := Except.ok.inj hArena'
          exact ⟨_, rfl⟩

/-- A term has the same tree wherever its tokens stand, spans aside. -/
theorem Term.exists_toTree_relocated {term : Term} {file file' : String}
    {locate locate' : Extent → Span} {tree : Tree} (h : term.toTree file locate = .ok tree) :
    ∃ span, term.toTree file' locate' = .ok { tree with file := file', span } := by
  refine Tree.exists_ofParts_relocated ?_ h
  rw [Array.map_map, Array.map_map]
  rfl

namespace Tree

variable {source source' : String} {stream stream' : TokenStream}

/-- **The grammar looks at lexemes only:** texts with the same lexemes end in the same fault, up to its
file and line, or in the same tree, up to its file and spans. -/
theorem ofSource_relocated (hStream : TokenStream.ofSource source = .ok stream)
    (hStream' : TokenStream.ofSource source' = .ok stream')
    (hLexemes : stream'.lexemes = stream.lexemes) (resolve : String → String)
    (file file' : String) :
    (∃ fault line, Tree.ofSource resolve file source = .error fault ∧
      Tree.ofSource resolve file' source' = .error ((fault.inFile file').onLine line)) ∨
    ∃ tree span, Tree.ofSource resolve file source = .ok tree ∧
      Tree.ofSource resolve file' source' = .ok { tree with file := file', span } := by
  cases hUnit : Parser.compilationUnit resolve stream.lexemes with
  | error e =>
      have hUnit' : Parser.compilationUnit resolve stream'.lexemes = .error e := hLexemes ▸ hUnit
      refine .inl ⟨e.toFault file stream, (stream'.position e.left).line, ?_, ?_⟩
      · simp [Tree.ofSource, hStream, hUnit, Except.mapError, Bind.bind, Except.bind]
      · simp [Tree.ofSource, hStream', hUnit', Except.mapError, Bind.bind, Except.bind,
          ParseError.toFault, Fault.inFile, Fault.onLine]
  | ok unit =>
      have hUnit' : Parser.compilationUnit resolve stream'.lexemes = .ok unit := hLexemes ▸ hUnit
      obtain ⟨tree, hTree, hSource⟩ := exists_ofSource hStream hUnit file
      obtain ⟨tree', hTree', hSource'⟩ := exists_ofSource hStream' hUnit' file'
      obtain ⟨span, hRelocated⟩ := Term.exists_toTree_relocated hTree
      obtain rfl := Except.ok.inj (hTree'.symm.trans hRelocated)
      exact .inr ⟨tree, span, hSource, hSource'⟩

end Tree

/-! ## Reports about other places -/

namespace Context

/-- A unit corresponds to the same unit at other places. -/
def Transfer.relocated (unit : SourceUnit) (file : String) (span : unit.tree.Id → Span)
    {config : Config} (hAccepted : config.error? = none) :
    Transfer (ofUnit unit config) (ofUnit ⟨{ unit.tree with file, span }, unit.oracle⟩ config) where
  toEmbedding := .refl unit.tree.toArena
  typeOf_map _ := rfl
  sameSymbol_map _ _ := rfl
  trusts := .refl config
  accepted := hAccepted

/-- What is found in a unit is found at other places as well, in the same order and in the same
words. -/
theorem sublist_of_relocated (unit : SourceUnit) (file : String) (span : unit.tree.Id → Span)
    {config : Config} (hAccepted : config.error? = none) (hRead : unit.tree.IsRead)
    (hRead' : Tree.IsRead { unit.tree with file, span }) :
    let here := ofUnit unit config
    let there := ofUnit ⟨{ unit.tree with file, span }, unit.oracle⟩ config
    ((there.orderedFindings config.rules).map fun f =>
        ((there.diagnostic f).node, (there.diagnostic f).wording)).Sublist
      ((here.orderedFindings config.rules).map fun f =>
        ((here.diagnostic f).node, (here.diagnostic f).wording)) := by
  intro here there
  let t := Transfer.relocated unit file span hAccepted
  refine t.contents_map_of_total (fun d => (d.node, d.wording)) (fun _ => rfl) (fun _ => rfl)
    (fun _ => rfl) ?_
  intro f hf g hg hLe
  exact t.le_map hRead hRead' hf hg rfl rfl hLe

end Context

namespace Config

/-- **The report about a unit at other places** differs in places only. -/
theorem report_relocated {config : Config} (hConfig : config.validate = .ok config)
    {unit : SourceUnit} {file : String} {span : unit.tree.Id → Span} (hRead : unit.tree.IsRead)
    (hRead' : Tree.IsRead { unit.tree with file, span }) :
    ∃ report report', config.report unit = .ok report ∧
      config.report ⟨{ unit.tree with file, span }, unit.oracle⟩ = .ok report' ∧
      report'.stats = report.stats ∧
      report'.diagnostics.map (fun d => (d.node, d.wording)) =
        report.diagnostics.map fun d => (d.node, d.wording) := by
  let unit' : SourceUnit := ⟨{ unit.tree with file, span }, unit.oracle⟩
  let here := Context.ofUnit unit config
  let there := Context.ofUnit unit' config
  have hAccepted := error?_of_validate hConfig
  have hSame : (there.orderedFindings config.rules).map
        (fun f => ((there.diagnostic f).node, (there.diagnostic f).wording)) =
      (here.orderedFindings config.rules).map
        fun f => ((here.diagnostic f).node, (here.diagnostic f).wording) :=
    (Context.sublist_of_relocated unit file span hAccepted hRead hRead').antisymm
      (Context.sublist_of_relocated unit' unit.tree.file unit.tree.span hAccepted hRead' hRead)
  have hCount : (there.findings config.rules).length = (here.findings config.rules).length := by
    have hLength := congrArg List.length hSame
    simpa only [List.length_map, Context.orderedFindings, List.length_mergeSort] using hLength
  refine ⟨_, _, report_eq hConfig unit, report_eq hConfig unit', ?_, ?_⟩
  · exact congrArg (Stats.mk _ _) hCount
  · rw [List.map_map, List.map_map]
    exact hSame

end Config

/-! ## Texts -/

namespace Tree

/-- **Reformatting moves places only.**  Two texts with the same lexemes end in the same fault, up to
its line, or have the same tree, up to its spans.  Then they have one oracle, and an accepted
configuration reports the same about them: the same counts and, in the same order, diagnostics about
the same nodes in the same words. -/
theorem reformatting_moves_places_only {config : Config} (hConfig : config.validate = .ok config)
    {source source' : String} {stream stream' : TokenStream}
    (hStream : TokenStream.ofSource source = .ok stream)
    (hStream' : TokenStream.ofSource source' = .ok stream')
    (hLexemes : stream'.lexemes = stream.lexemes) (resolve : String → String)
    (file file' : String) :
    (∃ fault line, Tree.ofSource resolve file source = .error fault ∧
      Tree.ofSource resolve file' source' = .error ((fault.inFile file').onLine line)) ∨
    ∃ tree span, Tree.ofSource resolve file source = .ok tree ∧
      Tree.ofSource resolve file' source' = .ok { tree with file := file', span } ∧
      Tree.bind { tree with file := file', span } config = tree.bind config ∧
      ∃ report report', config.report ⟨tree, tree.bind config⟩ = .ok report ∧
        config.report ⟨{ tree with file := file', span },
          Tree.bind { tree with file := file', span } config⟩ = .ok report' ∧
        report'.stats = report.stats ∧
        report'.diagnostics.map (fun d => (d.node, d.code, d.severity, d.message, d.arguments)) =
          report.diagnostics.map fun d => (d.node, d.code, d.severity, d.message, d.arguments) := by
  rcases ofSource_relocated hStream hStream' hLexemes resolve file file' with hFault |
    ⟨tree, span, hTree, hTree'⟩
  · exact .inl hFault
  have hBind : Tree.bind { tree with file := file', span } config = tree.bind config :=
    bind_eq (isProgram_ofSource hTree) (.refl config) file' span
  refine .inr ⟨tree, span, hTree, hTree', hBind, ?_⟩
  rw [hBind]
  exact @Config.report_relocated config hConfig ⟨tree, tree.bind config⟩ file' span
    ⟨resolve, file, source, hTree⟩ ⟨resolve, file', source', hTree'⟩

/-- A read that is compared with null, on one line and spread over three lines with comments and other
spellings of the literals: both texts have a tree, and the reports about them differ in places
only. -/
theorem spread_comparison_is_reported_alike :
    let short := "void f(Result<int> r) \x7b g(r.Value == null, 10, \"x\"); \x7d"
    let long := "void f(Result<int>r) // read\n \x7b g(r /* it */ .Value==null,\n1_0,\"\\x\");\x7d"
    ({} : Config).validate = .ok {} ∧
    ∃ stream stream', TokenStream.ofSource short = .ok stream ∧
      TokenStream.ofSource long = .ok stream' ∧ stream'.lexemes = stream.lexemes ∧
      stream'.tokens ≠ stream.tokens ∧
      ∃ tree span, Tree.ofSource id "f.cs" short = .ok tree ∧
        Tree.ofSource id "g.cs" long = .ok { tree with file := "g.cs", span } ∧
        ∃ report report', ({} : Config).report ⟨tree, tree.bind {}⟩ = .ok report ∧
          ({} : Config).report ⟨{ tree with file := "g.cs", span },
            Tree.bind { tree with file := "g.cs", span } {}⟩ = .ok report' ∧
          report'.stats = report.stats ∧
          report'.diagnostics.map (fun d => (d.node, d.code, d.severity, d.message, d.arguments)) =
            report.diagnostics.map fun d =>
              (d.node, d.code, d.severity, d.message, d.arguments) := by
  intro short long
  have hConfig : ({} : Config).validate = .ok {} := rfl
  refine ⟨hConfig, ?_⟩
  have hSame : (TokenStream.ofSource long).toOption.map TokenStream.lexemes =
      (TokenStream.ofSource short).toOption.map TokenStream.lexemes := by
    decide +kernel
  have hMoved : (TokenStream.ofSource long).toOption.map (·.tokens) ≠
      (TokenStream.ofSource short).toOption.map (·.tokens) := by
    decide +kernel
  have hSome : (Tree.ofSource id "f.cs" short).toOption.isSome = true := by decide +kernel
  cases hStream : TokenStream.ofSource short with
  | error e =>
      simp [Tree.ofSource, hStream, Except.mapError, Except.toOption, Bind.bind, Except.bind] at hSome
  | ok stream =>
      cases hStream' : TokenStream.ofSource long with
      | error e => simp [hStream, hStream', Except.toOption] at hSame
      | ok stream' =>
          simp only [hStream, hStream', Except.toOption, Option.map_some, Option.some.injEq,
            ne_eq] at hSame hMoved
          refine ⟨stream, stream', rfl, rfl, hSame, hMoved, ?_⟩
          rcases reformatting_moves_places_only hConfig hStream hStream' hSame id "f.cs" "g.cs" with
            ⟨fault, line, hFault, -⟩ | ⟨tree, span, hTree, hTree', -, hReports⟩
          · simp [hFault, Except.toOption] at hSome
          · exact ⟨tree, span, hTree, hTree', hReports⟩

end Tree

end StateGuard
