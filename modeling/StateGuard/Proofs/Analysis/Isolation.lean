import StateGuard.Proofs.Analysis.Places
import StateGuard.Proofs.Syntax.Counterpart

/-!
# Bodies do not interfere

Two units have the same members except for the body of one method.  The binder leaves every scope as
it found it, so that body has no say in what is known about the nodes outside of it, and no rule looks
into a method from outside.  So the reports say the same about everything outside of that method.

## Main results

* `Context.Transfer.ofBodies`: the units correspond outside of the two bodies.
* `SourceUnit.bodies_do_not_interfere`: the reports about two such texts.
-/

namespace StateGuard

open Arena

/-- Whether the node of a number lies outside of a node. -/
def Tree.isOutside (tree : Tree) (top : tree.Id) (n : Nat) : Bool :=
  (tree.id? n).all fun i => !tree.isWithin i top

theorem Tree.isOutside_val {tree : Tree} (top i : tree.Id) :
    tree.isOutside top i.val = !tree.isWithin i top := by
  simp [isOutside, id?]

namespace Context

section Bodies

variable {tree tree' : Tree} {config : Config} {method body : tree.Id} {method' body' : tree'.Id}

/-- Units that differ in one body correspond outside of it. -/
def Transfer.ofBodies (hTree : tree.IsProgram) (hTree' : tree'.IsProgram)
    (hAccepted : config.error? = none)
    (h : DiffersInBody tree.toArena tree'.toArena method body method' body') :
    Transfer (ofUnit ⟨tree, tree.bind config⟩ config)
      (ofUnit ⟨tree', tree'.bind config⟩ config) where
  toEmbedding := h.embedding hTree
  typeOf_map hi := Binder.typeOf_bind_map (.refl config) hTree hTree' hi
  sameSymbol_map hi hj := Binder.sameSymbol_bind_map (.refl config) hTree hTree' hi hj
  trusts := .refl config
  accepted := hAccepted

/-- No rule looks at a method or at its parameters, so a finding in a method is in its body. -/
theorem isWithin_method_eq (hTree : tree.IsProgram)
    (h : DiffersInBody tree.toArena tree'.toArena method body method' body') {rules : List Rule}
    {f : Finding tree.Id}
    (hf : f ∈ (ofUnit ⟨tree, tree.bind config⟩ config).findings rules) :
    tree.isWithin f.node method = tree.isWithin f.node body := by
  have hFindable := isFindable_of_mem hTree hf
  have hParameter : (tree.node f.node).kind ≠ .parameter := hFindable.2.1
  have hInner : (tree.node f.node).kind.isInner = true := hFindable.2.2
  obtain ⟨name, returnType, params, params', isAsync, hMethod, -⟩ := h.methods
  rw [Bool.eq_iff_iff]
  constructor
  · intro hWithin
    rcases isWithin_iff_part.1 hWithin with hEq | ⟨c, hc, hPart⟩
    · rw [hEq, h.kind_method] at hInner
      simp [NodeKind.isInner] at hInner
    · rw [hMethod] at hc
      rcases List.mem_append.1 hc with hParam | hBody
      · have hKind : (tree.node c).kind = .parameter :=
          (hTree.sorted method).kind_of_mem_params (by rw [hMethod]; exact hParam)
        rw [eq_of_isWithin_parameter hKind hPart] at hParameter
        exact absurd hKind hParameter
      · exact List.mem_singleton.1 hBody ▸ hPart
  · intro hWithin
    exact isWithin_trans hWithin (isWithin_of_parent h.parent_body (isWithin_self method))

/-- What the report says about everything outside of a method. -/
theorem filter_isOutside (config : Config) (hTree : tree.IsProgram)
    (h : DiffersInBody tree.toArena tree'.toArena method body method' body') (rules : List Rule) :
    let ctx := ofUnit ⟨tree, tree.bind config⟩ config
    (((ctx.orderedFindings rules).map ctx.diagnostic).filter
        fun d => tree.isOutside method d.node).map Diagnostic.wording =
      ((ctx.orderedFindings rules).filter fun f => !tree.isWithin f.node body).map
        fun f => (ctx.diagnostic f).wording := by
  intro ctx
  rw [List.filter_map, List.map_map]
  congr 1
  apply List.filter_congr
  intro f hf
  have hWithin := isWithin_method_eq hTree h (mem_orderedFindings_iff.1 hf)
  rw [← hWithin]
  exact Tree.isOutside_val method f.node

/-- What is found outside of one body is found outside of the other as well, in the same order and in
the same words. -/
theorem sublist_of_bodies (hRead : tree.IsRead) (hRead' : tree'.IsRead)
    (hAccepted : config.error? = none)
    (h : DiffersInBody tree.toArena tree'.toArena method body method' body') :
    let here := ofUnit ⟨tree, tree.bind config⟩ config
    let there := ofUnit ⟨tree', tree'.bind config⟩ config
    (((there.orderedFindings config.rules).filter fun f => !tree'.isWithin f.node body').map
        fun f => (there.diagnostic f).wording).Sublist
      (((here.orderedFindings config.rules).filter fun f => !tree.isWithin f.node body).map
        fun f => (here.diagnostic f).wording) := by
  intro here there
  let t := Transfer.ofBodies hRead.isProgram hRead'.isProgram hAccepted h
  refine t.contents_map Diagnostic.wording (fun _ => rfl) ?_
  intro f hf g hg hKeptF hKeptG hLe
  exact t.le_map hRead hRead' hf hg hKeptF hKeptG hLe

end Bodies

end Context

namespace SourceUnit

/-- The unit of a text is its tree, bound. -/
theorem exists_tree_of_ofSource {config : Config} {file source : String} {unit : SourceUnit}
    (h : SourceUnit.ofSource config file source = .ok unit) :
    ∃ tree, tree.IsRead ∧ unit = ⟨tree, tree.bind config⟩ := by
  obtain ⟨tree, hTree, hUnit⟩ := exists_of_bind_eq_ok h
  exact ⟨tree, ⟨_, _, _, hTree⟩, (Except.ok.inj hUnit).symm⟩

/-- **Bodies do not interfere.**  Two texts have the same members except for the body of one method.
Then the reports of an accepted configuration about them list the same diagnostics outside of that
method, in the same order and in the same words. -/
theorem bodies_do_not_interfere {config : Config} (hConfig : config.validate = .ok config)
    {file file' source source' : String} {unit unit' : SourceUnit}
    (hUnit : SourceUnit.ofSource config file source = .ok unit)
    (hUnit' : SourceUnit.ofSource config file' source' = .ok unit')
    {before after params : List Term} {body body' : Term} {name : String}
    {returnType : Option TypeRef} {isAsync : Bool}
    (hTerm : unit.tree.term unit.tree.root = ⟨.compilationUnit (before ++
      ⟨.method name returnType params body isAsync, .nowhere⟩ :: after), .nowhere⟩)
    (hTerm' : unit'.tree.term unit'.tree.root = ⟨.compilationUnit (before ++
      ⟨.method name returnType params body' isAsync, .nowhere⟩ :: after), .nowhere⟩) :
    ∃ method method' report report',
      (unit.tree.node unit.tree.root).children[before.length]? = some method ∧
      (unit'.tree.node unit'.tree.root).children[before.length]? = some method' ∧
      config.report unit = .ok report ∧ config.report unit' = .ok report' ∧
      (report'.diagnostics.filter fun d => unit'.tree.isOutside method' d.node).map
          (fun d => (d.code, d.severity, d.message, d.arguments)) =
        (report.diagnostics.filter fun d => unit.tree.isOutside method d.node).map
          fun d => (d.code, d.severity, d.message, d.arguments) := by
  obtain ⟨tree, hRead, rfl⟩ := exists_tree_of_ofSource hUnit
  obtain ⟨tree', hRead', rfl⟩ := exists_tree_of_ofSource hUnit'
  obtain ⟨method, b, method', b', hMethod, hMethod', hDiffers⟩ := exists_differsInBody hTerm hTerm'
  have hAccepted := Config.error?_of_validate hConfig
  refine ⟨method, method', _, _, hMethod, hMethod', Config.report_eq hConfig _,
    Config.report_eq hConfig _, ?_⟩
  have hHere := Context.filter_isOutside config hRead.isProgram hDiffers config.rules
  have hThere := Context.filter_isOutside config hRead'.isProgram hDiffers.symm config.rules
  refine hThere.trans (Eq.trans ?_ hHere.symm)
  exact (Context.sublist_of_bodies hRead hRead' hAccepted hDiffers).antisymm
    (Context.sublist_of_bodies hRead' hRead hAccepted hDiffers.symm)

/-- The term of the field `Result<int> n;`. -/
def resultField : Term :=
  ⟨.localDeclaration "n" (some (.generic "CSharpFunctionalExtensions.Result" [.named "int"])) none,
    .nowhere⟩

/-- The term of a method `f` without parameters. -/
def methodWithBody (statements : List Term) : Term :=
  ⟨.method "f" none [] ⟨.block statements, .nowhere⟩ false, .nowhere⟩

/-- The term of the method `void k() { h(n.Value); }`. -/
def readingMethod : Term :=
  ⟨.method "k" none [] ⟨.block [⟨.expressionStatement ⟨.invocation ⟨.identifier "h", .nowhere⟩
    [⟨none, ⟨.memberAccess ⟨.identifier "n", .nowhere⟩ "Value", .nowhere⟩⟩], .nowhere⟩,
    .nowhere⟩], .nowhere⟩ false, .nowhere⟩

/-- A method that is empty in one text hides a field by a local variable in the other.  The next method
reads the field, and the reports say the same about it. -/
theorem hiding_a_field_stays_in_the_body :
    let empty := "Result<int> n; void f() \x7b \x7d void k() \x7b h(n.Value); \x7d"
    let shadowing := "Result<int> n; void f() \x7b int n = 1; \x7d void k() \x7b h(n.Value); \x7d"
    let declaration : Term :=
      ⟨.localDeclaration "n" (some (.named "int")) (some ⟨.literal (.int 1), .nowhere⟩), .nowhere⟩
    ({} : Config).validate = .ok {} ∧
    ∃ unit unit', SourceUnit.ofSource {} "f.cs" empty = .ok unit ∧
      SourceUnit.ofSource {} "f.cs" shadowing = .ok unit' ∧
      unit.tree.term unit.tree.root =
        ⟨.compilationUnit ([resultField] ++ methodWithBody [] :: [readingMethod]), .nowhere⟩ ∧
      unit'.tree.term unit'.tree.root = ⟨.compilationUnit
        ([resultField] ++ methodWithBody [declaration] :: [readingMethod]), .nowhere⟩ ∧
      ∃ method method' report report',
        (unit.tree.node unit.tree.root).children[1]? = some method ∧
        (unit'.tree.node unit'.tree.root).children[1]? = some method' ∧
        ({} : Config).report unit = .ok report ∧ ({} : Config).report unit' = .ok report' ∧
        (report'.diagnostics.filter fun d => unit'.tree.isOutside method' d.node).map
            (fun d => (d.code, d.severity, d.message, d.arguments)) =
          (report.diagnostics.filter fun d => unit.tree.isOutside method d.node).map
            fun d => (d.code, d.severity, d.message, d.arguments) := by
  intro empty shadowing declaration
  have hConfig : ({} : Config).validate = .ok {} := rfl
  refine ⟨hConfig, ?_⟩
  have hEmpty : (SourceUnit.ofSource {} "f.cs" empty).toOption.any (fun unit =>
      (unit.tree.term unit.tree.root).isSame ⟨.compilationUnit
        ([resultField] ++ methodWithBody [] :: [readingMethod]), .nowhere⟩) = true := by
    decide +kernel
  have hShadowing : (SourceUnit.ofSource {} "f.cs" shadowing).toOption.any (fun unit =>
      (unit.tree.term unit.tree.root).isSame ⟨.compilationUnit
        ([resultField] ++ methodWithBody [declaration] :: [readingMethod]), .nowhere⟩) = true := by
    decide +kernel
  cases hUnit : SourceUnit.ofSource {} "f.cs" empty with
  | error fault => simp [hUnit, Except.toOption] at hEmpty
  | ok unit =>
      cases hUnit' : SourceUnit.ofSource {} "f.cs" shadowing with
      | error fault => simp [hUnit', Except.toOption] at hShadowing
      | ok unit' =>
          rw [hUnit] at hEmpty
          rw [hUnit'] at hShadowing
          have hTerm := Term.eq_of_isSame hEmpty
          have hTerm' := Term.eq_of_isSame hShadowing
          exact ⟨unit, unit', rfl, rfl, hTerm, hTerm',
            bodies_do_not_interfere hConfig hUnit hUnit' hTerm hTerm'⟩

end SourceUnit

end StateGuard
