import StateGuard.Proofs.Dump.Texts

/-!
# Dumps are read back

The document of a unit holds nothing but integers that fit into words, so its text is read as the
document, and the document as the unit.

## Main results

* `SourceUnit.isWhole_toJson`: the document of a unit has a text that stands for it.
* `SourceUnit.dump_is_read_back`: the dump of a unit is read as the unit, every unit of a source text
  can be dumped, and whatever is read has been checked.
-/

namespace StateGuard

/-! ## Documents of units -/

namespace Json

theorem IsWhole.nat {n : Nat} (h : n < Word.capacity 64) : IsWhole (.nat n) := by
  have hNat : (n : Int) < (Word.capacity 64 : Nat) := by exact_mod_cast h
  have hMin : minInt ≤ 0 := by decide
  refine .int (hMin.trans (Int.natCast_nonneg n)) ?_
  unfold maxInt
  omega

theorem IsWhole.ofOption {α : Type} {encode : α → Json} {value : Option α}
    (h : ∀ v ∈ value, (encode v).IsWhole) : IsWhole (.ofOption encode value) := by
  cases value with
  | none => exact .null
  | some v => exact h v rfl

theorem IsWhole.list {α : Type} {encode : α → Json} {values : List α}
    (h : ∀ v ∈ values, (encode v).IsWhole) : IsWhole (.arr (values.map encode)) := by
  refine .arr fun item hItem => ?_
  obtain ⟨v, hv, rfl⟩ := List.mem_map.1 hItem
  exact h v hv

end Json

open Json (IsWhole)

mutual
theorem TypeRef.isWhole_toJson : (type : TypeRef) → IsWhole type.toJson
  | ⟨name, args, isDefinition⟩ => by
      have hArgs := TypeRef.isWhole_allToJson args
      rw [toJson]
      refine .obj fun member hMember => ?_
      simp only [List.mem_append, List.mem_singleton] at hMember
      rcases hMember with (rfl | hMember) | hMember
      · exact .str _
      · split at hMember
        · simp at hMember
        · obtain rfl := List.mem_singleton.1 hMember
          exact .arr hArgs
      · split at hMember
        · obtain rfl := List.mem_singleton.1 hMember
          exact .bool _
        · simp at hMember
theorem TypeRef.isWhole_allToJson : (types : List TypeRef) →
    ∀ json ∈ TypeRef.allToJson types, IsWhole json
  | [] => by simp [allToJson]
  | type :: types => by
      have hType := TypeRef.isWhole_toJson type
      have hTypes := TypeRef.isWhole_allToJson types
      intro json hJson
      rw [allToJson] at hJson
      rcases List.mem_cons.1 hJson with rfl | hRest
      · exact hType
      · exact hTypes json hRest
end

theorem Literal.isWhole_toJson {value : Literal} (h : value.FitsWords) : IsWhole value.toJson := by
  cases value with
  | null => exact .str _
  | bool value => exact .obj (by simp [IsWhole.bool])
  | str value => exact .obj (by simp [IsWhole.str])
  | int value =>
      have hMax : value ≤ Json.maxInt := by
        have hWords : (Word.capacity 63 : Nat) < Word.capacity 64 := by decide
        have hLt := h.2
        unfold Json.maxInt
        omega
      exact .obj (by simp [IsWhole.int h.1 hMax])

theorem Pattern.isWhole_toJson {pattern : Pattern} (h : ∀ value ∈ pattern.literal?, value.FitsWords) :
    IsWhole pattern.toJson := by
  cases pattern with
  | literal value => exact .obj (by simp [Literal.isWhole_toJson (h value rfl)])
  | _ => exact .str _

theorem Argument.isWhole_toJson {arg : Argument Nat} (h : arg.value < Word.capacity 64) :
    IsWhole arg.toJson := by
  obtain ⟨name, value⟩ := arg
  cases name <;> exact .obj (by simp [IsWhole.nat h, IsWhole.str])

/-- The fields of a node hold integers that fit into words. -/
theorem Node.isWhole_fieldsJson {node : Node Nat} (h : node.FitsWords) :
    ∀ field ∈ node.fieldsJson, IsWhole field.2 := by
  have hPart : ∀ c ∈ node.children, IsWhole (.nat c) := fun c hc => .nat (h.children c hc)
  have hType : ∀ type : Option TypeRef, IsWhole (.ofOption TypeRef.toJson type) :=
    fun type => .ofOption fun v _ => v.isWhole_toJson
  have hLiteral := h.literal
  have hParts : ∀ parts : List Nat, (∀ c ∈ parts, c ∈ node.children) → IsWhole (ids parts) :=
    fun parts hParts => .list fun c hc => hPart c (hParts c hc)
  cases node with
  | literal value => simp [fieldsJson, Literal.isWhole_toJson (hLiteral value rfl)]
  | isPattern operand pattern =>
      simp [fieldsJson, Pattern.isWhole_toJson hLiteral, hPart operand (by simp [children])]
  | invocation callee args =>
      have hArgs : IsWhole (.arr (args.map Argument.toJson)) := .list fun arg hArg =>
        Argument.isWhole_toJson (h.children _ (by simp [children]; exact .inr ⟨arg, hArg, rfl⟩))
      simp [fieldsJson, hArgs, hPart callee (by simp [children])]
  | localDeclaration name type init =>
      have hInit : IsWhole (.ofOption .nat init) := .ofOption fun c hc =>
        hPart c (by simp_all [children])
      simp [fieldsJson, hType, hInit, IsWhole.str]
  | returnStatement value =>
      have hValue : IsWhole (.ofOption .nat value) := .ofOption fun c hc =>
        hPart c (by simp_all [children])
      simp [fieldsJson, hValue]
  | ifStatement condition thenBranch elseBranch =>
      have hElse : IsWhole (.ofOption .nat elseBranch) := .ofOption fun c hc =>
        hPart c (by simp_all [children])
      simp [fieldsJson, hElse, hPart condition (by simp [children]),
        hPart thenBranch (by simp [children])]
  | compilationUnit members => simp [fieldsJson, hParts members (by simp [children])]
  | block statements => simp [fieldsJson, hParts statements (by simp [children])]
  | method name returnType params body isAsync =>
      simp [fieldsJson, hType, IsWhole.str, IsWhole.bool, hParts params (by simp_all [children]),
        hPart body (by simp [children])]
  | lambda params body isAsync =>
      simp [fieldsJson, IsWhole.bool, hParts params (by simp_all [children]),
        hPart body (by simp [children])]
  | _ =>
      simp only [children, List.mem_cons, List.not_mem_nil, or_false, forall_eq_or_imp,
        forall_eq] at hPart
      simp [fieldsJson, hType, hPart, IsWhole.str]

theorem Span.isWhole_toJson {span : Span} (h : span.FitsWords) : IsWhole span.toJson := by
  have hWords : Word.capacity 32 ≤ Word.capacity 64 := by decide
  have hNat : ∀ n < Word.capacity 32, IsWhole (.nat n) := fun n hn => .nat (hn.trans_le hWords)
  exact .obj (by simp [hNat, h.start.1, h.start.2, h.stop.1, h.stop.2])

theorem Tree.isWhole_toJson {tree : Tree} (h : tree.FitsWords) : IsWhole tree.toJson := by
  have hId : ∀ i : tree.Id, IsWhole (.nat i.val) := fun i => .nat (i.isLt.trans_le h.size)
  have hNode : ∀ i, IsWhole (tree.nodeJson i) := by
    intro i
    refine .obj fun member hMember => ?_
    simp only [List.mem_append, List.mem_cons, List.not_mem_nil, or_false] at hMember
    rcases hMember with ((rfl | rfl) | hField) | rfl | rfl
    · exact hId i
    · exact .str _
    · exact Node.isWhole_fieldsJson (h.node i) member hField
    · exact Span.isWhole_toJson (h.span i)
    · exact .ofOption fun p _ => hId p
  have hNodes : IsWhole (.arr (tree.ids.map tree.nodeJson)) := .list fun i _ => hNode i
  exact .obj (by simp [IsWhole.str, hNodes, hId])

theorem Table.isWhole_toJson (table : Table) : IsWhole table.toJson := by
  refine .obj (List.forall_mem_cons.2 ⟨.obj fun member hMember => ?_,
    List.forall_mem_singleton.2 (.obj fun member hMember => ?_)⟩)
  · obtain ⟨entry, -, rfl⟩ := List.mem_map.1 hMember
    exact entry.2.isWhole_toJson
  · obtain ⟨entry, -, rfl⟩ := List.mem_map.1 hMember
    exact .str _

namespace SourceUnit

/-- **The document of a unit has a text that stands for it.** -/
theorem isWhole_toJson {unit : SourceUnit} (h : unit.tree.FitsWords) : IsWhole unit.toJson :=
  .obj (by simp [Tree.isWhole_toJson h, Table.isWhole_toJson])

/-! ## What is checked in texts -/

/-- The tree that has been read has been accepted. -/
def Partial.IsAccepted (parts : Partial) : Prop :=
  ∀ tree ∈ parts.tree, ∃ file nodes root, Tree.ofParts file nodes root = .ok tree

theorem Partial.IsAccepted.readMember {parts read : Partial} {key : String} {value? : Option Json}
    (hParts : parts.IsAccepted) (h : SourceUnit.readMember parts key value? = .ok read) :
    read.IsAccepted := by
  obtain ⟨-, -, value, tree, -, hTree, rfl⟩ | ⟨-, -, table, -, rfl⟩ | ⟨-, -, rfl⟩ :=
    readMember_cases h
  · intro found hFound
    obtain rfl : tree = found := by simpa using hFound
    obtain ⟨file, nodes, root, -, hNodes⟩ := Tree.exists_of_ofJson hTree
    exact ⟨file, nodes.toArray, root, hNodes⟩
  · exact hParts
  · exact hParts

theorem isAccepted_of_readMembers {members : List (List Char × Json.Raw)} {read : Partial}
    (h : readMembers members = .ok read) : read.IsAccepted := by
  have hStart : Partial.IsAccepted {} := by simp [Partial.IsAccepted]
  unfold readMembers at h
  generalize ({} : Partial) = parts at h hStart
  induction members generalizing parts with
  | nil =>
      obtain rfl : parts = read := by simpa [pure, Except.pure] using h
      exact hStart
  | cons member members ih =>
      rw [List.foldlM_cons] at h
      obtain ⟨next, hNext, hRest⟩ := exists_of_bind_eq_ok h
      refine ih next hRest ?_
      cases hKey : Json.Raw.key? member.1 with
      | none => simp [hKey] at hNext
      | some key =>
          simp only [hKey] at hNext
          exact hStart.readMember hNext

theorem isAccepted_of_readRaw {raw : Json.Raw} {read : Partial} (h : readRaw raw = .ok read) :
    read.IsAccepted := by
  cases raw with
  | obj members => exact isAccepted_of_readMembers h
  | arr items =>
      obtain ⟨parts, hParts, hRead⟩ := exists_of_bind_eq_ok h
      split at hRead
      · obtain rfl := Except.ok.inj hRead
        exact isAccepted_of_readMembers hParts
      · simp at hRead
  | _ => simp [readRaw] at h

/-- Whatever text is read as a unit, its tree is accepted and its table is in range. -/
theorem exists_of_ofDump {text : String} {unit : SourceUnit} (h : ofDump text = .ok unit) :
    (∃ file parts root, Tree.ofParts file parts root = .ok unit.tree) ∧
      ∃ table : Table, table.outOfRange? unit.tree.size = none ∧
        unit.oracle = .ofTable unit.tree.size table := by
  unfold ofDump at h
  split at h
  · obtain ⟨read, hRead, hUnit⟩ := exists_of_bind_eq_ok h
    obtain ⟨hTree, hRange, hOracle⟩ := ofParts_eq_ok.1 hUnit
    exact ⟨isAccepted_of_readRaw hRead unit.tree hTree, _, hRange, hOracle⟩
  · obtain ⟨_, _, hError⟩ := exists_of_bind_eq_ok h
    simp at hError

/-! ## Round trips -/

/-- **The dump of a unit is read as the unit.**  It is so for every tree that has been accepted and
every table of its nodes, for documents and, up to the depth to which values may nest, for texts.
Units of source texts are such units.  Conversely, what is read as a unit has been checked, and the
numbers and parents of nodes do not matter for that. -/
theorem dump_is_read_back :
    (∀ (unit : SourceUnit) (file : String) (parts : Array Part) (root : Nat),
      Tree.ofParts file parts root = .ok unit.tree → unit.tree.FitsWords →
        ofJson unit.toJson = .ok unit ∧
          (unit.toJson.depth ≤ Json.maxDepth → ofDump unit.dump = .ok unit)) ∧
    (∀ (config : Config) (file source : String) (unit : SourceUnit),
      ofSource config file source = .ok unit →
        (∃ parts root, Tree.ofParts file parts root = .ok unit.tree) ∧
          unit.oracle.toTable.outOfRange? unit.tree.size = none) ∧
    (∀ (json : Json) (unit : SourceUnit), ofJson json = .ok unit →
      ∃ members, members? json = some members ∧
        (∃ value file parts root, ("tree", value) ∈ members ∧
          Tree.described? value = some (file, parts, root) ∧
          Tree.ofParts file parts.toArray root = .ok unit.tree) ∧
        ∃ table, (∀ value, ("oracle", value) ∈ members → Table.ofJson? value = some table) ∧
          ((∀ value, ("oracle", value) ∉ members) → table = {}) ∧
          table.outOfRange? unit.tree.size = none ∧
          unit.oracle = .ofTable unit.tree.size table) ∧
    (∀ (text : String) (unit : SourceUnit), ofDump text = .ok unit →
      (∃ file parts root, Tree.ofParts file parts root = .ok unit.tree) ∧
        ∃ table : Table, table.outOfRange? unit.tree.size = none ∧
          unit.oracle = .ofTable unit.tree.size table) ∧
    (∀ json, ofJson (forgetPlaces json) = ofJson json) ∧
    ∀ (json : Json) (unit : SourceUnit), json.IsWhole → json.depth ≤ Json.maxDepth →
      (ofDump json.write = .ok unit ↔ ofJson json = .ok unit) := by
  refine ⟨?_, ?_, fun _ _ => exists_of_ofJson, fun _ _ => exists_of_ofDump, ofJson_forgetPlaces,
    fun _ unit hWhole hDepth => ofDump_write hWhole hDepth unit⟩
  · intro unit file parts root hTree hFits
    have hRead := ofJson_toJson hTree hFits
    exact ⟨hRead, fun hDepth => (ofDump_write (isWhole_toJson hFits) hDepth unit).2 hRead⟩
  · intro config file source unit hUnit
    obtain ⟨tree, hTree, hBound⟩ := exists_of_bind_eq_ok hUnit
    obtain rfl := Except.ok.inj hBound
    obtain ⟨stream, term, -, -, hLaid⟩ := Tree.exists_unit_of_ofSource hTree
    exact ⟨⟨_, _, hLaid⟩, Oracle.outOfRange?_toTable _⟩

/-- The unit of a text with a comparison is dumped and read back. -/
theorem comparison_is_read_back :
    ∃ unit, ofSource {} "f.cs" "void f(Result<int> r) \x7b g(r.Value == 1); \x7d" = .ok unit ∧
      unit.tree.FitsWords ∧ unit.toJson.depth ≤ Json.maxDepth ∧ ofDump unit.dump = .ok unit := by
  have hFits : (match ofSource {} "f.cs" "void f(Result<int> r) \x7b g(r.Value == 1); \x7d" with
      | .ok unit => decide (unit.tree.FitsWords ∧ unit.toJson.depth ≤ Json.maxDepth)
      | .error _ => false) = true := by
    decide +kernel
  cases hUnit : ofSource {} "f.cs" "void f(Result<int> r) \x7b g(r.Value == 1); \x7d" with
  | error fault => simp [hUnit] at hFits
  | ok unit =>
      rw [hUnit] at hFits
      obtain ⟨hWords, hDepth⟩ := of_decide_eq_true hFits
      obtain ⟨hRoundTrip, hAccepted, -⟩ := dump_is_read_back
      obtain ⟨⟨parts, root, hTree⟩, -⟩ := hAccepted {} _ _ unit hUnit
      exact ⟨unit, rfl, hWords, hDepth, (hRoundTrip unit _ parts root hTree hWords).2 hDepth⟩

end SourceUnit

end StateGuard
