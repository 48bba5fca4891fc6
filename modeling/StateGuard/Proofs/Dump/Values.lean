import StateGuard.Dump.Unit
import StateGuard.Proofs.Source.Spans
import StateGuard.Proofs.Text.Numerals

/-!
# Trees as JSON values

What is written for a tree is read back as the tree.  Encoder and decoder are written apart, so each
part of a dump has its own law: a type, a span, a literal, a node with its fields.  The laws hold for
what fits into the words of the format.

## Main results

* `TypeRef.ofJson?_toJson`, `Node.ofFields?_fieldsJson`, `Tree.ofJson?_nodeJson`: types and nodes are
  read back.
* `Tree.ofJson_toJson`: so are trees that have been accepted.
-/

namespace StateGuard

/-! ## Fields -/

namespace Json

theorem index?_nat {n : Nat} (h : n < Word.capacity 64) : index? (.nat n) = some n := by
  have hNat : (n : Int) < (Word.capacity 64 : Nat) := by exact_mod_cast h
  simp [index?, nat?, nat, hNat]

theorem short?_nat {n : Nat} (h : n < Word.capacity 32) : short? (.nat n) = some n := by
  have hNat : (n : Int) < (Word.capacity 32 : Nat) := by exact_mod_cast h
  simp [short?, nat?, nat, hNat]

/-- Lists are read by their items. -/
theorem list?_map_map {α β : Type} {encode : α → Json} {decode : Json → Option β} {read : α → β}
    {values : List α} (h : ∀ value ∈ values, decode (encode value) = some (read value)) :
    list? decode (.arr (values.map encode)) = some (values.map read) := by
  simp only [list?]
  induction values with
  | nil => rfl
  | cons value rest ih =>
      simp only [List.map_cons, List.mapM_cons, h value List.mem_cons_self,
        ih fun other hOther => h other (List.mem_cons_of_mem _ hOther)]
      rfl

/-- A list is read back if each of its items is. -/
theorem list?_map {α : Type} {encode : α → Json} {decode : Json → Option α} {values : List α}
    (h : ∀ value ∈ values, decode (encode value) = some value) :
    list? decode (.arr (values.map encode)) = some values := by
  have hRead : list? decode (.arr (values.map encode)) = some (values.map id) := list?_map_map h
  rwa [List.map_id] at hRead

/-- A value that may be absent is read back, if no value is written as null. -/
theorem optional?_ofOption {α : Type} {encode : α → Json} {decode : Json → Option α}
    {value : Option α} (hSome : ∀ v, value = some v → decode (encode v) = some v)
    (hNull : ∀ v, encode v ≠ .null) :
    optional? decode (.ofOption encode value) = some value := by
  cases value with
  | none => rfl
  | some v =>
      have hDecode := hSome v rfl
      have hNotNull := hNull v
      simp only [ofOption]
      unfold optional?
      split
      · next hEq => exact absurd hEq hNotNull
      · rw [hDecode]
        rfl

section Lookup

variable {α : Type} {fields : Fields} {key name : String} {value : Json}
  {decode : Json → Option α} {default : α}

@[simp]
theorem Fields.required?_head :
    Fields.required? ((name, value) :: fields) name decode = decode value := by
  simp [Fields.required?]

@[simp]
theorem Fields.required?_tail (h : name ≠ key) :
    Fields.required? ((key, value) :: fields) name decode = fields.required? name decode := by
  have hKey : (name == key) = false := beq_false_of_ne h
  simp only [Fields.required?, List.lookup_cons, hKey]

@[simp]
theorem Fields.withDefault?_head :
    Fields.withDefault? ((name, value) :: fields) name decode default = decode value := by
  simp [Fields.withDefault?]

@[simp]
theorem Fields.withDefault?_tail (h : name ≠ key) :
    Fields.withDefault? ((key, value) :: fields) name decode default =
      fields.withDefault? name decode default := by
  have hKey : (name == key) = false := beq_false_of_ne h
  simp only [Fields.withDefault?, List.lookup_cons, hKey]

end Lookup

/-- The fields of a record are found among members with other names. -/
theorem fields?_obj_append (before after : Fields) {fields : Fields} {names : List String}
    (hNames : names.Nodup) (hFields : fields.map (·.1) = names)
    (hOthers : ∀ key ∈ (before ++ after).map (·.1), key ∉ names) :
    (Json.obj (before ++ fields ++ after)).fields? names = some fields := by
  have hNone : (before ++ after).filter (names.contains ·.1) = [] := by
    refine List.filter_eq_nil_iff.2 fun member hMember => ?_
    simpa using hOthers member.1 (List.mem_map_of_mem hMember)
  have hAll : fields.filter (names.contains ·.1) = fields := by
    refine List.filter_eq_self.2 fun member hMember => ?_
    have hMem : member.1 ∈ fields.map (·.1) := List.mem_map_of_mem hMember
    rw [hFields] at hMem
    simpa using hMem
  rw [List.filter_append] at hNone
  obtain ⟨hBefore, hAfter⟩ := List.append_eq_nil_iff.1 hNone
  have hKnown : (before ++ fields ++ after).filter (names.contains ·.1) = fields := by
    rw [List.filter_append, List.filter_append, hBefore, hAfter, hAll, List.nil_append,
      List.append_nil]
  have hDistinct : (fields.map (·.1)).eraseDups.length = fields.length := by
    rw [hFields, Text.eraseDups_eq_self_of_nodup hNames, ← hFields, List.length_map]
  show (let known := (before ++ fields ++ after).filter (names.contains ·.1)
    if (known.map (·.1)).eraseDups.length = known.length then some known else none) = some fields
  simp only [hKnown, hDistinct, if_true]

end Json

/-! ## Types -/

namespace TypeRef

mutual
/-- **Types are read back.** -/
theorem ofJson?_toJson : (type : TypeRef) → ofJson? type.toJson = some type
  | ⟨name, [], false⟩ => rfl
  | ⟨name, [], true⟩ => rfl
  | ⟨name, arg :: args, isDefinition⟩ => by
      have hArgs := allOfJson?_allToJson (arg :: args)
      cases isDefinition <;> simp [toJson, ofJson?, ofMembers?, argsOfJson?, hArgs]
theorem allOfJson?_allToJson : (types : List TypeRef) → allOfJson? (allToJson types) = some types
  | [] => rfl
  | type :: types => by
      simp [allToJson, allOfJson?, ofJson?_toJson type, allOfJson?_allToJson types]
end

theorem toJson_ne_null (type : TypeRef) : type.toJson ≠ .null := by
  cases type
  simp [toJson]

end TypeRef

/-! ## What fits into words -/

namespace Span

/-- Lines and columns fit into 32 bits. -/
structure FitsWords (span : Span) : Prop where
  start : span.start.Fits
  stop : span.stop.Fits

instance (span : Span) : Decidable span.FitsWords :=
  decidable_of_iff ((span.start.line < Word.capacity 32 ∧ span.start.column < Word.capacity 32) ∧
      span.stop.line < Word.capacity 32 ∧ span.stop.column < Word.capacity 32)
    ⟨fun h => ⟨h.1, h.2⟩, fun h => ⟨h.start, h.stop⟩⟩

/-- The numbers of a span are found under their names. -/
theorem required?_toJson (span : Span) (decode : Json → Option Nat) : (do
      let fields ← span.toJson.fields? ["start_line", "start_col", "end_line", "end_col"]
      return (⟨⟨← fields.required? "start_line" decode, ← fields.required? "start_col" decode⟩,
        ⟨← fields.required? "end_line" decode, ← fields.required? "end_col" decode⟩⟩ : Span)) = (do
    return ⟨⟨← decode (.nat span.start.line), ← decode (.nat span.start.column)⟩,
      ⟨← decode (.nat span.stop.line), ← decode (.nat span.stop.column)⟩⟩) := rfl

theorem ofJson?_toJson {span : Span} (h : span.FitsWords) : ofJson? span.toJson = some span := by
  rw [ofJson?, required?_toJson, Json.short?_nat h.start.1, Json.short?_nat h.start.2,
    Json.short?_nat h.stop.1, Json.short?_nat h.stop.2]
  rfl

end Span

namespace Literal

/-- An integer fits into 64 bits with a sign. -/
def FitsWords : Literal → Prop
  | .int value => Json.minInt ≤ value ∧ value < (Word.capacity 63 : Nat)
  | _ => True

instance (value : Literal) : Decidable value.FitsWords :=
  match value with
  | .int value => inferInstanceAs (Decidable (Json.minInt ≤ value ∧ value < (Word.capacity 63 : Nat)))
  | .bool _ | .null | .str _ => .isTrue trivial

theorem bareCases_toJson (value : Literal) : bareCases value.toJson = value.toJson := by
  cases value <;> rfl

theorem ofJson?_toJson {value : Literal} (h : value.FitsWords) :
    ofJson? value.toJson = some value := by
  cases value with
  | bool value => rfl
  | null => rfl
  | int value =>
      have hLong : Json.long? (.int value) = some value := by
        simp only [Json.long?]
        exact if_pos h
      simp [toJson, ofJson?, unitCase?, valueCase?, hLong]
  | str value => rfl

end Literal

namespace Pattern

/-- The literal that a pattern compares with. -/
def literal? : Pattern → Option Literal
  | .literal value => some value
  | _ => none

theorem bareCases_toJson (pattern : Pattern) : bareCases pattern.toJson = pattern.toJson := by
  cases pattern with
  | literal value => cases value <;> rfl
  | _ => rfl

theorem ofJson?_toJson {pattern : Pattern} (h : ∀ value ∈ pattern.literal?, value.FitsWords) :
    ofJson? pattern.toJson = some pattern := by
  cases pattern with
  | literal value =>
      have hRead : ofJson? (toJson (.literal value)) =
          (Literal.ofJson? value.toJson).map .literal := by
        cases value <;> rfl
      rw [hRead, Literal.ofJson?_toJson (h value rfl)]
      rfl
  | _ => rfl

end Pattern

/-! ## Nodes -/

namespace Argument

/-- The value of an argument is found under its name, and so is the name it may have. -/
theorem fields_toJson_none (value : Nat) (decode : Json → Option Nat) : (do
      let fields ← (toJson ⟨none, value⟩).fields? ["name", "value"]
      return (⟨← fields.withDefault? "name" (Json.optional? Json.str?) none,
        ← fields.required? "value" decode⟩ : Argument Nat)) =
    (do return ⟨none, ← decode (.nat value)⟩) := rfl

theorem fields_toJson_some (name : String) (value : Nat) (decode : Json → Option Nat) : (do
      let fields ← (toJson ⟨some name, value⟩).fields? ["name", "value"]
      return (⟨← fields.withDefault? "name" (Json.optional? Json.str?) none,
        ← fields.required? "value" decode⟩ : Argument Nat)) =
    (do return ⟨some name, ← decode (.nat value)⟩) := rfl

theorem ofJson?_toJson {arg : Argument Nat} (h : Json.index? (.nat arg.value) = some arg.value) :
    ofJson? arg.toJson = some arg := by
  obtain ⟨name, value⟩ := arg
  have hValue : Json.index? (.nat value) = some value := h
  cases name with
  | none =>
      rw [ofJson?, fields_toJson_none, hValue]
      rfl
  | some name =>
      rw [ofJson?, fields_toJson_some, hValue]
      rfl

end Argument

namespace Node

/-- The literal that a node holds. -/
def literal? {ι : Type} : Node ι → Option Literal
  | .literal value => some value
  | .isPattern _ pattern => pattern.literal?
  | _ => none

/-- References fit into 64 bits, and so does the integer that a node may hold. -/
structure FitsWords (node : Node Nat) : Prop where
  children : ∀ c ∈ node.children, c < Word.capacity 64
  literal : ∀ value ∈ node.literal?, value.FitsWords

theorem literal?_map {ι κ : Type} (f : ι → κ) (node : Node ι) :
    (node.map f).literal? = node.literal? := by
  cases node with
  | localDeclaration name type init => cases init <;> rfl
  | returnStatement value => cases value <;> rfl
  | ifStatement condition thenBranch elseBranch => cases elseBranch <;> rfl
  | _ => rfl

theorem list?_ids (parts : List Nat) (h : ∀ c ∈ parts, Json.index? (.nat c) = some c) :
    Json.list? Json.index? (ids parts) = some parts :=
  Json.list?_map h

theorem optional?_type (type : Option TypeRef) :
    Json.optional? TypeRef.ofJson? (.ofOption TypeRef.toJson type) = some type :=
  Json.optional?_ofOption (fun v _ => TypeRef.ofJson?_toJson v) TypeRef.toJson_ne_null

theorem optional?_part (part : Option Nat) (h : ∀ c ∈ part, Json.index? (.nat c) = some c) :
    Json.optional? Json.index? (.ofOption .nat part) = some part :=
  Json.optional?_ofOption h (fun v => by simp [Json.nat])

/-- **Nodes are read back** from their fields. -/
theorem ofFields?_fieldsJson {node : Node Nat} (h : node.FitsWords) :
    ofFields? node.kind node.fieldsJson = some node := by
  have hParts : ∀ c ∈ node.children, Json.index? (.nat c) = some c :=
    fun c hc => Json.index?_nat (h.children c hc)
  have hLiteral := h.literal
  cases node with
  | compilationUnit members =>
      have hMembers := list?_ids members hParts
      simp [ofFields?, fieldsJson, kind, hMembers]
  | method name returnType params body isAsync =>
      have hBody := hParts body (by simp [children])
      have hParams := list?_ids params fun c hc => hParts c (by simp [children, hc])
      simp [ofFields?, fieldsJson, kind, hParams, hBody, optional?_type, Json.str?, Json.bool?]
  | parameter name type => simp [ofFields?, fieldsJson, kind, optional?_type, Json.str?]
  | outVariable name type => simp [ofFields?, fieldsJson, kind, optional?_type, Json.str?]
  | block statements =>
      have hStatements := list?_ids statements hParts
      simp [ofFields?, fieldsJson, kind, hStatements]
  | localDeclaration name type init =>
      have hInit := optional?_part init fun c hc => hParts c (by simp_all [children])
      simp [ofFields?, fieldsJson, kind, hInit, optional?_type, Json.str?]
  | returnStatement value =>
      have hValue := optional?_part value fun c hc => hParts c (by simp_all [children])
      simp [ofFields?, fieldsJson, kind, hValue]
  | ifStatement condition thenBranch elseBranch =>
      have hElse := optional?_part elseBranch fun c hc =>
        hParts c (by simp_all [children])
      have hCondition := hParts condition (by simp [children])
      have hThen := hParts thenBranch (by simp [children])
      simp [ofFields?, fieldsJson, kind, hCondition, hThen, hElse]
  | invocation callee args =>
      have hCallee := hParts callee (by simp [children])
      have hArgs : Json.list? Argument.ofJson? (.arr (args.map Argument.toJson)) = some args :=
        Json.list?_map fun arg hArg =>
          Argument.ofJson?_toJson (hParts arg.value (by simp [children]; exact .inr ⟨arg, hArg, rfl⟩))
      simp [ofFields?, fieldsJson, kind, hCallee, hArgs]
  | literal value =>
      have hValue := Literal.ofJson?_toJson (hLiteral value rfl)
      simp [ofFields?, fieldsJson, kind, Literal.bareCases_toJson, hValue]
  | isPattern operand pattern =>
      have hPattern := Pattern.ofJson?_toJson hLiteral
      have hOperand := hParts operand (by simp [children])
      simp [ofFields?, fieldsJson, kind, Pattern.bareCases_toJson, hPattern, hOperand]
  | unary op operand =>
      have hOperand := hParts operand (by simp [children])
      have hOp : UnaryOp.ofJson? (bareCases (.str op.key)) = some op := by cases op <;> rfl
      simp [ofFields?, fieldsJson, kind, hOp, hOperand]
  | binary op left right =>
      have hLeft := hParts left (by simp [children])
      have hRight := hParts right (by simp [children])
      have hOp : BinaryOp.ofJson? (bareCases (.str op.key)) = some op := by cases op <;> rfl
      simp [ofFields?, fieldsJson, kind, hOp, hLeft, hRight]
  | lambda params body isAsync =>
      have hBody := hParts body (by simp [children])
      have hParams := list?_ids params fun c hc => hParts c (by simp [children, hc])
      simp [ofFields?, fieldsJson, kind, hParams, hBody, Json.bool?]
  | _ =>
      simp only [children, List.mem_cons, List.not_mem_nil, or_false, forall_eq_or_imp,
        forall_eq] at hParts
      simp [ofFields?, fieldsJson, kind, hParts, Json.str?]

theorem ofJson?_key (kind : NodeKind) : NodeKind.ofJson? (.str kind.key) = some kind := by
  cases kind <;> rfl

/-- The members of a node in a dump that do not depend on its kind. -/
def commonNames : List String := ["id", "kind", "span", "parent"]

/-- No kind of nodes has a field with one of the common names. -/
theorem notMem_fieldNames (kind : NodeKind) {name : String} (h : name ∈ commonNames) :
    name ∉ fieldNames kind := by
  have hAll : ∀ name ∈ commonNames, name ∉ fieldNames kind := by cases kind <;> decide
  exact hAll name h

theorem nodup_fieldNames (kind : NodeKind) : (fieldNames kind).Nodup := by
  cases kind <;> decide

theorem map_fst_fieldsJson (node : Node Nat) :
    node.fieldsJson.map (·.1) = fieldNames node.kind := by
  cases node <;> rfl

/-- The node of an object with a kind and the fields of that kind. -/
theorem ofJson?_obj {members fields : List (String × Json)} {kind : NodeKind}
    (hKind : (Json.obj members).fields? ["kind"] = some [("kind", .str kind.key)])
    (hFields : (Json.obj members).fields? (fieldNames kind) = some fields) :
    ofJson? (.obj members) = ofFields? kind fields := by
  have hRead : Json.Fields.required? [("kind", .str kind.key)] "kind" NodeKind.ofJson? =
      some kind := by
    rw [Json.Fields.required?_head, ofJson?_key]
  simp only [ofJson?, hKind, Option.bind_eq_bind, Option.bind_some, hRead, hFields]

end Node

/-- The part of an object with a node and a span. -/
theorem Part.ofJson?_obj {members : List (String × Json)} {node : Node Nat} {json : Json}
    {span : Span} (hNode : Node.ofJson? (.obj members) = some node)
    (hFields : (Json.obj members).fields? ["span"] = some [("span", json)])
    (hSpan : Span.ofJson? json = some span) :
    Part.ofJson? (.obj members) = some ⟨node, span⟩ := by
  have hRead : Json.Fields.withDefault? [("span", json)] "span" Span.ofJson? .zero = some span := by
    rw [Json.Fields.withDefault?_head, hSpan]
  simp only [Part.ofJson?, hNode, Option.bind_eq_bind, Option.bind_some, hFields, hRead,
    Option.pure_def]

namespace Tree

variable {tree : Tree}

/-- The members of a node in a dump, by the names that readers ask for. -/
theorem fields?_nodeJson (i : tree.Id) :
    (tree.nodeJson i).fields? ["kind"] =
        some [("kind", .str ((tree.node i).map Fin.val).kind.key)] ∧
      (tree.nodeJson i).fields? (Node.fieldNames ((tree.node i).map Fin.val).kind) =
        some ((tree.node i).map Fin.val).fieldsJson ∧
      (tree.nodeJson i).fields? ["span"] = some [("span", (tree.span i).toJson)] := by
  rw [nodeJson]
  generalize (tree.node i).map Fin.val = node
  have hFields : node.fieldsJson.map (·.1) = Node.fieldNames node.kind := node.map_fst_fieldsJson
  have hCommon : ∀ name ∈ Node.commonNames, name ∉ Node.fieldNames node.kind :=
    fun _ => Node.notMem_fieldNames node.kind
  have hOther : ∀ name ∈ Node.commonNames, ∀ key ∈ Node.fieldNames node.kind, key ≠ name :=
    fun name hName key hKey hEq => hCommon name hName (hEq ▸ hKey)
  refine ⟨?_, ?_, ?_⟩
  · rw [List.append_assoc]
    refine Json.fields?_obj_append [("id", _)] _ (by decide) rfl ?_
    simpa [hFields, or_imp, forall_and] using hOther "kind" (by decide)
  · exact Json.fields?_obj_append _ _ (Node.nodup_fieldNames node.kind) hFields hCommon
  · rw [List.append_cons]
    refine Json.fields?_obj_append _ [("parent", _)] (by decide) rfl ?_
    simpa [hFields, or_imp, forall_and] using hOther "span" (by decide)

/-- Numbers of nodes fit into 64 bits, and so does everything that a node holds. -/
structure FitsWords (tree : Tree) : Prop where
  size : tree.size ≤ Word.capacity 64
  span : ∀ i, (tree.span i).FitsWords
  literal : ∀ i, ∀ value ∈ (tree.node i).literal?, value.FitsWords

instance (tree : Tree) : Decidable tree.FitsWords :=
  decidable_of_iff (tree.size ≤ Word.capacity 64 ∧ (∀ i, (tree.span i).FitsWords) ∧
      ∀ i, ∀ value ∈ (tree.node i).literal?, value.FitsWords)
    ⟨fun h => ⟨h.1, h.2.1, h.2.2⟩, fun h => ⟨h.size, h.span, h.literal⟩⟩

theorem FitsWords.node (h : tree.FitsWords) (i : tree.Id) :
    ((tree.node i).map Fin.val).FitsWords where
  children := by
    intro c hc
    rw [Node.children_map] at hc
    obtain ⟨d, _, rfl⟩ := List.mem_map.1 hc
    exact d.isLt.trans_le h.size
  literal := by
    rw [Node.literal?_map]
    exact h.literal i

/-- **Nodes of trees are read back.** -/
theorem ofJson?_nodeJson (h : tree.FitsWords) (i : tree.Id) :
    Part.ofJson? (tree.nodeJson i) = some ⟨(tree.node i).map Fin.val, tree.span i⟩ := by
  obtain ⟨hKind, hFields, hSpan⟩ := tree.fields?_nodeJson i
  have hNode := (Node.ofJson?_obj hKind hFields).trans (Node.ofFields?_fieldsJson (h.node i))
  exact Part.ofJson?_obj hNode hSpan (Span.ofJson?_toJson (h.span i))

/-- The members of a tree are found under their names. -/
theorem fields_toJson (tree : Tree) (parts : Json → Option (List Part))
    (index : Json → Option Nat) : (do
      let fields ← tree.toJson.fields? ["file_path", "nodes", "root"]
      return (← fields.required? "file_path" Json.str?, ← fields.required? "nodes" parts,
        ← fields.required? "root" index)) =
    (do return (tree.file, ← parts (.arr (tree.ids.map tree.nodeJson)),
      ← index (.nat tree.root.val))) := rfl

/-- **Trees are read back**, if they have been accepted. -/
theorem ofJson_toJson {file : String} {parts : Array Part} {root : Nat}
    (hTree : ofParts file parts root = .ok tree) (h : tree.FitsWords) :
    ofJson tree.toJson = .ok tree := by
  obtain ⟨rfl, rfl, -, hParts⟩ := parts_ofParts hTree
  have hRoot := Json.index?_nat (tree.root.isLt.trans_le h.size)
  have hNodes : Json.list? Part.ofJson? (.arr (tree.ids.map tree.nodeJson)) =
      some parts.toList := by
    rw [← hParts]
    exact Json.list?_map_map fun i _ => ofJson?_nodeJson h i
  rw [ofJson, fields_toJson, hNodes, hRoot]
  simp [hTree, Except.mapError]

end Tree

end StateGuard
