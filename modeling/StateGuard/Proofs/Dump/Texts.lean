import StateGuard.Dump.Text
import StateGuard.Proofs.Dump.Units
import StateGuard.Proofs.Json.Records

/-!
# Texts of dumps

A dump is read from its text member by member, and most members are looked into only as far as they
are needed.  Nothing is lost by that: the text of a document is read as the document, up to the depth
to which values may nest.

## Main results

* `Json.Raw.described?_tree?`, `Json.Raw.ofJson?_table?`: trees and tables are read from their written
  forms.
* `SourceUnit.ofDump_write`: reading the text of a document is reading the document.
-/

namespace StateGuard

/-! ## Spans and types -/

namespace Span

theorem ofJson?_prune (json : Json) :
    ofJson? (json.prune Json.Raw.spanFields.contains) = ofJson? json := by
  have hFields := Json.fields?_prune (fun _ (hKey : Json.Raw.spanFields.contains _ = true) => hKey) json
  have hShort : ∀ key fields, Json.Fields.Agrees
      (fun _ value => some (value.prune Json.Raw.spanFields.contains)) Json.short? fields key := by
    intro key fields value _
    cases value <;> rfl
  have hNames : Json.Raw.spanFields = ["start_line", "start_col", "end_line", "end_col"] := rfl
  rw [ofJson?, ofJson?, ← hNames, hFields]
  cases hFound : json.fields? Json.Raw.spanFields with
  | none => rfl
  | some fields =>
      cases hRead : Json.Fields.traverse
          (fun _ value => some (value.prune Json.Raw.spanFields.contains)) fields with
      | none => simp [Json.traverse_some] at hRead
      | some read =>
          simp only [Option.bind_eq_bind, Option.bind_some, hRead,
            Json.Fields.required?_traverse hRead (hShort _ _)]

end Span

namespace TypeRef

open Json.Raw (typeFields)

/-- One member of a type. -/
theorem ofMembers?_cons (key : String) (value : Json) (rest : List (String × Json))
    (name : Option String) (args : Option (List TypeRef)) (isDefinition : Option Bool) :
    ofMembers? ((key, value) :: rest) name args isDefinition =
      if key = "name" then
        match name, value with
        | none, .str name => ofMembers? rest (some name) args isDefinition
        | _, _ => none
      else if key = "type_args" then
        match args, argsOfJson? value with
        | none, some args => ofMembers? rest name (some args) isDefinition
        | _, _ => none
      else if key = "is_definition" then
        match isDefinition, value with
        | none, .bool isDefinition => ofMembers? rest name args (some isDefinition)
        | _, _ => none
      else ofMembers? rest name args isDefinition :=
  (ofMembers?.eq_def ..).trans rfl

theorem ofMembers?_prune {members : List (String × Json)}
    (h : ∀ member ∈ members,
      argsOfJson? (member.2.prune typeFields.contains) = argsOfJson? member.2)
    (name : Option String) (args : Option (List TypeRef)) (isDefinition : Option Bool) :
    ofMembers? (Json.pruneMembers typeFields.contains members) name args isDefinition =
      ofMembers? members name args isDefinition := by
  induction members generalizing name args isDefinition with
  | nil => rfl
  | cons member members ih =>
      obtain ⟨key, value⟩ := member
      have hArgs : argsOfJson? (value.prune typeFields.contains) = argsOfJson? value :=
        h (key, value) List.mem_cons_self
      have hRest := ih fun other hOther => h other (List.mem_cons_of_mem _ hOther)
      rw [Json.pruneMembers, ofMembers?_cons]
      by_cases hKey : typeFields.contains key = true
      · rw [if_pos hKey, ofMembers?_cons, hArgs]
        simp only [hRest]
        cases value <;> cases name <;> cases isDefinition <;> rfl
      · have hOther : key ≠ "name" ∧ key ≠ "type_args" ∧ key ≠ "is_definition" := by
          simpa [typeFields] using hKey
        rw [if_neg hKey, if_neg hOther.1, if_neg hOther.2.1, if_neg hOther.2.2, hRest]

theorem ofItems?_prune {items : List Json}
    (h : ∀ item ∈ items, argsOfJson? (item.prune typeFields.contains) = argsOfJson? item) :
    ofItems? (Json.pruneItems typeFields.contains items) = ofItems? items := by
  match items with
  | [] => rfl
  | [name] => cases name <;> rfl
  | [name, args] =>
      have hArgs := h args (by simp)
      cases name with
      | str name => simp only [Json.pruneItems, Json.prune, ofItems?, hArgs]
      | _ => rfl
  | [name, args, mark] =>
      have hArgs := h args (by simp)
      cases name with
      | str name =>
          cases mark with
          | bool mark => simp only [Json.pruneItems, Json.prune, ofItems?, hArgs]
          | _ => rfl
      | _ => rfl
  | a :: b :: c :: d :: rest =>
      have hLong : ∀ (a b c d : Json) rest, ofItems? (a :: b :: c :: d :: rest) = none := by
        intro a b c d rest
        rw [ofItems?.eq_def]
        split <;> simp_all
      simp only [Json.pruneItems, hLong]

theorem allOfJson?_prune {items : List Json}
    (h : ∀ item ∈ items, ofJson? (item.prune typeFields.contains) = ofJson? item) :
    allOfJson? (Json.pruneItems typeFields.contains items) = allOfJson? items := by
  induction items with
  | nil => rfl
  | cons item items ih =>
      rw [Json.pruneItems, allOfJson?, allOfJson?, h item List.mem_cons_self,
        ih fun other hOther => h other (List.mem_cons_of_mem _ hOther)]

/-- Nothing else than their fields is looked at in types, nor in their arguments. -/
theorem ofJson?_prune (json : Json) :
    ofJson? (json.prune typeFields.contains) = ofJson? json ∧
      argsOfJson? (json.prune typeFields.contains) = argsOfJson? json := by
  match json with
  | .null | .bool _ | .int _ | .real _ | .str _ => exact ⟨rfl, rfl⟩
  | .obj members =>
      refine ⟨?_, rfl⟩
      rw [Json.prune, ofJson?, ofJson?]
      exact ofMembers?_prune (fun member hMember => (ofJson?_prune member.2).2) _ _ _
  | .arr items =>
      rw [Json.prune, ofJson?, ofJson?, argsOfJson?, argsOfJson?]
      exact ⟨ofItems?_prune fun item hItem => (ofJson?_prune item).2,
        allOfJson?_prune fun item hItem => (ofJson?_prune item).1⟩
termination_by json
decreasing_by
  · have hSize := List.sizeOf_lt_of_mem hMember
    have hPair : sizeOf member = 1 + sizeOf member.1 + sizeOf member.2 := by cases member; rfl
    simp only [Json.obj.sizeOf_spec]
    omega
  all_goals
    have hSize := List.sizeOf_lt_of_mem hItem
    simp only [Json.arr.sizeOf_spec]
    omega

end TypeRef

/-! ## Nodes and trees -/

namespace Json.Raw

/-- A node of which only the fields of the span are kept in the span. -/
def trimSpan (key : String) (value : Json) : Json :=
  if key = "span" then value.prune spanFields.contains else value

theorem node?_ofJson {members : List (String × Json)}
    (hWhole : ∀ member ∈ members, member.2.IsWhole) (hDepth : membersDepth members ≤ maxDepth - 4) :
    node? (ofJson (.obj members)) =
      some (.obj (members.map fun (key, value) => (key, trimSpan key value))) := by
  have hMember : ∀ key value, (key, value) ∈ members →
      resolve? (fun name => key ≠ "span" || spanFields.contains name) (maxDepth - 4)
        (ofJson value) = some (trimSpan key value) := by
    intro key value hMem
    have hLt : value.depth < (Json.obj members).depth :=
      depth_lt_of_mem_values (List.mem_map.2 ⟨_, hMem, rfl⟩)
    rw [Json.depth] at hLt
    rw [isResolved (hWhole _ hMem) ((Nat.le_of_lt_succ hLt).trans hDepth), trimSpan]
    by_cases hKey : key = "span"
    · simp only [hKey, ne_eq, not_true_eq_false, decide_false, Bool.false_or, if_true]
    · simp [hKey, prune_true]
  have hRead := mapM_ofMembers hMember
  rw [traverse_some] at hRead
  rw [ofJson, node?, hRead]
  rfl

theorem fields?_trim (names : List String) (members : List (String × Json)) :
    (Json.obj (members.map fun (key, value) => (key, trimSpan key value))).fields? names =
      ((Json.obj members).fields? names).bind
        (Fields.traverse fun key value => some (trimSpan key value)) := by
  refine fields?_obj_traverse ?_
  rw [traverse_some, List.filter_map]
  rfl

theorem fields?_trim_of_notMem (names : List String) (hNames : "span" ∉ names)
    (members : List (String × Json)) :
    (Json.obj (members.map fun (key, value) => (key, trimSpan key value))).fields? names =
      (Json.obj members).fields? names := by
  rw [fields?_trim]
  simp only [fields?]
  split
  · rw [Option.bind_some, traverse_some]
    congr 1
    refine (List.map_congr_left fun member hMem => ?_).trans (List.map_id _)
    obtain ⟨key, value⟩ := member
    have hKey : key ≠ "span" := by
      rintro rfl
      exact hNames (by simpa using (List.mem_filter.1 hMem).2)
    simp [trimSpan, hKey]
  · rfl

/-- A node is read from its written form. -/
theorem ofJson?_node? {json : Json} (h : json.IsWhole) (hDepth : json.depth ≤ maxDepth - 3) :
    (node? (ofJson json)).bind Part.ofJson? = Part.ofJson? json := by
  cases h with
  | @obj members hMembers =>
      have hKind := fields?_trim_of_notMem ["kind"] (by decide) members
      have hFields := fun kind : NodeKind => fields?_trim_of_notMem (Node.fieldNames kind)
        (Node.notMem_fieldNames kind (by decide)) members
      have hSpan := fields?_trim ["span"] members
      have hNode : Node.ofJson? (.obj (members.map fun (key, value) => (key, trimSpan key value))) =
          Node.ofJson? (.obj members) := by
        simp only [Node.ofJson?, hKind, hFields]
      rw [Json.depth] at hDepth
      rw [node?_ofJson hMembers (by unfold maxDepth at *; omega), Option.bind_some, Part.ofJson?,
        Part.ofJson?, hNode, hSpan]
      cases Node.ofJson? (.obj members) with
      | none => rfl
      | some node =>
          cases (Json.obj members).fields? ["span"] with
          | none => rfl
          | some fields =>
              have hAgrees : Fields.Agrees (fun key value => some (trimSpan key value)) Span.ofJson?
                  fields "span" := fun value _ => Span.ofJson?_prune value
              cases hRead : Fields.traverse (fun key value => some (trimSpan key value)) fields with
              | none => simp [traverse_some] at hRead
              | some read =>
                  simp only [Option.bind_eq_bind, Option.bind_some, hRead,
                    Fields.withDefault?_traverse hRead hAgrees]
  | _ => rfl

/-- What is read of a field of a tree. -/
def treeField (name : String) (value : Json) : Option Json :=
  match name, value with
  | "nodes", .arr nodes => (nodes.mapM fun node => node? (ofJson node)).map .arr
  | "nodes", _ => none
  | _, value => some value

theorem ofItems_eq_map (items : List Json) : ofItems items = items.map ofJson := by
  induction items with
  | nil => rfl
  | cons item items ih => rw [ofItems, ih, List.map_cons]

/-- Values that nest no deeper than `depth` stand for themselves in full. -/
theorem resolveAll?_ofJson {json : Json} (h : json.IsWhole) {depth : Nat}
    (hDepth : json.depth ≤ depth) : (ofJson json).resolveAll? depth = some json := by
  rw [resolveAll?, isResolved h hDepth, prune_true]

theorem mapM_bind_mapM {α β γ : Type} {f : α → Option β} {g : β → Option γ} {k : α → Option γ}
    {xs : List α} (h : ∀ x ∈ xs, (f x).bind g = k x) :
    (xs.mapM f).bind (fun ys => ys.mapM g) = xs.mapM k := by
  induction xs with
  | nil => rfl
  | cons x xs ih =>
      have hRest := ih fun other hOther => h other (List.mem_cons_of_mem _ hOther)
      rw [List.mapM_cons, List.mapM_cons, ← hRest, ← h x List.mem_cons_self]
      cases f x with
      | none => rfl
      | some y =>
          cases xs.mapM f with
          | none => cases hy : g y <;> simp [hy]
          | some ys => simp

/-- The nodes of a tree are read from their written forms. -/
theorem list?_nodes {value : Json} (h : value.IsWhole) (hDepth : value.depth ≤ maxDepth - 2) :
    (treeField "nodes" value).bind (list? Part.ofJson?) = list? Part.ofJson? value := by
  cases h with
  | @arr items hItems =>
      have hNode : ∀ item ∈ items, (node? (ofJson item)).bind Part.ofJson? = Part.ofJson? item := by
        intro item hItem
        have hLt : item.depth < (Json.arr items).depth := depth_lt_of_mem_values hItem
        exact ofJson?_node? (hItems item hItem) (by omega)
      rw [treeField, Option.bind_map]
      exact mapM_bind_mapM hNode
  | _ => rfl

theorem treeField_ofJson (name : String) {value : Json} (h : value.IsWhole)
    (hDepth : value.depth ≤ maxDepth - 2) :
    (match name, ofJson value with
      | "nodes", .arr nodes => (nodes.mapM node?).map .arr
      | "nodes", _ => none
      | _, raw => raw.resolveAll? (maxDepth - 2)) = treeField name value := by
  have hAll := resolveAll?_ofJson h hDepth
  by_cases hName : name = "nodes"
  · subst hName
    cases h with
    | @arr items hItems =>
        rw [treeField, ofJson, ofItems_eq_map]
        simp only [List.mapM_map]
        rfl
    | _ => rfl
  · unfold treeField
    split
    · exact absurd rfl hName
    · exact absurd rfl hName
    · rw [hAll]
      split
      · exact absurd rfl hName
      · exact absurd rfl hName
      · rfl

/-- A tree is read from its written form. -/
theorem described?_tree? {json : Json} (h : json.IsWhole) (hDepth : json.depth ≤ maxDepth - 1) :
    (tree? (ofJson json)).bind Tree.described? = Tree.described? json := by
  have hValues : ∀ value ∈ json.values, value.IsWhole ∧ value.depth ≤ maxDepth - 2 := by
    intro value hValue
    have hLt := depth_lt_of_mem_values hValue
    exact ⟨isWhole_of_mem_values h hValue, by omega⟩
  have hFields : (tree? (ofJson json)).bind (fields? ["file_path", "nodes", "root"]) =
      (json.fields? ["file_path", "nodes", "root"]).bind (Fields.traverse treeField) :=
    fields?_record? fun key _ value hValue =>
      treeField_ofJson key (hValues value hValue).1 (hValues value hValue).2
  have hBind : (tree? (ofJson json)).bind Tree.described? =
      ((tree? (ofJson json)).bind (fields? ["file_path", "nodes", "root"])).bind fun fields => do
        return (← fields.required? "file_path" str?, ← fields.required? "nodes" (list? Part.ofJson?),
          ← fields.required? "root" index?) := by
    rw [Option.bind_assoc]
    rfl
  rw [hBind, hFields, Tree.described?]
  cases hFound : json.fields? ["file_path", "nodes", "root"] with
  | none => rfl
  | some fields =>
      have hNodes : Fields.Agrees treeField (list? Part.ofJson?) fields "nodes" := fun value hValue =>
        have hMem := (mem_of_fields? hFound (Text.mem_of_lookup hValue)).2
        list?_nodes (hValues value hMem).1 (hValues value hMem).2
      cases hRead : Fields.traverse treeField fields with
      | some read =>
          have hFile : read.required? "file_path" str? = fields.required? "file_path" str? :=
            Fields.required?_traverse hRead fun _ _ => rfl
          have hRoot : read.required? "root" index? = fields.required? "root" index? :=
            Fields.required?_traverse hRead fun _ _ => rfl
          simp only [Option.bind_eq_bind, Option.bind_some, hRead, hFile, hRoot,
            Fields.required?_traverse hRead hNodes]
      | none =>
          obtain ⟨key, value, hMem, hNone⟩ := Fields.exists_of_traverse_eq_none hRead
          have hKey : key = "nodes" := by
            unfold treeField at hNone
            split at hNone <;> simp_all
          subst hKey
          have hLookup := (Text.lookup_eq_some_iff (nodup_of_fields? (by decide) hFound)).2 hMem
          have hMissing := (hNodes.eq_none [] hLookup hNone).1
          simp only [Option.bind_eq_bind, Option.bind_some, hRead, hMissing, Option.bind_none]
          cases fields.required? "file_path" str? <;> rfl

end Json.Raw

/-! ## Tables -/

namespace Table

open Json.Raw (typeFields)

theorem key?_eq_none {key : String} {c : Char} (hc : c ∈ key.toList) (hDigit : c.isDigit = false) :
    key? key = none := by
  have hAll : key.toList.all Char.isDigit = false := by
    rw [List.all_eq_false]
    exact ⟨c, hc, by simp [hDigit]⟩
  have hNone : Text.decimal? key.toList = none := by simp [Text.decimal?, hAll]
  simp only [key?, hNone, Option.filter_none, ite_self]

/-- Keys that are numbers are written as they are, and others are none in any form. -/
theorem key?_escape (key : String) : key? (String.ofList (Json.escape key.toList)) = key? key := by
  by_cases hDigits : ∀ c ∈ key.toList, c.isDigit = true
  · have hSame : Json.escape key.toList = key.toList := by
      rw [Json.escape, List.flatMap_congr fun c hc => Json.escapeChar_of_isDigit (hDigits c hc)]
      exact List.flatMap_singleton' _
    rw [hSame, String.ofList_toList]
  · obtain ⟨c, hc, hDigit⟩ : ∃ c ∈ key.toList, c.isDigit = false := by simpa using hDigits
    obtain ⟨d, hd, hOther⟩ : ∃ d ∈ Json.escapeChar c, d.isDigit = false := by
      obtain ⟨hSelf, -⟩ | ⟨mark, hShort, -⟩ | ⟨hCode, -⟩ := Json.escapeChar_cases c
      · exact ⟨c, by simp [hSelf], hDigit⟩
      · exact ⟨'\\', by simp [hShort], by decide⟩
      · exact ⟨'\\', by simp [hCode], by decide⟩
    rw [key?_eq_none hc hDigit, key?_eq_none (c := d) _ hOther]
    rw [String.toList_ofList, Json.escape, List.mem_flatMap]
    exact ⟨c, hc, hd⟩

/-- What is read of a field of a table. -/
def field? : Json → Option Json
  | .obj entries => some (.obj (entries.map fun (key, value) =>
      (String.ofList (Json.escape key.toList), value.prune typeFields.contains)))
  | _ => none

theorem entries?_field? {α : Type} {decode : Json → Option α}
    (h : ∀ value, decode (value.prune typeFields.contains) = decode value) (value : Json) :
    (field? value).bind (entries? decode) = entries? decode value := by
  cases value with
  | obj members => simp only [field?, Option.bind_some, entries?, List.foldlM_map, key?_escape, h]
  | _ => rfl

end Table

namespace Json.Raw

theorem tableField_ofJson {value : Json} (h : value.IsWhole) (hDepth : value.depth ≤ maxDepth - 2) :
    (match ofJson value with
      | .obj entries => do
        let found ← entries.mapM fun (key, raw) => do
          return (String.ofList key, ← resolve? typeFields.contains (maxDepth - 3) raw)
        return Json.obj found
      | _ => none) = Table.field? value := by
  cases h with
  | @obj members hMembers =>
      rw [Json.depth] at hDepth
      suffices hFound : ((ofMembers members).mapM fun (key, raw) => do
            return (String.ofList key, ← resolve? typeFields.contains (maxDepth - 3) raw)) =
          some (members.map fun (key, value) =>
            (String.ofList (escape key.toList), value.prune typeFields.contains)) by
        simp only [ofJson, hFound]
        rfl
      have hDepth' : membersDepth members ≤ maxDepth - 3 := by omega
      clear hDepth
      induction members with
      | nil => rfl
      | cons member members ih =>
          obtain ⟨key, value⟩ := member
          rw [membersDepth] at hDepth'
          have hValue : resolve? typeFields.contains (maxDepth - 3) (ofJson value) =
              some (value.prune typeFields.contains) :=
            isResolved (hMembers (key, value) List.mem_cons_self) ((Nat.le_max_left _ _).trans hDepth')
          have hRest := ih (fun other hOther => hMembers other (List.mem_cons_of_mem _ hOther))
            ((Nat.le_max_right _ _).trans hDepth')
          rw [ofMembers, List.mapM_cons, hRest]
          simp only [hValue]
          rfl
  | _ => rfl

/-- A table is read from its written form. -/
theorem ofJson?_table? {json : Json} (h : json.IsWhole) (hDepth : json.depth ≤ maxDepth - 1) :
    (table? (ofJson json)).bind Table.ofJson? = Table.ofJson? json := by
  have hValues : ∀ value ∈ json.values, value.IsWhole ∧ value.depth ≤ maxDepth - 2 := by
    intro value hValue
    have hLt := depth_lt_of_mem_values hValue
    exact ⟨isWhole_of_mem_values h hValue, by omega⟩
  have hFields : (table? (ofJson json)).bind (fields? ["types", "symbols"]) =
      (json.fields? ["types", "symbols"]).bind (Fields.traverse fun _ => Table.field?) :=
    fields?_record? fun key _ value hValue =>
      tableField_ofJson (hValues value hValue).1 (hValues value hValue).2
  have hBind : (table? (ofJson json)).bind Table.ofJson? =
      ((table? (ofJson json)).bind (fields? ["types", "symbols"])).bind fun fields => do
        return ⟨← fields.withDefault? "types" (Table.entries? TypeRef.ofJson?) [],
          ← fields.withDefault? "symbols" (Table.entries? str?) []⟩ := by
    rw [Option.bind_assoc]
    rfl
  have hTypes : ∀ fields, Fields.Agrees (fun _ => Table.field?) (Table.entries? TypeRef.ofJson?)
      fields "types" := fun _ value _ =>
    Table.entries?_field? (fun other => (TypeRef.ofJson?_prune other).1) value
  have hSymbols : ∀ fields, Fields.Agrees (fun _ => Table.field?) (Table.entries? str?)
      fields "symbols" := fun _ value _ =>
    Table.entries?_field? (fun other => by cases other <;> rfl) value
  rw [hBind, hFields, Table.ofJson?]
  cases hFound : json.fields? ["types", "symbols"] with
  | none => rfl
  | some fields =>
      cases hRead : Fields.traverse (fun _ => Table.field?) fields with
      | some read =>
          simp only [Option.bind_eq_bind, Option.bind_some, hRead,
            Fields.withDefault?_traverse hRead (hTypes fields),
            Fields.withDefault?_traverse hRead (hSymbols fields)]
      | none =>
          obtain ⟨key, value, hMem, hNone⟩ := Fields.exists_of_traverse_eq_none hRead
          have hLookup := (Text.lookup_eq_some_iff (nodup_of_fields? (by decide) hFound)).2 hMem
          have hKey := (mem_of_fields? hFound hMem).1
          simp only [Option.bind_eq_bind, Option.bind_some, hRead, Option.bind_none]
          rcases List.mem_cons.1 hKey with rfl | hKey
          · rw [((hTypes fields).eq_none [] hLookup hNone).2]
            rfl
          · obtain rfl := List.mem_singleton.1 hKey
            rw [((hSymbols fields).eq_none [] hLookup hNone).2]
            cases fields.withDefault? "types" (Table.entries? TypeRef.ofJson?) [] <;> rfl

end Json.Raw

/-! ## Units -/

namespace SourceUnit

open Json (maxDepth)

/-- A member of a dump is read from its written form. -/
theorem readMember_dumpMember? {value : Json} (h : value.IsWhole)
    (hDepth : value.depth ≤ maxDepth - 1) (parts : Partial) (key : String) :
    readMember parts key ((Json.Raw.ofJson value).dumpMember? key) =
      readMember parts key (some value) := by
  unfold readMember Json.Raw.dumpMember?
  split
  · have hTree := Json.Raw.described?_tree? h hDepth
    cases parts.tree with
    | some tree => rfl
    | none =>
        cases hRead : (Json.Raw.ofJson value).tree? with
        | some read =>
            rw [hRead, Option.bind_some] at hTree
            simp only [Tree.ofJson_eq, hTree]
        | none =>
            rw [hRead, Option.bind_none] at hTree
            simp only [Tree.ofJson_eq, ← hTree]
            rfl
  · split
    · rw [Json.Raw.ofJson?_table? h hDepth, Option.bind_some]
    · rfl

theorem readMembers_ofMembers (members : List (String × Json))
    (hWhole : ∀ member ∈ members, member.2.IsWhole)
    (hDepth : ∀ member ∈ members, member.2.depth ≤ maxDepth - 1) :
    readMembers (Json.Raw.ofMembers members) =
      members.foldlM (fun parts (key, value) => readMember parts key (some value)) {} := by
  unfold readMembers
  generalize ({} : Partial) = parts
  induction members generalizing parts with
  | nil => rfl
  | cons member members ih =>
      obtain ⟨key, value⟩ := member
      have hMember := readMember_dumpMember? (hWhole (key, value) List.mem_cons_self)
        (hDepth (key, value) List.mem_cons_self) parts key
      have hRest := ih (fun other hOther => hWhole other (List.mem_cons_of_mem _ hOther))
        (fun other hOther => hDepth other (List.mem_cons_of_mem _ hOther))
      rw [Json.Raw.ofMembers, List.foldlM_cons, List.foldlM_cons]
      simp only [Json.key?_escape, hMember]
      cases readMember parts key (some value) with
      | error e => rfl
      | ok read => exact hRest read

theorem ofMembers_zip (items : List Json) : Json.Raw.ofMembers (fieldNames.zip items) =
    (fieldNames.map String.toList).zip (Json.Raw.ofItems items) := by
  match items with
  | [] => rfl
  | [_] => rfl
  | _ :: _ :: _ => rfl

/-- **The text of a document is read as the document**, if it does not nest too deep. -/
theorem ofDump_write {json : Json} (h : json.IsWhole) (hDepth : json.depth ≤ maxDepth)
    (unit : SourceUnit) : ofDump json.write = .ok unit ↔ ofJson json = .ok unit := by
  have hRead : ofDump json.write = (do ofParts (← readRaw (Json.Raw.ofJson json))) := by
    rw [ofDump, Json.Raw.read?_write h]
  have hValues : ∀ value ∈ json.values, value.IsWhole ∧ value.depth ≤ maxDepth - 1 := by
    intro value hValue
    have hLt := Json.depth_lt_of_mem_values hValue
    exact ⟨Json.isWhole_of_mem_values h hValue, by omega⟩
  rw [hRead]
  cases json with
  | obj members =>
      have hMembers := readMembers_ofMembers members
        (fun member hMember => (hValues _ (List.mem_map_of_mem hMember)).1)
        (fun member hMember => (hValues _ (List.mem_map_of_mem hMember)).2)
      rw [Json.Raw.ofJson, readRaw, hMembers]
      rfl
  | arr items =>
      have hMembers := readMembers_ofMembers (fieldNames.zip items)
        (fun member hMember => (hValues _ (List.of_mem_zip hMember).2).1)
        (fun member hMember => (hValues _ (List.of_mem_zip hMember).2).2)
      rw [Json.Raw.ofJson, readRaw, ← ofMembers_zip, hMembers, Json.Raw.length_ofItems, ofJson,
        members?]
      by_cases hLength : items.length ≤ fieldNames.length
      · simp only [hLength, if_true, Option.elim_some, bind, Except.bind]
        generalize List.foldlM (m := Except DumpError) _ _ (fieldNames.zip items) = read
        cases read <;> rfl
      · simp only [hLength, if_false, Option.elim_none, bind, Except.bind]
        generalize List.foldlM (m := Except DumpError) _ _ (fieldNames.zip items) = read
        cases read <;> simp
  | _ => exact Iff.rfl

end SourceUnit

end StateGuard
