import StateGuard.Proofs.Dump.Values
import StateGuard.Proofs.Source.Programs

/-!
# Units as JSON values

What is written for a unit is read back as the unit.  Entries of tables are read in another order
than they are written, which no lookup can tell.

A document is the dump of a unit only if its tree is accepted and every entry of its table belongs to
a node of the tree.  The numbers and parents of nodes are written and never read.

## Main results

* `Table.ofJson?_toJson`: tables are read back.
* `SourceUnit.ofJson_toJson`: units are read back.
* `SourceUnit.exists_of_ofJson`: what is read has been checked.
* `SourceUnit.ofJson_forgetPlaces`: numbers and parents of nodes do not matter.
-/

namespace StateGuard

/-! ## Tables -/

namespace Table

/-- **Node numbers are read back** from the keys of tables. -/
theorem key?_toString {n : Nat} (h : n < Word.capacity 64) : key? (toString n) = some n := by
  have hDigits : (toString n).toList = Nat.toDigits 10 n := by
    show (String.ofList (Nat.toDigits 10 n)).toList = _
    rw [String.toList_ofList]
  have hZero : ((Nat.toDigits 10 n).length ≠ 1 && (Nat.toDigits 10 n).head? = some '0') =
      false := by
    by_cases hHead : (Nat.toDigits 10 n).head? = some '0'
    · rw [Text.toDigits_eq_of_head? hHead]
      rfl
    · simp [hHead]
  simp only [key?, hDigits, hZero, Text.decimal?_toDigits]
  simpa using h

variable {α : Type} {entries : List (Nat × α)}

theorem put_of_notMem {key : Nat} {value : α} (h : key ∉ entries.map (·.1)) :
    put entries key value = (key, value) :: entries := by
  rw [put, List.filter_eq_self.2]
  rintro ⟨other, _⟩ hOther
  have hNe : other ≠ key := fun hEq => h (List.mem_map.2 ⟨_, hOther, hEq⟩)
  simpa using hNe

/-- Entries for different nodes are read one after another.  Those read so far are in front, and
those to come have none of their nodes. -/
theorem foldlM_entries {encode : α → Json} {decode : Json → Option α}
    (hDecode : ∀ value, decode (encode value) = some value)
    (hFits : ∀ entry ∈ entries, entry.1 < Word.capacity 64) (read : List (Nat × α))
    (hNodup : ((entries.reverse ++ read).map (·.1)).Nodup) :
    (entries.map fun (node, value) => (toString node, encode value)).foldlM
      (fun entries (key, value) => do return put entries (← key? key) (← decode value)) read =
    some (entries.reverse ++ read) := by
  induction entries generalizing read with
  | nil => simp
  | cons entry rest ih =>
      obtain ⟨node, value⟩ := entry
      have hNode := key?_toString (hFits (node, value) List.mem_cons_self)
      have hOrder : (rest.reverse ++ ((node, value) :: read)) = ((node, value) :: rest).reverse ++
          read := by simp
      have hNew : node ∉ read.map (·.1) := by
        rw [← hOrder, List.map_append, List.map_cons] at hNodup
        exact (List.nodup_cons.1 (List.nodup_append.1 hNodup).2.1).1
      have hRest := ih (fun other hOther => hFits other (List.mem_cons_of_mem _ hOther))
        ((node, value) :: read) (hOrder ▸ hNodup)
      rw [List.map_cons, List.foldlM_cons, ← hOrder, ← hRest]
      simp only [hNode, hDecode, Option.bind_eq_bind, Option.bind_some, Option.pure_def,
        put_of_notMem hNew]

/-- Entries for different nodes are read back, the last one first. -/
theorem entries?_map {encode : α → Json} {decode : Json → Option α}
    (hDecode : ∀ value, decode (encode value) = some value)
    (hFits : ∀ entry ∈ entries, entry.1 < Word.capacity 64) (hNodup : (entries.map (·.1)).Nodup) :
    entries? decode (.obj (entries.map fun (node, value) => (toString node, encode value))) =
      some entries.reverse := by
  simpa [entries?] using foldlM_entries hDecode hFits [] (by simpa using hNodup)

/-- Each node has one entry of a kind, and its number fits into 64 bits. -/
structure FitsWords (table : Table) : Prop where
  types_nodup : (table.types.map (·.1)).Nodup
  symbols_nodup : (table.symbols.map (·.1)).Nodup
  nodes : ∀ node ∈ table.nodes, node < Word.capacity 64

/-- The members of a table are found under their names. -/
theorem fields_toJson (table : Table) (types : Json → Option (List (Nat × TypeRef)))
    (symbols : Json → Option (List (Nat × String))) : (do
      let fields ← table.toJson.fields? ["types", "symbols"]
      return (⟨← fields.withDefault? "types" types [], ← fields.withDefault? "symbols" symbols []⟩ :
        Table)) =
    (do return ⟨← types (.obj (table.types.map fun (node, type) => (toString node, type.toJson))),
      ← symbols (.obj (table.symbols.map fun (node, symbol) => (toString node, .str symbol)))⟩) :=
  rfl

/-- **Tables are read back**, the last entry first. -/
theorem ofJson?_toJson {table : Table} (h : table.FitsWords) :
    ofJson? table.toJson = some ⟨table.types.reverse, table.symbols.reverse⟩ := by
  have hTypes := entries?_map TypeRef.ofJson?_toJson
    (fun entry hEntry => h.nodes entry.1 (List.mem_append_left _ (List.mem_map_of_mem hEntry)))
    h.types_nodup
  have hDecode : ∀ symbol, Json.str? (.str symbol) = some symbol := fun _ => rfl
  have hSymbols := entries?_map hDecode
    (fun entry hEntry => h.nodes entry.1 (List.mem_append_right _ (List.mem_map_of_mem hEntry)))
    h.symbols_nodup
  rw [ofJson?, fields_toJson, hTypes, hSymbols]
  rfl

/-- The order of entries does not matter. -/
theorem lookup_reverse (h : (entries.map (·.1)).Nodup) (node : Nat) :
    entries.reverse.lookup node = entries.lookup node := by
  refine Option.ext fun value => ?_
  rw [Text.lookup_eq_some_iff h,
    Text.lookup_eq_some_iff (by rwa [List.map_reverse, List.nodup_reverse]), List.mem_reverse]

/-- A table is in range if all its nodes are. -/
theorem outOfRange?_eq_none_iff {table : Table} {size : Nat} :
    table.outOfRange? size = none ↔ ∀ node ∈ table.nodes, node < size := by
  simp [outOfRange?, List.min?_eq_none_iff]

end Table

namespace Oracle

variable {n : Nat}

section Entries

variable {α : Type} (value? : Fin n → Option α)

/-- The entries for the nodes of which something is known. -/
def entriesOf (nodes : List (Fin n)) : List (Nat × α) :=
  nodes.filterMap fun i => (value? i).map (i.val, ·)

theorem sublist_entriesOf (nodes : List (Fin n)) :
    ((entriesOf value? nodes).map (·.1)).Sublist (nodes.map Fin.val) := by
  induction nodes with
  | nil => exact .slnil
  | cons i rest ih =>
      cases hValue : value? i with
      | none => simpa [entriesOf, hValue] using ih.cons i.val
      | some value => simpa [entriesOf, hValue] using ih.cons_cons i.val

theorem nodup_entriesOf : ((entriesOf value? (List.finRange n)).map (·.1)).Nodup :=
  (sublist_entriesOf value? _).nodup
    ((List.nodup_finRange n).map fun _ _ hEq => Fin.ext hEq)

theorem lt_of_mem_entriesOf {node : Nat}
    (h : node ∈ (entriesOf value? (List.finRange n)).map (·.1)) : node < n := by
  obtain ⟨i, _, rfl⟩ := List.mem_map.1 ((sublist_entriesOf value? _).mem h)
  exact i.isLt

theorem lookup_entriesOf (i : Fin n) :
    (entriesOf value? (List.finRange n)).lookup i.val = value? i := by
  refine Option.ext fun value => ?_
  rw [Text.lookup_eq_some_iff (nodup_entriesOf value?), entriesOf, List.mem_filterMap]
  constructor
  · rintro ⟨j, -, hj⟩
    obtain ⟨found, hFound, hEq⟩ := Option.map_eq_some_iff.1 hj
    obtain ⟨hNode, rfl⟩ := Prod.mk.inj hEq
    obtain rfl : j = i := Fin.ext hNode
    exact hFound
  · intro hValue
    exact ⟨i, List.mem_finRange i, by simp [hValue]⟩

end Entries

theorem toTable_types (oracle : Oracle n) :
    oracle.toTable.types = entriesOf oracle.typeOf (List.finRange n) := rfl

theorem toTable_symbols (oracle : Oracle n) :
    oracle.toTable.symbols = entriesOf oracle.symbolOf (List.finRange n) := rfl

/-- **A table has entries for nodes of its tree only.** -/
theorem lt_of_mem_nodes_toTable {oracle : Oracle n} {node : Nat} (h : node ∈ oracle.toTable.nodes) :
    node < n := by
  rw [Table.nodes, toTable_types, toTable_symbols] at h
  rcases List.mem_append.1 h with hType | hSymbol
  · exact lt_of_mem_entriesOf _ hType
  · exact lt_of_mem_entriesOf _ hSymbol

theorem outOfRange?_toTable (oracle : Oracle n) : oracle.toTable.outOfRange? n = none :=
  Table.outOfRange?_eq_none_iff.2 fun _ => lt_of_mem_nodes_toTable

theorem fitsWords_toTable {oracle : Oracle n} (h : n ≤ Word.capacity 64) :
    oracle.toTable.FitsWords where
  types_nodup := nodup_entriesOf _
  symbols_nodup := nodup_entriesOf _
  nodes := fun _ hNode => (lt_of_mem_nodes_toTable hNode).trans_le h

theorem ext {oracle other : Oracle n} (hTypes : ∀ i, oracle.typeOf i = other.typeOf i)
    (hSymbols : ∀ i, oracle.symbolOf i = other.symbolOf i) : oracle = other := by
  obtain ⟨types, symbols⟩ := oracle
  obtain ⟨otherTypes, otherSymbols⟩ := other
  have hFirst : types = otherTypes := Vector.ext fun i hi => hTypes ⟨i, hi⟩
  have hSecond : symbols = otherSymbols := Vector.ext fun i hi => hSymbols ⟨i, hi⟩
  rw [hFirst, hSecond]

end Oracle

/-! ## Units -/

namespace SourceUnit

variable {unit : SourceUnit}

/-- The parts of a unit that has been read. -/
theorem ofParts_eq_ok {parts : Partial} {unit : SourceUnit} :
    ofParts parts = .ok unit ↔ parts.tree = some unit.tree ∧
      (parts.table.getD {}).outOfRange? unit.tree.size = none ∧
      unit.oracle = .ofTable unit.tree.size (parts.table.getD {}) := by
  obtain ⟨tree?, table?⟩ := parts
  cases tree? with
  | none => simp [ofParts]
  | some tree =>
      simp only [ofParts]
      cases hRange : (table?.getD {}).outOfRange? tree.size with
      | some node =>
          simp only [reduceCtorEq, Option.some.injEq, false_iff, not_and]
          rintro rfl hNone
          rw [hRange] at hNone
          exact absurd hNone (by simp)
      | none =>
          simp only [Except.ok.injEq, Option.some.injEq]
          constructor
          · rintro rfl
            exact ⟨rfl, hRange, rfl⟩
          · rintro ⟨rfl, -, hOracle⟩
            rw [← hOracle]

/-- **Units are read back**, if their trees have been accepted. -/
theorem ofJson_toJson {file : String} {parts : Array Part} {root : Nat}
    (hTree : Tree.ofParts file parts root = .ok unit.tree) (h : unit.tree.FitsWords) :
    ofJson unit.toJson = .ok unit := by
  have hFits : unit.oracle.toTable.FitsWords := Oracle.fitsWords_toTable h.size
  let read : Table := ⟨unit.oracle.toTable.types.reverse, unit.oracle.toTable.symbols.reverse⟩
  have hFirst : readMember {} "tree" (some unit.tree.toJson) = .ok ⟨some unit.tree, none⟩ := by
    simp [readMember, Tree.ofJson_toJson hTree h, Except.map]
  have hSecond : readMember ⟨some unit.tree, none⟩ "oracle" (some unit.oracle.toTable.toJson) =
      .ok ⟨some unit.tree, some read⟩ := by
    simp [readMember, Table.ofJson?_toJson hFits, read]
  have hRead : ofJson unit.toJson = ofParts ⟨some unit.tree, some read⟩ := by
    simp only [ofJson, members?, toJson, Option.elim_some, bind, pure, Except.bind, Except.pure,
      List.foldlM_cons, List.foldlM_nil, hFirst, hSecond]
  rw [hRead, ofParts_eq_ok]
  refine ⟨rfl, ?_, ?_⟩
  · rw [Option.getD_some, Table.outOfRange?_eq_none_iff]
    intro node hNode
    refine unit.oracle.lt_of_mem_nodes_toTable ?_
    simpa [Table.nodes, read] using hNode
  · refine Oracle.ext (fun i => ?_) (fun i => ?_)
    · rw [Option.getD_some, Oracle.typeOf_ofTable, Table.typeOf,
        Table.lookup_reverse hFits.types_nodup, Oracle.toTable_types, Oracle.lookup_entriesOf]
    · rw [Option.getD_some, Oracle.symbolOf_ofTable, Table.symbolOf,
        Table.lookup_reverse hFits.symbols_nodup, Oracle.toTable_symbols, Oracle.lookup_entriesOf]

end SourceUnit

/-! ## What is checked -/

/-- The file, the parts and the root that a document describes. -/
def Tree.described? (json : Json) : Option (String × List Part × Nat) := do
  let fields ← json.fields? ["file_path", "nodes", "root"]
  return (← fields.required? "file_path" Json.str?,
    ← fields.required? "nodes" (Json.list? Part.ofJson?), ← fields.required? "root" Json.index?)

theorem Tree.ofJson_eq (json : Json) : Tree.ofJson json =
    match described? json with
    | none => .error .malformed
    | some (file, parts, root) =>
      (Tree.ofParts file parts.toArray root).mapError (.rejected · file) := rfl

/-- A document is read as a tree only if the tree that it describes is accepted. -/
theorem Tree.exists_of_ofJson {json : Json} {tree : Tree} (h : Tree.ofJson json = .ok tree) :
    ∃ file parts root, described? json = some (file, parts, root) ∧
      Tree.ofParts file parts.toArray root = .ok tree := by
  rw [ofJson_eq] at h
  split at h
  · simp at h
  · next file parts root hDescribed =>
      refine ⟨file, parts, root, hDescribed, ?_⟩
      cases hParts : Tree.ofParts file parts.toArray root with
      | error e => simp [hParts, Except.mapError] at h
      | ok accepted => simpa [hParts, Except.mapError] using h

namespace SourceUnit

/-- What has been read stands for some members: each tree and each table among them is the one that
has been read, and nothing else has been read. -/
structure Partial.IsOf (parts : Partial) (members : List (String × Json)) : Prop where
  tree : ∀ value, ("tree", value) ∈ members →
    ∃ tree, Tree.ofJson value = .ok tree ∧ parts.tree = some tree
  table : ∀ value, ("oracle", value) ∈ members →
    ∃ table, Table.ofJson? value = some table ∧ parts.table = some table
  exists_tree : parts.tree.isSome → ∃ value, ("tree", value) ∈ members
  exists_table : parts.table.isSome → ∃ value, ("oracle", value) ∈ members

/-- What one more member of a dump can do. -/
theorem readMember_cases {parts read : Partial} {key : String} {value? : Option Json}
    (h : readMember parts key value? = .ok read) :
    (key = "tree" ∧ parts.tree = none ∧ ∃ value tree, value? = some value ∧
      Tree.ofJson value = .ok tree ∧ read = { parts with tree := some tree }) ∨
    (key = "oracle" ∧ parts.table = none ∧ ∃ table, value?.bind Table.ofJson? = some table ∧
      read = { parts with table := some table }) ∨
    (key ≠ "tree" ∧ key ≠ "oracle" ∧ read = parts) := by
  obtain ⟨tree?, table?⟩ := parts
  unfold readMember at h
  split at h
  · next hKey =>
      cases tree? with
      | some tree => simp at h
      | none =>
          cases value? with
          | none => simp at h
          | some value =>
              cases hTree : Tree.ofJson value with
              | error e => simp [hTree, Except.map] at h
              | ok tree =>
                  simp only [hTree, Except.map, Except.ok.injEq] at h
                  exact .inl ⟨hKey, rfl, value, tree, rfl, hTree, h.symm⟩
  · next hNotTree =>
      split at h
      · next hKey =>
          cases table? with
          | some table => simp at h
          | none =>
              cases hTable : value?.bind Table.ofJson? with
              | none => simp [hTable] at h
              | some table =>
                  simp only [hTable, Except.ok.injEq] at h
                  exact .inr (.inl ⟨hKey, rfl, table, rfl, h.symm⟩)
      · next hNotOracle =>
          simp only [Except.ok.injEq] at h
          exact .inr (.inr ⟨hNotTree, hNotOracle, h.symm⟩)

/-- One more member is read as what it stands for. -/
theorem Partial.IsOf.readMember {parts read : Partial} {members : List (String × Json)}
    {key : String} {value : Json} (hParts : parts.IsOf members)
    (h : SourceUnit.readMember parts key (some value) = .ok read) :
    read.IsOf (members ++ [(key, value)]) := by
  have hOld : ∀ name, name ≠ key → ∀ other, (name, other) ∈ members ++ [(key, value)] →
      (name, other) ∈ members := by
    intro name hName other hOther
    simpa [hName] using hOther
  obtain ⟨rfl, hNone, _, tree, ⟨⟩, hTree, rfl⟩ | ⟨rfl, hNone, table, hTable, rfl⟩ |
    ⟨hNotTree, hNotOracle, rfl⟩ := readMember_cases h
  · -- No member before this one was a tree, or it would have been read.
    refine ⟨fun other hOther => ?_, fun other hOther => hParts.table other (hOld _ (by decide) _ hOther),
      fun _ => ⟨value, by simp⟩, fun hSome => ?_⟩
    · rcases List.mem_append.1 hOther with hOther | hOther
      · obtain ⟨_, _, hFound⟩ := hParts.tree other hOther
        rw [hNone] at hFound
        exact absurd hFound (by simp)
      · simp only [List.mem_singleton, Prod.mk.injEq, true_and] at hOther
        subst hOther
        exact ⟨tree, hTree, rfl⟩
    · obtain ⟨other, hOther⟩ := hParts.exists_table hSome
      exact ⟨other, List.mem_append_left _ hOther⟩
  · refine ⟨fun other hOther => hParts.tree other (hOld _ (by decide) _ hOther), fun other hOther => ?_,
      fun hSome => ?_, fun _ => ⟨value, by simp⟩⟩
    · rcases List.mem_append.1 hOther with hOther | hOther
      · obtain ⟨_, _, hFound⟩ := hParts.table other hOther
        rw [hNone] at hFound
        exact absurd hFound (by simp)
      · simp only [List.mem_singleton, Prod.mk.injEq, true_and] at hOther
        subst hOther
        exact ⟨table, hTable, rfl⟩
    · obtain ⟨other, hOther⟩ := hParts.exists_tree hSome
      exact ⟨other, List.mem_append_left _ hOther⟩
  · refine ⟨fun other hOther => hParts.tree other (hOld _ (Ne.symm hNotTree) _ hOther),
      fun other hOther => hParts.table other (hOld _ (Ne.symm hNotOracle) _ hOther), fun hSome => ?_,
      fun hSome => ?_⟩
    · obtain ⟨other, hOther⟩ := hParts.exists_tree hSome
      exact ⟨other, List.mem_append_left _ hOther⟩
    · obtain ⟨other, hOther⟩ := hParts.exists_table hSome
      exact ⟨other, List.mem_append_left _ hOther⟩

/-- Members are read as what they stand for. -/
theorem Partial.IsOf.foldlM {members rest : List (String × Json)} {parts read : Partial}
    (hParts : parts.IsOf members)
    (h : rest.foldlM (fun parts (key, value) => SourceUnit.readMember parts key (some value)) parts =
      .ok read) : read.IsOf (members ++ rest) := by
  induction rest generalizing members parts with
  | nil =>
      obtain rfl : parts = read := by simpa [pure, Except.pure] using h
      simpa using hParts
  | cons member rest ih =>
      rw [List.foldlM_cons] at h
      obtain ⟨next, hNext, hRest⟩ := exists_of_bind_eq_ok h
      simpa using ih (hParts.readMember hNext) hRest

/-- **A document is the dump of a unit only if its tree is accepted and all entries of its table
belong to nodes of the tree.** -/
theorem exists_of_ofJson {json : Json} {unit : SourceUnit} (h : ofJson json = .ok unit) :
    ∃ members, members? json = some members ∧
      (∃ value file parts root, ("tree", value) ∈ members ∧
        Tree.described? value = some (file, parts, root) ∧
        Tree.ofParts file parts.toArray root = .ok unit.tree) ∧
      ∃ table, (∀ value, ("oracle", value) ∈ members → Table.ofJson? value = some table) ∧
        ((∀ value, ("oracle", value) ∉ members) → table = {}) ∧
        table.outOfRange? unit.tree.size = none ∧ unit.oracle = .ofTable unit.tree.size table := by
  rw [ofJson] at h
  obtain ⟨members, hMembers, h⟩ := exists_of_bind_eq_ok h
  obtain ⟨read, hRead, h⟩ := exists_of_bind_eq_ok h
  obtain ⟨hTree, hRange, hOracle⟩ := ofParts_eq_ok.1 h
  have hStart : Partial.IsOf {} [] := ⟨by simp, by simp, by simp, by simp⟩
  have hOf : read.IsOf members := by simpa using hStart.foldlM hRead
  refine ⟨members, ?_, ?_, read.table.getD {}, ?_, ?_, hRange, hOracle⟩
  · cases hJson : members? json with
    | none => simp [hJson] at hMembers
    | some found => simpa [hJson] using hMembers
  · obtain ⟨value, hValue⟩ := hOf.exists_tree (by simp [hTree])
    obtain ⟨tree, hRead, hFound⟩ := hOf.tree value hValue
    obtain rfl : tree = unit.tree := Option.some.inj (hFound.symm.trans hTree)
    obtain ⟨file, parts, root, hDescribed, hParts⟩ := Tree.exists_of_ofJson hRead
    exact ⟨value, file, parts, root, hValue, hDescribed, hParts⟩
  · intro value hValue
    obtain ⟨table, hTable, hFound⟩ := hOf.table value hValue
    rw [hFound, Option.getD_some, hTable]
  · intro hNone
    cases hFound : read.table with
    | none => rfl
    | some table =>
        obtain ⟨value, hValue⟩ := hOf.exists_table (by simp [hFound])
        exact absurd hValue (hNone value)

end SourceUnit

/-! ## What is not read -/

namespace Json

/-- A record with the value of one field changed. -/
def atField (names : List String) (name : String) (change : Json → Json) : Json → Json
  | .obj members => .obj (members.map fun (key, value) =>
      (key, if key = name then change value else value))
  | .arr items => .arr (items.mapIdx fun i value =>
      if names[i]? = some name then change value else value)
  | json => json

/-- A list with its items changed. -/
def eachItem (change : Json → Json) : Json → Json
  | .arr items => .arr (items.map change)
  | json => json

theorem list?_eachItem {α : Type} {decode : Json → Option α} {change : Json → Json}
    (h : ∀ item, decode (change item) = decode item) (json : Json) :
    list? decode (eachItem change json) = list? decode json := by
  cases json with
  | arr items =>
      simp only [eachItem, list?]
      rw [List.mapM_map]
      congr 1
      exact funext h
  | _ => rfl

section AtField

variable {names : List String} {name : String} {change : Json → Json}

/-- The fields of a record with one value changed. -/
def Fields.atField (name : String) (change : Json → Json) (fields : Fields) : Fields :=
  fields.map fun (key, value) => (key, if key = name then change value else value)

theorem zip_mapIdx (items : List Json) :
    names.zip (items.mapIdx fun i value => if names[i]? = some name then change value else value) =
      Fields.atField name change (names.zip items) := by
  refine List.ext_getElem (by simp [Fields.atField]) fun i hi _ => ?_
  have hName : i < names.length := (Nat.lt_min.1 (List.length_zip ▸ hi)).1
  simp [Fields.atField, List.getElem?_eq_getElem hName]

theorem fields?_atField (json : Json) :
    (json.atField names name change).fields? names =
      (json.fields? names).map (Fields.atField name change) := by
  cases json with
  | obj members =>
      simp only [atField, fields?, List.filter_map, List.map_map, List.length_map,
        Function.comp_def]
      split <;> rfl
  | arr items =>
      simp only [atField, fields?, List.length_mapIdx, zip_mapIdx]
      split <;> rfl
  | _ => rfl

theorem Fields.required?_atField {α : Type} {decode : Json → Option α} {key : String}
    (h : key = name → ∀ value, decode (change value) = decode value) (fields : Fields) :
    (fields.atField name change).required? key decode = fields.required? key decode := by
  induction fields with
  | nil => rfl
  | cons field rest ih =>
      obtain ⟨found, value⟩ := field
      simp only [Fields.atField, List.map_cons]
      by_cases hKey : key = found
      · subst hKey
        rw [required?_head, required?_head]
        split
        · next hName => exact h hName value
        · rfl
      · rw [required?_tail hKey, required?_tail hKey]
        exact ih

end AtField

end Json

namespace Node

/-- A node without its number and its parent. -/
def forgetPlaces : Json → Json
  | .obj members => .obj (members.filter fun (key, _) => !(["id", "parent"].contains key))
  | json => json

theorem fields?_forgetPlaces (names : List String) (hId : "id" ∉ names) (hParent : "parent" ∉ names)
    (members : List (String × Json)) :
    (forgetPlaces (.obj members)).fields? names = (Json.obj members).fields? names := by
  have hFilter : (members.filter fun (key, _) => !(["id", "parent"].contains key)).filter
      (fun (key, _) => names.contains key) = members.filter fun (key, _) => names.contains key := by
    rw [List.filter_filter]
    refine List.filter_congr fun ⟨key, _⟩ _ => ?_
    have hKept : key ∈ names → key ≠ "id" ∧ key ≠ "parent" :=
      fun hKey => ⟨fun hEq => hId (hEq ▸ hKey), fun hEq => hParent (hEq ▸ hKey)⟩
    simpa using hKept
  simp only [forgetPlaces, Json.fields?, hFilter]

theorem ofJson?_forgetPlaces (members : List (String × Json)) :
    ofJson? (forgetPlaces (.obj members)) = ofJson? (.obj members) := by
  have hKind := fields?_forgetPlaces ["kind"] (by decide) (by decide) members
  have hFields := fun kind => fields?_forgetPlaces (fieldNames kind)
    (notMem_fieldNames kind (by decide)) (notMem_fieldNames kind (by decide)) members
  simp only [forgetPlaces] at hKind hFields ⊢
  simp only [ofJson?, hKind, hFields]

end Node

theorem Part.ofJson?_forgetPlaces (json : Json) :
    Part.ofJson? (Node.forgetPlaces json) = Part.ofJson? json := by
  cases json with
  | obj members =>
      have hNode := Node.ofJson?_forgetPlaces members
      have hSpan := Node.fields?_forgetPlaces ["span"] (by decide) (by decide) members
      simp only [Node.forgetPlaces] at hNode hSpan ⊢
      simp only [Part.ofJson?, hNode, hSpan]
  | _ => rfl

/-- A tree without the numbers and parents of its nodes. -/
def Tree.forgetPlaces : Json → Json :=
  Json.atField ["file_path", "nodes", "root"] "nodes" (Json.eachItem Node.forgetPlaces)

theorem Tree.ofJson_forgetPlaces (json : Json) : ofJson (forgetPlaces json) = ofJson json := by
  have hDescribed : described? (forgetPlaces json) = described? json := by
    rw [described?, described?, forgetPlaces, Json.fields?_atField]
    cases json.fields? ["file_path", "nodes", "root"] with
    | none => rfl
    | some fields =>
        simp only [Option.map_some, Option.bind_eq_bind, Option.bind_some]
        rw [Json.Fields.required?_atField (by simp), Json.Fields.required?_atField
          (fun _ => Json.list?_eachItem Part.ofJson?_forgetPlaces), Json.Fields.required?_atField
          (by simp)]
  rw [ofJson_eq, ofJson_eq, hDescribed]

namespace SourceUnit

/-- A dump without the numbers and parents of its nodes. -/
def forgetPlaces : Json → Json := Json.atField fieldNames "tree" Tree.forgetPlaces

theorem members?_forgetPlaces (json : Json) :
    members? (forgetPlaces json) =
      (members? json).map (Json.Fields.atField "tree" Tree.forgetPlaces) := by
  cases json with
  | obj members => rfl
  | arr items =>
      simp only [forgetPlaces, Json.atField, members?, List.length_mapIdx, Json.zip_mapIdx]
      split <;> rfl
  | _ => rfl

/-- **Numbers and parents of nodes do not matter.** -/
theorem ofJson_forgetPlaces (json : Json) : ofJson (forgetPlaces json) = ofJson json := by
  have hStep : ∀ parts key value, readMember parts key
      (some (if key = "tree" then Tree.forgetPlaces value else value)) =
        readMember parts key (some value) := by
    intro parts key value
    by_cases hKey : key = "tree"
    · simp only [readMember, hKey, if_true]
      cases parts.tree with
      | none => simp only [Tree.ofJson_forgetPlaces]
      | some tree => rfl
    · simp only [hKey, if_false]
  rw [ofJson, ofJson, members?_forgetPlaces]
  cases members? json with
  | none => rfl
  | some members =>
      simp only [Option.map_some, Option.elim_some, bind, Except.bind, Json.Fields.atField,
        List.foldlM_map, hStep]

end SourceUnit

end StateGuard
