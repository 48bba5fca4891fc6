import StateGuard.Json.Decode
import StateGuard.Proofs.Json.Values

/-!
# Records of which some members are read

A reader of a record passes over the members that it does not ask for, and it may look into the
others only in part.  What it finds is the record with each field replaced by what is made of it, and
a decoder that does not look further finds the same in both.

## Main results

* `fields?_prune`: the fields of a value from which other members are missing.
* `Raw.fields?_record?`: the fields of a record are found in what is read of its written form.
-/

namespace StateGuard

namespace Json

/-! ## Documents without the members that are passed over -/

mutual
theorem prune_true : (json : Json) → json.prune (fun _ => true) = json
  | .null | .bool _ | .int _ | .real _ | .str _ => rfl
  | .arr items => by rw [prune, pruneItems_true items]
  | .obj members => by rw [prune, pruneMembers_true members]
theorem pruneItems_true : (items : List Json) → pruneItems (fun _ => true) items = items
  | [] => rfl
  | item :: items => by rw [pruneItems, prune_true item, pruneItems_true items]
theorem pruneMembers_true :
    (members : List (String × Json)) → pruneMembers (fun _ => true) members = members
  | [] => rfl
  | (key, value) :: members => by
      rw [pruneMembers, prune_true value, pruneMembers_true members, if_pos rfl]
end

variable {counts : String → Bool}

theorem pruneItems_eq_map (items : List Json) : pruneItems counts items = items.map (prune counts) := by
  induction items with
  | nil => rfl
  | cons item items ih => rw [pruneItems, ih, List.map_cons]

end Json

/-! ## What is made of fields -/

namespace Json

namespace Fields

variable {α : Type} {change : String → Json → Option Json} {fields read : Fields} {key : String}
  {value : Json} {decode : Json → Option α} {default : α}

/-- What is made of the values of all fields, if something is made of each. -/
def traverse (change : String → Json → Option Json) : Fields → Option Fields
  | [] => some []
  | (key, value) :: fields => do
    let value ← change key value
    let fields ← traverse change fields
    return (key, value) :: fields

theorem traverse_cons_eq_some (h : traverse change ((key, value) :: fields) = some read) :
    ∃ value' fields', change key value = some value' ∧ traverse change fields = some fields' ∧
      read = (key, value') :: fields' := by
  simp only [traverse, Option.bind_eq_bind, Option.bind_eq_some_iff, Option.pure_def,
    Option.some.injEq] at h
  obtain ⟨value', hValue, fields', hFields, rfl⟩ := h
  exact ⟨value', fields', hValue, hFields, rfl⟩

theorem map_fst_of_traverse (h : traverse change fields = some read) :
    read.map (·.1) = fields.map (·.1) := by
  induction fields generalizing read with
  | nil =>
      obtain rfl : [] = read := Option.some.inj h
      rfl
  | cons field fields ih =>
      obtain ⟨value', fields', -, hFields, rfl⟩ := traverse_cons_eq_some h
      rw [List.map_cons, List.map_cons, ih hFields]

/-- A field is found in what is made of a record iff it is in the record. -/
theorem lookup_traverse (h : traverse change fields = some read) (key : String) :
    (fields.lookup key = none ∧ read.lookup key = none) ∨
      ∃ value value', fields.lookup key = some value ∧ change key value = some value' ∧
        read.lookup key = some value' := by
  induction fields generalizing read with
  | nil =>
      obtain rfl : [] = read := Option.some.inj h
      exact .inl ⟨rfl, rfl⟩
  | cons field fields ih =>
      obtain ⟨name, value⟩ := field
      obtain ⟨value', fields', hValue, hFields, rfl⟩ := traverse_cons_eq_some h
      by_cases hName : key = name
      · subst hName
        exact .inr ⟨value, value', by simp, hValue, by simp⟩
      · have hBeq : (key == name) = false := beq_false_of_ne hName
        simpa only [List.lookup_cons, hBeq] using ih hFields

theorem exists_of_traverse_eq_none (h : traverse change fields = none) :
    ∃ key value, (key, value) ∈ fields ∧ change key value = none := by
  induction fields with
  | nil => simp [traverse] at h
  | cons field fields ih =>
      obtain ⟨name, value⟩ := field
      cases hValue : change name value with
      | none => exact ⟨name, value, List.mem_cons_self, hValue⟩
      | some value' =>
          have hFields : traverse change fields = none := by
            simp only [traverse, hValue, Option.bind_eq_bind, Option.bind_some] at h
            cases hRest : traverse change fields with
            | none => rfl
            | some read => simp [hRest] at h
          obtain ⟨key, other, hMem, hOther⟩ := ih hFields
          exact ⟨key, other, List.mem_cons_of_mem _ hMem, hOther⟩

/-- A decoder finds in the value of a field what it finds in what is made of it. -/
def Agrees (change : String → Json → Option Json) (decode : Json → Option α) (fields : Fields)
    (key : String) : Prop :=
  ∀ value, fields.lookup key = some value → (change key value).bind decode = decode value

theorem required?_traverse (h : traverse change fields = some read)
    (hAgrees : Agrees change decode fields key) :
    read.required? key decode = fields.required? key decode := by
  obtain ⟨hNone, hNone'⟩ | ⟨value, value', hFound, hValue, hFound'⟩ := lookup_traverse h key
  · simp only [required?, hNone, hNone']
  · simp only [required?, hFound, hFound', ← hAgrees value hFound, hValue, Option.bind_some]

/-- A field of which nothing can be made has no value that the decoder takes. -/
theorem Agrees.eq_none (h : Agrees change decode fields key) (default : α)
    (hFound : fields.lookup key = some value)
    (hNone : change key value = none) :
    fields.required? key decode = none ∧ fields.withDefault? key decode default = none := by
  have hDecode : decode value = none := by
    rw [← h value hFound, hNone]
    rfl
  simp only [required?, withDefault?, hFound, hDecode, and_self]

theorem withDefault?_traverse (h : traverse change fields = some read)
    (hAgrees : Agrees change decode fields key) :
    read.withDefault? key decode default = fields.withDefault? key decode default := by
  obtain ⟨hNone, hNone'⟩ | ⟨value, value', hFound, hValue, hFound'⟩ := lookup_traverse h key
  · simp only [withDefault?, hNone, hNone']
  · simp only [withDefault?, hFound, hFound', ← hAgrees value hFound, hValue, Option.bind_some]

end Fields

/-- The values that a document is made of. -/
def values : Json → List Json
  | .obj members => members.map (·.2)
  | .arr items => items
  | _ => []

theorem isWhole_of_mem_values {json value : Json} (h : json.IsWhole) (hValue : value ∈ json.values) :
    value.IsWhole := by
  cases h with
  | obj hMembers =>
      obtain ⟨member, hMember, rfl⟩ := List.mem_map.1 hValue
      exact hMembers member hMember
  | arr hItems => exact hItems value hValue
  | _ => simp [values] at hValue

theorem depth_lt_of_mem_values {json value : Json} (hValue : value ∈ json.values) :
    value.depth < json.depth := by
  cases json with
  | obj members =>
      rw [depth]
      simp only [values] at hValue
      induction members with
      | nil => simp at hValue
      | cons member members ih =>
          rw [membersDepth]
          rcases List.mem_cons.1 hValue with rfl | hRest
          · exact Nat.lt_succ_of_le (Nat.le_max_left _ _)
          · exact Nat.lt_of_lt_of_le (ih hRest) (Nat.succ_le_succ (Nat.le_max_right _ _))
  | arr items =>
      rw [depth]
      simp only [values] at hValue
      induction items with
      | nil => simp at hValue
      | cons item items ih =>
          rw [itemsDepth]
          rcases List.mem_cons.1 hValue with rfl | hRest
          · exact Nat.lt_succ_of_le (Nat.le_max_left _ _)
          · exact Nat.lt_of_lt_of_le (ih hRest) (Nat.succ_le_succ (Nat.le_max_right _ _))
  | _ => simp [values] at hValue

/-- Fields have names that have been asked for, and values of the document. -/
theorem mem_of_fields? {names : List String} {json : Json} {fields : Fields} {key : String}
    {value : Json} (h : json.fields? names = some fields) (hMem : (key, value) ∈ fields) :
    key ∈ names ∧ value ∈ json.values := by
  cases json with
  | obj members =>
      simp only [fields?] at h
      split at h
      · obtain rfl := Option.some.inj h
        obtain ⟨hMember, hKey⟩ := List.mem_filter.1 hMem
        exact ⟨by simpa using hKey, List.mem_map.2 ⟨_, hMember, rfl⟩⟩
      · simp at h
  | arr items =>
      simp only [fields?] at h
      split at h
      · obtain rfl := Option.some.inj h
        exact List.of_mem_zip hMem
      · simp at h
  | _ => simp [fields?] at h

/-- Fields have different names. -/
theorem nodup_of_fields? {names : List String} (hNames : names.Nodup) {json : Json} {fields : Fields}
    (h : json.fields? names = some fields) : (fields.map (·.1)).Nodup := by
  cases json with
  | obj members =>
      simp only [fields?] at h
      split at h
      · next hLength =>
          obtain rfl := Option.some.inj h
          refine Text.nodup_of_length_eraseDups ?_
          rw [hLength, List.length_map]
      · simp at h
  | arr items =>
      simp only [fields?] at h
      split at h
      · obtain rfl := Option.some.inj h
        rw [List.zip_eq_zip_take_min, List.map_fst_zip (by simp)]
        exact (List.take_sublist _ _).nodup hNames
      · simp at h
  | _ => simp [fields?] at h

/-- The fields of an object whose members have been changed. -/
theorem fields?_obj_traverse {change : String → Json → Option Json} {names : List String}
    {members read : List (String × Json)}
    (h : Fields.traverse change (members.filter fun (key, _) => names.contains key) =
      some (read.filter fun (key, _) => names.contains key)) :
    (Json.obj read).fields? names = ((Json.obj members).fields? names).bind (Fields.traverse change) := by
  have hKeys := Fields.map_fst_of_traverse h
  have hLength := congrArg List.length hKeys
  rw [List.length_map, List.length_map] at hLength
  simp only [fields?, hKeys, hLength]
  split
  · exact h.symm
  · rfl

/-- The fields of an array whose items have been changed. -/
theorem traverse_zip {change : String → Json → Option Json} {names : List String}
    {items : List Json} :
    Fields.traverse change (names.zip items) =
      ((names.zip items).mapM fun (name, value) => change name value).map (names.zip ·) := by
  induction names generalizing items with
  | nil => simp [Fields.traverse]
  | cons name names ih =>
      cases items with
      | nil => simp [Fields.traverse]
      | cons item items =>
          simp only [List.zip_cons_cons, Fields.traverse, List.mapM_cons, ih]
          cases change name item with
          | none => rfl
          | some value => cases (names.zip items).mapM fun (name, value) => change name value <;> rfl

namespace Raw

variable {names : List String} {field? : String → Raw → Option Json}
  {change : String → Json → Option Json}

theorem mapM_ofMembers {members : List (String × Json)}
    (h : ∀ key value, (key, value) ∈ members → field? key (ofJson value) = change key value) :
    ((ofMembers members).mapM fun (source, raw) => do
        let key ← key? source
        return (key, ← field? key raw)) = Fields.traverse change members := by
  induction members with
  | nil => rfl
  | cons member members ih =>
      obtain ⟨key, value⟩ := member
      have hRest := ih fun other found hMem => h other found (List.mem_cons_of_mem _ hMem)
      rw [ofMembers, List.mapM_cons, hRest]
      simp only [Fields.traverse, key?_escape, h key value List.mem_cons_self, Option.bind_eq_bind,
        Option.bind_some, Option.pure_def, Option.bind_assoc]

theorem record?_obj {members : List (String × Json)}
    (h : ∀ key value, (key, value) ∈ members → key ∈ names →
      field? key (ofJson value) = change key value) :
    record? names field? (ofJson (.obj members)) =
      (Fields.traverse change (members.filter fun (key, _) => names.contains key)).map .obj := by
  suffices hFound : ((ofMembers members).mapM fun (source, raw) => do
        let key ← key? source
        if names.contains key then return some (key, ← field? key raw) else return none).map
          (List.filterMap id) =
      Fields.traverse change (members.filter fun (key, _) => names.contains key) by
    rw [← hFound, ofJson, record?, Option.map_map]
    generalize List.mapM (m := Option) _ (ofMembers members) = found
    cases found <;> rfl
  induction members with
  | nil => rfl
  | cons member members ih =>
      obtain ⟨key, value⟩ := member
      have hRest := ih fun other found hMem => h other found (List.mem_cons_of_mem _ hMem)
      rw [ofMembers, List.mapM_cons]
      cases hKey : names.contains key with
      | true =>
          have hField := h key value List.mem_cons_self (by simpa using hKey)
          rw [List.filter_cons_of_pos (by simpa using hKey), Fields.traverse, ← hRest]
          simp only [key?_escape, hKey, if_true, hField, Option.bind_eq_bind, Option.bind_some,
            Option.pure_def]
          generalize List.mapM (m := Option) _ (ofMembers members) = found
          cases change key value <;> cases found <;> rfl
      | false =>
          rw [List.filter_cons_of_neg (by simpa using hKey), ← hRest]
          simp only [key?_escape, hKey, Option.bind_eq_bind, Option.bind_some, Option.pure_def]
          generalize List.mapM (m := Option) _ (ofMembers members) = found
          cases found <;> rfl

theorem mapM_zip_ofItems (items : List Json)
    (h : ∀ key value, (key, value) ∈ names.zip items →
      field? key (ofJson value) = change key value) :
    ((names.zip (ofItems items)).mapM fun (name, raw) => field? name raw) =
      (names.zip items).mapM fun (name, value) => change name value := by
  induction names generalizing items with
  | nil => rfl
  | cons name names ih =>
      cases items with
      | nil => rfl
      | cons item items =>
          have hRest := ih items fun key value hMem => h key value (List.mem_cons_of_mem _ hMem)
          rw [ofItems, List.zip_cons_cons, List.zip_cons_cons, List.mapM_cons, List.mapM_cons, hRest]
          simp only [h name item List.mem_cons_self]

theorem length_of_mapM {α β : Type} {f : α → Option β} {xs : List α} {ys : List β}
    (h : xs.mapM f = some ys) : ys.length = xs.length := by
  induction xs generalizing ys with
  | nil =>
      obtain rfl : [] = ys := by simpa using h
      rfl
  | cons x xs ih =>
      simp only [List.mapM_cons, Option.bind_eq_bind, Option.bind_eq_some_iff, Option.pure_def,
        Option.some.injEq] at h
      obtain ⟨y, -, ys', hRest, rfl⟩ := h
      rw [List.length_cons, List.length_cons, ih hRest]

theorem length_ofItems (items : List Json) : (ofItems items).length = items.length := by
  induction items with
  | nil => rfl
  | cons item items ih => rw [ofItems, List.length_cons, List.length_cons, ih]

/-- **The fields of a record are found in what is read of its written form.** -/
theorem fields?_record? {json : Json}
    (h : ∀ key ∈ names, ∀ value ∈ json.values, field? key (ofJson value) = change key value) :
    (record? names field? (ofJson json)).bind (fields? names) =
      (json.fields? names).bind (Fields.traverse change) := by
  cases json with
  | obj members =>
      rw [record?_obj fun key value hMem hKey => h key hKey value (List.mem_map.2 ⟨_, hMem, rfl⟩)]
      cases hRead : Fields.traverse change (members.filter fun (key, _) => names.contains key) with
      | none =>
          simp only [fields?]
          split
          · exact hRead.symm
          · rfl
      | some read =>
          have hKnown : (read.filter fun (key, _) => names.contains key) = read := by
            rw [List.filter_eq_self]
            rintro ⟨key, value⟩ hMem
            have hKey : key ∈ read.map (·.1) := List.mem_map.2 ⟨_, hMem, rfl⟩
            rw [Fields.map_fst_of_traverse hRead] at hKey
            obtain ⟨member, hMember, rfl⟩ := List.mem_map.1 hKey
            exact (List.mem_filter.1 hMember).2
          exact fields?_obj_traverse (by rw [hRead, hKnown])
  | arr items =>
      rw [ofJson, record?, fields?, length_ofItems]
      split
      · next hLength => 
          rw [mapM_zip_ofItems items fun key value hMem => h key (List.of_mem_zip hMem).1 value
            (List.of_mem_zip hMem).2, Option.bind_some, traverse_zip]
          cases hFound : (names.zip items).mapM fun (name, value) => change name value with
          | none => rfl
          | some found =>
              have hLe : found.length ≤ names.length := by
                rw [length_of_mapM hFound, List.length_zip]
                exact Nat.min_le_left _ _
              simp only [Option.map_some, Option.bind_some, fields?, hLe, if_true]
      · rfl
  | _ => rfl

end Raw

section Prune

variable {counts : String → Bool} {names : List String}

theorem traverse_some (change : String → Json → Json) (fields : Fields) :
    Fields.traverse (fun key value => some (change key value)) fields =
      some (fields.map fun (key, value) => (key, change key value)) := by
  induction fields with
  | nil => rfl
  | cons field fields ih =>
      rw [Fields.traverse, ih]
      rfl

theorem pruneMembers_eq (members : List (String × Json)) :
    pruneMembers counts members = (members.filter fun (key, _) => counts key).map
      fun (key, value) => (key, value.prune counts) := by
  induction members with
  | nil => rfl
  | cons member members ih =>
      obtain ⟨key, value⟩ := member
      rw [pruneMembers, ih]
      cases hKey : counts key <;> simp [hKey]

/-- The fields of a value from which other members are missing. -/
theorem fields?_prune (hNames : ∀ key, names.contains key = true → counts key = true) (json : Json) :
    (json.prune counts).fields? names =
      (json.fields? names).bind (Fields.traverse fun _ value => some (value.prune counts)) := by
  cases json with
  | obj members =>
      refine fields?_obj_traverse ?_
      rw [traverse_some, pruneMembers_eq, List.filter_map, List.filter_filter]
      congr 2
      refine List.filter_congr fun ⟨key, _⟩ _ => ?_
      have hKey := hNames key
      cases hName : names.contains key <;> simp_all
  | arr items =>
      simp only [prune, fields?, pruneItems_eq_map, List.length_map]
      split
      · rw [Option.bind_some, traverse_some, List.zip_map_right]
        rfl
      · rfl
  | _ => rfl

end Prune

end Json

end StateGuard
