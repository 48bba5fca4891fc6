import StateGuard.Proofs.Yaml.Lines
import StateGuard.Yaml.Reader

/-!
# Written values are read back

The tokens of a value are put together to the tree of the value, which has neither anchors nor
aliases, and nothing is left to replace in it. With the tokens of the written lines this gives the
value back (`read?_write`).
-/

namespace StateGuard.Yaml

namespace Node

/-! ## Trees without names -/

mutual
/-- The tree of a value, without anchors and aliases. -/
def bare {ν : Type} : Yaml → Node ν
  | .scalar leaf => .scalar none leaf
  | .seq items => .seq none (bareAll items)
  | .map entries => .map none (bareEntries entries)
/-- The trees of values in a row. -/
def bareAll {ν : Type} : List Yaml → List (Node ν)
  | [] => []
  | item :: items => bare item :: bareAll items
/-- The trees of entries. -/
def bareEntries {ν : Type} : List (String × Yaml) → List (Node ν × Node ν)
  | [] => []
  | (key, value) :: entries =>
    (.scalar none ⟨.plain, none, key⟩, bare value) :: bareEntries entries
end

mutual
/-- Without names there is nothing to number. -/
theorem number?_bare (numbers : Numbers) (value : Yaml) :
    number? numbers (bare value) = some (bare value, numbers) := by
  cases value with
  | scalar leaf => rfl
  | seq items => simp [bare, number?, Numbers.put, numberAll?_bare numbers items]
  | map entries => simp [bare, number?, Numbers.put, numberEntries?_bare numbers entries]

theorem numberAll?_bare (numbers : Numbers) (items : List Yaml) :
    numberAll? numbers (bareAll items) = some (bareAll items, numbers) := by
  cases items with
  | nil => rfl
  | cons item items =>
      simp [bareAll, numberAll?, number?_bare numbers item, numberAll?_bare numbers items]

theorem numberEntries?_bare (numbers : Numbers) (entries : List (String × Yaml)) :
    numberEntries? numbers (bareEntries entries) = some (bareEntries entries, numbers) := by
  cases entries with
  | nil => rfl
  | cons entry entries =>
      simp [bareEntries, numberEntries?, number?, Numbers.put, number?_bare numbers entry.2,
        numberEntries?_bare numbers entries]
end

mutual
/-- Without aliases there is nothing to replace. -/
theorem expand?_bare (resolve : Resolve) (left : Nat) (value : Yaml) :
    expand? resolve left (bare value) = some (value, left) := by
  cases value with
  | scalar leaf => rfl
  | seq items => simp [bare, expand?, expandAll?_bare resolve left items]
  | map entries => simp [bare, expand?, expandEntries?_bare resolve left entries]

theorem expandAll?_bare (resolve : Resolve) (left : Nat) (items : List Yaml) :
    expandAll? resolve left (bareAll items) = some (items, left) := by
  cases items with
  | nil => rfl
  | cons item items =>
      simp [bareAll, expandAll?, expand?_bare resolve left item, expandAll?_bare resolve left items]

theorem expandEntries?_bare (resolve : Resolve) (left : Nat) (entries : List (String × Yaml)) :
    expandEntries? resolve left (bareEntries entries) = some (entries, left) := by
  cases entries with
  | nil => rfl
  | cons entry entries =>
      simp [bareEntries, expandEntries?, expand?, expand?_bare resolve left entry.2,
        expandEntries?_bare resolve left entries]
end

/-- The value of the tree of a value is the value. -/
theorem toYaml?_bare (value : Yaml) : (bare value).toYaml? = some value := by
  simp [toYaml?, number?_bare, expand?_bare]

/-! ## Trees of tokens -/

/-- What was read, and the tokens that are left. -/
def Takes {bound : Nat} {α : Type} (result : Option (Taken bound α)) (value : α)
    (rest : List Token) : Prop := ∃ fits, result = some ⟨value, rest, fits⟩

section Tokens

variable {handles : Handles} {rest after : List Token}

theorem node?_scalar (inBlock behindKey : Bool) (style : Style) (text : String) :
    Takes (node? handles inBlock behindKey (.scalar style text :: rest))
      (.scalar none ⟨style, none, text⟩) rest := by
  rw [node?.eq_def]
  exact ⟨by simp, rfl⟩

theorem node?_brackets (inBlock behindKey : Bool) :
    Takes (node? handles inBlock behindKey (.flowSequence :: .flowSequenceEnd :: rest))
      (.seq none []) rest := by
  have hItems : flowItems? handles (.flowSequenceEnd :: rest) = some ⟨[], rest, by simp⟩ := by
    rw [flowItems?.eq_def]
  have hNode : node? handles inBlock behindKey (.flowSequence :: .flowSequenceEnd :: rest) =
      (flowItems? handles (.flowSequenceEnd :: rest)).map fun taken =>
        ⟨.seq none taken.value, taken.rest, by have := taken.fits; simp at this ⊢; omega⟩ := by
    rw [node?.eq_def]
    rfl
  rw [hNode, hItems]
  exact ⟨_, rfl⟩

theorem node?_blockSequence (behindKey : Bool) {items : List (Node String)}
    (h : Takes (blockItems? handles rest) items after) :
    Takes (node? handles true behindKey (.blockSequence :: rest)) (.seq none items) after := by
  obtain ⟨fits, h⟩ := h
  have hNode : node? handles true behindKey (.blockSequence :: rest) =
      (blockItems? handles rest).map fun taken =>
        ⟨.seq none taken.value, taken.rest, Nat.lt_succ_of_lt taken.fits⟩ := by
    rw [node?.eq_def]
    rfl
  rw [hNode, h]
  exact ⟨_, rfl⟩

theorem node?_blockMapping (behindKey : Bool) {entries : List (Node String × Node String)}
    (h : Takes (blockEntries? handles rest) entries after) :
    Takes (node? handles true behindKey (.blockMapping :: rest)) (.map none entries) after := by
  obtain ⟨fits, h⟩ := h
  have hNode : node? handles true behindKey (.blockMapping :: rest) =
      (blockEntries? handles rest).map fun taken =>
        ⟨.map none taken.value, taken.rest, Nat.lt_succ_of_lt taken.fits⟩ := by
    rw [node?.eq_def]
    rfl
  rw [hNode, h]
  exact ⟨_, rfl⟩

theorem node?_item {items : List (Node String)} (h : Takes (openItems? handles rest) items after) :
    Takes (node? handles true true (.item :: rest)) (.seq none items) after := by
  obtain ⟨fits, h⟩ := h
  have hNode : node? handles true true (.item :: rest) =
      (openItems? handles rest).map fun taken =>
        ⟨.seq none taken.value, taken.rest, taken.fits⟩ := by
    rw [node?.eq_def]
    rfl
  rw [hNode, h]
  exact ⟨_, rfl⟩

theorem part?_node {inBlock behindKey : Bool} {stops ts : List Token} {value : Node String}
    (hStops : nextIs stops ts = false)
    (h : Takes (node? handles inBlock behindKey ts) value after) :
    Takes (part? handles inBlock behindKey stops ts) value after := by
  obtain ⟨fits, h⟩ := h
  rw [part?.eq_def, hStops, if_neg (by simp), h]
  exact ⟨_, rfl⟩

/-- An item of a block sequence, and the others. -/
theorem blockItems?_cons {item : Node String} {items : List (Node String)}
    {middle : List Token}
    (hItem : Takes (part? handles true false [.item, .blockEnd] rest) item middle)
    (hItems : Takes (blockItems? handles middle) items after) :
    Takes (blockItems? handles (.item :: rest)) (item :: items) after := by
  obtain ⟨_, hItem⟩ := hItem
  obtain ⟨_, hItems⟩ := hItems
  rw [blockItems?.eq_def]
  simp only [hItem, Option.bind_eq_bind, Option.bind_some, hItems]
  exact ⟨_, rfl⟩

/-- The last item of a sequence in the column of its key. -/
theorem openItems?_last {item : Node String}
    (hItem : Takes (part? handles true false [.item, .key, .value, .blockEnd] rest) item after)
    (hNext : after.head? ≠ some .item) : Takes (openItems? handles rest) [item] after := by
  obtain ⟨_, hItem⟩ := hItem
  rw [openItems?.eq_def]
  simp only [hItem, Option.bind_eq_bind, Option.bind_some]
  split
  · exact absurd rfl hNext
  · exact ⟨_, rfl⟩

/-- An item of a sequence in the column of its key, and the others. -/
theorem openItems?_cons {item : Node String} {items : List (Node String)} {middle : List Token}
    (hItem : Takes (part? handles true false [.item, .key, .value, .blockEnd] rest) item
      (.item :: middle))
    (hItems : Takes (openItems? handles middle) items after) :
    Takes (openItems? handles rest) (item :: items) after := by
  obtain ⟨_, hItem⟩ := hItem
  obtain ⟨_, hItems⟩ := hItems
  rw [openItems?.eq_def]
  simp only [hItem, Option.bind_eq_bind, Option.bind_some, hItems]
  exact ⟨_, rfl⟩

theorem entryValue?_value {inBlock : Bool} {stops : List Token} {value : Node String}
    (h : Takes (part? handles inBlock inBlock stops rest) value after) :
    Takes (entryValue? handles inBlock stops (.value :: rest)) value after := by
  obtain ⟨_, h⟩ := h
  rw [entryValue?.eq_def]
  simp only [h, Option.map_some]
  exact ⟨_, rfl⟩

/-- An entry with a key of one scalar, and the others. -/
theorem blockEntries?_cons {key : String} {value : Node String}
    {entries : List (Node String × Node String)} {middle : List Token}
    (hValue : Takes (part? handles true true [.key, .value, .blockEnd] rest) value middle)
    (hEntries : Takes (blockEntries? handles middle) entries after) :
    Takes (blockEntries? handles (.key :: .scalar .plain key :: .value :: rest))
      ((.scalar none ⟨.plain, none, key⟩, value) :: entries) after := by
  have hKey : Takes (part? handles true true [.key, .value, .blockEnd]
      (.scalar .plain key :: .value :: rest)) (.scalar none ⟨.plain, none, key⟩) (.value :: rest) :=
    part?_node rfl (node?_scalar true true .plain key)
  obtain ⟨_, hKey⟩ := hKey
  obtain ⟨_, hValue⟩ := entryValue?_value hValue
  obtain ⟨_, hEntries⟩ := hEntries
  rw [blockEntries?.eq_def]
  simp only [hKey, Option.bind_eq_bind, Option.bind_some, hValue, hEntries]
  exact ⟨_, rfl⟩

end Tokens

/-! ## Trees of values -/

/-- The tokens of a value are put together to its tree, in front of any tokens: behind a key, where
the items of a sequence must not go on, and by itself. -/
structure Parses (value : Yaml) : Prop where
  behindKey (handles : Handles) {rest : List Token} : rest.head? ≠ some .item →
    Takes (node? handles true true (valueTokens value ++ rest)) (bare value) rest
  byItself (handles : Handles) (behindKey : Bool) (rest : List Token) :
    Takes (node? handles true behindKey (asBlock value (valueTokens value) ++ rest)) (bare value)
      rest

/-- The first token of a value is a scalar or opens a collection. -/
theorem nextIs_value {value : Yaml} (h : IsWritable value) (rest : List Token) :
    nextIs [.key, .value, .blockEnd] (valueTokens value ++ rest) = false ∧
      nextIs [.item, .key, .value, .blockEnd] (asBlock value (valueTokens value) ++ rest) =
        false := by
  cases h with
  | scalar hLeaf => exact ⟨rfl, rfl⟩
  | @seq items hItems => cases items <;> exact ⟨rfl, rfl⟩
  | map hNonempty hKeys hValues => exact ⟨rfl, rfl⟩

theorem nextIs_of_subset {stops more ts : List Token} (hSubset : stops ⊆ more)
    (h : nextIs more ts = false) : nextIs stops ts = false := by
  cases ts with
  | nil => rfl
  | cons token ts =>
      simp only [nextIs, List.contains_eq_mem, decide_eq_false_iff_not] at h ⊢
      exact fun hMem => h (hSubset hMem)

section Values

variable {handles : Handles} {rest : List Token}

theorem blockItems?_items {items : List Yaml} (hWritable : ∀ item ∈ items, IsWritable item)
    (hParses : ∀ item ∈ items, Parses item) :
    Takes (blockItems? handles (itemTokens items ++ .blockEnd :: rest)) (bareAll items) rest := by
  induction items with
  | nil =>
      rw [itemTokens, List.nil_append, blockItems?.eq_def]
      exact ⟨by simp, rfl⟩
  | cons item items ih =>
      have hItems := ih (fun item h => hWritable item (by simp [h]))
        (fun item h => hParses item (by simp [h]))
      have hStops := (nextIs_value (hWritable item (by simp))
        (itemTokens items ++ .blockEnd :: rest)).2
      have hItem := (hParses item (by simp)).byItself handles false
        (itemTokens items ++ .blockEnd :: rest)
      rw [itemTokens, List.cons_append, List.cons_append, List.append_assoc]
      exact blockItems?_cons (part?_node (nextIs_of_subset (by simp) hStops) hItem) hItems

theorem openItems?_items (hNext : rest.head? ≠ some .item) (item : Yaml) {items : List Yaml}
    (hWritable : ∀ other ∈ item :: items, IsWritable other)
    (hParses : ∀ other ∈ item :: items, Parses other) :
    Takes (openItems? handles
      (asBlock item (valueTokens item) ++ (itemTokens items ++ rest))) (bareAll (item :: items))
      rest := by
  induction items generalizing item with
  | nil =>
      have hStops := (nextIs_value (hWritable item (by simp)) rest).2
      have hItem := (hParses item (by simp)).byItself handles false rest
      exact openItems?_last (part?_node hStops hItem) hNext
  | cons next items ih =>
      have hItems := ih next (fun other h => hWritable other (by simp [h]))
        (fun other h => hParses other (by simp [h]))
      have hStops := (nextIs_value (hWritable item (by simp))
        (itemTokens (next :: items) ++ rest)).2
      have hItem := (hParses item (by simp)).byItself handles false
        (itemTokens (next :: items) ++ rest)
      refine openItems?_cons (part?_node hStops ?_) hItems
      simpa [itemTokens] using hItem

theorem blockEntries?_entries {entries : List (String × Yaml)}
    (hWritable : ∀ entry ∈ entries, IsWritable entry.2)
    (hParses : ∀ entry ∈ entries, Parses entry.2) :
    Takes (blockEntries? handles (entryTokens entries ++ .blockEnd :: rest)) (bareEntries entries)
      rest := by
  induction entries with
  | nil =>
      rw [entryTokens, List.nil_append, blockEntries?.eq_def]
      exact ⟨by simp, rfl⟩
  | cons entry entries ih =>
      obtain ⟨key, value⟩ := entry
      have hEntries := ih (fun entry h => hWritable entry (by simp [h]))
        (fun entry h => hParses entry (by simp [h]))
      have hNext : (entryTokens entries ++ .blockEnd :: rest).head? ≠ some .item := by
        cases entries <;> simp [entryTokens]
      have hStops := (nextIs_value (hWritable (key, value) (by simp))
        (entryTokens entries ++ .blockEnd :: rest)).1
      have hValue := (hParses (key, value) (by simp)).behindKey handles hNext
      have hTokens : entryTokens ((key, value) :: entries) ++ .blockEnd :: rest =
          .key :: .scalar .plain key :: .value ::
            (valueTokens value ++ (entryTokens entries ++ .blockEnd :: rest)) := by
        simp [entryTokens]
      rw [hTokens]
      exact blockEntries?_cons (part?_node hStops hValue) hEntries

end Values

/-- **The tokens of every value of lines are put together to its tree.** -/
theorem parses {value : Yaml} (h : IsWritable value) : Parses value := by
  induction h with
  | @scalar leaf hLeaf =>
      have hScalar (handles : Handles) (behindKey : Bool) (rest : List Token) :
          Takes (node? handles true behindKey (.scalar leaf.style leaf.text :: rest))
            (bare (.scalar leaf)) rest := by
        have hSame : leaf = ⟨leaf.style, none, leaf.text⟩ := by
          rw [← hLeaf.tag]
        rw [bare, hSame]
        exact node?_scalar true behindKey leaf.style leaf.text
      exact ⟨fun handles _ _ => hScalar handles true _, fun handles => hScalar handles⟩
  | @seq items hItems ih =>
      cases items with
      | nil =>
          exact ⟨fun _ _ _ => node?_brackets true true, fun _ behindKey _ =>
            node?_brackets true behindKey⟩
      | cons item items =>
          refine ⟨fun handles rest hNext => ?_, fun handles behindKey rest => ?_⟩
          · rw [valueTokens, itemTokens, List.cons_append, List.cons_append, List.append_assoc]
            exact node?_item (openItems?_items hNext item hItems ih)
          · rw [asBlock, valueTokens, List.cons_append, List.cons_append, List.append_assoc]
            exact node?_blockSequence behindKey (blockItems?_items hItems ih)
  | @map entries hNonempty hKeys hValues ih =>
      have hMapping (handles : Handles) (behindKey : Bool) (rest : List Token) :
          Takes (node? handles true behindKey (valueTokens (.map entries) ++ rest))
            (bare (.map entries)) rest := by
        rw [valueTokens, List.cons_append, List.cons_append, List.append_assoc]
        exact node?_blockMapping behindKey (blockEntries?_entries hValues ih)
      exact ⟨fun handles _ _ => hMapping handles true _, fun handles => hMapping handles⟩

end Node

/-- **A written mapping is read back**, if its scalars fit on a line and its keys need no quotes. -/
theorem read?_write {entries : List (String × Yaml)} (h : IsWritable (.map entries)) :
    read? (write (.map entries)) = some (.map entries) := by
  have hTree : Node.ofTokens? (valueTokens (.map entries)) = some (Node.bare (.map entries)) := by
    have hNode : Node.Takes (Node.node? .standard true false (valueTokens (.map entries) ++ []))
        (Node.bare (.map entries)) [] := (Node.parses h).byItself .standard false []
    rw [List.append_nil] at hNode
    obtain ⟨fits, hNode⟩ := hNode
    have hBody : Node.body? (valueTokens (.map entries)) =
        (Node.node? .standard true false (valueTokens (.map entries))).map
          fun taken => (taken.value, taken.rest) := by
      rw [valueTokens]
      rfl
    simp [Node.ofTokens?, hBody, hNode]
  rw [read?, write, String.toList_ofList, tokens?_block h]
  simp only [Option.bind_eq_bind, Option.bind_some, hTree, Node.toYaml?_bare]

end StateGuard.Yaml
