import StateGuard.Proofs.Semantics.Location
import StateGuard.Proofs.Semantics.Symbols
import StateGuard.Proofs.Source.Programs

/-!
# Places and their keys

For every oracle, reading the same place does not depend on the order of the expressions nor on
parentheses, and is only about names, the enclosing object and members of these.  In the tree of a
text, with the oracle of the binder, a place has a key, and two expressions read the same place
exactly if they have the same key.  Callees of calls are left out: the binder gives no symbol to a
field that is called.

## Main results

* `sameLocation_of_stripParens`, `isPlace_of_sameLocation`: what holds for every oracle.
* `Arena.IsProgram.fields_envAt`: all of a program sees the same fields.
* `sameLocation_iff_key`, `same_location_is_an_identity`: places and their keys.
-/

namespace StateGuard

namespace Arena

/-- An expression that names a place: a name, the enclosing object, or a member of a place. -/
def isPlace (arena : Arena) (i : arena.Id) : Bool :=
  match _h : arena.node (arena.stripParens i) with
  | .identifier _ => true
  | .this => true
  | .memberAccess receiver _ => isPlace arena receiver
  | _ => false
termination_by arena.height i
decreasing_by exact height_lt_of_mem_children_stripParens (by grind [Node.children])

/-- The callee of a call, perhaps in parentheses. -/
def IsCallee (arena : Arena) (i : arena.Id) : Prop :=
  ∃ call callee args, arena.node call = .invocation callee args ∧
    arena.stripParens callee = arena.stripParens i

end Arena

/-- What tells one place from another. -/
inductive Key where
  | symbol (symbol : String)
  | this
  | member (of : Key) (name : String)
  deriving DecidableEq, Repr

/-- The key of an expression. A field that is read through the enclosing object has its symbol as
the key, if that is known. -/
def key? (arena : Arena) (oracle : Oracle arena.size) (i : arena.Id) : Option Key :=
  match _h : arena.node (arena.stripParens i) with
  | .identifier _ => (oracle.symbolOf (arena.stripParens i)).map .symbol
  | .this => some .this
  | .memberAccess receiver member =>
    match if arena.isThis receiver then oracle.symbolOf (arena.stripParens i) else none with
    | some symbol => some (.symbol symbol)
    | none => (key? arena oracle receiver).map (.member · member)
  | _ => none
termination_by arena.height i
decreasing_by exact Arena.height_lt_of_mem_children_stripParens (by grind [Node.children])

/-! ## Every oracle -/

section EveryOracle

variable {arena : Arena} {oracle : Oracle arena.size} {a b a' b' : arena.Id}

theorem sameLocation_stripParens_left (a b : arena.Id) :
    sameLocation arena oracle (arena.stripParens a) b = sameLocation arena oracle a b := by
  rw [sameLocation.eq_def, sameLocation.eq_def arena oracle a b, Arena.stripParens_stripParens]

/-- Reading the same place does not depend on parentheses. -/
theorem sameLocation_of_stripParens (ha : arena.stripParens a = arena.stripParens a')
    (hb : arena.stripParens b = arena.stripParens b') :
    sameLocation arena oracle a b = sameLocation arena oracle a' b' := by
  rw [← sameLocation_stripParens_left a, ha, sameLocation_stripParens_left, sameLocation_comm,
    ← sameLocation_stripParens_left b, hb, sameLocation_stripParens_left, sameLocation_comm]

theorem isPlace_of_isThis (h : arena.isThis a = true) : arena.isPlace a = true := by
  unfold Arena.isThis at h
  rw [Arena.isPlace]
  split at h
  · next hNode => rw [hNode]
  · cases h

/-- Only names, the enclosing object and members of these read the same place. -/
theorem isPlace_of_sameLocation (h : sameLocation arena oracle a b = true) :
    arena.isPlace a = true ∧ arena.isPlace b = true := by
  fun_induction sameLocation arena oracle a b with
  | case1 a b _ _ ha hb => exact ⟨by rw [Arena.isPlace, ha], by rw [Arena.isPlace, hb]⟩
  | case2 a b ha hb => exact ⟨by rw [Arena.isPlace, ha], by rw [Arena.isPlace, hb]⟩
  | case3 a b receiver member receiver' member' ha hb ih =>
      obtain ⟨hPlace, hPlace'⟩ := ih (Bool.and_eq_true_iff.1 h).2
      exact ⟨by rw [Arena.isPlace, ha]; exact hPlace, by rw [Arena.isPlace, hb]; exact hPlace'⟩
  | case4 a b _ receiver _ ha hb =>
      have hThis := isPlace_of_isThis (Bool.and_eq_true_iff.1 h).1
      exact ⟨by rw [Arena.isPlace, ha], by rw [Arena.isPlace, hb]; exact hThis⟩
  | case5 a b receiver _ _ ha hb =>
      have hThis := isPlace_of_isThis (Bool.and_eq_true_iff.1 h).1
      exact ⟨by rw [Arena.isPlace, ha]; exact hThis, by rw [Arena.isPlace, hb]⟩
  | case6 => cases h

end EveryOracle

/-! ## Callees -/

section Callees

variable {tree : Tree} {c c' m receiver : tree.Id} {member : String}

open Arena Binder

/-- A node that is not in parentheses is not further inside an expression that it is part of. -/
theorem eq_of_isWithin_of_stripParens_eq (hWithin : tree.isWithin c' c = true)
    (hEq : tree.stripParens c = tree.stripParens c')
    (hBare : ∀ p inner, tree.parent c' = some p → tree.node p ≠ .parenthesized inner) : c' = c := by
  rcases isWithin_iff.1 hWithin with h | ⟨p, hParent, hAbove⟩
  · exact h
  · rcases isWithin_stripParens_or hAbove with hBelow | ⟨inner, hParens⟩
    · have hLe := depth_le_of_isWithin (hEq ▸ hBelow)
      have hLe' := depth_le_of_isWithin (isWithin_stripParens c')
      have hLt := depth_lt_of_parent hParent
      omega
    · exact absurd hParens (hBare p inner hParent)

/-- The receiver of a member access is no callee. -/
theorem not_isCallee_receiver (hNode : tree.node m = .memberAccess receiver member) :
    ¬ tree.IsCallee receiver := by
  rintro ⟨call, callee, args, hCall, hEq⟩
  have hReceiver : tree.parent receiver = some m :=
    (tree.parent_eq_some_iff receiver m).2 (by simp [hNode, Node.children])
  have hCallee : tree.parent callee = some call :=
    (tree.parent_eq_some_iff callee call).2 (by simp [hCall, Node.children])
  have hBare : ∀ p inner, tree.parent receiver = some p → tree.node p ≠ .parenthesized inner := by
    intro p inner hParent
    obtain rfl := Option.some.inj (hReceiver.symm.trans hParent)
    simp [hNode]
  have hBare' : ∀ p inner, tree.parent callee = some p → tree.node p ≠ .parenthesized inner := by
    intro p inner hParent
    obtain rfl := Option.some.inj (hCallee.symm.trans hParent)
    simp [hCall]
  have hSame : receiver = callee := by
    have hWithin := isWithin_stripParens callee
    rw [hEq] at hWithin
    rcases isWithin_total hWithin (isWithin_stripParens receiver) with h | h
    · exact (eq_of_isWithin_of_stripParens_eq h hEq.symm hBare').symm
    · exact eq_of_isWithin_of_stripParens_eq h hEq hBare
  rw [hSame, hCallee] at hReceiver
  obtain rfl := Option.some.inj hReceiver
  simp [hNode] at hCall

end Callees

/-! ## Fields -/

namespace Arena

variable {arena : Arena} {i c p : arena.Id} {env : Env arena.Id}

theorem fields_close (around inner : Env arena.Id) (i : arena.Id) :
    (arena.close around inner i).fields = inner.fields := by
  unfold close
  split <;> rfl

theorem fields_foldl {ι : Type} {f : Env arena.Id → ι → Env arena.Id} {xs : List ι}
    (h : ∀ x ∈ xs, ∀ env, (f env x).fields = env.fields) (env : Env arena.Id) :
    (xs.foldl f env).fields = env.fields := by
  induction xs generalizing env with
  | nil => rfl
  | cons x xs ih =>
      rw [List.foldl_cons, ih fun y hy => h y (List.mem_cons_of_mem x hy), h x List.mem_cons_self]

theorem fields_enterParameter (env : Env arena.Id) (param : arena.Id) :
    (arena.enterParameter env param).fields = env.fields := by
  unfold enterParameter
  split <;> rfl

theorem fields_enter (hUnit : (arena.node i).kind ≠ .compilationUnit) (env : Env arena.Id) :
    (arena.enter env i).fields = env.fields := by
  unfold enter
  cases hNode : arena.node i with
  | compilationUnit members => exact absurd (by rw [hNode]; rfl) hUnit
  | method name returnType params body isAsync =>
      exact fields_foldl (fun param _ env => fields_enterParameter env param) _
  | lambda params body isAsync =>
      exact fields_foldl (fun param _ env => fields_enterParameter env param) _
  | _ => rfl

namespace IsProgram

variable (h : arena.IsProgram)
include h

/-- Only the unit has fields. -/
theorem fields_leave (hi : i ≠ arena.root) (env : Env arena.Id) :
    (arena.leave env i).fields = env.fields := by
  induction hHeight : arena.height i using Nat.strongRecOn generalizing i env with
  | ind height ih =>
      have hParts : ∀ c ∈ (arena.node i).boundParts, ∀ env,
          (arena.leave env c).fields = env.fields := by
        intro c hc env
        have hChild := (Node.boundParts_sublist _).subset hc
        have hLt := height_lt_of_mem_children hChild
        exact ih _ (hHeight ▸ hLt) (ne_root_of_mem_children hChild) env rfl
      rw [leave_eq, fields_close, fields_foldl hParts,
        fields_enter fun hUnit => hi (h.eq_root hUnit)]

/-- **All of a program sees the same fields.** -/
theorem fields_envAt (hi : i ≠ arena.root) :
    (arena.envAt i).fields = (arena.enter {} arena.root).fields := by
  induction hDepth : arena.depth i using Nat.strongRecOn generalizing i with
  | ind depth ih =>
      obtain ⟨p, hParent⟩ := h.exists_parent hi
      have hParts : ∀ c ∈ (arena.node p).boundParts.takeWhile (· ≠ i), ∀ env,
          (arena.leave env c).fields = env.fields := by
        intro c hc env
        have hPart := (List.takeWhile_sublist _).subset hc
        exact h.fields_leave
          (ne_root_of_mem_children ((Node.boundParts_sublist _).subset hPart)) env
      rw [envAt_of_parent hParent, fields_foldl hParts]
      by_cases hp : p = arena.root
      · rw [hp, envAt_of_parent_none arena.parent_root]
      · rw [fields_enter fun hUnit => hp (h.eq_root hUnit)]
        exact ih _ (hDepth ▸ depth_lt_of_parent hParent) hp rfl

end IsProgram

end Arena

/-! ## Keys -/

section Keys

variable {arena : Arena} {oracle : Oracle arena.size} {a receiver : arena.Id} {member : String}

theorem key?_identifier {name : String}
    (hNode : arena.node (arena.stripParens a) = .identifier name) :
    key? arena oracle a = (oracle.symbolOf (arena.stripParens a)).map .symbol := by
  rw [key?, hNode]

theorem key?_this (hNode : arena.node (arena.stripParens a) = .this) :
    key? arena oracle a = some .this := by
  rw [key?, hNode]

theorem key?_memberAccess
    (hNode : arena.node (arena.stripParens a) = .memberAccess receiver member) :
    key? arena oracle a =
      ((if arena.isThis receiver then oracle.symbolOf (arena.stripParens a) else none).map
          .symbol <|>
        (key? arena oracle receiver).map (.member · member)) := by
  rw [key?, hNode]
  simp only
  split
  · next hSymbol => simp [hSymbol]
  · next hNone => simp [hNone]

/-- What has a symbol as its key: a name, or a field of the enclosing object. -/
theorem of_key?_eq_symbol {symbol : String} (h : key? arena oracle a = some (.symbol symbol)) :
    oracle.symbolOf (arena.stripParens a) = some symbol ∧
      ((∃ name, arena.node (arena.stripParens a) = .identifier name) ∨
        ∃ receiver member, arena.node (arena.stripParens a) = .memberAccess receiver member ∧
          arena.isThis receiver = true) := by
  cases hNode : arena.node (arena.stripParens a) with
  | identifier name =>
      rw [key?_identifier hNode] at h
      exact ⟨by simpa using h, .inl ⟨name, rfl⟩⟩
  | memberAccess receiver member =>
      rw [key?_memberAccess hNode] at h
      cases hThis : arena.isThis receiver with
      | false => simp [hThis] at h
      | true =>
          cases hSymbol : oracle.symbolOf (arena.stripParens a) with
          | none => simp [hThis, hSymbol] at h
          | some other =>
              have hEq : other = symbol := by simpa [hThis, hSymbol] using h
              exact ⟨congrArg some hEq, .inr ⟨receiver, member, rfl, hThis⟩⟩
  | _ => rw [key?, hNode] at h; simp at h

theorem of_key?_eq_this (h : key? arena oracle a = some .this) :
    arena.node (arena.stripParens a) = .this := by
  cases hNode : arena.node (arena.stripParens a) with
  | this => rfl
  | identifier name => simp [key?_identifier hNode] at h
  | memberAccess receiver member => simp [key?_memberAccess hNode, Option.map_eq_some_iff] at h
  | _ => rw [key?, hNode] at h; simp at h

theorem of_key?_eq_member {of : Key} (h : key? arena oracle a = some (.member of member)) :
    ∃ receiver, arena.node (arena.stripParens a) = .memberAccess receiver member ∧
      key? arena oracle receiver = some of := by
  cases hNode : arena.node (arena.stripParens a) with
  | identifier name => simp [key?_identifier hNode] at h
  | memberAccess receiver name =>
      have hBoth : key? arena oracle receiver = some of ∧ name = member := by
        rw [key?_memberAccess hNode] at h
        generalize (if arena.isThis receiver then oracle.symbolOf _ else none) = symbol at h
        cases symbol with
        | none => simpa using h
        | some symbol => simp at h
      exact ⟨receiver, by rw [hBoth.2], hBoth.1⟩
  | _ => rw [key?, hNode] at h; simp at h

theorem key?_eq_this_iff : key? arena oracle a = some .this ↔ arena.isThis a = true := by
  constructor
  · intro h
    rw [Arena.isThis, of_key?_eq_this h]
  · intro h
    unfold Arena.isThis at h
    split at h
    · next hNode => exact key?_this hNode
    · cases h

theorem isThis_of_key?_eq_symbol {symbol : String}
    (hNode : arena.node (arena.stripParens a) = .memberAccess receiver member)
    (h : key? arena oracle a = some (.symbol symbol)) : arena.isThis receiver = true := by
  obtain ⟨-, ⟨name, hName⟩ | ⟨r, m, hr, hThis⟩⟩ := of_key?_eq_symbol h
  · simp [hNode] at hName
  · obtain ⟨rfl, rfl⟩ := Node.memberAccess.inj (hNode.symm.trans hr)
    exact hThis

/-- A member of anything but the enclosing object has its key from its receiver. -/
theorem key?_eq_member {of : Key}
    (hNode : arena.node (arena.stripParens a) = .memberAccess receiver member)
    (h : key? arena oracle receiver = some of) (hOf : of ≠ .this) :
    key? arena oracle a = some (.member of member) := by
  have hThis : arena.isThis receiver = false := Bool.eq_false_iff.2 fun hThis =>
    hOf (Option.some.inj (h.symm.trans (key?_eq_this_iff.2 hThis)))
  rw [key?_memberAccess hNode, hThis, h]
  rfl

/-- Members that are not both of the enclosing object have the same key exactly if they have the
same name and their receivers have the same key. -/
theorem key?_member_eq_iff {b receiver' : arena.Id} {member' : String}
    (hNode : arena.node (arena.stripParens a) = .memberAccess receiver member)
    (hNode' : arena.node (arena.stripParens b) = .memberAccess receiver' member')
    (hThis : ¬ (arena.isThis receiver = true ∧ arena.isThis receiver' = true)) :
    (∃ key, key? arena oracle a = some key ∧ key? arena oracle b = some key) ↔
      member = member' ∧
        ∃ key, key? arena oracle receiver = some key ∧ key? arena oracle receiver' = some key := by
  constructor
  · rintro ⟨key, hKey, hKey'⟩
    cases key with
    | symbol symbol =>
        have hFirst := isThis_of_key?_eq_symbol hNode hKey
        exact absurd ⟨hFirst, isThis_of_key?_eq_symbol hNode' hKey'⟩ hThis
    | this => exact absurd (of_key?_eq_this hKey) (by simp [hNode])
    | member of name =>
        obtain ⟨r, hr, hOf⟩ := of_key?_eq_member hKey
        obtain ⟨r', hr', hOf'⟩ := of_key?_eq_member hKey'
        obtain ⟨rfl, rfl⟩ := Node.memberAccess.inj (hNode.symm.trans hr)
        obtain ⟨rfl, rfl⟩ := Node.memberAccess.inj (hNode'.symm.trans hr')
        exact ⟨rfl, of, hOf, hOf'⟩
  · rintro ⟨rfl, key, hKey, hKey'⟩
    have hNot : key ≠ .this := by
      rintro rfl
      exact hThis ⟨key?_eq_this_iff.1 hKey, key?_eq_this_iff.1 hKey'⟩
    exact ⟨.member key member, key?_eq_member hNode hKey hNot, key?_eq_member hNode' hKey' hNot⟩

/-- A name has the same key as a member exactly if that is a field of the enclosing object and both
have the same symbol. -/
theorem key?_name_eq_field_iff {b : arena.Id} {name : String}
    (hNode : arena.node (arena.stripParens a) = .identifier name)
    (hNode' : arena.node (arena.stripParens b) = .memberAccess receiver member) :
    arena.isThis receiver = true ∧
        oracle.sameSymbol (arena.stripParens a) (arena.stripParens b) = true ↔
      ∃ key, key? arena oracle a = some key ∧ key? arena oracle b = some key := by
  rw [Oracle.sameSymbol_iff, key?_identifier hNode]
  constructor
  · rintro ⟨hThis, symbol, hSymbol, hSymbol'⟩
    refine ⟨.symbol symbol, by simp [hSymbol], ?_⟩
    simp [key?_memberAccess hNode', hThis, hSymbol']
  · rintro ⟨key, hKey, hKey'⟩
    obtain ⟨symbol, hSymbol, rfl⟩ := Option.map_eq_some_iff.1 hKey
    exact ⟨isThis_of_key?_eq_symbol hNode' hKey', symbol, hSymbol, (of_key?_eq_symbol hKey').1⟩

end Keys

/-! ## Programs -/

section Programs

open Arena Binder

variable {tree : Tree} {config : Config} {imports : Imports} {a b receiver receiver' : tree.Id}
  {member member' : String}

/-- A field that is read through the enclosing object has the symbol that the unit gives to it,
wherever it is read. -/
theorem symbolOf_field (hProgram : tree.IsProgram) (ha : ¬ tree.IsCallee a)
    (hNode : tree.node (tree.stripParens a) = .memberAccess receiver member)
    (hThis : tree.isThis receiver = true) :
    (bindWith tree config imports).symbolOf (tree.stripParens a) =
      ((tree.enter {} tree.root).fields.find? member).map (symbolOf member) := by
  obtain ⟨hFollowed, hOracle⟩ := hasFollowed_run tree config imports
  have hRoot : tree.stripParens a ≠ tree.root := by
    intro hEq
    have hKind := hProgram.root_kind
    simp [← hEq, hNode, Node.kind] at hKind
  have hReads : ReadsField (tree.stripParens a) member :=
    ⟨⟨receiver, hNode, hThis⟩, fun call callee args hCall hEq =>
      ha ⟨call, callee, args, hCall, hEq⟩⟩
  rw [← hOracle, hFollowed.bound hProgram _ member (hProgram.connected _) hReads,
    hProgram.fields_envAt hRoot]

/-- Members of the enclosing object have the same key exactly if they have the same name. -/
theorem key?_field_eq_iff (hProgram : tree.IsProgram) (ha : ¬ tree.IsCallee a)
    (hb : ¬ tree.IsCallee b)
    (hNode : tree.node (tree.stripParens a) = .memberAccess receiver member)
    (hNode' : tree.node (tree.stripParens b) = .memberAccess receiver' member')
    (hThis : tree.isThis receiver = true) (hThis' : tree.isThis receiver' = true) :
    (∃ key, key? tree.toArena (bindWith tree config imports) a = some key ∧
      key? tree.toArena (bindWith tree config imports) b = some key) ↔ member = member' := by
  rw [key?_memberAccess hNode, key?_memberAccess hNode', hThis, hThis', if_pos rfl, if_pos rfl,
    symbolOf_field hProgram ha hNode hThis, symbolOf_field hProgram hb hNode' hThis',
    key?_eq_this_iff.2 hThis, key?_eq_this_iff.2 hThis']
  generalize (tree.enter {} tree.root).fields = fields
  constructor
  · rintro ⟨key, hKey, hKey'⟩
    have hEq := hKey.trans hKey'.symm
    cases hField : fields.find? member with
    | none =>
        cases hField' : fields.find? member' with
        | none => simpa [hField, hField'] using hEq
        | some d' => simp [hField, hField'] at hEq
    | some d =>
        cases hField' : fields.find? member' with
        | none => simp [hField, hField'] at hEq
        | some d' =>
            have hSymbols : symbolOf member d = symbolOf member' d' := by
              simpa [hField, hField'] using hEq
            exact (symbolOf_injective hSymbols).1
  · rintro rfl
    cases fields.find? member <;> simp

/-- **Two expressions read the same place exactly if they have the same key.** -/
theorem sameLocation_iff_key (hProgram : tree.IsProgram) :
    ¬ tree.IsCallee a → ¬ tree.IsCallee b →
    (sameLocation tree.toArena (bindWith tree config imports) a b = true ↔
      ∃ key, key? tree.toArena (bindWith tree config imports) a = some key ∧
        key? tree.toArena (bindWith tree config imports) b = some key) := by
  generalize hOracle : bindWith tree config imports = oracle
  fun_induction sameLocation tree.toArena oracle a b with
  | case1 a b _ _ ha hb =>
      intro _ _
      rw [Oracle.sameSymbol_iff, key?_identifier ha, key?_identifier hb]
      cases oracle.symbolOf (tree.stripParens a) <;>
        cases oracle.symbolOf (tree.stripParens b) <;> simp
  | case2 a b ha hb =>
      intro _ _
      simp [key?_this ha, key?_this hb]
  | case3 a b receiver member receiver' member' ha hb ih =>
      intro hCallee hCallee'
      have hReceivers := ih (not_isCallee_receiver ha) (not_isCallee_receiver hb)
      rw [Bool.and_eq_true, beq_iff_eq, hReceivers]
      by_cases hThis : tree.isThis receiver = true ∧ tree.isThis receiver' = true
      · subst hOracle
        rw [key?_field_eq_iff hProgram hCallee hCallee' ha hb hThis.1 hThis.2]
        exact and_iff_left ⟨.this, key?_eq_this_iff.2 hThis.1, key?_eq_this_iff.2 hThis.2⟩
      · exact (key?_member_eq_iff ha hb hThis).symm
  | case4 a b _ receiver _ ha hb =>
      intro _ _
      rw [Bool.and_eq_true]
      exact key?_name_eq_field_iff ha hb
  | case5 a b receiver _ _ ha hb =>
      intro _ _
      rw [Bool.and_eq_true, oracle.sameSymbol_comm, key?_name_eq_field_iff hb ha]
      exact exists_congr fun key => and_comm
  | case6 a b hNames hThis hMembers hMixed hMixed' =>
      intro _ _
      simp only [Bool.false_eq_true, false_iff]
      rintro ⟨key, hKey, hKey'⟩
      cases key with
      | symbol symbol =>
          obtain ⟨-, ⟨n, hn⟩ | ⟨r, m, hr, -⟩⟩ := of_key?_eq_symbol hKey
          · obtain ⟨-, ⟨n', hn'⟩ | ⟨r', m', hr', -⟩⟩ := of_key?_eq_symbol hKey'
            · exact hNames n n' hn hn'
            · exact hMixed n r' m' hn hr'
          · obtain ⟨-, ⟨n', hn'⟩ | ⟨r', m', hr', -⟩⟩ := of_key?_eq_symbol hKey'
            · exact hMixed' r m n' hr hn'
            · exact hMembers r m r' m' hr hr'
      | this => exact hThis (of_key?_eq_this hKey) (of_key?_eq_this hKey')
      | member of name =>
          obtain ⟨r, hr, -⟩ := of_key?_eq_member hKey
          obtain ⟨r', hr', -⟩ := of_key?_eq_member hKey'
          exact hMembers r name r' name hr hr'

/-- **Reading the same place is an identity of storage.** For every oracle it is symmetric, does not
depend on parentheses, and holds only between names, the enclosing object and members of these.  In
the tree of a text, with the oracle of the binder, and but for the callees of calls, it holds
exactly between places with the same key; hence it is transitive. -/
theorem same_location_is_an_identity :
    (∀ (arena : Arena) (oracle : Oracle arena.size) (a b : arena.Id),
      sameLocation arena oracle a b = sameLocation arena oracle b a ∧
      (∀ a' b', arena.stripParens a' = arena.stripParens a →
        arena.stripParens b' = arena.stripParens b →
        sameLocation arena oracle a' b' = sameLocation arena oracle a b) ∧
      (sameLocation arena oracle a b = true →
        arena.isPlace a = true ∧ arena.isPlace b = true)) ∧
    ∀ (resolve : String → String) (file source : String) (tree : Tree)
      (config : Config) (imports : Imports), Tree.ofSource resolve file source = .ok tree →
      (∀ a b, ¬ tree.IsCallee a → ¬ tree.IsCallee b →
        (sameLocation tree.toArena (bindWith tree config imports) a b = true ↔
          ∃ key, key? tree.toArena (bindWith tree config imports) a = some key ∧
            key? tree.toArena (bindWith tree config imports) b = some key)) ∧
      ∀ a b c, ¬ tree.IsCallee a → ¬ tree.IsCallee b → ¬ tree.IsCallee c →
        sameLocation tree.toArena (bindWith tree config imports) a b = true →
        sameLocation tree.toArena (bindWith tree config imports) b c = true →
        sameLocation tree.toArena (bindWith tree config imports) a c = true := by
  refine ⟨fun arena oracle a b => ⟨sameLocation_comm a b, fun a' b' ha hb =>
    sameLocation_of_stripParens ha hb, isPlace_of_sameLocation⟩, ?_⟩
  intro resolve file source tree config imports hTree
  have hProgram := Tree.isProgram_ofSource hTree
  refine ⟨fun a b => sameLocation_iff_key hProgram, fun a b c ha hb hc hab hbc => ?_⟩
  obtain ⟨key, hKey, hKey'⟩ := (sameLocation_iff_key hProgram ha hb).1 hab
  obtain ⟨other, hOther, hOther'⟩ := (sameLocation_iff_key hProgram hb hc).1 hbc
  obtain rfl := Option.some.inj (hKey'.symm.trans hOther)
  exact (sameLocation_iff_key hProgram ha hc).2 ⟨key, hKey, hOther'⟩

/-- The same member of a field, which is named in three ways. -/
theorem member_of_a_field_is_one_place :
    ∃ tree, Tree.ofSource id "field.cs" "int x; int f() { return this.x.y + x.y + (this.x).y; }" =
        .ok tree ∧
      ∃ a b c : tree.Id, a ≠ b ∧ b ≠ c ∧ a ≠ c ∧
        sameLocation tree.toArena (bindWith tree {} {}) a b = true ∧
        sameLocation tree.toArena (bindWith tree {} {}) b c = true ∧
        sameLocation tree.toArena (bindWith tree {} {}) a c = true := by
  have hEval : ((Tree.ofSource id "field.cs"
      "int x; int f() { return this.x.y + x.y + (this.x).y; }").toOption.any fun tree =>
        (tree.ids.all fun i => (tree.node i).kind ≠ .invocation) &&
        tree.ids.any fun a => tree.ids.any fun b => tree.ids.any fun c =>
          a ≠ b && b ≠ c && a ≠ c &&
          [a, b, c].all fun i => key? tree.toArena (bindWith tree {} {}) i =
            some (.member (.symbol "x@0") "y")) = true := by
    decide +kernel
  cases hTree : Tree.ofSource id "field.cs"
      "int x; int f() { return this.x.y + x.y + (this.x).y; }" with
  | error fault => simp [hTree, Except.toOption] at hEval
  | ok tree =>
      simp only [hTree, Except.toOption, Option.any_some, List.any_eq_true, Bool.and_eq_true,
        decide_eq_true_eq, List.all_eq_true, List.mem_cons, List.not_mem_nil, or_false,
        forall_eq_or_imp, forall_eq] at hEval
      obtain ⟨hCalls, a, -, b, -, c, -, ⟨⟨hab, hbc⟩, hac⟩, ha, hb, hc⟩ := hEval
      have hCallee : ∀ i, ¬ tree.IsCallee i := by
        rintro i ⟨call, callee, args, hCall, -⟩
        exact hCalls call (by simp [Arena.ids]) (by rw [hCall]; rfl)
      obtain ⟨hKeys, hTrans⟩ := same_location_is_an_identity.2 id _ _ tree {} {} hTree
      have hFirst := (hKeys a b (hCallee a) (hCallee b)).2 ⟨_, ha, hb⟩
      have hSecond := (hKeys b c (hCallee b) (hCallee c)).2 ⟨_, hb, hc⟩
      exact ⟨tree, rfl, a, b, c, hab, hbc, hac, hFirst, hSecond,
        hTrans a b c (hCallee a) (hCallee b) (hCallee c) hFirst hSecond⟩

end Programs

end StateGuard
