import StateGuard.Proofs.Syntax.Ancestry

/-!
# Sorts of parts

In a program the unit is the root, its members are methods and fields, parameters stand at the head
of methods and lambdas, and statements and expressions stand everywhere else.  `Node.IsSorted` says
so for one node and the kinds of its parts, and `Arena.IsProgram` for a whole arena without orphans.

## Main results

* `IsProgram.eq_root`: only the root is a unit.
* `IsProgram.parent_of_method`: methods are members of the unit.
* `IsProgram.mem_params_of_parameter`: parameters stand at the head of a method or lambda.
-/

namespace StateGuard

/-- The kinds of statements and expressions. -/
def NodeKind.isPhrase : NodeKind → Bool
  | .compilationUnit => false
  | .method => false
  | .parameter => false
  | _ => true

namespace Node

variable {ι : Type}

/-- The parameters of a method or lambda. -/
def params : Node ι → List ι
  | .method _ _ params _ _ => params
  | .lambda params _ _ => params
  | _ => []

/-- Every part of a node stands where its kind may stand. -/
def IsSorted (kind : ι → NodeKind) : Node ι → Prop
  | .compilationUnit members => ∀ c ∈ members, kind c = .method ∨ kind c = .localDeclaration
  | .method _ _ params body _ =>
    (∀ c ∈ params, kind c = .parameter) ∧ (kind body).isPhrase = true
  | .lambda params body _ => (∀ c ∈ params, kind c = .parameter) ∧ (kind body).isPhrase = true
  | node => ∀ c ∈ node.children, (kind c).isPhrase = true

variable {kind : ι → NodeKind} {node : Node ι} {c : ι}

theorem mem_children_of_mem_params (h : c ∈ node.params) : c ∈ node.children := by
  cases node <;> simp_all [params, children]

theorem IsSorted.kind_of_mem_params (h : node.IsSorted kind) (hc : c ∈ node.params) :
    kind c = .parameter := by
  cases node with
  | method | lambda => exact h.1 c hc
  | _ => simp [params] at hc

/-- A part is a member of a unit, a parameter, or a statement or expression. -/
theorem IsSorted.cases (h : node.IsSorted kind) (hc : c ∈ node.children) :
    (node.kind = .compilationUnit ∧ (kind c = .method ∨ kind c = .localDeclaration)) ∨
    (c ∈ node.params ∧ kind c = .parameter) ∨ (kind c).isPhrase = true := by
  cases node with
  | compilationUnit members => exact .inl ⟨rfl, h c hc⟩
  | method name returnType params body isAsync =>
      rcases List.mem_append.1 hc with hParam | hBody
      · exact .inr (.inl ⟨hParam, h.1 c hParam⟩)
      · exact .inr (.inr (List.mem_singleton.1 hBody ▸ h.2))
  | lambda params body isAsync =>
      rcases List.mem_append.1 hc with hParam | hBody
      · exact .inr (.inl ⟨hParam, h.1 c hParam⟩)
      · exact .inr (.inr (List.mem_singleton.1 hBody ▸ h.2))
  | _ => exact .inr (.inr (h c hc))

end Node

namespace Arena

variable {arena : Arena}

/-- Nothing is within a parameter but the parameter. -/
theorem eq_of_isWithin_parameter {i c : arena.Id} (hKind : (arena.node c).kind = .parameter)
    (h : arena.isWithin i c = true) : i = c := by
  rcases isWithin_iff_part.1 h with rfl | ⟨d, hd, -⟩
  · rfl
  · cases hNode : arena.node c <;> simp_all [Node.kind, Node.children]

/-- An arena that holds a program and nothing else. -/
structure IsProgram (arena : Arena) : Prop where
  root_kind : (arena.node arena.root).kind = .compilationUnit
  connected : ∀ i, arena.isWithin i arena.root = true
  sorted : ∀ i, (arena.node i).IsSorted fun c => (arena.node c).kind

namespace IsProgram

variable (h : arena.IsProgram) {i p : arena.Id}
include h

theorem exists_parent (hi : i ≠ arena.root) : ∃ p, arena.parent i = some p := by
  rcases isWithin_iff.1 (h.connected i) with rfl | ⟨p, hParent, -⟩
  · exact absurd rfl hi
  · exact ⟨p, hParent⟩

theorem root_mem_ancestors (hi : i ≠ arena.root) : arena.root ∈ arena.ancestors i :=
  mem_ancestors_iff.2 ⟨hi, h.connected i⟩

/-- What a node may be, by its parent. -/
theorem cases_of_parent (hParent : arena.parent i = some p) :
    ((arena.node p).kind = .compilationUnit ∧
      ((arena.node i).kind = .method ∨ (arena.node i).kind = .localDeclaration)) ∨
    (i ∈ (arena.node p).params ∧ (arena.node i).kind = .parameter) ∨
      (arena.node i).kind.isPhrase = true :=
  (h.sorted p).cases ((arena.parent_eq_some_iff i p).1 hParent)

/-- Only the root is a unit. -/
theorem eq_root (hUnit : (arena.node i).kind = .compilationUnit) : i = arena.root := by
  by_contra hi
  obtain ⟨p, hParent⟩ := h.exists_parent hi
  rcases h.cases_of_parent hParent with ⟨-, hKind | hKind⟩ | ⟨-, hKind⟩ | hKind
  all_goals simp [hUnit, NodeKind.isPhrase] at hKind

/-- Methods are members of the unit. -/
theorem parent_of_method (hMethod : (arena.node i).kind = .method) :
    arena.parent i = some arena.root := by
  have hi : i ≠ arena.root := by
    rintro rfl
    simp [h.root_kind] at hMethod
  obtain ⟨p, hParent⟩ := h.exists_parent hi
  rcases h.cases_of_parent hParent with ⟨hUnit, -⟩ | ⟨-, hKind⟩ | hKind
  · rw [hParent, h.eq_root hUnit]
  · simp [hMethod] at hKind
  · simp [hMethod, NodeKind.isPhrase] at hKind

/-- Parameters stand at the head of a method or lambda. -/
theorem mem_params_of_parameter (hParameter : (arena.node i).kind = .parameter) :
    ∃ p, arena.parent i = some p ∧ i ∈ (arena.node p).params := by
  have hi : i ≠ arena.root := by
    rintro rfl
    simp [h.root_kind] at hParameter
  obtain ⟨p, hParent⟩ := h.exists_parent hi
  rcases h.cases_of_parent hParent with ⟨-, hKind | hKind⟩ | ⟨hParam, -⟩ | hKind
  · simp [hParameter] at hKind
  · simp [hParameter] at hKind
  · exact ⟨p, hParent, hParam⟩
  · simp [hParameter, NodeKind.isPhrase] at hKind

/-- The members of the unit are methods and fields. -/
theorem kind_of_member (hParent : arena.parent i = some arena.root) :
    (arena.node i).kind = .method ∨ (arena.node i).kind = .localDeclaration := by
  have hSorted := h.sorted arena.root
  have hMem := (arena.parent_eq_some_iff i arena.root).1 hParent
  have hKind := h.root_kind
  cases hNode : arena.node arena.root with
  | compilationUnit members =>
      rw [hNode] at hSorted hMem
      exact hSorted i hMem
  | _ => simp [hNode, Node.kind] at hKind

end IsProgram

end Arena

end StateGuard
