import StateGuard.Proofs.Syntax.Forest
import StateGuard.Syntax.Term

/-!
# Laying out terms

Laying a term out gives every term in it a position, in postorder.  `IsLayout` relates the parts
laid out so far to the terms they come from: the references of a part, replaced by the terms at
these positions, are the parts of its own term.  Positions that are not yet referred to are on the
list of tops.  Placing one node keeps this, and so does laying out a whole term.

## Main results

* `Term.layOut_eq`: a term is laid out by laying out its parts and placing its node.
* `Term.IsLayout.place`, `Term.isAdded`: what one step and the layout of a whole term keep.
* `Term.isTree_toTree`: the nodes of the tree of a term are the terms in it, in postorder.
-/

namespace StateGuard

/-! ## Nodes up to their references -/

namespace Node

variable {ι κ μ : Type}

theorem sizeOf_lt_of_mem_children [SizeOf ι] {node : Node ι} {c : ι} (h : c ∈ node.children) :
    sizeOf c < sizeOf node := by
  have hList : ∀ xs : List ι, c ∈ xs → sizeOf c < sizeOf xs := fun _ => List.sizeOf_lt_of_mem
  cases node with
  | invocation callee args =>
      rcases List.mem_cons.1 h with rfl | h
      · simp +arith
      · obtain ⟨⟨name, value⟩, hArg, rfl⟩ := List.mem_map.1 h
        have hArgs := List.sizeOf_lt_of_mem hArg
        simp only [Node.invocation.sizeOf_spec, Argument.mk.sizeOf_spec] at hArgs ⊢
        omega
  | method name returnType params body isAsync =>
      rcases List.mem_append.1 h with h | h
      · have := hList params h
        simp only [Node.method.sizeOf_spec]
        omega
      · obtain rfl := List.mem_singleton.1 h
        simp +arith
  | lambda params body isAsync =>
      rcases List.mem_append.1 h with h | h
      · have := hList params h
        simp only [Node.lambda.sizeOf_spec]
        omega
      · obtain rfl := List.mem_singleton.1 h
        simp +arith
  | compilationUnit members => simpa +arith using Nat.le_of_lt (hList members h)
  | block statements => simpa +arith using Nat.le_of_lt (hList statements h)
  | localDeclaration name type init => cases init <;> simp_all [children]; omega
  | returnStatement value => cases value <;> simp_all [children]; omega
  | ifStatement condition thenBranch elseBranch =>
      cases elseBranch <;> simp_all [children] <;> grind
  | _ => simp_all [children] <;> grind

/-- Arguments with equal names become equal when equal things replace their values. -/
theorem map_arguments_eq {args : List (Argument ι)} {others : List (Argument κ)} {f : ι → μ}
    {g : κ → μ} (hNames : args.map (·.name) = others.map (·.name))
    (hValues : args.map (f ·.value) = others.map (g ·.value)) :
    (args.map fun a => (⟨a.name, f a.value⟩ : Argument μ)) =
      others.map fun a => ⟨a.name, g a.value⟩ := by
  induction args generalizing others with
  | nil => cases others <;> simp_all
  | cons arg args ih =>
      cases others with
      | nil => simp at hNames
      | cons other others =>
          simp only [List.map_cons, List.cons.injEq] at hNames hValues
          rw [List.map_cons, List.map_cons, hNames.1, hValues.1, ih hNames.2 hValues.2]

/-- Two nodes are the same up to the names of their references: they become equal whenever their
parts, one by one, are replaced by equal things. -/
def IsLike (node : Node ι) (other : Node κ) : Prop :=
  ∀ (μ : Type) (f : ι → μ) (g : κ → μ), node.children.map f = other.children.map g →
    node.map f = other.map g

@[simp]
theorem kind_map (f : ι → κ) (node : Node ι) : (node.map f).kind = node.kind := by
  cases node with
  | localDeclaration name type init => cases init <;> rfl
  | returnStatement value => cases value <;> rfl
  | ifStatement condition thenBranch elseBranch => cases elseBranch <;> rfl
  | _ => rfl

section Construct

variable {f : ι → κ} {node : Node ι}

/-- Only a name becomes a name when references are replaced. -/
theorem eq_identifier_of_map {name : String} (h : node.map f = .identifier name) :
    node = .identifier name := by
  have hKind : node.kind = .identifier := by rw [← kind_map f, h, kind]
  cases node with
  | identifier other => rw [identifier.inj h]
  | _ => cases hKind

theorem eq_this_of_map (h : node.map f = .this) : node = .this := by
  have hKind : node.kind = .this := by rw [← kind_map f, h, kind]
  cases node with
  | this => rfl
  | _ => cases hKind

/-- Only an access becomes an access when references are replaced. -/
theorem eq_memberAccess_of_map {receiver : κ} {member : String}
    (h : node.map f = .memberAccess receiver member) :
    ∃ inner, node = .memberAccess inner member ∧ f inner = receiver := by
  have hKind : node.kind = .memberAccess := by rw [← kind_map f, h, kind]
  cases node with
  | memberAccess inner other =>
      obtain ⟨rfl, rfl⟩ := memberAccess.inj h
      exact ⟨inner, rfl, rfl⟩
  | _ => cases hKind

theorem eq_parenthesized_of_map {inner : κ} (h : node.map f = .parenthesized inner) :
    ∃ bare, node = .parenthesized bare ∧ f bare = inner := by
  have hKind : node.kind = .parenthesized := by rw [← kind_map f, h, kind]
  cases node with
  | parenthesized bare => exact ⟨bare, rfl, parenthesized.inj h⟩
  | _ => cases hKind

end Construct

theorem map_map (f : ι → κ) (g : κ → μ) (node : Node ι) :
    (node.map f).map g = node.map (g ∘ f) := map_mapChildren ..

theorem map_congr {f g : ι → κ} {node : Node ι} (h : ∀ c ∈ node.children, f c = g c) :
    node.map f = node.map g :=
  congrArg node.mapChildren (funext fun c => funext fun hc => h c hc)

end Node

namespace Term

/-! ## A term and its parts -/

theorem sizeOf_lt_of_mem_children {t c : Term} (h : c ∈ t.node.children) : sizeOf c < sizeOf t := by
  obtain ⟨node, extent⟩ := t
  have hNode : sizeOf c < sizeOf node := Node.sizeOf_lt_of_mem_children h
  simp only [mk.sizeOf_spec]
  omega

/-- Induction from the parts of a term to the term. -/
@[elab_as_elim]
theorem induction_parts {motive : Term → Prop}
    (step : ∀ t, (∀ c ∈ t.node.children, motive c) → motive t) (t : Term) : motive t :=
  step t fun c _h => induction_parts step c
termination_by sizeOf t
decreasing_by exact sizeOf_lt_of_mem_children _h

/-- The terms in a term, the parts of each before it. -/
def postorder (t : Term) : List Term :=
  t.node.children.attach.flatMap (fun c => postorder c.1) ++ [t]
termination_by sizeOf t
decreasing_by exact sizeOf_lt_of_mem_children c.2

theorem postorder_eq (t : Term) : t.postorder = t.node.children.flatMap postorder ++ [t] := by
  rw [postorder, List.flatMap_def, List.flatMap_def]
  simp

/-! ## Layouts by parts -/

theorem layOutAll_append (ts us : List Term) (parts : Array Laid) :
    layOutAll (ts ++ us) parts =
      ((layOutAll ts parts).1 ++ (layOutAll us (layOutAll ts parts).2).1,
        (layOutAll us (layOutAll ts parts).2).2) := by
  induction ts generalizing parts with
  | nil => simp [layOutAll]
  | cons t ts ih => simp [layOutAll, ih]

theorem layOutAll_singleton (t : Term) (parts : Array Laid) :
    layOutAll [t] parts = ([(t.layOut parts).1], (t.layOut parts).2) := by
  simp [layOutAll]

theorem layOutOption_eq (t? : Option Term) (parts : Array Laid) :
    (layOutOption t? parts).1.toList = (layOutAll t?.toList parts).1 ∧
      (layOutOption t? parts).2 = (layOutAll t?.toList parts).2 := by
  cases t? <;> simp [layOutOption, layOutAll]

theorem layOutArguments_eq (args : List (Argument Term)) (parts : Array Laid) :
    (layOutArguments args parts).1.map (·.value) = (layOutAll (args.map (·.value)) parts).1 ∧
      (layOutArguments args parts).1.map (·.name) = args.map (·.name) ∧
      (layOutArguments args parts).2 = (layOutAll (args.map (·.value)) parts).2 := by
  induction args generalizing parts with
  | nil => simp [layOutArguments, layOutAll]
  | cons arg args ih => simp [layOutArguments, layOutAll, ih]

/-- **A term is laid out by its parts.** They come first, and then a node of the term's own kind that
refers to them. -/
theorem layOut_eq (t : Term) (parts : Array Laid) : ∃ node : Node Nat,
    t.layOut parts = place node t.extent (layOutAll t.node.children parts).2 ∧
      node.children = (layOutAll t.node.children parts).1 ∧ node.IsLike t.node := by
  obtain ⟨node, extent⟩ := t
  have hLists : ∀ ts (body : Term), layOutAll (ts ++ [body]) parts =
      ((layOutAll ts parts).1 ++ [(body.layOut (layOutAll ts parts).2).1],
        (body.layOut (layOutAll ts parts).2).2) := by
    intro ts body
    rw [layOutAll_append, layOutAll_singleton]
  cases node with
  | method name returnType params body isAsync =>
      refine ⟨.method name returnType (layOutAll params parts).1
        (body.layOut (layOutAll params parts).2).1 isAsync, ?_, ?_, ?_⟩
      · simp [layOut, Node.children, hLists]
      · simp [Node.children, hLists]
      · intro μ f g h
        simpa [Node.children, Node.map, Node.mapChildren] using h
  | lambda params body isAsync =>
      refine ⟨.lambda (layOutAll params parts).1 (body.layOut (layOutAll params parts).2).1 isAsync,
        ?_, ?_, ?_⟩
      · simp [layOut, Node.children, hLists]
      · simp [Node.children, hLists]
      · intro μ f g h
        simpa [Node.children, Node.map, Node.mapChildren] using h
  | invocation callee args =>
      obtain ⟨hValues, hNames, hParts⟩ := layOutArguments_eq args (callee.layOut parts).2
      refine ⟨.invocation (callee.layOut parts).1 (layOutArguments args (callee.layOut parts).2).1,
        ?_, ?_, ?_⟩
      · simp [layOut, Node.children, layOutAll, hParts]
      · simp [Node.children, layOutAll, hValues]
      · intro μ f g h
        simp only [Node.children, List.map_cons, List.map_map, List.cons.injEq] at h
        simpa [Node.map, Node.mapChildren, h.1] using Node.map_arguments_eq hNames h.2
  | localDeclaration name type init =>
      refine ⟨.localDeclaration name type (layOutOption init parts).1, ?_, ?_, ?_⟩
      · simp [layOut, Node.children, (layOutOption_eq init parts).2]
      · simp [Node.children, (layOutOption_eq init parts).1]
      · intro μ f g h
        cases init <;> simp_all [layOutOption, Node.children, Node.map, Node.mapChildren]
  | returnStatement value =>
      refine ⟨.returnStatement (layOutOption value parts).1, ?_, ?_, ?_⟩
      · simp [layOut, Node.children, (layOutOption_eq value parts).2]
      · simp [Node.children, (layOutOption_eq value parts).1]
      · intro μ f g h
        cases value <;> simp_all [layOutOption, Node.children, Node.map, Node.mapChildren]
  | ifStatement condition thenBranch elseBranch =>
      refine ⟨.ifStatement (condition.layOut parts).1 (thenBranch.layOut (condition.layOut parts).2).1
        (layOutOption elseBranch (thenBranch.layOut (condition.layOut parts).2).2).1, ?_, ?_, ?_⟩
      · simp [layOut, Node.children, layOutAll, (layOutOption_eq elseBranch _).2]
      · simp [Node.children, layOutAll, (layOutOption_eq elseBranch _).1]
      · intro μ f g h
        cases elseBranch <;> simp_all [layOutOption, Node.children, Node.map, Node.mapChildren]
  | _ =>
      refine ⟨_, by simp only [layOut, layOutAll, Node.children]; rfl, ?_, ?_⟩
      · simp [Node.children, layOutAll]
      · intro μ f g h
        simp_all [Node.children, Node.map, Node.mapChildren]

/-! ## Layouts -/

/-- The parts laid out so far, one for each of some terms.  The parts that no part refers to are
the tops; every other one is referred to once. -/
structure IsLayout (laid : Array Laid) (terms : List Term) (tops : List Nat) : Prop where
  size_eq : laid.size = terms.length
  stands : ∀ {k : Nat} {part : Laid} {t : Term}, laid[k]? = some part → terms[k]? = some t →
    part.extent = t.extent ∧ part.node.map (terms[·]?) = t.node.map some
  below : ∀ {k : Nat} {part : Laid}, laid[k]? = some part → ∀ c ∈ part.node.children, c < k
  covers : (laid.toList.flatMap (·.node.children) ++ tops).Perm (List.range laid.size)

theorem isLayout_empty : IsLayout #[] [] [] := by
  constructor <;> simp

section Layout

variable {laid : Array Laid} {terms : List Term} {tops : List Nat}

theorem IsLayout.lt_size (h : IsLayout laid terms tops) {c : Nat} (hc : c ∈ tops) :
    c < laid.size :=
  List.mem_range.1 (h.covers.mem_iff.1 (List.mem_append_right _ hc))

/-- **Placing one node** over some of the tops. -/
theorem IsLayout.place {t : Term} {node : Node Nat} (h : IsLayout laid terms (tops ++ node.children))
    (hNode : node.map (terms[·]?) = t.node.map some) :
    IsLayout (Term.place node t.extent laid).2 (terms ++ [t])
      (tops ++ [(Term.place node t.extent laid).1]) := by
  have hKeep : ∀ (other : Node Nat) (k : Nat), k ≤ terms.length → (∀ c ∈ other.children, c < k) →
      other.map ((terms ++ [t])[·]?) = other.map (terms[·]?) := by
    intro other k hk hBelow
    refine Node.map_congr fun c hc => ?_
    exact List.getElem?_append_left (Nat.lt_of_lt_of_le (hBelow c hc) hk)
  have hBelow : ∀ c ∈ node.children, c < laid.size := fun c hc =>
    h.lt_size (List.mem_append_right _ hc)
  have hSize := h.size_eq
  refine ⟨by simp [Term.place, hSize], ?_, ?_, ?_⟩
  · intro k part u hPart hTerm
    simp only [Term.place, Array.getElem?_push] at hPart
    split at hPart
    · next hLast =>
        obtain rfl := Option.some.inj hPart
        rw [hLast, hSize, List.getElem?_concat_length, Option.some.injEq] at hTerm
        subst hTerm
        exact ⟨rfl, (hKeep node laid.size (Nat.le_of_eq hSize) hBelow).trans hNode⟩
    · have hLt : k < terms.length := by
        rw [← hSize]
        exact (Array.getElem?_eq_some_iff.1 hPart).1
      rw [List.getElem?_append_left hLt] at hTerm
      obtain ⟨hExtent, hMap⟩ := h.stands hPart hTerm
      exact ⟨hExtent, (hKeep part.node k (Nat.le_of_lt hLt) (h.below hPart)).trans hMap⟩
  · intro k part hPart
    simp only [Term.place, Array.getElem?_push] at hPart
    split at hPart
    · next hLast =>
        obtain rfl := Option.some.inj hPart
        exact hLast ▸ hBelow
    · exact h.below hPart
  · have hCovers := h.covers
    simp only [Term.place, Array.toList_push, List.flatMap_append, List.flatMap_singleton,
      Array.size_push, List.range_succ]
    rw [← List.append_assoc]
    refine List.Perm.append_right _ (List.Perm.trans ?_ hCovers)
    rw [List.append_assoc]
    exact List.Perm.append_left _ List.perm_append_comm

/-- Laying out a term adds the terms in it and one top, where the term itself stands. -/
def IsAdded (t : Term) : Prop :=
  ∀ laid terms tops, IsLayout laid terms tops →
    IsLayout (t.layOut laid).2 (terms ++ t.postorder) (tops ++ [(t.layOut laid).1]) ∧
      (terms ++ t.postorder)[(t.layOut laid).1]? = some t

theorem IsLayout.layOutAll {ts : List Term} (hEach : ∀ t ∈ ts, IsAdded t)
    (h : IsLayout laid terms tops) :
    IsLayout (Term.layOutAll ts laid).2 (terms ++ ts.flatMap postorder)
      (tops ++ (Term.layOutAll ts laid).1) ∧
    (Term.layOutAll ts laid).1.map ((terms ++ ts.flatMap postorder)[·]?) = ts.map some := by
  induction ts generalizing laid terms tops with
  | nil => simpa [Term.layOutAll] using h
  | cons t ts ih =>
      obtain ⟨hFirst, hTop⟩ := hEach t List.mem_cons_self laid terms tops h
      obtain ⟨hRest, hTops⟩ := ih (fun u hu => hEach u (List.mem_cons_of_mem t hu)) hFirst
      simp only [Term.layOutAll, List.flatMap_cons, List.map_cons, ← List.append_assoc]
      refine ⟨by simpa using hRest, ?_⟩
      rw [hTops, List.getElem?_append_left (List.getElem?_eq_some_iff.1 hTop).1, hTop]

/-- **Laying out a whole term.** -/
theorem isAdded (t : Term) : IsAdded t := by
  induction t using induction_parts with
  | step t ih =>
      intro laid terms tops h
      obtain ⟨node, hLaid, hChildren, hLike⟩ := layOut_eq t laid
      obtain ⟨hParts, hTops⟩ := h.layOutAll ih
      rw [← hChildren] at hParts hTops
      rw [hLaid, postorder_eq, ← List.append_assoc]
      refine ⟨hParts.place (hLike _ _ _ hTops), ?_⟩
      simp [Term.place, hParts.size_eq]

end Layout

/-! ## Trees of terms -/

/-- The nodes of a tree are the terms in a term, in postorder. -/
structure IsTree (term : Term) (tree : Tree) : Prop where
  size_eq : tree.size = term.postorder.length
  root_eq : tree.root.val + 1 = tree.size
  /-- The references of a node, replaced by the terms they stand for, are the parts of its term. -/
  node : ∀ {i : tree.Id} {t : Term}, term.postorder[i.val]? = some t →
    (tree.node i).map (term.postorder[·.val]?) = t.node.map some
  below : ∀ {c p : tree.Id}, c ∈ (tree.node p).children → c < p
  exists_parent : ∀ {i : tree.Id}, i ≠ tree.root → ∃ p, tree.parent i = some p

theorem getElem?_table {arena : Arena} (i : arena.Id) :
    arena.table[i.val]? = some ((arena.node i).map Fin.val) := by
  simp [Arena.table]

/-- **The tree of a term** has the terms in it for nodes. -/
theorem isTree_toTree {term : Term} {file : String} {locate : Extent → Span} {tree : Tree}
    (h : term.toTree file locate = .ok tree) : term.IsTree tree := by
  obtain ⟨hLayout, hRoot⟩ := isAdded term #[] [] [] isLayout_empty
  obtain ⟨-, hRootEq, hTable, -⟩ := Tree.parts_ofParts h
  rw [Array.map_map] at hTable
  simp only [List.nil_append] at hLayout hRoot
  have hSize : tree.size = (term.layOut #[]).2.size := by simpa using congrArg Array.size hTable
  have hPart : ∀ i : tree.Id, ∃ part, (term.layOut #[]).2[i.val]? = some part ∧
      part.node = (tree.node i).map Fin.val := by
    intro i
    have hEntry := getElem?_table i
    rw [hTable, Array.getElem?_map, Option.map_eq_some_iff] at hEntry
    exact hEntry
  refine ⟨hSize.trans hLayout.size_eq, ?_, ?_, ?_, ?_⟩
  · rw [hRootEq]
    obtain ⟨node, hLaid, -, -⟩ := layOut_eq term #[]
    rw [hSize, hLaid]
    simp [place]
  · intro i t ht
    obtain ⟨part, hAt, hNode⟩ := hPart i
    have hMap := (hLayout.stands hAt ht).2
    rw [hNode, Node.map_map] at hMap
    exact hMap
  · intro c p hc
    obtain ⟨part, hAt, hNode⟩ := hPart p
    refine hLayout.below hAt c.val ?_
    rw [hNode, Node.children_map]
    exact List.mem_map_of_mem hc
  · intro i hi
    have hMem : i.val ∈ (term.layOut #[]).2.toList.flatMap (·.node.children) ++
        [(term.layOut #[]).1] :=
      hLayout.covers.mem_iff.2 (List.mem_range.2 (hSize ▸ i.isLt))
    rcases List.mem_append.1 hMem with hMem | hMem
    · obtain ⟨part, hIn, hChild⟩ := List.mem_flatMap.1 hMem
      obtain ⟨p, hAt⟩ := List.mem_iff_getElem?.1 hIn
      rw [Array.getElem?_toList] at hAt
      obtain ⟨hp, -⟩ := Array.getElem?_eq_some_iff.1 hAt
      obtain ⟨other, hOther, hNode⟩ := hPart ⟨p, hSize ▸ hp⟩
      obtain rfl : other = part := Option.some.inj (hOther.symm.trans hAt)
      rw [hNode, Node.children_map] at hChild
      obtain ⟨c, hc, hEq⟩ := List.mem_map.1 hChild
      obtain rfl : c = i := Fin.ext hEq
      exact ⟨_, (tree.parent_eq_some_iff c _).2 hc⟩
    · exact absurd (Fin.ext ((List.mem_singleton.1 hMem).trans hRootEq.symm)) hi

namespace IsTree

variable {term : Term} {tree : Tree}

/-- The term that a node of the tree stands for. -/
def subterm (h : term.IsTree tree) (i : tree.Id) : Term := term.postorder.get (i.cast h.size_eq)

variable (h : term.IsTree tree)
include h

theorem getElem?_subterm (i : tree.Id) : term.postorder[i.val]? = some (h.subterm i) := by
  simp [subterm]

/-- The root stands for the whole term. -/
theorem subterm_root : h.subterm tree.root = term := by
  have hLast : tree.root.val = (term.node.children.flatMap postorder).length := by
    have hSize := h.size_eq
    rw [← h.root_eq, postorder_eq] at hSize
    simpa using hSize
  have hTerm := h.getElem?_subterm tree.root
  rw [hLast, postorder_eq, List.getElem?_concat_length] at hTerm
  exact (Option.some.inj hTerm).symm

/-- Every node but the root stands for a term in one of the parts. -/
theorem subterm_mem_parts {i : tree.Id} (hi : i ≠ tree.root) :
    ∃ c ∈ term.node.children, h.subterm i ∈ c.postorder := by
  have hBelow : i.val < (term.node.children.flatMap postorder).length := by
    have hSize := h.size_eq
    have hRoot := h.root_eq
    have hNe : i.val ≠ tree.root.val := fun hEq => hi (Fin.ext hEq)
    have hLt := i.isLt
    rw [postorder_eq, List.length_append, List.length_singleton] at hSize
    omega
  have hAt := h.getElem?_subterm i
  rw [postorder_eq, List.getElem?_append_left hBelow] at hAt
  exact List.mem_flatMap.1 (List.mem_of_getElem? hAt)

/-- **A node, with its references replaced by what they stand for,** is the node of its term. -/
theorem map_subterm_node (i : tree.Id) : (tree.node i).map h.subterm = (h.subterm i).node := by
  have hNode := congrArg (Node.map (·.getD term)) (h.node (h.getElem?_subterm i))
  simp only [Node.map_map, h.getElem?_subterm, Function.comp_def, Option.getD_some] at hNode
  exact hNode.trans (Node.mapChildren_self _)

end IsTree

/-- The span of a node is the place of what its term covers. -/
theorem span_toTree {term : Term} {file : String} {locate : Extent → Span} {tree : Tree}
    (h : term.toTree file locate = .ok tree) (i : tree.Id) :
    tree.span i = locate ((isTree_toTree h).subterm i).extent := by
  obtain ⟨hLayout, -⟩ := isAdded term #[] [] [] isLayout_empty
  obtain ⟨-, -, -, hParts⟩ := Tree.parts_ofParts h
  have hAt : tree.parts[i.val]? = some ⟨(tree.node i).map Fin.val, tree.span i⟩ := by
    simp [Tree.parts, Arena.ids]
  rw [hParts, Array.getElem?_toList, Array.getElem?_map, Option.map_eq_some_iff] at hAt
  obtain ⟨part, hPart, hEq⟩ := hAt
  have hExtent := (hLayout.stands hPart ((isTree_toTree h).getElem?_subterm i)).1
  rw [← hExtent]
  exact (congrArg Part.span hEq).symm

end Term

end StateGuard
