import StateGuard.Proofs.Syntax.Embedding
import StateGuard.Proofs.Syntax.Sorts

/-!
# Units that differ in one body

Two programs have the same members except for the body of one method.  The counterpart of a node is
found on the same way down: it is as far to the right in the counterpart of its parent as the node is
in its parent.  Outside of the two bodies a node and its counterpart are the same construct, so the
counterparts embed one program in the other.

## Main results

* `node_counterpart_of_map_eq`: the counterparts of the parts of a node.
* `DiffersInBody.node_counterpart`: a node outside of the body and its counterpart.
* `DiffersInBody.embedding`: the embedding of one program in the other.
-/

namespace StateGuard

/-! ## Nodes of one shape -/

section Shapes

variable {ι κ μ : Type}

theorem map_toList_eq_iff {a : Option ι} {b : Option κ} {f : ι → μ} {g : κ → μ} :
    a.toList.map f = b.toList.map g ↔ a.map f = b.map g := by
  cases a <;> cases b <;> simp

/-- Nodes that become equal when something replaces their parts are the same up to their parts. -/
theorem Node.isLike_of_map_eq {node : Node ι} {other : Node κ} {f : ι → μ} {g : κ → μ}
    (h : node.map f = other.map g) : node.IsLike other := by
  have hKind : node.kind = other.kind := by rw [← kind_map f node, h, kind_map]
  intro ν f' g' hParts
  cases node with
  | invocation callee args =>
      cases other with
      | invocation callee' args' =>
          simp only [map_invocation, invocation.injEq, children, List.map_cons, List.map_map,
            List.cons.injEq] at h hParts ⊢
          have hNames : args.map (·.name) = args'.map (·.name) := by
            simpa [Argument.map, Function.comp_def] using congrArg (List.map (·.name)) h.2
          exact ⟨hParts.1, map_arguments_eq hNames hParts.2⟩
      | _ => cases hKind
  | method name returnType params body isAsync =>
      cases other with
      | method name' returnType' params' body' isAsync' =>
          simp only [map_method, method.injEq, children, List.map_append,
            List.map_singleton] at h hParts ⊢
          obtain ⟨hParams, hBody⟩ := List.append_inj' hParts rfl
          exact ⟨h.1, h.2.1, hParams, List.singleton_inj.1 hBody, h.2.2.2.2⟩
      | _ => cases hKind
  | _ => cases other <;> first
      | (cases hKind; done)
      | simp_all [children, map_toList_eq_iff]

end Shapes

namespace Arena

variable {A B : Arena}

/-! ## Counterparts -/

/-- The node that is reached in another tree on the same way down. -/
def counterpart (A B : Arena) (i : A.Id) : B.Id :=
  match _h : A.parent i with
  | none => B.root
  | some p => ((B.node (counterpart A B p)).children[(A.node p).children.idxOf i]?).getD B.root
termination_by A.depth i
decreasing_by exact depth_lt_of_parent _h

theorem counterpart_of_parent {i p : A.Id} (h : A.parent i = some p) : counterpart A B i =
    ((B.node (counterpart A B p)).children[(A.node p).children.idxOf i]?).getD B.root := by
  rw [counterpart]
  split
  · next hNone => simp [h] at hNone
  · next p' hParent =>
      obtain rfl : p = p' := Option.some.inj (h.symm.trans hParent)
      rfl

theorem counterpart_root : counterpart A B A.root = B.root := by
  rw [counterpart]
  split
  · rfl
  · next p hParent => simp [A.parent_root] at hParent

/-- If a node and its counterpart are the same up to their parts, the parts of the one are the
counterparts of the parts of the other. -/
theorem node_counterpart_of_map_eq {μ : Type} {f : A.Id → μ} {g : B.Id → μ} {p : A.Id}
    (h : (A.node p).map f = (B.node (counterpart A B p)).map g) :
    B.node (counterpart A B p) = (A.node p).map (counterpart A B) ∧
      ∀ c ∈ (A.node p).children, g (counterpart A B c) = f c := by
  have hParts : (A.node p).children.map f = (B.node (counterpart A B p)).children.map g := by
    rw [← Node.children_map, h, Node.children_map]
  have hLength : (A.node p).children.length = (B.node (counterpart A B p)).children.length := by
    simpa using congrArg List.length hParts
  have hSame : (A.node p).children.map (counterpart A B) =
      (B.node (counterpart A B p)).children := by
    refine List.ext_getElem (by rw [List.length_map, hLength]) fun k hk hk' => ?_
    have hk : k < (A.node p).children.length := by simpa using hk
    have hParent : A.parent (A.node p).children[k] = some p :=
      (A.parent_eq_some_iff _ p).2 (List.getElem_mem hk)
    rw [List.getElem_map, counterpart_of_parent hParent, (A.children_nodup p).idxOf_getElem k hk,
      List.getElem?_eq_getElem hk', Option.getD_some]
  constructor
  · have hNode := Node.isLike_of_map_eq h _ (counterpart A B) id (by rw [hSame, List.map_id])
    rw [hNode]
    exact (Node.mapChildren_self _).symm
  · rw [← hSame, List.map_map, List.map_inj_left] at hParts
    exact fun c hc => (hParts c hc).symm

/-- Within parts with the same term, all nodes have the same term as their counterparts. -/
theorem term_counterpart {top i : A.Id} (hTop : B.term (counterpart A B top) = A.term top)
    (h : A.isWithin i top = true) : B.term (counterpart A B i) = A.term i := by
  induction i using induction_parent with
  | step i ih =>
      rcases isWithin_iff.1 h with rfl | ⟨p, hParent, hAbove⟩
      · exact hTop
      · have hTerm := ih p hParent hAbove
        rw [term_eq rfl, term_eq rfl, Term.mk.injEq] at hTerm
        exact (node_counterpart_of_map_eq hTerm.1.symm).2 i ((A.parent_eq_some_iff i p).1 hParent)

theorem node_counterpart_of_term {i : A.Id} (h : B.term (counterpart A B i) = A.term i) :
    B.node (counterpart A B i) = (A.node i).map (counterpart A B) := by
  rw [term_eq rfl, term_eq rfl, Term.mk.injEq] at h
  exact (node_counterpart_of_map_eq h.1.symm).1

/-! ## One body -/

/-- Two units have the same members except for the body of one method. -/
structure DiffersInBody (A B : Arena) (method body : A.Id) (method' body' : B.Id) : Prop where
  members : ∃ before after before' after',
    A.node A.root = .compilationUnit (before ++ method :: after) ∧
    B.node B.root = .compilationUnit (before' ++ method' :: after') ∧
    before'.map B.term = before.map A.term ∧ after'.map B.term = after.map A.term
  methods : ∃ name returnType params params' isAsync,
    A.node method = .method name returnType params body isAsync ∧
    B.node method' = .method name returnType params' body' isAsync ∧
    params'.map B.term = params.map A.term

namespace DiffersInBody

variable {method body : A.Id} {method' body' : B.Id}

theorem symm (h : DiffersInBody A B method body method' body') :
    DiffersInBody B A method' body' method body := by
  obtain ⟨⟨before, after, before', after', hUnit, hUnit', hBefore, hAfter⟩, name, returnType, params,
    params', isAsync, hMethod, hMethod', hParams⟩ := h
  exact ⟨⟨before', after', before, after, hUnit', hUnit, hBefore.symm, hAfter.symm⟩, name,
    returnType, params', params, isAsync, hMethod', hMethod, hParams.symm⟩

variable (h : DiffersInBody A B method body method' body')
include h

theorem parent_method : A.parent method = some A.root := by
  obtain ⟨before, after, before', after', hUnit, -⟩ := h.members
  rw [A.parent_eq_some_iff, hUnit]
  simp [Node.children]

theorem parent_body : A.parent body = some method := by
  obtain ⟨name, returnType, params, params', isAsync, hMethod, -⟩ := h.methods
  rw [A.parent_eq_some_iff, hMethod]
  simp [Node.children]

theorem kind_method : (A.node method).kind = .method := by
  obtain ⟨name, returnType, params, params', isAsync, hMethod, -⟩ := h.methods
  rw [hMethod]
  rfl

/-- The members of one unit are the counterparts of the members of the other; all but the two methods
have the same terms. -/
theorem counterpart_members : B.node B.root = (A.node A.root).map (counterpart A B) ∧
    counterpart A B method = method' ∧ ∀ m ∈ (A.node A.root).children, m ≠ method →
      B.term (counterpart A B m) = A.term m := by
  obtain ⟨before, after, before', after', hUnit, hUnit', hBefore, hAfter⟩ := h.members
  have hLength : before'.length = before.length := by simpa using congrArg List.length hBefore
  have hLength' : after'.length = after.length := by simpa using congrArg List.length hAfter
  have hShape : (A.node A.root).map (fun _ => ()) =
      (B.node (counterpart A B A.root)).map fun _ => () := by
    rw [counterpart_root, hUnit, hUnit', Node.map_compilationUnit, Node.map_compilationUnit]
    simp [List.map_const', hLength, hLength']
  have hRoot := (node_counterpart_of_map_eq hShape).1
  rw [counterpart_root] at hRoot
  refine ⟨hRoot, ?_⟩
  rw [hUnit, hUnit', Node.map_compilationUnit, Node.compilationUnit.injEq, List.map_append,
    List.map_cons] at hRoot
  obtain ⟨rfl, hRest⟩ := List.append_inj hRoot (by simp [hLength])
  obtain ⟨rfl, rfl⟩ := List.cons.inj hRest
  refine ⟨rfl, ?_⟩
  rw [List.map_map, List.map_inj_left] at hBefore hAfter
  intro m hm hNe
  rw [hUnit] at hm
  rcases List.mem_append.1 hm with hm | hm
  · exact hBefore m hm
  · exact hAfter m ((List.mem_cons.1 hm).resolve_left hNe)

/-- The parts of one method are the counterparts of the parts of the other; all but the two bodies have
the same terms. -/
theorem counterpart_parts : B.node method' = (A.node method).map (counterpart A B) ∧
    counterpart A B body = body' ∧ ∀ c ∈ (A.node method).children, c ≠ body →
      B.term (counterpart A B c) = A.term c := by
  obtain ⟨name, returnType, params, params', isAsync, hMethod, hMethod', hParams⟩ := h.methods
  have hLength : params'.length = params.length := by simpa using congrArg List.length hParams
  have hShape : (A.node method).map (fun _ => ()) =
      (B.node (counterpart A B method)).map fun _ => () := by
    rw [h.counterpart_members.2.1, hMethod, hMethod', Node.map_method, Node.map_method]
    simp [List.map_const', hLength]
  have hNode := (node_counterpart_of_map_eq hShape).1
  rw [h.counterpart_members.2.1] at hNode
  refine ⟨hNode, ?_⟩
  rw [hMethod, hMethod', Node.map_method, Node.method.injEq] at hNode
  obtain ⟨-, -, rfl, rfl, -⟩ := hNode
  refine ⟨rfl, ?_⟩
  rw [List.map_map, List.map_inj_left] at hParams
  intro c hc hNe
  rw [hMethod] at hc
  rcases List.mem_append.1 hc with hc | hc
  · exact hParams c hc
  · exact absurd (List.mem_singleton.1 hc) hNe

/-- **A node outside of the body and its counterpart are the same construct.** -/
theorem node_counterpart (hA : A.IsProgram) {i : A.Id} (hi : A.isWithin i body = false) :
    B.node (counterpart A B i) = (A.node i).map (counterpart A B) := by
  rcases isWithin_iff_part.1 (hA.connected i) with rfl | ⟨m, hm, hMember⟩
  · rw [counterpart_root]
    exact h.counterpart_members.1
  by_cases hMethod : m = method
  · subst hMethod
    rcases isWithin_iff_part.1 hMember with rfl | ⟨c, hc, hPart⟩
    · rw [h.counterpart_members.2.1]
      exact h.counterpart_parts.1
    · have hBody : c ≠ body := by
        rintro rfl
        simp [hPart] at hi
      exact node_counterpart_of_term (term_counterpart (h.counterpart_parts.2.2 c hc hBody) hPart)
  · exact node_counterpart_of_term
      (term_counterpart (h.counterpart_members.2.2 m hm hMethod) hMember)

omit h in
theorem not_isWithin_of_parent {i p top : A.Id} (hParent : A.parent i = some p)
    (hi : A.isWithin i top = false) : A.isWithin p top = false := by
  rw [← Bool.not_eq_true]
  intro hInside
  simp [isWithin_of_parent hParent hInside] at hi

theorem parent_counterpart (hA : A.IsProgram) {i p : A.Id} (hi : A.isWithin i body = false)
    (hParent : A.parent i = some p) :
    B.parent (counterpart A B i) = some (counterpart A B p) := by
  rw [B.parent_eq_some_iff, h.node_counterpart hA (not_isWithin_of_parent hParent hi),
    Node.children_map]
  exact List.mem_map_of_mem ((A.parent_eq_some_iff i p).1 hParent)

/-- Different parts of a node outside of the body have different counterparts. -/
theorem eq_of_parts (hA : A.IsProgram) {c d p : A.Id} (hp : A.isWithin p body = false)
    (hc : A.parent c = some p) (hd : A.parent d = some p)
    (hEq : counterpart A B c = counterpart A B d) : c = d := by
  have hNodup := B.children_nodup (counterpart A B p)
  rw [h.node_counterpart hA hp, Node.children_map] at hNodup
  exact List.inj_on_of_nodup_map hNodup ((A.parent_eq_some_iff c p).1 hc)
    ((A.parent_eq_some_iff d p).1 hd) hEq

/-- **Different nodes outside of the body have different counterparts.** -/
theorem counterpart_injective (hA : A.IsProgram) {i j : A.Id} (hi : A.isWithin i body = false)
    (hj : A.isWithin j body = false) (hEq : counterpart A B i = counterpart A B j) : i = j := by
  have hNotRoot : ∀ {k}, A.isWithin k body = false → k ≠ A.root → counterpart A B k ≠ B.root := by
    intro k hk hNe
    obtain ⟨p, hParent⟩ := hA.exists_parent hNe
    exact ne_root_of_mem_children
      ((B.parent_eq_some_iff _ _).1 (h.parent_counterpart hA hk hParent))
  induction i using induction_parent generalizing j with
  | step i ih =>
      by_cases hiRoot : i = A.root
      · by_contra hNe
        refine hNotRoot hj (fun hjRoot => hNe (hiRoot.trans hjRoot.symm)) ?_
        rw [← hEq, hiRoot, counterpart_root]
      · have hjRoot : j ≠ A.root := by
          intro hjRoot
          rw [hjRoot, counterpart_root] at hEq
          exact hNotRoot hi hiRoot hEq
        obtain ⟨p, hp⟩ := hA.exists_parent hiRoot
        obtain ⟨q, hq⟩ := hA.exists_parent hjRoot
        have hiMap := h.parent_counterpart hA hi hp
        have hjMap := h.parent_counterpart hA hj hq
        rw [hEq] at hiMap
        have hAbove : counterpart A B p = counterpart A B q :=
          Option.some.inj (hiMap.symm.trans hjMap)
        have hpOutside := not_isWithin_of_parent hp hi
        obtain rfl := ih p hp hpOutside (not_isWithin_of_parent hq hj) hAbove
        exact h.eq_of_parts hA hpOutside hp hq hEq

theorem method_outside : A.isWithin method body = false := by
  rw [← Bool.not_eq_true]
  intro hInside
  have hBody := isWithin_of_parent h.parent_body (isWithin_self method)
  obtain rfl := isWithin_antisymm hInside hBody
  exact absurd (depth_lt_of_parent h.parent_body) (Nat.lt_irrefl _)

theorem counterpart_ne_body (hA : A.IsProgram) {i : A.Id} (hi : A.isWithin i body = false) :
    counterpart A B i ≠ body' := by
  intro hEq
  by_cases hRoot : i = A.root
  · rw [hRoot, counterpart_root] at hEq
    exact ne_root_of_mem_children ((B.parent_eq_some_iff _ _).1 h.symm.parent_body) hEq.symm
  · -- the node would be the body of the method that its parent is
    obtain ⟨p, hParent⟩ := hA.exists_parent hRoot
    have hMap := h.parent_counterpart hA hi hParent
    rw [hEq, h.symm.parent_body, ← h.counterpart_members.2.1] at hMap
    have hp := not_isWithin_of_parent hParent hi
    obtain rfl := h.counterpart_injective hA h.method_outside hp (Option.some.inj hMap)
    rw [← h.counterpart_parts.2.1] at hEq
    obtain rfl := h.eq_of_parts hA hp hParent h.parent_body hEq
    simp at hi

/-- The counterpart of a node outside of the one body is outside of the other. -/
theorem counterpart_outside (hA : A.IsProgram) {i : A.Id} (hi : A.isWithin i body = false) :
    B.isWithin (counterpart A B i) body' = false := by
  induction i using induction_parent with
  | step i ih =>
      rw [← Bool.not_eq_true, isWithin_iff, not_or]
      refine ⟨h.counterpart_ne_body hA hi, ?_⟩
      rintro ⟨q, hq, hInside⟩
      have hRoot : i ≠ A.root := by
        rintro rfl
        rw [counterpart_root, B.parent_eq_some_iff] at hq
        exact ne_root_of_mem_children hq rfl
      obtain ⟨p, hParent⟩ := hA.exists_parent hRoot
      have hOutside := ih p hParent (not_isWithin_of_parent hParent hi)
      obtain rfl := Option.some.inj ((h.parent_counterpart hA hi hParent).symm.trans hq)
      simp [hInside] at hOutside

/-- What contains a node of the body and is not in the body is the method or the unit. -/
theorem not_isInner_of_above (hA : A.IsProgram) {i j : A.Id} (hi : A.isWithin i body = false)
    (hj : A.isWithin j i = true) (hBody : A.isWithin j body = true) :
    (A.node i).kind.isInner = false := by
  have hAbove : A.isWithin body i = true := by
    rcases isWithin_total hj hBody with hInside | hAbove
    · simp [hInside] at hi
    · exact hAbove
  rcases isWithin_iff.1 hAbove with rfl | ⟨p, hp, hAbove⟩
  · simp at hi
  obtain rfl : p = method := Option.some.inj (hp.symm.trans h.parent_body)
  rcases isWithin_iff.1 hAbove with rfl | ⟨q, hq, hAbove⟩
  · rw [h.kind_method]
    rfl
  · have hRoot : q = A.root := Option.some.inj (hq.symm.trans h.parent_method)
    rw [hRoot] at hAbove
    rw [isWithin_antisymm (hA.connected i) hAbove, hA.root_kind]
    rfl

/-- **The embedding of one program in the other,** outside of the two bodies. -/
def embedding (hA : A.IsProgram) : Embedding A B where
  map := counterpart A B
  kept i := !A.isWithin i body
  image k := !B.isWithin k body'
  map_root := counterpart_root
  kept_root := by
    rw [Bool.not_eq_true', ← Bool.not_eq_true]
    intro hInside
    have hBody : body = A.root := isWithin_antisymm (hA.connected body) hInside
    exact ne_root_of_mem_children ((A.parent_eq_some_iff _ _).1 h.parent_body) hBody
  image_map {i} hi := by
    rw [Bool.not_eq_true'] at hi ⊢
    exact h.counterpart_outside hA hi
  injective {i j} hi hj hEq := by
    rw [Bool.not_eq_true'] at hi hj
    exact h.counterpart_injective hA hi hj hEq
  node_map {i} hi := by
    rw [Bool.not_eq_true'] at hi
    exact h.node_counterpart hA hi
  parent_map {i} hi := by
    rw [Bool.not_eq_true'] at hi
    by_cases hRoot : i = A.root
    · rw [hRoot, counterpart_root, A.parent_root, B.parent_root, Option.map_none]
    · obtain ⟨p, hParent⟩ := hA.exists_parent hRoot
      rw [hParent, Option.map_some]
      exact h.parent_counterpart hA hi hParent
  kept_parent {c p} hc hParent := by
    rw [Bool.not_eq_true'] at hc ⊢
    exact not_isWithin_of_parent hParent hc
  image_parent {c p} hc hParent := by
    rw [Bool.not_eq_true'] at hc ⊢
    exact not_isWithin_of_parent hParent hc
  kept_part {p c} hp hc := by
    rw [Bool.not_eq_true'] at hp
    have hParent := (A.parent_eq_some_iff c p).2 hc
    by_cases hBody : c = body
    · subst hBody
      obtain rfl : p = method := Option.some.inj (hParent.symm.trans h.parent_body)
      obtain ⟨name, returnType, params, params', isAsync, hMethod, -⟩ := h.methods
      rw [h.counterpart_parts.2.1]
      exact .inr ⟨by simp, name, returnType, params, isAsync, hMethod⟩
    · left
      rw [Bool.not_eq_true', ← Bool.not_eq_true, isWithin_iff, not_or]
      refine ⟨hBody, ?_⟩
      rintro ⟨q, hq, hInside⟩
      obtain rfl : p = q := Option.some.inj (hParent.symm.trans hq)
      simp [hp] at hInside
  kept_within {i j} hi hInner hj := by
    rw [Bool.not_eq_true'] at hi ⊢
    rw [← Bool.not_eq_true]
    intro hBody
    simp [h.not_isInner_of_above hA hi hj hBody] at hInner

end DiffersInBody

/-! ## From terms to nodes -/

/-- The members of a unit, given its term. -/
theorem exists_members_of_term {i : A.Id} {members : List Term}
    (h : A.term i = ⟨.compilationUnit members, .nowhere⟩) :
    ∃ ms, A.node i = .compilationUnit ms ∧ ms.map A.term = members := by
  rw [term_eq rfl, Term.mk.injEq] at h
  cases hNode : A.node i with
  | compilationUnit ms =>
      rw [hNode, Node.map_compilationUnit, Node.compilationUnit.injEq] at h
      exact ⟨ms, rfl, h.1⟩
  | _ => simp [hNode] at h

/-- The parameters and the body of a method, given its term. -/
theorem exists_parts_of_term {i : A.Id} {name : String} {returnType : Option TypeRef}
    {params : List Term} {body : Term} {isAsync : Bool}
    (h : A.term i = ⟨.method name returnType params body isAsync, .nowhere⟩) :
    ∃ ps b, A.node i = .method name returnType ps b isAsync ∧ ps.map A.term = params := by
  rw [term_eq rfl, Term.mk.injEq] at h
  cases hNode : A.node i with
  | method name' returnType' ps b isAsync' =>
      rw [hNode, Node.map_method, Node.method.injEq] at h
      obtain ⟨⟨rfl, rfl, hParams, -, rfl⟩, -⟩ := h
      exact ⟨ps, b, rfl, hParams⟩
  | _ => simp [hNode] at h

/-- The members of a unit around one of them, given the term of the unit. -/
theorem exists_around_of_term {before after : List Term} {member : Term}
    (h : A.term A.root = ⟨.compilationUnit (before ++ member :: after), .nowhere⟩) :
    ∃ bs m as, A.node A.root = .compilationUnit (bs ++ m :: as) ∧ bs.map A.term = before ∧
      A.term m = member ∧ as.map A.term = after := by
  obtain ⟨ms, hNode, hMembers⟩ := exists_members_of_term h
  obtain ⟨bs, rest, rfl, hBefore, hRest⟩ := List.map_eq_append_iff.1 hMembers
  obtain ⟨m, as, rfl, hMember, hAfter⟩ := List.map_eq_cons_iff.1 hRest
  exact ⟨bs, m, as, hNode, hBefore, hMember, hAfter⟩

/-- Units whose terms differ in one body differ in one body. -/
theorem exists_differsInBody {before after params : List Term} {body body' : Term} {name : String}
    {returnType : Option TypeRef} {isAsync : Bool}
    (h : A.term A.root = ⟨.compilationUnit (before ++
      ⟨.method name returnType params body isAsync, .nowhere⟩ :: after), .nowhere⟩)
    (h' : B.term B.root = ⟨.compilationUnit (before ++
      ⟨.method name returnType params body' isAsync, .nowhere⟩ :: after), .nowhere⟩) :
    ∃ method b method' b', (A.node A.root).children[before.length]? = some method ∧
      (B.node B.root).children[before.length]? = some method' ∧
      DiffersInBody A B method b method' b' := by
  obtain ⟨bs, m, as, hUnit, hBefore, hTerm, hAfter⟩ := exists_around_of_term h
  obtain ⟨bs', m', as', hUnit', hBefore', hTerm', hAfter'⟩ := exists_around_of_term h'
  obtain ⟨ps, b, hNode, hParams⟩ := exists_parts_of_term hTerm
  obtain ⟨ps', b', hNode', hParams'⟩ := exists_parts_of_term hTerm'
  refine ⟨m, b, m', b', ?_, ?_, ?_, ?_⟩
  · simp [hUnit, Node.children, ← hBefore]
  · simp [hUnit', Node.children, ← hBefore']
  · exact ⟨bs, as, bs', as', hUnit, hUnit', hBefore'.trans hBefore.symm,
      hAfter'.trans hAfter.symm⟩
  · exact ⟨name, returnType, ps, ps', isAsync, hNode, hNode', hParams'.trans hParams.symm⟩

end Arena

/-! ## Comparing terms -/

namespace Term

/-- Whether two terms are equal, node by node. -/
def isSame (t u : Term) : Bool :=
  decide (t.extent = u.extent ∧ t.node.map (fun _ => ()) = u.node.map fun _ => ()) &&
    (t.node.children.attach.zip u.node.children).all fun (c, d) => isSame c.1 d
termination_by sizeOf t
decreasing_by exact sizeOf_lt_of_mem_children c.2

theorem isSame_eq (t u : Term) : t.isSame u =
    (decide (t.extent = u.extent ∧ t.node.map (fun _ => ()) = u.node.map fun _ => ()) &&
      (t.node.children.zip u.node.children).all fun (c, d) => isSame c d) := by
  rw [isSame]
  conv_rhs => rw [← List.attach_map_subtype_val t.node.children, List.zip_map_left, List.all_map]
  rfl

theorem eq_of_all_zip {α : Type} {same : α → α → Bool} {l l' : List α}
    (hSame : ∀ a ∈ l, ∀ b, same a b = true → a = b) (hLength : l.length = l'.length)
    (h : (l.zip l').all (fun (a, b) => same a b) = true) : l = l' := by
  induction l generalizing l' with
  | nil => exact (List.length_eq_zero_iff.1 hLength.symm).symm
  | cons a l ih =>
      cases l' with
      | nil => simp at hLength
      | cons b l' =>
          rw [List.zip_cons_cons, List.all_cons, Bool.and_eq_true] at h
          have hFirst := hSame a List.mem_cons_self b h.1
          have hRest := ih (fun c hc => hSame c (List.mem_cons_of_mem a hc))
            (Nat.succ.inj hLength) h.2
          rw [hFirst, hRest]

theorem eq_of_isSame {t u : Term} (h : t.isSame u = true) : t = u := by
  induction t using induction_parts generalizing u with
  | step t ih =>
      rw [isSame_eq, Bool.and_eq_true, decide_eq_true_iff] at h
      obtain ⟨⟨hExtent, hShape⟩, hAll⟩ := h
      have hLength : t.node.children.length = u.node.children.length := by
        simpa [Node.children_map] using congrArg (fun node => node.children.length) hShape
      have hParts := eq_of_all_zip (fun c hc d => ih c hc) hLength hAll
      have hNode := Node.isLike_of_map_eq hShape _ id id (by rw [hParts])
      have hSelf : ∀ node : Node Term, node.map id = node := fun _ => Node.mapChildren_self _
      rw [hSelf, hSelf] at hNode
      obtain ⟨node, extent⟩ := t
      obtain ⟨node', extent'⟩ := u
      rw [Term.mk.injEq]
      exact ⟨hNode, hExtent⟩

end Term

end StateGuard
