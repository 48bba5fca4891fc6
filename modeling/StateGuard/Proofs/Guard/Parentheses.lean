import StateGuard.Proofs.Guard.Facts
import StateGuard.Proofs.Guard.Likeness
import StateGuard.Proofs.Syntax.Parentheses

/-!
# Conditions with parentheses inserted

A condition means the same with parentheses inserted.  Whatever recognizes a part of a condition takes
parentheses off where it looks at an expression, and compares nodes only where no pair can stand between
them.

## Main results

* `Parenthesized.likeness`: with parentheses inserted an expression looks like what it was.
* `Parenthesized.callTaking_core`: a lambda is handed to the same call.
* `Parenthesized.shape_core`, `Parenthesized.extract_core`: a condition has the same shape and facts.
-/

namespace StateGuard.Context

open Arena Arena.Insertion

/-- The value of an argument of a call is one of the parts of the call. -/
theorem mem_children_of_arg {ctx : Context} {i : ctx.Id} {call : ctx.MemberCall}
    (h : ctx.memberCall? i = some call) {arg : Argument ctx.Id} (hArg : arg ∈ call.args) :
    arg.value ∈ (ctx.tree.node i).children := by
  obtain ⟨callee, hNode, -⟩ := isWithin_callee_of_memberCall h
  rw [hNode]
  exact List.mem_cons_of_mem _ (List.mem_map_of_mem hArg)

/-- The second unit is the first one with parentheses inserted, each pair with the type of what it stands
around. -/
structure Parenthesized (A B : Context) extends Insertion A.tree.toArena B.tree.toArena where
  config_eq : B.config = A.config
  typeOf_copy : ∀ {p}, inserted p = false → B.oracle.typeOf p = A.oracle.typeOf (core p)
  typeOf_parens : ∀ {p inner}, inserted p = true → B.tree.node p = .parenthesized inner →
    B.oracle.typeOf p = B.oracle.typeOf inner
  sameSymbol_copy : ∀ {p q}, inserted p = false → inserted q = false →
    B.oracle.sameSymbol p q = A.oracle.sameSymbol (core p) (core q)

namespace Parenthesized

variable {A B : Context} (e : Parenthesized A B) {p q : B.Id}

/-- The call that a call is without the inserted parentheses. -/
def call (call : B.MemberCall) : A.MemberCall :=
  ⟨e.core call.invocation, e.core call.receiver, call.method, call.args.map (·.map e.core)⟩

/-- The read that a read is without the inserted parentheses. -/
def site (site : B.UseSite) : A.UseSite :=
  ⟨e.core site.node, site.member, e.core site.receiver, site.family, site.required⟩

/-! ## Expressions -/

theorem typeOf_core (p : B.Id) : A.oracle.typeOf (e.core p) = B.oracle.typeOf p := by
  induction p using induction_parts with
  | step p ih =>
      cases hp : e.inserted p with
      | false => exact (e.typeOf_copy hp).symm
      | true =>
          obtain ⟨inner, hNode, hCore⟩ := e.parens hp
          rw [← hCore, ih inner (by simp [hNode, Node.children]), e.typeOf_parens hp hNode]

/-- An argument is an out variable if it was, since no parentheses stand around one. -/
theorem isOutVariable_core (hp : e.inserted p = false) {callee : B.Id} {args : List (Argument B.Id)}
    (hNode : B.tree.node p = .invocation callee args) {arg : Argument B.Id} (hArg : arg ∈ args) :
    A.isOutVariable (e.core arg.value) = B.isOutVariable arg.value := by
  cases hValue : e.inserted arg.value with
  | false =>
      unfold isOutVariable
      rw [e.node_core hValue]
      cases B.tree.node arg.value <;> simp
  | true =>
      obtain ⟨inner, hInner, -⟩ := e.parens hValue
      have hKind : (A.tree.node (e.core arg.value)).kind ≠ .outVariable := by
        intro hOut
        simp [e.bare_argument hp hNode arg hArg (.inr hOut)] at hValue
      unfold isOutVariable
      rw [hInner]
      split
      · next hOut => simp [hOut, Node.kind] at hKind
      · rfl

/-- **With parentheses inserted an expression looks like what it was.** -/
def likeness : Likeness B A where
  map := e.core
  covers _ := True
  typesLike := e.config_eq ▸ .refl B.config
  covers_stripParens _ := trivial
  covers_part _ _ := trivial
  stripParens_map {p} _ := (e.core_stripParens p).symm
  node_map {p} _ := e.node_core (e.copy_stripParens p)
  typeOf_map {p} _ := e.typeOf_core p
  sameSymbol_map {p q} _ _ := (e.sameSymbol_copy (e.copy_stripParens p) (e.copy_stripParens q)).symm
  rest_map {p _ _} _ hNode := e.node_core (e.bare_rest (e.copy_stripParens p) hNode)
  isOutVariable_map {p _ _} _ hNode _ hArg := e.isOutVariable_core (e.copy_stripParens p) hNode hArg

theorem wrapperFamily_core (p : B.Id) :
    A.answer (A.wrapperFamily? (e.core p)) = B.answer (B.wrapperFamily? p) :=
  e.likeness.wrapperFamily_map trivial

theorem sameLocation_core (p q : B.Id) :
    A.sameLocation (e.core p) (e.core q) = B.sameLocation p q :=
  e.likeness.sameLocation_map trivial trivial

/-! ## Calls -/

/-- A call is a call of the same method on the same receiver. -/
theorem memberCall_core (hp : e.inserted p = false) :
    A.memberCall? (e.core p) = (B.memberCall? p).map e.call :=
  e.likeness.memberCall_map (e.node_core hp) fun _ _ _ => trivial

theorem memberCall_inserted (hp : e.inserted p = true) : B.memberCall? p = none := by
  obtain ⟨inner, hNode, -⟩ := e.parens hp
  simp [memberCall?, hNode]

/-- A lambda in inserted parentheses is no argument. -/
theorem callTaking_of_inserted (hp : e.inserted p = false)
    (hLambda : (B.tree.node p).kind = .lambda) (hq : e.inserted q = true)
    (hParent : B.tree.parent p = some q) : A.callTaking? (e.core p) = none := by
  rw [Option.eq_none_iff_forall_ne_some]
  intro taken hTaken
  simp only [callTaking?, Option.bind_eq_bind, Option.bind_eq_some_iff] at hTaken
  obtain ⟨j, -, call, hCall, found, hFound, -⟩ := hTaken
  obtain ⟨m, hm, rfl⟩ := e.exists_copy j
  rw [e.memberCall_core hm, Option.map_eq_some_iff] at hCall
  obtain ⟨call', hCall', rfl⟩ := hCall
  have hIs : found.1.value = e.core p := by simpa using List.find?_some hFound
  obtain ⟨arg, hArg, hSame⟩ :=
    List.mem_map.1 (List.fst_mem_of_mem_zipIdx (List.mem_of_find?_eq_some hFound))
  rw [← hSame] at hIs
  change e.core arg.value = e.core p at hIs
  -- the argument is bare, since it is a lambda, so it is the lambda itself
  obtain ⟨callee, hNode, -⟩ := isWithin_callee_of_memberCall hCall'
  have hKind : (A.tree.node (e.core arg.value)).kind = .lambda := by
    rw [hIs, e.node_core hp, Node.kind_map, hLambda]
  obtain rfl := e.copy_unique (e.bare_argument hm hNode arg hArg (.inl hKind)) hp hIs
  have hAbove := (B.tree.parent_eq_some_iff _ m).2 (mem_children_of_arg hCall' hArg)
  obtain rfl := Option.some.inj (hParent.symm.trans hAbove)
  simp [hq] at hm

/-- **A lambda is an argument of the same call, in the same position.** -/
theorem callTaking_core (hp : e.inserted p = false) (hLambda : (B.tree.node p).kind = .lambda) :
    A.callTaking? (e.core p) =
      (B.callTaking? p).map (Prod.map e.call (Prod.map (·.map e.core) id)) := by
  cases hParent : B.tree.parent p with
  | none => simp [callTaking?, hParent, parent_core_eq_none hParent]
  | some q =>
      cases hq : e.inserted q with
      | true =>
          rw [e.callTaking_of_inserted hp hLambda hq hParent]
          simp [callTaking?, hParent, e.memberCall_inserted hq]
      | false =>
          refine e.likeness.callTaking_map hParent (parent_core hq hParent) (e.memberCall_core hq) ?_
          intro call hCall arg hArg
          have hPart := (B.tree.parent_eq_some_iff p q).1 hParent
          exact ⟨eq_of_core_eq_of_parts hq (mem_children_of_arg hCall hArg) hPart, congrArg e.core⟩

/-! ## Conditions -/

/-- **A condition has the same shape.** -/
theorem shape_core (p : B.Id) :
    A.answer (A.shape (e.core p)) = (B.answer (B.shape p)).map e.core :=
  e.likeness.shape_map trivial

theorem factsAbout_core (p subject : B.Id) :
    A.answer (A.factsAbout (e.core p) (e.core subject)) =
      (B.answer (B.factsAbout p subject)).map (Fact.map e.core) := by
  simp only [factsAbout, Inquiry.answer_bind, Inquiry.answer_pure]
  refine (congrArg (List.filter _) (e.likeness.facts_map trivial)).trans ?_
  rw [List.filter_map]
  exact congrArg _ (List.filter_congr fun fact _ => e.sameLocation_core fact.subject subject)

/-- **A condition has the same facts, about any place and about all.** -/
theorem extract_core (p : B.Id) (hint : Option B.Id) :
    extract (e.core p) (hint.map e.core) = (extract p hint).map (Fact.map e.core) := by
  cases hint with
  | none => exact e.likeness.facts_map trivial
  | some subject => exact e.factsAbout_core p subject

end Parenthesized

end StateGuard.Context
