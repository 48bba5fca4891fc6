import Mathlib.Data.List.Forall2
import StateGuard.Proofs.Semantics.Frame
import StateGuard.Proofs.Syntax.Embedding

/-!
# Agreeing binders

The binder keeps one stack of scopes and one table of fields for a whole unit, and its symbols name
nodes by their numbers.  The states of two binders on corresponding trees agree when they know the
same about a node and about its counterpart, up to the numbers in the symbols.  `Simulates` says of
two actions that they keep this.

## Main results

* `SameSymbol.eq_iff`: symbols are equal exactly if their counterparts are.
* `Simulates.bind`, `Simulates.inScope`: the rules for one action after another and for a scope.
-/

namespace StateGuard.Binder

open Arena

/-- A symbol says which name was declared and where. -/
theorem symbolOf_injective {n : Nat} {name name' : String} {d d' : Fin n}
    (h : symbolOf name d = symbolOf name' d') : name = name' ∧ d = d' := by
  have hDigits : ∀ k : Nat, '@' ∉ (toString k).toList := by
    intro k hMem
    rw [Nat.toString_eq_repr, Nat.toList_repr] at hMem
    have hDigit := Nat.isDigit_of_mem_toDigits (by decide) (by decide) hMem
    simp at hDigit
  have hLists : name.toList ++ '@' :: (toString d.val).toList =
      name'.toList ++ '@' :: (toString d'.val).toList := by
    simpa [symbolOf] using congrArg String.toList h
  -- the digits hold no further mark, so both texts break at the same place
  have hBoth : name.toList = name'.toList ∧
      (toString d.val).toList = (toString d'.val).toList := by
    rcases List.append_eq_append_iff.1 hLists with ⟨as, hName, hRest⟩ | ⟨as, hName, hRest⟩
    · cases as with
      | nil => simp_all
      | cons a as =>
          have hMem : '@' ∈ (toString d.val).toList := by
            rw [(List.cons.inj hRest).2]
            simp
          exact absurd hMem (hDigits d.val)
    · cases as with
      | nil => simp_all
      | cons a as =>
          have hMem : '@' ∈ (toString d'.val).toList := by
            rw [(List.cons.inj hRest).2]
            simp
          exact absurd hMem (hDigits d'.val)
  obtain ⟨hName, hNumber⟩ := hBoth
  simp only [Nat.toString_eq_repr, Nat.toList_repr] at hNumber
  refine ⟨String.toList_injective hName, Fin.ext ?_⟩
  rw [← Nat.ofDigitChars_ten_toDigits (n := d.val), hNumber, Nat.ofDigitChars_ten_toDigits]

variable {A B : Tree} (e : Embedding A.toArena B.toArena)

/-! ## States that agree -/

/-- The symbols of a declaration and of its counterpart. -/
def SameSymbol (s t : String) : Prop :=
  ∃ name d, e.kept d = true ∧ s = symbolOf name d ∧ t = symbolOf name (e.map d)

/-- What a name stands for, in the one tree and in the other. -/
structure SameBinding (b b' : Binding) : Prop where
  symbol : SameSymbol e b.symbol b'.symbol
  type : b'.type = b.type

/-- Scopes with the same names, which stand for the same. -/
def SameScope (scope scope' : Scope Binding) : Prop :=
  ∀ name, Option.Rel (SameBinding e) (scope.find? name) (scope'.find? name)

/-- The same is known about nodes and fields. -/
structure SameKnowledge (s : State A.size) (t : State B.size) : Prop where
  fields : SameScope e s.fields t.fields
  typeOf : ∀ i, e.kept i = true → t.oracle.typeOf (e.map i) = s.oracle.typeOf i
  symbolOf : ∀ i, e.kept i = true →
    Option.Rel (SameSymbol e) (s.oracle.symbolOf i) (t.oracle.symbolOf (e.map i))

/-- The same is known, and names stand for the same. -/
structure Agree (s : State A.size) (t : State B.size) : Prop extends SameKnowledge e s t where
  innermost : SameScope e s.scopes.innermost t.scopes.innermost
  outer : List.Forall₂ (SameScope e) s.scopes.outer t.scopes.outer

theorem sameSymbol_of_kept {d : A.Id} (name : String) (hd : e.kept d = true) :
    SameSymbol e (symbolOf name d) (symbolOf name (e.map d)) := ⟨name, d, hd, rfl, rfl⟩

variable {e}

/-- Symbols are equal exactly if their counterparts are. -/
theorem SameSymbol.eq_iff {s t s' t' : String} (h : SameSymbol e s t) (h' : SameSymbol e s' t') :
    t = t' ↔ s = s' := by
  obtain ⟨name, d, hd, rfl, rfl⟩ := h
  obtain ⟨name', d', hd', rfl, rfl⟩ := h'
  constructor
  · intro hEq
    obtain ⟨rfl, hMap⟩ := symbolOf_injective hEq
    rw [e.injective hd hd' hMap]
  · intro hEq
    obtain ⟨rfl, rfl⟩ := symbolOf_injective hEq
    rfl

theorem SameScope.nil : SameScope e [] [] := fun _ => .none

theorem SameScope.insert {scope scope' : Scope Binding} (h : SameScope e scope scope')
    (name : String) {b b' : Binding} (hBinding : SameBinding e b b') :
    SameScope e (scope.insert name b) (scope'.insert name b') := by
  intro other
  by_cases hName : other = name
  · subst hName
    rw [Scope.find?_insert_self, Scope.find?_insert_self]
    exact .some hBinding
  · rw [Scope.find?_insert_of_ne _ _ hName, Scope.find?_insert_of_ne _ _ hName]
    exact h other

/-- A name stands for the same in agreeing states. -/
theorem Agree.lookup {s : State A.size} {t : State B.size} (h : Agree e s t) (name : String) :
    Option.Rel (SameBinding e) (s.scopes.lookup name) (t.scopes.lookup name) := by
  unfold Scopes.lookup
  have hAll : List.Forall₂ (SameScope e) (s.scopes.innermost :: s.scopes.outer)
      (t.scopes.innermost :: t.scopes.outer) := .cons h.innermost h.outer
  generalize s.scopes.innermost :: s.scopes.outer = scopes at hAll
  generalize t.scopes.innermost :: t.scopes.outer = scopes' at hAll
  induction hAll with
  | nil => exact .none
  | cons hScope _ ih =>
      rw [List.findSome?_cons, List.findSome?_cons]
      have hFound := hScope name
      generalize Scope.find? _ name = found at hFound
      generalize Scope.find? _ name = found' at hFound
      cases hFound with
      | some hBinding => exact .some hBinding
      | none => exact ih

/-! ## Actions that do the same -/

/-- One action for each element of a list, whether or not it is known to be in the list. -/
theorem forM_attach {n : Nat} {ι : Type} (xs : List ι) (f : ι → Bind n PUnit) :
    (xs.attach.forM fun x => f x.1) = xs.forM f := by
  have hMap : (xs.attach.map Subtype.val).forM f = xs.attach.forM fun x => f x.1 := List.forM_map
  rw [← hMap, List.attach_map_subtype_val]

section Rules

variable {α β α' β' : Type} {R : α → β → Prop} {S : α' → β' → Prop}

/-- Two actions lead from agreeing states to related results and agreeing states. -/
def Simulates (e : Embedding A.toArena B.toArena) (R : α → β → Prop) (a : Bind A.size α)
    (b : Bind B.size β) : Prop :=
  ∀ s t, Agree e s t → R (a.run s).1 (b.run t).1 ∧ Agree e (a.run s).2 (b.run t).2

theorem Simulates.pure {x : α} {y : β} (h : R x y) : Simulates e R (pure x) (pure y) :=
  fun _ _ hAgree => ⟨h, hAgree⟩

/-- **One action after another.** -/
theorem Simulates.bind {a : Bind A.size α} {b : Bind B.size β} {f : α → Bind A.size α'}
    {g : β → Bind B.size β'} (hFirst : Simulates e R a b)
    (hNext : ∀ x y, R x y → Simulates e S (f x) (g y)) : Simulates e S (a >>= f) (b >>= g) := by
  intro s t hAgree
  obtain ⟨hResult, hAfter⟩ := hFirst s t hAgree
  exact hNext _ _ hResult _ _ hAfter

/-- One action after another with the same result. -/
theorem Simulates.bindSame {a : Bind A.size α} {b : Bind B.size α} {f : α → Bind A.size α'}
    {g : α → Bind B.size β'} (hFirst : Simulates e Eq a b)
    (hNext : ∀ x, Simulates e S (f x) (g x)) : Simulates e S (a >>= f) (b >>= g) :=
  hFirst.bind fun x _ hEq => hEq ▸ hNext x

theorem Simulates.discard {a : Bind A.size α} {b : Bind B.size β} (h : Simulates e R a b) :
    Simulates e Eq (discard a) (discard b) :=
  fun s t hAgree => ⟨rfl, (h s t hAgree).2⟩

theorem Simulates.forM {ι κ : Type} {a : ι → Bind A.size PUnit} {b : κ → Bind B.size PUnit}
    {f : ι → κ} {xs : List ι} (h : ∀ x ∈ xs, Simulates e Eq (a x) (b (f x))) :
    Simulates e Eq (xs.forM a) ((xs.map f).forM b) := by
  induction xs with
  | nil => exact Simulates.pure rfl
  | cons x xs ih =>
      exact (h x List.mem_cons_self).bindSame fun _ => ih fun y hy => h y (List.mem_cons_of_mem x hy)

theorem Simulates.mapM {ι κ : Type} {a : ι → Bind A.size α} {b : κ → Bind B.size α} {f : ι → κ}
    {xs : List ι} (h : ∀ x ∈ xs, Simulates e Eq (a x) (b (f x))) :
    Simulates e Eq (xs.mapM a) ((xs.map f).mapM b) := by
  induction xs with
  | nil =>
      rw [List.map_nil, List.mapM_nil, List.mapM_nil]
      exact Simulates.pure rfl
  | cons x xs ih =>
      rw [List.map_cons, List.mapM_cons, List.mapM_cons]
      exact (h x List.mem_cons_self).bindSame fun _ =>
        (ih fun y hy => h y (List.mem_cons_of_mem x hy)).bindSame fun _ => Simulates.pure rfl

theorem Simulates.get {f : State A.size → Bind A.size α} {g : State B.size → Bind B.size β}
    (h : ∀ s t, Agree e s t → Simulates e R (f s) (g t)) :
    Simulates e R (get >>= f) (get >>= g) :=
  fun s t hAgree => h s t hAgree s t hAgree

theorem Simulates.lookup (name : String) :
    Simulates e (Option.Rel (SameBinding e)) (lookup name) (lookup name) :=
  fun _ _ hAgree => ⟨hAgree.lookup name, hAgree⟩

variable {i : A.Id}

theorem Simulates.record (hi : e.kept i = true) (type : Option TypeRef) :
    Simulates e Eq (record i type) (record (e.map i) type) := by
  intro s t hAgree
  refine ⟨by cases type <;> rfl, ?_⟩
  cases type with
  | none => exact hAgree
  | some type =>
      refine ⟨⟨hAgree.fields, ?_, hAgree.symbolOf⟩, hAgree.innermost, hAgree.outer⟩
      intro j hj
      have hEq : e.map i = e.map j ↔ i = j := e.map_eq_iff hi hj
      have hOther := hAgree.typeOf j hj
      refine (Oracle.typeOf_setType ..).trans (Eq.trans ?_ (Oracle.typeOf_setType ..).symm)
      simp only [hEq, hOther]

theorem Simulates.mark (hi : e.kept i = true) {symbol symbol' : String}
    (h : SameSymbol e symbol symbol') :
    Simulates e Eq (mark i symbol) (mark (e.map i) symbol') := by
  intro s t hAgree
  refine ⟨rfl, ⟨hAgree.fields, hAgree.typeOf, ?_⟩, hAgree.innermost, hAgree.outer⟩
  intro j hj
  show Option.Rel _ ((s.oracle.setSymbol i symbol).symbolOf j)
    ((t.oracle.setSymbol (e.map i) symbol').symbolOf (e.map j))
  rw [Oracle.symbolOf_setSymbol, Oracle.symbolOf_setSymbol]
  by_cases hEq : i = j
  · rw [if_pos hEq, if_pos (congrArg e.map hEq)]
    exact .some h
  · rw [if_neg hEq, if_neg fun hMap => hEq (e.injective hi hj hMap)]
    exact hAgree.symbolOf j hj

theorem Simulates.declare (hi : e.kept i = true) (name : String) (type : Option TypeRef) :
    Simulates e (SameBinding e) (declare i name type) (declare (e.map i) name type) := by
  have hSymbol := sameSymbol_of_kept e name hi
  refine (Simulates.mark hi hSymbol).bindSame fun _ =>
    (Simulates.record hi type).bindSame fun _ => ?_
  intro s t hAgree
  have hBinding : SameBinding e ⟨symbolOf name i, type⟩ ⟨symbolOf name (e.map i), type⟩ :=
    ⟨hSymbol, rfl⟩
  exact ⟨hBinding, ⟨hAgree.fields, hAgree.typeOf, hAgree.symbolOf⟩,
    hAgree.innermost.insert name hBinding, hAgree.outer⟩

/-- **What happens in a scope of its own** may end with different names in it. -/
theorem Simulates.inScope {a : Bind A.size α} {b : Bind B.size β}
    (hA : Stays (fun _ => True) a) (hB : Stays (fun _ => True) b)
    (h : ∀ s t, Agree e s t → R (a.run s).1 (b.run t).1 ∧ SameKnowledge e (a.run s).2 (b.run t).2) :
    Simulates e R (inScope a) (inScope b) := by
  intro s t hAgree
  have hPush : Agree e { s with scopes := s.scopes.push } { t with scopes := t.scopes.push } :=
    ⟨⟨hAgree.fields, hAgree.typeOf, hAgree.symbolOf⟩, SameScope.nil,
      .cons hAgree.innermost hAgree.outer⟩
  obtain ⟨hResult, hKnown⟩ := h _ _ hPush
  have hScopes := hA.scopes_inScope s
  have hScopes' := hB.scopes_inScope t
  refine ⟨hResult, ⟨hKnown.fields, hKnown.typeOf, hKnown.symbolOf⟩, ?_, ?_⟩
  · rw [hScopes, hScopes']
    exact hAgree.innermost
  · rw [hScopes, hScopes']
    exact hAgree.outer

end Rules

end StateGuard.Binder
