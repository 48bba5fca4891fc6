import Mathlib.Data.List.Forall2
import StateGuard.Proofs.Semantics.Advances
import StateGuard.Proofs.Semantics.Stack

/-!
# Following the environments

The binder keeps bindings where an environment has declarations.  A binding stands for a declaration
if it carries the symbol and, if any, the type that are recorded for the declaration.  `Follows`
says of an action of the binder with its stack, and of the same action of the binder itself, that
they do the same, that they lead from one environment to another one, and that what has been
recorded is right and stays: each symbol is that of the declaration the node resolves to, and each
visit found the types of the receivers around its node on the stack and left the stack and the
scopes as they were.

## Main results

* `HasFollowed.trans`, `Follows.bind`: one action after another, through different nodes.
* `HasFollowed.mark`, `HasFollowed.declare`: a name gets its symbol, a declaration declares itself.
* `Follows.inScope`, `Follows.access`: a scope of its own, and one more receiver on the stack.
-/

namespace StateGuard

namespace Node

/-- The type that a member of a unit is declared with before it is bound. -/
def declaredType? {ι : Type} : Node ι → Option TypeRef
  | .method _ returnType .. => returnType
  | .localDeclaration _ type _ => type
  | _ => none

end Node

namespace Binder

open Arena

variable {tree : Tree}

/-! ## What is recorded -/

/-- Nothing that has been recorded is lost or changed. -/
structure Grows {n : Nat} (o o' : Oracle n) : Prop where
  symbolOf : ∀ {j symbol}, o.symbolOf j = some symbol → o'.symbolOf j = some symbol
  typeOf : ∀ {j type}, o.typeOf j = some type → o'.typeOf j = some type

theorem Grows.refl {n : Nat} (o : Oracle n) : Grows o o := ⟨id, id⟩

theorem Grows.trans {n : Nat} {o o' o'' : Oracle n} (h : Grows o o') (h' : Grows o' o'') :
    Grows o o'' :=
  ⟨fun hSymbol => h'.symbolOf (h.symbolOf hSymbol), fun hType => h'.typeOf (h.typeOf hType)⟩

/-- A member of a unit that declares a name, which it does before it is bound. -/
def IsMember (j : tree.Id) : Prop :=
  (∃ name, (tree.node j).declaredName? = some name) ∧
    ∃ p members, tree.parent j = some p ∧ tree.node p = .compilationUnit members

/-- Nothing is recorded about a node but what is declared before it is bound. -/
structure IsUnbound (o : Oracle tree.size) (j : tree.Id) : Prop where
  symbolOf : ∀ symbol, o.symbolOf j = some symbol →
    IsMember j ∧ ∃ name, (tree.node j).declaredName? = some name ∧ symbol = symbolOf name j
  typeOf : ∀ type, o.typeOf j = some type →
    IsMember j ∧ (tree.node j).declaredType? = some type

/-- A binding is that of a declaration: it has the symbol that is recorded for it, and no other
type. -/
structure Stands (o : Oracle tree.size) (name : String) (binding : Binding) (d : tree.Id) :
    Prop where
  name_eq : (tree.node d).declaredName? = some name
  symbol : binding.symbol = symbolOf name d
  marked : o.symbolOf d = some binding.symbol
  type : ∀ type, binding.type = some type → o.typeOf d = some type

theorem Stands.mono {o o' : Oracle tree.size} {name : String} {binding : Binding} {d : tree.Id}
    (h : Stands o name binding d) (hGrows : Grows o o') : Stands o' name binding d :=
  ⟨h.name_eq, h.symbol, hGrows.symbolOf h.marked,
    fun type hType => hGrows.typeOf (h.type type hType)⟩

/-- The names of a scope stand for declarations. -/
def ScopeTracks (o : Oracle tree.size) (env : Scope tree.Id) (scope : Scope Binding) : Prop :=
  ∀ name, Option.Rel (Stands o name) (scope.find? name) (env.find? name)

/-- The names in scope and the fields stand for the declarations of an environment. -/
structure Tracks (env : Env tree.Id) (s : State tree.size) : Prop where
  innermost : ScopeTracks s.oracle env.scopes.innermost s.scopes.innermost
  outer : List.Forall₂ (ScopeTracks s.oracle) env.scopes.outer s.scopes.outer
  fields : ScopeTracks s.oracle env.fields s.fields

/-- A symbol is right: it is that of the declaration that the node resolves to, which carries it
too, and has the type of the node if that has one. -/
def IsSymbolOf (o : Oracle tree.size) (j : tree.Id) (symbol : String) : Prop :=
  ∃ name d, (tree.node j).spelling? = some name ∧ tree.resolve? j = some d ∧
    (tree.node d).declaredName? = some name ∧ symbol = symbolOf name d ∧
    o.symbolOf d = some symbol ∧ ∀ type, o.typeOf j = some type → o.typeOf d = some type

/-- A node has been visited, with the type as the result. -/
def Computed {n : Nat} (visits : List (Visit n)) (j : Fin n) (type : Option TypeRef) : Prop :=
  ∃ v ∈ visits, v.node = j ∧ v.type = type

/-- A visit went right: it left the stack and the scopes as they were, the types of the receivers
around the node were on the stack, and its result has been recorded. -/
structure WentRight (config : Config) (w : Logged tree.size) (v : Visit tree.size) : Prop where
  restored : v.after = v.before
  stack : List.Forall₂ (Computed w.visits) (tree.receiversAround v.node) v.before.stack
  recorded : IsMember v.node ∨ w.state.oracle.typeOf v.node = v.type
  binding : ∀ member, tree.node v.node = .memberBinding member →
    v.type = memberType config v.before.stack.getLast?.join member

/-- All that has been recorded is right. -/
structure IsSound (config : Config) (w : Logged tree.size) : Prop where
  symbols : ∀ j symbol, w.state.oracle.symbolOf j = some symbol →
    IsSymbolOf w.state.oracle j symbol
  visits : ∀ v ∈ w.visits, WentRight config w v

/-- A member access that is visited and reads a field of the enclosing object. -/
def ReadsField (j : tree.Id) (member : String) : Prop :=
  (∃ receiver, tree.node j = .memberAccess receiver member ∧ tree.isThis receiver = true) ∧
    ∀ call callee args, tree.node call = .invocation callee args → tree.stripParens callee ≠ j

/-! ## Actions -/

/-- The binder is about to go through some nodes in an environment, with the types of some receivers
on the stack. -/
structure Ready (config : Config) (nodes : tree.Id → Prop) (around : List tree.Id)
    (receivers : List (Option TypeRef)) (env : Env tree.Id) (w : Logged tree.size) : Prop where
  sound : IsSound config w
  unbound : ∀ j, nodes j → IsUnbound w.state.oracle j
  unvisited : ∀ v ∈ w.visits, ¬ nodes v.node
  tracks : Tracks env w.state
  stack : w.stack = receivers.reverse
  computed : List.Forall₂ (Computed w.visits) around w.stack

/-- What the binder has done when it has gone through some nodes, to another environment. -/
structure HasFollowed (config : Config) (nodes : tree.Id → Prop) (env : Env tree.Id)
    (w w' : Logged tree.size) : Prop where
  sound : IsSound config w'
  grows : Grows w.state.oracle w'.state.oracle
  symbolOf : ∀ j, ¬ nodes j → w'.state.oracle.symbolOf j = w.state.oracle.symbolOf j
  typeOf : ∀ j, ¬ nodes j → w'.state.oracle.typeOf j = w.state.oracle.typeOf j
  outer : w'.state.scopes.outer = w.state.scopes.outer
  tracks : Tracks env w'.state
  stack : w'.stack = w.stack
  visits : w.visits ⊆ w'.visits
  visited : ∀ v ∈ w'.visits, v ∈ w.visits ∨ nodes v.node
  bound : tree.IsProgram → ∀ j member, nodes j → ReadsField j member →
    w'.state.oracle.symbolOf j = ((tree.envAt j).fields.find? member).map (Binder.symbolOf member)

/-- An action with the stack does what the action does. -/
def Erases {n : Nat} {α : Type} (w : Logged n) (logged : Logged.Bind n α) (action : Bind n α) :
    Prop :=
  (logged.run w).1 = (action.run w.state).1 ∧ (logged.run w).2.state = (action.run w.state).2

/-- An action goes through some nodes, from one environment to another one. -/
def Follows {α : Type} (config : Config) (nodes : tree.Id → Prop) (around : List tree.Id)
    (receivers : List (Option TypeRef)) (start stop : Env tree.Id)
    (logged : Logged.Bind tree.size α) (action : Bind tree.size α) : Prop :=
  ∀ w, Ready config nodes around receivers start w →
    HasFollowed config nodes stop w (logged.run w).2 ∧ Erases w logged action

/-! ## Laws of what is recorded -/

section Laws

variable {config : Config} {nodes others : tree.Id → Prop} {around : List tree.Id}
  {receivers : List (Option TypeRef)} {start middle stop env : Env tree.Id}
  {w w' w'' : Logged tree.size} {o o' : Oracle tree.size}

theorem ScopeTracks.mono {scope : Scope Binding} {names : Scope tree.Id}
    (h : ScopeTracks o names scope) (hGrows : Grows o o') : ScopeTracks o' names scope := by
  intro name
  have hName := h name
  generalize scope.find? name = found at hName
  generalize names.find? name = found' at hName
  cases hName with
  | none => exact .none
  | some hStands => exact .some (hStands.mono hGrows)

theorem ScopeTracks.insert {scope : Scope Binding} {names : Scope tree.Id} {name : String}
    {binding : Binding} {d : tree.Id} (h : ScopeTracks o names scope)
    (hStands : Stands o name binding d) :
    ScopeTracks o (names.insert name d) (scope.insert name binding) := by
  intro other
  by_cases hName : other = name
  · subst hName
    rw [Scope.find?_insert_self, Scope.find?_insert_self]
    exact .some hStands
  · rw [Scope.find?_insert_of_ne _ _ hName, Scope.find?_insert_of_ne _ _ hName]
    exact h other

theorem forall₂_scopeTracks_mono {scopes : List (Scope Binding)} {names : List (Scope tree.Id)}
    (h : List.Forall₂ (ScopeTracks o) names scopes) (hGrows : Grows o o') :
    List.Forall₂ (ScopeTracks o') names scopes := h.imp fun _ _ hScope => hScope.mono hGrows

theorem Tracks.grow {s : State tree.size} (h : Tracks env s)
    (hGrows : Grows s.oracle o) : Tracks env { s with oracle := o } :=
  ⟨h.innermost.mono hGrows, forall₂_scopeTracks_mono h.outer hGrows, h.fields.mono hGrows⟩

/-- A name stands for the declaration that it has in the environment. -/
theorem Tracks.lookup {s : State tree.size} (h : Tracks env s) (name : String) :
    Option.Rel (Stands s.oracle name) (s.scopes.lookup name) (env.scopes.lookup name) := by
  unfold Scopes.lookup
  have hAll : List.Forall₂ (ScopeTracks s.oracle) (env.scopes.innermost :: env.scopes.outer)
      (s.scopes.innermost :: s.scopes.outer) := .cons h.innermost h.outer
  generalize s.scopes.innermost :: s.scopes.outer = scopes at hAll
  generalize env.scopes.innermost :: env.scopes.outer = names at hAll
  induction hAll with
  | nil => exact .none
  | cons hScope _ ih =>
      rw [List.findSome?_cons, List.findSome?_cons]
      have hFound := hScope name
      generalize Scope.find? _ name = found at hFound
      generalize Scope.find? _ name = found' at hFound
      cases hFound with
      | some hStands => exact .some hStands
      | none => exact ih

theorem IsSymbolOf.mono {j : tree.Id} {symbol : String} (h : IsSymbolOf o j symbol)
    (hGrows : Grows o o') (hType : o'.typeOf j = o.typeOf j) : IsSymbolOf o' j symbol := by
  obtain ⟨name, d, hSpelling, hResolve, hName, hSymbol, hMarked, hAgree⟩ := h
  refine ⟨name, d, hSpelling, hResolve, hName, hSymbol, hGrows.symbolOf hMarked, ?_⟩
  intro type hHere
  exact hGrows.typeOf (hAgree type (hType ▸ hHere))

theorem Computed.mono {n : Nat} {visits visits' : List (Visit n)} (hSub : visits ⊆ visits')
    {j : Fin n} {type : Option TypeRef} (h : Computed visits j type) : Computed visits' j type := by
  obtain ⟨v, hv, hNode, hType⟩ := h
  exact ⟨v, hSub hv, hNode, hType⟩

theorem forall₂_computed_mono {n : Nat} {visits visits' : List (Visit n)}
    (hSub : visits ⊆ visits') {nodes : List (Fin n)} {types : List (Option TypeRef)}
    (h : List.Forall₂ (Computed visits) nodes types) :
    List.Forall₂ (Computed visits') nodes types := h.imp fun _ _ hComputed => hComputed.mono hSub

theorem WentRight.mono {v : Visit tree.size} (h : WentRight config w v)
    (hSub : w.visits ⊆ w'.visits)
    (hType : w'.state.oracle.typeOf v.node = w.state.oracle.typeOf v.node) :
    WentRight config w' v :=
  ⟨h.restored, forall₂_computed_mono hSub h.stack, h.recorded.imp id fun hHere => hType.trans hHere,
    h.binding⟩

/-! ## One action after another -/

theorem HasFollowed.refl (hSound : IsSound config w) (hTracks : Tracks env w.state) :
    HasFollowed config (fun _ => False) env w w where
  sound := hSound
  grows := .refl _
  symbolOf _ _ := rfl
  typeOf _ _ := rfl
  outer := rfl
  tracks := hTracks
  stack := rfl
  visits := List.Subset.refl _
  visited _ hv := .inl hv
  bound _ _ _ h := h.elim

/-- What has been done through different nodes, one after the other. -/
theorem HasFollowed.trans (h : HasFollowed config nodes middle w w')
    (h' : HasFollowed config others stop w' w'')
    (hApart : tree.IsProgram → ∀ j member, ReadsField j member → nodes j → ¬ others j) :
    HasFollowed config (fun j => nodes j ∨ others j) stop w w'' where
  sound := h'.sound
  grows := h.grows.trans h'.grows
  symbolOf j hj := by
    rw [not_or] at hj
    exact (h'.symbolOf j hj.2).trans (h.symbolOf j hj.1)
  typeOf j hj := by
    rw [not_or] at hj
    exact (h'.typeOf j hj.2).trans (h.typeOf j hj.1)
  outer := h'.outer.trans h.outer
  tracks := h'.tracks
  stack := h'.stack.trans h.stack
  visits := List.Subset.trans h.visits h'.visits
  visited v hv := by
    rcases h'.visited v hv with hv | hv
    · exact (h.visited v hv).imp id .inl
    · exact .inr (.inr hv)
  bound hProgram j member hj hReads := by
    rcases hj with hj | hj
    · rw [h'.symbolOf j (hApart hProgram j member hReads hj)]
      exact h.bound hProgram j member hj hReads
    · exact h'.bound hProgram j member hj hReads

/-- Nothing is recorded about a node by going through others. -/
theorem HasFollowed.isUnbound (h : HasFollowed config nodes env w w') {j : tree.Id}
    (hNot : ¬ nodes j) (hUnbound : IsUnbound w.state.oracle j) : IsUnbound w'.state.oracle j :=
  ⟨fun symbol hSymbol => hUnbound.symbolOf symbol (h.symbolOf j hNot ▸ hSymbol),
    fun type hType => hUnbound.typeOf type (h.typeOf j hNot ▸ hType)⟩

/-- After some nodes the binder is ready for others. -/
theorem Ready.next (hReady : Ready config (fun j => nodes j ∨ others j) around receivers start w)
    (h : HasFollowed config nodes middle w w') (hApart : ∀ j, nodes j → ¬ others j) :
    Ready config others around receivers middle w' where
  sound := h.sound
  unbound j hj := h.isUnbound (fun hn => hApart j hn hj) (hReady.unbound j (.inr hj))
  unvisited v hv := by
    rcases h.visited v hv with hv | hv
    · exact fun hn => hReady.unvisited v hv (.inr hn)
    · exact hApart v.node hv
  tracks := h.tracks
  stack := h.stack.trans hReady.stack
  computed := by
    rw [h.stack]
    exact forall₂_computed_mono h.visits hReady.computed

theorem Ready.mono (h : Ready config nodes around receivers env w)
    (hSub : ∀ j, others j → nodes j) : Ready config others around receivers env w :=
  ⟨h.sound, fun j hj => h.unbound j (hSub j hj), fun v hv hn => h.unvisited v hv (hSub _ hn),
    h.tracks, h.stack, h.computed⟩

/-- What has been done through some nodes has been done through more, as long as no field is read
among the others. -/
theorem HasFollowed.widen (h : HasFollowed config nodes env w w') (hSub : ∀ j, nodes j → others j)
    (hRest : tree.IsProgram → ∀ j member, others j → ¬ nodes j → ¬ ReadsField j member) :
    HasFollowed config others env w w' where
  sound := h.sound
  grows := h.grows
  symbolOf j hj := h.symbolOf j fun hn => hj (hSub j hn)
  typeOf j hj := h.typeOf j fun hn => hj (hSub j hn)
  outer := h.outer
  tracks := h.tracks
  stack := h.stack
  visits := h.visits
  visited v hv := (h.visited v hv).imp id (hSub v.node)
  bound hProgram j member hj hReads := by
    by_cases hn : nodes j
    · exact h.bound hProgram j member hn hReads
    · exact absurd hReads (hRest hProgram j member hj hn)

end Laws

/-! ## Rules -/

section Rules

variable {α β : Type} {config : Config} {nodes others : tree.Id → Prop} {around : List tree.Id}
  {receivers : List (Option TypeRef)} {start middle stop env : Env tree.Id}

theorem Erases.bind {n : Nat} {w : Logged n} {first : Logged.Bind n α} {first' : Bind n α}
    {next : α → Logged.Bind n β} {next' : α → Bind n β} (hFirst : Erases w first first')
    (hNext : Erases (first.run w).2 (next (first.run w).1) (next' (first.run w).1)) :
    Erases w (first >>= next) (first' >>= next') := by
  obtain ⟨hResult, hState⟩ := hFirst
  have hRun : ((first' >>= next').run w.state) =
      (next' (first.run w).1).run (first.run w).2.state := by
    rw [hResult, hState]
    rfl
  unfold Erases
  rw [hRun]
  exact hNext

theorem Erases.lift {n : Nat} (w : Logged n) (action : Bind n α) :
    Erases w (Logged.lift action) action := ⟨rfl, rfl⟩

/-- An action goes on after what has been done at one moment. -/
theorem Ready.bind {w : Logged tree.size} {first : Logged.Bind tree.size α}
    {first' : Bind tree.size α} {next : α → Logged.Bind tree.size β} {next' : α → Bind tree.size β}
    (hReady : Ready config (fun j => nodes j ∨ others j) around receivers start w)
    (hFirst : HasFollowed config nodes middle w (first.run w).2 ∧ Erases w first first')
    (hNext : ∀ value, Follows config others around receivers middle stop (next value) (next' value))
    (hApart : ∀ j, nodes j → ¬ others j) :
    HasFollowed config (fun j => nodes j ∨ others j) stop w ((first >>= next).run w).2 ∧
      Erases w (first >>= next) (first' >>= next') := by
  obtain ⟨h, hErases⟩ := hFirst
  obtain ⟨h', hErases'⟩ := hNext (first.run w).1 _ (hReady.next h hApart)
  exact ⟨h.trans h' fun _ j _ _ => hApart j, hErases.bind hErases'⟩

/-- **One action after another,** through different nodes. -/
theorem Follows.bind {first : Logged.Bind tree.size α} {first' : Bind tree.size α}
    {next : α → Logged.Bind tree.size β} {next' : α → Bind tree.size β}
    (hFirst : Follows config nodes around receivers start middle first first')
    (hNext : ∀ value, Follows config others around receivers middle stop (next value) (next' value))
    (hApart : ∀ j, nodes j → ¬ others j) :
    Follows config (fun j => nodes j ∨ others j) around receivers start stop (first >>= next)
      (first' >>= next') :=
  fun w hReady => hReady.bind (hFirst w (hReady.mono fun _ => .inl)) hNext hApart

theorem Follows.pure (value : α) :
    Follows config (fun _ : tree.Id => False) around receivers env env (pure value) (pure value) :=
  fun _ hReady => ⟨.refl hReady.sound hReady.tracks, rfl, rfl⟩

theorem Follows.widen {logged : Logged.Bind tree.size α} {action : Bind tree.size α}
    (h : Follows config nodes around receivers start stop logged action)
    (hSub : ∀ j, nodes j → others j)
    (hRest : tree.IsProgram → ∀ j member, others j → ¬ nodes j → ¬ ReadsField j member) :
    Follows config others around receivers start stop logged action := by
  intro w hReady
  obtain ⟨h', hErases⟩ := h w (hReady.mono hSub)
  exact ⟨h'.widen hSub hRest, hErases⟩

theorem Follows.congr {logged : Logged.Bind tree.size α} {action : Bind tree.size α}
    (h : Follows config nodes around receivers start stop logged action)
    (hSame : ∀ j, nodes j ↔ others j) :
    Follows config others around receivers start stop logged action := by
  obtain rfl : nodes = others := funext fun j => propext (hSame j)
  exact h

theorem Follows.map {logged : Logged.Bind tree.size α} {action : Bind tree.size α} (f : α → β)
    (h : Follows config nodes around receivers start stop logged action) :
    Follows config nodes around receivers start stop (f <$> logged) (f <$> action) := by
  intro w hReady
  obtain ⟨h', hResult, hState⟩ := h w hReady
  exact ⟨h', congrArg f hResult, hState⟩

/-- An action that goes through no node changes nothing after another one. -/
theorem Follows.andThen {first : Logged.Bind tree.size α} {first' : Bind tree.size α}
    {next : α → Logged.Bind tree.size β} {next' : α → Bind tree.size β}
    (hFirst : Follows config nodes around receivers start stop first first')
    (hNext : ∀ value, Follows config (fun _ => False) around receivers stop stop (next value)
      (next' value)) :
    Follows config nodes around receivers start stop (first >>= next) (first' >>= next') :=
  (hFirst.bind hNext fun _ _ h => h.elim).congr fun j => by simp

/-- One action for each element of a list, through different nodes. -/
theorem Follows.forM {ι : Type} {logged : ι → Logged.Bind tree.size PUnit}
    {action : ι → Bind tree.size PUnit} {through : ι → tree.Id → Prop}
    (progress : List ι → Env tree.Id) {xs : List ι}
    (hEach : ∀ earlier x later, xs = earlier ++ x :: later →
      Follows config (through x) around receivers (progress earlier) (progress (earlier ++ [x]))
        (logged x) (action x))
    (hApart : xs.Pairwise fun x y => ∀ j, through x j → ¬ through y j) :
    Follows config (fun j => ∃ x ∈ xs, through x j) around receivers (progress []) (progress xs)
      (xs.forM logged) (xs.forM action) := by
  induction xs generalizing progress with
  | nil => exact (Follows.pure PUnit.unit).congr fun j => by simp
  | cons x xs ih =>
      rw [List.pairwise_cons] at hApart
      have hRest := ih (fun earlier => progress (x :: earlier))
        (fun earlier y later hSplit => hEach (x :: earlier) y later (by rw [hSplit]; rfl)) hApart.2
      refine ((hEach [] x xs rfl).bind (fun _ => hRest) ?_).congr fun j => by simp
      rintro j hx ⟨y, hy, hj⟩
      exact hApart.1 y hy j hx hj

/-- The same for actions whose results are collected. -/
theorem Follows.mapM {ι : Type} {logged : ι → Logged.Bind tree.size α}
    {action : ι → Bind tree.size α} {through : ι → tree.Id → Prop}
    (progress : List ι → Env tree.Id) {xs : List ι}
    (hEach : ∀ earlier x later, xs = earlier ++ x :: later →
      Follows config (through x) around receivers (progress earlier) (progress (earlier ++ [x]))
        (logged x) (action x))
    (hApart : xs.Pairwise fun x y => ∀ j, through x j → ¬ through y j) :
    Follows config (fun j => ∃ x ∈ xs, through x j) around receivers (progress []) (progress xs)
      (xs.mapM logged) (xs.mapM action) := by
  induction xs generalizing progress with
  | nil =>
      rw [List.mapM_nil, List.mapM_nil]
      exact (Follows.pure []).congr fun j => by simp
  | cons x xs ih =>
      rw [List.pairwise_cons] at hApart
      have hRest := ih (fun earlier => progress (x :: earlier))
        (fun earlier y later hSplit => hEach (x :: earlier) y later (by rw [hSplit]; rfl)) hApart.2
      rw [List.mapM_cons, List.mapM_cons]
      refine ((hEach [] x xs rfl).bind (fun value =>
        hRest.andThen fun values => Follows.pure (value :: values)) ?_).congr fun j => by simp
      rintro j hx ⟨y, hy, hj⟩
      exact hApart.1 y hy j hx hj

end Rules

/-! ## Names and declarations -/

section Declarations

variable {config : Config} {nodes : tree.Id → Prop} {around : List tree.Id}
  {receivers : List (Option TypeRef)} {start stop env : Env tree.Id} {w : Logged tree.size}
  {i : tree.Id} {name : String}

theorem IsSound.congr {w' : Logged tree.size} (h : IsSound config w)
    (hOracle : w'.state.oracle = w.state.oracle) (hVisits : w'.visits = w.visits) :
    IsSound config w' where
  symbols := hOracle ▸ h.symbols
  visits v hv := (h.visits v (hVisits ▸ hv)).mono (fun _ hu => hVisits ▸ hu)
    (congrArg (Oracle.typeOf · v.node) hOracle)

/-- What has been recorded stays right when more is recorded about one node, if that is right. -/
theorem IsSound.grow {w' : Logged tree.size} (h : IsSound config w)
    (hVisits : w'.visits = w.visits) (hGrows : Grows w.state.oracle w'.state.oracle)
    (hSymbol : ∀ j, j ≠ i → w'.state.oracle.symbolOf j = w.state.oracle.symbolOf j)
    (hType : ∀ j, j ≠ i → w'.state.oracle.typeOf j = w.state.oracle.typeOf j)
    (hVisited : ∀ v ∈ w.visits, w'.state.oracle.typeOf v.node = w.state.oracle.typeOf v.node)
    (hHere : ∀ symbol, w'.state.oracle.symbolOf i = some symbol →
      IsSymbolOf w'.state.oracle i symbol) : IsSound config w' where
  symbols j symbol hRecorded := by
    by_cases hj : j = i
    · subst hj
      exact hHere symbol hRecorded
    · rw [hSymbol j hj] at hRecorded
      exact (h.symbols j symbol hRecorded).mono hGrows (hType j hj)
  visits v hv := by
    rw [hVisits] at hv
    exact (h.visits v hv).mono (fun _ hu => hVisits ▸ hu) (hVisited v hv)

theorem declaredType?_eq_none {ι : Type} {node : Node ι} (h : node.declaredName? = none) :
    node.declaredType? = none := by
  cases node <;> simp_all [Node.declaredName?, Node.declaredType?]

/-- Nothing is recorded about a node that declares nothing. -/
theorem IsUnbound.of_not_declares {o : Oracle tree.size} (h : IsUnbound o i)
    (hName : (tree.node i).declaredName? = none) : o.symbolOf i = none ∧ o.typeOf i = none := by
  constructor
  · by_contra hSome
    obtain ⟨symbol, hSymbol⟩ := Option.ne_none_iff_exists'.1 hSome
    obtain ⟨-, name, hDeclares, -⟩ := h.symbolOf symbol hSymbol
    simp [hName] at hDeclares
  · by_contra hSome
    obtain ⟨type, hType⟩ := Option.ne_none_iff_exists'.1 hSome
    have hDeclared := (h.typeOf type hType).2
    simp [declaredType?_eq_none hName] at hDeclared

theorem Grows.setSymbol {o : Oracle tree.size} (h : o.symbolOf i = none) (symbol : String) :
    Grows o (o.setSymbol i symbol) := by
  refine ⟨fun {j other} hOther => ?_, id⟩
  rw [Oracle.symbolOf_setSymbol, if_neg]
  · exact hOther
  · rintro rfl
    simp [h] at hOther

/-- Mark a node that declares nothing with the symbol of the declaration it resolves to. -/
theorem HasFollowed.mark {binding : Binding} {d : tree.Id} (hSound : IsSound config w)
    (hTracks : Tracks env w.state) (hUnbound : IsUnbound w.state.oracle i)
    (hName : (tree.node i).declaredName? = none) (hSpelling : (tree.node i).spelling? = some name)
    (hResolve : tree.resolve? i = some d) (hStands : Stands w.state.oracle name binding d) :
    HasFollowed config (· = i) env w ((Logged.lift (Binder.mark i binding.symbol)).run w).2 := by
  obtain ⟨hNoSymbol, hNoType⟩ := hUnbound.of_not_declares hName
  have hGrows := Grows.setSymbol hNoSymbol binding.symbol
  have hFrame : ∀ j, j ≠ i → (w.state.oracle.setSymbol i binding.symbol).symbolOf j =
      w.state.oracle.symbolOf j := fun j hj =>
    (Oracle.symbolOf_setSymbol ..).trans (if_neg (Ne.symm hj))
  have hHere : (w.state.oracle.setSymbol i binding.symbol).symbolOf i = some binding.symbol :=
    (Oracle.symbolOf_setSymbol ..).trans (if_pos rfl)
  have hRight : IsSymbolOf (w.state.oracle.setSymbol i binding.symbol) i binding.symbol := by
    refine ⟨name, d, hSpelling, hResolve, hStands.name_eq, hStands.symbol,
      hGrows.symbolOf hStands.marked, fun type hType => ?_⟩
    exact absurd (hNoType.symm.trans hType) (by simp)
  exact {
    sound := hSound.grow rfl hGrows hFrame (fun _ _ => rfl) (fun _ _ => rfl)
      fun symbol hSymbol => Option.some.inj (hHere.symm.trans hSymbol) ▸ hRight
    grows := hGrows
    symbolOf := hFrame
    typeOf := fun _ _ => rfl
    outer := rfl
    tracks := hTracks.grow hGrows
    stack := rfl
    visits := List.Subset.refl _
    visited := fun _ hv => .inl hv
    bound := by
      rintro - j member rfl ⟨⟨receiver, hNode, hThis⟩, -⟩
      obtain rfl : member = name := by simpa [hNode, Node.spelling?] using hSpelling
      have hField : (tree.envAt j).fields.find? member = some d := by
        simpa [resolve?, hNode, hThis] using hResolve
      rw [hField]
      exact hHere.trans (congrArg some hStands.symbol) }

/-- The oracle with the type of a node recorded, if it has one. -/
def recorded {n : Nat} (o : Oracle n) (i : Fin n) : Option TypeRef → Oracle n
  | some type => o.setType i type
  | none => o

theorem record_run {n : Nat} (i : Fin n) (type : Option TypeRef) (s : State n) :
    (record i type).run s = ((), { s with oracle := recorded s.oracle i type }) := by
  cases type <;> rfl

@[simp]
theorem symbolOf_recorded {n : Nat} (o : Oracle n) (i j : Fin n) (type : Option TypeRef) :
    (recorded o i type).symbolOf j = o.symbolOf j := by
  cases type <;> rfl

theorem typeOf_recorded {n : Nat} (o : Oracle n) (i j : Fin n) (type : Option TypeRef) :
    (recorded o i type).typeOf j = if i = j then type <|> o.typeOf j else o.typeOf j := by
  cases type with
  | none => simp [recorded]
  | some type => simp [recorded, Oracle.typeOf_setType]

/-- The oracle with the symbol and the type of a declaration. -/
def declared {n : Nat} (o : Oracle n) (i : Fin n) (name : String) (type : Option TypeRef) :
    Oracle n := recorded (o.setSymbol i (symbolOf name i)) i type

theorem symbolOf_declared {n : Nat} (o : Oracle n) (i j : Fin n) (name : String)
    (type : Option TypeRef) : (declared o i name type).symbolOf j =
      if i = j then some (symbolOf name i) else o.symbolOf j := by
  rw [declared, symbolOf_recorded, Oracle.symbolOf_setSymbol]

theorem typeOf_declared {n : Nat} (o : Oracle n) (i j : Fin n) (name : String)
    (type : Option TypeRef) : (declared o i name type).typeOf j =
      if i = j then type <|> o.typeOf j else o.typeOf j := by
  rw [declared, typeOf_recorded, Oracle.typeOf_setSymbol]

theorem declare_run {n : Nat} (i : Fin n) (name : String) (type : Option TypeRef) (s : State n) :
    (declare i name type).run s = (⟨symbolOf name i, type⟩,
      ⟨s.scopes.declare name ⟨symbolOf name i, type⟩, s.fields,
        declared s.oracle i name type⟩) := by
  cases type <;> rfl

/-- A declaration that has a type already is given that one, so its type is the given one. -/
theorem typeOf_declared_self {n : Nat} {o : Oracle n} {i : Fin n} {type : Option TypeRef}
    (h : ∀ known, o.typeOf i = some known → type = some known) (name : String) :
    (declared o i name type).typeOf i = type := by
  rw [typeOf_declared, if_pos rfl]
  cases hKnown : o.typeOf i with
  | none => simp
  | some known => simp [h known hKnown]

/-- A declaration that is declared once more gets the same symbol and the same type. -/
theorem Grows.declared {o : Oracle tree.size} {type : Option TypeRef} (hUnbound : IsUnbound o i)
    (hName : (tree.node i).declaredName? = some name)
    (hType : ∀ known, o.typeOf i = some known → type = some known) :
    Grows o (declared o i name type) := by
  constructor
  · intro j symbol hSymbol
    rw [symbolOf_declared]
    split
    · next hEq =>
        subst hEq
        obtain ⟨-, name', hName', rfl⟩ := hUnbound.symbolOf symbol hSymbol
        rw [Option.some.inj (hName.symm.trans hName')]
    · exact hSymbol
  · intro j known hKnown
    by_cases hj : i = j
    · subst hj
      rw [typeOf_declared_self hType, hType known hKnown]
    · rw [typeOf_declared, if_neg hj, hKnown]

theorem resolve?_of_declaredName? (hName : (tree.node i).declaredName? = some name) :
    tree.resolve? i = some i ∧ (tree.node i).spelling? = some name := by
  unfold resolve?
  cases hNode : tree.node i <;> simp_all [Node.declaredName?, Node.spelling?]

/-- A declaration declares itself. -/
theorem HasFollowed.declare {type : Option TypeRef} (hSound : IsSound config w)
    (hTracks : Tracks env w.state) (hUnbound : IsUnbound w.state.oracle i)
    (hUnvisited : ∀ v ∈ w.visits, v.node ≠ i)
    (hName : (tree.node i).declaredName? = some name)
    (hType : ∀ declared, (tree.node i).declaredType? = some declared → type = some declared) :
    HasFollowed config (· = i) { env with scopes := env.scopes.declare name i } w
        ((Logged.lift (Binder.declare i name type)).run w).2 ∧
      ((Logged.lift (Binder.declare i name type)).run w).2.state.oracle.typeOf i = type ∧
      Stands ((Logged.lift (Binder.declare i name type)).run w).2.state.oracle name
        ⟨Binder.symbolOf name i, type⟩ i := by
  obtain ⟨hResolve, hSpelling⟩ := resolve?_of_declaredName? hName
  have hRun : ((Logged.lift (Binder.declare i name type)).run w).2 =
      { w with state := ⟨w.state.scopes.declare name ⟨Binder.symbolOf name i, type⟩, w.state.fields,
        declared w.state.oracle i name type⟩ } := by
    show { w with state := ((Binder.declare i name type).run w.state).2 } = _
    rw [declare_run]
  have hBefore : ∀ known, w.state.oracle.typeOf i = some known → type = some known :=
    fun known hKnown => hType known (hUnbound.typeOf known hKnown).2
  have hGrows := Grows.declared hUnbound hName hBefore
  have hHere : (declared w.state.oracle i name type).symbolOf i = some (Binder.symbolOf name i) :=
    (symbolOf_declared ..).trans (if_pos rfl)
  have hSymbolFrame : ∀ j, j ≠ i →
      (declared w.state.oracle i name type).symbolOf j = w.state.oracle.symbolOf j :=
    fun j hj => (symbolOf_declared ..).trans (if_neg (Ne.symm hj))
  have hTypeFrame : ∀ j, j ≠ i →
      (declared w.state.oracle i name type).typeOf j = w.state.oracle.typeOf j :=
    fun j hj => (typeOf_declared ..).trans (if_neg (Ne.symm hj))
  have hTypeHere := typeOf_declared_self hBefore name
  have hStands : Stands (declared w.state.oracle i name type) name
      ⟨Binder.symbolOf name i, type⟩ i :=
    ⟨hName, rfl, hHere, fun known hKnown => hTypeHere.trans hKnown⟩
  have hRight : IsSymbolOf (declared w.state.oracle i name type) i (Binder.symbolOf name i) :=
    ⟨name, i, hSpelling, hResolve, hName, rfl, hHere, fun _ h => h⟩
  rw [hRun]
  refine ⟨?_, hTypeHere, hStands⟩
  exact {
    sound := hSound.grow rfl hGrows hSymbolFrame hTypeFrame
      (fun v hv => hTypeFrame v.node (hUnvisited v hv))
      fun symbol hSymbol => Option.some.inj (hHere.symm.trans hSymbol) ▸ hRight
    grows := hGrows
    symbolOf := hSymbolFrame
    typeOf := hTypeFrame
    outer := rfl
    tracks := ⟨(hTracks.innermost.mono hGrows).insert hStands,
      forall₂_scopeTracks_mono hTracks.outer hGrows, hTracks.fields.mono hGrows⟩
    stack := rfl
    visits := List.Subset.refl _
    visited := fun _ hv => .inl hv
    bound := by
      rintro - j member rfl ⟨⟨receiver, hNode, -⟩, -⟩
      simp [hNode, Node.declaredName?] at hName }

theorem Follows.declare {type : Option TypeRef} (hName : (tree.node i).declaredName? = some name)
    (hType : ∀ declared, (tree.node i).declaredType? = some declared → type = some declared) :
    Follows config (· = i) around receivers env { env with scopes := env.scopes.declare name i }
      (Logged.lift (Binder.declare i name type)) (Binder.declare i name type) :=
  fun w hReady => ⟨(HasFollowed.declare hReady.sound hReady.tracks (hReady.unbound i rfl)
    hReady.unvisited hName hType).1, .lift w _⟩

end Declarations

/-! ## Scopes and receivers -/

section Scopes

variable {α : Type} {config : Config} {nodes others : tree.Id → Prop} {around : List tree.Id}
  {receivers : List (Option TypeRef)} {start middle stop env : Env tree.Id}

/-- **What happens in a scope of its own** leaves the scopes as they were. -/
theorem Follows.inScope {logged : Logged.Bind tree.size α} {action : Bind tree.size α}
    (h : Follows config nodes around receivers { start with scopes := start.scopes.push } stop
      logged action) :
    Follows config nodes around receivers start { stop with scopes := start.scopes }
      (Logged.inScope logged) (inScope action) := by
  intro w hReady
  let entered : Logged tree.size :=
    { w with state := { w.state with scopes := w.state.scopes.push } }
  have hEntered : Ready config nodes around receivers { start with scopes := start.scopes.push }
      entered := {
    sound := hReady.sound.congr rfl rfl
    unbound := hReady.unbound
    unvisited := hReady.unvisited
    tracks := ⟨fun _ => .none, .cons hReady.tracks.innermost hReady.tracks.outer,
      hReady.tracks.fields⟩
    stack := hReady.stack
    computed := hReady.computed }
  obtain ⟨h', hResult, hState⟩ := h entered hEntered
  have hPop : (logged.run entered).2.state.scopes.pop.2 = w.state.scopes := by
    have hOuter : (logged.run entered).2.state.scopes.outer =
        w.state.scopes.innermost :: w.state.scopes.outer := h'.outer
    unfold Scopes.pop
    rw [hOuter]
  refine ⟨?_, hResult, ?_⟩
  · exact {
      sound := h'.sound.congr rfl rfl
      grows := h'.grows
      symbolOf := h'.symbolOf
      typeOf := h'.typeOf
      outer := congrArg Scopes.outer hPop
      tracks := by
        have hInner : ScopeTracks (logged.run entered).2.state.oracle start.scopes.innermost
            (logged.run entered).2.state.scopes.pop.2.innermost := by
          rw [hPop]
          exact hReady.tracks.innermost.mono h'.grows
        have hOuter : List.Forall₂ (ScopeTracks (logged.run entered).2.state.oracle)
            start.scopes.outer (logged.run entered).2.state.scopes.pop.2.outer := by
          rw [hPop]
          exact forall₂_scopeTracks_mono hReady.tracks.outer h'.grows
        exact ⟨hInner, hOuter, h'.tracks.fields⟩
      stack := h'.stack
      visits := h'.visits
      visited := h'.visited
      bound := h'.bound }
  · exact congrArg (fun s : State tree.size => { s with scopes := s.scopes.pop.2 }) hState

/-- **One more receiver on the stack,** with the type that has been computed for it. -/
theorem Follows.access {receiver : tree.Id} {first : Logged.Bind tree.size (Option TypeRef)}
    {first' : Bind tree.size (Option TypeRef)} {next : Logged.Bind tree.size α}
    {next' : Option TypeRef → Bind tree.size α}
    (hFirst : Follows config nodes around receivers start middle first first')
    (hComputed : ∀ w, Computed (first.run w).2.visits receiver (first.run w).1)
    (hNext : ∀ type, Follows config others (around ++ [receiver]) (type :: receivers) middle stop
      next (next' type))
    (hApart : ∀ j, nodes j → ¬ others j) :
    Follows config (fun j => nodes j ∨ others j) around receivers start stop
      (first >>= fun type => Logged.withReceiver type next) (first' >>= next') := by
  intro w hReady
  obtain ⟨h, hErases⟩ := hFirst w (hReady.mono fun _ => .inl)
  have hAfter := hReady.next h hApart
  let type := (first.run w).1
  let pushed : Logged tree.size :=
    { (first.run w).2 with stack := (first.run w).2.stack ++ [type] }
  have hPushed : Ready config others (around ++ [receiver]) (type :: receivers) middle pushed := {
    sound := hAfter.sound.congr rfl rfl
    unbound := hAfter.unbound
    unvisited := hAfter.unvisited
    tracks := hAfter.tracks
    stack := by
      show (first.run w).2.stack ++ [type] = _
      rw [hAfter.stack, List.reverse_cons]
    computed := List.rel_append hAfter.computed (.cons (hComputed w) .nil) }
  obtain ⟨h', hErases'⟩ := hNext type pushed hPushed
  have hPopped : HasFollowed config others stop (first.run w).2
      { (next.run pushed).2 with stack := (next.run pushed).2.stack.dropLast } := {
    sound := h'.sound.congr rfl rfl
    grows := h'.grows
    symbolOf := h'.symbolOf
    typeOf := h'.typeOf
    outer := h'.outer
    tracks := h'.tracks
    stack := by
      show (next.run pushed).2.stack.dropLast = _
      rw [h'.stack]
      exact List.dropLast_concat
    visits := h'.visits
    visited := h'.visited
    bound := h'.bound }
  exact ⟨h.trans hPopped fun _ j _ _ => hApart j, hErases.bind hErases'⟩

end Scopes

end Binder

end StateGuard
