import StateGuard.Proofs.Semantics.Scoping

/-!
# Progress of the binder

The binder goes through a tree in source order with a stack of scopes.  `Advances` says what an
action of the binder does, in terms of the declarations that have happened: the names have the
meanings of one list of declarations before and of another one afterwards, the scopes around are
left as they were, and the names that the action goes through get the meanings they have at their
places.  Actions are put together by `Advances.bind`, as long as they go through different nodes.

## Main results

* `Advances.bind`, `Advances.inScope`: the rules for one action after another and for a scope.
* `Advances.part`, `Advances.plain`, `Advances.local`: a node is bound part by part, and a local
  declaration declares its name after its parts.
* `Advances.scope`: a method or lambda declares its parameters in a scope of its own.
-/

namespace StateGuard.Binder

open Arena

variable {tree : Tree}

/-- The symbols that names have in some scopes. -/
def symbols (scopes : Scopes Binding) (name : String) : Option String :=
  (scopes.lookup name).map (·.symbol)

/-- No name among some nodes has a symbol yet. -/
def IsFresh (nodes : tree.Id → Prop) (oracle : Oracle tree.size) : Prop :=
  ∀ j name, nodes j → tree.node j = .identifier name → oracle.symbolOf j = none

/-- What an action that goes through some nodes has done. -/
structure HasAdvanced (nodes : tree.Id → Prop) (stop : List (Event tree.toArena))
    (s s' : State tree.size) : Prop where
  outer : s'.scopes.outer = s.scopes.outer
  meanings : symbols s'.scopes = meaning stop
  frame : ∀ j, ¬ nodes j → s'.oracle.symbolOf j = s.oracle.symbolOf j
  bound : ∀ j name, nodes j → tree.node j = .identifier name →
    s'.oracle.symbolOf j = meaning (before j) name

/-- An action goes through some nodes, from one list of declarations to another. -/
def Advances {α : Type} (nodes : tree.Id → Prop) (start stop : List (Event tree.toArena))
    (action : Bind tree.size α) : Prop :=
  ∀ s, symbols s.scopes = meaning start → IsFresh nodes s.oracle →
    HasAdvanced nodes stop s (action.run s).2

section Rules

variable {α β : Type} {nodes others : tree.Id → Prop} {start middle stop : List (Event tree.toArena)}

theorem Advances.pure (value : α) : Advances (fun _ : tree.Id => False) start start (pure value) := by
  intro s hStart _
  exact ⟨rfl, hStart, fun _ _ => rfl, fun _ _ h => h.elim⟩

theorem Advances.get : Advances (fun _ : tree.Id => False) start start get := by
  intro s hStart _
  exact ⟨rfl, hStart, fun _ _ => rfl, fun _ _ h => h.elim⟩

theorem Advances.record (i : tree.Id) (type : Option TypeRef) :
    Advances (fun _ : tree.Id => False) start start (record i type) := by
  intro s hStart _
  cases type with
  | none => exact ⟨rfl, hStart, fun _ _ => rfl, fun _ _ h => h.elim⟩
  | some type => exact ⟨rfl, hStart, fun _ _ => rfl, fun _ _ h => h.elim⟩

/-- One action after another that goes through different names. -/
theorem Advances.bindNames {first : Bind tree.size α} {next : α → Bind tree.size β}
    (hFirst : Advances nodes start middle first)
    (hNext : ∀ value, Advances others middle stop (next value))
    (hApart : ∀ j name, tree.node j = .identifier name → nodes j → ¬ others j) :
    Advances (fun j => nodes j ∨ others j) start stop (first >>= next) := by
  intro s hStart hFresh
  have h := hFirst s hStart fun j name hj => hFresh j name (.inl hj)
  have h' := hNext (first.run s).1 (first.run s).2 h.meanings (by
    intro j name hj hNode
    rw [h.frame j fun hn => hApart j name hNode hn hj]
    exact hFresh j name (.inr hj) hNode)
  refine ⟨h'.outer.trans h.outer, h'.meanings, ?_, ?_⟩
  · intro j hj
    rw [not_or] at hj
    exact (h'.frame j hj.2).trans (h.frame j hj.1)
  · rintro j name (hj | hj) hNode
    · exact (h'.frame j (hApart j name hNode hj)).trans (h.bound j name hj hNode)
    · exact h'.bound j name hj hNode

/-- **One action after another,** through different nodes. -/
theorem Advances.bind {first : Bind tree.size α} {next : α → Bind tree.size β}
    (hFirst : Advances nodes start middle first)
    (hNext : ∀ value, Advances others middle stop (next value))
    (hApart : ∀ j, nodes j → ¬ others j) :
    Advances (fun j => nodes j ∨ others j) start stop (first >>= next) :=
  hFirst.bindNames hNext fun j _ _ => hApart j

/-- An action goes through more nodes than it binds, as long as the names among the others have no
meaning. -/
theorem Advances.widen {action : Bind tree.size α} (h : Advances nodes start stop action)
    (hSub : ∀ j, nodes j → others j)
    (hRest : ∀ j name, others j → ¬ nodes j → tree.node j = .identifier name →
      meaning (before j) name = none) : Advances others start stop action := by
  intro s hStart hFresh
  have h' := h s hStart fun j name hj => hFresh j name (hSub j hj)
  refine ⟨h'.outer, h'.meanings, fun j hj => h'.frame j fun hn => hj (hSub j hn), ?_⟩
  intro j name hj hNode
  by_cases hn : nodes j
  · exact h'.bound j name hn hNode
  · rw [h'.frame j hn, hFresh j name hj hNode, hRest j name hj hn hNode]

theorem Advances.congr {action : Bind tree.size α} (h : Advances nodes start stop action)
    (hSame : ∀ j, nodes j ↔ others j) : Advances others start stop action := by
  obtain rfl : nodes = others := funext fun j => propext (hSame j)
  exact h

theorem Advances.map {action : Bind tree.size α} (f : α → β)
    (h : Advances nodes start stop action) : Advances nodes start stop (f <$> action) := h

/-- An action that goes through no node changes nothing before another one. -/
theorem Advances.after {first : Bind tree.size α} {next : α → Bind tree.size β}
    (hFirst : Advances (fun _ => False) start start first)
    (hNext : ∀ value, Advances nodes start stop (next value)) :
    Advances nodes start stop (first >>= next) :=
  (hFirst.bind hNext fun _ h => h.elim).congr fun j => by simp

/-- An action that goes through no node changes nothing after another one. -/
theorem Advances.andThen {first : Bind tree.size α} {next : α → Bind tree.size β}
    (hFirst : Advances nodes start stop first)
    (hNext : ∀ value, Advances (fun _ => False) stop stop (next value)) :
    Advances nodes start stop (first >>= next) :=
  (hFirst.bind hNext fun _ _ h => h.elim).congr fun j => by simp

/-- Go on with what a name stands for. -/
theorem Advances.lookup {name : String} {next : Option Binding → Bind tree.size α}
    (h : ∀ found, found.map (·.symbol) = meaning start name →
      Advances nodes start stop (next found)) :
    Advances nodes start stop (lookup name >>= next) := by
  intro s hStart hFresh
  exact h (s.scopes.lookup name) (congrFun hStart name) s hStart hFresh

/-- **What happens in a scope of its own stays there.** -/
theorem Advances.inScope {action : Bind tree.size α} (h : Advances nodes start stop action) :
    Advances nodes start start (inScope action) := by
  intro s hStart hFresh
  have h' := h { s with scopes := s.scopes.push } hStart hFresh
  have hPop : (action.run { s with scopes := s.scopes.push }).2.scopes.pop.2 = s.scopes := by
    have hOuter : (action.run { s with scopes := s.scopes.push }).2.scopes.outer =
        s.scopes.innermost :: s.scopes.outer := h'.outer
    unfold Scopes.pop
    rw [hOuter]
  exact ⟨congrArg Scopes.outer hPop, (congrArg symbols hPop).trans hStart, h'.frame, h'.bound⟩

theorem meaning_append_singleton (events : List (Event tree.toArena)) (event : Event tree.toArena)
    (name : String) : meaning (events ++ [event]) name =
      if (tree.node event.node).declaredName? = some name then some (symbolOf name event.node)
      else meaning events name := by
  unfold meaning
  rw [List.reverse_append, List.reverse_singleton, List.singleton_append, List.find?_cons]
  by_cases hName : (tree.node event.node).declaredName? = some name
  · simp [hName]
  · simp [hName]

/-- **A declaration gives its name a meaning.** -/
theorem Advances.declare {i : tree.Id} {name : String} (type : Option TypeRef) (reached : Bool)
    (hName : (tree.node i).declaredName? = some name) :
    Advances (· = i) start (start ++ [⟨reached, i⟩]) (declare i name type) := by
  intro s hStart _
  have hMeanings : symbols (s.scopes.declare name ⟨symbolOf name i, type⟩) =
      meaning (start ++ [⟨reached, i⟩]) := by
    funext other
    rw [meaning_append_singleton, symbols]
    by_cases hEq : other = name
    · subst hEq
      simp [Scopes.lookup_declare_self, hName]
    · rw [Scopes.lookup_declare_of_ne _ _ hEq, hName, if_neg (by simpa using Ne.symm hEq)]
      exact congrFun hStart other
  have hFrame : ∀ j, j ≠ i → (s.oracle.setSymbol i (symbolOf name i)).symbolOf j =
      s.oracle.symbolOf j := by
    intro j hj
    rw [Oracle.symbolOf_setSymbol, if_neg (Ne.symm hj)]
  have hBound : ∀ j other, j = i → tree.node j ≠ .identifier other := by
    rintro j other rfl hNode
    simp [hNode, Node.declaredName?] at hName
  have hNone : ∀ {s' : State tree.size} j other, j = i → tree.node j = .identifier other →
      s'.oracle.symbolOf j = meaning (before j) other :=
    fun j other hj hNode => absurd hNode (hBound j other hj)
  cases type with
  | none => exact ⟨rfl, hMeanings, hFrame, hNone⟩
  | some type => exact ⟨rfl, hMeanings, hFrame, hNone⟩

/-- A node that is no name may get any symbol. -/
theorem Advances.mark {i : tree.Id} (symbol : String)
    (hNode : ∀ name, tree.node i ≠ .identifier name) :
    Advances (· = i) start start (mark i symbol) := by
  intro s hStart _
  refine ⟨rfl, hStart, ?_, ?_⟩
  · intro j hj
    exact (Oracle.symbolOf_setSymbol ..).trans (if_neg (Ne.symm hj))
  · rintro j name rfl h
    exact absurd h (hNode name)

/-- A name gets the symbol that it means. -/
theorem Advances.markName {i : tree.Id} {name symbol : String}
    (hNode : tree.node i = .identifier name) (hMeaning : meaning (before i) name = some symbol) :
    Advances (· = i) start start (Binder.mark i symbol) := by
  intro s hStart _
  refine ⟨rfl, hStart, ?_, ?_⟩
  · intro j hj
    exact (Oracle.symbolOf_setSymbol ..).trans (if_neg (Ne.symm hj))
  · rintro j other rfl h
    obtain rfl : name = other := by simpa [hNode] using h
    exact ((Oracle.symbolOf_setSymbol ..).trans (if_pos rfl)).trans hMeaning.symm

/-- One action for each element of a list, through different nodes. -/
theorem Advances.forM {ι : Type} {action : ι → Bind tree.size Unit} {through : ι → tree.Id → Prop}
    (progress : List ι → List (Event tree.toArena)) {xs : List ι}
    (hEach : ∀ earlier x later, xs = earlier ++ x :: later →
      Advances (through x) (progress earlier) (progress (earlier ++ [x])) (action x))
    (hApart : xs.Pairwise fun x y => ∀ j, through x j → ¬ through y j) :
    Advances (fun j => ∃ x ∈ xs, through x j) (progress []) (progress xs) (xs.forM action) := by
  induction xs generalizing progress with
  | nil =>
      exact (Advances.pure ()).congr fun j => by simp
  | cons x xs ih =>
      rw [List.pairwise_cons] at hApart
      have hRest := ih (fun earlier => progress (x :: earlier))
        (fun earlier y later hSplit => hEach (x :: earlier) y later (by rw [hSplit]; rfl)) hApart.2
      refine ((hEach [] x xs rfl).bind (fun _ => hRest) ?_).congr fun j => by simp
      rintro j hx ⟨y, hy, hj⟩
      exact hApart.1 y hy j hx hj

/-- The same for actions whose results are collected. -/
theorem Advances.mapM {ι : Type} {action : ι → Bind tree.size α} {through : ι → tree.Id → Prop}
    (progress : List ι → List (Event tree.toArena)) {xs : List ι}
    (hEach : ∀ earlier x later, xs = earlier ++ x :: later →
      Advances (through x) (progress earlier) (progress (earlier ++ [x])) (action x))
    (hApart : xs.Pairwise fun x y => ∀ j, through x j → ¬ through y j) :
    Advances (fun j => ∃ x ∈ xs, through x j) (progress []) (progress xs) (xs.mapM action) := by
  induction xs generalizing progress with
  | nil =>
      rw [List.mapM_nil]
      exact (Advances.pure []).congr fun j => by simp
  | cons x xs ih =>
      rw [List.pairwise_cons] at hApart
      have hRest := ih (fun earlier => progress (x :: earlier))
        (fun earlier y later hSplit => hEach (x :: earlier) y later (by rw [hSplit]; rfl)) hApart.2
      rw [List.mapM_cons]
      refine ((hEach [] x xs rfl).bind (fun value =>
        hRest.andThen fun values => Advances.pure (value :: values)) ?_).congr fun j => by simp
      rintro j hx ⟨y, hy, hj⟩
      exact hApart.1 y hy j hx hj

end Rules

/-! ## Progress through the parts of a node -/

section Progress

variable {i c : tree.Id} {done rest : List tree.Id}

/-- The declarations that have happened when some parts of a node are over. -/
def progress (i : tree.Id) (done : List tree.Id) : List (Event tree.toArena) :=
  before i ++ enteredEvents i ++ reachedEvents done

theorem before_of_children (hSplit : (tree.node i).children = done ++ c :: rest) :
    before c = progress i done := by
  have hMem : c ∈ (tree.node i).children := by simp [hSplit]
  have hNodup := tree.children_nodup i
  rw [before_of_parent ((tree.parent_eq_some_iff c i).2 hMem), progress]
  rw [hSplit] at hNodup ⊢
  have hDone : ∀ e ∈ done, e ≠ c := by
    rintro e he rfl
    exact (List.nodup_append.1 hNodup).2.2 e he e List.mem_cons_self rfl
  rw [List.takeWhile_append_of_pos (by simpa using hDone), List.takeWhile_cons_of_neg (by simp),
    List.append_nil]

theorem reachedEvents_append (done rest : List tree.Id) :
    (reachedEvents (done ++ rest) : List (Event tree.toArena)) =
      reachedEvents done ++ reachedEvents rest := by
  simp [reachedEvents]

theorem progress_append (i c : tree.Id) (done : List tree.Id) :
    progress i (done ++ [c]) = progress i done ++ reachedEvents [c] := by
  simp only [progress, reachedEvents_append, List.append_assoc]

theorem progress_nil (hEntered : (tree.node i).entered = []) : progress i [] = before i := by
  simp [progress, enteredEvents, reachedEvents, hEntered]

/-- The nodes within one of some parts. -/
def WithinAny (parts : List tree.Id) (j : tree.Id) : Prop :=
  ∃ c ∈ parts, tree.isWithin j c = true

theorem withinAny_nil (j : tree.Id) : ¬ WithinAny [] j := by
  simp [WithinAny]

theorem withinAny_cons (c j : tree.Id) (rest : List tree.Id) :
    WithinAny (c :: rest) j ↔ tree.isWithin j c = true ∨ WithinAny rest j := by
  simp [WithinAny]

/-- Nothing is both within a part of a node and within a later one. -/
theorem not_withinAny_later {j : tree.Id} (hSplit : (tree.node i).children = done ++ c :: rest)
    (hj : tree.isWithin j c = true) : ¬ WithinAny rest j := by
  rintro ⟨e, he, hje⟩
  have hNodup := tree.children_nodup i
  obtain rfl := eq_of_isWithin_parts (p := i) (by simp [hSplit]) (by simp [hSplit, he]) hj hje
  rw [hSplit, List.nodup_append, List.nodup_cons] at hNodup
  exact hNodup.2.1.1 he

/-- Different parts of a node share nothing. -/
theorem pairwise_apart (i : tree.Id) : (tree.node i).children.Pairwise fun c e =>
    ∀ j, tree.isWithin j c = true → ¬ tree.isWithin j e = true := by
  refine (tree.children_nodup i).imp_of_mem ?_
  intro c e hc he hNe j hjc hje
  exact hNe (eq_of_isWithin_parts hc he hjc hje)

/-- **One part of a node after another.** -/
theorem Advances.part {α β : Type} {stop : List (Event tree.toArena)} {first : Bind tree.size α}
    {next : α → Bind tree.size β} (hSplit : (tree.node i).children = done ++ c :: rest)
    (hFirst : Advances (fun j => tree.isWithin j c = true) (before c)
      (before c ++ reachedEvents [c]) first)
    (hNext : ∀ value, Advances (WithinAny rest) (progress i (done ++ [c])) stop (next value)) :
    Advances (WithinAny (c :: rest)) (progress i done) stop (first >>= next) := by
  rw [before_of_children hSplit, ← progress_append] at hFirst
  refine (hFirst.bind hNext fun j hj => not_withinAny_later hSplit hj).congr fun j => ?_
  rw [withinAny_cons]

/-- The last part of a node. -/
theorem Advances.lastPart {α : Type} {action : Bind tree.size α}
    (hSplit : (tree.node i).children = done ++ c :: [])
    (h : Advances (fun j => tree.isWithin j c = true) (before c) (before c ++ reachedEvents [c])
      action) : Advances (WithinAny [c]) (progress i done) (progress i (done ++ [c])) action := by
  rw [before_of_children hSplit, ← progress_append] at h
  exact h.congr fun j => by simp [WithinAny]

/-- After the last part there is nothing left to bind. -/
theorem Advances.last {α : Type} (value : α) :
    Advances (WithinAny []) (progress i done) (progress i done) (Pure.pure value) :=
  (Advances.pure value).congr fun j => ⟨fun h => h.elim, fun h => withinAny_nil j h⟩

end Progress

/-! ## Nodes -/

section Nodes

variable {i c : tree.Id}

theorem reachedEvents_of_opensScope (h : (tree.node i).opensScope = true) :
    (reachedEvents [i] : List (Event tree.toArena)) = [] := by
  simp [reachedEvents, exposed_eq i, h]

theorem reachedEvents_of_isLocal (h : (tree.node i).isLocal = true) :
    (reachedEvents [i] : List (Event tree.toArena)) =
      reachedEvents (tree.node i).children ++ [⟨true, i⟩] := by
  simp [reachedEvents, exposed_eq i, not_opensScope_of_isLocal h, h]

theorem reachedEvents_of_plain (hOpens : (tree.node i).opensScope = false)
    (hLocal : (tree.node i).isLocal = false) :
    (reachedEvents [i] : List (Event tree.toArena)) = reachedEvents (tree.node i).children := by
  simp [reachedEvents, exposed_eq i, hOpens, hLocal]

/-- A node that is no name is bound with its parts. -/
theorem Advances.node {α : Type} {start stop : List (Event tree.toArena)} {parts : List tree.Id}
    {action : Bind tree.size α} (hNode : ∀ name, tree.node i ≠ .identifier name)
    (hChildren : (tree.node i).children = parts)
    (h : Advances (WithinAny parts) start stop action) :
    Advances (fun j => tree.isWithin j i = true) start stop action := by
  subst hChildren
  refine h.widen ?_ ?_
  · rintro j ⟨c, hc, hj⟩
    exact isWithin_of_part hj hc
  · intro j name hj hNot hName
    rcases isWithin_iff_part.1 hj with rfl | ⟨c, hc, hjc⟩
    · exact absurd hName (hNode name)
    · exact absurd ⟨c, hc, hjc⟩ hNot

/-- The parts of a node and then the node itself. -/
theorem Advances.thenSelf {α β : Type} {start middle stop : List (Event tree.toArena)}
    {parts : List tree.Id} {first : Bind tree.size α} {next : α → Bind tree.size β}
    (hChildren : (tree.node i).children = parts)
    (hFirst : Advances (WithinAny parts) start middle first)
    (hNext : ∀ value, Advances (· = i) middle stop (next value)) :
    Advances (fun j => tree.isWithin j i = true) start stop (first >>= next) := by
  subst hChildren
  refine (hFirst.bind hNext ?_).congr fun j => ?_
  · rintro j ⟨c, hc, hj⟩ rfl
    exact Nat.lt_irrefl _ (depth_lt_of_isWithin_part hc hj)
  · rw [isWithin_iff_part, or_comm]
    rfl

/-- **A local declaration or out variable** declares its name after all its parts. -/
theorem Advances.local {α : Type} {parts : List tree.Id} {init : Bind tree.size α} {name : String}
    (type : α → Option TypeRef) (hLocal : (tree.node i).isLocal = true)
    (hName : (tree.node i).declaredName? = some name) (hChildren : (tree.node i).children = parts)
    (hInit : Advances (WithinAny parts) (progress i []) (progress i parts) init) :
    Advances (fun j => tree.isWithin j i = true) (before i) (before i ++ reachedEvents [i])
      (init >>= fun value => discard (Binder.declare i name (type value)) >>= fun _ =>
        Pure.pure (type value)) := by
  have hEntered : (tree.node i).entered = [] := by
    cases hNode : tree.node i <;> simp_all [Node.isLocal, Node.entered, Node.params]
  have hStop : before i ++ reachedEvents [i] = progress i parts ++ [⟨true, i⟩] := by
    rw [reachedEvents_of_isLocal hLocal, progress, hChildren]
    simp [enteredEvents, hEntered]
  rw [progress_nil hEntered] at hInit
  rw [hStop]
  exact Advances.thenSelf hChildren hInit fun value =>
    ((Advances.declare (type value) true hName).map _).andThen fun _ => Advances.pure _

/-- The nodes that are no name, have no scope of their own and declare nothing. -/
def isPlain {ι : Type} : Node ι → Bool
  | .compilationUnit .. => false
  | .identifier .. => false
  | node => !node.opensScope && !node.isLocal

/-- **A plain node** is bound part by part. -/
theorem Advances.plain {α : Type} {parts : List tree.Id} {action : Bind tree.size α}
    (hPlain : isPlain (tree.node i) = true) (hChildren : (tree.node i).children = parts)
    (h : Advances (WithinAny parts) (progress i []) (progress i parts) action) :
    Advances (fun j => tree.isWithin j i = true) (before i) (before i ++ reachedEvents [i])
      action := by
  have hNode : (∀ name, tree.node i ≠ .identifier name) ∧ (tree.node i).opensScope = false ∧
      (tree.node i).isLocal = false ∧ (tree.node i).entered = [] := by
    cases hKind : tree.node i <;>
      simp_all [isPlain, Node.opensScope, Node.isLocal, Node.entered, Node.params]
  obtain ⟨hName, hOpens, hLocal, hEntered⟩ := hNode
  have hStop : progress i parts = before i ++ reachedEvents [i] := by
    rw [reachedEvents_of_plain hOpens hLocal, progress, hChildren]
    simp [enteredEvents, hEntered]
  rw [progress_nil hEntered, hStop] at h
  exact h.node hName hChildren

/-- A plain node without parts. -/
theorem Advances.leaf {α : Type} (value : α) (hPlain : isPlain (tree.node i) = true)
    (hChildren : (tree.node i).children = []) :
    Advances (fun j => tree.isWithin j i = true) (before i) (before i ++ reachedEvents [i])
      (Pure.pure value : Bind tree.size α) :=
  Advances.plain hPlain hChildren (Advances.last value)

end Nodes

/-! ## Parentheses -/

section Parentheses

variable {c inner : tree.Id}

theorem before_parens (h : tree.node c = .parenthesized inner) : before inner = before c := by
  have hSplit : (tree.node c).children = [] ++ inner :: [] := by rw [h]; rfl
  rw [before_of_children hSplit, progress_nil (by rw [h]; rfl)]

theorem before_stripParens (c : tree.Id) : before (tree.stripParens c) = before c := by
  fun_induction Arena.stripParens with
  | case1 c inner h ih => rw [ih, before_parens h]
  | case2 c h => rfl

theorem exposed_stripParens (c : tree.Id) :
    tree.exposed (tree.stripParens c) = tree.exposed c := by
  fun_induction Arena.stripParens with
  | case1 c inner h ih =>
      rw [ih, exposed_eq c, h]
      simp [Node.opensScope, Node.children, Node.isLocal]
  | case2 c h => rfl

/-- Between an expression and the parentheses around it there are only parentheses. -/
theorem isWithin_stripParens_or {j : tree.Id} (hj : tree.isWithin j c = true) :
    tree.isWithin j (tree.stripParens c) = true ∨ ∃ inner, tree.node j = .parenthesized inner := by
  fun_induction Arena.stripParens with
  | case1 c inner h ih =>
      rcases isWithin_iff_part.1 hj with rfl | ⟨e, he, hje⟩
      · exact .inr ⟨inner, h⟩
      · rw [h] at he
        obtain rfl := List.mem_singleton.1 he
        exact ih hje
  | case2 c h => exact .inl hj

/-- What binds an expression binds the parentheses around it. -/
theorem Advances.parens {α : Type} {start stop : List (Event tree.toArena)}
    {action : Bind tree.size α}
    (h : Advances (fun j => tree.isWithin j (tree.stripParens c) = true) start stop action) :
    Advances (fun j => tree.isWithin j c = true) start stop action := by
  refine h.widen ?_ ?_
  · intro j hj
    exact isWithin_trans hj (isWithin_stripParens c)
  · intro j name hj hNot hName
    rcases isWithin_stripParens_or hj with hIn | ⟨inner, hParens⟩
    · exact absurd hIn hNot
    · simp [hName] at hParens

end Parentheses

/-! ## Scopes of parameters -/

section Parameters

variable {start : List (Event tree.toArena)} {params : List tree.Id}

theorem Advances.declareParameter {param : tree.Id} (inferred : Option TypeRef)
    (hParam : (tree.node param).kind = .parameter) :
    Advances (· = param) start (start ++ [⟨false, param⟩])
      (declareParameter tree param inferred) := by
  unfold Binder.declareParameter
  cases hNode : tree.node param with
  | parameter name type => exact (Advances.declare _ false (by rw [hNode]; rfl)).map _
  | _ => simp [hNode, Node.kind] at hParam

/-- Different parameters are different nodes. -/
theorem pairwise_ne (hNodup : params.Nodup) :
    params.Pairwise fun p q => ∀ j, j = p → ¬ j = q := by
  refine hNodup.imp ?_
  rintro p q hNe j rfl
  exact hNe

theorem Advances.forM_declareParameter (hParams : ∀ p ∈ params, (tree.node p).kind = .parameter)
    (hNodup : params.Nodup) :
    Advances (· ∈ params) start (start ++ params.map (⟨false, ·⟩))
      (params.forM fun param => Binder.declareParameter tree param none) := by
  have hEach : ∀ earlier p later, params = earlier ++ p :: later →
      Advances (fun j => j = p) (start ++ earlier.map (⟨false, ·⟩))
        (start ++ (earlier ++ [p]).map (⟨false, ·⟩)) (Binder.declareParameter tree p none) := by
    intro earlier p later hSplit
    rw [List.map_append, ← List.append_assoc]
    exact Advances.declareParameter none (hParams p (by simp [hSplit]))
  have h := Advances.forM (fun done => start ++ done.map (⟨false, ·⟩)) hEach (pairwise_ne hNodup)
  rw [List.map_nil, List.append_nil] at h
  exact h.congr fun j => by simp

/-- The parameters of a lambda are declared in order, wherever the first takes its type from. -/
theorem Advances.declareParameters (element : Option TypeRef)
    (hParams : ∀ p ∈ params, (tree.node p).kind = .parameter) (hNodup : params.Nodup) :
    Advances (· ∈ params) start (start ++ params.map (⟨false, ·⟩))
      (Binder.declareParameters tree params element) := by
  cases params with
  | nil =>
      rw [List.map_nil, List.append_nil]
      exact (Advances.pure ()).congr fun j => by simp
  | cons first rest =>
      rw [List.nodup_cons] at hNodup
      have hFirst : Advances (· = first) start (start ++ [⟨false, first⟩])
          (Binder.declareParameter tree first element) :=
        Advances.declareParameter element (hParams first List.mem_cons_self)
      have hRest : Advances (· ∈ rest) (start ++ [⟨false, first⟩])
          (start ++ (first :: rest).map (⟨false, ·⟩))
          (rest.forM fun param => Binder.declareParameter tree param none) := by
        have hEvents : start ++ (first :: rest).map (⟨false, ·⟩) =
            start ++ [⟨false, first⟩] ++ rest.map (⟨false, ·⟩) := by simp
        rw [hEvents]
        exact Advances.forM_declareParameter (fun p hp => hParams p (List.mem_cons_of_mem _ hp))
          hNodup.2
      refine (hFirst.bind (fun _ => hRest) ?_).congr fun j => by simp
      rintro j rfl
      exact hNodup.1

/-- A parameter has no parts, and declares nothing by being over. -/
theorem parameter_alone {p : tree.Id} (hParam : (tree.node p).kind = .parameter) :
    tree.exposed p = [] ∧ ∀ j, tree.isWithin j p = true → j = p := by
  cases hNode : tree.node p with
  | parameter name type =>
      refine ⟨by simp [exposed_eq, hNode, Node.opensScope, Node.isLocal, Node.children], ?_⟩
      intro j hj
      rcases isWithin_iff_part.1 hj with hEq | ⟨e, he, -⟩
      · exact hEq
      · simp [hNode, Node.children] at he
  | _ => simp [hNode, Node.kind] at hParam

/-- **A lambda or method:** its parameters are declared in a scope of its own, and its body is bound
there. -/
theorem Advances.scope {α : Type} {i body : tree.Id} {declares : Bind tree.size Unit}
    {action : Bind tree.size α} (hOpens : (tree.node i).opensScope = true)
    (hSplit : (tree.node i).children = params ++ body :: [])
    (hParams : ∀ p ∈ params, (tree.node p).kind = .parameter)
    (hDeclares : Advances (· ∈ params) (before i) (before i ++ enteredEvents i) declares)
    (hBody : Advances (fun j => tree.isWithin j body = true) (before body)
      (before body ++ reachedEvents [body]) action) :
    Advances (fun j => tree.isWithin j i = true) (before i) (before i ++ reachedEvents [i])
      (Binder.inScope (declares >>= fun _ => action)) := by
  -- parameters expose nothing, so the body begins with what is entered
  have hExposed : (reachedEvents params : List (Event tree.toArena)) = [] := by
    rw [reachedEvents, List.map_eq_nil_iff, List.flatMap_eq_nil_iff]
    exact fun p hp => (parameter_alone (hParams p hp)).1
  have hStart : before body = before i ++ enteredEvents i := by
    rw [before_of_children hSplit, progress, hExposed, List.append_nil]
  have hNodup := tree.children_nodup i
  rw [hStart] at hBody
  rw [reachedEvents_of_opensScope hOpens, List.append_nil]
  have hApart : ∀ j, j ∈ params → ¬ tree.isWithin j body = true := by
    intro j hj hWithin
    have hj' : j ∈ (tree.node i).children := by simp [hSplit, hj]
    obtain rfl := eq_of_isWithin_parts (c := j) hj' (by simp [hSplit]) (isWithin_self j) hWithin
    rw [hSplit, List.nodup_append] at hNodup
    exact hNodup.2.2 j hj j (by simp) rfl
  refine (hDeclares.bind (fun _ => hBody) hApart).inScope.widen ?_ ?_
  · rintro j (hj | hj)
    · exact isWithin_of_mem_children (by simp [hSplit, hj])
    · exact isWithin_of_part hj (by simp [hSplit])
  · intro j name hj hNot hName
    rcases isWithin_iff_part.1 hj with rfl | ⟨e, he, hje⟩
    · simp [hName, Node.opensScope] at hOpens
    · rw [hSplit, List.mem_append, List.mem_singleton] at he
      rcases he with he | rfl
      · exact absurd (.inl ((parameter_alone (hParams e he)).2 j hje ▸ he)) hNot
      · exact absurd (.inr hje) hNot

end Parameters

end StateGuard.Binder
