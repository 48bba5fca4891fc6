import StateGuard.Syntax.Node

/-!
# Arenas of nodes

An arena is a finite table of nodes that refer to each other by position, in the shape of a
forest: every node has at most one parent, lists no part twice, and lies finitely far below a node
without a parent. One node is the root of the tree proper; the others without a parent are orphans.

`Arena.ofNodes` accepts exactly the tables of that shape. The measure `Arena.height` falls from a
node to its parts, and `Arena.depth` from a node to its parent, so every walk below ends.
-/

namespace StateGuard

/-- Nodes that refer to each other by position and form a forest. -/
structure Arena where
  /-- The number of nodes. -/
  size : Nat
  /-- The node at a position. -/
  node : Fin size → Node (Fin size)
  /-- The root of the tree. -/
  root : Fin size
  /-- The node of which a node is a part. -/
  parent : Fin size → Option (Fin size)
  /-- The number of nodes above a node. -/
  depth : Fin size → Nat
  parent_eq_some_iff : ∀ c p, parent c = some p ↔ c ∈ (node p).children
  children_nodup : ∀ p, (node p).children.Nodup
  parent_root : parent root = none
  depth_of_parent : ∀ c p, parent c = some p → depth c = depth p + 1
  depth_le_size : ∀ i, depth i ≤ size

/-- Why a table of nodes is not a forest with the given root. -/
inductive ArenaError where
  | rootOutOfRange (root count : Nat)
  | missingChild (node child : Nat)
  | forbiddenChild (node child : Nat)
  | twoParents (child first second : Nat)
  | parentCycle (node : Nat)
  deriving DecidableEq, Repr, Inhabited

/-- The wording of a rejection. -/
def ArenaError.message : ArenaError → String
  | .rootOutOfRange root count =>
    "root " ++ toString root ++ " out of range (" ++ toString count ++ " nodes)"
  | .missingChild node child =>
    "node " ++ toString node ++ " references missing child " ++ toString child
  | .forbiddenChild node child =>
    "node " ++ toString node ++ " cannot have node " ++ toString child ++ " as a child"
  | .twoParents child first second =>
    "node " ++ toString child ++ " has two parents (" ++ toString first ++ " and " ++
      toString second ++ ")"
  | .parentCycle node => "parent cycle through node " ++ toString node

namespace Arena

/-- A position in the arena. -/
abbrev Id (arena : Arena) : Type := Fin arena.size

/-- The positions in ascending order. -/
def ids (arena : Arena) : List arena.Id := List.finRange arena.size

/-- How far a node may still reach down. -/
def height (arena : Arena) (i : arena.Id) : Nat := arena.size - arena.depth i

/-- A part lies lower than the node it belongs to. -/
theorem height_lt_of_mem_children {arena : Arena} {c p : arena.Id}
    (h : c ∈ (arena.node p).children) : arena.height c < arena.height p := by
  have hParent := (arena.parent_eq_some_iff c p).2 h
  have hDepth := arena.depth_of_parent c p hParent
  have hBound := arena.depth_le_size c
  unfold height
  omega

/-- A parent lies less deep than its part. -/
theorem depth_lt_of_parent {arena : Arena} {c p : arena.Id} (h : arena.parent c = some p) :
    arena.depth p < arena.depth c := by
  have := arena.depth_of_parent c p h
  omega

/-! ## Acceptance -/

section Accept

variable {n : Nat}

/-- The parents found so far. -/
abbrev Owners (n : Nat) : Type := Vector (Option (Fin n)) n

/-- Both ways to read a place of a table agree. -/
theorem get_eq_getElem {α : Type} (xs : Vector α n) (i : Fin n) :
    xs.get i = getElem xs i.val i.isLt := rfl

/-- Record `p` as the parent of `c`. -/
def claim (root : Nat) (owners : Owners n) (p : Fin n) (c : Nat) :
    Except ArenaError (Owners n) :=
  if h : c < n then
    if c = p.val ∨ c = root then .error (.forbiddenChild p c)
    else
      match owners[c] with
      | some q => .error (.twoParents c q p)
      | none => .ok (owners.set c (some p))
  else .error (.missingChild p c)

/-- Record the parents of a list of edges, stopping at the first that does not fit. -/
def claimAll (root : Nat) : List (Fin n × Nat) → Owners n → Except ArenaError (Owners n)
  | [], owners => .ok owners
  | (p, c) :: rest, owners =>
    match claim root owners p c with
    | .error e => .error e
    | .ok owners => claimAll root rest owners

/-- The edges of a table, by node and then in source order. -/
def edges (nodes : Fin n → Node Nat) : List (Fin n × Nat) :=
  (List.finRange n).flatMap fun p => (nodes p).children.map fun c => (p, c)

/-- The number of steps from a node up to one without a parent, if at most `fuel`. -/
def rise (owners : Owners n) : Nat → Fin n → Option Nat
  | 0, i => if (owners.get i).isNone then some 0 else none
  | fuel + 1, i =>
    match owners.get i with
    | none => some 0
    | some p => (rise owners fuel p).map (· + 1)

/-- What the parents recorded for a list of edges say about it. -/
structure Recorded (root : Nat) (es : List (Fin n × Nat)) (owners : Owners n) : Prop where
  lt : ∀ e ∈ es, e.2 < n
  ne_root : ∀ e ∈ es, e.2 ≠ root
  owner_iff : ∀ (c p : Fin n), owners.get c = some p ↔ (p, c.val) ∈ es
  nodup : (es.map (·.2)).Nodup

theorem Recorded.empty (root : Nat) : Recorded root [] (Vector.replicate n none) where
  lt := by simp
  ne_root := by simp
  owner_iff := by simp [get_eq_getElem]
  nodup := by simp

theorem Recorded.claim {root : Nat} {es : List (Fin n × Nat)} {owners owners' : Owners n}
    {p : Fin n} {c : Nat} (hRec : Recorded root es owners)
    (h : Arena.claim root owners p c = .ok owners') : Recorded root (es ++ [(p, c)]) owners' := by
  unfold Arena.claim at h
  split at h
  · next hLt =>
      split at h
      · simp at h
      · next hAllowed =>
          split at h
          · simp at h
          · next hFree =>
              simp only [Except.ok.injEq] at h
              subst h
              have hFresh : ∀ q, (q, c) ∉ es := fun q hq => by
                have := (hRec.owner_iff ⟨c, hLt⟩ q).2 hq
                simp [get_eq_getElem, hFree] at this
              refine ⟨?_, ?_, ?_, ?_⟩
              · intro e he
                rcases List.mem_append.1 he with he | he
                · exact hRec.lt e he
                · simp only [List.mem_singleton] at he
                  subst he
                  exact hLt
              · intro e he
                rcases List.mem_append.1 he with he | he
                · exact hRec.ne_root e he
                · simp only [List.mem_singleton] at he
                  subst he
                  exact fun hRoot => hAllowed (Or.inr hRoot)
              · intro d q
                have hOld := hRec.owner_iff d q
                simp only [get_eq_getElem, Vector.getElem_set, List.mem_append,
                  List.mem_singleton, Prod.mk.injEq]
                by_cases hEq : c = d.val
                · subst hEq
                  simp only [if_true, Option.some.injEq, and_true]
                  exact ⟨fun hq => Or.inr hq.symm, fun hq => by
                    rcases hq with hq | hq
                    · exact absurd hq (hFresh q)
                    · exact hq.symm⟩
                · simp only [hEq, if_false]
                  rw [← get_eq_getElem, hOld]
                  constructor
                  · exact Or.inl
                  · rintro (hq | ⟨_, hq⟩)
                    · exact hq
                    · exact absurd hq.symm hEq
              · rw [List.map_append, List.map_singleton, List.nodup_append]
                refine ⟨hRec.nodup, by simp, ?_⟩
                intro x hx y hy
                simp only [List.mem_singleton] at hy
                subst hy
                rintro rfl
                obtain ⟨⟨q, d⟩, hMem, rfl⟩ := List.mem_map.1 hx
                exact hFresh q hMem
  · simp at h

theorem Recorded.claimAll {root : Nat} {rest es : List (Fin n × Nat)}
    {owners owners' : Owners n} (hRec : Recorded root es owners)
    (h : Arena.claimAll root rest owners = .ok owners') : Recorded root (es ++ rest) owners' := by
  induction rest generalizing es owners with
  | nil =>
      simp only [Arena.claimAll, Except.ok.injEq] at h
      subst h
      simpa using hRec
  | cons e rest ih =>
      obtain ⟨p, c⟩ := e
      simp only [Arena.claimAll] at h
      split at h
      · simp at h
      · next hClaim =>
          have := ih (hRec.claim hClaim) h
          simpa using this

theorem mem_edges {nodes : Fin n → Node Nat} {p : Fin n} {c : Nat} :
    (p, c) ∈ edges nodes ↔ c ∈ (nodes p).children := by
  simp [edges]

theorem rise_le {owners : Owners n} {fuel d : Nat} {i : Fin n}
    (h : rise owners fuel i = some d) : d ≤ fuel := by
  induction fuel generalizing i d with
  | zero =>
      simp only [rise] at h
      split at h <;> simp_all
  | succ fuel ih =>
      simp only [rise] at h
      split at h
      · simp only [Option.some.injEq] at h
        omega
      · obtain ⟨d', hRise, rfl⟩ := Option.map_eq_some_iff.1 h
        have := ih hRise
        omega

theorem rise_succ {owners : Owners n} {fuel d : Nat} {i : Fin n}
    (h : rise owners fuel i = some d) : rise owners (fuel + 1) i = some d := by
  induction fuel generalizing i d with
  | zero =>
      simp only [rise] at h ⊢
      split at h
      · next hNone =>
          rw [Option.isNone_iff_eq_none.1 hNone]
          exact h
      · simp at h
  | succ fuel ih =>
      rw [rise] at h ⊢
      split at h
      · exact h
      · obtain ⟨d', hRise, rfl⟩ := Option.map_eq_some_iff.1 h
        simp [ih hRise]

theorem rise_parent {owners : Owners n} {d : Nat} {c p : Fin n}
    (h : rise owners n c = some d) (hParent : owners.get c = some p) :
    ∃ d', rise owners n p = some d' ∧ d = d' + 1 := by
  cases n with
  | zero => exact absurd c.2 (by omega)
  | succ m =>
      rw [rise, hParent] at h
      obtain ⟨d', hRise, rfl⟩ := Option.map_eq_some_iff.1 h
      exact ⟨d', rise_succ hRise, rfl⟩

/-- The nodes of a table, once every reference is known to be in range. -/
def resolve (nodes : Fin n → Node Nat) (h : ∀ p, ∀ c ∈ (nodes p).children, c < n) (p : Fin n) :
    Node (Fin n) :=
  (nodes p).mapChildren fun c hc => ⟨c, h p c hc⟩

theorem mem_children_resolve {nodes : Fin n → Node Nat}
    {h : ∀ p, ∀ c ∈ (nodes p).children, c < n} {c p : Fin n} :
    c ∈ (resolve nodes h p).children ↔ c.val ∈ (nodes p).children := by
  rw [resolve, Node.children_mapChildren, List.mem_map]
  constructor
  · rintro ⟨d, _, rfl⟩
    exact d.2
  · intro hMem
    exact ⟨⟨c.val, hMem⟩, by simp, rfl⟩

theorem nodup_children_resolve {nodes : Fin n → Node Nat}
    {h : ∀ p, ∀ c ∈ (nodes p).children, c < n} {p : Fin n} (hNodup : (nodes p).children.Nodup) :
    (resolve nodes h p).children.Nodup := by
  have hVal : ((resolve nodes h p).children.map Fin.val) = (nodes p).children := by
    rw [resolve, Node.children_mapChildren, List.map_map]
    simp [Function.comp_def]
  rw [← hVal] at hNodup
  exact List.Pairwise.of_map Fin.val (fun _ _ hNe hEq => hNe (congrArg _ hEq)) hNodup

theorem nodup_children_of_edges {nodes : Fin n → Node Nat}
    (hNodup : ((edges nodes).map (·.2)).Nodup) (p : Fin n) : (nodes p).children.Nodup := by
  have hSub : List.Sublist ((nodes p).children.map fun c => (p, c)) (edges nodes) := by
    obtain ⟨before, after, hSplit⟩ := List.append_of_mem (List.mem_finRange p)
    rw [edges, hSplit, List.flatMap_append, List.flatMap_cons]
    exact (List.sublist_append_left _ _).trans (List.sublist_append_right _ _)
  have hMap : ((nodes p).children.map fun c => (p, c)).map (·.2) = (nodes p).children := by
    simp [Function.comp_def]
  exact hMap ▸ (hSub.map _).nodup hNodup

end Accept

/-- The arena of a table of nodes with a chosen root, or the first reason why it is none. Edges
are examined by node and in source order, then the chains of parents by node. -/
def ofNodes (nodes : Array (Node Nat)) (root : Nat) : Except ArenaError Arena :=
  if hRoot : root < nodes.size then
    let table : Fin nodes.size → Node Nat := fun i => nodes[i]
    match hClaims : claimAll root (edges table) (Vector.replicate nodes.size none) with
    | .error e => .error e
    | .ok owners =>
      match hRises : (List.finRange nodes.size).find?
          fun i => (rise owners nodes.size i).isNone with
      | some i => .error (.parentCycle i)
      | none =>
        have hRec : Recorded root (edges table) owners := by
          simpa using (Recorded.empty root).claimAll hClaims
        have hLt : ∀ p, ∀ c ∈ (table p).children, c < nodes.size :=
          fun p c hc => hRec.lt (p, c) (mem_edges.2 hc)
        have hRise : ∀ i, ∃ d, rise owners nodes.size i = some d := by
          intro i
          have := List.find?_eq_none.1 hRises i (List.mem_finRange i)
          exact Option.ne_none_iff_exists'.1 (by simpa using this)
        let resolved : Vector (Node (Fin nodes.size)) nodes.size :=
          Vector.ofFn fun p => resolve table hLt p
        have hResolved : ∀ p : Fin nodes.size, resolved.get p = resolve table hLt p := by
          intro p
          simp [resolved, get_eq_getElem]
        .ok {
          size := nodes.size
          node := fun i => resolved.get i
          root := ⟨root, hRoot⟩
          parent := fun i => owners.get i
          depth := fun i => (rise owners nodes.size i).getD 0
          parent_eq_some_iff := by
            intro c p
            rw [hRec.owner_iff, mem_edges, hResolved, mem_children_resolve]
          children_nodup := by
            intro p
            rw [hResolved]
            exact nodup_children_resolve (nodup_children_of_edges hRec.nodup p)
          parent_root := by
            rw [Option.eq_none_iff_forall_ne_some]
            intro p hParent
            exact hRec.ne_root _ ((hRec.owner_iff _ _).1 hParent) rfl
          depth_of_parent := by
            intro c p hParent
            obtain ⟨d, hd⟩ := hRise c
            obtain ⟨d', hd', rfl⟩ := rise_parent hd hParent
            simp [hd, hd']
          depth_le_size := by
            intro i
            obtain ⟨d, hd⟩ := hRise i
            simpa [hd] using rise_le hd }
  else .error (.rootOutOfRange root nodes.size)

end Arena

end StateGuard
