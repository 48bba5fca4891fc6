import Mathlib.Data.Fintype.Card
import Mathlib.Data.Fintype.EquivFin
import Mathlib.Data.List.Nodup
import Mathlib.Logic.Relation
import StateGuard.Syntax.Tree

/-!
# Tables of nodes that are forests

A host hands over a table of nodes that name their parts by number, and the acceptance test has to
decide whether the table is a forest before anything indexes into it.  `IsForest` says what a forest
is without reference to that test: numbers in range, no part listed twice anywhere, nothing above
the root, and no node above itself.

The test decides acyclicity by counting: it follows the parents of a node for at most as many steps
as there are nodes.  The bound is enough because the nodes on a chain of parents are pairwise
different as long as no node is above itself (`exists_chain`), and it is never too generous because
a chain that ends has a length, and lengths fall from a node to its parent.

## Main results

* `Arena.isForest_table`: what an arena holds is a forest.
* `Arena.table_ofNodes`: acceptance keeps the table as it is.
* `Arena.exists_ofNodes_of_isForest`: a forest is accepted.
* `Tree.ofParts_accepts_exactly_forests`: the three together, for trees with spans and a file.
-/

namespace StateGuard

namespace Node

variable {ι κ : Type}

/-- Replacing references twice is replacing them once. -/
theorem map_mapChildren {ι' : Type} (node : Node ι) (f : (c : ι) → c ∈ node.children → κ)
    (g : κ → ι') : (node.mapChildren f).map g = node.mapChildren fun c hc => g (f c hc) := by
  cases node with
  | localDeclaration name type init => cases init <;> simp [map, mapChildren]
  | returnStatement value => cases value <;> simp [map, mapChildren]
  | ifStatement condition thenBranch elseBranch => cases elseBranch <;> simp [map, mapChildren]
  | _ => simp [map, mapChildren, Function.comp_def]

/-- Replacing every reference by itself changes nothing. -/
theorem mapChildren_self (node : Node ι) : (node.mapChildren fun c _ => c) = node := by
  cases node with
  | localDeclaration name type init => cases init <;> simp [mapChildren]
  | returnStatement value => cases value <;> simp [mapChildren]
  | ifStatement condition thenBranch elseBranch => cases elseBranch <;> simp [mapChildren]
  | _ => simp [mapChildren]

/-- Replacing references replaces the parts. -/
theorem children_map (f : ι → κ) (node : Node ι) :
    (node.map f).children = node.children.map f := by
  rw [map, children_mapChildren]
  simp

end Node

/-- Node `c` is listed as a part by node `p` of a table. -/
def IsPart (nodes : Array (Node Nat)) (c p : Nat) : Prop :=
  ∃ node, nodes[p]? = some node ∧ c ∈ node.children

/-- A table of nodes is a forest in which `root` has no parent. -/
structure IsForest (nodes : Array (Node Nat)) (root : Nat) : Prop where
  root_lt : root < nodes.size
  part_lt : ∀ c p, IsPart nodes c p → c < nodes.size
  not_part_of_itself : ∀ i, ¬ IsPart nodes i i
  not_part_root : ∀ p, ¬ IsPart nodes root p
  /-- No number occurs twice among the parts of all nodes, nor twice among those of one. -/
  nodup : (nodes.toList.flatMap (·.children)).Nodup
  acyclic : ∀ i, ¬ Relation.TransGen (IsPart nodes) i i

namespace Arena

/-! ## Arenas are forests -/

/-- The nodes of an arena as a table of numbers. -/
def table (arena : Arena) : Array (Node Nat) :=
  Array.ofFn fun i => (arena.node i).map Fin.val

@[simp]
theorem size_table (arena : Arena) : arena.table.size = arena.size := by simp [table]

/-- To be listed in the table is to be a part in the arena. -/
theorem isPart_table_iff {arena : Arena} {c p : Nat} :
    IsPart arena.table c p ↔
      ∃ (hc : c < arena.size) (hp : p < arena.size), arena.parent ⟨c, hc⟩ = some ⟨p, hp⟩ := by
  constructor
  · rintro ⟨node, hNode, hMem⟩
    obtain ⟨hp, rfl⟩ := Array.getElem?_eq_some_iff.1 hNode
    rw [size_table] at hp
    simp only [table, Array.getElem_ofFn, Node.children_map] at hMem
    obtain ⟨⟨c, hc⟩, hChild, rfl⟩ := List.mem_map.1 hMem
    exact ⟨hc, hp, (arena.parent_eq_some_iff _ _).2 hChild⟩
  · rintro ⟨hc, hp, hParent⟩
    refine ⟨(arena.node ⟨p, hp⟩).map Fin.val, by simp [table, hp], ?_⟩
    rw [Node.children_map]
    exact List.mem_map.2 ⟨⟨c, hc⟩, (arena.parent_eq_some_iff _ _).1 hParent, rfl⟩

/-- Going up a chain of parents, the distance from the top falls. -/
theorem depth_lt_of_transGen {arena : Arena} {c p : Nat}
    (h : Relation.TransGen (IsPart arena.table) c p) :
    ∃ (hc : c < arena.size) (hp : p < arena.size), arena.depth ⟨p, hp⟩ < arena.depth ⟨c, hc⟩ := by
  induction h with
  | single hPart =>
      obtain ⟨hc, hp, hParent⟩ := isPart_table_iff.1 hPart
      exact ⟨hc, hp, depth_lt_of_parent hParent⟩
  | tail _ hPart ih =>
      obtain ⟨hc, hMid, hLt⟩ := ih
      obtain ⟨_, hp, hParent⟩ := isPart_table_iff.1 hPart
      exact ⟨hc, hp, Nat.lt_trans (depth_lt_of_parent hParent) hLt⟩

theorem nodup_parts_table (arena : Arena) : (arena.table.toList.flatMap (·.children)).Nodup := by
  have hTable : arena.table.toList = arena.ids.map fun i => (arena.node i).map Fin.val := by
    rw [table, Array.toList_ofFn, List.ofFn_eq_map, ids]
  rw [hTable, List.flatMap_map, List.nodup_flatMap]
  constructor
  · intro p _
    rw [Node.children_map]
    exact (arena.children_nodup p).map Fin.val_injective
  · refine (List.nodup_finRange arena.size).imp ?_
    intro p q hNe c hp hq
    simp only [Node.children_map] at hp hq
    obtain ⟨d, hd, rfl⟩ := List.mem_map.1 hp
    obtain ⟨e, he, hEq⟩ := List.mem_map.1 hq
    obtain rfl := Fin.val_injective hEq
    -- one node would have both as its parent
    have hParents := ((arena.parent_eq_some_iff e p).2 hd).symm.trans
      ((arena.parent_eq_some_iff e q).2 he)
    exact hNe (Option.some.inj hParents)

/-- **The nodes of an arena are a forest.** -/
theorem isForest_table (arena : Arena) : IsForest arena.table arena.root where
  root_lt := by simp
  part_lt := by
    intro c p hPart
    obtain ⟨hc, _, _⟩ := isPart_table_iff.1 hPart
    simpa using hc
  not_part_of_itself := by
    intro i hPart
    obtain ⟨hi, _, hParent⟩ := isPart_table_iff.1 hPart
    exact Nat.lt_irrefl _ (depth_lt_of_parent hParent)
  not_part_root := by
    intro p hPart
    obtain ⟨_, _, hParent⟩ := isPart_table_iff.1 hPart
    rw [Fin.eta, arena.parent_root] at hParent
    simp at hParent
  nodup := arena.nodup_parts_table
  acyclic := by
    intro i hCycle
    obtain ⟨_, _, hLt⟩ := depth_lt_of_transGen hCycle
    exact Nat.lt_irrefl _ hLt

/-! ## Acceptance keeps the table -/

section Accept

variable {n : Nat}

theorem map_val_resolve (nodes : Fin n → Node Nat) (h : ∀ p, ∀ c ∈ (nodes p).children, c < n)
    (p : Fin n) : (resolve nodes h p).map Fin.val = nodes p := by
  rw [resolve, Node.map_mapChildren]
  exact Node.mapChildren_self (nodes p)

/-- **Acceptance keeps the nodes and the root as they are.** -/
theorem table_ofNodes {nodes : Array (Node Nat)} {root : Nat} {arena : Arena}
    (h : ofNodes nodes root = .ok arena) : arena.table = nodes ∧ arena.root.val = root := by
  unfold ofNodes at h
  split at h
  · dsimp only at h
    split at h
    · simp at h
    · split at h
      · simp at h
      · simp only [Except.ok.injEq] at h
        subst h
        refine ⟨?_, rfl⟩
        apply Array.ext
        · simp
        · intro i hi hi'
          simp only [table, Array.getElem_ofFn, get_eq_getElem, Vector.getElem_ofFn]
          exact map_val_resolve _ _ _
  · simp at h

/-! ## Forests are accepted -/

/-- An edge is recorded when its part is in range, may have a parent and has none yet. -/
theorem exists_claim {root : Nat} {es : List (Fin n × Nat)} {owners : Owners n} {p : Fin n}
    {c : Nat} (hRec : Recorded root es owners) (hLt : c < n) (hSelf : c ≠ p) (hRoot : c ≠ root)
    (hFresh : c ∉ es.map (·.2)) : ∃ owners', claim root owners p c = .ok owners' := by
  have hFree : owners[c] = none := by
    rw [Option.eq_none_iff_forall_ne_some]
    intro q hOwner
    have hMem := (hRec.owner_iff ⟨c, hLt⟩ q).1 hOwner
    exact hFresh (List.mem_map.2 ⟨_, hMem, rfl⟩)
  refine ⟨owners.set c (some p), ?_⟩
  rw [claim, dif_pos hLt, if_neg (by simp [hSelf, hRoot])]
  simp [hFree]

/-- A list of edges is recorded when each of them fits and no two have the same part. -/
theorem exists_claimAll {root : Nat} {rest es : List (Fin n × Nat)} {owners : Owners n}
    (hRec : Recorded root es owners) (hLt : ∀ e ∈ rest, e.2 < n) (hSelf : ∀ e ∈ rest, e.2 ≠ e.1)
    (hRoot : ∀ e ∈ rest, e.2 ≠ root) (hNodup : ((es ++ rest).map (·.2)).Nodup) :
    ∃ owners', claimAll root rest owners = .ok owners' := by
  induction rest generalizing es owners with
  | nil => exact ⟨owners, rfl⟩
  | cons e rest ih =>
      obtain ⟨p, c⟩ := e
      have hFresh : c ∉ es.map (·.2) := by
        intro hMem
        rw [List.map_append, List.nodup_append] at hNodup
        exact hNodup.2.2 c hMem c (by simp) rfl
      obtain ⟨owners', hClaim⟩ := exists_claim hRec (hLt (p, c) (by simp)) (hSelf (p, c) (by simp))
        (hRoot (p, c) (by simp)) hFresh
      obtain ⟨owners'', hAll⟩ := ih (hRec.claim hClaim)
        (fun e he => hLt e (List.mem_cons_of_mem _ he))
        (fun e he => hSelf e (List.mem_cons_of_mem _ he))
        (fun e he => hRoot e (List.mem_cons_of_mem _ he)) (by simpa using hNodup)
      refine ⟨owners'', ?_⟩
      simp only [claimAll, hClaim, hAll]

/-- The node above another one, as recorded. -/
def Above (owners : Owners n) (p c : Fin n) : Prop := owners.get c = some p

/-- When no node is above itself, the chain of parents of a node ends, and no node occurs on it
twice. -/
theorem exists_chain {owners : Owners n}
    (hAcyclic : ∀ i, ¬ Relation.TransGen (Above owners) i i) (i : Fin n) :
    ∃ chain : List (Fin n), chain.Nodup ∧ (∀ p ∈ chain, Relation.TransGen (Above owners) p i) ∧
      rise owners chain.length i = some chain.length := by
  have : Std.Irrefl (Relation.TransGen (Above owners)) := ⟨hAcyclic⟩
  have hFounded := Finite.wellFounded_of_trans_of_irrefl (Relation.TransGen (Above owners))
  induction i using hFounded.induction with
  | _ i ih =>
      cases hOwner : owners.get i with
      | none => exact ⟨[], by simp, by simp, by simp [rise, hOwner]⟩
      | some p =>
          have hStep : Above owners p i := hOwner
          obtain ⟨chain, hNodup, hAbove, hRise⟩ := ih p (.single hStep)
          refine ⟨p :: chain, ?_, ?_, ?_⟩
          · exact List.nodup_cons.2 ⟨fun hMem => hAcyclic p (hAbove p hMem), hNodup⟩
          · intro q hq
            rcases List.mem_cons.1 hq with rfl | hq
            · exact .single hStep
            · exact (hAbove q hq).tail hStep
          · simp only [List.length_cons, rise, hOwner, hRise, Option.map_some]

theorem rise_mono {owners : Owners n} {fuel fuel' d : Nat} {i : Fin n} (hLe : fuel ≤ fuel')
    (h : rise owners fuel i = some d) : rise owners fuel' i = some d := by
  induction hLe with
  | refl => exact h
  | step _ ih => exact rise_succ ih

/-- As many steps as there are nodes are enough to come to the end of every chain. -/
theorem isSome_rise {owners : Owners n}
    (hAcyclic : ∀ i, ¬ Relation.TransGen (Above owners) i i) (i : Fin n) :
    (rise owners n i).isSome := by
  obtain ⟨chain, hNodup, _, hRise⟩ := exists_chain hAcyclic i
  have hLength : chain.length ≤ n := by
    simpa using hNodup.length_le_card
  rw [rise_mono hLength hRise]
  rfl

end Accept

theorem isPart_of_getElem {nodes : Array (Node Nat)} {c p : Nat} (hp : p < nodes.size)
    (h : c ∈ nodes[p].children) : IsPart nodes c p :=
  ⟨nodes[p], Array.getElem?_eq_getElem hp, h⟩

theorem map_snd_edges (nodes : Array (Node Nat)) :
    (edges fun i : Fin nodes.size => nodes[i]).map (·.2) =
      nodes.toList.flatMap (·.children) := by
  have hNodes : nodes.toList = (List.finRange nodes.size).map fun i => nodes[i] := by
    apply List.ext_getElem
    · simp
    · intro i hi hi'
      simp
  rw [edges, List.map_flatMap, hNodes, List.flatMap_map]
  simp [Function.comp_def]

/-- **Every forest is accepted.** -/
theorem exists_ofNodes_of_isForest {nodes : Array (Node Nat)} {root : Nat}
    (h : IsForest nodes root) : ∃ arena, ofNodes nodes root = .ok arena := by
  let table : Fin nodes.size → Node Nat := fun i => nodes[i]
  have hEdge : ∀ e ∈ edges table, IsPart nodes e.2 e.1 := by
    rintro ⟨p, c⟩ hMem
    exact isPart_of_getElem p.isLt (mem_edges.1 hMem)
  have hStart : Recorded root [] (Vector.replicate nodes.size none) := Recorded.empty root
  have hNodup : ((edges table).map (·.2)).Nodup := by
    rw [map_snd_edges]
    exact h.nodup
  obtain ⟨owners, hClaims⟩ := exists_claimAll hStart
    (fun e he => h.part_lt _ _ (hEdge e he))
    (fun e he hSelf => h.not_part_of_itself e.1 (hSelf ▸ hEdge e he))
    (fun e he hRoot => h.not_part_root e.1 (hRoot ▸ hEdge e he)) (by simpa using hNodup)
  have hRec : Recorded root (edges table) owners := by simpa using hStart.claimAll hClaims
  have hPart : ∀ p c : Fin nodes.size, Above owners p c → IsPart nodes c p := by
    intro p c hAbove
    exact hEdge (p, c) ((hRec.owner_iff c p).1 hAbove)
  have hAcyclic : ∀ i, ¬ Relation.TransGen (Above owners) i i := by
    intro i hCycle
    have hSwap : Relation.TransGen (fun c p => Above owners p c) i i :=
      Relation.transGen_swap.2 hCycle
    exact h.acyclic i (hSwap.lift Fin.val fun c p hAbove => hPart p c hAbove)
  have hRises : (List.finRange nodes.size).find?
      (fun i => (rise owners nodes.size i).isNone) = none := by
    rw [List.find?_eq_none]
    intro i _
    have hSome := isSome_rise hAcyclic i
    rw [Option.isSome_iff_ne_none] at hSome
    simpa using hSome
  unfold ofNodes
  rw [dif_pos h.root_lt]
  dsimp only
  split
  · next e hError =>
      rw [hClaims] at hError
      simp at hError
  · next owners' hClaims' =>
      obtain rfl : owners = owners' := by
        rw [hClaims] at hClaims'
        exact Except.ok.inj hClaims'
      split
      · next i hFound =>
          rw [hRises] at hFound
          simp at hFound
      · exact ⟨_, rfl⟩

end Arena

namespace Tree

/-- What acceptance keeps: the file, the root, and every part with its span. -/
theorem parts_ofParts {file : String} {parts : Array Part} {root : Nat} {tree : Tree}
    (h : ofParts file parts root = .ok tree) :
    tree.file = file ∧ tree.root.val = root ∧ tree.table = parts.map (·.node) ∧
      tree.parts = parts.toList := by
  unfold ofParts at h
  split at h
  · simp at h
  · next arena hArena =>
      simp only [Except.ok.injEq] at h
      subst h
      obtain ⟨hTable, hRoot⟩ := Arena.table_ofNodes hArena
      refine ⟨rfl, hRoot, hTable, ?_⟩
      have hSize : arena.size = parts.size := by simpa using congrArg Array.size hTable
      apply List.ext_getElem
      · simp [Tree.parts, Arena.ids, hSize]
      · intro i hi hi'
        have hLt : i < parts.size := hi'
        have hNode : (arena.node ⟨i, hSize ▸ hLt⟩).map Fin.val = parts[i].node := by
          have hEntry := congrArg (·[i]?) hTable
          simpa only [Arena.table, Array.getElem?_ofFn, hSize, hLt, dif_pos, Array.getElem?_map,
            Array.getElem?_eq_getElem hLt, Option.map_some, Option.some.injEq] using hEntry
        simp [Tree.parts, Arena.ids, hNode]

/-- **Acceptance decides forests.** A list of parts becomes a tree exactly when its nodes are a
forest; otherwise the fault is about the tree and names the file.  A tree keeps the file, the root,
the nodes and their spans, and the parent of a node is the node that lists it. -/
theorem ofParts_accepts_exactly_forests (file : String) (parts : Array Part) (root : Nat) :
    ((∃ tree, ofParts file parts root = .ok tree) ↔ IsForest (parts.map (·.node)) root) ∧
    (¬ IsForest (parts.map (·.node)) root →
      ∃ fault, (ofParts file parts root).mapError (·.toFault file) = .error fault ∧
        fault.kind = .tree ∧ fault.file = some file) ∧
    (∀ tree, ofParts file parts root = .ok tree →
      tree.file = file ∧ tree.root.val = root ∧ tree.parts = parts.toList ∧
      (∀ c p : tree.Id, tree.parent c = some p ↔ IsPart (parts.map (·.node)) c p) ∧
      tree.parent tree.root = none) := by
  have hAccepted : (∃ tree, ofParts file parts root = .ok tree) ↔
      IsForest (parts.map (·.node)) root := by
    constructor
    · rintro ⟨tree, hTree⟩
      obtain ⟨_, hRoot, hTable, _⟩ := parts_ofParts hTree
      rw [← hTable, ← hRoot]
      exact tree.isForest_table
    · intro hForest
      obtain ⟨arena, hArena⟩ := Arena.exists_ofNodes_of_isForest hForest
      unfold ofParts
      split
      · next e hError =>
          rw [hArena] at hError
          simp at hError
      · exact ⟨_, rfl⟩
  refine ⟨hAccepted, ?_, ?_⟩
  · intro hNot
    cases hResult : ofParts file parts root with
    | ok tree => exact absurd (hAccepted.1 ⟨tree, hResult⟩) hNot
    | error e => exact ⟨e.toFault file, rfl, rfl, rfl⟩
  · intro tree hTree
    obtain ⟨hFile, hRoot, hTable, hParts⟩ := parts_ofParts hTree
    refine ⟨hFile, hRoot, hParts, ?_, tree.parent_root⟩
    intro c p
    rw [← hTable, Arena.isPart_table_iff]
    exact ⟨fun h => ⟨c.isLt, p.isLt, h⟩, fun ⟨_, _, h⟩ => h⟩

end Tree

end StateGuard
