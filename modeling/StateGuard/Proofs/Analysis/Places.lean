import StateGuard.Proofs.Analysis.Transport
import StateGuard.Proofs.Source.Heads

/-!
# The order of places

A report lists places by where they begin, then by where they end.  In the tree of a text that order
can be told without looking at the text: what is to the left comes first; of two nodes one inside the
other, the inner one comes first if the outer one begins with it, and the outer one otherwise.  So two
trees that correspond to each other list their findings in the same order, whatever their texts look
like.

## Main results

* `Tree.span_lt_of_isEarlier`: the order of places in the tree of a text.
* `Embedding.isEarlier_map`: corresponding nodes have the same order.
* `Context.Transfer.le_map`: corresponding findings have the same order in reports.
-/

namespace StateGuard

namespace Arena

/-! ## Earlier nodes -/

section Earlier

variable {arena : Arena}

/-- A node begins with another one: that is the node itself, its head, the head of that and so on. -/
inductive BeginsWith : arena.Id → arena.Id → Prop where
  | refl (i : arena.Id) : BeginsWith i i
  | head {i c j : arena.Id} (hHead : (arena.node i).head? = some c) (h : BeginsWith c j) :
      BeginsWith i j

/-- One node comes before another in the order of places. -/
def IsEarlier (i j : arena.Id) : Prop :=
  LeftOf i j ∨ i ≠ j ∧
    (arena.isWithin j i = true ∧ ¬ BeginsWith i j ∨ arena.isWithin i j = true ∧ BeginsWith j i)

theorem mem_children_of_head? {i c : arena.Id} (h : (arena.node i).head? = some c) :
    c ∈ (arena.node i).children := by
  obtain ⟨others, hParts⟩ := Node.exists_children_of_head? h
  rw [hParts]
  exact List.mem_cons_self

/-- Of two nodes of a tree one is earlier. -/
theorem isEarlier_total {i j : arena.Id} (hi : i ∈ arena.preorder) (hj : j ∈ arena.preorder)
    (hNe : i ≠ j) : IsEarlier i j ∨ IsEarlier j i := by
  have hSplit : ∀ {i j : arena.Id}, [i, j].Sublist arena.preorder →
      IsEarlier i j ∨ IsEarlier j i := by
    intro i j hBefore
    obtain ⟨-, -, ⟨hNe, hWithin⟩ | hLeft⟩ := pair_sublist_subtree_iff.1 hBefore
    · by_cases hBegins : BeginsWith i j
      · exact .inr (.inr ⟨hNe.symm, .inr ⟨hWithin, hBegins⟩⟩)
      · exact .inl (.inr ⟨hNe, .inl ⟨hWithin, hBegins⟩⟩)
    · exact .inl (.inl hLeft)
  rcases pair_sublist_or_pair_sublist hi hj hNe with hBefore | hBefore
  · exact hSplit hBefore
  · exact (hSplit hBefore).symm

end Earlier

/-! ## Counterparts -/

namespace Embedding

variable {A B : Arena} {e : Embedding A B} {i j : A.Id}

theorem leftOf_map (hi : e.kept i = true) (hj : e.kept j = true) (h : LeftOf i j) :
    LeftOf (e.map i) (e.map j) := by
  obtain ⟨p, c, d, hPair, hic, hjd⟩ := h
  have hc : e.kept c = true := e.kept_of_isWithin hi hic
  have hd : e.kept d = true := e.kept_of_isWithin hj hjd
  have hp : e.kept p = true :=
    e.kept_parent hc ((A.parent_eq_some_iff c p).2 (mem_of_pair_sublist hPair).1)
  refine ⟨e.map p, e.map c, e.map d, ?_, ?_, ?_⟩
  · rw [e.node_map hp, Node.children_map]
    exact hPair.map e.map
  · rw [e.isWithin_map hi hc, hic]
  · rw [e.isWithin_map hj hd, hjd]

theorem beginsWith_map (hi : e.Whole i) (h : BeginsWith i j) : BeginsWith (e.map i) (e.map j) := by
  induction h with
  | refl i => exact .refl _
  | @head i c j hHead _ ih =>
      refine .head (c := e.map c) ?_ (ih (hi.part (mem_children_of_head? hHead)))
      rw [hi.node, Node.head?_map, hHead, Option.map_some]

theorem beginsWith_of_map (hi : e.Whole i) (hj : e.kept j = true)
    (h : BeginsWith (e.map i) (e.map j)) : BeginsWith i j := by
  generalize hStart : e.map i = k at h
  generalize hStop : e.map j = l at h
  induction h generalizing i with
  | refl k =>
      obtain rfl := e.injective hi.kept hj (hStart.trans hStop.symm)
      exact .refl i
  | head hHead _ ih =>
      rw [← hStart, hi.node, Node.head?_map] at hHead
      obtain ⟨c, hPart, rfl⟩ := Option.map_eq_some_iff.1 hHead
      exact .head hPart (ih (hi.part (mem_children_of_head? hPart)) rfl hStop)

/-- **Corresponding nodes have the same order.** -/
theorem isEarlier_map (hi : e.Whole i) (hj : e.Whole j) (h : IsEarlier i j) :
    IsEarlier (e.map i) (e.map j) := by
  rcases h with hLeft | ⟨hNe, ⟨hWithin, hBegins⟩ | ⟨hWithin, hBegins⟩⟩
  · exact .inl (leftOf_map hi.kept hj.kept hLeft)
  · have hApart : e.map i ≠ e.map j := fun hEq => hNe (e.injective hi.kept hj.kept hEq)
    refine .inr ⟨hApart, .inl ⟨?_, fun hThere => hBegins (beginsWith_of_map hi hj.kept hThere)⟩⟩
    rw [e.isWithin_map hj.kept hi.kept, hWithin]
  · have hApart : e.map i ≠ e.map j := fun hEq => hNe (e.injective hi.kept hj.kept hEq)
    refine .inr ⟨hApart, .inr ⟨?_, beginsWith_map hj hBegins⟩⟩
    rw [e.isWithin_map hi.kept hj.kept, hWithin]

end Embedding

end Arena

/-! ## Places -/

theorem Position.Before.key_lt {a b : Position} (h : a.Before b) : a.key < b.key :=
  lt_of_le_of_ne (Position.le_iff_key.1 h.1) fun hKey => h.2 (Position.key_inj.1 hKey)

theorem Span.key_lt_of_start {a b : Span} (h : a.start.Before b.start) : a.key < b.key := by
  rw [key, key, Prod.Lex.toLex_lt_toLex]
  exact .inl h.key_lt

namespace Tree

open Arena

/-- The tree of some text. -/
def IsRead (tree : Tree) : Prop :=
  ∃ resolve file source, Tree.ofSource resolve file source = .ok tree

variable {tree : Tree} {i j : tree.Id}

theorem IsRead.isNested (h : tree.IsRead) : tree.IsNested := by
  obtain ⟨resolve, file, source, hTree⟩ := h
  exact isNested_ofSource hTree

theorem IsRead.isHeaded (h : tree.IsRead) : tree.IsHeaded := by
  obtain ⟨resolve, file, source, hTree⟩ := h
  exact isHeaded_ofSource hTree

theorem IsRead.isProgram (h : tree.IsRead) : tree.IsProgram := by
  obtain ⟨resolve, file, source, hTree⟩ := h
  exact isProgram_ofSource hTree

theorem start_eq_of_beginsWith (hHeaded : tree.IsHeaded) (hi : i ≠ tree.root)
    (h : BeginsWith i j) : (tree.span j).start = (tree.span i).start := by
  induction h with
  | refl i => rfl
  | head hHead _ ih =>
      have hPart := ne_root_of_mem_children (mem_children_of_head? hHead)
      rw [ih hPart, hHeaded.head _ _ hi hHead]

/-- What a node does not begin with stands behind its beginning, parameters aside. -/
theorem start_before_of_not_beginsWith (hNested : tree.IsNested) (hHeaded : tree.IsHeaded)
    (hi : i ≠ tree.root) (hWithin : tree.isWithin j i = true)
    (hKind : (tree.node j).kind ≠ .parameter) (h : ¬ BeginsWith i j) :
    (tree.span i).start.Before (tree.span j).start := by
  induction i using induction_parts with
  | step i ih =>
      rcases isWithin_iff_part.1 hWithin with rfl | ⟨c, hc, hInner⟩
      · exact absurd (.refl j) h
      have hLater := (Span.contains_iff.1 (hNested.contains_of_isWithin hInner)).1
      cases hHead : (tree.node i).head? with
      | none =>
          refine (hHeaded.rest i c hi hHead hc ?_).trans_le hLater
          intro hParameter
          rw [eq_of_isWithin_parameter hParameter hInner] at hKind
          exact hKind hParameter
      | some first =>
          obtain ⟨others, hParts⟩ := Node.exists_children_of_head? hHead
          have hFirst : first ∈ (tree.node i).children := mem_children_of_head? hHead
          have hRoot := ne_root_of_mem_children hFirst
          rw [← hHeaded.head i first hi hHead]
          rw [hParts] at hc
          rcases List.mem_cons.1 hc with rfl | hOther
          · exact ih c hFirst hRoot hInner fun hBegins => h (.head hHead hBegins)
          · have hApart := hNested.apart i
            rw [hParts, List.pairwise_cons] at hApart
            exact (hNested.covers first hRoot).trans_le
              (Position.le_trans (hApart.1 c hOther) hLater)

/-- **The order of places in the tree of a text.** -/
theorem span_lt_of_isEarlier (hRead : tree.IsRead) (hi : i ≠ tree.root) (hj : j ≠ tree.root)
    (hKind : (tree.node j).kind ≠ .parameter) (h : IsEarlier i j) :
    (tree.span i).key < (tree.span j).key := by
  have hNested := hRead.isNested
  rcases h with hLeft | ⟨hNe, ⟨hWithin, hBegins⟩ | ⟨hWithin, hBegins⟩⟩
  · exact Span.key_lt_of_start ((hNested.covers i hi).trans_le (hNested.stop_le_of_leftOf hLeft))
  · exact Span.key_lt_of_start
      (start_before_of_not_beginsWith hNested hRead.isHeaded hi hWithin hKind hBegins)
  · -- both begin at one place, and the inner one ends earlier
    have hStart : (tree.span i).start = (tree.span j).start :=
      start_eq_of_beginsWith hRead.isHeaded hj hBegins
    have hStop := (Span.contains_iff.1 (hNested.contains_of_isWithin hWithin)).2
    have hOrder : Precedes j i := pair_sublist_subtree_iff.2
      ⟨hRead.isProgram.connected j, hRead.isProgram.connected i, .inl ⟨hNe.symm, hWithin⟩⟩
    have hSpan : (tree.span i).key ≤ (tree.span j).key := by
      rw [Span.key, Span.key, Prod.Lex.toLex_le_toLex]
      exact .inr ⟨by rw [hStart], Position.le_iff_key.1 hStop⟩
    exact lt_of_le_of_ne hSpan fun hKey =>
      hNested.ne_of_precedes hOrder hj (Span.key_inj.1 hKey).symm

end Tree

/-! ## Findings -/

namespace Context

/-- The order of two findings of a unit in its report. -/
theorem le_iff {ctx : Context} {f g : Finding ctx.Id} :
    (ctx.diagnostic f).le (ctx.diagnostic g) = true ↔
      (ctx.tree.span f.node).key < (ctx.tree.span g.node).key ∨
      ctx.tree.span f.node = ctx.tree.span g.node ∧
        (f.rule.code < g.rule.code ∨ f.rule.code = g.rule.code ∧ f.node.val ≤ g.node.val) := by
  rw [Diagnostic.le_iff_key]
  simp only [Diagnostic.key, diagnostic, report, Diagnostic.code, Prod.Lex.toLex_le_toLex,
    Span.key_inj, lt_self_iff_false, false_or, true_and]

/-- A finding is about a node that rules look at: a node below the root, and no parameter. -/
theorem isFindable_of_mem {ctx : Context} {rules : List Rule} {f : Finding ctx.Id}
    (hProgram : ctx.tree.IsProgram) (h : f ∈ ctx.findings rules) :
    f.node ≠ ctx.tree.root ∧ (ctx.tree.node f.node).kind ≠ .parameter ∧
      (ctx.tree.node f.node).kind.isInner = true := by
  have hInspects := (mem_findingsAt_iff.1 (mem_findings_iff.1 h).2).2.2.1
  have hInner := isInner_of_inspects hInspects
  refine ⟨?_, ?_, hInner⟩
  · intro hRoot
    rw [hRoot, hProgram.root_kind] at hInner
    simp [NodeKind.isInner] at hInner
  · intro hKind
    rw [hKind] at hInspects
    cases hRule : f.rule <;> simp [hRule, Rule.inspects, Rule.kinds] at hInspects

namespace Transfer

open Arena

variable {A B : Context} (t : Transfer A B)

/-- **Corresponding findings have the same order in reports.** -/
theorem le_map (hA : A.tree.IsRead) (hB : B.tree.IsRead) {rules : List Rule} {f g : Finding A.Id}
    (hf : f ∈ A.findings rules) (hg : g ∈ A.findings rules) (hKeptF : t.kept f.node = true)
    (hKeptG : t.kept g.node = true) (h : (A.diagnostic f).le (A.diagnostic g) = true) :
    (B.diagnostic (t.move f)).le (B.diagnostic (t.move g)) = true := by
  obtain ⟨hRootF, hKindF, hInnerF⟩ := isFindable_of_mem hA.isProgram hf
  obtain ⟨hRootG, hKindG, hInnerG⟩ := isFindable_of_mem hA.isProgram hg
  rw [le_iff] at h ⊢
  by_cases hNode : f.node = g.node
  · -- at one node the codes decide, here and there
    have hHere : f.rule.code < g.rule.code ∨ f.rule.code = g.rule.code := by
      rw [hNode] at h
      rcases h with hSpan | ⟨-, hCode | ⟨hCode, -⟩⟩
      · exact absurd hSpan (lt_irrefl _)
      · exact .inl hCode
      · exact .inr hCode
    refine .inr ⟨congrArg (B.tree.span ∘ t.map) hNode, ?_⟩
    rcases hHere with hCode | hCode
    · exact .inl hCode
    · exact .inr ⟨hCode, Nat.le_of_eq (congrArg (Fin.val ∘ t.map) hNode)⟩
  · have hEarlier : IsEarlier f.node g.node := by
      rcases isEarlier_total (mem_findings_iff.1 hf).1 (mem_findings_iff.1 hg).1 hNode with
        hFirst | hSecond
      · exact hFirst
      · have hLater := Tree.span_lt_of_isEarlier hA hRootG hRootF hKindF hSecond
        rcases h with hSpan | ⟨hSpan, -⟩
        · exact absurd hSpan (lt_asymm hLater)
        · rw [hSpan] at hLater
          exact absurd hLater (lt_irrefl _)
    have hWholeF := Embedding.whole_of_kept hKeptF hInnerF
    have hWholeG := Embedding.whole_of_kept hKeptG hInnerG
    have hNotRoot : ∀ {i}, t.kept i = true → i ≠ A.tree.root → t.map i ≠ B.tree.root := by
      intro i hi hNe hEq
      exact hNe (t.injective hi t.kept_root (hEq.trans t.map_root.symm))
    have hKind : (B.tree.node (t.map g.node)).kind ≠ .parameter := by
      rw [t.node_map hKeptG, Node.kind_map]
      exact hKindG
    exact .inl (Tree.span_lt_of_isEarlier hB (hNotRoot hKeptF hRootF) (hNotRoot hKeptG hRootG) hKind
      (Embedding.isEarlier_map hWholeF hWholeG hEarlier))

end Transfer

end Context

end StateGuard
