import StateGuard.Proofs.Source.Located
import StateGuard.Proofs.Syntax.Order

/-!
# Spans nest and identify nodes

The extents of a parsed term nest (`Parser.inOrder_members`) and the tokens of a text follow each other
(`Lexer.IsCut.ordered`).  Locating an extent takes it to the text between two tokens, which keeps the
order of places, so the spans of a tree nest in the same way.  `Tree.IsNested` says what one node and its
parts have to do with each other; what holds of nodes far apart follows by walking the tree.

## Main results

* `TokenStream.Follow.contains_locate`, `TokenStream.Follow.locate_injective`: locating keeps the order of
  extents and keeps them apart.
* `Tree.IsNested.start_le_of_precedes`, `Tree.IsNested.ne_of_precedes`: the spans of a nested tree follow
  source order and identify its nodes.
* `Tree.ofSource_spans_nest`: the trees of texts are nested.
* `Tree.blank_text_has_empty_span`: the one exception, a text without tokens.
-/

namespace StateGuard

theorem Span.contains_iff {outer inner : Span} : outer.contains inner = true ↔
    outer.start.le inner.start = true ∧ inner.stop.le outer.stop = true := by
  simp [Span.contains]

theorem Span.contains_trans {a b c : Span} (hab : a.contains b = true) (hbc : b.contains c = true) :
    a.contains c = true := by
  rw [contains_iff] at *
  exact ⟨Position.le_trans hab.1 hbc.1, Position.le_trans hbc.2 hab.2⟩

theorem Span.contains_antisymm {a b : Span} (hab : a.contains b = true) (hba : b.contains a = true) :
    a = b := by
  rw [contains_iff] at *
  obtain ⟨start, stop⟩ := a
  obtain ⟨start', stop'⟩ := b
  rw [Span.mk.injEq]
  exact ⟨Position.le_antisymm hab.1 hba.1, Position.le_antisymm hba.2 hab.2⟩

namespace TokenStream

/-! ## Locating extents -/

/-- Spans that cover something each and follow each other. -/
structure Follow (spans : Array Span) : Prop where
  covers : ∀ {i : Nat} {a : Span}, spans[i]? = some a → a.start.Before a.stop
  apart : ∀ {i j : Nat} {a b : Span}, spans[i]? = some a → spans[j]? = some b → i < j →
    a.stop.le b.start = true

/-- The spans of the tokens of a text follow each other. -/
theorem follow_spans {source : String} {stream : TokenStream}
    (h : TokenStream.ofSource source = .ok stream) :
    Follow (stream.tokens.map (·.span)).toArray := by
  obtain ⟨hCovers, hApart⟩ := (Lexer.isCut_tokensFrom h).ordered
  have hToken : ∀ {i : Nat} {a : Span}, (stream.tokens.map (·.span)).toArray[i]? = some a →
      ∃ t : Token, stream.tokens[i]? = some t ∧ t.span = a := by
    intro i a hAt
    simpa using hAt
  constructor
  · intro i a ha
    obtain ⟨t, ht, rfl⟩ := hToken ha
    exact (hCovers t (List.mem_of_getElem? ht)).2
  · intro i j a b ha hb hij
    obtain ⟨t, ht, rfl⟩ := hToken ha
    obtain ⟨u, hu, rfl⟩ := hToken hb
    obtain ⟨hi, rfl⟩ := List.getElem?_eq_some_iff.1 ht
    obtain ⟨hj, rfl⟩ := List.getElem?_eq_some_iff.1 hu
    exact List.pairwise_iff_getElem.1 hApart i j hi hj hij

/-- The extent covers some of so many tokens. -/
def Covers (size : Nat) (extent : Extent) : Prop :=
  extent.after < extent.before ∧ extent.before ≤ size

namespace Follow

variable {spans : Array Span} {e f : Extent}

/-- Where an extent begins and ends. -/
theorem exists_locate (spans : Array Span) (h : Covers spans.size e) :
    ∃ first last, spans[spans.size - e.before]? = some first ∧
      spans[spans.size - e.after - 1]? = some last ∧ locate spans e = ⟨first.start, last.stop⟩ := by
  obtain ⟨hCovers, hSize⟩ := h
  have hFirst : spans.size - e.before < spans.size := by omega
  have hLast : spans.size - e.after - 1 < spans.size := by omega
  refine ⟨_, _, Array.getElem?_eq_getElem hFirst, Array.getElem?_eq_getElem hLast, ?_⟩
  rw [locate, Array.getElem?_eq_getElem hFirst, Array.getElem?_eq_getElem hLast]

theorem start_le (h : Follow spans) {i j : Nat} {a b : Span} (ha : spans[i]? = some a)
    (hb : spans[j]? = some b) (hij : i ≤ j) : a.start.le b.start = true := by
  rcases Nat.lt_or_eq_of_le hij with hLt | rfl
  · exact Position.le_trans (h.covers ha).1 (h.apart ha hb hLt)
  · obtain rfl := Option.some.inj (ha.symm.trans hb)
    exact Position.le_refl _

theorem stop_le (h : Follow spans) {i j : Nat} {a b : Span} (ha : spans[i]? = some a)
    (hb : spans[j]? = some b) (hij : i ≤ j) : a.stop.le b.stop = true := by
  rcases Nat.lt_or_eq_of_le hij with hLt | rfl
  · exact Position.le_trans (h.apart ha hb hLt) (h.covers hb).1
  · obtain rfl := Option.some.inj (ha.symm.trans hb)
    exact Position.le_refl _

/-- What covers a token covers some text. -/
theorem before_locate (h : Follow spans) (he : Covers spans.size e) :
    (locate spans e).start.Before (locate spans e).stop := by
  obtain ⟨first, last, hFirst, hLast, hLocate⟩ := exists_locate spans he
  have hOrder : spans.size - e.before ≤ spans.size - e.after - 1 := by
    have := he.1
    omega
  have hStop := h.stop_le hFirst hLast hOrder
  rw [hLocate]
  exact (h.covers hFirst).trans_le hStop

/-- **A smaller extent has a smaller span.** -/
theorem contains_locate (h : Follow spans) (he : Covers spans.size e) (hf : Covers spans.size f)
    (hBefore : f.before ≤ e.before) (hAfter : e.after ≤ f.after) :
    (locate spans e).contains (locate spans f) = true := by
  obtain ⟨first, last, hFirst, hLast, hLocate⟩ := exists_locate spans he
  obtain ⟨first', last', hFirst', hLast', hLocate'⟩ := exists_locate spans hf
  have hStart := h.start_le hFirst hFirst' (by omega)
  have hStop := h.stop_le hLast' hLast (by omega)
  rw [hLocate, hLocate', Span.contains_iff]
  exact ⟨hStart, hStop⟩

/-- Extents one after the other have spans one after the other. -/
theorem stop_le_start_locate (h : Follow spans) (he : Covers spans.size e)
    (hf : Covers spans.size f) (hApart : f.before ≤ e.after) :
    (locate spans e).stop.le (locate spans f).start = true := by
  obtain ⟨first, last, -, hLast, hLocate⟩ := exists_locate spans he
  obtain ⟨first', last', hFirst', -, hLocate'⟩ := exists_locate spans hf
  have hOrder : spans.size - e.after - 1 < spans.size - f.before := by
    have := he.2
    have := he.1
    have := hf.2
    omega
  have hBetween := h.apart hLast hFirst' hOrder
  rw [hLocate, hLocate']
  exact hBetween

/-- No token begins where a later one begins. -/
theorem index_le_of_start_eq (h : Follow spans) {i j : Nat} {a b : Span} (ha : spans[i]? = some a)
    (hb : spans[j]? = some b) (hEq : a.start = b.start) : i ≤ j := by
  rw [← Nat.not_lt]
  intro hLt
  exact ((h.covers hb).trans_le (h.apart hb ha hLt)).2 hEq.symm

/-- No token ends where an earlier one ends. -/
theorem index_le_of_stop_eq (h : Follow spans) {i j : Nat} {a b : Span} (ha : spans[i]? = some a)
    (hb : spans[j]? = some b) (hEq : a.stop = b.stop) : i ≤ j := by
  rw [← Nat.not_lt]
  intro hLt
  exact (Position.Before.le_trans (h.apart hb ha hLt) (h.covers ha)).2 hEq.symm

/-- **Different extents have different spans.** -/
theorem locate_injective (h : Follow spans) (he : Covers spans.size e) (hf : Covers spans.size f)
    (hEq : locate spans e = locate spans f) : e = f := by
  obtain ⟨first, last, hFirst, hLast, hLocate⟩ := exists_locate spans he
  obtain ⟨first', last', hFirst', hLast', hLocate'⟩ := exists_locate spans hf
  rw [hLocate, hLocate', Span.mk.injEq] at hEq
  have := h.index_le_of_start_eq hFirst hFirst' hEq.1
  have := h.index_le_of_start_eq hFirst' hFirst hEq.1.symm
  have := h.index_le_of_stop_eq hLast hLast' hEq.2
  have := h.index_le_of_stop_eq hLast' hLast hEq.2.symm
  obtain ⟨before, after⟩ := e
  obtain ⟨before', after'⟩ := f
  simp only [Covers] at *
  rw [Extent.mk.injEq]
  omega

end Follow

end TokenStream

/-! ## Nested trees -/

namespace Tree

/-- The spans of the parts of a node lie in its own span one after the other; all nodes but the root
cover something, and more than each of their parts. -/
structure IsNested (tree : Tree) : Prop where
  covers : ∀ i, i ≠ tree.root → (tree.span i).start.Before (tree.span i).stop
  contains : ∀ c p, c ∈ (tree.node p).children → (tree.span p).contains (tree.span c) = true
  apart : ∀ p, (tree.node p).children.Pairwise fun a b =>
    (tree.span a).stop.le (tree.span b).start = true
  strict : ∀ c p, c ∈ (tree.node p).children → p ≠ tree.root → tree.span c ≠ tree.span p

namespace IsNested

variable {tree : Tree} {i d : tree.Id}

theorem contains_of_isWithin (h : tree.IsNested) (hWithin : tree.isWithin i d = true) :
    (tree.span d).contains (tree.span i) = true := by
  induction i using Arena.induction_parent with
  | step i ih =>
      rcases Arena.isWithin_iff.1 hWithin with rfl | ⟨p, hParent, hAbove⟩
      · simp [Span.contains]
      · exact Span.contains_trans (ih p hParent hAbove)
          (h.contains i p ((tree.parent_eq_some_iff i p).1 hParent))

/-- What lies to the left ends before. -/
theorem stop_le_of_leftOf (h : tree.IsNested) (hLeft : Arena.LeftOf d i) :
    (tree.span d).stop.le (tree.span i).start = true := by
  obtain ⟨p, c, e, hPair, hdc, hie⟩ := hLeft
  have hApart : (tree.span c).stop.le (tree.span e).start = true :=
    List.pairwise_iff_forall_sublist.1 (h.apart p) hPair
  have hd := (Span.contains_iff.1 (h.contains_of_isWithin hdc)).2
  have hi := (Span.contains_iff.1 (h.contains_of_isWithin hie)).1
  exact Position.le_trans hd (Position.le_trans hApart hi)

/-- **Nodes begin in source order.** -/
theorem start_le_of_precedes (h : tree.IsNested) (hBefore : Arena.Precedes d i) :
    (tree.span d).start.le (tree.span i).start = true := by
  obtain ⟨-, hi, ⟨-, hWithin⟩ | hLeft⟩ := Arena.pair_sublist_subtree_iff.1 hBefore
  · exact (Span.contains_iff.1 (h.contains_of_isWithin hWithin)).1
  · have hd : d ≠ tree.root := by
      rintro rfl
      simp [hLeft.not_isWithin'] at hi
    exact Position.le_trans (h.covers d hd).1 (h.stop_le_of_leftOf hLeft)

/-- **Spans identify nodes,** the root apart. -/
theorem ne_of_precedes (h : tree.IsNested) (hBefore : Arena.Precedes d i) (hd : d ≠ tree.root) :
    tree.span d ≠ tree.span i := by
  intro hEq
  rcases (Arena.pair_sublist_subtree_iff.1 hBefore).2.2 with ⟨hNe, hWithin⟩ | hLeft
  · -- the part of `d` that `i` lies in would cover all of `d`
    rcases Arena.isWithin_iff_part.1 hWithin with rfl | ⟨c, hc, hPart⟩
    · exact hNe rfl
    · have hInner := h.contains_of_isWithin hPart
      rw [← hEq] at hInner
      exact h.strict c d hc hd (Span.contains_antisymm hInner (h.contains c d hc))
  · have hStop := h.stop_le_of_leftOf hLeft
    rw [← hEq] at hStop
    exact ((h.covers d hd).trans_le hStop).2 rfl

end IsNested

end Tree

/-! ## Units -/

/-- Terms in a row are pairwise apart. -/
theorem Term.Spaced.pairwise {before after : Nat} {ts : List Term} (h : Spaced before ts after) :
    ts.Pairwise fun t u => u.extent.before ≤ t.extent.after := by
  induction ts generalizing before with
  | nil => exact .nil
  | cons t ts ih =>
      obtain ⟨-, -, hRest⟩ := h
      exact .cons (fun u hu => (hRest.bounds.2 u hu).1) (ih hRest)

namespace Parser

variable {resolve : String → String} {ts : List Lexeme} {unit : Term} {tree : Tree}

/-- The terms of a unit below the unit itself are tight and cover some of its lexemes. -/
theorem isTight_of_ne_root (hUnit : compilationUnit resolve ts = .ok unit) (hTree : unit.IsTree tree)
    {i : tree.Id} (hi : i ≠ tree.root) :
    (hTree.subterm i).IsTight ∧ TokenStream.Covers ts.length (hTree.subterm i).extent := by
  obtain ⟨m, hm, hMem⟩ := hTree.subterm_mem_parts hi
  obtain ⟨all, hAll, rfl⟩ := compilationUnit_eq_ok hUnit
  have hOrder := inOrder_members resolve ts hAll
  have hExtent := extent_of_mem_postorder hOrder hm hMem
  exact ⟨hOrder.nested m hm _ hMem, hExtent.2.2, hExtent.1⟩

/-- The parts of every term of a unit lie inside it one after the other. -/
theorem spaced_subterm (hUnit : compilationUnit resolve ts = .ok unit) (hTree : unit.IsTree tree)
    (i : tree.Id) :
    Term.Spaced (hTree.subterm i).extent.before (hTree.subterm i).node.children
      (hTree.subterm i).extent.after := by
  by_cases hi : i = tree.root
  · rw [hi, hTree.subterm_root]
    obtain ⟨all, hAll, rfl⟩ := compilationUnit_eq_ok hUnit
    exact (inOrder_members resolve ts hAll).spaced
  · exact (isTight_of_ne_root hUnit hTree hi).1.spaced

/-- A unit with a node below it has lexemes, and every term in it covers some of them. -/
theorem covers_subterm (hUnit : compilationUnit resolve ts = .ok unit) (hTree : unit.IsTree tree)
    {c : tree.Id} (hc : c ≠ tree.root) (i : tree.Id) :
    TokenStream.Covers ts.length (hTree.subterm i).extent := by
  have hSome : ts ≠ [] := by
    rintro rfl
    have hCovers := (isTight_of_ne_root hUnit hTree hc).2
    simp only [TokenStream.Covers, List.length_nil] at hCovers
    omega
  exact extent_of_compilationUnit hUnit (List.mem_of_getElem? (hTree.getElem?_subterm i)) hSome

/-- **The tree of a unit is nested,** if its lexemes stand at places that follow each other. -/
theorem isNested_of_compilationUnit {file : String} {spans : Array Span}
    (hUnit : compilationUnit resolve ts = .ok unit)
    (hToTree : unit.toTree file (TokenStream.locate spans) = .ok tree)
    (hFollow : TokenStream.Follow spans) (hSize : ts.length = spans.size) : tree.IsNested := by
  have hTree := Term.isTree_toTree hToTree
  have hSpan := Term.span_toTree hToTree
  have hTight : ∀ i, i ≠ tree.root → (hTree.subterm i).IsTight := fun i hi =>
    (isTight_of_ne_root hUnit hTree hi).1
  have hCovers : ∀ c, c ≠ tree.root → ∀ i,
      TokenStream.Covers spans.size (hTree.subterm i).extent := fun c hc i =>
    hSize ▸ covers_subterm hUnit hTree hc i
  have hParts : ∀ p, (tree.node p).children.map hTree.subterm =
      (hTree.subterm p).node.children := by
    intro p
    rw [← hTree.map_subterm_node, Node.children_map]
  have hPart : ∀ c p, c ∈ (tree.node p).children →
      hTree.subterm c ∈ (hTree.subterm p).node.children := fun c p hc =>
    hParts p ▸ List.mem_map_of_mem hc
  constructor
  · intro i hi
    rw [hSpan]
    exact hFollow.before_locate (hCovers i hi i)
  · intro c p hc
    have hc' := Arena.ne_root_of_mem_children hc
    obtain ⟨hBefore, hAfter⟩ := (spaced_subterm hUnit hTree p).bounds.2 _ (hPart c p hc)
    rw [hSpan, hSpan]
    exact hFollow.contains_locate (hCovers c hc' p) (hCovers c hc' c) hBefore hAfter
  · intro p
    have hApart := (spaced_subterm hUnit hTree p).pairwise
    rw [← hParts, List.pairwise_map] at hApart
    refine hApart.imp_of_mem fun {a b} ha hb hOrder => ?_
    have ha' := Arena.ne_root_of_mem_children ha
    rw [hSpan, hSpan]
    exact hFollow.stop_le_start_locate (hCovers a ha' a) (hCovers a ha' b) hOrder
  · intro c p hc hp hEq
    have hc' := Arena.ne_root_of_mem_children hc
    rw [hSpan, hSpan] at hEq
    exact (hTight p hp).strict _ (hPart c p hc)
      (hFollow.locate_injective (hCovers c hc' c) (hCovers c hc' p) hEq)

end Parser

/-! ## Texts -/

/-- The text holds blank stretches and comments only. -/
def IsBlankText (source : String) : Prop :=
  Lexer.triviaLength? source.toList = some source.toList.length

/-- Line and column fit into words of 32 bits. -/
def Position.Fits (p : Position) : Prop := p.line < Word.capacity 32 ∧ p.column < Word.capacity 32

theorem Lexer.IsCut.tokens_eq_nil_iff {start stop : Position} {cs : List Char} {tokens : List Token}
    (h : IsCut start cs tokens stop) : tokens = [] ↔ triviaLength? cs = some cs.length := by
  cases h with
  | finish hTrivia => simp [hTrivia]
  | token hTrivia _ _ => simp [hTrivia]

/-- The places of tokens fit into words of 32 bits. -/
theorem TokenStream.fits_of_mem {source : String} {stream : TokenStream}
    (h : TokenStream.ofSource source = .ok stream) (hShort : source.length < Word.capacity 32)
    {t : Token} (ht : t ∈ stream.tokens) : t.span.start.Fits ∧ t.span.stop.Fits := by
  have hText : ¬ ∀ c ∈ source.toList, c = '\n' := by
    intro hLines
    rw [ofSource_newlines hLines] at h
    obtain rfl := Except.ok.inj h
    simp at ht
  have hFew := count_newline_lt hText
  have hPlace : ∀ before, before <+: source.toList → (Position.origin.advanceAll before).Fits := by
    intro before hBefore
    have hLine := Position.line_advanceAll Position.origin before
    have hColumn := Position.column_advanceAll_le Position.origin before
    have hCount : before.count '\n' ≤ source.toList.count '\n' := hBefore.sublist.count_le _
    have hLength : before.length ≤ source.length := hBefore.length_le
    simp only [Position.origin] at hLine hColumn
    unfold Position.Fits Position.origin
    omega
  obtain ⟨⟨before, hBefore, hStart⟩, before', hBefore', hStop⟩ :=
    (Lexer.isCut_tokensFrom h).exists_stretch ht
  rw [hStart, hStop]
  exact ⟨hPlace before hBefore, hPlace before' hBefore'⟩

/-- Whatever an extent is, its place fits into words of 32 bits. -/
theorem TokenStream.fits_locate {source : String} {stream : TokenStream}
    (h : TokenStream.ofSource source = .ok stream) (hShort : source.length < Word.capacity 32)
    (e : Extent) :
    (locate (stream.tokens.map (·.span)).toArray e).start.Fits ∧
      (locate (stream.tokens.map (·.span)).toArray e).stop.Fits := by
  have hSpan : ∀ {i : Nat} {a : Span}, (stream.tokens.map (·.span)).toArray[i]? = some a →
      a.start.Fits ∧ a.stop.Fits := by
    intro i a hAt
    obtain ⟨t, ht, rfl⟩ : ∃ t : Token, stream.tokens[i]? = some t ∧ t.span = a := by simpa using hAt
    exact fits_of_mem h hShort (List.mem_of_getElem? ht)
  have hOrigin : Position.origin.Fits := ⟨by decide, by decide⟩
  unfold locate
  split
  · next hFirst hLast => exact ⟨(hSpan hFirst).1, (hSpan hLast).2⟩
  · exact ⟨hOrigin, hOrigin⟩

namespace Tree

variable {resolve : String → String} {file source : String} {tree : Tree}

/-- The tree of a text is that of a unit. -/
theorem exists_unit_of_ofSource (h : Tree.ofSource resolve file source = .ok tree) :
    ∃ stream unit, TokenStream.ofSource source = .ok stream ∧
      Parser.compilationUnit resolve stream.lexemes = .ok unit ∧
      unit.toTree file (TokenStream.locate (stream.tokens.map (·.span)).toArray) = .ok tree := by
  rcases ofSource_cases resolve file source with ⟨e, -, hFault⟩ | ⟨_, e, -, -, hFault⟩ |
    ⟨stream, unit, tree', hStream, hUnit, hTree, hSource⟩
  · simp [hFault] at h
  · simp [hFault] at h
  · obtain rfl : tree' = tree := Except.ok.inj (hSource.symm.trans h)
    exact ⟨stream, unit, hStream, hUnit, hTree⟩

/-- **The tree of a text is nested.** -/
theorem isNested_ofSource (h : Tree.ofSource resolve file source = .ok tree) : tree.IsNested := by
  obtain ⟨stream, unit, hStream, hUnit, hTree⟩ := exists_unit_of_ofSource h
  exact Parser.isNested_of_compilationUnit hUnit hTree (TokenStream.follow_spans hStream)
    (by simp [TokenStream.lexemes])

/-- A text without tokens has its unit at the origin, and any other unit covers some text. -/
theorem span_root_ofSource (h : Tree.ofSource resolve file source = .ok tree) :
    (IsBlankText source → tree.span tree.root = ⟨.origin, .origin⟩) ∧
      (¬ IsBlankText source → (tree.span tree.root).start.Before (tree.span tree.root).stop) := by
  obtain ⟨stream, unit, hStream, hUnit, hTree⟩ := exists_unit_of_ofSource h
  have hBlank : stream.tokens = [] ↔ IsBlankText source :=
    (Lexer.isCut_tokensFrom hStream).tokens_eq_nil_iff
  have hExtent : ((Term.isTree_toTree hTree).subterm tree.root).extent =
      ⟨stream.tokens.length, 0⟩ := by
    rw [Term.IsTree.subterm_root]
    obtain ⟨all, -, rfl⟩ := Parser.compilationUnit_eq_ok hUnit
    simp [Parser.spanning, TokenStream.lexemes]
  rw [← hBlank, Term.span_toTree hTree, hExtent]
  constructor
  · intro hNone
    simp [hNone, TokenStream.locate]
  · intro hSome
    refine (TokenStream.follow_spans hStream).before_locate ⟨List.length_pos_iff.2 hSome, ?_⟩
    simp

/-- **The spans of a tree nest, follow source order and identify nodes.**  Every node covers some text,
save the unit of a text without tokens, which lies at the origin.  All places fit into words of 32
bits. -/
theorem ofSource_spans_nest (resolve : String → String) (file source : String)
    (hShort : source.length < Word.capacity 32) (tree : Tree)
    (h : Tree.ofSource resolve file source = .ok tree) :
    (∀ i, i ≠ tree.root ∨ ¬ IsBlankText source →
      (tree.span i).start.Before (tree.span i).stop) ∧
    (IsBlankText source → tree.span tree.root = ⟨.origin, .origin⟩) ∧
    (∀ i p, tree.parent i = some p → (tree.span p).contains (tree.span i) = true) ∧
    (∀ p, (tree.node p).children.Pairwise fun a b =>
      (tree.span a).stop.le (tree.span b).start = true) ∧
    (tree.preorder.Pairwise fun a b => (tree.span a).start.le (tree.span b).start = true) ∧
    (∀ i j, i ≠ tree.root → j ≠ tree.root → tree.span i = tree.span j → i = j) ∧
    ∀ i, (tree.span i).start.Fits ∧ (tree.span i).stop.Fits := by
  have hNested := isNested_ofSource h
  obtain ⟨hBlank, hCovers⟩ := span_root_ofSource h
  refine ⟨?_, hBlank, ?_, hNested.apart, ?_, ?_, ?_⟩
  · intro i hi
    by_cases hRoot : i = tree.root
    · rw [hRoot]
      exact hCovers (hi.resolve_left fun hNe => hNe hRoot)
    · exact hNested.covers i hRoot
  · intro i p hParent
    exact hNested.contains i p ((tree.parent_eq_some_iff i p).1 hParent)
  · exact List.pairwise_iff_forall_sublist.2 fun hBefore => hNested.start_le_of_precedes hBefore
  · intro i j hi hj hEq
    have hMem : ∀ k, k ∈ tree.preorder := fun k =>
      Arena.mem_subtree_iff.2 ((isProgram_ofSource h).connected k)
    by_contra hNe
    rcases pair_sublist_or_pair_sublist (hMem i) (hMem j) hNe with hBefore | hBefore
    · exact hNested.ne_of_precedes hBefore hi hEq
    · exact hNested.ne_of_precedes hBefore hj hEq.symm
  · obtain ⟨stream, unit, hStream, -, hTree⟩ := exists_unit_of_ofSource h
    intro i
    rw [Term.span_toTree hTree]
    exact TokenStream.fits_locate hStream hShort _

/-- The nodes of a call with a conditional access and a lambda nest, and no two spans below the unit are
equal. -/
theorem spans_of_chained_call_nest :
    "void f() \x7b a?.b(x => -x).c; \x7d".length < Word.capacity 32 ∧
      ∃ tree, Tree.ofSource id "chain.cs" "void f() \x7b a?.b(x => -x).c; \x7d" = .ok tree ∧
        tree.size = 13 ∧
        (∀ i, (tree.span i).start.Before (tree.span i).stop) ∧
        ∀ i j, i ≠ tree.root → j ≠ tree.root → tree.span i = tree.span j → i = j := by
  have hShort : "void f() \x7b a?.b(x => -x).c; \x7d".length < Word.capacity 32 := by decide
  have hNotBlank : ¬ IsBlankText "void f() \x7b a?.b(x => -x).c; \x7d" := by
    unfold IsBlankText
    decide +kernel
  have hSize : (match Tree.ofSource id "chain.cs" "void f() \x7b a?.b(x => -x).c; \x7d" with
      | .ok tree => tree.size
      | .error _ => 0) = 13 := by
    decide +kernel
  refine ⟨hShort, ?_⟩
  cases hTree : Tree.ofSource id "chain.cs" "void f() \x7b a?.b(x => -x).c; \x7d" with
  | error fault => simp [hTree] at hSize
  | ok tree =>
      rw [hTree] at hSize
      obtain ⟨hCovers, -, -, -, -, hInjective, -⟩ := ofSource_spans_nest id _ _ hShort tree hTree
      exact ⟨tree, rfl, hSize, fun i => hCovers i (.inr hNotBlank), hInjective⟩

/-- **A blank text has an empty span,** although it is not empty: not every unit of a text that is not
empty covers some text. -/
theorem blank_text_has_empty_span :
    ¬ ∀ (source : String) (tree : Tree), source.length < Word.capacity 32 →
      Tree.ofSource id "blank.cs" source = .ok tree → source ≠ "" →
        ∀ i, (tree.span i).start.Before (tree.span i).stop := by
  intro hAll
  have hBlank : IsBlankText " " := by
    unfold IsBlankText
    decide +kernel
  have hSome : (Tree.ofSource id "blank.cs" " ").toOption.isSome = true := by decide +kernel
  cases hTree : Tree.ofSource id "blank.cs" " " with
  | error fault => simp [hTree, Except.toOption] at hSome
  | ok tree =>
      have hRoot := (span_root_ofSource hTree).1 hBlank
      have hBefore := hAll " " tree (by decide) hTree (by decide) tree.root
      rw [hRoot] at hBefore
      exact hBefore.2 rfl

end Tree

end StateGuard
