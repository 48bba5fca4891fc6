import StateGuard.Proofs.Syntax.Ancestry

/-!
# Source order

A node stands before another in source order when the list of all nodes in preorder has it earlier.
It is then above the other, or to the left of it: in an earlier part of some node that contains both.

## Main results

* `pair_sublist_subtree_iff`: what stands before what in a subtree.
* `isOver_iff`: a node is over when another one is reached exactly if it is to the left of it.
* `leftOf_iff_of_parent`: what is to the left of a node, by the node's parent.
-/

namespace StateGuard

section Pairs

variable {α β : Type} {a b : α} {l m : List α}

theorem pair_sublist_cons_iff {x : α} :
    [a, b].Sublist (x :: l) ↔ (a = x ∧ b ∈ l) ∨ [a, b].Sublist l := by
  rw [List.cons_sublist_cons', List.singleton_sublist, or_comm]

theorem pair_sublist_append_iff :
    [a, b].Sublist (l ++ m) ↔ [a, b].Sublist l ∨ (a ∈ l ∧ b ∈ m) ∨ [a, b].Sublist m := by
  induction l with
  | nil => simp
  | cons x l ih =>
      rw [List.cons_append, pair_sublist_cons_iff, pair_sublist_cons_iff, ih, List.mem_append,
        List.mem_cons]
      constructor
      · rintro (⟨ha, hb | hb⟩ | h | ⟨ha, hb⟩ | h)
        · exact .inl (.inl ⟨ha, hb⟩)
        · exact .inr (.inl ⟨.inl ha, hb⟩)
        · exact .inl (.inr h)
        · exact .inr (.inl ⟨.inr ha, hb⟩)
        · exact .inr (.inr h)
      · rintro ((⟨ha, hb⟩ | h) | ⟨ha | ha, hb⟩ | h)
        · exact .inl ⟨ha, .inl hb⟩
        · exact .inr (.inl h)
        · exact .inl ⟨ha, .inr hb⟩
        · exact .inr (.inr (.inl ⟨ha, hb⟩))
        · exact .inr (.inr (.inr h))

theorem pair_sublist_flatMap_iff {x y : β} {f : α → List β} :
    [x, y].Sublist (l.flatMap f) ↔
      (∃ c ∈ l, [x, y].Sublist (f c)) ∨ ∃ c e, [c, e].Sublist l ∧ x ∈ f c ∧ y ∈ f e := by
  induction l with
  | nil => simp
  | cons z l ih =>
      rw [List.flatMap_cons, pair_sublist_append_iff, ih]
      simp only [List.mem_cons, exists_eq_or_imp, pair_sublist_cons_iff, List.mem_flatMap]
      constructor
      · rintro (h | ⟨hx, c, hc, hy⟩ | ⟨c, hc, h⟩ | ⟨c, e, hce, hx, hy⟩)
        · exact .inl (.inl h)
        · exact .inr ⟨z, c, .inl ⟨rfl, hc⟩, hx, hy⟩
        · exact .inl (.inr ⟨c, hc, h⟩)
        · exact .inr ⟨c, e, .inr hce, hx, hy⟩
      · rintro ((h | ⟨c, hc, h⟩) | ⟨c, e, ⟨rfl, he⟩ | hce, hx, hy⟩)
        · exact .inl h
        · exact .inr (.inr (.inl ⟨c, hc, h⟩))
        · exact .inr (.inl ⟨hx, e, he, hy⟩)
        · exact .inr (.inr (.inr ⟨c, e, hce, hx, hy⟩))

theorem ne_of_pair_sublist (hNodup : l.Nodup) (h : [a, b].Sublist l) : a ≠ b := by
  have := h.nodup hNodup
  simpa using this

theorem mem_of_pair_sublist (h : [a, b].Sublist l) : a ∈ l ∧ b ∈ l :=
  ⟨h.subset List.mem_cons_self, h.subset (List.mem_cons_of_mem _ List.mem_cons_self)⟩

/-- Of two members of a list one stands before the other. -/
theorem pair_sublist_or_pair_sublist (ha : a ∈ l) (hb : b ∈ l) (hNe : a ≠ b) :
    [a, b].Sublist l ∨ [b, a].Sublist l := by
  induction l with
  | nil => simp at ha
  | cons x l ih =>
      simp only [pair_sublist_cons_iff]
      rcases List.mem_cons.1 ha with rfl | haTail
      · exact .inl (.inl ⟨rfl, (List.mem_cons.1 hb).resolve_left fun h => hNe h.symm⟩)
      · rcases List.mem_cons.1 hb with rfl | hbTail
        · exact .inr (.inl ⟨rfl, haTail⟩)
        · exact (ih haTail hbTail).imp .inr .inr

theorem pair_sublist_asymm (hNodup : l.Nodup) (h : [a, b].Sublist l) : ¬ [b, a].Sublist l := by
  induction l with
  | nil => simp at h
  | cons x l ih =>
      rw [List.nodup_cons] at hNodup
      intro hBack
      rcases pair_sublist_cons_iff.1 h with ⟨rfl, hb⟩ | hTail
      · rcases pair_sublist_cons_iff.1 hBack with ⟨rfl, -⟩ | hBackTail
        · exact hNodup.1 hb
        · exact hNodup.1 (mem_of_pair_sublist hBackTail).2
      · rcases pair_sublist_cons_iff.1 hBack with ⟨rfl, -⟩ | hBackTail
        · exact hNodup.1 (mem_of_pair_sublist hTail).2
        · exact ih hNodup.2 hTail hBackTail

/-- What stands before an element of a list without repetition. -/
theorem mem_takeWhile_ne_iff [DecidableEq α] (hNodup : l.Nodup) (hb : b ∈ l) :
    a ∈ l.takeWhile (· ≠ b) ↔ [a, b].Sublist l := by
  induction l with
  | nil => simp at hb
  | cons x l ih =>
      rw [List.nodup_cons] at hNodup
      rw [pair_sublist_cons_iff, List.takeWhile_cons]
      by_cases hEq : x = b
      · subst hEq
        simp only [ne_eq, not_true_eq_false, decide_false, Bool.false_eq_true, if_false,
          List.not_mem_nil, false_iff, not_or]
        exact ⟨fun h => hNodup.1 h.2, fun h => hNodup.1 (mem_of_pair_sublist h).2⟩
      · have hMem : b ∈ l := (List.mem_cons.1 hb).resolve_left (Ne.symm hEq)
        simp only [ne_eq, hEq, not_false_eq_true, decide_true, if_true, List.mem_cons, hMem,
          and_true]
        rw [← ih hNodup.2 hMem]

end Pairs

namespace Arena

variable {arena : Arena}

/-- One node stands before another in source order. -/
def Precedes (d i : arena.Id) : Prop := [d, i].Sublist arena.preorder

/-- A node is over when another one is reached: it stands before that one and does not contain it. -/
def IsOver (d i : arena.Id) : Prop := Precedes d i ∧ arena.isWithin i d = false

theorem Precedes.asymm {d i : arena.Id} (h : Precedes d i) : ¬ Precedes i d :=
  pair_sublist_asymm (nodup_preorder arena) h

/-- A node is in an earlier part of some node than another one. -/
def LeftOf (d i : arena.Id) : Prop :=
  ∃ p c e, [c, e].Sublist (arena.node p).children ∧ arena.isWithin d c = true ∧
    arena.isWithin i e = true

/-! ## To the left -/

section LeftOf

variable {d e i j p : arena.Id}

theorem LeftOf.mono (h : LeftOf d i) (hd : arena.isWithin e d = true)
    (hi : arena.isWithin j i = true) : LeftOf e j := by
  obtain ⟨p, c, c', hPair, hdc, hic⟩ := h
  exact ⟨p, c, c', hPair, isWithin_trans hd hdc, isWithin_trans hi hic⟩

/-- What is to the left of a node shares nothing with it. -/
theorem LeftOf.not_isWithin_both (h : LeftOf d i) (hd : arena.isWithin j d = true) :
    arena.isWithin j i = false := by
  obtain ⟨p, c, c', hPair, hdc, hic⟩ := h
  rw [← Bool.not_eq_true]
  intro hi
  obtain ⟨hc, hc'⟩ := mem_of_pair_sublist hPair
  exact ne_of_pair_sublist (arena.children_nodup p) hPair
    (eq_of_isWithin_parts hc hc' (isWithin_trans hd hdc) (isWithin_trans hi hic))

theorem LeftOf.not_isWithin (h : LeftOf d i) : arena.isWithin d i = false :=
  h.not_isWithin_both (isWithin_self d)

theorem LeftOf.not_isWithin' (h : LeftOf d i) : arena.isWithin i d = false := by
  rw [← Bool.not_eq_true]
  intro hid
  have := h.not_isWithin_both hid
  simp at this

/-- **What is to the left of a node:** what is to the left of its parent, and the earlier parts of the
parent. -/
theorem leftOf_iff_of_parent (hParent : arena.parent i = some p) : LeftOf d i ↔
    LeftOf d p ∨ ∃ c, [c, i].Sublist (arena.node p).children ∧ arena.isWithin d c = true := by
  constructor
  · rintro ⟨q, c, c', hPair, hdc, hic⟩
    rcases isWithin_iff.1 hic with rfl | ⟨p', hParent', hAbove⟩
    · have hq := (arena.parent_eq_some_iff i q).2 (mem_of_pair_sublist hPair).2
      obtain rfl : p = q := Option.some.inj (hParent.symm.trans hq)
      exact .inr ⟨c, hPair, hdc⟩
    · obtain rfl : p = p' := Option.some.inj (hParent.symm.trans hParent')
      exact .inl ⟨q, c, c', hPair, hdc, hAbove⟩
  · rintro (h | ⟨c, hPair, hdc⟩)
    · exact h.mono (isWithin_self d) (isWithin_of_parent hParent (isWithin_self p))
    · exact ⟨p, c, i, hPair, hdc, isWithin_self i⟩

/-- Nodes in different parts of a node are to the left of each other as the parts are. -/
theorem LeftOf.parts {top c c' : arena.Id} (h : LeftOf d i) (hc : c ∈ (arena.node top).children)
    (hc' : c' ∈ (arena.node top).children) (hNe : c ≠ c') (hd : arena.isWithin d c = true)
    (hi : arena.isWithin i c' = true) : [c, c'].Sublist (arena.node top).children := by
  obtain ⟨q, a, b, hPair, hda, hib⟩ := h
  obtain ⟨ha, hb⟩ := mem_of_pair_sublist hPair
  have hTop : arena.isWithin d top = true := isWithin_of_part hd hc
  have hTop' : arena.isWithin i top = true := isWithin_of_part hi hc'
  -- the node whose parts tell the two apart can only be `top`
  rcases isWithin_total (isWithin_of_part hda ha) hTop with hBelow | hAbove
  · rcases isWithin_iff_part.1 hBelow with rfl | ⟨e, he, hqe⟩
    · obtain rfl := eq_of_isWithin_parts ha hc hda hd
      obtain rfl := eq_of_isWithin_parts hb hc' hib hi
      exact hPair
    · have hde := isWithin_trans (isWithin_of_part hda ha) hqe
      have hie := isWithin_trans (isWithin_of_part hib hb) hqe
      exact absurd ((eq_of_isWithin_parts hc he hd hde).trans (eq_of_isWithin_parts he hc' hie hi))
        hNe
  · rcases isWithin_iff_part.1 hAbove with rfl | ⟨e, he, hTope⟩
    · obtain rfl := eq_of_isWithin_parts ha hc hda hd
      obtain rfl := eq_of_isWithin_parts hb hc' hib hi
      exact hPair
    · have hde := isWithin_trans hTop hTope
      have hie := isWithin_trans hTop' hTope
      exact absurd ((eq_of_isWithin_parts ha he hda hde).trans (eq_of_isWithin_parts he hb hie hib))
        (ne_of_pair_sublist (arena.children_nodup q) hPair)

end LeftOf

/-! ## Before -/

/-- **What stands before what in a subtree:** each node before all that is below it or to the right of
it. -/
theorem pair_sublist_subtree_iff {d i top : arena.Id} :
    [d, i].Sublist (arena.subtree top) ↔ arena.isWithin d top = true ∧
      arena.isWithin i top = true ∧ ((d ≠ i ∧ arena.isWithin i d = true) ∨ LeftOf d i) := by
  induction top using induction_parts with
  | step top ih =>
      rw [subtree_eq, pair_sublist_cons_iff, pair_sublist_flatMap_iff]
      simp only [List.mem_flatMap, mem_subtree_iff]
      constructor
      · rintro (⟨rfl, c, hc, hi⟩ | ⟨c, hc, hPair⟩ | ⟨c, c', hPair, hdc, hic⟩)
        · refine ⟨isWithin_self d, isWithin_of_part hi hc, .inl ⟨?_, isWithin_of_part hi hc⟩⟩
          rintro rfl
          exact Nat.lt_irrefl _ (depth_lt_of_isWithin_part hc hi)
        · obtain ⟨hd, hi, h⟩ := (ih c hc).1 hPair
          exact ⟨isWithin_of_part hd hc, isWithin_of_part hi hc, h⟩
        · obtain ⟨hc, hc'⟩ := mem_of_pair_sublist hPair
          exact ⟨isWithin_of_part hdc hc, isWithin_of_part hic hc',
            .inr ⟨top, c, c', hPair, hdc, hic⟩⟩
      · rintro ⟨hd, hi, h⟩
        rcases isWithin_iff_part.1 hd with rfl | ⟨c, hc, hdc⟩
        · rcases h with ⟨hNe, -⟩ | hLeft
          · exact .inl ⟨rfl, (isWithin_iff_part.1 hi).resolve_left (Ne.symm hNe)⟩
          · simp [hLeft.not_isWithin'] at hi
        rcases isWithin_iff_part.1 hi with rfl | ⟨c', hc', hic⟩
        · rcases h with ⟨hNe, hid⟩ | hLeft
          · exact absurd (isWithin_antisymm hd hid) hNe
          · simp [hLeft.not_isWithin] at hd
        by_cases hEq : c = c'
        · subst hEq
          exact .inr (.inl ⟨c, hc, (ih c hc).2 ⟨hdc, hic, h⟩⟩)
        · rcases h with ⟨-, hid⟩ | hLeft
          · exact absurd (eq_of_isWithin_parts hc hc' (isWithin_trans hid hdc) hic) hEq
          · exact .inr (.inr ⟨c, c', hLeft.parts hc hc' hEq hdc hic, hdc, hic⟩)

/-- **A node is over when another one is reached** exactly if it is to the left of it. -/
theorem isOver_iff {d i : arena.Id} (hd : arena.isWithin d arena.root = true)
    (hi : arena.isWithin i arena.root = true) : IsOver d i ↔ LeftOf d i := by
  unfold IsOver Precedes preorder
  rw [pair_sublist_subtree_iff]
  constructor
  · rintro ⟨⟨-, -, ⟨-, hid⟩ | h⟩, hNot⟩
    · simp [hid] at hNot
    · exact h
  · intro h
    exact ⟨⟨hd, hi, .inr h⟩, h.not_isWithin'⟩

end Arena

end StateGuard
