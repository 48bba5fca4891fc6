import Mathlib.Data.List.Basic
import Mathlib.Order.Nat
import StateGuard.Config.Error
import StateGuard.Rule

/-!
# Edit distance

The distance of two texts by the plain recursion on their first characters is the least number of
characters to insert, delete or substitute (`Edits`).  Edits can be undone, made from the other end,
put side by side and made one after the other.  From this come the laws of the distance, and the
recursion on the last characters instead of the first ones.

The table of distances goes by last characters: each of its rows belongs to a beginning of the first
text, and each cell of a row to a beginning of the second one.  A row that is only rewritten up to some
cell holds the new distances before it and the old ones behind it; the distance that was overwritten
last is kept aside (`fillRow_cells`).

## Main results

* `edits_plainDistance`, `Edits.plainDistance_le`: the plain recursion counts the fewest edits.
* `plainDistance_concat`: the recursion on last characters.
* `foldl_nextRow`: the row after some characters of the first text.
* `editDistance_eq`, `editDistance_le_iff`: one row at a time, the distance is the plain one.
* `exists_nearest`: the nearest candidate is the first at the least distance.
* `editDistance_is_plain`: all this for texts, with the suggestion for an unknown rule.
-/

namespace StateGuard.Text

/-! ## The plain recursion -/

/-- The edit distance by recursion on the first characters: one of them is deleted, or inserted, or
one takes the place of the other, which costs nothing if they are equal. -/
def plainDistance : List Char → List Char → Nat
  | [], b => b.length
  | a, [] => a.length
  | c :: a, d :: b =>
    min (min (plainDistance a (d :: b) + 1) (plainDistance (c :: a) b + 1))
      (plainDistance a b + if c = d then 0 else 1)
termination_by a b => a.length + b.length

@[simp]
theorem plainDistance_nil_left (b : List Char) : plainDistance [] b = b.length := by
  rw [plainDistance]

@[simp]
theorem plainDistance_nil_right (a : List Char) : plainDistance a [] = a.length := by
  cases a with
  | nil => rw [plainDistance]
  | cons c a => rw [plainDistance]; simp

theorem plainDistance_cons_cons (c d : Char) (a b : List Char) :
    plainDistance (c :: a) (d :: b) =
      min (min (plainDistance a (d :: b) + 1) (plainDistance (c :: a) b + 1))
        (plainDistance a b + if c = d then 0 else 1) := by
  rw [plainDistance]

/-! ## Edits -/

/-- `Edits a b n`: going through both texts, at most `n` edits of one character make `b` of `a`. -/
inductive Edits : List Char → List Char → Nat → Prop where
  | done {n : Nat} : Edits [] [] n
  | delete {a b : List Char} {n : Nat} (c : Char) (h : Edits a b n) : Edits (c :: a) b (n + 1)
  | insert {a b : List Char} {n : Nat} (d : Char) (h : Edits a b n) : Edits a (d :: b) (n + 1)
  /-- One character takes the place of another, which is no edit if they are equal. -/
  | substitute {a b : List Char} {n : Nat} (c d : Char) (h : Edits a b n) :
      Edits (c :: a) (d :: b) (n + if c = d then 0 else 1)

namespace Edits

variable {a b c a' b' : List Char} {m n : Nat}

theorem add_right (h : Edits a b n) (k : Nat) : Edits a b (n + k) := by
  induction h with
  | done => exact done
  | delete c _ ih =>
      rw [Nat.add_right_comm]
      exact ih.delete c
  | insert d _ ih =>
      rw [Nat.add_right_comm]
      exact ih.insert d
  | substitute c d _ ih =>
      rw [Nat.add_right_comm]
      exact ih.substitute c d

theorem mono (h : Edits a b n) (hLe : n ≤ m) : Edits a b m := by
  rw [← Nat.add_sub_of_le hLe]
  exact h.add_right _

theorem keep (h : Edits a b n) (c : Char) : Edits (c :: a) (c :: b) n := by
  simpa using h.substitute c c

theorem refl (a : List Char) : Edits a a 0 := by
  induction a with
  | nil => exact done
  | cons c a ih => exact ih.keep c

theorem eq_of_zero (h : Edits a b 0) : a = b := by
  generalize hn : 0 = n at h
  induction h with
  | done => rfl
  | delete => cases hn
  | insert => cases hn
  | substitute c d _ ih =>
      by_cases hcd : c = d
      · rw [if_pos hcd] at hn
        rw [hcd, ih hn]
      · rw [if_neg hcd] at hn
        cases hn

theorem insertAll (b : List Char) : Edits [] b b.length := by
  induction b with
  | nil => exact done
  | cons d b ih => exact ih.insert d

/-- Edits can be undone. -/
theorem symm (h : Edits a b n) : Edits b a n := by
  induction h with
  | done => exact done
  | delete c _ ih => exact ih.insert c
  | insert d _ ih => exact ih.delete d
  | substitute c d _ ih => simpa only [eq_comm] using ih.substitute d c

/-- Edits can be put side by side. -/
theorem append (h : Edits a b n) (h' : Edits a' b' m) : Edits (a ++ a') (b ++ b') (m + n) := by
  induction h with
  | done => exact h'.add_right _
  | delete c _ ih => exact ih.delete c
  | insert d _ ih => exact ih.insert d
  | substitute c d _ ih =>
      rw [← Nat.add_assoc]
      exact ih.substitute c d

/-- Edits can be made from the other end. -/
theorem reverse (h : Edits a b n) : Edits a.reverse b.reverse n := by
  induction h with
  | done => exact done
  | delete c _ ih => simpa [Nat.add_comm] using ih.append ((done (n := 0)).delete c)
  | insert d _ ih => simpa [Nat.add_comm] using ih.append ((done (n := 0)).insert d)
  | substitute c d _ ih => simpa [Nat.add_comm] using ih.append ((done (n := 0)).substitute c d)

/-- What can become of the first character, after some insertions: it is deleted, or another one takes
its place. -/
theorem head_induction {motive : List Char → Nat → Prop} {x : Char} (h : Edits (x :: a) b n)
    (delete : ∀ {b n}, Edits a b n → motive b (n + 1))
    (insert : ∀ {b n} y, motive b n → motive (y :: b) (n + 1))
    (substitute : ∀ {b n} y, Edits a b n → motive (y :: b) (n + if x = y then 0 else 1)) :
    motive b n := by
  generalize hText : x :: a = text at h
  induction h with
  | done => cases hText
  | delete c h => cases hText; exact delete h
  | insert d _ ih => exact insert d (ih hText)
  | substitute c d h => cases hText; exact substitute d h

/-- Edits can be made one after the other. -/
theorem trans (h : Edits a b m) (h' : Edits b c n) : Edits a c (m + n) := by
  induction h generalizing c n with
  | done => exact h'.mono (Nat.le_add_left _ _)
  | delete x _ ih => exact ((ih h').delete x).mono (by omega)
  | @insert a b m y _ ih =>
      -- the inserted character is deleted again, or stands for what takes its place
      refine h'.head_induction (motive := fun c n => Edits a c (m + 1 + n)) ?_ ?_ ?_
      · intro c n hRest
        exact (ih hRest).mono (by omega)
      · intro c n z hEdits
        exact hEdits.insert z
      · intro c n z hRest
        exact ((ih hRest).insert z).mono (by omega)
  | @substitute a b m x y _ ih =>
      refine h'.head_induction
        (motive := fun c n => Edits (x :: a) c (m + (if x = y then 0 else 1) + n)) ?_ ?_ ?_
      · intro c n hRest
        exact ((ih hRest).delete x).mono (by omega)
      · intro c n z hEdits
        exact hEdits.insert z
      · intro c n z hRest
        refine ((ih hRest).substitute x z).mono ?_
        have hCost : (if x = z then 0 else 1) ≤
            (if x = y then 0 else 1) + if y = z then 0 else 1 := by
          grind
        omega

/-- **Fewer edits are not enough.** -/
theorem plainDistance_le (h : Edits a b n) : plainDistance a b ≤ n := by
  induction h with
  | done => simp
  | @delete a b n c _ ih =>
      cases b with
      | nil => simpa using ih
      | cons d b =>
          rw [plainDistance_cons_cons]
          omega
  | @insert a b n d _ ih =>
      cases a with
      | nil => simpa using ih
      | cons c a =>
          rw [plainDistance_cons_cons]
          omega
  | @substitute a b n c d _ ih =>
      rw [plainDistance_cons_cons]
      omega

end Edits

/-- **So many edits are enough.** -/
theorem edits_plainDistance (a b : List Char) : Edits a b (plainDistance a b) := by
  fun_induction plainDistance a b with
  | case1 b => exact Edits.insertAll b
  | case2 a _ => exact (Edits.insertAll a).symm
  | case3 c a d b hDelete hInsert hSubstitute =>
      exact min_rec' _ (min_rec' _ (hDelete.delete c) (hInsert.insert d))
        (hSubstitute.substitute c d)

/-! ## Laws of the distance -/

theorem plainDistance_eq_zero_iff {a b : List Char} : plainDistance a b = 0 ↔ a = b := by
  constructor
  · intro h
    exact Edits.eq_of_zero (h ▸ edits_plainDistance a b)
  · rintro rfl
    exact Nat.le_zero.1 (Edits.refl a).plainDistance_le

theorem plainDistance_comm (a b : List Char) : plainDistance a b = plainDistance b a :=
  Nat.le_antisymm (edits_plainDistance b a).symm.plainDistance_le
    (edits_plainDistance a b).symm.plainDistance_le

theorem plainDistance_triangle (a b c : List Char) :
    plainDistance a c ≤ plainDistance a b + plainDistance b c :=
  ((edits_plainDistance a b).trans (edits_plainDistance b c)).plainDistance_le

theorem plainDistance_reverse (a b : List Char) :
    plainDistance a.reverse b.reverse = plainDistance a b := by
  refine Nat.le_antisymm (edits_plainDistance a b).reverse.plainDistance_le ?_
  simpa using (edits_plainDistance a.reverse b.reverse).reverse.plainDistance_le

/-- **The recursion on the last characters.** -/
theorem plainDistance_concat (a b : List Char) (c d : Char) :
    plainDistance (a ++ [c]) (b ++ [d]) =
      min (min (plainDistance a (b ++ [d]) + 1) (plainDistance (a ++ [c]) b + 1))
        (plainDistance a b + if c = d then 0 else 1) := by
  have hBoth := plainDistance_cons_cons c d a.reverse b.reverse
  rw [← plainDistance_reverse (a ++ [c]), ← plainDistance_reverse a (b ++ [d]),
    ← plainDistance_reverse (a ++ [c]) b, ← plainDistance_reverse a b]
  simpa only [List.reverse_append, List.reverse_singleton, List.singleton_append] using hBoth

/-! ## One row at a time -/

/-- The distances of `a` to the beginnings of `before ++ other` that are longer than `before`. -/
def cells (a before : List Char) : List Char → List Nat
  | [] => []
  | d :: other => plainDistance a (before ++ [d]) :: cells a (before ++ [d]) other

/-- The distances of `a` to all beginnings of `other`. -/
def row (a other : List Char) : List Nat := plainDistance a [] :: cells a [] other

/-- **Rewriting a row.** Up to `before` the row holds the distances of `a ++ [c]`, the last of which is
`left`; behind it those of `a`, and the one that `left` took the place of is `diag`. -/
theorem fillRow_cells (a before other : List Char) (c : Char) :
    fillRow c (plainDistance (a ++ [c]) before) (plainDistance a before) other
      (cells a before other) = cells (a ++ [c]) before other := by
  induction other generalizing before with
  | nil => rfl
  | cons d other ih =>
      rw [cells, cells, fillRow, ← plainDistance_concat, ih]

theorem nextRow_row (a other : List Char) (c : Char) :
    nextRow other (row a other) c = row (a ++ [c]) other := by
  have hCorner : plainDistance a [] + 1 = plainDistance (a ++ [c]) [] := by simp
  rw [row, row, nextRow, hCorner, fillRow_cells]

/-- **After any beginning of the first text the row holds its distances.** -/
theorem foldl_nextRow (before a other : List Char) :
    a.foldl (nextRow other) (row before other) = row (before ++ a) other := by
  induction a generalizing before with
  | nil => simp
  | cons c a ih => rw [List.foldl_cons, nextRow_row, ih, List.append_assoc, List.singleton_append]

theorem cells_nil (before other : List Char) :
    cells [] before other = List.range' (before.length + 1) other.length := by
  induction other generalizing before with
  | nil => rfl
  | cons d other ih =>
      rw [cells, ih, plainDistance_nil_left, List.length_append, List.length_singleton,
        List.length_cons, List.range'_succ]

theorem row_nil (other : List Char) : row [] other = List.range (other.length + 1) := by
  rw [row, cells_nil, List.range_eq_range', List.range'_succ, plainDistance_nil_left]
  rfl

theorem getLastD_cells (a before other : List Char) :
    (cells a before other).getLastD (plainDistance a before) = plainDistance a (before ++ other) := by
  induction other generalizing before with
  | nil => simp [cells]
  | cons d other ih => rw [cells, List.getLastD_cons, ih, List.append_assoc, List.singleton_append]

/-- **One row at a time, the distance is the plain one.** -/
theorem editDistance_eq (a b : List Char) : editDistance a b = plainDistance a b := by
  rw [editDistance, ← row_nil, foldl_nextRow, row, List.getLastD_cons, getLastD_cells,
    List.nil_append, List.nil_append]

/-- What the distance means: so many edits are enough, and fewer are not. -/
theorem editDistance_le_iff {a b : List Char} {n : Nat} : editDistance a b ≤ n ↔ Edits a b n := by
  rw [editDistance_eq]
  exact ⟨(edits_plainDistance a b).mono, Edits.plainDistance_le⟩

/-! ## The nearest candidate -/

/-- The choice is the first of the candidates at which `f` is least. -/
def IsFirstLeast (f : String → Nat) (candidates : List String) (choice : String) : Prop :=
  ∃ before after, candidates = before ++ choice :: after ∧
    (∀ other ∈ before, f choice < f other) ∧ ∀ other ∈ after, f choice ≤ f other

namespace IsFirstLeast

variable {f : String → Nat} {candidates : List String} {candidate choice other : String}

theorem le (h : IsFirstLeast f candidates choice) (hOther : other ∈ candidates) :
    f choice ≤ f other := by
  obtain ⟨before, after, rfl, hBefore, hAfter⟩ := h
  rcases List.mem_append.1 hOther with hMem | hMem
  · exact Nat.le_of_lt (hBefore other hMem)
  · rcases List.mem_cons.1 hMem with rfl | hMem
    · exact Nat.le_refl _
    · exact hAfter other hMem

theorem head (h : ∀ other ∈ candidates, f candidate ≤ f other) :
    IsFirstLeast f (candidate :: candidates) candidate :=
  ⟨[], candidates, rfl, by simp, h⟩

theorem tail (h : IsFirstLeast f candidates choice) (hLt : f choice < f candidate) :
    IsFirstLeast f (candidate :: candidates) choice := by
  obtain ⟨before, after, rfl, hBefore, hAfter⟩ := h
  refine ⟨candidate :: before, after, rfl, ?_, hAfter⟩
  intro other hOther
  rcases List.mem_cons.1 hOther with rfl | hOther
  · exact hLt
  · exact hBefore other hOther

end IsFirstLeast

/-- **The nearest candidate is the first at the least distance.** -/
theorem exists_nearest (target : String) {candidates : List String} (h : candidates ≠ []) :
    ∃ choice, nearest target candidates = some choice ∧
      IsFirstLeast (fun other => plainDistance target.toList other.toList) candidates choice := by
  induction candidates with
  | nil => exact absurd rfl h
  | cons candidate rest ih =>
      by_cases hRest : rest = []
      · subst hRest
        exact ⟨candidate, rfl, .head (by simp)⟩
      · obtain ⟨choice, hNearest, hLeast⟩ := ih hRest
        by_cases hLe : plainDistance target.toList candidate.toList ≤
            plainDistance target.toList choice.toList
        · -- of two at one distance the earlier one is taken
          refine ⟨candidate, ?_, .head fun other hOther => Nat.le_trans hLe (hLeast.le hOther)⟩
          simp only [nearest, hNearest, editDistance_eq, if_pos hLe]
        · refine ⟨choice, ?_, hLeast.tail (Nat.lt_of_not_le hLe)⟩
          simp only [nearest, hNearest, editDistance_eq, if_neg hLe]

/-- **The distance by rows is the plain one.** For all texts, what is found one row at a time is the
distance by the plain recursion; so it is zero only between equal texts, symmetric, and no greater
than by way of a third text.  For an unknown rule the suggestion is the first of the known codes at the
least distance from the rule in upper case, whenever there is a code. -/
theorem editDistance_is_plain :
    (∀ a b : String, editDistance a.toList b.toList = plainDistance a.toList b.toList) ∧
    (∀ a b : String, editDistance a.toList b.toList = 0 ↔ a = b) ∧
    (∀ a b : String, editDistance a.toList b.toList = editDistance b.toList a.toList) ∧
    (∀ a b c : String, editDistance a.toList c.toList ≤
      editDistance a.toList b.toList + editDistance b.toList c.toList) ∧
    ∀ (rule : String) (known : List String), known ≠ [] →
      ∃ code, IsFirstLeast (fun other => plainDistance (upper rule).toList other.toList) known code ∧
        ConfigError.unknownRuleAmong rule known = .unknownRule rule (some code) ∧
        (ConfigError.unknownRuleAmong rule known).message =
          "Unknown rule '" ++ rule ++ "' in disabled_rules. " ++
            ("Did you mean '" ++ code ++ "'?") := by
  refine ⟨fun a b => editDistance_eq _ _, fun a b => ?_, fun a b => ?_, fun a b c => ?_, ?_⟩
  · rw [editDistance_eq, plainDistance_eq_zero_iff, String.toList_inj]
  · rw [editDistance_eq, editDistance_eq, plainDistance_comm]
  · rw [editDistance_eq, editDistance_eq, editDistance_eq]
    exact plainDistance_triangle _ _ _
  · intro rule known hKnown
    obtain ⟨code, hNearest, hLeast⟩ := exists_nearest (upper rule) hKnown
    have hError : ConfigError.unknownRuleAmong rule known = .unknownRule rule (some code) := by
      rw [ConfigError.unknownRuleAmong, hNearest]
    refine ⟨code, hLeast, hError, ?_⟩
    rw [hError]
    rfl

/-- All codes are equally near to the number that is in none of them. -/
theorem first_of_equally_near_codes :
    Rule.codes ≠ [] ∧
      IsFirstLeast (fun other => plainDistance (upper "grd009").toList other.toList) Rule.codes
        "GRD001" ∧
      (ConfigError.unknownRuleAmong "grd009" Rule.codes).message =
        "Unknown rule 'grd009' in disabled_rules. Did you mean 'GRD001'?" := by
  have hCodes : Rule.codes ≠ [] := by decide
  have hEval : ConfigError.unknownRuleAmong "grd009" Rule.codes =
      .unknownRule "grd009" (some "GRD001") := by
    decide +kernel
  obtain ⟨code, hLeast, hError, hMessage⟩ :=
    editDistance_is_plain.2.2.2.2 "grd009" Rule.codes hCodes
  rw [hEval, ConfigError.unknownRule.injEq, Option.some.injEq] at hError
  obtain ⟨-, rfl⟩ := hError
  refine ⟨hCodes, hLeast, ?_⟩
  rw [hMessage]
  decide

end StateGuard.Text
