import StateGuard.Proofs.Syntax.Ancestry
import StateGuard.Semantics.Location

/-!
# Reading the same place

Reading the same place is a symmetric relation for every oracle.  It need not be transitive: an
oracle may name the symbol of `this.f` at one node and leave it out at another, and then `f` is the
first of them, the first is the second by their member, and `f` is not the second.

## Main results

* `sameLocation_comm`: the order of the two expressions does not matter.
-/

namespace StateGuard

variable {arena : Arena} {oracle : Oracle arena.size}

theorem Oracle.sameSymbol_iff {n : Nat} {oracle : Oracle n} {i j : Fin n} :
    oracle.sameSymbol i j = true ↔
      ∃ symbol, oracle.symbolOf i = some symbol ∧ oracle.symbolOf j = some symbol := by
  unfold sameSymbol
  cases hi : oracle.symbolOf i with
  | none => simp
  | some symbol =>
      cases hj : oracle.symbolOf j with
      | none => simp
      | some other => simp [eq_comm (a := other)]

theorem Oracle.sameSymbol_comm {n : Nat} (oracle : Oracle n) (i j : Fin n) :
    oracle.sameSymbol i j = oracle.sameSymbol j i := by
  rw [Bool.eq_iff_iff, sameSymbol_iff, sameSymbol_iff]
  simp only [and_comm]

/-- **Reading the same place is symmetric.** -/
theorem sameLocation_comm (a b : arena.Id) :
    sameLocation arena oracle a b = sameLocation arena oracle b a := by
  fun_induction sameLocation arena oracle a b with
  | case1 a b _ _ ha hb =>
      rw [sameLocation, ha, hb]
      exact oracle.sameSymbol_comm _ _
  | case2 a b ha hb => rw [sameLocation, ha, hb]
  | case3 a b receiver member receiver' member' ha hb ih =>
      rw [ih, sameLocation.eq_def arena oracle b a, ha, hb]
      simp only [Bool.beq_comm (a := member)]
  | case4 a b _ receiver _ ha hb =>
      rw [sameLocation, ha, hb, oracle.sameSymbol_comm]
  | case5 a b receiver _ _ ha hb =>
      rw [sameLocation, ha, hb, oracle.sameSymbol_comm]
  | case6 a b hNames hThis hMembers hMixed hMixed' =>
      rw [sameLocation]
      split
      case h_6 => rfl
      all_goals simp_all

end StateGuard
