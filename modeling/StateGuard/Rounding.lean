/-!
# Rounding quotients

The whole number next to a quotient of whole numbers. A quotient halfway between two of them goes
to the even one. `nearest_error` and `nearest_even` fix the result: no other number is nearer, and
of two equally near ones the even one is taken.
-/

namespace StateGuard.Rounding

/-- The whole number nearest to a quotient; a tie goes to the even neighbour. -/
def nearest (num den : Nat) : Nat :=
  let quotient := num / den
  let twice := 2 * (num % den)
  if twice < den then quotient
  else if den < twice then quotient + 1
  else quotient + quotient % 2

/-- A whole number is left as it is. -/
@[simp]
theorem nearest_one (num : Nat) : nearest num 1 = num := by
  simp [nearest, Nat.mod_one]

/-- The result is at most half a unit away from the quotient. -/
theorem nearest_error {num den : Nat} (hDen : 0 < den) :
    2 * (den * nearest num den) ≤ 2 * num + den ∧
      2 * num ≤ 2 * (den * nearest num den) + den := by
  have hSplit : den * (num / den) + num % den = num := Nat.div_add_mod num den
  have hRest : num % den < den := Nat.mod_lt num hDen
  have hNext : den * (num / den + 1) = den * (num / den) + den := Nat.mul_succ _ _
  unfold nearest
  simp only
  split
  · omega
  · split
    · omega
    · have hTie : num / den % 2 = 0 ∨ num / den % 2 = 1 := by omega
      rcases hTie with hEven | hOdd
      · simp only [hEven, Nat.add_zero]
        omega
      · simp only [hOdd]
        omega

/-- A tie goes to an even number. -/
theorem nearest_even {num den : Nat} (hTie : 2 * (num % den) = den) : nearest num den % 2 = 0 := by
  simp only [nearest, hTie, Nat.lt_irrefl, if_false]
  omega

end StateGuard.Rounding
