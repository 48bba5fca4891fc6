import StateGuard.Rounding
import StateGuard.Word

/-!
# Doubles

Numbers in documents are read as doubles of 64 bits when they are not whole, and a number that is
too large to be one is no number at all. Shares are computed as doubles, so what is written of a
share is what is written of the double next to it. Everything here works on whole numbers, so it is
exact.
-/

namespace StateGuard.Double

/-- The number of binary digits that a double keeps. -/
def precision : Nat := 53

/-- The least number that rounds to infinity: halfway between the greatest double and the next
power of two, where the tie goes up. -/
def limit : Nat := (1 <<< 1024) - (1 <<< 970)

/-- The number of decimal digits of `limit`. -/
def limitDigits : Nat := 309

/-- The nearest number with as many binary digits as a double keeps; a tie goes to the even
neighbour. -/
def round (n : Nat) : Nat :=
  let surplus := n.log2 + 1 - precision
  Rounding.nearest n (1 <<< surplus) <<< surplus

/-- Whether the product of whole digits and a power of ten rounds to a double. -/
def isFinite (digits : Nat) (exponent : Int) : Bool :=
  let size : Int := (Nat.toDigits 10 digits).length + exponent
  if digits = 0 || size < limitDigits then true
  else if limitDigits < size then false
  else
    match exponent with
    | .ofNat e => digits * Nat.pow 10 e < limit
    | .negSucc e => digits < limit * Nat.pow 10 (e + 1)

/-- A number of no more digits than a double keeps is left as it is. -/
theorem round_of_lt {n : Nat} (h : n.log2 < precision) : round n = n := by
  have hSurplus : n.log2 + 1 - precision = 0 := by omega
  simp [round, hSurplus]

/-! ## Shares -/

/-- A number with a binary point. -/
structure Binary where
  digits : Nat
  /-- How many of the digits stand behind the point. -/
  places : Nat
  deriving DecidableEq, Repr

/-- The double next to the quotient of two counts. The quotient is taken to more places than a
double keeps, and a last digit says whether anything is left; it stands too far behind to make a
tie. -/
def quotient (num den : Nat) : Binary :=
  let places := precision + 2 + den.log2
  let scaled := num <<< places
  ⟨round (2 * (scaled / den) + min 1 (scaled % den)), places + 1⟩

/-- The value of a number with a binary point in decimal units of which so many make a whole. The
nearest unit is taken, and the even one of two equally near. -/
def Binary.units (value : Binary) (whole : Nat) : Nat :=
  Rounding.nearest (value.digits * whole) (1 <<< value.places)

end StateGuard.Double
