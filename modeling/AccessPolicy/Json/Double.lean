/-!
# Double-precision numbers, exactly

A finite double is a sign and a magnitude `mantissa * 2 ^ (shift - 1074)`.  The smallest positive
magnitude, `2 ^ -1074`, is the *unit*: every magnitude is a whole number of units, so products,
quotients and decimal fractions of doubles can be formed exactly in natural numbers and rounded
once, by `Magnitude.nearest?`, to the nearest magnitude, a half to the even neighbour.

The mantissa has at most 53 bits and has fewer only where the shift is zero, so each value has one
representation and equality of magnitudes is equality of values.
-/

namespace AccessPolicy.Json

/-! ### Powers -/

/-- The power of two with exponent `n`. -/
def twoTo (n : Nat) : Nat := Nat.pow 2 n

/-- The power of ten with exponent `n`. -/
def tenTo (n : Nat) : Nat := Nat.pow 10 n

theorem twoTo_add (m n : Nat) : twoTo (m + n) = twoTo m * twoTo n := Nat.pow_add 2 m n

theorem twoTo_pos (n : Nat) : 0 < twoTo n := Nat.two_pow_pos n

theorem twoTo_le_twoTo {m n : Nat} (h : m ≤ n) : twoTo m ≤ twoTo n :=
  Nat.pow_le_pow_right (by decide) h

/-- The binary logarithm bounds a number from above. -/
theorem lt_twoTo_log2 (n : Nat) : n < twoTo (n.log2 + 1) := Nat.lt_log2_self

/-- The binary logarithm bounds a positive number from below. -/
theorem twoTo_log2_le {n : Nat} (h : n ≠ 0) : twoTo n.log2 ≤ n := Nat.log2_self_le h

/-! ### Doubles -/

/-- The absolute value of a finite double, `mantissa * 2 ^ shift` units of `2 ^ -1074`. -/
structure Magnitude where
  mantissa : Nat
  shift : Nat
  mantissa_lt : mantissa < twoTo 53
  normal : shift = 0 ∨ twoTo 52 ≤ mantissa
  shift_le : shift ≤ 2045
  deriving DecidableEq

/-- A finite double. Zero has a sign. -/
structure Double where
  negative : Bool
  magnitude : Magnitude
  deriving DecidableEq

namespace Magnitude

/-- Zero. -/
def zero : Magnitude := ⟨0, 0, by decide, Or.inl rfl, by decide⟩

/-- How many units a magnitude is. -/
def units (x : Magnitude) : Nat := x.mantissa * twoTo x.shift

/-! ### Rounding -/

/-- The shift that leaves 53 bits of a number of units, or 0 if it has fewer. -/
def shiftFor (units : Nat) : Nat := units.log2 - 52

/-- The quotient to the nearest whole number, a half to the even one. -/
def roundedQuotient (num den : Nat) : Nat :=
  let q := num / den
  let r := num % den
  if 2 * r < den ∨ 2 * r = den ∧ q % 2 = 0 then q else q + 1

theorem roundedQuotient_le (num den : Nat) : roundedQuotient num den ≤ num / den + 1 := by
  simp only [roundedQuotient]
  split <;> omega

theorem le_roundedQuotient (num den : Nat) : num / den ≤ roundedQuotient num den := by
  simp only [roundedQuotient]
  split <;> omega

/-- The whole units of a quotient, cut to the mantissa, have at most 53 bits. -/
theorem div_shiftFor_lt (units : Nat) : units / twoTo (shiftFor units) < twoTo 53 := by
  have hlt := lt_twoTo_log2 units
  have hle : twoTo (units.log2 + 1) ≤ twoTo 53 * twoTo (shiftFor units) := by
    rw [← twoTo_add]
    exact twoTo_le_twoTo (by unfold shiftFor; omega)
  exact Nat.div_lt_of_lt_mul (Nat.mul_comm .. ▸ Nat.lt_of_lt_of_le hlt hle)

/-- They have fewer only if there is no shift. -/
theorem le_div_shiftFor (units : Nat) :
    shiftFor units = 0 ∨ twoTo 52 ≤ units / twoTo (shiftFor units) := by
  by_cases h : shiftFor units = 0
  · exact Or.inl h
  · refine Or.inr ((Nat.le_div_iff_mul_le (twoTo_pos _)).2 ?_)
    rw [← twoTo_add]
    have hlog : 52 + shiftFor units = units.log2 := by unfold shiftFor at h ⊢; omega
    rw [hlog]
    exact twoTo_log2_le (by rintro rfl; simp [shiftFor] at h)

/-- A quotient that is cut to its mantissa and rounded has at most 53 bits, or is `2 ^ 53`. -/
theorem mantissa_le (num den : Nat) :
    roundedQuotient num (den * twoTo (shiftFor (num / den))) ≤ twoTo 53 := by
  have h := roundedQuotient_le num (den * twoTo (shiftFor (num / den)))
  have h' := div_shiftFor_lt (num / den)
  rw [Nat.div_div_eq_div_mul] at h'
  omega

/-- It has fewer only if there is no shift. -/
theorem le_mantissa (num den : Nat) :
    shiftFor (num / den) = 0 ∨
      twoTo 52 ≤ roundedQuotient num (den * twoTo (shiftFor (num / den))) := by
  have h' := le_div_shiftFor (num / den)
  rw [Nat.div_div_eq_div_mul] at h'
  exact h'.imp_right fun h' => Nat.le_trans h' (le_roundedQuotient ..)

/-- The magnitude nearest to `num / den` units, a half going to the even mantissa; `none` if it is
too large for a double. -/
def nearest? (num den : Nat) : Option Magnitude :=
  let shift := shiftFor (num / den)
  if hfull : roundedQuotient num (den * twoTo shift) = twoTo 53 then
    if hs : shift + 1 ≤ 2045 then some ⟨twoTo 52, shift + 1, by decide, Or.inr (Nat.le_refl _), hs⟩
    else none
  else if hs : shift ≤ 2045 then
    some ⟨roundedQuotient num (den * twoTo shift), shift,
      Nat.lt_of_le_of_ne (mantissa_le num den) hfull, le_mantissa num den, hs⟩
  else none

/-- One, in units. -/
def unitsOfOne : Nat := twoTo 1074

/-- The magnitude nearest to a natural number. -/
def ofNat? (n : Nat) : Option Magnitude := nearest? (n * unitsOfOne) 1

/-- The product, rounded once. -/
def mul? (x y : Magnitude) : Option Magnitude := nearest? (x.units * y.units) unitsOfOne

/-- The quotient, rounded once. -/
def div? (x y : Magnitude) : Option Magnitude := nearest? (x.units * unitsOfOne) y.units

/-! ### Decimal scale -/

/-- Divides by `10 ^ places`.  A large power is taken in steps of `10 ^ 308`, each rounded. -/
def scaleDown? (x : Magnitude) (places : Nat) : Option Magnitude :=
  if places ≤ 308 then do x.div? (← ofNat? (tenTo places))
  else if x.mantissa = 0 then some x
  else do scaleDown? (← x.div? (← ofNat? (tenTo 308))) (places - 308)
termination_by places

/-- Multiplies by a power of ten; `none` if the result is too large for a double. -/
def scale? (x : Magnitude) (places : Int) : Option Magnitude :=
  if places < 0 then x.scaleDown? places.natAbs
  else if places ≤ 308 then do x.mul? (← ofNat? (tenTo places.natAbs))
  else if x.mantissa = 0 then some x
  else none

end Magnitude

end AccessPolicy.Json
