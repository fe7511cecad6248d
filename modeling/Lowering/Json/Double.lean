/-!
# Doubles

A decimal number is brought into a double in three roundings: its significand is rounded, then the
power of ten it is multiplied by, then their product. All of these are natural numbers unless the
power is negative, and a product with a negative power never gets too large. Main definition:
`overflows`, which says when no double is left for the product.
-/

namespace Lowering.Json

/-- The nearest number with at most 53 significant binary digits. Of two that are equally near it is
the one whose last significant digit is zero. -/
def roundToDouble (n : Nat) : Nat :=
  let unit := Nat.pow 2 (n.log2 + 1 - 53)
  let units := n / unit
  let excess := n % unit
  if 2 * excess > unit ∨ (2 * excess = unit ∧ units % 2 = 1) then (units + 1) * unit
  else units * unit

/-- A number below `2 ^ 53` is a double already. -/
theorem roundToDouble_of_lt {n : Nat} (h : n < Nat.pow 2 53) : roundToDouble n = n := by
  have hlog : n.log2 + 1 - 53 = 0 := by
    by_cases hn : n = 0
    · simp [hn]
    · have := (Nat.log2_lt hn).2 h
      omega
  simp [roundToDouble, hlog, Nat.mod_one]

/-- The exponent of the largest power of ten that a double can hold. -/
def largestScale : Nat := 308

/-- A significand times a power of ten is too large for a double. Near the largest double the
roundings on the way decide, so two ways of writing one number may differ. -/
def overflows (significand : Nat) (scale : Int) : Bool :=
  significand ≠ 0 && (scale > largestScale || (scale ≥ 0 &&
    roundToDouble (roundToDouble significand * roundToDouble (Nat.pow 10 scale.toNat)) ≥
      Nat.pow 2 1024))

end Lowering.Json
