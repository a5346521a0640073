/-!
# Machine words

Counts, sizes and clock readings are 64-bit words. They are kept as naturals; the bounds stand here,
and an operation that could pass a bound says what it does there.
-/

namespace Steward

/-- The greatest 64-bit word. -/
def wordMax : Nat := 18446744073709551615

/-- The greatest 32-bit word. -/
def halfWordMax : Nat := 4294967295

/-- The count of naturals that a signed 64-bit word can hold. -/
def signBound : Nat := 9223372036854775808

/-- The sum of naturals. -/
def total : List Nat → Nat
  | [] => 0
  | n :: rest => n + total rest

/-- A sum that stops at the greatest word. -/
def saturatingAdd (a b : Nat) : Nat := min (a + b) wordMax

end Steward
