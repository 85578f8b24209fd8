import Mathlib.Algebra.Ring.Nat

/-!
# Saturating arithmetic

Machine integers are natural numbers here; a sum that saturates is the minimum of the sum and the
largest value.

## Main results

* `satAdd_eq`: below the largest value a saturating sum is the sum
-/

namespace Celeriant

/-- The largest `u64`. -/
def u64Max : ℕ := 2 ^ 64 - 1

/-- `saturating_add`. -/
def satAdd (m n : ℕ) : ℕ := min (m + n) u64Max

theorem satAdd_eq {m n} (h : m + n ≤ u64Max) : satAdd m n = m + n := Nat.min_eq_left h

end Celeriant
