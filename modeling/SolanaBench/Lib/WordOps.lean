import Mathlib.Algebra.GroupWithZero.Nat

/-!
# Arithmetic on 64-bit words in two builds

A function that takes its operations from a `WordOps m` has one body for every build
of a program: a release build takes each result modulo `2 ^ 64`, a debug build stops
at the first result that is out of range.
-/

structure WordOps (m : Type → Type) where
  add : UInt64 → UInt64 → m UInt64
  sub : UInt64 → UInt64 → m UInt64
  mul : UInt64 → UInt64 → m UInt64

namespace WordOps

def release : WordOps Id where
  add a b := a + b
  sub a b := a - b
  mul a b := a * b

def debug : WordOps Option where
  add a b := if a.toNat + b.toNat < 2 ^ 64 then some (a + b) else none
  sub a b := if b ≤ a then some (a - b) else none
  mul a b := if a.toNat * b.toNat < 2 ^ 64 then some (a * b) else none

variable {a b : UInt64}

/-- A debug build that goes on has the result of the release build. -/
theorem debug_add (h : a.toNat + b.toNat < 2 ^ 64) : debug.add a b = some (a + b) := if_pos h

theorem debug_sub (h : b ≤ a) : debug.sub a b = some (a - b) := if_pos h

theorem debug_mul (h : a.toNat * b.toNat < 2 ^ 64) : debug.mul a b = some (a * b) := if_pos h

/-- Where a result fits it is the one of the natural numbers. -/
theorem toNat_add (h : a.toNat + b.toNat < 2 ^ 64) : (a + b).toNat = a.toNat + b.toNat := by
  rw [UInt64.toNat_add, Nat.mod_eq_of_lt h]

theorem toNat_mul (h : a.toNat * b.toNat < 2 ^ 64) : (a * b).toNat = a.toNat * b.toNat := by
  rw [UInt64.toNat_mul, Nat.mod_eq_of_lt h]

end WordOps
