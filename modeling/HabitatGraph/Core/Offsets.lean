import HabitatGraph.Core.Schema

/-! # Offsets of 32 bits

Spans hold offsets of 32 bits. A larger number becomes the largest of them, and
sums stay at it.
-/

namespace HabitatGraph

/-- `u32::MAX`. -/
def u32Max : UInt32 := UInt32.ofNat (2 ^ 32 - 1)

/-- `u32::try_from(n).unwrap_or(u32::MAX)`. -/
def u32OrMax (n : Nat) : UInt32 := if n < 2 ^ 32 then UInt32.ofNat n else u32Max

/-- `a.saturating_add(b)`. -/
def u32SaturatingAdd (a b : UInt32) : UInt32 := u32OrMax (a.toNat + b.toNat)

theorem toNat_u32OrMax (n : Nat) : (u32OrMax n).toNat = min n (2 ^ 32 - 1) := by
  unfold u32OrMax
  split
  next hlt =>
    rw [UInt32.toNat_ofNat', Nat.mod_eq_of_lt hlt]
    omega
  next hle =>
    rw [u32Max, UInt32.toNat_ofNat']
    omega

theorem toNat_u32SaturatingAdd (a b : UInt32) :
    (u32SaturatingAdd a b).toNat = min (a.toNat + b.toNat) (2 ^ 32 - 1) := toNat_u32OrMax _

/-- What would be past the largest number is at it. -/
theorem u32SaturatingAdd_u32OrMax (m n : Nat) :
    u32SaturatingAdd (u32OrMax m) (u32OrMax n) = u32OrMax (m + n) := by
  apply UInt32.toNat_inj.mp
  rw [toNat_u32SaturatingAdd, toNat_u32OrMax, toNat_u32OrMax, toNat_u32OrMax]
  omega

end HabitatGraph
