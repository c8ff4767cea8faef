import Mathlib

/- A property of every byte holds of the 256 numbers that are bytes. A decision over the
   numbers is quick, and one over the type `UInt8` is not. -/
namespace Byte

theorem forall_of_lt {P : UInt8 → Prop} (h : ∀ n < 256, P (UInt8.ofNat n)) (c : UInt8) : P c := by
  have hc := h c.toNat c.toNat_lt
  rwa [UInt8.ofNat_toNat] at hc

end Byte
