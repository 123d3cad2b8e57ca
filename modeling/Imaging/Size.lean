/-
Image sizes. A buffer length is a natural number below `2 ^ 64`. Products of sizes are formed in exact arithmetic and
compared with that bound, so "too large" is a decidable property of a request and never a wrapped number.
-/
namespace Imaging

/-- one more than the largest length that a buffer can have -/
def sizeLimit : Nat := UInt64.size

/-- both sides are even and not zero: the sizes that whole 2x2 tiles of a colour filter cover -/
def WholeTiles (w h : Nat) : Prop := 2 ≤ w ∧ 2 ≤ h ∧ w % 2 = 0 ∧ h % 2 = 0

instance (w h : Nat) : Decidable (WholeTiles w h) :=
  inferInstanceAs (Decidable (2 ≤ w ∧ 2 ≤ h ∧ w % 2 = 0 ∧ h % 2 = 0))

/-- the width, made even by one more column where it is odd -/
def evenWidth (w : Nat) : Nat := w + w % 2

theorem evenWidth_of_even {w : Nat} (h : w % 2 = 0) : evenWidth w = w := by
  simp [evenWidth, h]

theorem evenWidth_even (w : Nat) : evenWidth w % 2 = 0 := by
  unfold evenWidth
  omega

end Imaging
