/-
Samples of 8 and 16 bits. A 16-bit sample has a depth, the number of its significant bits; its ceiling is the largest
value of that depth. Every store clamps into `0 … ceiling`, and reducing to 8 bits saturates (`clamp_le`, `reduce_eq`).
-/
import Imaging.Refusal

namespace Imaging

/-- the nearest value in `0 … ceiling` -/
def clamp (v : Int) (ceiling : Nat) : Nat := (min v ceiling).toNat

theorem clamp_le (v : Int) (ceiling : Nat) : clamp v ceiling ≤ ceiling := by
  unfold clamp
  omega

theorem clamp_zero (ceiling : Nat) : clamp 0 ceiling = 0 := by
  unfold clamp
  omega

theorem clamp_of_mem {v : Int} {ceiling : Nat} (h₀ : 0 ≤ v) (h : v ≤ ceiling) : (clamp v ceiling : Int) = v := by
  unfold clamp
  omega

theorem clamp_natCast (v ceiling : Nat) : clamp (v : Int) ceiling = min v ceiling := by
  unfold clamp
  omega

/-- clamp, then keep the low 8 bits -/
def clip8 (v : Int) (ceiling : Nat) : UInt8 := UInt8.ofNat (clamp v ceiling)

/-- clamp, then keep the low 16 bits -/
def clip16 (v : Int) (ceiling : Nat) : UInt16 := UInt16.ofNat (clamp v ceiling)

theorem toNat_clip8 {v : Int} {ceiling : Nat} (h : ceiling ≤ 255) : (clip8 v ceiling).toNat = clamp v ceiling := by
  have := clamp_le v ceiling
  simp only [clip8, UInt8.toNat_ofNat']
  omega

theorem toNat_clip16 {v : Int} {ceiling : Nat} (h : ceiling ≤ 65535) :
    (clip16 v ceiling).toNat = clamp v ceiling := by
  have := clamp_le v ceiling
  simp only [clip16, UInt16.toNat_ofNat']
  omega

/-! ## Depth -/

/-- the numbers of significant bits that a 16-bit sample can have -/
def ValidDepth (bits : Nat) : Prop := 8 ≤ bits ∧ bits ≤ 16

instance (bits : Nat) : Decidable (ValidDepth bits) := inferInstanceAs (Decidable (8 ≤ bits ∧ bits ≤ 16))

/-- refuse a depth that no 16-bit sample has -/
def requireDepth (bits : Nat) : Except Refusal Unit := require (ValidDepth bits) (.parameter .bitDepth)

/-- the largest sample of a depth -/
def ceiling (bits : Nat) : Nat := (1 <<< bits) - 1

theorem ceiling_mono {a b : Nat} (h : a ≤ b) : ceiling a ≤ ceiling b := by
  rw [ceiling, ceiling, Nat.one_shiftLeft, Nat.one_shiftLeft]
  exact Nat.sub_le_sub_right (Nat.pow_le_pow_right (by decide) h) 1

/-- drop the bits of a sample below its upper eight; a sample above its depth saturates -/
def reduce (bits : Nat) (v : UInt16) : UInt8 := clip8 (v.toNat >>> (bits - 8) : Nat) 255

theorem reduce_eq (bits : Nat) (v : UInt16) : (reduce bits v).toNat = min (v.toNat >>> (bits - 8)) 255 := by
  rw [reduce, toNat_clip8 (by decide), clamp_natCast]

end Imaging
