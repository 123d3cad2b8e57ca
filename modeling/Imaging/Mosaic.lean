/-
The single plane of a sensor behind a colour filter: one sample a site, in row-major order. Sites are read by integer
coordinates, so that a window around a site is a function of the offset; outside the plane every sample reads as zero.
-/
import Imaging.Outcome

namespace Imaging

/-- what stands around a site, by offset to the right and down -/
abbrev Window (α : Type) := Int → Int → α

structure Mosaic where
  width : Nat
  height : Nat
  samples : Array Nat
  size_eq : samples.size = width * height
  deriving DecidableEq, Repr

namespace Mosaic

/-- a mosaic over a buffer of exactly its size -/
def ofBuffer (w h : Nat) (buffer : Array Nat) : Except Refusal Mosaic :=
  if ¬w * h < sizeLimit then .error (.dimensions w h)
  else if hs : buffer.size = w * h then .ok ⟨w, h, buffer, hs⟩
  else .error (.length (w * h) buffer.size)

def get (m : Mosaic) (x y : Nat) : Nat :=
  if x < m.width ∧ y < m.height then m.samples.getD (y * m.width + x) 0 else 0

/-- the sample at integer coordinates -/
def sample (m : Mosaic) (x y : Int) : Int := if 0 ≤ x ∧ 0 ≤ y then m.get x.toNat y.toNat else 0

def window (m : Mosaic) (x y : Nat) : Window Int := fun dx dy => m.sample (x + dx) (y + dy)

theorem sample_natCast (m : Mosaic) (x y : Nat) : m.sample x y = m.get x y := by
  simp [sample]

theorem ofBuffer_eq_ok_iff {w h : Nat} {buffer : Array Nat} {m : Mosaic} :
    ofBuffer w h buffer = .ok m ↔ w * h < sizeLimit ∧ m.width = w ∧ m.height = h ∧ m.samples = buffer := by
  unfold ofBuffer
  split
  · rename_i hl
    simp only [reduceCtorEq, false_iff]
    exact fun h => hl h.1
  · rename_i hl
    have hl := Decidable.not_not.mp hl
    split
    · rename_i hs
      constructor
      · rintro ⟨⟩
        exact ⟨hl, rfl, rfl, rfl⟩
      · rintro ⟨_, hw, hh, hb⟩
        cases m
        simp_all
    · rename_i hs
      simp only [reduceCtorEq, false_iff]
      rintro ⟨_, hw, hh, hb⟩
      exact hs (by rw [← hb, m.size_eq, hw, hh])

end Mosaic

end Imaging
