/-
Writing pixels as bytes. Grey and RGB images are written pixel by pixel. Packed YUV 4:2:2 is written row by row: the
pixels of a row are paired from the left, a lone last pixel is paired with itself, and a pair shares the mean of its two
chromas, rounded down. `length_packRows` gives the size of the result, two bytes for each pixel of the padded row.
-/
import Imaging.Format.ByteOrder
import Imaging.Pixel.Basic

namespace Imaging

/-- the mean of two bytes, rounded down -/
def mean (a b : UInt8) : UInt8 := UInt8.ofNat ((a.toNat + b.toNat) / 2)

theorem mean_self (a : UInt8) : mean a a = a := by
  apply UInt8.toNat_inj.mp
  have := a.toNat_lt
  simp only [mean, UInt8.toNat_ofNat']
  omega

/-- cut a row-major image into `h` rows of `w` pixels -/
def rows {α : Type} (w : Nat) : Nat → List α → List (List α)
  | 0, _ => []
  | h + 1, pixels => pixels.take w :: rows w h (pixels.drop w)

theorem length_rows {α : Type} (w h : Nat) (pixels : List α) : (rows w h pixels).length = h := by
  induction h generalizing pixels with
  | zero => rfl
  | succ h ih => simp [rows, ih]

theorem flatten_rows {α : Type} {w h : Nat} {pixels : List α} (hl : pixels.length = w * h) :
    (rows w h pixels).flatten = pixels := by
  induction h generalizing pixels with
  | zero => simpa [rows, eq_comm] using hl
  | succ h ih =>
    have : (pixels.drop w).length = w * h := by
      rw [List.length_drop, hl, Nat.mul_succ]
      omega
    simp [rows, ih this]

namespace Pixel

def packMono8 (pixels : List Pixel) : List UInt8 := pixels.map level

def packRgb8 (pixels : List Pixel) : List UInt8 :=
  pixels.flatMap fun p => [p.toRgb.r, p.toRgb.g, p.toRgb.b]

/-- two neighbours with the mean of their chromas -/
def share (p q : Yuv UInt8) : PixelPair := ⟨p.y, q.y, mean p.u q.u, mean p.v q.v⟩

/-- pair a row from the left and write the pairs -/
def packRow (order : ByteOrder) : List (Yuv UInt8) → List UInt8
  | p :: q :: rest => order.bytes (share p q) ++ packRow order rest
  | [p] => order.bytes (share p p)
  | [] => []

def packRows (order : ByteOrder) (w h : Nat) (pixels : List Pixel) : List UInt8 :=
  (rows w h pixels).flatMap fun row => packRow order (row.map toYuv)

theorem length_packMono8 (pixels : List Pixel) : (packMono8 pixels).length = pixels.length := List.length_map _

theorem length_packRgb8 (pixels : List Pixel) : (packRgb8 pixels).length = 3 * pixels.length := by
  induction pixels with
  | nil => rfl
  | cons p pixels ih =>
    simp only [packRgb8, List.flatMap_cons, List.length_append, List.length_cons, List.length_nil] at ih ⊢
    omega

theorem length_packRow (order : ByteOrder) (row : List (Yuv UInt8)) :
    (packRow order row).length = 2 * evenWidth row.length := by
  fun_induction packRow order row with
  | case1 p q rest ih =>
    simp only [List.length_append, List.length_cons, order.length_bytes, ih, evenWidth]
    omega
  | case2 p => simp [order.length_bytes, evenWidth]
  | case3 => rfl

theorem length_packRows {order : ByteOrder} {w h : Nat} {pixels : List Pixel} (hl : pixels.length = w * h) :
    (packRows order w h pixels).length = 2 * (evenWidth w * h) := by
  induction h generalizing pixels with
  | zero => rfl
  | succ h ih =>
    rw [Nat.mul_succ] at hl ⊢
    have hd : (pixels.drop w).length = w * h := by
      rw [List.length_drop]
      omega
    have ht : min w pixels.length = w := by omega
    have hr : (packRows order w (h + 1) pixels).length
        = 2 * evenWidth w + (packRows order w h (pixels.drop w)).length := by
      simp [packRows, rows, length_packRow, ht]
    rw [hr, ih hd]
    omega

end Pixel

end Imaging
