/-
Rectangles of sites and their order. A region is half open: its left column and top row belong to it, its right column
and bottom row do not, so a region whose ends meet or cross is empty. `sites` lists it row by row from the top left.
-/
namespace Imaging

structure Region where
  left : Nat
  top : Nat
  right : Nat
  bottom : Nat
  deriving DecidableEq, Repr

namespace Region

def whole (w h : Nat) : Region := { left := 0, top := 0, right := w, bottom := h }

/-- an image less `n` sites on each side -/
def inside (n w h : Nat) : Region := { left := n, top := n, right := w - n, bottom := h - n }

/-- the sites that are the upper left corner of a square of four -/
def corners (w h : Nat) : Region := { left := 0, top := 0, right := w - 1, bottom := h - 1 }

def tile (x y : Nat) : Region := { left := 2 * x, top := 2 * y, right := 2 * x + 2, bottom := 2 * y + 2 }

/-- the sites of a region in row-major order -/
def sites (g : Region) : List (Nat × Nat) :=
  (List.range' g.top (g.bottom - g.top)).flatMap fun y =>
    (List.range' g.left (g.right - g.left)).map fun x => (x, y)

theorem mem_sites {g : Region} {x y : Nat} :
    (x, y) ∈ g.sites ↔ (g.left ≤ x ∧ x < g.right) ∧ g.top ≤ y ∧ y < g.bottom := by
  simp only [sites, List.mem_flatMap, List.mem_map, List.mem_range'_1, Prod.mk.injEq]
  constructor
  · rintro ⟨y', hy, x', hx, rfl, rfl⟩
    omega
  · intro h
    exact ⟨y, by omega, x, by omega, rfl, rfl⟩

theorem sites_tile (x y : Nat) :
    (tile x y).sites = [(2 * x, 2 * y), (2 * x + 1, 2 * y), (2 * x, 2 * y + 1), (2 * x + 1, 2 * y + 1)] := by
  have hx : 2 * x + 2 - 2 * x = 2 := by omega
  have hy : 2 * y + 2 - 2 * y = 2 := by omega
  simp [sites, tile, hx, hy, List.range']

end Region

end Imaging
