/-
Interpolation by a fixed window. At a green site the colour of the row and the colour of the column are estimated; at a
site of the row's colour, green and the column's colour. A kernel gives the three values from the samples around the
site; `Raster.interpolate` writes them at each site of a region. Kernels are stated over any number type with the five
operations: in integers they are exact, and every division rounds towards minus infinity.
-/
import Imaging.Filter.Phase
import Imaging.Raster.Border

namespace Imaging

/-- the three channels of a pixel, named by the row of the filter that it stands in -/
structure Estimate (α : Type) where
  row : α
  green : α
  column : α
  deriving DecidableEq, Repr

def Estimate.map {α β : Type} (f : α → β) (e : Estimate α) : Estimate β := ⟨f e.row, f e.green, f e.column⟩

structure Kernel (α : Type) where
  /-- the estimate at a green site -/
  atGreen : Window α → Estimate α
  /-- the estimate at a site of the row's colour -/
  atColour : Window α → Estimate α

def Kernel.estimate {α : Type} (k : Kernel α) (p : Phase) (x : Nat) (s : Window α) : Estimate α :=
  if p.isGreen x then k.atGreen s else k.atColour s

namespace Raster

/-- store the three channels of a pixel -/
def store (r : Raster) (p : Phase) (x y : Nat) (e : Estimate Int) : Raster :=
  ((r.put x y p.rowChannel e.row).put x y .green e.green).put x y p.columnChannel e.column

/-- write the estimates of a kernel at the sites of a region -/
def interpolate (r : Raster) (m : Mosaic) (t : Tile) (k : Kernel Int) (g : Region) : Raster :=
  r.sweep g fun x y r =>
    let p := Phase.atRow t y
    r.store p x y (k.estimate p x (m.window x y))

theorem sameShape_store (r : Raster) (p : Phase) (x y : Nat) (e : Estimate Int) : SameShape (r.store p x y e) r :=
  (sameShape_put _ x y p.columnChannel e.column).trans
    ((sameShape_put _ x y .green e.green).trans (r.sameShape_put x y p.rowChannel e.row))

theorem sameShape_interpolate (r : Raster) (m : Mosaic) (t : Tile) (k : Kernel Int) (g : Region) :
    SameShape (r.interpolate m t k g) r :=
  r.sameShape_sweep fun x y s => sameShape_store s _ x y _

theorem get_store {r : Raster} {x y : Nat} (hx : x < r.width) (hy : y < r.height) (p : Phase) (e : Estimate Int)
    (x' y' : Nat) (c : Channel) :
    (r.store p x y e).get x' y' c =
      if x = x' ∧ y = y' then
        clamp (if c = p.rowChannel then e.row else if c = p.columnChannel then e.column else e.green) r.ceiling
      else r.get x' y' c := by
  have h₁ := r.sameShape_put x y p.rowChannel e.row
  have h₂ := (sameShape_put (r.put x y p.rowChannel e.row) x y .green e.green).trans h₁
  rw [store, get_put _ (h₂.width ▸ hx) (h₂.height ▸ hy), get_put _ (h₁.width ▸ hx) (h₁.height ▸ hy),
    get_put _ hx hy, h₂.ceiling, h₁.ceiling]
  by_cases h : x = x' ∧ y = y'
  · rcases p with ⟨blue, startsGreen⟩
    cases blue <;> cases c <;> simp [h, Phase.rowChannel, Phase.columnChannel]
  · simp [h]

end Raster

end Imaging
