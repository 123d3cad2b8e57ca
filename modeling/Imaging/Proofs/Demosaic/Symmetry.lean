/-
Demosaicing under the symmetries of a rectangle. A kernel whose window lies evenly around the site sees a mirrored
mosaic as the mirror of what it saw before, and its estimates of row and column change places where columns and rows do
(`Kernel.Symmetric`). The same holds of a tile that becomes one pixel, although there another of its four sites comes to
stand in the first place. Outside the mosaic every window reads zeros and the interiors are symmetric themselves, so no
size is special:
- `Method.pixel_symmetric`: pixel by pixel, the borders included;
- `decode_symmetric`: for the requests, at every depth.
-/
import Imaging.Proofs.Demosaic.Depth
import Imaging.Proofs.Filter.Symmetry

namespace Imaging

/-! ## Windows and estimates -/

/-- around a square of `n` sites a side, what a window shows after the symmetry -/
def Symmetry.window {α : Type} (σ : Symmetry) (n : Nat) (s : Window α) : Window α :=
  match σ with
  | mirror => fun dx dy => s (n - 1 - dx) dy
  | flip => fun dx dy => s dx (n - 1 - dy)
  | transpose => fun dx dy => s dy dx

namespace Estimate

variable {α : Type}

/-- the estimates of row and column change places -/
def swap (e : Estimate α) : Estimate α := ⟨e.column, e.green, e.row⟩

theorem channel_congr (e : Estimate α) {p q : Phase} (h : p.blue = q.blue) (c : Channel) :
    e.channel p c = e.channel q c := by
  rcases p with ⟨blue, startsGreen⟩
  obtain rfl : blue = q.blue := h
  rfl

theorem channel_swap (e : Estimate α) {p q : Phase} (h : p.blue = !q.blue) (c : Channel) :
    e.swap.channel p c = e.channel q c := by
  rcases p with ⟨blue, startsGreen⟩
  rcases q with ⟨blue', startsGreen'⟩
  obtain rfl : blue = !blue' := h
  cases blue' <;> cases c <;> rfl

end Estimate

/-- what becomes of the estimate at a green site -/
def Symmetry.turn {α : Type} (σ : Symmetry) (e : Estimate α) : Estimate α :=
  match σ with
  | mirror | flip => e
  | transpose => e.swap

/-- turning a window upside down is mirroring its rows made columns -/
theorem Symmetry.window_flip {α : Type} (n : Nat) (s : Window α) :
    flip.window n s = transpose.window n (mirror.window n (transpose.window n s)) := rfl

/-! ## Kernels -/

/-- a kernel estimates a rearranged site as it estimated the site before -/
structure Kernel.Symmetric (k : Kernel Int) (σ : Symmetry) : Prop where
  atGreen : ∀ s, k.atGreen (σ.window 1 s) = σ.turn (k.atGreen s)
  atColour : ∀ s, k.atColour (σ.window 1 s) = k.atColour s

/-- two of the symmetries give the third -/
theorem Kernel.Symmetric.flip {k : Kernel Int} (hmirror : k.Symmetric .mirror) (htranspose : k.Symmetric .transpose) :
    k.Symmetric .flip := by
  refine ⟨fun s => ?_, fun s => ?_⟩
  · rw [Symmetry.window_flip, htranspose.atGreen, hmirror.atGreen, Symmetry.turn, Symmetry.turn, htranspose.atGreen]
    rfl
  · rw [Symmetry.window_flip, htranspose.atColour, hmirror.atColour, htranspose.atColour]

theorem Kernel.Symmetric.of_generators {k : Kernel Int} (hmirror : k.Symmetric .mirror)
    (htranspose : k.Symmetric .transpose) (σ : Symmetry) : k.Symmetric σ := by
  cases σ with
  | mirror => exact hmirror
  | flip => exact hmirror.flip htranspose
  | transpose => exact htranspose

namespace Kernel

open EdgeSense

theorem mirror_apply (s : Window Int) (dx dy : Int) : Symmetry.mirror.window 1 s dx dy = s (-dx) dy := by
  simp only [Symmetry.window, Int.natCast_one, Int.sub_self, Int.zero_sub]

theorem transpose_apply (n : Nat) (s : Window Int) (dx dy : Int) : Symmetry.transpose.window n s dx dy = s dy dx := rfl

theorem roundedMean_comm (a b : Int) : roundedMean a b = roundedMean b a := by
  rw [roundedMean, roundedMean, Int.add_comm a b]

theorem symmetric_simple : simple.Symmetric .transpose := by
  refine ⟨fun s => rfl, fun s => ?_⟩
  simp only [simple, transpose_apply, roundedMean_comm]

theorem symmetric_bilinear (σ : Symmetry) : bilinear.Symmetric σ := by
  refine .of_generators ⟨fun s => ?_, fun s => ?_⟩ ⟨fun s => rfl, fun s => ?_⟩ σ
  · simp only [bilinear, mirror_apply, Int.neg_neg, Int.neg_zero, roundedMean_comm, Symmetry.turn]
  · simp only [bilinear, beside, diagonal, mirror_apply, Int.neg_neg, Int.neg_zero, Estimate.mk.injEq, true_and]
    omega
  · simp only [bilinear, beside, diagonal, transpose_apply, Estimate.mk.injEq, true_and]
    omega

theorem symmetric_hqLinear (σ : Symmetry) : hqLinear.Symmetric σ := by
  refine .of_generators ⟨fun s => ?_, fun s => ?_⟩ ⟨fun s => ?_, fun s => ?_⟩ σ
  · simp only [hqLinear, alongRow, alongColumn, diagonal, roundedMean, mirror_apply, Int.neg_neg, Int.neg_zero,
      Symmetry.turn, Estimate.mk.injEq, true_and]
    omega
  · simp only [hqLinear, greenBeside, colourDiagonal, beside, twoBeside, diagonal, mirror_apply, Int.neg_neg,
      Int.neg_zero, Estimate.mk.injEq, true_and]
    omega
  · simp only [hqLinear, alongRow, alongColumn, diagonal, roundedMean, transpose_apply, Symmetry.turn, Estimate.swap,
      Estimate.mk.injEq, true_and]
    omega
  · simp only [hqLinear, greenBeside, colourDiagonal, beside, twoBeside, diagonal, transpose_apply, Estimate.mk.injEq,
      true_and]
    omega

/-! ### Edge-sensing -/

theorem meanOfTwo_comm (a b : Int) : meanOfTwo a b = meanOfTwo b a := by
  rw [meanOfTwo, meanOfTwo, Int.add_comm]

/-- the roughness of row and the roughness of column change places with row and column -/
theorem greenAlong_transpose (dh dv : Nat) (g : Window Int) :
    greenAlong dv dh (Symmetry.transpose.window 1 g) = greenAlong dh dv g := by
  simp only [greenAlong, transpose_apply]
  rcases Nat.lt_trichotomy dh dv with hlt | heq | hlt
  · rw [if_neg (Nat.lt_asymm hlt), if_pos hlt, if_pos hlt]
  · subst heq
    rw [if_neg (Nat.lt_irrefl _), if_neg (Nat.lt_irrefl _)]
    simp only [meanOfFour]
    omega
  · rw [if_pos hlt, if_neg (Nat.lt_asymm hlt), if_pos hlt]

theorem edgeGreen_mirror (s : Window Int) : edgeGreen (Symmetry.mirror.window 1 s) = edgeGreen s := by
  have hrow : secondDifferenceAlongRow (Symmetry.mirror.window 1 s) = secondDifferenceAlongRow s := by
    rw [secondDifferenceAlongRow, secondDifferenceAlongRow, mirror_apply, mirror_apply, mirror_apply, meanOfTwo_comm]
    rfl
  have hcolumn : secondDifferenceAlongColumn (Symmetry.mirror.window 1 s) = secondDifferenceAlongColumn s := by
    rfl
  rw [edgeGreen, edgeGreen, greenEstimate, greenEstimate, hrow, hcolumn]
  simp only [greenAlong, mirror_apply, Int.neg_neg, Int.neg_zero, meanOfTwo_comm (s 1 0)]
  simp only [meanOfFour, Int.add_comm (s 1 0)]

theorem edgeGreen_transpose (s : Window Int) : edgeGreen (Symmetry.transpose.window 1 s) = edgeGreen s := by
  rw [edgeGreen, edgeGreen, greenEstimate, greenEstimate, ← greenAlong_transpose]
  rfl

theorem edgeDifference_mirror (s : Window Int) :
    edgeDifference (Symmetry.mirror.window 1 s) = Symmetry.mirror.window 1 (edgeDifference s) := by
  funext a b
  have hmoved : (Symmetry.mirror.window 1 s).moved a b = Symmetry.mirror.window 1 (s.moved (-a) b) := by
    funext dx dy
    rw [Window.moved, mirror_apply, mirror_apply, Window.moved, Int.neg_add]
  rw [edgeDifference, hmoved, edgeGreen_mirror, mirror_apply, mirror_apply, edgeDifference]

theorem edgeDifference_transpose (s : Window Int) :
    edgeDifference (Symmetry.transpose.window 1 s) = Symmetry.transpose.window 1 (edgeDifference s) := by
  funext a b
  have hmoved : (Symmetry.transpose.window 1 s).moved a b = Symmetry.transpose.window 1 (s.moved b a) := rfl
  rw [edgeDifference, hmoved, edgeGreen_transpose]
  rfl

theorem symmetric_edgeSense (σ : Symmetry) : edgeSense.Symmetric σ := by
  refine .of_generators ⟨fun s => ?_, fun s => ?_⟩ ⟨fun s => ?_, fun s => ?_⟩ σ
  · simp only [edgeSense, edgeDifference_mirror, mirror_apply, Int.neg_neg, Int.neg_zero, Symmetry.turn,
      meanOfTwo_comm (edgeDifference s 1 0)]
  · simp only [edgeSense, edgeDifference_mirror, edgeGreen_mirror, mirror_apply, Int.neg_neg, Int.neg_zero, meanOfFour,
      Estimate.mk.injEq, true_and]
    omega
  · simp only [edgeSense, edgeDifference_transpose, transpose_apply, Symmetry.turn, Estimate.swap]
  · simp only [edgeSense, edgeDifference_transpose, edgeGreen_transpose, transpose_apply, meanOfFour, Estimate.mk.injEq,
      true_and]
    omega

/-! ### Colours -/

section Colours

variable {σ : Symmetry} {w h a b x y : Nat}

/-- the two orders in which an estimate can be stored, for the two kinds of sites -/
theorem channel_turn (htakes : σ.Takes 1 w h a b x y) (htiles : WholeTiles w h) {t : Tile}
    (hg : (Phase.atRow t b).isGreen a = true) (e : Estimate Int) (c : Channel) :
    (σ.turn e).channel (Phase.atRow (σ.tile t) y) c = e.channel (Phase.atRow t b) c := by
  have hblue := Symmetry.rowBlue_tile htakes htiles t
  rw [hg, Bool.and_true] at hblue
  cases σ with
  | mirror | flip => exact e.channel_congr (by simpa using hblue) c
  | transpose => exact e.channel_swap (by simpa using hblue) c

/-- **The colours of a rearranged site** are the colours of the site before. -/
theorem Symmetric.colour {k : Kernel Int} (hk : k.Symmetric σ) (htakes : σ.Takes 1 w h a b x y)
    (htiles : WholeTiles w h) (t : Tile) (s : Window Int) (c : Channel) :
    k.colour (σ.tile t) x y (σ.window 1 s) c = k.colour t a b s c := by
  have hgreen := Symmetry.isGreen_tile htakes htiles t
  by_cases hg : (Phase.atRow t b).isGreen a = true
  · rw [colour_of_green (hgreen.trans hg), colour_of_green hg, hk.atGreen, channel_turn htakes htiles hg]
  · have hblue := Symmetry.rowBlue_tile htakes htiles t
    rw [eq_false_of_ne_true hg, Bool.and_false, Bool.bne_false] at hblue
    rw [colour_of_not_green (hgreen ▸ hg), colour_of_not_green hg, hk.atColour, Estimate.channel_congr _ hblue]

theorem symmetric_tilewise : tilewise.Symmetric .transpose := by
  refine ⟨fun s => rfl, fun s => ?_⟩
  simp only [tilewise, transpose_apply, Int.add_comm (s 0 1)]

/-- in a mirrored tile another site stands first: it is green where the first one was not -/
theorem colour_tilewise_mirror (htakes : Symmetry.mirror.Takes 2 w h a b x y) (htiles : WholeTiles w h) (t : Tile)
    (s : Window Int) (c : Channel) :
    tilewise.colour t.nextX x y (Symmetry.mirror.window 2 s) c = tilewise.colour t a b s c := by
  obtain ⟨ha, rfl⟩ := htakes
  have hx : x % 2 = a % 2 := by
    have := htiles.2.2.1
    omega
  have hestimate : tilewise.estimate (Phase.atRow t b).nextColumn x (Symmetry.mirror.window 2 s) =
      tilewise.estimate (Phase.atRow t b) a s := by
    rw [estimate, estimate, Phase.isGreen_nextColumn, Phase.isGreen_succ, Phase.isGreen_congr _ hx]
    cases (Phase.atRow t b).isGreen a with
    | true => simp [tilewise, Symmetry.window]
    | false => simp [tilewise, Symmetry.window]
  rw [colour, colour, Phase.atRow_nextX, hestimate]
  exact Estimate.channel_congr _ rfl c

/-- turned upside down, a tile is a mirrored tile with rows for columns -/
theorem colour_tilewise_flip (htakes : Symmetry.flip.Takes 2 w h a b x y) (htiles : WholeTiles w h) (t : Tile)
    (s : Window Int) (c : Channel) :
    tilewise.colour t.nextY x y (Symmetry.flip.window 2 s) c = tilewise.colour t a b s c := by
  have htile : t.nextY = Symmetry.transpose.tile t.transpose.nextX := by cases t <;> rfl
  have htiles' := Symmetry.transpose.wholeTiles_size htiles
  obtain ⟨rfl, hb⟩ := htakes
  calc
    tilewise.colour t.nextY a y (Symmetry.flip.window 2 s) c
      = tilewise.colour t.transpose.nextX y a (Symmetry.mirror.window 2 (Symmetry.transpose.window 1 s)) c := by
        rw [htile]
        exact symmetric_tilewise.colour (w := h) (h := w) ⟨rfl, rfl⟩ htiles' _ _ c
    _ = tilewise.colour t.transpose b a (Symmetry.transpose.window 1 s) c :=
        colour_tilewise_mirror (w := h) (h := w) ⟨hb, rfl⟩ htiles' _ _ c
    _ = tilewise.colour t a b s c := symmetric_tilewise.colour (w := w) (h := h) ⟨rfl, rfl⟩ htiles t s c

end Colours

end Kernel

/-! ## Pixels -/

/-- one mosaic is another one after a symmetry -/
structure Mosaic.IsImage (image m : Mosaic) (σ : Symmetry) : Prop where
  width : image.width = (σ.size m.width m.height).1
  height : image.height = (σ.size m.width m.height).2
  get : ∀ x y, x < image.width → y < image.height →
    image.get x y = m.get (σ.origin m.width m.height x y).1 (σ.origin m.width m.height x y).2

theorem Mosaic.sample_of_outside {m : Mosaic} {x y : Int} (h : ¬((0 ≤ x ∧ x < m.width) ∧ 0 ≤ y ∧ y < m.height)) :
    m.sample x y = 0 := by
  rw [sample]
  split
  · rw [get_of_outside (by omega)]
    rfl
  · rfl

namespace Mosaic.IsImage

variable {image m : Mosaic} {σ : Symmetry}

theorem limit (h : image.IsImage m σ) (ceiling : Nat) : (image.limit ceiling).IsImage (m.limit ceiling) σ := by
  refine ⟨h.width, h.height, ?_⟩
  intro x y hx hy
  rw [get_limit, h.get x y hx hy]
  exact (get_limit ..).symm

theorem source (h : image.IsImage m σ) (k : Method) (ceiling : Nat) :
    (k.source image ceiling).IsImage (k.source m ceiling) σ := by
  cases k with
  | edgeSense => exact h.limit ceiling
  | nearest | simple | bilinear | hqLinear | downsample => exact h

/-- **Windows of a rearranged mosaic** are rearranged windows, beyond the edges too. -/
theorem window_eq (h : image.IsImage m σ) {n a b x y : Nat} (htakes : σ.Takes n m.width m.height a b x y) :
    image.window x y = σ.window n (m.window a b) := by
  funext dx dy
  have hw := h.width
  have hh := h.height
  by_cases hin : (0 ≤ x + dx ∧ x + dx < image.width) ∧ 0 ≤ y + dy ∧ y + dy < image.height
  · obtain ⟨i, hi⟩ : ∃ i : Nat, (i : Int) = x + dx := ⟨(x + dx).toNat, by omega⟩
    obtain ⟨j, hj⟩ : ∃ j : Nat, (j : Int) = y + dy := ⟨(y + dy).toNat, by omega⟩
    rw [image.window_eq_get hi hj, h.get i j (by omega) (by omega)]
    cases σ with
    | mirror =>
      obtain ⟨ha, rfl⟩ := htakes
      simp only [Symmetry.size] at hw
      exact (m.window_eq_get (a := m.width - 1 - i) (by omega) hj).symm
    | flip =>
      obtain ⟨rfl, hb⟩ := htakes
      simp only [Symmetry.size] at hh
      exact (m.window_eq_get (b := m.height - 1 - j) hi (by omega)).symm
    | transpose =>
      obtain ⟨rfl, rfl⟩ := htakes
      exact (m.window_eq_get hj hi).symm
  · -- both windows look over the edge
    have himage : image.window x y dx dy = 0 := sample_of_outside hin
    rw [himage]
    symm
    cases σ with
    | mirror =>
      obtain ⟨ha, rfl⟩ := htakes
      simp only [Symmetry.size] at hw hh
      exact sample_of_outside (by omega)
    | flip =>
      obtain ⟨rfl, hb⟩ := htakes
      simp only [Symmetry.size] at hw hh
      exact sample_of_outside (by omega)
    | transpose =>
      obtain ⟨rfl, rfl⟩ := htakes
      simp only [Symmetry.size] at hw hh
      exact sample_of_outside (by omega)

end Mosaic.IsImage

namespace Method

/-- the method's windows are symmetric too. The simple method looks to the right and down, so transposing alone leaves
its window in place; the nearest method takes green from the right, and no symmetry does. -/
def Respects (k : Method) (σ : Symmetry) : Prop :=
  k ∈ [bilinear, hqLinear, downsample, edgeSense] ∨ k = simple ∧ σ = .transpose

instance (k : Method) (σ : Symmetry) : Decidable (k.Respects σ) := inferInstanceAs (Decidable (_ ∨ _))

variable {k : Method} {σ : Symmetry} {w h a b x y : Nat}

theorem colour_symmetric (hk : k.Respects σ) (htakes : σ.Takes k.stride w h a b x y) (htiles : WholeTiles w h)
    (t : Tile) (s : Window Int) (c : Channel) :
    k.kernel.colour (σ.tile t) x y (σ.window k.stride s) c = k.kernel.colour t a b s c := by
  cases k with
  | nearest => exact absurd hk (by cases σ <;> decide)
  | simple =>
    obtain rfl : σ = .transpose := (hk.resolve_left (by decide)).2
    exact Kernel.symmetric_simple.colour htakes htiles t s c
  | bilinear => exact (Kernel.symmetric_bilinear σ).colour htakes htiles t s c
  | hqLinear => exact (Kernel.symmetric_hqLinear σ).colour htakes htiles t s c
  | edgeSense => exact (Kernel.symmetric_edgeSense σ).colour htakes htiles t s c
  | downsample =>
    cases σ with
    | mirror => exact Kernel.colour_tilewise_mirror htakes htiles t s c
    | flip => exact Kernel.colour_tilewise_flip htakes htiles t s c
    | transpose => exact Kernel.symmetric_tilewise.colour htakes htiles t s c

theorem stride_mul_outputSize (k : Method) (htiles : WholeTiles w h) :
    k.stride * (k.outputSize w h).1 = w ∧ k.stride * (k.outputSize w h).2 = h := by
  obtain ⟨_, _, hw, hh⟩ := htiles
  cases k with
  | downsample =>
    simp only [stride, outputSize]
    omega
  | nearest | simple | bilinear | hqLinear | edgeSense => exact ⟨Nat.one_mul w, Nat.one_mul h⟩

theorem outputSize_size (k : Method) (σ : Symmetry) (w h : Nat) :
    k.outputSize (σ.size w h).1 (σ.size w h).2 = σ.size (k.outputSize w h).1 (k.outputSize w h).2 := by
  cases k <;> cases σ <;> rfl

theorem interior_symmetric (hk : k.Respects σ)
    (htakes : σ.Takes 1 (k.outputSize w h).1 (k.outputSize w h).2 a b x y) :
    (k.interior (σ.size w h).1 (σ.size w h).2).Contains x y ↔ (k.interior w h).Contains a b := by
  cases σ with
  | mirror =>
    obtain ⟨ha, rfl⟩ := htakes
    cases k with
    | nearest | simple => exact absurd hk (by decide)
    | bilinear | hqLinear | downsample | edgeSense =>
      simp only [interior, outputSize, Symmetry.size, Region.Contains, Region.inside, Region.whole] at ha ⊢
      omega
  | flip =>
    obtain ⟨rfl, hb⟩ := htakes
    cases k with
    | nearest | simple => exact absurd hk (by decide)
    | bilinear | hqLinear | downsample | edgeSense =>
      simp only [interior, outputSize, Symmetry.size, Region.Contains, Region.inside, Region.whole] at hb ⊢
      omega
  | transpose =>
    obtain ⟨rfl, rfl⟩ := htakes
    cases k <;> exact and_comm

variable {image m : Mosaic}

/-- **Pixels of a rearranged mosaic** are the rearranged pixels, the borders included. -/
theorem pixel_symmetric (hk : k.Respects σ) (himage : image.IsImage m σ) (htiles : WholeTiles m.width m.height)
    (htakes : σ.Takes 1 (k.outputSize m.width m.height).1 (k.outputSize m.width m.height).2 a b x y) (t : Tile)
    (ceiling : Nat) (c : Channel) :
    k.pixel image (σ.tile t) ceiling x y c = k.pixel m t ceiling a b c := by
  have hsites := htakes.scale k.stride
  rw [(k.stride_mul_outputSize htiles).1, (k.stride_mul_outputSize htiles).2] at hsites
  have hwindow := (himage.source k ceiling).window_eq (n := k.stride) (a := k.stride * a) (b := k.stride * b)
    (x := k.stride * x) (y := k.stride * y) (by rw [k.width_source, k.height_source]; exact hsites)
  have hestimate : k.estimate image (σ.tile t) ceiling x y c = k.estimate m t ceiling a b c := by
    rw [estimate, estimate, hwindow]
    exact colour_symmetric hk hsites htiles t _ c
  have hin := interior_symmetric hk htakes
  rw [← himage.width, ← himage.height] at hin
  rw [pixel, pixel, hestimate]
  exact if_congr hin rfl rfl

end Method

/-! ## Buffers -/

section Buffers

variable {α : Type} [Inhabited α]

/-- the samples of a plane `w` by `h` after the symmetry -/
def Symmetry.rearrange (σ : Symmetry) (w h : Nat) (src : Array α) : Array α :=
  tabulate (σ.size w h).1 (σ.size w h).2 fun x y => src[(σ.origin w h x y).2 * w + (σ.origin w h x y).1]!

variable {σ : Symmetry} {w h : Nat} {src : Array α}

theorem size_rearrange : (σ.rearrange w h src).size = (σ.size w h).1 * (σ.size w h).2 := size_tabulate

theorem Symmetry.area (σ : Symmetry) (w h : Nat) : (σ.size w h).1 * (σ.size w h).2 = w * h := by
  cases σ with
  | mirror | flip => rfl
  | transpose => exact Nat.mul_comm h w

theorem Depth.isImage_rearrange (d : Depth α) (hsrc : src.size = w * h) :
    (d.mosaic _ _ (σ.rearrange w h src) size_rearrange).IsImage (d.mosaic w h src hsrc) σ := by
  refine ⟨rfl, rfl, ?_⟩
  intro x y (hx : x < (σ.size w h).1) (hy : y < (σ.size w h).2)
  obtain ⟨ha, hb⟩ := σ.origin_lt hx hy
  have hsite : (σ.origin w h x y).2 * w + (σ.origin w h x y).1 < src.size := by
    rw [hsrc]
    exact Raster.place_lt ha hb
  have horigin := d.get_mosaic hsrc ha hb
  rw [d.get_mosaic size_rearrange hx hy, Symmetry.rearrange, getElem?_tabulate hx hy, getElem!_pos src _ hsite,
    ← Array.getElem?_eq_getElem hsite]
  exact horigin.symm

theorem Fits.rearrange {k : Method} {dst dst' : Array α} (hfit : Fits k w h src dst) (hdst' : dst'.size = dst.size)
    (σ : Symmetry) : Fits k (σ.size w h).1 (σ.size w h).2 (σ.rearrange w h src) dst' := by
  refine ⟨σ.wholeTiles_size hfit.tiles, size_rearrange, ?_, ?_, hdst' ▸ hfit.dst_lt⟩
  · rw [hdst', hfit.dst_size, k.outputSize_size, Symmetry.area]
  · rw [size_rearrange, Symmetry.area, ← hfit.src_size]
    exact hfit.src_lt

/-- **Demosaicing commutes with the symmetries of a rectangle.** The image of a mirrored mosaic, seen through the filter
one column on, is the mirrored image; the image of a mosaic turned upside down, seen through the filter one row on, is
the image turned upside down; and the image of a transposed mosaic behind the transposed filter is the transposed image.
The last holds of the simple method too. No border is left out, and no size. -/
theorem decode_symmetric (d : Depth α) (σ : Symmetry) (t : Tile) (k : Method) (w h : Nat) (src dst dst' : Array α)
    (hk : k.Respects σ) (hfit : Fits k w h src dst) (hdst' : dst'.size = dst.size) :
    (d.decode t k w h src dst).result = .ok () ∧
      (d.decode (σ.tile t) k (σ.size w h).1 (σ.size w h).2 (σ.rearrange w h src) dst').result = .ok () ∧
      let W := (k.outputSize w h).1
      let H := (k.outputSize w h).2
      ∀ x y c, x < (σ.size W H).1 → y < (σ.size W H).2 → ∃ v,
        channelAt? (σ.size W H).1
            (d.decode (σ.tile t) k (σ.size w h).1 (σ.size w h).2 (σ.rearrange w h src) dst').dst x y c = some v ∧
          channelAt? W (d.decode t k w h src dst).dst (σ.origin W H x y).1 (σ.origin W H x y).2 c = some v := by
  have hfit' := hfit.rearrange hdst' σ
  refine ⟨(d.result_eq_ok_iff t k w h src dst).mpr hfit, (d.result_eq_ok_iff _ k _ _ _ dst').mpr hfit', ?_⟩
  intro W H x y c hx hy
  have hsize := k.outputSize_size σ w h
  have horigin := σ.origin_lt hx hy
  have hpixel := Method.pixel_symmetric hk (d.isImage_rearrange hfit.src_size) hfit.tiles (σ.takes_origin hx hy) t
    d.ceiling c
  have hafter := d.channelAt?_decode hfit' (σ.tile t) (x := x) (y := y) (by rw [hsize]; exact hx)
    (by rw [hsize]; exact hy) c
  have hbefore := d.channelAt?_decode hfit t horigin.1 horigin.2 c
  rw [hsize, hpixel] at hafter
  exact ⟨_, hafter, hbefore⟩

/-- a ramp of bytes in a mirror and upside down, and a transposed ramp of 12-bit samples -/
theorem decode_symmetric_ramp :
    (let ramp : Array UInt8 := .ofFn fun n : Fin 80 => .ofNat (3 * n)
      ∀ x y c, x < 10 → y < 8 → ∃ v,
        channelAt? 10 (decode8 .rggb .edgeSense 10 8 (Symmetry.mirror.rearrange 10 8 ramp) (.replicate 240 7)).dst x y c =
            some v ∧
          channelAt? 10 (decode8 .grbg .edgeSense 10 8 ramp (.replicate 240 9)).dst (10 - 1 - x) y c = some v) ∧
      (let ramp : Array UInt8 := .ofFn fun n : Fin 24 => .ofNat (10 * n)
        ∀ x y c, x < 3 → y < 2 → ∃ v,
          channelAt? 3 (decode8 .rggb .downsample 6 4 (Symmetry.flip.rearrange 6 4 ramp) (.replicate 18 7)).dst x y c =
              some v ∧
            channelAt? 3 (decode8 .gbrg .downsample 6 4 ramp (.replicate 18 9)).dst x (2 - 1 - y) c = some v) ∧
      (let ramp : Array UInt16 := .ofFn fun n : Fin 24 => .ofNat (100 * n)
        ∀ x y c, x < 4 → y < 6 → ∃ v,
          channelAt? 4 (decode16 .gbrg .simple 4 6 12 (Symmetry.transpose.rearrange 6 4 ramp) (.replicate 72 7)).dst x y c =
              some v ∧
            channelAt? 6 (decode16 .grbg .simple 6 4 12 ramp (.replicate 72 9)).dst y x c = some v) := by
  refine ⟨?_, ?_, ?_⟩
  · intro ramp
    exact (decode_symmetric .byte .mirror .grbg .edgeSense 10 8 ramp (.replicate 240 9) (.replicate 240 7) (by decide)
      (by decide +kernel) (by decide +kernel)).2.2
  · intro ramp
    exact (decode_symmetric .byte .flip .gbrg .downsample 6 4 ramp (.replicate 18 9) (.replicate 18 7) (by decide)
      (by decide +kernel) (by decide +kernel)).2.2
  · intro ramp
    exact (decode_symmetric (.word 12 (by decide)) .transpose .grbg .simple 6 4 ramp (.replicate 72 9) (.replicate 72 7)
      (by decide) (by decide +kernel) (by decide +kernel)).2.2

end Buffers

end Imaging
