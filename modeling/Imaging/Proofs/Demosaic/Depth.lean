/-
Demosaicing into an image of bytes or of 16-bit samples. Both entry points are one request at a depth (`Depth.decode`),
and whether it succeeds depends on sizes alone:
- `result_eq_ok_iff`: a request succeeds exactly where its buffers fit its sizes (`Fits`);
- `decode_of_fits`, `channelAt?_rebuild`: it then leaves `Method.pixel` in every channel of every pixel, which mentions
  neither the raster nor what the destination held before;
- `exists_channelAt?_decode`: where each site has a pixel, that is the clamped colour of the method's kernel, or zero;
- `rebuild_le`: nothing in the image is above the ceiling of the depth.
-/
import Mathlib.Algebra.Order.Ring.Int
import Imaging.Proofs.Demosaic.Pixel

namespace Imaging

theorem ceiling_eq_pow (bits : Nat) : ceiling bits = 2 ^ bits - 1 := by
  rw [ceiling, Nat.one_shiftLeft]

/-- the samples of a depth are a power of two times as many as its bytes -/
theorem ValidDepth.two_pow_eq {bits : Nat} (h : ValidDepth bits) : 2 ^ bits = 2 ^ (bits - 8) * 256 := by
  rw [show 256 = 2 ^ 8 from rfl, ← Nat.pow_add, Nat.sub_add_cancel h.1]

/-- the element types of an image: bytes, or 16-bit samples with a number of significant bits -/
inductive Depth : Type → Type where
  | byte : Depth UInt8
  | word (bits : Nat) (valid : ValidDepth bits) : Depth UInt16

namespace Depth

variable {α : Type}

def ceiling : Depth α → Nat
  | byte => 255
  | word bits _ => Imaging.ceiling bits

def toNat : Depth α → α → Nat
  | byte => UInt8.toNat
  | word _ _ => UInt16.toNat

def ofNat : Depth α → Nat → α
  | byte => UInt8.ofNat
  | word _ _ => UInt16.ofNat

/-- a sum as a sample: clamped, then narrowed to the element type -/
def clip : Depth α → Int → α
  | byte, v => clip8 v 255
  | word bits _, v => clip16 v (Imaging.ceiling bits)

def decode (d : Depth α) (t : Tile) (k : Method) (w h : Nat) (src dst : Array α) : Outcome α :=
  match d, src, dst with
  | byte, src, dst => decode8 t k w h src dst
  | word bits _, src, dst => decode16 t k w h bits src dst

theorem ofNat_toNat (d : Depth α) (a : α) : d.ofNat (d.toNat a) = a := by
  cases d with
  | byte => exact UInt8.ofNat_toNat
  | word bits _ => exact UInt16.ofNat_toNat

theorem toNat_injective (d : Depth α) : Function.Injective d.toNat :=
  Function.LeftInverse.injective d.ofNat_toNat

theorem toNat_ofNat (d : Depth α) {n : Nat} (h : n ≤ d.ceiling) : d.toNat (d.ofNat n) = n := by
  cases d with
  | byte =>
    have hn : n < 2 ^ 8 := Nat.lt_succ_of_le h
    rw [toNat, ofNat, UInt8.toNat_ofNat', Nat.mod_eq_of_lt hn]
  | word bits hbits =>
    have hn : n < 2 ^ 16 := Nat.lt_succ_of_le (Nat.le_trans h (ceiling_mono hbits.2))
    rw [toNat, ofNat, UInt16.toNat_ofNat', Nat.mod_eq_of_lt hn]

theorem ofNat_clamp (d : Depth α) (v : Int) : d.ofNat (clamp v d.ceiling) = d.clip v := by
  cases d <;> rfl

theorem toNat_clip (d : Depth α) (v : Int) : d.toNat (d.clip v) = clamp v d.ceiling := by
  cases d with
  | byte => exact toNat_clip8 (by decide)
  | word bits hbits => exact toNat_clip16 (ceiling_mono hbits.2)

theorem map_map_ofNat (d : Depth α) (image : Array α) : (image.map d.toNat).map d.ofNat = image := by
  rw [Array.map_map]
  exact Array.map_id'' d.ofNat_toNat image

/-- both requests demosaic natural numbers at the ceiling of their depth -/
theorem decode_eq (d : Depth α) (t : Tile) (k : Method) (w h : Nat) (src dst : Array α) :
    d.decode t k w h src dst =
      (Demosaic.decode t k w h d.ceiling (src.map d.toNat) (dst.map d.toNat)).map d.ofNat := by
  cases d with
  | byte => rfl
  | word bits hbits => rw [decode, decode16, requireDepth, require_of hbits, Outcome.provided_ok]; rfl

end Depth

/-! ## Sizes -/

/-- a mosaic and an image have the sizes that a request asks for -/
structure Fits {α : Type} (k : Method) (w h : Nat) (src dst : Array α) : Prop where
  tiles : WholeTiles w h
  src_size : src.size = w * h
  dst_size : dst.size = 3 * ((k.outputSize w h).1 * (k.outputSize w h).2)
  src_lt : src.size < sizeLimit
  dst_lt : dst.size < sizeLimit

theorem fits_iff {α : Type} {k : Method} {w h : Nat} {src dst : Array α} :
    Fits k w h src dst ↔
      WholeTiles w h ∧ src.size = w * h ∧ dst.size = 3 * ((k.outputSize w h).1 * (k.outputSize w h).2) ∧
        src.size < sizeLimit ∧ dst.size < sizeLimit :=
  ⟨fun h => ⟨h.tiles, h.src_size, h.dst_size, h.src_lt, h.dst_lt⟩, fun h => ⟨h.1, h.2.1, h.2.2.1, h.2.2.2.1, h.2.2.2.2⟩⟩

instance {α : Type} (k : Method) (w h : Nat) (src dst : Array α) : Decidable (Fits k w h src dst) :=
  decidable_of_iff' _ fits_iff

def Raster.blank (w h ceiling : Nat) : Raster where
  width := w
  height := h
  ceiling := ceiling
  data := Array.replicate (3 * (w * h)) 0
  size_eq := Array.size_replicate

theorem Raster.map_data_eq {β : Type} {r s : Raster} {f g : Nat → β} (hw : r.width = s.width) (hh : r.height = s.height)
    (hget : ∀ x y c, f (r.get x y c) = g (s.get x y c)) : r.data.map f = s.data.map g := by
  have hsize : r.data.size = s.data.size := by rw [r.size_eq, s.size_eq, hw, hh]
  apply Array.ext
  · rw [Array.size_map, Array.size_map, hsize]
  · intro i hr hs
    rw [Array.size_map] at hr hs
    obtain ⟨x, y, c, hxy, rfl⟩ := r.exists_offset hr
    have hxy' : x < s.width ∧ y < s.height := hw ▸ hh ▸ hxy
    have ho : r.offset x y c = s.offset x y c := by rw [offset, offset, hw]
    have h := hget x y c
    rw [get, get, if_pos hxy, if_pos hxy', ← ho] at h
    simpa [Array.getD, hr, hs] using h

theorem Raster.forall_mem_data {r : Raster} {P : Nat → Prop} (h : ∀ x y c, P (r.get x y c)) : ∀ v ∈ r.data, P v := by
  intro v hv
  obtain ⟨i, hi, rfl⟩ := Array.getElem_of_mem hv
  obtain ⟨x, y, c, hxy, rfl⟩ := r.exists_offset hi
  have hget := h x y c
  rw [get, if_pos hxy, Array.getD, dif_pos hi] at hget
  exact hget

/-- a channel of a pixel of an interleaved image `w` pixels wide -/
def channelAt? {α : Type} (w : Nat) (image : Array α) (x y : Nat) (c : Channel) : Option α :=
  image[3 * (y * w + x) + c.index]?

theorem Raster.channelAt?_data {β : Type} (r : Raster) (f : Nat → β) {x y : Nat} (hx : x < r.width) (hy : y < r.height)
    (c : Channel) : channelAt? r.width (r.data.map f) x y c = some (f (r.get x y c)) := by
  rw [channelAt?, ← offset, Array.getElem?_map, r.getElem?_offset hx hy, Option.map_some]

/-! ## Mosaics by column and row -/

section Tabulate

variable {α : Type} {w h : Nat} {f : Nat → Nat → α}

/-- the samples of a plane in row-major order, each a function of its column and row -/
def tabulate (w h : Nat) (f : Nat → Nat → α) : Array α := .ofFn fun place : Fin (w * h) => f (place % w) (place / w)

theorem size_tabulate : (tabulate w h f).size = w * h := Array.size_ofFn

theorem getElem?_tabulate {x y : Nat} (hx : x < w) (hy : y < h) : (tabulate w h f)[y * w + x]? = some (f x y) := by
  have hdiv : (y * w + x) / w = y := by
    rw [Nat.add_comm, Nat.add_mul_div_right _ _ (by omega), Nat.div_eq_of_lt hx, Nat.zero_add]
  have hmod : (y * w + x) % w = x := by
    rw [Nat.add_comm, Nat.add_mul_mod_self_right, Nat.mod_eq_of_lt hx]
  have hlt : y * w + x < (tabulate w h f).size := by
    rw [size_tabulate]
    exact Raster.place_lt hx hy
  rw [Array.getElem?_eq_getElem hlt]
  simp only [tabulate, Array.getElem_ofFn, hdiv, hmod]

theorem exists_of_mem_tabulate {a : α} (ha : a ∈ tabulate w h f) : ∃ x y, x < w ∧ y < h ∧ a = f x y := by
  obtain ⟨⟨place, hplace⟩, rfl⟩ := Array.mem_ofFn.mp ha
  have hw : 0 < w := Nat.pos_of_mul_pos_right (Nat.zero_lt_of_lt hplace)
  exact ⟨place % w, place / w, Nat.mod_lt _ hw, Nat.div_lt_of_lt_mul hplace, rfl⟩

end Tabulate

/-! ## Requests -/

namespace Depth

variable {α : Type} {k : Method} {w h : Nat} {src dst : Array α}

def mosaic (d : Depth α) (w h : Nat) (src : Array α) (size_eq : src.size = w * h) : Mosaic where
  width := w
  height := h
  samples := src.map d.toNat
  size_eq := by rw [Array.size_map, size_eq]

theorem get_mosaic (d : Depth α) (hsrc : src.size = w * h) {x y : Nat} (hx : x < w) (hy : y < h) :
    (d.mosaic w h src hsrc).get x y = (src[y * w + x]?.map d.toNat).getD 0 := by
  rw [Mosaic.get, if_pos ⟨hx, hy⟩, Array.getD_eq_getD_getElem?, ← Array.getElem?_map]
  rfl

/-- the colour image of a mosaic, built over zeros -/
def rebuild (d : Depth α) (k : Method) (t : Tile) (m : Mosaic) : Array α :=
  (k.run m t (.blank (k.outputSize m.width m.height).1 (k.outputSize m.width m.height).2 d.ceiling)).data.map d.ofNat

/-- the checks of a request pass where its buffers fit -/
theorem views_of_fits (d : Depth α) (hfit : Fits k w h src dst) :
    ∃ r : Raster, Demosaic.views k w h d.ceiling (src.map d.toNat) (dst.map d.toNat) =
        .ok (d.mosaic w h src hfit.src_size, r) ∧
      r.SameShape (.blank (k.outputSize w h).1 (k.outputSize w h).2 d.ceiling) := by
  obtain ⟨htiles, hsrc, hdst, hsrc_lt, hdst_lt⟩ := hfit
  refine ⟨⟨_, _, d.ceiling, dst.map d.toNat, (Array.size_map ..).trans hdst⟩, ?_, ⟨rfl, rfl, rfl⟩⟩
  refine Demosaic.views_eq_ok_iff.mpr ⟨htiles, ?_, ?_⟩
  · exact Mosaic.ofBuffer_eq_ok_iff.mpr ⟨hsrc ▸ hsrc_lt, rfl, rfl, rfl⟩
  · exact Raster.ofBuffer_eq_ok_iff.mpr ⟨hdst ▸ hdst_lt, rfl, rfl, rfl, rfl⟩

/-- **A request that fits** writes the image of its mosaic; what the destination held before does not appear. -/
theorem decode_of_fits (d : Depth α) (t : Tile) (hfit : Fits k w h src dst) :
    d.decode t k w h src dst = .written (d.rebuild k t (d.mosaic w h src hfit.src_size)) := by
  obtain ⟨r, hviews, hr⟩ := d.views_of_fits hfit
  rw [decode_eq, Demosaic.decode, hviews, Outcome.guarded_ok, Outcome.map_written, rebuild,
    k.run_eq_run (m := d.mosaic w h src hfit.src_size) hr.width hr.height hr]
  rfl

/-- **Exactly the requests that fit succeed.** -/
theorem result_eq_ok_iff (d : Depth α) (t : Tile) (k : Method) (w h : Nat) (src dst : Array α) :
    (d.decode t k w h src dst).result = .ok () ↔ Fits k w h src dst := by
  constructor
  · intro hok
    rw [decode_eq, Outcome.map, Demosaic.decode, Outcome.guarded_result] at hok
    cases hv : Demosaic.views k w h d.ceiling (src.map d.toNat) (dst.map d.toNat) with
    | error e =>
      rw [hv] at hok
      cases hok
    | ok v =>
      obtain ⟨m, r⟩ := v
      obtain ⟨htiles, hm, hr⟩ := Demosaic.views_eq_ok_iff.mp hv
      obtain ⟨hsrc_lt, hmw, hmh, hsrc⟩ := Mosaic.ofBuffer_eq_ok_iff.mp hm
      obtain ⟨hdst_lt, hrw, hrh, _, hdst⟩ := Raster.ofBuffer_eq_ok_iff.mp hr
      have hsrc_size : src.size = w * h := by
        rw [← Array.size_map (f := d.toNat), ← hsrc, m.size_eq, hmw, hmh]
      have hdst_size : dst.size = 3 * ((k.outputSize w h).1 * (k.outputSize w h).2) := by
        rw [← Array.size_map (f := d.toNat), ← hdst, r.size_eq, hrw, hrh]
      exact ⟨htiles, hsrc_size, hdst_size, hsrc_size ▸ hsrc_lt, hdst_size ▸ hdst_lt⟩
  · intro hfit
    rw [d.decode_of_fits t hfit]
    rfl

/-- a rebuilt image stands in a raster of the method's output size -/
theorem exists_raster (d : Depth α) (k : Method) (t : Tile) (m : Mosaic) :
    ∃ r : Raster, (r.width = (k.outputSize m.width m.height).1 ∧ r.height = (k.outputSize m.width m.height).2) ∧
      d.rebuild k t m = r.data.map d.ofNat ∧ ∀ x y c, r.get x y c = k.pixel m t d.ceiling x y c := by
  have hs := k.sameShape_run m t
    (.blank (k.outputSize m.width m.height).1 (k.outputSize m.width m.height).2 d.ceiling)
  exact ⟨_, ⟨hs.width, hs.height⟩, rfl, fun x y c => k.get_run rfl rfl t x y c⟩

theorem size_rebuild (d : Depth α) (k : Method) (t : Tile) (m : Mosaic) :
    (d.rebuild k t m).size = 3 * ((k.outputSize m.width m.height).1 * (k.outputSize m.width m.height).2) := by
  obtain ⟨r, ⟨hw, hh⟩, hdata, _⟩ := d.exists_raster k t m
  rw [hdata, Array.size_map, r.size_eq, hw, hh]

/-- **Every channel of a rebuilt image.** -/
theorem channelAt?_rebuild (d : Depth α) (k : Method) (t : Tile) (m : Mosaic) {x y : Nat}
    (hx : x < (k.outputSize m.width m.height).1) (hy : y < (k.outputSize m.width m.height).2) (c : Channel) :
    channelAt? (k.outputSize m.width m.height).1 (d.rebuild k t m) x y c =
      some (d.ofNat (k.pixel m t d.ceiling x y c)) := by
  obtain ⟨r, ⟨hw, hh⟩, hdata, hget⟩ := d.exists_raster k t m
  rw [hdata, ← hw, r.channelAt?_data d.ofNat (hw ▸ hx) (hh ▸ hy), hget]

/-- what holds of every pixel of the method holds of every element of a rebuilt image -/
theorem forall_mem_rebuild (d : Depth α) {k : Method} {t : Tile} {m : Mosaic} {P : α → Prop}
    (h : ∀ x y c, P (d.ofNat (k.pixel m t d.ceiling x y c))) : ∀ v ∈ d.rebuild k t m, P v := by
  intro v hv
  obtain ⟨r, _, hdata, hget⟩ := d.exists_raster k t m
  rw [hdata] at hv
  obtain ⟨n, hn, rfl⟩ := Array.mem_map.mp hv
  refine Raster.forall_mem_data (P := fun n => P (d.ofNat n)) (fun x y c => ?_) n hn
  rw [hget]
  exact h x y c

/-- **The range of a rebuilt image.** Whatever the samples, no element is above the ceiling of the depth. -/
theorem rebuild_le (d : Depth α) (k : Method) (t : Tile) (m : Mosaic) : ∀ v ∈ d.rebuild k t m, d.toNat v ≤ d.ceiling := by
  refine d.forall_mem_rebuild fun x y c => ?_
  have hle := k.pixel_le m t d.ceiling x y c
  rw [d.toNat_ofNat hle]
  exact hle

theorem channelAt?_decode (d : Depth α) (hfit : Fits k w h src dst) (t : Tile) {x y : Nat}
    (hx : x < (k.outputSize w h).1) (hy : y < (k.outputSize w h).2) (c : Channel) :
    channelAt? (k.outputSize w h).1 (d.decode t k w h src dst).dst x y c =
      some (d.ofNat (k.pixel (d.mosaic w h src hfit.src_size) t d.ceiling x y c)) := by
  rw [d.decode_of_fits t hfit]
  exact d.channelAt?_rebuild k t (d.mosaic w h src hfit.src_size) hx hy c

/-- a pixel of the image, as the numbers in its channels -/
theorem exists_pixel_decode (d : Depth α) (hfit : Fits k w h src dst) (t : Tile) {x y : Nat}
    (hx : x < (k.outputSize w h).1) (hy : y < (k.outputSize w h).2) :
    ∃ pixel : Channel → α,
      (∀ c, channelAt? (k.outputSize w h).1 (d.decode t k w h src dst).dst x y c = some (pixel c)) ∧
        (fun c => d.toNat (pixel c)) = k.pixel (d.mosaic w h src hfit.src_size) t d.ceiling x y := by
  refine ⟨fun c => d.ofNat (k.pixel (d.mosaic w h src hfit.src_size) t d.ceiling x y c), ?_, ?_⟩
  · exact d.channelAt?_decode hfit t hx hy
  · funext c
    exact d.toNat_ofNat (Method.pixel_le ..)

/-- **A pixel for each site:** the clipped colour of the method's kernel inside, zero outside. -/
theorem channelAt?_decode_of_ne (d : Depth α) (hk : k ≠ .downsample) (hfit : Fits k w h src dst) (t : Tile) {x y : Nat}
    (hx : x < w) (hy : y < h) (c : Channel) :
    channelAt? w (d.decode t k w h src dst).dst x y c =
      some (if (k.interior w h).Contains x y then
        d.clip (k.kernel.colour t x y ((k.source (d.mosaic w h src hfit.src_size) d.ceiling).window x y) c)
      else d.ofNat 0) := by
  have hsize := Method.outputSize_of_ne hk w h
  have hv := d.channelAt?_decode hfit t (x := x) (y := y) (by rw [hsize]; exact hx) (by rw [hsize]; exact hy) c
  rw [hsize] at hv
  rw [hv, Method.pixel, Method.estimate_of_ne hk, apply_ite d.ofNat, d.ofNat_clamp]
  rfl

theorem exists_channelAt?_decode (d : Depth α) (hk : k ≠ .downsample) (hfit : Fits k w h src dst) (t : Tile) {x y : Nat}
    (hx : x < w) (hy : y < h) (c : Channel) :
    ∃ v, channelAt? w (d.decode t k w h src dst).dst x y c = some v ∧
      d.toNat v =
        if (k.interior w h).Contains x y then
          clamp (k.kernel.colour t x y ((k.source (d.mosaic w h src hfit.src_size) d.ceiling).window x y) c) d.ceiling
        else 0 := by
  refine ⟨_, d.channelAt?_decode_of_ne hk hfit t hx hy c, ?_⟩
  split
  · exact d.toNat_clip _
  · exact d.toNat_ofNat (Nat.zero_le _)

end Depth

end Imaging
