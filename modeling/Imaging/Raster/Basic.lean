/-
An interleaved colour image that is built in place. A raster stands over a buffer of the caller and starts with whatever
the buffer held. Every store clamps into `0 … ceiling`; a store outside the image is ignored and a read outside it is
zero. `get_put` is the law of the two, and all passes over a raster are sweeps: folds of a step over the sites of a
region.
-/
import Imaging.Filter.Tile
import Imaging.Mosaic
import Imaging.Raster.Region
import Imaging.Sample.Basic

namespace Imaging

structure Raster where
  width : Nat
  height : Nat
  /-- the largest value that a store leaves -/
  ceiling : Nat
  /-- three channels a pixel, pixels in row-major order -/
  data : Array Nat
  size_eq : data.size = 3 * (width * height)
  deriving DecidableEq, Repr

namespace Raster

/-- a raster over a buffer of exactly its size -/
def ofBuffer (w h ceiling : Nat) (buffer : Array Nat) : Except Refusal Raster :=
  if ¬3 * (w * h) < sizeLimit then .error (.dimensions w h)
  else if hs : buffer.size = 3 * (w * h) then .ok ⟨w, h, ceiling, buffer, hs⟩
  else .error (.length (3 * (w * h)) buffer.size)

/-- where a channel of a pixel is stored -/
def offset (r : Raster) (x y : Nat) (c : Channel) : Nat := 3 * (y * r.width + x) + c.index

def put (r : Raster) (x y : Nat) (c : Channel) (v : Int) : Raster :=
  if x < r.width ∧ y < r.height then
    { r with
      data := r.data.setIfInBounds (r.offset x y c) (clamp v r.ceiling)
      size_eq := by rw [Array.size_setIfInBounds, r.size_eq] }
  else r

def get (r : Raster) (x y : Nat) (c : Channel) : Nat :=
  if x < r.width ∧ y < r.height then r.data.getD (r.offset x y c) 0 else 0

/-- a channel at integer coordinates -/
def value (r : Raster) (c : Channel) (x y : Int) : Int := if 0 ≤ x ∧ 0 ≤ y then r.get x.toNat y.toNat c else 0

/-- a channel around a site -/
def window (r : Raster) (c : Channel) (x y : Nat) : Window Int := fun dx dy => r.value c (x + dx) (y + dy)

/-- run a step at each site of a region, in row-major order -/
def sweep (r : Raster) (g : Region) (step : Nat → Nat → Raster → Raster) : Raster :=
  g.sites.foldl (fun r site => step site.1 site.2 r) r

/-- two rasters of one size and one ceiling -/
structure SameShape (r s : Raster) : Prop where
  width : r.width = s.width
  height : r.height = s.height
  ceiling : r.ceiling = s.ceiling

/-! ## Buffers -/

theorem ofBuffer_eq_ok_iff {w h ceiling : Nat} {buffer : Array Nat} {r : Raster} :
    ofBuffer w h ceiling buffer = .ok r ↔
      3 * (w * h) < sizeLimit ∧ r.width = w ∧ r.height = h ∧ r.ceiling = ceiling ∧ r.data = buffer := by
  unfold ofBuffer
  split
  · rename_i hl
    simp only [reduceCtorEq, false_iff]
    exact fun h => hl h.1
  · rename_i hl
    have hl := Decidable.not_not.mp hl
    split
    · rename_i hs
      constructor
      · rintro ⟨⟩
        exact ⟨hl, rfl, rfl, rfl, rfl⟩
      · rintro ⟨_, hw, hh, hc, hb⟩
        cases r
        simp_all
    · rename_i hs
      simp only [reduceCtorEq, false_iff]
      rintro ⟨_, hw, hh, _, hb⟩
      exact hs (by rw [← hb, r.size_eq, hw, hh])

/-! ## Shape -/

theorem SameShape.refl (r : Raster) : SameShape r r := ⟨rfl, rfl, rfl⟩

theorem SameShape.symm {r s : Raster} (h : SameShape r s) : SameShape s r :=
  ⟨h.width.symm, h.height.symm, h.ceiling.symm⟩

theorem SameShape.trans {r s t : Raster} (h₁ : SameShape r s) (h₂ : SameShape s t) : SameShape r t :=
  ⟨h₁.width.trans h₂.width, h₁.height.trans h₂.height, h₁.ceiling.trans h₂.ceiling⟩

theorem SameShape.size {r s : Raster} (h : SameShape r s) : r.data.size = s.data.size := by
  rw [r.size_eq, s.size_eq, h.width, h.height]

variable (r : Raster)

theorem sameShape_put (x y : Nat) (c : Channel) (v : Int) : SameShape (r.put x y c v) r := by
  unfold put
  split
  · exact ⟨rfl, rfl, rfl⟩
  · exact SameShape.refl r

/-- what a sweep starts with and each of its steps keeps, it ends with -/
theorem sweep_induction {motive : Raster → Prop} {g : Region} {step : Nat → Nat → Raster → Raster} (h₀ : motive r)
    (hs : ∀ x y s, (x, y) ∈ g.sites → motive s → motive (step x y s)) : motive (r.sweep g step) := by
  unfold sweep
  have h := fun site (hm : site ∈ g.sites) s => hs site.1 site.2 s hm
  generalize g.sites = sites at h
  induction sites generalizing r with
  | nil => exact h₀
  | cons site sites ih =>
    rw [List.foldl_cons]
    refine ih _ (h site List.mem_cons_self r h₀) fun other hm s => ?_
    exact h other (List.mem_cons_of_mem site hm) s

theorem sameShape_sweep {g : Region} {step : Nat → Nat → Raster → Raster} (h : ∀ x y s, SameShape (step x y s) s) :
    SameShape (r.sweep g step) r :=
  r.sweep_induction (motive := fun s => SameShape s r) (SameShape.refl r) fun x y s _ hs => (h x y s).trans hs

/-! ## Reading what was stored -/

/-- two places of an image are the same only where column and row are -/
theorem place_inj {w x y x' y' : Nat} (hx : x < w) (hx' : x' < w) : y * w + x = y' * w + x' ↔ x = x' ∧ y = y' := by
  constructor
  · intro h
    have hy : y = y' := by
      have h₁ : (y * w + x) / w = y := by
        rw [Nat.add_comm, Nat.add_mul_div_right _ _ (by omega), Nat.div_eq_of_lt hx, Nat.zero_add]
      have h₂ : (y' * w + x') / w = y' := by
        rw [Nat.add_comm, Nat.add_mul_div_right _ _ (by omega), Nat.div_eq_of_lt hx', Nat.zero_add]
      rw [← h₁, ← h₂, h]
    subst hy
    exact ⟨by omega, rfl⟩
  · rintro ⟨rfl, rfl⟩
    rfl

theorem place_lt {w h x y : Nat} (hx : x < w) (hy : y < h) : y * w + x < w * h := by
  calc
    y * w + x < y * w + w := by omega
    _ = (y + 1) * w := by rw [Nat.succ_mul]
    _ ≤ h * w := Nat.mul_le_mul_right w hy
    _ = w * h := Nat.mul_comm h w

theorem offset_lt {x y : Nat} (c : Channel) (hx : x < r.width) (hy : y < r.height) :
    r.offset x y c < r.data.size := by
  have := place_lt hx hy
  have := c.index_lt
  rw [r.size_eq, offset]
  omega

theorem getElem?_offset {x y : Nat} (hx : x < r.width) (hy : y < r.height) (c : Channel) :
    r.data[r.offset x y c]? = some (r.get x y c) := by
  have hin := r.offset_lt c hx hy
  rw [get, if_pos ⟨hx, hy⟩, Array.getD, dif_pos hin, Array.getElem?_eq_getElem hin]
  rfl

theorem offset_inj {x x' : Nat} (hx : x < r.width) (hx' : x' < r.width) (y y' : Nat) (c c' : Channel) :
    r.offset x y c = r.offset x' y' c' ↔ (x = x' ∧ y = y') ∧ c = c' := by
  rw [← place_inj hx hx', ← Channel.index_inj]
  have := c.index_lt
  have := c'.index_lt
  unfold offset
  omega

/-- a store is read back clamped, and no other channel of the image changes -/
theorem get_put {x y : Nat} (hx : x < r.width) (hy : y < r.height) (c : Channel) (v : Int) (x' y' : Nat)
    (c' : Channel) :
    (r.put x y c v).get x' y' c' = if (x = x' ∧ y = y') ∧ c = c' then clamp v r.ceiling else r.get x' y' c' := by
  have hlt := r.offset_lt c hx hy
  by_cases h' : x' < r.width ∧ y' < r.height
  · have hlt' := r.offset_lt c' h'.1 h'.2
    have hinj := r.offset_inj hx h'.1 y y' c c'
    simp only [put, hx, hy, and_self, if_true, get, h', offset] at hinj hlt hlt' ⊢
    rw [Array.getD_eq_getD_getElem?, Array.getElem?_setIfInBounds]
    by_cases he : (x = x' ∧ y = y') ∧ c = c'
    · rw [if_pos he, if_pos (hinj.mpr he), if_pos hlt]
      rfl
    · rw [if_neg he, if_neg fun h => he (hinj.mp h), Array.getD_eq_getD_getElem?]
  · have hne : ¬((x = x' ∧ y = y') ∧ c = c') := by
      rintro ⟨⟨rfl, rfl⟩, _⟩
      exact h' ⟨hx, hy⟩
    have hshape := r.sameShape_put x y c v
    rw [if_neg hne]
    simp only [get, hshape.width, hshape.height, h', if_false]

/-- a store outside the image is ignored -/
theorem put_of_outside {x y : Nat} (h : ¬(x < r.width ∧ y < r.height)) (c : Channel) (v : Int) :
    r.put x y c v = r := if_neg h

/-- every place of the buffer is a channel of a pixel of the image -/
theorem exists_offset {i : Nat} (hi : i < r.data.size) :
    ∃ x y c, (x < r.width ∧ y < r.height) ∧ i = r.offset x y c := by
  rw [r.size_eq] at hi
  have hw : 0 < r.width := by
    rcases Nat.eq_zero_or_pos r.width with h | h
    · simp [h] at hi
    · exact h
  have hc : ∃ c : Channel, c.index = i % 3 := by
    have hm : i % 3 < 3 := Nat.mod_lt _ (by decide)
    match h : i % 3, hm with
    | 0, _ => exact ⟨.red, rfl⟩
    | 1, _ => exact ⟨.green, rfl⟩
    | 2, _ => exact ⟨.blue, rfl⟩
  obtain ⟨c, hc⟩ := hc
  refine ⟨i / 3 % r.width, i / 3 / r.width, c, ⟨Nat.mod_lt _ hw, ?_⟩, ?_⟩
  · rw [Nat.div_lt_iff_lt_mul hw, Nat.mul_comm]
    omega
  · have hd : i / 3 / r.width * r.width + i / 3 % r.width = i / 3 := by
      rw [Nat.mul_comm]
      exact Nat.div_add_mod _ _
    rw [offset, hd, hc]
    omega

/-- a raster is its shape and its pixels -/
theorem eq_of_get {r s : Raster} (h : SameShape r s)
    (hg : ∀ x y c, x < r.width → y < r.height → r.get x y c = s.get x y c) : r = s := by
  have hdata : r.data = s.data := by
    apply Array.ext h.size
    intro i hr hs
    obtain ⟨x, y, c, hxy, rfl⟩ := r.exists_offset hr
    have hgc := hg x y c hxy.1 hxy.2
    have hxy' : x < s.width ∧ y < s.height := h.width ▸ h.height ▸ hxy
    have ho : r.offset x y c = s.offset x y c := by simp only [offset, h.width]
    simp only [get, hxy, hxy', and_self, if_true, ← ho] at hgc
    simpa [Array.getD, hr, hs] using hgc
  cases r
  cases s
  obtain ⟨hw, hh, hc⟩ := h
  simp_all

end Raster

end Imaging
