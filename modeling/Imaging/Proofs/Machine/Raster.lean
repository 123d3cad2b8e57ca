/-
Mosaics and rasters that fit the machine. A buffer that a request accepts has fewer than `2 ^ 64` places, and that alone
keeps every place of it in a word: coordinates inside the image never overflow, and rows are slices of the buffer.
- `around_eq`, `channelAround_eq`, `put_eq`: accesses inside the image do not fault, and do what they say;
- `clear_eq`, `clearBorders_eq`, `clearLastRowColumn_eq`: clearing does not fault, whatever the raster holds, for any size
  of the image and frames of any width, those that are wider than the image included;
- `sweep_eq`: a sweep does not fault where its steps do not, from any raster that the sweep can have left.
-/
import Imaging.Machine.Raster
import Imaging.Proofs.Demosaic.Edges

namespace Imaging

/-- a mosaic that fits the machine, of samples of 16 bits at most -/
structure Mosaic.Readable (m : Mosaic) : Prop where
  size_lt : m.width * m.height < sizeLimit
  get_le : ∀ x y, m.get x y ≤ 65535

/-- a raster whose places fit the machine, whatever it holds -/
structure Raster.Addressable (r : Raster) : Prop where
  width_pos : 0 < r.width
  size_lt : 3 * (r.width * r.height) < sizeLimit

/-- a raster that fits the machine, of channels of 16 bits at most -/
structure Raster.Writable (r : Raster) : Prop where
  width_pos : 0 < r.width
  size_lt : 3 * (r.width * r.height) < sizeLimit
  ceiling_le : r.ceiling ≤ 65535
  get_le : ∀ x y c, r.get x y c ≤ 65535

theorem Raster.Writable.addressable {r : Raster} (hr : r.Writable) : r.Addressable := ⟨hr.width_pos, hr.size_lt⟩

theorem Raster.Addressable.of_sameShape {r s : Raster} (hr : r.Addressable) (h : s.SameShape r) : s.Addressable := by
  refine ⟨?_, ?_⟩
  · rw [h.width]
    exact hr.width_pos
  · rw [h.width, h.height]
    exact hr.size_lt

namespace Machine

theorem move_eq {a b : Nat} {d : Int} (h : (b : Int) = a + d) (hb : b < sizeLimit) : move a d = .ok b := by
  unfold move
  split
  · have hab : a + d.toNat = b := by omega
    rw [add_eq (by omega), hab]
  · have hab : a - (-d).toNat = b := by omega
    rw [sub_eq (by omega), hab]

theorem sides_lt {w h n x y : Nat} (hx : x < w) (hy : y < h) (hn : w * h < n) : x < n ∧ y < n := by
  have hw : w ≤ w * h := Nat.le_mul_of_pos_right w (by omega)
  have hh : h ≤ w * h := Nat.le_mul_of_pos_left h (by omega)
  omega

/-! ## Views -/

theorem mosaic_eq (w h : Nat) (buffer : Array Nat) : mosaic w h buffer = Mosaic.ofBuffer w h buffer := by
  unfold mosaic Mosaic.ofBuffer
  split
  · rename_i hlength
    rw [if_pos (mul?_eq_none_iff.mp hlength)]
  · rename_i n hlength
    obtain ⟨hlt, rfl⟩ := mul?_eq_some_iff.mp hlength
    rw [if_neg (not_not_intro hlt)]

theorem raster_eq (w h ceiling : Nat) (buffer : Array Nat) :
    raster w h ceiling buffer = Raster.ofBuffer w h ceiling buffer := by
  unfold raster Raster.ofBuffer
  split
  · rename_i hlength
    have hlt : ¬3 * (w * h) < sizeLimit := fun hlt => by
      rw [rasterLength?_eq_some_iff.mpr ⟨hlt, rfl⟩] at hlength
      cases hlength
    rw [if_pos hlt]
  · rename_i n hlength
    obtain ⟨hlt, rfl⟩ := rasterLength?_eq_some_iff.mp hlength
    rw [if_neg (not_not_intro hlt)]

/-! ## Samples -/

section Samples

variable {m : Mosaic}

theorem sample_eq (hm : m.Readable) {x y : Nat} (hx : x < m.width) (hy : y < m.height) :
    sample m x y = .of (m.get x y) := by
  have hplace := Raster.place_lt hx hy
  have hlt := hm.size_lt
  have hin : y * m.width + x < m.samples.size := m.size_eq ▸ hplace
  rw [sample, mul_eq (by omega), ok_bind, add_eq (by omega), ok_bind, index_eq hin, ok_bind, Mosaic.get,
    if_pos ⟨hx, hy⟩, Array.getD, dif_pos hin]
  rfl

/-- **A sample of a window** is fetched without a fault where it stands in the mosaic. -/
theorem around_eq (hm : m.Readable) {x y a b : Nat} {dx dy : Int} (ha : (a : Int) = x + dx) (hb : (b : Int) = y + dy)
    (hx : a < m.width) (hy : b < m.height) : around m x y dx dy = .of (m.window x y dx dy) := by
  obtain ⟨hax, hby⟩ := sides_lt hx hy hm.size_lt
  rw [around, move_eq ha hax, ok_bind, move_eq hb hby, ok_bind, sample_eq hm hx hy, m.window_eq_get ha hb]

end Samples

/-! ## Channels -/

section Channels

variable {r s : Raster}

theorem offset_eq (hr : r.Writable) {x y : Nat} (hx : x < r.width) (hy : y < r.height) (c : Channel) :
    offset r x y c = .ok (r.offset x y c) := by
  have hplace := Raster.place_lt hx hy
  have hc := c.index_lt
  have hlt := hr.size_lt
  rw [offset, mul_eq (by omega), ok_bind, add_eq (by omega), ok_bind, mul_eq (by omega), ok_bind,
    add_eq (by omega)]
  rfl

theorem channel_eq (hr : r.Writable) {x y : Nat} (hx : x < r.width) (hy : y < r.height) (c : Channel) :
    channel r c x y = .of (r.get x y c) := by
  rw [channel, offset_eq hr hx hy, ok_bind, index, r.getElem?_offset hx hy]
  rfl

/-- **A channel of a window** is fetched without a fault where it stands in the raster. -/
theorem channelAround_eq (hr : r.Writable) {x y a b : Nat} {dx dy : Int} (ha : (a : Int) = x + dx)
    (hb : (b : Int) = y + dy) (hx : a < r.width) (hy : b < r.height) (c : Channel) :
    channelAround r c x y dx dy = .of (r.window c x y dx dy) := by
  have hlt := hr.size_lt
  obtain ⟨hax, hby⟩ := sides_lt hx hy (show r.width * r.height < sizeLimit by omega)
  rw [channelAround, move_eq ha hax, ok_bind, move_eq hb hby, ok_bind, channel_eq hr hx hy,
    EdgeSense.window_eq_get r c ha hb]

/-- **A store** does not fault inside the image. -/
theorem put_eq (hr : r.Writable) {x y : Nat} (hx : x < r.width) (hy : y < r.height) (c : Channel) (v : Int) :
    put r x y c (.of v) = .ok (r.put x y c v) := by
  rw [put, I32.run_of, ok_bind, offset_eq hr hx hy, ok_bind, if_pos (r.offset_lt c hx hy), Raster.put, if_pos ⟨hx, hy⟩]

/-- what a run over a raster starts from is of no account as long as its values have 16 bits -/
theorem writable_of_sameShape (hr : r.Writable) (h : s.SameShape r) (hget : ∀ x y c, s.get x y c ≤ 65535) :
    s.Writable := by
  have hs := hr.addressable.of_sameShape h
  refine ⟨hs.width_pos, hs.size_lt, ?_, hget⟩
  rw [h.ceiling]
  exact hr.ceiling_le

theorem writable_put (hr : r.Writable) (x y : Nat) (c : Channel) (v : Int) : (r.put x y c v).Writable := by
  refine writable_of_sameShape hr (r.sameShape_put x y c v) fun x' y' c' => ?_
  by_cases h : x < r.width ∧ y < r.height
  · rw [Raster.get_put r h.1 h.2]
    split
    · exact Nat.le_trans (clamp_le v r.ceiling) hr.ceiling_le
    · exact hr.get_le x' y' c'
  · rw [Raster.put_of_outside r h]
    exact hr.get_le x' y' c'

/-- a raster that a run over `r` can have left -/
structure Reached (r s : Raster) : Prop where
  shape : s.SameShape r
  writable : s.Writable

theorem Reached.refl (hr : r.Writable) : Reached r r := ⟨.refl r, hr⟩

theorem Reached.put (h : Reached r s) (x y : Nat) (c : Channel) (v : Int) : Reached r (s.put x y c v) :=
  ⟨(s.sameShape_put x y c v).trans h.shape, writable_put h.writable x y c v⟩

/-- **A sweep** does not fault where no step does, from any raster that the sweep can have left. -/
theorem sweep_eq (hr : r.Writable) {g : Region} {step : Nat → Nat → Raster → Run Raster}
    {value : Nat → Nat → Raster → Raster}
    (hstep : ∀ x y s, g.Contains x y → Reached r s →
      step x y s = .ok (value x y s) ∧ Reached r (value x y s)) :
    sweep r g step = .ok (r.sweep g value) ∧ Reached r (r.sweep g value) := by
  have hsite (s : Raster) (site : Nat × Nat) (hm : site ∈ g.sites) (hs : Reached r s) :=
    hstep site.1 site.2 s (Region.mem_sites.mp hm) hs
  refine ⟨foldlM_eq (.refl hr) hsite, ?_⟩
  exact r.sweep_induction (.refl hr) fun x y s hm hs => (hsite s (x, y) hm hs).2

end Channels

/-! ## Clearing -/

section Clearing

variable {r s : Raster}

theorem sameShape_zeroed (r : Raster) (start stop : Nat) : (r.zeroed start stop).SameShape r := ⟨rfl, rfl, rfl⟩

theorem get_zeroed {x y : Nat} (hx : x < r.width) (hy : y < r.height) (c : Channel) (start stop : Nat) :
    (r.zeroed start stop).get x y c =
      if start ≤ r.offset x y c ∧ r.offset x y c < stop then 0 else r.get x y c := by
  have hin := r.offset_lt c hx hy
  have hin' : r.offset x y c < (r.zeroed start stop).data.size := by
    rw [(sameShape_zeroed r start stop).size]
    exact hin
  have hoffset : (r.zeroed start stop).offset x y c = r.offset x y c := rfl
  have hxy : x < r.width ∧ y < r.height := ⟨hx, hy⟩
  have hxy' : x < (r.zeroed start stop).width ∧ y < (r.zeroed start stop).height := ⟨hx, hy⟩
  rw [Raster.get, Raster.get, if_pos hxy, if_pos hxy', hoffset, Array.getD, dif_pos hin', Array.getD, dif_pos hin]
  simp [Raster.zeroed, Array.getElem_mapIdx]

/-- a part of a row, from column `a` up to column `b`, as a part of the buffer -/
theorem zeroed_row {y a b : Nat} (hy : y < r.height) (hb : b ≤ r.width) :
    r.zeroed (3 * (y * r.width) + 3 * a) (3 * (y * r.width) + 3 * b) = r.clearSpan y a b := by
  refine Raster.eq_of_get ((sameShape_zeroed r _ _).trans (r.sameShape_clearSpan y a b).symm) ?_
  intro x' y' c hx hy'
  change x' < r.width at hx
  change y' < r.height at hy'
  rw [get_zeroed hx hy', Raster.get_clearSpan hy hb]
  have hc := c.index_lt
  refine if_congr ?_ rfl rfl
  -- a row further up ends before this one begins, a row further down begins after it ends
  rcases Nat.lt_trichotomy y' y with h | rfl | h
  · have hrow := Nat.mul_le_mul_right r.width (show y' + 1 ≤ y from h)
    rw [Nat.succ_mul] at hrow
    simp only [Raster.offset]
    omega
  · simp only [Raster.offset, true_and]
    omega
  · have hrow := Nat.mul_le_mul_right r.width (show y + 1 ≤ y' from h)
    rw [Nat.succ_mul] at hrow
    simp only [Raster.offset]
    omega

theorem twice_height_lt (hr : r.Addressable) : 2 * r.height < sizeLimit := by
  have hheight : r.height ≤ r.width * r.height := Nat.le_mul_of_pos_left _ hr.width_pos
  have hlt := hr.size_lt
  omega

/-- **A row** is a slice of the buffer. -/
theorem row_eq (hr : r.Addressable) {y : Nat} (hy : y < r.height) :
    row r y = .ok (3 * (y * r.width), 3 * (y * r.width) + 3 * r.width) := by
  have hrows : y * r.width + r.width ≤ r.width * r.height := by
    calc
      y * r.width + r.width = (y + 1) * r.width := by rw [Nat.succ_mul]
      _ ≤ r.height * r.width := Nat.mul_le_mul_right _ hy
      _ = r.width * r.height := Nat.mul_comm _ _
  have hlt := hr.size_lt
  have hheight := twice_height_lt hr
  have hstart : 3 * r.width * y = 3 * (y * r.width) := by rw [Nat.mul_assoc, Nat.mul_comm r.width y]
  have hstop : 3 * r.width * (y + 1) = 3 * (y * r.width) + 3 * r.width := by rw [Nat.mul_succ, hstart]
  have hsize := r.size_eq
  rw [row, mul_eq (by omega), ok_bind, mul_eq (by omega), ok_bind, add_eq (by omega), ok_bind, mul_eq (by omega),
    ok_bind, hstart, hstop, if_pos ⟨by omega, by omega⟩]

theorem zero_eq {y a b : Nat} (hy : y < r.height) (hab : a ≤ b) (hb : b ≤ r.width) :
    zero r (3 * (y * r.width), 3 * (y * r.width) + 3 * r.width) (3 * a) (3 * b) = .ok (r.clearSpan y a b) := by
  rw [zero, if_pos ⟨by omega, by dsimp only; omega⟩, zeroed_row hy hb]

theorem zeroFrom_eq {y a : Nat} (hy : y < r.height) (ha : a ≤ r.width) :
    zeroFrom r (3 * (y * r.width), 3 * (y * r.width) + 3 * r.width) (3 * a) = .ok (r.clearSpan y a r.width) := by
  have hlength : 3 * (y * r.width) + 3 * r.width - 3 * (y * r.width) = 3 * r.width := by omega
  rw [zeroFrom, hlength, zero_eq hy ha (Nat.le_refl _)]

/-- what clearing some of its pixels leaves of a raster can still be written -/
theorem reached_of_cleared (hr : r.Writable) (h : s.SameShape r) {Z : Nat → Nat → Prop} [∀ x y, Decidable (Z x y)]
    (hget : ∀ x y c, s.get x y c = if Z x y then 0 else r.get x y c) : Reached r s := by
  refine ⟨h, writable_of_sameShape hr h fun x y c => ?_⟩
  rw [hget]
  split
  · exact Nat.zero_le _
  · exact hr.get_le x y c

theorem Reached.trans {s t : Raster} (hs : Reached r s) (ht : Reached s t) : Reached r t :=
  ⟨ht.shape.trans hs.shape, ht.writable⟩

/-- a loop of row steps -/
theorem foldlM_rows (hr : r.Addressable) {step : Nat → Raster → Run Raster} {value : Nat → Raster → Raster}
    (hshape : ∀ s y, (value y s).SameShape s)
    (hstep : ∀ s y, s.Addressable → y < s.height → step y s = .ok (value y s)) :
    (List.range r.height).foldlM (fun s y => step y s) r = .ok ((List.range r.height).foldl (fun s y => value y s) r) :=
  foldlM_eq (motive := fun s => s.SameShape r) (.refl r) fun s y hy hs => by
    have hrow : y < s.height := by
      rw [hs.height]
      exact List.mem_range.mp hy
    exact ⟨hstep s y (hr.of_sameShape hs) hrow, (hshape s y).trans hs⟩

theorem clear_eq (r : Raster) : clear r = r.clear := by
  refine Raster.eq_of_get ((sameShape_zeroed r _ _).trans r.sameShape_clear.symm) ?_
  intro x y c hx hy
  change x < r.width at hx
  change y < r.height at hy
  rw [clear, get_zeroed hx hy, if_pos ⟨Nat.zero_le _, r.offset_lt c hx hy⟩, Raster.get_clear]

theorem reached_clear (hr : r.Writable) : Reached r r.clear := by
  refine reached_of_cleared hr r.sameShape_clear (Z := fun _ _ => True) fun x y c => ?_
  rw [Raster.get_clear, if_pos trivial]

theorem clearRowEnds_eq (hr : r.Addressable) (n : Nat) {y : Nat} (hy : y < r.height) :
    clearRowEnds n y r = .ok (r.clearRowEnds n y) := by
  have hheight := twice_height_lt hr
  have hwhole : zeroFrom r (3 * (y * r.width), 3 * (y * r.width) + 3 * r.width) 0 = .ok (r.clearSpan y 0 r.width) :=
    zeroFrom_eq hy (Nat.zero_le _)
  rw [clearRowEnds, row_eq hr hy, ok_bind, Raster.clearRowEnds]
  by_cases htop : y < n
  · rw [if_pos htop, if_pos (.inl htop)]
    exact hwhole
  -- a frame that ends above the row is narrower than the image is high
  rw [if_neg htop, add_eq (by omega), ok_bind]
  by_cases hbottom : r.height ≤ y + n
  · rw [if_pos hbottom, if_pos (.inr hbottom)]
    exact hwhole
  rw [if_neg hbottom, if_neg (not_or.mpr ⟨htop, hbottom⟩)]
  -- the part on the left, then the part on the right of what that left
  have hmin : min n r.width ≤ r.width := Nat.min_le_right n r.width
  have hwidth : r.width ≤ r.width * r.height := Nat.le_mul_of_pos_right _ (by omega)
  have hlt := hr.size_lt
  have hleft := r.sameShape_clearSpan y 0 (min n r.width)
  have hzero := zero_eq hy (Nat.zero_le (min n r.width)) hmin
  have hw := hleft.width
  have hh := hleft.height
  have hfrom := zeroFrom_eq (r := r.clearSpan y 0 (min n r.width)) (y := y) (a := r.width - min n r.width)
    (by omega) (by omega)
  rw [hw] at hfrom
  rw [mul_eq (by omega), ok_bind, hzero, ok_bind, sub_eq hmin, ok_bind, mul_eq (by omega), ok_bind, hfrom]

/-- **Clearing the borders** does not fault, whatever the size of the image and the width of the frame. -/
theorem clearBorders_eq (hr : r.Addressable) (n : Nat) : clearBorders r n = .ok (r.clearBorders n) :=
  foldlM_rows hr (fun s y => s.sameShape_clearRowEnds n y) fun _ _ hs hy => clearRowEnds_eq hs n hy

theorem reached_clearBorders (hr : r.Writable) (n : Nat) : Reached r (r.clearBorders n) :=
  reached_of_cleared hr (r.sameShape_clearBorders n) (Raster.get_clearBorders n)

theorem clearRowEnd_eq (hr : r.Addressable) {y : Nat} (hy : y < r.height) :
    clearRowEnd y r =
      .ok (if y + 1 = r.height then r.clearSpan y 0 r.width else r.clearSpan y (r.width - 1) r.width) := by
  have hheight := twice_height_lt hr
  have hpos := hr.width_pos
  have hwidth : r.width ≤ r.width * r.height := Nat.le_mul_of_pos_right _ (by omega)
  have hlt := hr.size_lt
  rw [clearRowEnd, row_eq hr hy, ok_bind, add_eq (by omega), ok_bind]
  by_cases hlast : y + 1 = r.height
  · rw [if_pos hlast, if_pos hlast]
    exact zeroFrom_eq hy (Nat.zero_le _)
  · rw [if_neg hlast, if_neg hlast, sub_eq hpos, ok_bind, mul_eq (by omega), ok_bind]
    exact zeroFrom_eq hy (Nat.sub_le _ _)

/-- **Clearing the last row and the last column** does not fault. -/
theorem clearLastRowColumn_eq (hr : r.Addressable) : clearLastRowColumn r = .ok r.clearLastRowColumn := by
  refine foldlM_rows hr (fun s y => ?_) fun _ _ hs hy => clearRowEnd_eq hs hy
  split
  · exact s.sameShape_clearSpan y 0 s.width
  · exact s.sameShape_clearSpan y (s.width - 1) s.width

theorem reached_clearLastRowColumn (hr : r.Writable) : Reached r r.clearLastRowColumn :=
  reached_of_cleared hr r.sameShape_clearLastRowColumn Raster.get_clearLastRowColumn

end Clearing

end Machine

end Imaging
