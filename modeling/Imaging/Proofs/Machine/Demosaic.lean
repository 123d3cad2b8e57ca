/-
Demosaicing does not fault. Each method runs over a mosaic and a raster that fit the machine (`Readable`, `Writable`);
around every pixel of a method's interior its window stays in the mosaic, and every pixel that a pass writes lies in the
raster. So the run of a method in machine words is its run in exact numbers (`run_eq`), and the two requests
`decode8_eq` and `decode16_eq` never fault, whatever sizes and buffers they are given.
-/
import Imaging.Proofs.Machine.Kernel
import Imaging.Proofs.Machine.Raster

namespace Imaging.Machine

variable {m : Mosaic} {r s : Raster}

/-! ## Fixed windows -/

/-- around a pixel of a method's interior, the window of the mosaic holds its samples -/
theorem holds_around {k : Method} (hk : k ≠ .downsample) (hm : m.Readable) {x y : Nat}
    (hin : (k.interior m.width m.height).Contains x y) : Holds k (around m x y) (m.window x y) := by
  have hsite (dx dy : Int) (hd : k.Reaches dx dy) :
      ∃ a b : Nat, ((a : Int) = x + dx ∧ a < m.width) ∧ (b : Int) = y + dy ∧ b < m.height := by
    have h := Method.exists_of_reaches hin hd
    rwa [Method.stride_of_ne hk, Nat.one_mul, Nat.one_mul] at h
  constructor
  · intro dx dy hd
    obtain ⟨a, b, ⟨ha, hx⟩, hb, hy⟩ := hsite dx dy hd
    exact around_eq hm ha hb hx hy
  · intro dx dy hd
    obtain ⟨a, b, ⟨ha, hx⟩, hb, hy⟩ := hsite dx dy hd
    have hle := hm.get_le a b
    rw [m.window_eq_get ha hb]
    constructor <;> omega

theorem store_eq (hr : r.Writable) {x y : Nat} (hx : x < r.width) (hy : y < r.height) (p : Phase) (e : Estimate Int) :
    store r p x y (e.map .of) = .ok (r.store p x y e) ∧ Reached r (r.store p x y e) := by
  have h₁ : Reached r (r.put x y p.rowChannel e.row) := (Reached.refl hr).put ..
  have h₂ : Reached r ((r.put x y p.rowChannel e.row).put x y .green e.green) := h₁.put ..
  refine ⟨?_, h₂.put ..⟩
  simp only [store, Estimate.map]
  rw [put_eq hr hx hy, ok_bind,
    put_eq h₁.writable (by rw [h₁.shape.width]; exact hx) (by rw [h₁.shape.height]; exact hy), ok_bind,
    put_eq h₂.writable (by rw [h₂.shape.width]; exact hx) (by rw [h₂.shape.height]; exact hy)]
  rfl

/-- **Interpolation** inside a method's interior. -/
theorem interpolate_eq (hm : m.Readable) (hr : r.Writable) (hw : r.width = m.width) (hh : r.height = m.height)
    {k : Method} (hk : k ≠ .downsample) {K : Kernel I32} {exact : Kernel Int} (hcarries : Carries k K exact) (t : Tile) :
    interpolate r m t K (k.interior m.width m.height) =
        .ok (r.interpolate m t exact (k.interior m.width m.height)) ∧
      Reached r (r.interpolate m t exact (k.interior m.width m.height)) := by
  refine sweep_eq hr fun x y s hin hs => ?_
  have hout := Method.lt_outputSize hin
  rw [Method.outputSize_of_ne hk] at hout
  have hx : x < s.width := by rw [hs.shape.width, hw]; exact hout.1
  have hy : y < s.height := by rw [hs.shape.height, hh]; exact hout.2
  dsimp only
  rw [hcarries.estimate (holds_around hk hm hin)]
  obtain ⟨hok, hreached⟩ := store_eq hs.writable hx hy (Phase.atRow t y)
    (exact.estimate (Phase.atRow t y) x (m.window x y))
  exact ⟨hok, hs.trans hreached⟩

theorem interpolate_after (hm : m.Readable) (hw : r.width = m.width) (hh : r.height = m.height) (hs : Reached r s)
    {k : Method} (hk : k ≠ .downsample) {K : Kernel I32} {exact : Kernel Int} (hcarries : Carries k K exact) (t : Tile) :
    interpolate s m t K (k.interior m.width m.height) =
      .ok (s.interpolate m t exact (k.interior m.width m.height)) :=
  (interpolate_eq hm hs.writable (hs.shape.width.trans hw) (hs.shape.height.trans hh) hk hcarries t).1

theorem fromCorners_eq (hm : m.Readable) (hr : r.Writable) (hw : r.width = m.width) (hh : r.height = m.height)
    (htiles : WholeTiles m.width m.height) {k : Method} (hk : k = .nearest ∨ k = .simple) {K : Kernel I32}
    {exact : Kernel Int} (hcarries : Carries k K exact) (t : Tile) :
    fromCorners K m t r = .ok (r.fromCorners exact m t) := by
  have hclear := clearLastRowColumn_eq hr.addressable
  have hreached := reached_clearLastRowColumn hr
  have hinterior : k.interior m.width m.height = .corners m.width m.height := by
    rcases hk with rfl | rfl <;> rfl
  have hne : k ≠ .downsample := by
    rcases hk with rfl | rfl <;> decide
  have hinterpolate := interpolate_after hm hw hh hreached hne hcarries t
  rw [hinterior] at hinterpolate
  obtain ⟨hw₂, hh₂, -⟩ := htiles
  rw [fromCorners, hclear, ok_bind, sub_eq (by omega), ok_bind, sub_eq (by omega), ok_bind]
  exact hinterpolate

theorem bilinear_eq (hm : m.Readable) (hr : r.Writable) (hw : r.width = m.width) (hh : r.height = m.height)
    (htiles : WholeTiles m.width m.height) (t : Tile) : bilinear m t r = .ok (r.fromCentres 1 .bilinear m t) := by
  have hclear := clearBorders_eq hr.addressable 1
  have hreached := reached_clearBorders hr 1
  obtain ⟨hw₂, hh₂, -⟩ := htiles
  rw [bilinear, hclear, ok_bind, interpolateInside, sub_eq (by omega), ok_bind, sub_eq (by omega), ok_bind]
  exact interpolate_after hm hw hh hreached (by decide) carries_bilinear t

theorem sites_inside {n w h : Nat} (hsmall : w ≤ 2 * n ∨ h ≤ 2 * n) : (Region.inside n w h).sites = [] := by
  rw [List.eq_nil_iff_forall_not_mem]
  rintro ⟨x, y⟩ hsite
  have hin := Region.mem_sites.mp hsite
  simp only [Region.inside] at hin
  omega

theorem hqLinear_eq (hm : m.Readable) (hr : r.Writable) (hw : r.width = m.width) (hh : r.height = m.height) (t : Tile) :
    hqLinear m t r = .ok (r.fromCentres 2 .hqLinear m t) := by
  have hclear := clearBorders_eq hr.addressable 2
  have hreached := reached_clearBorders hr 2
  rw [hqLinear, hclear, ok_bind]
  by_cases hsmall : m.width ≤ 4 ∨ m.height ≤ 4
  · rw [if_pos hsmall, Raster.fromCentres, Raster.interpolate, Raster.sweep, sites_inside hsmall, List.foldl_nil]
  · obtain ⟨hw₄, hh₄⟩ := not_or.mp hsmall
    rw [if_neg hsmall, interpolateInside, sub_eq (by omega), ok_bind, sub_eq (by omega), ok_bind]
    exact interpolate_after hm hw hh hreached (by decide) carries_hqLinear t

/-! ## Tiles -/

/-- count the sample of a site for its colour, in exact numbers -/
def count (m : Mosaic) (t : Tile) (v : Channel → Int) (site : Nat × Nat) : Channel → Int := fun c =>
  if t.colourAt site.1 site.2 = c then v c + m.get site.1 site.2 else v c

/-- sums of at most `n` samples, one for each channel -/
def Sums (n : Nat) (v : Channel → Int) : Prop := ∀ c, 0 ≤ v c ∧ v c ≤ 65535 * n

theorem addSample_eq (hm : m.Readable) {site : Nat × Nat} (hx : site.1 < m.width) (hy : site.2 < m.height) (t : Tile)
    {n : Nat} (hn : n < 4) {v : Channel → Int} (hv : Sums n v) :
    addSample m t (fun c => .of (v c)) site = (fun c => .of (count m t v site c)) ∧
      Sums (n + 1) (count m t v site) := by
  have hle := hm.get_le site.1 site.2
  constructor
  · funext c
    obtain ⟨hv₀, hv⟩ := hv c
    rw [addSample, count, sample_eq hm hx hy]
    split
    · exact I32.add_eq (by omega)
    · rfl
  · intro c
    obtain ⟨hv₀, hv⟩ := hv c
    unfold count
    split <;> omega

/-- counting the samples of some sites -/
theorem addSamples_eq (hm : m.Readable) (t : Tile) {sites : List (Nat × Nat)}
    (hsites : ∀ site ∈ sites, site.1 < m.width ∧ site.2 < m.height) {n : Nat} (hn : n + sites.length ≤ 4)
    {v : Channel → Int} (hv : Sums n v) :
    sites.foldl (addSample m t) (fun c => .of (v c)) = (fun c => .of (sites.foldl (count m t) v c)) ∧
      Sums 4 (sites.foldl (count m t) v) := by
  induction sites generalizing n v with
  | nil =>
    refine ⟨rfl, fun c => ?_⟩
    obtain ⟨hv₀, hv⟩ := hv c
    rw [List.foldl_nil]
    rw [List.length_nil] at hn
    omega
  | cons site sites ih =>
    obtain ⟨hx, hy⟩ := hsites site List.mem_cons_self
    rw [List.length_cons] at hn
    obtain ⟨hadd, hsums⟩ := addSample_eq hm hx hy t (by omega) hv
    rw [List.foldl_cons, List.foldl_cons, hadd]
    exact ih (fun site hsite => hsites site (List.mem_cons_of_mem _ hsite)) (by omega) hsums

/-- what is counted for a colour is the sum of its samples -/
theorem count_sites (m : Mosaic) (t : Tile) (sites : List (Nat × Nat)) (v : Channel → Int) (c : Channel) :
    sites.foldl (count m t) v c =
      v c + (sites.filter fun site => t.colourAt site.1 site.2 = c).foldr
        (fun site sum => (m.get site.1 site.2 : Int) + sum) 0 := by
  induction sites generalizing v with
  | nil => simp
  | cons site sites ih =>
    rw [List.foldl_cons, ih, count, List.filter_cons]
    by_cases hc : t.colourAt site.1 site.2 = c
    · rw [if_pos hc, if_pos (decide_eq_true hc), List.foldr_cons, Int.add_assoc]
    · rw [if_neg hc, if_neg (by simpa using hc)]

/-- **The sums of a tile** do not overflow. -/
theorem tileSums_eq (hm : m.Readable) {x y : Nat} (hx : 2 * x + 1 < m.width) (hy : 2 * y + 1 < m.height) (t : Tile)
    (c : Channel) :
    (Region.tile x y).sites.foldl (addSample m t) (fun _ => 0) c = .of (m.tileSum t x y c) ∧
      0 ≤ m.tileSum t x y c ∧ m.tileSum t x y c ≤ 262140 := by
  have hzero : (fun _ : Channel => (0 : I32)) = fun _ => .of 0 := funext fun _ => I32.ofNat_eq 0 (by decide)
  have hsites : ∀ site ∈ (Region.tile x y).sites, site.1 < m.width ∧ site.2 < m.height := by
    rintro ⟨a, b⟩ hsite
    have hin := Region.mem_sites.mp hsite
    simp only [Region.tile] at hin
    omega
  have hlength : 0 + (Region.tile x y).sites.length ≤ 4 := by
    rw [Region.sites_tile]
    exact Nat.le_refl 4
  have hnone : Sums 0 fun _ => 0 := fun _ => by dsimp only; omega
  obtain ⟨hadd, hsums⟩ := addSamples_eq hm t hsites hlength hnone
  have htotal := count_sites m t (Region.tile x y).sites (fun _ => 0) c
  rw [Int.zero_add] at htotal
  have hbound := hsums c
  rw [htotal] at hbound
  rw [hzero, hadd]
  exact ⟨congrArg I32.of htotal, hbound⟩

theorem storeTile_eq (hm : m.Readable) (hs : s.Writable) {x y : Nat} (hx : x < s.width) (hy : y < s.height)
    (hxm : 2 * x + 1 < m.width) (hym : 2 * y + 1 < m.height) (t : Tile) :
    storeTile m t x y s =
        .ok (((s.put x y .red (m.tileSum t x y .red)).put x y .green (m.tileSum t x y .green / 2)).put x y .blue
          (m.tileSum t x y .blue)) ∧
      Reached s (((s.put x y .red (m.tileSum t x y .red)).put x y .green (m.tileSum t x y .green / 2)).put x y .blue
          (m.tileSum t x y .blue)) := by
  obtain ⟨hx₂, hy₂⟩ := sides_lt hxm hym hm.size_lt
  have hlimit := hm.size_lt
  have hwidth : m.width ≤ m.width * m.height := Nat.le_mul_of_pos_right _ (by omega)
  have hheight : m.height ≤ m.width * m.height := Nat.le_mul_of_pos_left _ (by omega)
  obtain ⟨hred, -⟩ := tileSums_eq hm hxm hym t .red
  obtain ⟨hgreen, hgreen₀, hgreen'⟩ := tileSums_eq hm hxm hym t .green
  obtain ⟨hblue, -⟩ := tileSums_eq hm hxm hym t .blue
  have hhalf : I32.of (m.tileSum t x y .green) / 2 = .of (m.tileSum t x y .green / 2) := by
    simp (disch := decide) only [I32.ofNat_eq, I32.div_eq]
  -- red, green and blue are stored as in a row whose other colour is red
  let p : Phase := { blue := false, startsGreen := false }
  let e : Estimate Int :=
    { row := m.tileSum t x y .red, green := m.tileSum t x y .green / 2, column := m.tileSum t x y .blue }
  have hstore := store_eq hs hx hy p e
  refine ⟨?_, hstore.2⟩
  rw [storeTile, mul_eq (by omega), ok_bind, mul_eq (by omega), ok_bind, add_eq (by omega), ok_bind,
    add_eq (by omega), ok_bind]
  change store s p x y
    { row := (Region.tile x y).sites.foldl (addSample m t) (fun _ => 0) .red
      green := (Region.tile x y).sites.foldl (addSample m t) (fun _ => 0) .green / 2
      column := (Region.tile x y).sites.foldl (addSample m t) (fun _ => 0) .blue } = _
  rw [hred, hgreen, hblue, hhalf]
  exact hstore.1

theorem fromTiles_eq (hm : m.Readable) (hr : r.Writable) (hw : 2 * r.width ≤ m.width) (hh : 2 * r.height ≤ m.height)
    (t : Tile) : fromTiles m t r = .ok (r.fromTiles m t) := by
  refine (sweep_eq hr fun x y s hin hs => ?_).1
  simp only [Region.Contains, Region.whole] at hin
  have hx : x < s.width := by rw [hs.shape.width]; omega
  have hy : y < s.height := by rw [hs.shape.height]; omega
  obtain ⟨hok, hreached⟩ := storeTile_eq hm hs.writable hx hy (by omega) (by omega) t
  exact ⟨hok, hs.trans hreached⟩

/-! ## Edges -/

/-- around a pixel of a method's interior, the window of the raster holds its channel -/
theorem holds_channelAround {k : Method} (hk : k ≠ .downsample) (hr : r.Writable) {x y : Nat}
    (hin : (k.interior r.width r.height).Contains x y) (c : Channel) :
    Holds k (channelAround r c x y) (r.window c x y) := by
  have hsite (dx dy : Int) (hd : k.Reaches dx dy) :
      ∃ a b : Nat, ((a : Int) = x + dx ∧ a < r.width) ∧ (b : Int) = y + dy ∧ b < r.height := by
    have h := Method.exists_of_reaches hin hd
    rwa [Method.stride_of_ne hk, Nat.one_mul, Nat.one_mul] at h
  constructor
  · intro dx dy hd
    obtain ⟨a, b, ⟨ha, hx⟩, hb, hy⟩ := hsite dx dy hd
    exact channelAround_eq hr ha hb hx hy c
  · intro dx dy hd
    obtain ⟨a, b, ⟨ha, hx⟩, hb, hy⟩ := hsite dx dy hd
    have hle := hr.get_le a b c
    rw [EdgeSense.window_eq_get r c ha hb]
    constructor <;> omega

/-- a sample, or the difference of two -/
def Difference (v : Int) : Prop := -65535 ≤ v ∧ v ≤ 65535

theorem difference_of_sample {v : Int} (h : Sample v) : Difference v := ⟨by have := h.1; omega, h.2⟩

theorem meanOfTwo_eq {a b : Int} (ha : Difference a) (hb : Difference b) :
    EdgeSense.meanOfTwo (I32.of a) (I32.of b) = I32.of (EdgeSense.meanOfTwo a b) ∧
      Difference (EdgeSense.meanOfTwo a b) := by
  obtain ⟨ha₀, ha⟩ := ha
  obtain ⟨hb₀, hb⟩ := hb
  constructor
  · simp (disch := first | omega | decide) only [EdgeSense.meanOfTwo, I32.add_eq, I32.ofNat_eq, I32.div_eq]
  · constructor <;> simp only [EdgeSense.meanOfTwo] <;> omega

theorem meanOfFour_eq {a b c d : Int} (ha : Difference a) (hb : Difference b) (hc : Difference c)
    (hd : Difference d) :
    EdgeSense.meanOfFour (I32.of a) (I32.of b) (I32.of c) (I32.of d) = I32.of (EdgeSense.meanOfFour a b c d) ∧
      Difference (EdgeSense.meanOfFour a b c d) := by
  obtain ⟨ha₀, ha⟩ := ha
  obtain ⟨hb₀, hb⟩ := hb
  obtain ⟨hc₀, hc⟩ := hc
  obtain ⟨hd₀, hd⟩ := hd
  constructor
  · simp (disch := first | omega | decide) only [EdgeSense.meanOfFour, I32.add_eq, I32.ofNat_eq, I32.div_eq]
  · constructor <;> simp only [EdgeSense.meanOfFour] <;> omega

/-- the distance of a mean from a sample -/
theorem roughness_eq {a b c : Int} (ha : Sample a) (hb : Sample b) (hc : Sample c) :
    (EdgeSense.meanOfTwo (I32.of a) (I32.of b) - I32.of c).abs = .ok (EdgeSense.meanOfTwo a b - c).natAbs := by
  obtain ⟨hmean, hm₀, hm⟩ := meanOfTwo_eq (difference_of_sample ha) (difference_of_sample hb)
  obtain ⟨hc₀, hc⟩ := hc
  rw [hmean, I32.sub_eq (by omega), I32.abs_eq (by omega)]

theorem greenAlong_eq {G : Window I32} {g : Window Int} (hg : Holds .bilinear G g) (dh dv : Nat) :
    EdgeSense.greenAlong dh dv G = .of (EdgeSense.greenAlong dh dv g) := by
  have hsample (dx dy : Int) (hd : Method.Reaches .bilinear dx dy) := difference_of_sample (hg.sample dx dy hd)
  unfold EdgeSense.greenAlong
  simp (disch := decide) only [hg.fetch]
  split
  · exact (meanOfTwo_eq (hsample _ _ (by decide)) (hsample _ _ (by decide))).1
  split
  · exact (meanOfTwo_eq (hsample _ _ (by decide)) (hsample _ _ (by decide))).1
  · exact (meanOfFour_eq (hsample _ _ (by decide)) (hsample _ _ (by decide)) (hsample _ _ (by decide))
      (hsample _ _ (by decide))).1

/-- **Green at a site of another colour.** -/
theorem greenEstimate_eq {S G : Window I32} {s g : Window Int} (hs : Holds .hqLinear S s) (hg : Holds .hqLinear G g) :
    greenEstimate S G = .of (EdgeSense.greenEstimate s g) := by
  have hrow := roughness_eq (hs.sample (-2) 0 (by decide)) (hs.sample 2 0 (by decide)) (hs.sample 0 0 (by decide))
  have hcolumn := roughness_eq (hs.sample 0 (-2) (by decide)) (hs.sample 0 2 (by decide)) (hs.sample 0 0 (by decide))
  have halong := greenAlong_eq (bilinear_of_hqLinear hg)
  simp (disch := decide) only [greenEstimate, EdgeSense.secondDifferenceAlongRow,
    EdgeSense.secondDifferenceAlongColumn, hs.fetch, hg.fetch, hrow, hcolumn, halong, ok_bind, I32.run_of]
  rfl

theorem scatter_eq (hm : m.Readable) (hr : r.Writable) (hw : r.width = m.width) (hh : r.height = m.height) (t : Tile) :
    scatter m t r = .ok (EdgeSense.scatter m t r) ∧ Reached r (EdgeSense.scatter m t r) := by
  have hclear := reached_clear hr
  rw [scatter, clear_eq, EdgeSense.scatter]
  refine (sweep_eq hclear.writable fun x y s hin hs => ?_).imp id hclear.trans
  obtain ⟨⟨-, hx⟩, -, hy⟩ := hin
  change x < m.width at hx
  change y < m.height at hy
  have hshape := hs.shape.trans hclear.shape
  rw [sample_eq hm hx hy, put_eq hs.writable (by rw [hshape.width, hw]; exact hx) (by rw [hshape.height, hh]; exact hy)]
  exact ⟨rfl, hs.put ..⟩

theorem fillGreen_eq (hr : r.Writable) (t : Tile) :
    fillGreen t r = .ok (EdgeSense.fillGreen t r) ∧ Reached r (EdgeSense.fillGreen t r) := by
  refine sweep_eq hr fun x y s hin hs => ?_
  dsimp only
  rw [← hs.shape.width, ← hs.shape.height] at hin
  split
  · exact ⟨rfl, hs⟩
  · have hholds := holds_channelAround (k := .hqLinear) (by decide) hs.writable hin
    obtain ⟨⟨-, hx⟩, -, hy⟩ := hin
    simp only [Region.inside] at hx hy
    rw [greenEstimate_eq (hholds _) (hholds _), put_eq hs.writable (by omega) (by omega)]
    exact ⟨rfl, hs.put ..⟩

theorem meanDifference?_eq {D : Window I32} {d : Window Int}
    (hd : ∀ dx dy, Method.Reaches .bilinear dx dy → D dx dy = .of (d dx dy) ∧ Difference (d dx dy)) (p : Phase)
    (c : Channel) (x : Nat) :
    EdgeSense.meanDifference? p c x D = (EdgeSense.meanDifference? p c x d).map .of ∧
      ∀ v, EdgeSense.meanDifference? p c x d = some v → Difference v := by
  have hfetch (dx dy : Int) (h : Method.Reaches .bilinear dx dy) := (hd dx dy h).1
  have hrange (dx dy : Int) (h : Method.Reaches .bilinear dx dy) := (hd dx dy h).2
  obtain ⟨hrow, hrow'⟩ := meanOfTwo_eq (hrange (-1) 0 (by decide)) (hrange 1 0 (by decide))
  obtain ⟨hcolumn, hcolumn'⟩ := meanOfTwo_eq (hrange 0 (-1) (by decide)) (hrange 0 1 (by decide))
  obtain ⟨hcorners, hcorners'⟩ := meanOfFour_eq (hrange (-1) (-1) (by decide)) (hrange 1 (-1) (by decide))
    (hrange (-1) 1 (by decide)) (hrange 1 1 (by decide))
  unfold EdgeSense.meanDifference?
  simp (disch := decide) only [hfetch, hrow, hcolumn, hcorners]
  split <;> split <;> simp [hrow', hcolumn', hcorners']

theorem fillColour_eq (hr : r.Writable) (t : Tile) (c : Channel) :
    fillColour t c r = .ok (EdgeSense.fillColour t c r) ∧ Reached r (EdgeSense.fillColour t c r) := by
  refine sweep_eq hr fun x y s hin hs => ?_
  rw [← hs.shape.width, ← hs.shape.height] at hin
  have hholds := holds_channelAround (k := .bilinear) (by decide) hs.writable hin
  have hdifference (dx dy : Int) (hd : Method.Reaches .bilinear dx dy) :
      difference s c x y dx dy = .of (EdgeSense.difference s c x y dx dy) ∧
        Difference (EdgeSense.difference s c x y dx dy) := by
    obtain ⟨hc₀, hc⟩ := (hholds c).sample dx dy hd
    obtain ⟨hg₀, hg⟩ := (hholds .green).sample dx dy hd
    constructor
    · rw [difference, (hholds c).fetch dx dy hd, (hholds .green).fetch dx dy hd, I32.sub_eq (by omega)]
      rfl
    · constructor <;> simp only [EdgeSense.difference] <;> omega
  obtain ⟨hmean, hrange⟩ := meanDifference?_eq hdifference (Phase.atRow t y) c x
  obtain ⟨⟨-, hx⟩, -, hy⟩ := hin
  simp only [Region.inside] at hx hy
  have hgreen : s.window .green x y 0 0 = s.get x y .green :=
    EdgeSense.window_eq_get s .green (by omega) (by omega)
  have hle := hs.writable.get_le x y .green
  rw [channel_eq hs.writable (by omega) (by omega), I32.run_of, ok_bind, hmean]
  cases hv : EdgeSense.meanDifference? (Phase.atRow t y) c x (EdgeSense.difference s c x y) with
  | none => exact ⟨rfl, hs⟩
  | some v =>
    obtain ⟨hv₀, hv⟩ := hrange v hv
    simp only [Option.map_some]
    rw [I32.add_eq (by omega), put_eq hs.writable (by omega) (by omega), hgreen]
    exact ⟨rfl, hs.put ..⟩

theorem alongEdges_eq (hm : m.Readable) (hr : r.Writable) (hw : r.width = m.width) (hh : r.height = m.height)
    (t : Tile) : alongEdges m t r = .ok (r.alongEdges m t) := by
  obtain ⟨hscatter, h₁⟩ := scatter_eq hm hr hw hh t
  obtain ⟨hgreen, h₂⟩ := fillGreen_eq h₁.writable t
  obtain ⟨hred, h₃⟩ := fillColour_eq h₂.writable t .red
  obtain ⟨hblue, h₄⟩ := fillColour_eq h₃.writable t .blue
  have hclear := clearBorders_eq h₄.writable.addressable 3
  rw [alongEdges, hscatter, ok_bind, hgreen, ok_bind, hred, ok_bind, hblue, ok_bind, hclear, Raster.alongEdges]

/-! ## Requests -/

/-- **No method faults** over a mosaic of whole tiles and a raster of the method's size. -/
theorem run_eq (k : Method) (hm : m.Readable) (hr : r.Writable) (htiles : WholeTiles m.width m.height)
    (hw : r.width = (k.outputSize m.width m.height).1) (hh : r.height = (k.outputSize m.width m.height).2) (t : Tile) :
    run k m t r = .ok (k.run m t r) := by
  cases k with
  | nearest => exact fromCorners_eq hm hr hw hh htiles (.inl rfl) carries_nearest t
  | simple => exact fromCorners_eq hm hr hw hh htiles (.inr rfl) carries_simple t
  | bilinear => exact bilinear_eq hm hr hw hh htiles t
  | hqLinear => exact hqLinear_eq hm hr hw hh t
  | downsample =>
    simp only [Method.outputSize] at hw hh
    exact fromTiles_eq hm hr (by omega) (by omega) t
  | edgeSense => exact alongEdges_eq hm hr hw hh t

theorem views_eq (k : Method) (w h ceiling : Nat) (src dst : Array Nat) :
    views k w h ceiling src dst = Demosaic.views k w h ceiling src dst := by
  simp only [views, Demosaic.views, mosaic_eq, raster_eq]

/-- elements of 16 bits at most -/
def Words (buffer : Array Nat) : Prop := ∀ v ∈ buffer, v ≤ 65535

theorem words_getD {buffer : Array Nat} (h : Words buffer) (i : Nat) : buffer.getD i 0 ≤ 65535 := by
  rw [Array.getD_eq_getD_getElem?]
  by_cases hi : i < buffer.size
  · rw [Array.getElem?_eq_getElem hi]
    exact h _ (Array.getElem_mem hi)
  · rw [Array.getElem?_eq_none (Nat.le_of_not_lt hi)]
    exact Nat.zero_le _

/-- **Demosaicing at a ceiling** never faults. -/
theorem decode_eq (t : Tile) (k : Method) (w h : Nat) {ceiling : Nat} (hceiling : ceiling ≤ 65535)
    {src dst : Array Nat} (hsrc : Words src) (hdst : Words dst) :
    decode t k w h ceiling src dst = .ok (Demosaic.decode t k w h ceiling src dst) := by
  rw [decode, views_eq, Demosaic.decode]
  cases hviews : Demosaic.views k w h ceiling src dst with
  | error e => rfl
  | ok v =>
    obtain ⟨m, r⟩ := v
    obtain ⟨htiles, hmosaic, hraster⟩ := Demosaic.views_eq_ok_iff.mp hviews
    obtain ⟨hsize, hmw, hmh, hsamples⟩ := Mosaic.ofBuffer_eq_ok_iff.mp hmosaic
    obtain ⟨hsize', hrw, hrh, hrc, hdata⟩ := Raster.ofBuffer_eq_ok_iff.mp hraster
    have hm : m.Readable := by
      refine ⟨by rw [hmw, hmh]; exact hsize, fun x y => ?_⟩
      rw [Mosaic.get]
      split
      · exact words_getD (hsamples ▸ hsrc) _
      · exact Nat.zero_le _
    have hpos : 0 < (k.outputSize w h).1 := by
      obtain ⟨hw, -⟩ := htiles
      cases k <;> simp only [Method.outputSize] <;> omega
    have hr : r.Writable := by
      refine ⟨by rw [hrw]; exact hpos, by rw [hrw, hrh]; exact hsize', by rw [hrc]; exact hceiling, fun x y c => ?_⟩
      rw [Raster.get]
      split
      · exact words_getD (hdata ▸ hdst) _
      · exact Nat.zero_le _
    have hrun := run_eq k hm hr (by rw [hmw, hmh]; exact htiles) (by rw [hmw, hmh]; exact hrw)
      (by rw [hmw, hmh]; exact hrh) t
    simp only
    rw [hrun, ok_bind]
    rfl

theorem words_of_bytes (buffer : Array UInt8) : Words (buffer.map UInt8.toNat) := fun v hv => by
  obtain ⟨b, -, rfl⟩ := Array.mem_map.mp hv
  have := b.toNat_lt
  omega

theorem words_of_words (buffer : Array UInt16) : Words (buffer.map UInt16.toNat) := fun v hv => by
  obtain ⟨b, -, rfl⟩ := Array.mem_map.mp hv
  have := b.toNat_lt
  omega

/-- **Demosaicing bytes** never faults. -/
theorem decode8_eq (t : Tile) (k : Method) (w h : Nat) (src dst : Array UInt8) :
    decode8 t k w h src dst = .ok (Imaging.decode8 t k w h src dst) := by
  rw [decode8, decode_eq t k w h (by decide) (words_of_bytes src) (words_of_bytes dst)]
  rfl

/-- the largest sample of a depth that a sample can have -/
theorem maxValue_eq {bits : Nat} (h : ValidDepth bits) : maxValue bits = .of (ceiling bits) ∧ ceiling bits ≤ 65535 := by
  obtain ⟨hlow, hhigh⟩ := h
  have hcases : bits = 8 ∨ bits = 9 ∨ bits = 10 ∨ bits = 11 ∨ bits = 12 ∨ bits = 13 ∨ bits = 14 ∨ bits = 15 ∨
      bits = 16 := by omega
  rcases hcases with rfl | rfl | rfl | rfl | rfl | rfl | rfl | rfl | rfl <;> exact ⟨rfl, by decide⟩

/-- **Demosaicing samples** never faults, whatever the number of bits. -/
theorem decode16_eq (t : Tile) (k : Method) (w h bits : Nat) (src dst : Array UInt16) :
    decode16 t k w h bits src dst = .ok (Imaging.decode16 t k w h bits src dst) := by
  rw [decode16, Imaging.decode16, requireDepth]
  by_cases hbits : ValidDepth bits
  · obtain ⟨hmax, hle⟩ := maxValue_eq hbits
    rw [require_of hbits, hmax]
    simp only [I32.run_of, ok_bind, Int.toNat_natCast]
    rw [decode_eq t k w h hle (words_of_words src) (words_of_words dst)]
    rfl
  · rw [require_of_not hbits]
    rfl

end Imaging.Machine
