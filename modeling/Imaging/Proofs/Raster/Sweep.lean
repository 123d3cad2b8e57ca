/-
What a loop of stores leaves in a raster. Each job of the loop owns some cells, a cell being one channel of one pixel,
and stores values in them; it may read the raster while it does so. As long as a job reads only cells that no job of the
loop owns, neither the order of the jobs nor what other jobs have stored before matters (`Stores`):
- `get_foldl`: after the loop every owned cell holds its value, and every other cell is as it was;
- `get_sweep`, `get_sweep_pixels`: the same for a sweep over a region, whose jobs are sites.
The passes of every demosaicing method and all clearing loops are read through these.
-/
import Imaging.Raster.Basic

namespace Imaging

/-- the site lies in the region -/
def Region.Contains (g : Region) (x y : Nat) : Prop := (g.left ≤ x ∧ x < g.right) ∧ g.top ≤ y ∧ y < g.bottom

instance (g : Region) (x y : Nat) : Decidable (g.Contains x y) :=
  inferInstanceAs (Decidable ((g.left ≤ x ∧ x < g.right) ∧ g.top ≤ y ∧ y < g.bottom))

namespace Raster

theorem get_of_outside {r : Raster} {x y : Nat} (h : ¬(x < r.width ∧ y < r.height)) (c : Channel) :
    r.get x y c = 0 := if_neg h

variable {α : Type} {r : Raster} {jobs : List α} {step : Raster → α → Raster}
  {owns : α → Nat → Nat → Channel → Prop} {v : Nat → Nat → Channel → Nat}

/-- two rasters of one shape that differ at most in cells that some job owns -/
structure AgreesOff (jobs : List α) (owns : α → Nat → Nat → Channel → Prop) (s r : Raster) : Prop where
  shape : SameShape s r
  get : ∀ x y c, (∀ a ∈ jobs, ¬owns a x y c) → s.get x y c = r.get x y c

/-- the jobs of a loop over `r` store `v` in the cells that they own, whatever other jobs have stored before -/
structure Stores (r : Raster) (jobs : List α) (step : Raster → α → Raster) (owns : α → Nat → Nat → Channel → Prop)
    [∀ a x y c, Decidable (owns a x y c)] (v : Nat → Nat → Channel → Nat) : Prop where
  shape : ∀ s a, SameShape (step s a) s
  get_step : ∀ a ∈ jobs, ∀ s, AgreesOff jobs owns s r → ∀ x y c,
    (step s a).get x y c = if owns a x y c then v x y c else s.get x y c

variable [∀ a x y c, Decidable (owns a x y c)]

theorem AgreesOff.after {s : Raster} {a : α} (hs : AgreesOff jobs owns s r) (h : Stores r jobs step owns v)
    (ha : a ∈ jobs) : AgreesOff jobs owns (step s a) r := by
  refine ⟨(h.shape s a).trans hs.shape, ?_⟩
  intro x y c hc
  rw [h.get_step a ha s hs, if_neg (hc a ha), hs.get x y c hc]

/-- the loop from any point on: `rest` are the jobs still to do, `s` is what the jobs before them left -/
theorem Stores.get_foldl_rest (h : Stores r jobs step owns v) {rest : List α} (hrest : ∀ a ∈ rest, a ∈ jobs)
    {s : Raster} (hs : AgreesOff jobs owns s r) (x y : Nat) (c : Channel) :
    (rest.foldl step s).get x y c = if ∃ a ∈ rest, owns a x y c then v x y c else s.get x y c := by
  induction rest generalizing s with
  | nil => simp
  | cons a rest ih =>
    have ha : a ∈ jobs := hrest a List.mem_cons_self
    have hrest' : ∀ b ∈ rest, b ∈ jobs := fun b hb => hrest b (List.mem_cons_of_mem a hb)
    rw [List.foldl_cons, ih hrest' (hs.after h ha), h.get_step a ha s hs]
    by_cases hl : ∃ b ∈ rest, owns b x y c
    · obtain ⟨b, hb, ho⟩ := hl
      rw [if_pos ⟨b, hb, ho⟩, if_pos ⟨b, List.mem_cons_of_mem a hb, ho⟩]
    · by_cases ho : owns a x y c
      · rw [if_neg hl, if_pos ho, if_pos ⟨a, List.mem_cons_self, ho⟩]
      · rw [if_neg hl, if_neg ho, if_neg]
        intro hcell
        obtain ⟨b, hb, hob⟩ := hcell
        rcases List.mem_cons.mp hb with rfl | hb
        · exact ho hob
        · exact hl ⟨b, hb, hob⟩

/-- **A loop of stores.** Every cell that a job of the loop owns holds its value, all other cells are as they were. -/
theorem get_foldl (h : Stores r jobs step owns v) (x y : Nat) (c : Channel) :
    (jobs.foldl step r).get x y c = if ∃ a ∈ jobs, owns a x y c then v x y c else r.get x y c :=
  h.get_foldl_rest (fun _ ha => ha) ⟨SameShape.refl r, fun _ _ _ _ => rfl⟩ x y c

/-- **A sweep.** The step of a site stores in the cells of its own pixel that `W` holds of, and needs no cell that the
sweep stores in. Then each such cell of the region holds its value, all other cells are as they were. -/
theorem get_sweep {g : Region} {step : Nat → Nat → Raster → Raster} {W : Nat → Nat → Channel → Prop}
    [∀ x y c, Decidable (W x y c)] (hshape : ∀ x y s, SameShape (step x y s) s)
    (hstep : ∀ x y s, g.Contains x y → SameShape s r → (∀ x' y' c, ¬W x' y' c → s.get x' y' c = r.get x' y' c) →
      ∀ x' y' c, (step x y s).get x' y' c = if (x = x' ∧ y = y') ∧ W x' y' c then v x' y' c else s.get x' y' c)
    (x y : Nat) (c : Channel) :
    (r.sweep g step).get x y c = if g.Contains x y ∧ W x y c then v x y c else r.get x y c := by
  let owns (site : Nat × Nat) (x' y' : Nat) (c : Channel) : Prop := (site.1 = x' ∧ site.2 = y') ∧ W x' y' c
  have hstores : Stores r g.sites (fun s site => step site.1 site.2 s) owns v := by
    refine ⟨fun s site => hshape site.1 site.2 s, ?_⟩
    intro site hsite s hs x' y' c
    refine hstep site.1 site.2 s (Region.mem_sites.mp hsite) hs.shape (fun x y c hc => ?_) x' y' c
    exact hs.get x y c fun _ _ ho => hc ho.2
  have hown : (∃ site ∈ g.sites, owns site x y c) ↔ g.Contains x y ∧ W x y c := by
    constructor
    · intro hsite
      obtain ⟨⟨a, b⟩, hm, ⟨rfl, rfl⟩, hw⟩ := hsite
      exact ⟨Region.mem_sites.mp hm, hw⟩
    · intro hcell
      obtain ⟨hg, hw⟩ := hcell
      exact ⟨(x, y), Region.mem_sites.mpr hg, ⟨rfl, rfl⟩, hw⟩
  rw [sweep, get_foldl hstores]
  simp only [hown]

/-- a sweep whose steps each store their whole pixel, from what they know without the raster -/
theorem get_sweep_pixels {g : Region} {step : Nat → Nat → Raster → Raster} (hshape : ∀ x y s, SameShape (step x y s) s)
    (hstep : ∀ x y s, g.Contains x y → SameShape s r → ∀ x' y' c,
      (step x y s).get x' y' c = if x = x' ∧ y = y' then v x' y' c else s.get x' y' c) (x y : Nat) (c : Channel) :
    (r.sweep g step).get x y c = if g.Contains x y then v x y c else r.get x y c := by
  have h := r.get_sweep (g := g) (v := v) (W := fun _ _ _ => True) hshape ?_ x y c
  · simpa only [and_true] using h
  · intro a b s hg hs _ x' y' c'
    simp only [hstep a b s hg hs, and_true]

end Raster

end Imaging
