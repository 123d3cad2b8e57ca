/-
Methods that average. Most methods give a channel the rounded mean of a few samples around the site and nothing else
(`averages_kernel`). Such a mean is hardly changed by what is done to its samples one by one:
- `exists_biasedMean_ediv`: the quotient of a rounded mean is the mean of the quotients, rounded in another way, and two
  ways of rounding one mean are at most one apart (`biasedMean_near`);
- `copies_iff`: a channel is one of the samples as it is exactly where its mean has one sample.
-/
import Mathlib.Algebra.Order.Ring.Int
import Imaging.Proofs.Demosaic.Pixel

namespace Imaging

/-! ## Rounded means -/

/-- the mean of some samples, rounded by a bias that is added to their sum -/
def biasedMean (bias : Int) (xs : List Int) : Int := (xs.sum + bias) / xs.length

section Quotients

variable {N : Int}

/-- a sum, by the quotients and the remainders of its terms -/
theorem sum_eq_quotients_add_remainders (N : Int) (xs : List Int) :
    xs.sum = N * (xs.map (· / N)).sum + (xs.map (· % N)).sum := by
  induction xs with
  | nil => simp
  | cons x xs ih =>
    have hx := Int.mul_ediv_add_emod x N
    simp only [List.map_cons, List.sum_cons, Int.mul_add]
    omega

/-- each of `n` remainders is at most `N - 1`, and so are they all together at most `n * N - n` -/
theorem sum_remainders_mem (hN : 0 < N) (xs : List Int) :
    0 ≤ (xs.map (· % N)).sum ∧ (xs.map (· % N)).sum + xs.length ≤ N * xs.length := by
  induction xs with
  | nil => simp
  | cons x xs ih =>
    have hx₀ := Int.emod_nonneg x (Int.ne_of_gt hN)
    have hx := Int.emod_lt_of_pos x hN
    simp only [List.map_cons, List.sum_cons, List.length_cons, Int.natCast_add, Int.mul_add]
    omega

/-- **The quotient of a mean.** Dividing a rounded mean gives the mean of the quotients, rounded in another way. -/
theorem exists_biasedMean_ediv (hN : 0 < N) {bias : Int} {xs : List Int} (hbias : 0 ≤ bias ∧ bias < xs.length) :
    ∃ bias' : Int, (0 ≤ bias' ∧ bias' < xs.length) ∧
      biasedMean bias xs / N = biasedMean bias' (xs.map (· / N)) := by
  obtain ⟨hrem₀, hrem⟩ := sum_remainders_mem hN xs
  have hsum := sum_eq_quotients_add_remainders N xs
  generalize (xs.map (· % N)).sum = remainders at hrem₀ hrem hsum
  refine ⟨(remainders + bias) / N, ⟨?_, ?_⟩, ?_⟩
  · exact Int.ediv_nonneg (by omega) (by omega)
  · refine Int.ediv_lt_of_lt_mul hN ?_
    rw [Int.mul_comm]
    omega
  · rw [biasedMean, biasedMean, List.length_map]
    -- both divisors are positive, so their order does not matter
    calc
      (xs.sum + bias) / xs.length / N = (xs.sum + bias) / N / xs.length := by
        rw [Int.ediv_ediv_of_nonneg (by omega), Int.ediv_ediv_of_nonneg (by omega), Int.mul_comm]
      _ = ((xs.map (· / N)).sum + (remainders + bias) / N) / xs.length := by
        rw [hsum, Int.add_assoc, Int.mul_add_ediv_left _ _ (Int.ne_of_gt hN)]

end Quotients

/-- two roundings of one mean are at most one apart -/
theorem biasedMean_near {bias bias' : Int} {xs : List Int} (hbias : 0 ≤ bias ∧ bias < xs.length)
    (hbias' : 0 ≤ bias' ∧ bias' < xs.length) : (biasedMean bias xs - biasedMean bias' xs).natAbs ≤ 1 := by
  have hn : (0 : Int) < xs.length := by omega
  have hfloor (b : Int) (hb : 0 ≤ b ∧ b < xs.length) :
      xs.sum / xs.length ≤ biasedMean b xs ∧ biasedMean b xs ≤ xs.sum / xs.length + 1 := by
    have hstep : (xs.sum + xs.length) / xs.length = xs.sum / xs.length + 1 := by
      rw [Int.add_ediv_of_dvd_right (Int.dvd_refl _), Int.ediv_self (Int.ne_of_gt hn)]
    rw [← hstep]
    exact ⟨Int.ediv_le_ediv hn (by omega), Int.ediv_le_ediv hn (by omega)⟩
  have h := hfloor bias hbias
  have h' := hfloor bias' hbias'
  omega

/-! ## Kernels that take means -/

/-- a rounded mean of samples around a site -/
structure Blend where
  offsets : List (Int × Int)
  bias : Nat
  nodup : offsets.Nodup
  bias_lt : bias < offsets.length

namespace Blend

def value (b : Blend) (s : Window Int) : Int := biasedMean b.bias (b.offsets.map fun o => s o.1 o.2)

def single (dx dy : Int) : Blend := ⟨[(dx, dy)], 0, by simp, by simp⟩

theorem value_single (dx dy : Int) (s : Window Int) : (single dx dy).value s = s dx dy := by
  simp [value, single, biasedMean]

theorem value_mk {offsets : List (Int × Int)} {bias : Nat} (nodup : offsets.Nodup) (bias_lt : bias < offsets.length)
    (s : Window Int) :
    value ⟨offsets, bias, nodup, bias_lt⟩ s = ((offsets.map fun o => s o.1 o.2).sum + bias) / offsets.length := by
  rw [value, biasedMean, List.length_map]

/-- **Means of quotients.** The quotient of a mean is at most one away from the mean of the quotients. -/
theorem value_ediv_near (b : Blend) {N : Int} (hN : 0 < N) (s : Window Int) :
    (b.value s / N - b.value fun dx dy => s dx dy / N).natAbs ≤ 1 := by
  have hbias : (0 : Int) ≤ b.bias ∧ (b.bias : Int) < (b.offsets.map fun o => s o.1 o.2).length := by
    have := b.bias_lt
    simp only [List.length_map]
    omega
  obtain ⟨bias', hbias', hquotient⟩ := exists_biasedMean_ediv hN hbias
  have hmap : ((b.offsets.map fun o => s o.1 o.2).map (· / N)) = b.offsets.map fun o => s o.1 o.2 / N := List.map_map
  rw [value, value, hquotient, hmap]
  rw [List.length_map] at hbias hbias'
  exact biasedMean_near (by rwa [List.length_map]) (by rwa [List.length_map])

/-- a difference of one does occur -/
example : (biasedMean 1 [0, 16] / 16, biasedMean 1 [0 / 16, 16 / 16]) = (0, 1) := by decide

/-- of distinct offsets, one at most meets a single bright sample -/
theorem sum_spike_le {height : Int} (hheight : 0 ≤ height) (p : Int × Int) {offsets : List (Int × Int)}
    (h : offsets.Nodup) : (offsets.map fun o => if o = p then height else 0).sum ≤ height := by
  induction offsets with
  | nil => exact hheight
  | cons o offsets ih =>
    obtain ⟨hnew, hnodup⟩ := List.nodup_cons.mp h
    rw [List.map_cons, List.sum_cons]
    by_cases ho : o = p
    · subst ho
      have hrest : (offsets.map fun o' => if o' = o then height else 0) = offsets.map fun _ => 0 :=
        List.map_congr_left fun o' ho' => if_neg fun (heq : o' = o) => hnew (heq ▸ ho')
      rw [if_pos rfl, hrest, List.map_const', List.sum_replicate_int]
      omega
    · rw [if_neg ho]
      have := ih hnodup
      omega

/-- a mean of two samples or more is not one of them: it does not follow a bright one -/
theorem length_offsets_of_copies (b : Blend) {dx dy : Int} (h : ∀ s, b.value s = s dx dy) : b.offsets.length = 1 := by
  have hlt := b.bias_lt
  let spike : Window Int := fun x y => if (x, y) = (dx, dy) then b.offsets.length else 0
  have hsum : (b.offsets.map fun o => spike o.1 o.2).sum ≤ b.offsets.length :=
    sum_spike_le (Int.natCast_nonneg b.offsets.length) (dx, dy) b.nodup
  have hvalue : b.value spike < 2 := by
    rw [value, biasedMean, List.length_map]
    exact Int.ediv_lt_of_lt_mul (by omega) (by omega)
  have hheight : spike dx dy = b.offsets.length := if_pos rfl
  rw [h spike, hheight] at hvalue
  omega

theorem eq_single {b : Blend} (h : b.offsets.length = 1) : ∃ o : Int × Int, b = single o.1 o.2 := by
  obtain ⟨offsets, bias, nodup, bias_lt⟩ := b
  obtain ⟨o, rfl⟩ := List.length_eq_one_iff.mp h
  obtain rfl : bias = 0 := Nat.lt_one_iff.mp bias_lt
  exact ⟨o, rfl⟩

end Blend

namespace Kernel

/-- all that a kernel gives are rounded means: at a green site those of `green`, at another site those of `colour` -/
structure Averages (k : Kernel Int) (green colour : Estimate Blend) : Prop where
  atGreen : ∀ s, k.atGreen s = green.map fun b => b.value s
  atColour : ∀ s, k.atColour s = colour.map fun b => b.value s

/-- the mean that a kernel takes for a channel of a site -/
def blend (green colour : Estimate Blend) (t : Tile) (x y : Nat) (c : Channel) : Blend :=
  (if (Phase.atRow t y).isGreen x then green else colour).channel (Phase.atRow t y) c

theorem Averages.colour_eq {k : Kernel Int} {green colour : Estimate Blend} (h : k.Averages green colour) (t : Tile)
    (x y : Nat) (s : Window Int) (c : Channel) : k.colour t x y s c = (blend green colour t x y c).value s := by
  rw [Kernel.colour, estimate, blend]
  split
  · rw [h.atGreen, Estimate.channel_map]
  · rw [h.atColour, Estimate.channel_map]

end Kernel

namespace Method

/-- a channel of a pixel is taken from a single sample, as it is -/
def Copies (k : Method) (t : Tile) (x y : Nat) (c : Channel) : Prop :=
  ∃ dx dy, ∀ s, k.kernel.colour t (k.stride * x) (k.stride * y) s c = s dx dy

/-- the means that a method takes at a green site and at a site of another colour -/
def blends? : Method → Option (Estimate Blend × Estimate Blend)
  | nearest => some (⟨.single 1 0, .single 1 1, .single 0 1⟩, ⟨.single 0 0, .single 1 0, .single 1 1⟩)
  | simple => some
      (⟨.single 1 0, ⟨[(0, 0), (1, 1)], 1, by decide, by decide⟩, .single 0 1⟩,
        ⟨.single 0 0, ⟨[(1, 0), (0, 1)], 1, by decide, by decide⟩, .single 1 1⟩)
  | bilinear => some
      (⟨⟨[(-1, 0), (1, 0)], 1, by decide, by decide⟩, .single 0 0, ⟨[(0, -1), (0, 1)], 1, by decide, by decide⟩⟩,
        ⟨.single 0 0, ⟨[(-1, 0), (1, 0), (0, -1), (0, 1)], 2, by decide, by decide⟩,
          ⟨[(-1, -1), (1, -1), (-1, 1), (1, 1)], 2, by decide, by decide⟩⟩)
  | downsample => some
      (⟨.single 1 0, ⟨[(0, 0), (1, 1)], 0, by decide, by decide⟩, .single 0 1⟩,
        ⟨.single 0 0, ⟨[(1, 0), (0, 1)], 0, by decide, by decide⟩, .single 1 1⟩)
  | hqLinear | edgeSense => none

/-- **The methods that average.** -/
theorem averages_kernel {k : Method} {green colour : Estimate Blend} (h : k.blends? = some (green, colour)) :
    k.kernel.Averages green colour := by
  cases k with
  | nearest | simple | bilinear | downsample =>
    obtain ⟨rfl, rfl⟩ := Prod.mk.inj (Option.some.inj h)
    refine ⟨fun s => ?_, fun s => ?_⟩
    all_goals
      simp [kernel, Kernel.nearest, Kernel.simple, Kernel.bilinear, Kernel.tilewise, Kernel.roundedMean, Kernel.beside,
        Kernel.diagonal, Estimate.map, Blend.value_single, Blend.value_mk, Int.add_assoc]
  | hqLinear | edgeSense => cases h

/-- **Which channels are copied.** Those whose mean has one sample, and no others. -/
theorem copies_iff {k : Method} {green colour : Estimate Blend} (h : k.blends? = some (green, colour)) (t : Tile)
    (x y : Nat) (c : Channel) :
    k.Copies t x y c ↔ (Kernel.blend green colour t (k.stride * x) (k.stride * y) c).offsets.length = 1 := by
  have hcolour := (averages_kernel h).colour_eq t (k.stride * x) (k.stride * y)
  constructor
  · rintro ⟨dx, dy, hcopies⟩
    exact Blend.length_offsets_of_copies _ fun s => (hcolour s c).symm.trans (hcopies s)
  · intro hlength
    obtain ⟨⟨dx, dy⟩, hsingle⟩ := Blend.eq_single hlength
    refine ⟨dx, dy, fun s => ?_⟩
    rw [hcolour, hsingle, Blend.value_single]

theorem copies_nearest (t : Tile) (x y : Nat) (c : Channel) : nearest.Copies t x y c := by
  refine (copies_iff rfl t x y c).mpr ?_
  rw [Kernel.blend, Estimate.channel]
  repeat' split
  all_goals rfl

end Method

end Imaging
