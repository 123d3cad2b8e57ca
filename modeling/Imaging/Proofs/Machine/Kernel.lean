/-
Kernels in 32-bit arithmetic. On samples of 16 bits no sum, product or difference of a kernel leaves the 32-bit range:
the largest of them, in the high-quality linear method, stays below 2 ^ 20. So a kernel read in machine words makes the
estimates that it makes in exact integers (`Carries`), from the samples within its reach alone.
-/
import Imaging.Machine.Demosaic
import Imaging.Proofs.Demosaic.Reach

namespace Imaging.Machine

/-- a value of 16 bits -/
def Sample (v : Int) : Prop := 0 ≤ v ∧ v ≤ 65535

/-- within the reach of a method, a window holds the samples `s` and fetching one does not fault -/
structure Holds (k : Method) (S : Window I32) (s : Window Int) : Prop where
  fetch : ∀ dx dy, k.Reaches dx dy → S dx dy = .of (s dx dy)
  sample : ∀ dx dy, k.Reaches dx dy → Sample (s dx dy)

/-- in machine words a kernel makes the estimates that it makes in integers -/
structure Carries (k : Method) (K : Kernel I32) (exact : Kernel Int) : Prop where
  atGreen : ∀ {S s}, Holds k S s → K.atGreen S = (exact.atGreen s).map .of
  atColour : ∀ {S s}, Holds k S s → K.atColour S = (exact.atColour s).map .of

theorem Carries.estimate {k : Method} {K : Kernel I32} {exact : Kernel Int} (hk : Carries k K exact) {S : Window I32}
    {s : Window Int} (h : Holds k S s) (p : Phase) (x : Nat) :
    K.estimate p x S = (exact.estimate p x s).map .of := by
  unfold Kernel.estimate
  split
  · exact hk.atGreen h
  · exact hk.atColour h

variable {S : Window I32} {s : Window Int}

theorem Holds.mono {k k' : Method} (h : Holds k S s) (hreach : ∀ dx dy, k'.Reaches dx dy → k.Reaches dx dy) :
    Holds k' S s :=
  ⟨fun dx dy hd => h.fetch dx dy (hreach dx dy hd), fun dx dy hd => h.sample dx dy (hreach dx dy hd)⟩

theorem carries_nearest : Carries .nearest .nearest .nearest where
  atGreen h := by simp (disch := decide) only [Kernel.nearest, Estimate.map, h.fetch]
  atColour h := by simp (disch := decide) only [Kernel.nearest, Estimate.map, h.fetch]

/-! ## Means of two -/

theorem roundedMean_eq {a b : Int} (ha : Sample a) (hb : Sample b) :
    Kernel.roundedMean (.of a) (.of b) = I32.of (Kernel.roundedMean a b) := by
  obtain ⟨ha₀, ha⟩ := ha
  obtain ⟨hb₀, hb⟩ := hb
  simp (disch := first | omega | decide) only [Kernel.roundedMean, I32.add_eq, I32.ofNat_eq, I32.div_eq]

theorem sample_roundedMean {a b : Int} (ha : Sample a) (hb : Sample b) : Sample (Kernel.roundedMean a b) := by
  obtain ⟨ha₀, ha⟩ := ha
  obtain ⟨hb₀, hb⟩ := hb
  constructor <;> simp only [Kernel.roundedMean] <;> omega

theorem carries_simple : Carries .simple .simple .simple where
  atGreen h := by
    have hmean := roundedMean_eq (h.sample 0 0 (by decide)) (h.sample 1 1 (by decide))
    simp (disch := decide) only [Kernel.simple, Estimate.map, h.fetch, hmean]
  atColour h := by
    have hmean := roundedMean_eq (h.sample 1 0 (by decide)) (h.sample 0 1 (by decide))
    simp (disch := decide) only [Kernel.simple, Estimate.map, h.fetch, hmean]

/-! ## Sums of four -/

/-- a sum of four samples -/
def FourSamples (v : Int) : Prop := 0 ≤ v ∧ v ≤ 262140

theorem sum_eq {a b c d : Int} (ha : Sample a) (hb : Sample b) (hc : Sample c) (hd : Sample d) :
    I32.of a + I32.of b + I32.of c + I32.of d = I32.of (a + b + c + d) ∧ FourSamples (a + b + c + d) := by
  obtain ⟨ha₀, ha⟩ := ha
  obtain ⟨hb₀, hb⟩ := hb
  obtain ⟨hc₀, hc⟩ := hc
  obtain ⟨hd₀, hd⟩ := hd
  constructor
  · simp (disch := omega) only [I32.add_eq]
  · constructor <;> omega

theorem beside_eq (h : Holds .bilinear S s) :
    Kernel.beside S = .of (Kernel.beside s) ∧ FourSamples (Kernel.beside s) := by
  simp (disch := decide) only [Kernel.beside, h.fetch]
  exact sum_eq (h.sample _ _ (by decide)) (h.sample _ _ (by decide)) (h.sample _ _ (by decide))
    (h.sample _ _ (by decide))

theorem diagonal_eq (h : Holds .bilinear S s) :
    Kernel.diagonal S = .of (Kernel.diagonal s) ∧ FourSamples (Kernel.diagonal s) := by
  simp (disch := decide) only [Kernel.diagonal, h.fetch]
  exact sum_eq (h.sample _ _ (by decide)) (h.sample _ _ (by decide)) (h.sample _ _ (by decide))
    (h.sample _ _ (by decide))

theorem twoBeside_eq (h : Holds .hqLinear S s) :
    Kernel.twoBeside S = .of (Kernel.twoBeside s) ∧ FourSamples (Kernel.twoBeside s) := by
  simp (disch := decide) only [Kernel.twoBeside, h.fetch]
  exact sum_eq (h.sample _ _ (by decide)) (h.sample _ _ (by decide)) (h.sample _ _ (by decide))
    (h.sample _ _ (by decide))

theorem quarter_eq {v : Int} (hv : FourSamples v) : (I32.of v + 2) / 4 = I32.of ((v + 2) / 4) := by
  obtain ⟨hv₀, hv⟩ := hv
  simp (disch := first | omega | decide) only [I32.add_eq, I32.ofNat_eq, I32.div_eq]

theorem carries_bilinear : Carries .bilinear .bilinear .bilinear where
  atGreen h := by
    have hrow := roundedMean_eq (h.sample (-1) 0 (by decide)) (h.sample 1 0 (by decide))
    have hcolumn := roundedMean_eq (h.sample 0 (-1) (by decide)) (h.sample 0 1 (by decide))
    simp (disch := decide) only [Kernel.bilinear, Estimate.map, h.fetch, hrow, hcolumn]
  atColour h := by
    obtain ⟨hbeside, hbeside'⟩ := beside_eq h
    obtain ⟨hdiagonal, hdiagonal'⟩ := diagonal_eq h
    simp (disch := decide) only [Kernel.bilinear, Estimate.map, h.fetch, hbeside, hdiagonal, quarter_eq hbeside',
      quarter_eq hdiagonal']

/-! ## The high-quality linear method -/

theorem bilinear_of_hqLinear (h : Holds .hqLinear S s) : Holds .bilinear S s :=
  h.mono fun dx dy hd => by
    simp only [Method.Reaches, Method.reachBack, Method.reachAhead] at hd ⊢
    omega

/-- eight times a colour of the method, in machine words and in integers: far from the ends of the range -/
def Eightfold (V : I32) (v : Int) : Prop := V = .of v ∧ -1048576 ≤ v ∧ v ≤ 1048576

theorem Eightfold.eighth {V : I32} {v : Int} (h : Eightfold V v) : (V + 4) / 8 = .of ((v + 4) / 8) := by
  obtain ⟨rfl, hlow, hhigh⟩ := h
  simp (disch := first | omega | decide) only [I32.add_eq, I32.ofNat_eq, I32.div_eq]

theorem alongRow_eq (h : Holds .hqLinear S s) : Eightfold (Kernel.alongRow S) (Kernel.alongRow s) := by
  obtain ⟨hdiagonal, hd₀, hd⟩ := diagonal_eq (bilinear_of_hqLinear h)
  have hmean := roundedMean_eq (h.sample 0 (-2) (by decide)) (h.sample 0 2 (by decide))
  obtain ⟨hm₀, hm⟩ := sample_roundedMean (h.sample 0 (-2) (by decide)) (h.sample 0 2 (by decide))
  obtain ⟨hc₀, hc⟩ := h.sample 0 0 (by decide)
  obtain ⟨hl₀, hl⟩ := h.sample (-1) 0 (by decide)
  obtain ⟨hr₀, hr⟩ := h.sample 1 0 (by decide)
  obtain ⟨hl₀', hl'⟩ := h.sample (-2) 0 (by decide)
  obtain ⟨hr₀', hr'⟩ := h.sample 2 0 (by decide)
  unfold Kernel.alongRow
  refine ⟨?_, by omega, by omega⟩
  simp (disch := decide) only [h.fetch, hdiagonal, hmean, I32.ofNat_eq]
  simp (disch := omega) only [I32.add_eq, I32.sub_eq, I32.mul_eq]

theorem alongColumn_eq (h : Holds .hqLinear S s) : Eightfold (Kernel.alongColumn S) (Kernel.alongColumn s) := by
  obtain ⟨hdiagonal, hd₀, hd⟩ := diagonal_eq (bilinear_of_hqLinear h)
  have hmean := roundedMean_eq (h.sample (-2) 0 (by decide)) (h.sample 2 0 (by decide))
  obtain ⟨hm₀, hm⟩ := sample_roundedMean (h.sample (-2) 0 (by decide)) (h.sample 2 0 (by decide))
  obtain ⟨hc₀, hc⟩ := h.sample 0 0 (by decide)
  obtain ⟨hu₀, hu⟩ := h.sample 0 (-1) (by decide)
  obtain ⟨hl₀, hl⟩ := h.sample 0 1 (by decide)
  obtain ⟨hu₀', hu'⟩ := h.sample 0 (-2) (by decide)
  obtain ⟨hl₀', hl'⟩ := h.sample 0 2 (by decide)
  unfold Kernel.alongColumn
  refine ⟨?_, by omega, by omega⟩
  simp (disch := decide) only [h.fetch, hdiagonal, hmean, I32.ofNat_eq]
  simp (disch := omega) only [I32.add_eq, I32.sub_eq, I32.mul_eq]

theorem greenBeside_eq (h : Holds .hqLinear S s) : Eightfold (Kernel.greenBeside S) (Kernel.greenBeside s) := by
  obtain ⟨hbeside, hb₀, hb⟩ := beside_eq (bilinear_of_hqLinear h)
  obtain ⟨htwo, ht₀, ht⟩ := twoBeside_eq h
  obtain ⟨hc₀, hc⟩ := h.sample 0 0 (by decide)
  unfold Kernel.greenBeside
  refine ⟨?_, by omega, by omega⟩
  simp (disch := decide) only [h.fetch, hbeside, htwo, I32.ofNat_eq]
  simp (disch := omega) only [I32.add_eq, I32.sub_eq, I32.mul_eq]

theorem colourDiagonal_eq (h : Holds .hqLinear S s) :
    Eightfold (Kernel.colourDiagonal S) (Kernel.colourDiagonal s) := by
  obtain ⟨hdiagonal, hd₀, hd⟩ := diagonal_eq (bilinear_of_hqLinear h)
  obtain ⟨htwo, ht₀, ht⟩ := twoBeside_eq h
  obtain ⟨hc₀, hc⟩ := h.sample 0 0 (by decide)
  unfold Kernel.colourDiagonal
  refine ⟨?_, by omega, by omega⟩
  simp (disch := decide) only [h.fetch, hdiagonal, htwo, I32.ofNat_eq]
  simp (disch := first | omega | decide) only [I32.add_eq, I32.sub_eq, I32.mul_eq, I32.div_eq]

theorem carries_hqLinear : Carries .hqLinear .hqLinear .hqLinear where
  atGreen h := by
    have hrow := (alongRow_eq h).eighth
    have hcolumn := (alongColumn_eq h).eighth
    simp (disch := decide) only [Kernel.hqLinear, Estimate.map, h.fetch, hrow, hcolumn]
  atColour h := by
    have hgreen := (greenBeside_eq h).eighth
    have hcolumn := (colourDiagonal_eq h).eighth
    simp (disch := decide) only [Kernel.hqLinear, Estimate.map, h.fetch, hgreen, hcolumn]

end Imaging.Machine
