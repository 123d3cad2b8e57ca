/-
Arithmetic in machine words. A run is a computation that stops at the first fault, and every operation that can go wrong
names its fault here: a result outside its word, a shift by too many bits, an index outside a slice. Lengths and places
are unsigned words of 64 bits. Colours are computed in signed words of 32 bits, `I32`; these have the five operations
that kernels and colour transforms are stated with, so the formulas that are exact in integers can be run in machine
words as they stand. `foldlM_eq` is the law of loops: where no step faults, the loop is the loop of the steps' values.
-/
import Imaging.Size

namespace Imaging.Machine

/-- what stops a run -/
inductive Fault where
  /-- the result of an operation lies outside its word -/
  | overflow
  /-- a shift by more bits than the word has places for -/
  | shift
  /-- an index or a range outside a slice -/
  | bounds
  /-- a copy between slices of different lengths -/
  | length
  /-- chunks of no elements -/
  | chunk
  deriving DecidableEq, Repr

/-- a computation that a fault can stop -/
abbrev Run (α : Type) := Except Fault α

@[simp]
theorem ok_bind {ε α β : Type} (a : α) (f : α → Except ε β) : ((.ok a : Except ε α) >>= f) = f a := rfl

/-! ## Loops -/

section Loops

variable {α β : Type}

/-- a loop none of whose steps faults while an invariant holds -/
theorem foldlM_eq {motive : β → Prop} {step : β → α → Run β} {value : β → α → β} {l : List α} {b : β} (h₀ : motive b)
    (hstep : ∀ b a, a ∈ l → motive b → step b a = .ok (value b a) ∧ motive (value b a)) :
    l.foldlM step b = .ok (l.foldl value b) := by
  induction l generalizing b with
  | nil => rfl
  | cons a l ih =>
    obtain ⟨hok, hmotive⟩ := hstep b a List.mem_cons_self h₀
    rw [List.foldlM_cons, hok, ok_bind, List.foldl_cons]
    exact ih hmotive fun b a ha => hstep b a (List.mem_cons_of_mem _ ha)

theorem mapM_eq {f : α → Run β} {value : α → β} {l : List α} (h : ∀ a ∈ l, f a = .ok (value a)) :
    l.mapM f = .ok (l.map value) := by
  induction l with
  | nil => rfl
  | cons a l ih =>
    have hl := ih fun a ha => h a (List.mem_cons_of_mem _ ha)
    rw [List.mapM_cons, h a List.mem_cons_self, ok_bind, hl, ok_bind, List.map_cons]
    rfl

end Loops

/-! ## Lengths and places -/

def word (n : Nat) : Run Nat := if n < sizeLimit then .ok n else .error .overflow

def add (a b : Nat) : Run Nat := word (a + b)

def mul (a b : Nat) : Run Nat := word (a * b)

def sub (a b : Nat) : Run Nat := if b ≤ a then .ok (a - b) else .error .overflow

/-- a product that is missing where it does not fit, rather than wrong -/
def mul? (a b : Nat) : Option Nat := if a * b < sizeLimit then some (a * b) else none

/-- the element of a slice at a place -/
def index {α : Type} (slice : Array α) (i : Nat) : Run α :=
  match slice[i]? with
  | some a => .ok a
  | none => .error .bounds

section Words

variable {a b n : Nat}

theorem word_eq (h : n < sizeLimit) : word n = .ok n := if_pos h

theorem add_eq (h : a + b < sizeLimit) : add a b = .ok (a + b) := if_pos h

theorem mul_eq (h : a * b < sizeLimit) : mul a b = .ok (a * b) := if_pos h

theorem sub_eq (h : b ≤ a) : sub a b = .ok (a - b) := if_pos h

theorem mul?_eq_some_iff : mul? a b = some n ↔ a * b < sizeLimit ∧ a * b = n := by
  unfold mul?
  split
  · rename_i h
    rw [Option.some.injEq, and_iff_right h]
  · rename_i h
    simp only [reduceCtorEq, h, false_and]

theorem mul?_eq_none_iff : mul? a b = none ↔ ¬a * b < sizeLimit := by
  unfold mul?
  split
  · rename_i h
    simp only [reduceCtorEq, h, not_true_eq_false]
  · rename_i h
    simp only [h, not_false_eq_true]

theorem index_eq {α : Type} {slice : Array α} {i : Nat} (h : i < slice.size) : index slice i = .ok slice[i] := by
  rw [index, Array.getElem?_eq_getElem h]

end Words

/-! ## Signed words -/

/-- a computation in signed words of 32 bits -/
structure I32 where
  run : Run Int

namespace I32

def of (v : Int) : I32 := ⟨.ok v⟩

def word (v : Int) : I32 := ⟨if -2147483648 ≤ v ∧ v < 2147483648 then .ok v else .error .overflow⟩

/-- run two computations, the left one first -/
def both (op : Int → Int → I32) (a b : I32) : I32 :=
  ⟨a.run >>= fun x => b.run >>= fun y => (op x y).run⟩

/-- shift right by as many bits as make `d`, which rounds a quotient towards minus infinity -/
def shiftRight (v d : Int) : I32 :=
  ⟨if 0 < d ∧ 1 <<< d.toNat.log2 = d.toNat ∧ d.toNat.log2 < 32 then .ok (v / d) else .error .shift⟩

instance (n : Nat) : OfNat I32 n := ⟨word n⟩

instance : Neg I32 := ⟨fun a => ⟨a.run >>= fun x => (word (-x)).run⟩⟩

instance : Add I32 := ⟨both fun x y => word (x + y)⟩

instance : Sub I32 := ⟨both fun x y => word (x - y)⟩

instance : Mul I32 := ⟨both fun x y => word (x * y)⟩

instance : Div I32 := ⟨both shiftRight⟩

def abs (a : I32) : Run Nat := a.run >>= fun x => (word x.natAbs).run.map Int.toNat

section Values

variable {a b : Int}

@[simp]
theorem run_of (v : Int) : (of v).run = .ok v := rfl

theorem word_eq (h : -2147483648 ≤ a ∧ a < 2147483648) : word a = of a := by
  rw [word, if_pos h]
  rfl

theorem ofNat_eq (n : Nat) (h : n < 2147483648) : no_index (OfNat.ofNat n : I32) = of (OfNat.ofNat n) := by
  change word (n : Int) = of (n : Int)
  exact word_eq (by omega)

theorem neg_eq (h : -2147483648 ≤ -a ∧ -a < 2147483648) : -of a = of (-a) := word_eq h

theorem add_eq (h : -2147483648 ≤ a + b ∧ a + b < 2147483648) : of a + of b = of (a + b) := word_eq h

theorem sub_eq (h : -2147483648 ≤ a - b ∧ a - b < 2147483648) : of a - of b = of (a - b) := word_eq h

theorem mul_eq (h : -2147483648 ≤ a * b ∧ a * b < 2147483648) : of a * of b = of (a * b) := word_eq h

theorem div_eq (h : 0 < b ∧ 1 <<< b.toNat.log2 = b.toNat ∧ b.toNat.log2 < 32) : of a / of b = of (a / b) := by
  change shiftRight a b = of (a / b)
  rw [shiftRight, if_pos h]
  rfl

theorem abs_eq (h : (a.natAbs : Int) < 2147483648) : (of a).abs = .ok a.natAbs := by
  rw [abs, run_of, ok_bind, word_eq ⟨by omega, h⟩]
  rfl

end Values

end I32

end Imaging.Machine
