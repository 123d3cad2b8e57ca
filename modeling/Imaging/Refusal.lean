/-
Why a request is refused. A refusal is a cause with its data; `message` is its wording, `code` the negative status
number that callers of the raw interface see. Checks are written with `require`, in the order in which they are made:
the first one that fails is the refusal.
-/
import Imaging.Format.Coding

namespace Imaging

/-- a parameter that a refusal can name -/
inductive Parameter where
  | bitDepth
  | colourFilter
  | colourCoding
  | method
  | buffer
  | other (name : String)
  deriving DecidableEq, Repr

def Parameter.name : Parameter → String
  | bitDepth => "bit depth"
  | colourFilter => "color filter"
  | colourCoding => "color coding"
  | method => "bayer method"
  | buffer => "null buffer"
  | other name => name

inductive Refusal where
  /-- no conversion leads from the source coding to the target coding -/
  | unsupported (source target : Coding)
  /-- a raw number that stands for no byte order -/
  | byteOrder (raw : Nat)
  /-- a parameter that is missing, unknown or out of range -/
  | parameter (which : Parameter)
  /-- sizes that the request cannot have -/
  | dimensions (width height : Nat)
  /-- a buffer of another length than the sizes ask for -/
  | length (expected received : Nat)
  deriving DecidableEq, Repr

namespace Refusal

def message : Refusal → String
  | unsupported source target => "Unsupported conversion from " ++ source.name ++ " to " ++ target.name
  | byteOrder raw => "Invalid byte order " ++ toString raw
  | parameter which => "Invalid parameter: " ++ which.name
  | dimensions width height => "Invalid dimensions " ++ toString width ++ "x" ++ toString height
  | length expected received =>
    "Buffer size mismatch: expected=" ++ toString expected ++ ", received=" ++ toString received

/-- the status number of a refusal -/
def code : Refusal → Int
  | unsupported _ _ => -1
  | byteOrder _ => -2
  | parameter _ => -3
  | dimensions _ _ => -4
  | length _ _ => -5

theorem code_neg (e : Refusal) : e.code < 0 := by
  cases e <;> simp [code]

end Refusal

/-! ## Checks -/

/-- go on where `p` holds, refuse with `e` where it does not -/
def require (p : Prop) [Decidable p] (e : Refusal) : Except Refusal Unit :=
  if p then .ok () else .error e

/-- a buffer of exactly the expected length -/
def requireLength (expected received : Nat) : Except Refusal Unit :=
  require (expected = received) (.length expected received)

/-- the value that is there, a refusal with `e` where there is none -/
def requireSome {α : Type} (o : Option α) (e : Refusal) : Except Refusal α :=
  match o with
  | some a => .ok a
  | none => .error e

theorem requireSome_eq_ok_iff {α : Type} {o : Option α} {e : Refusal} {a : α} :
    requireSome o e = .ok a ↔ o = some a := by
  cases o <;> simp [requireSome]

theorem requireSome_eq_error_iff {α : Type} {o : Option α} {e e' : Refusal} :
    requireSome o e = .error e' ↔ o = none ∧ e = e' := by
  cases o <;> simp [requireSome]

section Sequence

variable {α β : Type} {x : Except Refusal α} {f : α → Except Refusal β}

/-- a sequence of checks passes where each of them does -/
theorem bind_eq_ok_iff {b : β} : (x >>= f) = .ok b ↔ ∃ a, x = .ok a ∧ f a = .ok b := by
  cases x with
  | error e => simp [bind, Except.bind]
  | ok a => simp [bind, Except.bind]

/-- a sequence of checks is refused by its first failure -/
theorem bind_eq_error_iff {e : Refusal} :
    (x >>= f) = .error e ↔ x = .error e ∨ ∃ a, x = .ok a ∧ f a = .error e := by
  cases x with
  | error e' => simp [bind, Except.bind]
  | ok a => simp [bind, Except.bind]

end Sequence

section Require

variable {p : Prop} [Decidable p] {e e' : Refusal}

theorem require_of (h : p) : require p e = .ok () := if_pos h

theorem require_of_not (h : ¬p) : require p e = .error e := if_neg h

theorem require_eq_ok_iff {u : Unit} : require p e = .ok u ↔ p := by
  by_cases h : p <;> simp [require, h]

theorem require_eq_error_iff : require p e = .error e' ↔ ¬p ∧ e = e' := by
  by_cases h : p <;> simp [require, h]

theorem requireLength_eq_ok_iff {expected received : Nat} {u : Unit} :
    requireLength expected received = .ok u ↔ expected = received := require_eq_ok_iff

end Require

end Imaging
