/-
The numbers by which IIDC cameras and their drivers name codings, byte orders, colour filters and methods. Each noun has
its number; reading looks a number up among them, and a number that names nothing is refused. `readCoding_eq_ok_iff` and
its companions say that reading and numbering are inverse.
-/
import Imaging.Demosaic.Decode
import Imaging.Format.ByteOrder

namespace Imaging

def Coding.code : Coding → Nat
  | mono8 => 352
  | yuv411 => 353
  | yuv422 => 354
  | yuv444 => 355
  | rgb8 => 356
  | mono16 => 357
  | rgb16 => 358
  | mono16s => 359
  | rgb16s => 360
  | raw8 => 361
  | raw16 => 362

def ByteOrder.code : ByteOrder → Nat
  | uyvy => 800
  | yuyv => 801

def Tile.code : Tile → Nat
  | rggb => 512
  | gbrg => 513
  | grbg => 514
  | bggr => 515

def Method.code : Method → Nat
  | nearest => 0
  | simple => 1
  | bilinear => 2
  | hqLinear => 3
  | downsample => 4
  | edgeSense => 5

namespace Iidc

/-- the first of some values that has a number -/
def ofCode? {α : Type} (all : List α) (code : α → Nat) (raw : Nat) : Option α :=
  all.find? fun a => code a = raw

def readCoding (raw : Nat) : Except Refusal Coding :=
  requireSome (ofCode? Coding.all Coding.code raw) (.parameter .colourCoding)

def readOrder (raw : Nat) : Except Refusal ByteOrder :=
  requireSome (ofCode? ByteOrder.all ByteOrder.code raw) (.byteOrder raw)

def readTile (raw : Nat) : Except Refusal Tile :=
  requireSome (ofCode? Tile.all Tile.code raw) (.parameter .colourFilter)

def readMethod (raw : Nat) : Except Refusal Method :=
  requireSome (ofCode? Method.all Method.code raw) (.parameter .method)

/-- where the list has every value and no two share a number, looking up undoes numbering -/
theorem ofCode?_eq_some_iff {α : Type} {all : List α} {code : α → Nat} (hall : ∀ a, a ∈ all)
    (hinj : ∀ a b, code a = code b → a = b) {raw : Nat} {a : α} : ofCode? all code raw = some a ↔ code a = raw := by
  constructor
  · intro h
    simpa using List.find?_some h
  · intro h
    cases hf : ofCode? all code raw with
    | none =>
      have := List.find?_eq_none.mp hf a (hall a)
      simp [h] at this
    | some b =>
      have hb : code b = raw := by simpa using List.find?_some hf
      rw [hinj b a (hb.trans h.symm)]

theorem readCoding_eq_ok_iff {raw : Nat} {c : Coding} : readCoding raw = .ok c ↔ c.code = raw := by
  rw [readCoding, requireSome_eq_ok_iff]
  exact ofCode?_eq_some_iff Coding.mem_all fun a b => by cases a <;> cases b <;> decide

theorem readOrder_eq_ok_iff {raw : Nat} {o : ByteOrder} : readOrder raw = .ok o ↔ o.code = raw := by
  rw [readOrder, requireSome_eq_ok_iff]
  exact ofCode?_eq_some_iff ByteOrder.mem_all fun a b => by cases a <;> cases b <;> decide

theorem readTile_eq_ok_iff {raw : Nat} {t : Tile} : readTile raw = .ok t ↔ t.code = raw := by
  rw [readTile, requireSome_eq_ok_iff]
  exact ofCode?_eq_some_iff Tile.mem_all fun a b => by cases a <;> cases b <;> decide

theorem readMethod_eq_ok_iff {raw : Nat} {k : Method} : readMethod raw = .ok k ↔ k.code = raw := by
  rw [readMethod, requireSome_eq_ok_iff]
  exact ofCode?_eq_some_iff Method.mem_all fun a b => by cases a <;> cases b <;> decide

end Iidc

end Imaging
