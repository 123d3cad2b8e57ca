/-
Conversion group by group. Every coding is read from groups of bytes that do not depend on each other, and every target
is written so, two pixels at a time; a function of this kind is `Chunkwise`. So an image may be converted in chunks of
one or several groups: `chunkwise_unpack` for the readings, `chunkwise_packRow` for pairs. Rows matter only where one
can be odd: an image whose odd rows are made even is written like one long row (`packRows_eq_packRow`).
-/
import Imaging.Proofs.Conversion.Target

namespace Imaging

/-! ## Functions computed chunk by chunk -/

section Chunks

variable {α β γ : Type}

/-- a function that can be computed from chunks of `n` elements one after the other -/
structure Chunkwise (n : Nat) (value : List β → List α) : Prop where
  nil : value [] = []
  append {s rest : List β} (h : s.length = n) : value (s ++ rest) = value s ++ value rest

namespace Chunkwise

variable {n m q : Nat} {src : List β} {value : List β → List α}

/-- the last chunk may be shorter -/
theorem flatMap_rows (h : Chunkwise n value) (hsrc : src.length ≤ n * q) : (rows n q src).flatMap value = value src := by
  induction q generalizing src with
  | zero =>
    obtain rfl := List.eq_nil_of_length_eq_zero (Nat.le_zero.mp hsrc)
    exact h.nil.symm
  | succ q ih =>
    rw [Nat.mul_succ] at hsrc
    have hrest : (rows n q (src.drop n)).flatMap value = value (src.drop n) := ih (by rw [List.length_drop]; omega)
    rw [rows, List.flatMap_cons, hrest]
    rcases Nat.lt_or_ge src.length n with hlt | hle
    · rw [List.take_of_length_le (by omega), List.drop_eq_nil_of_le (by omega), h.nil, List.append_nil]
    · rw [← h.append (by rw [List.length_take]; omega), List.take_append_drop]

/-- chunks that hold several will do as well -/
theorem mul (h : Chunkwise n value) (k : Nat) : Chunkwise (k * n) value where
  nil := h.nil
  append {s rest} hs := by
    induction k generalizing s with
    | zero =>
      obtain rfl := List.eq_nil_of_length_eq_zero (by rw [hs, Nat.zero_mul])
      rw [h.nil, List.nil_append, List.nil_append]
    | succ k ih =>
      rw [Nat.succ_mul] at hs
      have hfirst : (s.take n).length = n := by rw [List.length_take]; omega
      have hrest := ih (s := s.drop n) (by rw [List.length_drop]; omega)
      rw [← List.take_append_drop n s, List.append_assoc, h.append hfirst, hrest, h.append hfirst, List.append_assoc]

/-- one such function after another, where chunks of the one become chunks of the other -/
theorem comp {f : List β → List α} {g : List α → List γ} (hf : Chunkwise n f) (hg : Chunkwise m g)
    (hlength : ∀ s, s.length = n → (f s).length = m) : Chunkwise n fun s => g (f s) where
  nil := by rw [hf.nil, hg.nil]
  append {s rest} hs := by rw [hf.append hs, hg.append (hlength s hs)]

theorem map (h : Chunkwise n value) (f : α → γ) : Chunkwise n fun s => (value s).map f where
  nil := by rw [h.nil, List.map_nil]
  append {s rest} hs := by rw [h.append hs, List.map_append]

theorem flatMap (h : Chunkwise n value) (f : α → List γ) : Chunkwise n fun s => (value s).flatMap f where
  nil := by rw [h.nil, List.flatMap_nil]
  append {s rest} hs := by rw [h.append hs, List.flatMap_append]

protected theorem id : Chunkwise n (id : List β → List β) := ⟨rfl, fun _ => rfl⟩

theorem ext {value' : List β → List α} (h : Chunkwise n value) (h' : Chunkwise n value') (hsrc : src.length = n * q)
    (hchunk : ∀ s, s.length = n → value s = value' s) : value src = value' src := by
  have hrows : (rows n q src).map value = (rows n q src).map value' :=
    List.map_congr_left fun s hs => hchunk s (length_of_mem_rows hsrc hs)
  rw [← h.flatMap_rows (Nat.le_of_eq hsrc), ← h'.flatMap_rows (Nat.le_of_eq hsrc), List.flatMap_def, List.flatMap_def,
    hrows]

theorem rows_eq (h : Chunkwise n value) (hsrc : src.length = n * q) (hlength : ∀ s, s.length = n → (value s).length = m) :
    rows m q (value src) = (rows n q src).map value := by
  induction q generalizing src with
  | zero => rfl
  | succ q ih =>
    rw [Nat.mul_succ] at hsrc
    have hfirst : (src.take n).length = n := by rw [List.length_take]; omega
    have hvalue : value src = value (src.take n) ++ value (src.drop n) := by
      rw [← h.append hfirst, List.take_append_drop]
    have hrest : rows m q (value (src.drop n)) = (rows n q (src.drop n)).map value :=
      ih (by rw [List.length_drop]; omega)
    rw [rows, rows, List.map_cons, hvalue, ← hlength _ hfirst, List.take_left, List.drop_left, hlength _ hfirst, hrest]

end Chunkwise

end Chunks

/-! ## Rows made even -/

section Rows

variable {α β : Type}

/-- a row with its last element repeated once where that stands alone -/
def evenRow : List α → List α
  | a :: b :: rest => a :: b :: evenRow rest
  | [a] => [a, a]
  | [] => []

/-- an image with each of its rows made even -/
def padRows (w h : Nat) (pixels : List α) : List α := (rows w h pixels).flatMap evenRow

theorem length_evenRow (row : List α) : (evenRow row).length = evenWidth row.length := by
  fun_induction evenRow row with
  | case1 a b rest ih =>
    simp only [List.length_cons, ih, evenWidth]
    omega
  | case2 a => rfl
  | case3 => rfl

theorem evenRow_of_even {row : List α} (hrow : row.length % 2 = 0) : evenRow row = row := by
  fun_induction evenRow row with
  | case1 a b rest ih =>
    simp only [List.length_cons] at hrow
    rw [ih (by omega)]
  | case2 a => simp at hrow
  | case3 => rfl

/-- an odd row repeats its last element -/
theorem evenRow_of_odd {row : List α} (hrow : row.length % 2 = 1) : evenRow row = row ++ row.getLast?.toList := by
  fun_induction evenRow row with
  | case1 a b rest ih =>
    simp only [List.length_cons] at hrow
    have hrest : rest.length % 2 = 1 := by omega
    have hne : rest ≠ [] := by
      rintro rfl
      cases hrest
    rw [ih hrest, ← List.cons_append, ← List.cons_append, List.getLast?_cons_cons, List.getLast?_cons_of_ne_nil hne]
  | case2 a => rfl
  | case3 => cases hrow

theorem map_evenRow (f : α → β) (row : List α) : (evenRow row).map f = evenRow (row.map f) := by
  fun_induction evenRow row with
  | case1 a b rest ih => simp only [List.map_cons, evenRow, ih]
  | case2 a => rfl
  | case3 => rfl

theorem map_rows (f : α → β) (w h : Nat) (pixels : List α) :
    (rows w h pixels).map (List.map f) = rows w h (pixels.map f) := by
  induction h generalizing pixels with
  | zero => rfl
  | succ h ih => rw [rows, rows, List.map_cons, ih, List.map_take, List.map_drop]

theorem map_padRows (f : α → β) (w h : Nat) (pixels : List α) :
    (padRows w h pixels).map f = padRows w h (pixels.map f) := by
  simp only [padRows, List.map_flatMap, ← map_rows, List.flatMap_map, map_evenRow]

theorem length_padRows {w h : Nat} {pixels : List α} (hl : pixels.length = w * h) :
    (padRows w h pixels).length = evenWidth w * h := by
  have hrows : ∀ row ∈ rows w h pixels, (evenRow row).length = evenWidth w := by
    intro row hrow
    rw [length_evenRow, length_of_mem_rows hl hrow]
  rw [padRows, List.length_flatMap, List.map_congr_left hrows, List.map_const', List.sum_replicate_nat, length_rows,
    Nat.mul_comm]

theorem padRows_of_even {w h : Nat} (hw : w % 2 = 0) {pixels : List α} (hl : pixels.length = w * h) :
    padRows w h pixels = pixels := by
  have hrows : (rows w h pixels).map evenRow = (rows w h pixels).map id :=
    List.map_congr_left fun row hrow => evenRow_of_even (by rw [length_of_mem_rows hl hrow, hw])
  rw [padRows, List.flatMap_def, hrows, List.map_id, flatten_rows hl]

theorem padRows_of_odd {w h : Nat} (hw : w % 2 = 1) {pixels : List α} (hl : pixels.length = w * h) :
    padRows w h pixels = (rows w h pixels).flatMap fun row => row ++ row.getLast?.toList := by
  have hrows : (rows w h pixels).map evenRow = (rows w h pixels).map fun row => row ++ row.getLast?.toList :=
    List.map_congr_left fun row hrow => evenRow_of_odd (by rw [length_of_mem_rows hl hrow, hw])
  rw [padRows, List.flatMap_def, hrows, List.flatMap_def]

end Rows

/-! ## Reading -/

/-- the bytes that are read together -/
def Coding.groupBytes : Coding → Nat
  | mono8 | raw8 | mono16s | rgb16s => 1
  | mono16 | raw16 => 2
  | rgb8 | yuv444 => 3
  | yuv422 => 4
  | rgb16 | yuv411 => 6

theorem chunkwise_decode : Chunkwise 2 BigEndian.decode where
  nil := rfl
  append {s rest} hs := by
    match s, hs with
    | [hi, lo], _ => rfl

theorem chunkwise_narrow (c : Coding) (bits : Nat) : Chunkwise (c.sampleBits / 8) (narrow c bits) := by
  unfold narrow
  split
  · rename_i hwide
    rw [hwide]
    exact chunkwise_decode.map _
  · exact .id

namespace Pixel

theorem chunkwise_ofRgb : Chunkwise 3 ofRgb where
  nil := rfl
  append {s rest} hs := by
    match s, hs with
    | [r, g, b], _ => rfl

theorem chunkwise_ofYuv444 : Chunkwise 3 ofYuv444 where
  nil := rfl
  append {s rest} hs := by
    match s, hs with
    | [u, y, v], _ => rfl

theorem chunkwise_ofYuv422 (order : ByteOrder) : Chunkwise 4 (ofYuv422 order) where
  nil := rfl
  append {s rest} hs := by
    match s, hs with
    | [a, b, c, d], _ => rfl

theorem chunkwise_ofYuv411 : Chunkwise 6 ofYuv411 where
  nil := rfl
  append {s rest} hs := by
    match s, hs with
    | [u, y0, y1, v, y2, y3], _ => rfl

/-- **Every coding** is read group by group. -/
theorem chunkwise_unpack (c : Coding) (order : ByteOrder) (bits : Nat) :
    Chunkwise c.groupBytes (unpack c order bits) := by
  have hluma := (chunkwise_narrow c bits).map luma
  cases c with
  | mono8 | raw8 | mono16 | raw16 => exact hluma
  | rgb8 => exact chunkwise_ofRgb
  | rgb16 =>
    refine ((chunkwise_narrow .rgb16 bits).mul 3).comp chunkwise_ofRgb fun s hs => ?_
    rw [length_narrow rfl, hs]
    rfl
  | yuv444 => exact chunkwise_ofYuv444
  | yuv422 => exact chunkwise_ofYuv422 order
  | yuv411 => exact chunkwise_ofYuv411
  | mono16s | rgb16s => exact ⟨rfl, fun _ => rfl⟩

/-! ## Writing -/

theorem chunkwise_packRow (order : ByteOrder) : Chunkwise 2 (packRow order) where
  nil := rfl
  append {s rest} hs := by
    match s, hs with
    | [p, q], _ => simp only [List.cons_append, List.nil_append, packRow, List.append_nil]

theorem packRow_append (order : ByteOrder) {row : List (Yuv UInt8)} (hrow : row.length % 2 = 0)
    (rest : List (Yuv UInt8)) : packRow order (row ++ rest) = packRow order row ++ packRow order rest :=
  ((chunkwise_packRow order).mul (row.length / 2)).append (Nat.div_mul_cancel (Nat.dvd_of_mod_eq_zero hrow)).symm

theorem packRow_evenRow (order : ByteOrder) (row : List (Yuv UInt8)) :
    packRow order (evenRow row) = packRow order row := by
  fun_induction evenRow row with
  | case1 p q rest ih => rw [packRow, packRow, ih]
  | case2 p => rw [packRow, packRow, packRow, List.append_nil]
  | case3 => rfl

/-- **Rows are written like one long row** once each of them is even. -/
theorem packRows_eq_packRow (order : ByteOrder) (w h : Nat) (pixels : List Pixel) :
    packRows order w h pixels = packRow order ((padRows w h pixels).map toYuv) := by
  rw [packRows, padRows]
  induction rows w h pixels with
  | nil => rfl
  | cons row rest ih =>
    have heven : (evenRow (row.map toYuv)).length % 2 = 0 := by
      rw [length_evenRow]
      exact evenWidth_even _
    rw [List.flatMap_cons, List.flatMap_cons, List.map_append, map_evenRow, packRow_append order heven,
      packRow_evenRow, ih]

/-- even rows are written like one long row -/
theorem packRows_of_even (order : ByteOrder) {w h : Nat} (hw : w % 2 = 0) {pixels : List Pixel}
    (hl : pixels.length = w * h) : packRows order w h pixels = packRow order (pixels.map toYuv) := by
  rw [packRows_eq_packRow, padRows_of_even hw hl]

end Pixel

end Imaging
