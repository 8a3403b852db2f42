import SmartCar.Lib.Numerals
import SmartCar.Lib.Stores

/-!
# image-to-array and image_test: the data file of a frame

`index.ts` writes the red channel of a picture as numbers with a blank between them, and
`image_test` reads them back with `%d`, which stores an `int` at the address of each pixel, over
the three pixels after it. `data_file_round_trip`: the image is the picture all the same, but the
last pixels clear three bytes behind it.
-/

namespace SmartCar.Test

open Printf Scanf Stores

/-! ## The code -/

/-- `HEIGHT` and `H` -/
def height : ℕ := 120

/-- `REAL_WIDTH` and `W` -/
def realWidth : ℕ := 188

/-- `array`: the first of the four channels of each pixel. -/
def array (imageData : ℕ → UInt8) : List UInt8 :=
  (List.range (realWidth * height)).map fun i => imageData (i * 4)

/-- `join(' ')` -/
def join (vs : List UInt8) : List UInt8 := [32].intercalate (vs.map fun v => decimal v.toNat)

def dataFile (imageData : ℕ → UInt8) : List UInt8 := join (array imageData)

/-- `fscanf` with `%d`: the number, if there is one, and what is left of the file. -/
def fscanfInt (file : List UInt8) : Option ℤ × List UInt8 :=
  let file := file.dropWhile isSpace
  match integer file with
  | some (z, file) => (some z, file)
  -- a sign alone is taken off the file
  | none => (none, (sign file).2)

/-- `fscanf(fp_data, "%d", &image[i][j])`, `k` being the place of the pixel in the image. -/
def readPixel (k : ℕ) (s : List UInt8 × (ℕ → UInt8)) : List UInt8 × (ℕ → UInt8) :=
  match fscanfInt s.1 with
  | (some z, file) => (file, Stores.store 4 s.2 k z)
  | (none, file) => (file, s.2)

/-- The loops over the rows and columns, on the memory from the image on. -/
def readImage (file : List UInt8) (mem : ℕ → UInt8) : ℕ → UInt8 :=
  ((List.range height).foldl (fun s i =>
    (List.range realWidth).foldl (fun s j => readPixel (i * realWidth + j) s) s) (file, mem)).2

/-! ## Numbers with blanks between them -/

variable {file : List UInt8} {mem : ℕ → UInt8} {v : UInt8} {vs ws : List UInt8}

theorem join_cons (v : UInt8) (vs : List UInt8) :
    join (v :: vs) = decimal v.toNat ++ if vs = [] then [] else 32 :: join vs := by
  cases vs with
  | nil => simp [join]
  | cons w ws => simp [join, List.intercalate_cons_cons]

/-- The text begins with a digit, if it is not empty. -/
theorem dropWhile_join (vs : List UInt8) : (join vs).dropWhile isSpace = join vs := by
  cases vs with
  | nil => rfl
  | cons v vs =>
    rw [join_cons]
    exact (skip_digits (isDigits_decimal _) (decimal_ne_nil _) _).1

/-- The first of the numbers is read, and the others are left. -/
theorem fscanfInt_join (h : file.dropWhile isSpace = join (v :: vs)) :
    ∃ rest, fscanfInt file = (some (v.toNat : ℤ), rest) ∧ rest.dropWhile isSpace = join vs := by
  have hstop : Stop (if vs = [] then [] else 32 :: join vs) := by
    split_ifs
    · decide
    · intro c hc
      rw [← Option.mem_some_iff.mp hc]
      decide
  refine ⟨if vs = [] then [] else 32 :: join vs, ?_, ?_⟩
  · simp only [fscanfInt, h, join_cons]
    rw [integer_digits (isDigits_decimal _) (decimal_ne_nil _) hstop, number_decimal]
  · split_ifs with hvs
    · rw [hvs]
      rfl
    · rw [List.dropWhile_cons_of_pos (by decide), dropWhile_join]

/-- As many pixels as there are numbers. -/
theorem foldl_readPixel (h : file.dropWhile isSpace = join (vs ++ ws)) :
    ((List.range vs.length).foldl (fun s k => readPixel k s) (file, mem)).1.dropWhile isSpace =
        join ws ∧
      ((List.range vs.length).foldl (fun s k => readPixel k s) (file, mem)).2 =
        storeAll 4 mem (vs.map fun v => v.toNat) := by
  induction vs using List.reverseRecOn generalizing ws with
  | nil => exact ⟨h, rfl⟩
  | append_singleton vs v ih =>
    have hjoin : file.dropWhile isSpace = join (vs ++ v :: ws) := by
      rw [h, List.append_assoc, List.singleton_append]
    obtain ⟨hfile, hmem⟩ := ih hjoin
    rw [List.length_append, List.length_singleton, List.range_succ, List.foldl_append,
      List.map_append, List.map_singleton, storeAll_concat, List.length_map, ← hmem]
    generalize (List.range vs.length).foldl (fun s k => readPixel k s) (file, mem) = s at hfile
    obtain ⟨rest, hread, hrest⟩ := fscanfInt_join hfile
    have hnext : readPixel vs.length s = (rest, Stores.store 4 s.2 vs.length v.toNat) := by
      rw [readPixel, hread]
    rw [List.foldl_cons, List.foldl_nil, hnext]
    exact ⟨hrest, rfl⟩

theorem readImage_join (hlength : vs.length = realWidth * height) (mem : ℕ → UInt8) :
    readImage (join vs) mem = storeAll 4 mem (vs.map fun v => v.toNat) := by
  have hsize : height * realWidth = vs.length := by rw [hlength, mul_comm]
  have hfile : (join vs).dropWhile isSpace = join (vs ++ []) := by
    rw [List.append_nil]
    exact dropWhile_join vs
  rw [readImage, foldl_range_mul readPixel, hsize]
  exact (foldl_readPixel hfile).2

/-! ## The law -/

theorem length_array (imageData : ℕ → UInt8) :
    (array imageData).length = realWidth * height := by
  rw [array, List.length_map, List.length_range]

/-- What is written is read, whatever the memory has held; the three bytes behind the image are
cleared, and nothing else is changed. -/
theorem data_file_round_trip (imageData mem : ℕ → UInt8) (k : ℕ) :
    readImage (dataFile imageData) mem k =
      if k < realWidth * height then imageData (k * 4)
      else if k < realWidth * height + 3 then 0 else mem k := by
  have hlength := length_array imageData
  have hentry : ∀ h : k < (array imageData).length, (array imageData)[k] = imageData (k * 4) := by
    intro h
    simp only [array, List.getElem_map, List.getElem_range]
  rw [dataFile, readImage_join hlength]
  generalize array imageData = vs at hlength hentry
  have hne : vs ≠ [] := by
    rintro rfl
    simp [realWidth, height] at hlength
  rw [storeAll_bytes 3, ← hlength]
  by_cases hk : k < vs.length
  · rw [dif_pos hk, if_pos hk, hentry hk]
  · rw [dif_neg hk, if_neg hk]
    by_cases hbehind : k < vs.length + 3
    · rw [if_pos ⟨hne, hbehind⟩, if_pos hbehind]
    · rw [if_neg fun h => hbehind h.2, if_neg hbehind]

end SmartCar.Test
