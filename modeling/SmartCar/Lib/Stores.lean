import Mathlib.Data.List.Induction
import Mathlib.Data.List.Range
import Mathlib.Tactic.Ring

/-!
# Words stored over one another

A loop may store a word of `w` bytes at each byte of an array, in order. Each store overwrites
what the one before has left behind its first byte.

* `storeAll_bytes`: if the words are bytes, the array holds them in the end, and `w - 1` bytes
  after it are cleared;
* `foldl_range_mul`: two nested loops over an array of rows are one loop.

Words of several widths may also overlap as the fields of a record do. `lastByte` is what the last
word that reaches an address leaves there, and `storeEach_apply` says that nothing else matters.
-/

namespace Stores

/-- Byte `i` of a word, the lowest first. -/
def byte (z : ℤ) (i : ℕ) : UInt8 := .ofNat (z / 256 ^ i % 256).toNat

/-- A word of `w` bytes is stored at `a`. -/
def store (w : ℕ) (m : ℕ → UInt8) (a : ℕ) (z : ℤ) (k : ℕ) : UInt8 :=
  if a ≤ k ∧ k < a + w then byte z (k - a) else m k

/-- The words are stored from address 0 on. -/
def storeAll (w : ℕ) (m : ℕ → UInt8) (zs : List ℤ) : ℕ → UInt8 :=
  zs.zipIdx.foldl (fun m (z, a) => store w m a z) m

/-- The last word is stored after the others. -/
theorem storeAll_concat (w : ℕ) (m : ℕ → UInt8) (zs : List ℤ) (z : ℤ) :
    storeAll w m (zs ++ [z]) = store w (storeAll w m zs) zs.length z := by
  simp [storeAll, List.zipIdx_append]

/-- A byte that is stored as a word comes first, -/
theorem byte_zero (b : UInt8) : byte b.toNat 0 = b := by
  have hb := b.toNat_lt
  have hsame : ((b.toNat : ℤ) / 256 ^ 0 % 256).toNat = b.toNat := by
    rw [pow_zero, Int.ediv_one]
    omega
  rw [byte, hsame, UInt8.ofNat_toNat]

/-- and zeros come after it. -/
theorem byte_succ (b : UInt8) (i : ℕ) : byte b.toNat (i + 1) = 0 := by
  have hb := b.toNat_lt
  have hpow : 256 ≤ 256 ^ (i + 1) := Nat.le_self_pow i.succ_ne_zero 256
  have hzero : (b.toNat : ℤ) / 256 ^ (i + 1) = 0 := by
    exact_mod_cast Nat.div_eq_of_lt (hb.trans_le hpow)
  rw [byte, hzero]
  rfl

/-- The array holds the bytes; behind it stand the zeros of the last word. -/
theorem storeAll_bytes (w : ℕ) (m : ℕ → UInt8) (bs : List UInt8) (k : ℕ) :
    storeAll (w + 1) m (bs.map fun b => b.toNat) k =
      if h : k < bs.length then bs[k]
      else if bs ≠ [] ∧ k < bs.length + w then 0 else m k := by
  induction bs using List.reverseRecOn with
  | nil => simp [storeAll]
  | append_singleton bs b ih =>
    rw [List.map_append, List.map_singleton, storeAll_concat, store, List.length_map, ih]
    have hlength : (bs ++ [b]).length = bs.length + 1 := by simp
    rcases lt_trichotomy k bs.length with hbefore | rfl | hafter
    · rw [if_neg (by omega), dif_pos hbefore, dif_pos (by omega), List.getElem_append_left hbefore]
    · rw [if_pos (by omega), dif_pos (by omega), Nat.sub_self, byte_zero]
      simp
    · -- behind the new word's first byte
      rw [dif_neg (by omega), dif_neg (by omega), hlength]
      by_cases hword : k < bs.length + (w + 1)
      · obtain ⟨i, hi⟩ : ∃ i, k - bs.length = i + 1 := ⟨k - bs.length - 1, by omega⟩
        rw [if_pos ⟨hafter.le, hword⟩, if_pos ⟨by simp, by omega⟩, hi, byte_succ]
      · rw [if_neg fun h => hword h.2, if_neg fun h => by omega, if_neg fun h => by omega]

/-- Rows one after the other are one long row. -/
theorem foldl_range_mul {σ : Type*} (f : ℕ → σ → σ) (m n : ℕ) (s : σ) :
    (List.range m).foldl (fun s i => (List.range n).foldl (fun s j => f (i * n + j) s) s) s =
      (List.range (m * n)).foldl (fun s k => f k s) s := by
  induction m with
  | zero => simp
  | succ m ih =>
    rw [List.range_succ, List.foldl_append, ih, Nat.succ_mul, List.range_add, List.foldl_append,
      List.foldl_map]
    rfl

/-! ## Words of several widths -/

/-- A word in memory: where it begins, how many bytes it has, and the number in them. -/
structure Word where
  addr : ℕ
  width : ℕ
  value : ℤ

/-- The byte that the word has at an address, if it reaches there. -/
def Word.byteAt (x : Word) (k : ℕ) : Option UInt8 :=
  if x.addr ≤ k ∧ k < x.addr + x.width then some (byte x.value (k - x.addr)) else none

/-- The words are stored one after the other. -/
def storeEach (m : ℕ → UInt8) (ws : List Word) : ℕ → UInt8 :=
  ws.foldl (fun m x => store x.width m x.addr x.value) m

/-- The byte that the words leave at an address; `none`: no word reaches there. -/
def lastByte : List Word → ℕ → Option UInt8
  | [], _ => none
  | x :: ws, k => (lastByte ws k).or (x.byteAt k)

@[simp] theorem lastByte_nil (k : ℕ) : lastByte [] k = none := rfl

@[simp] theorem lastByte_cons (x : Word) (ws : List Word) (k : ℕ) :
    lastByte (x :: ws) k = (lastByte ws k).or (x.byteAt k) := rfl

/-- No word reaches there. -/
theorem lastByte_eq_none {ws : List Word} {k : ℕ} (h : ∀ x ∈ ws, x.addr + x.width ≤ k) :
    lastByte ws k = none := by
  induction ws with
  | nil => rfl
  | cons x ws ih =>
    have hx := h x List.mem_cons_self
    rw [lastByte_cons, ih fun y hy => h y (List.mem_cons_of_mem x hy), Option.none_or,
      Word.byteAt, if_neg (by omega)]

/-- A word is seen where it reaches, and nowhere else. -/
theorem store_apply (m : ℕ → UInt8) (x : Word) (k : ℕ) :
    store x.width m x.addr x.value k = (x.byteAt k).getD (m k) := by
  unfold store Word.byteAt
  split_ifs <;> rfl

/-- Only the last word that reaches an address is seen there. -/
theorem storeEach_apply (m : ℕ → UInt8) (ws : List Word) (k : ℕ) :
    storeEach m ws k = (lastByte ws k).getD (m k) := by
  induction ws generalizing m with
  | nil => rfl
  | cons x ws ih =>
    change storeEach (store x.width m x.addr x.value) ws k = _
    rw [ih, store_apply, lastByte_cons]
    cases lastByte ws k <;> rfl

/-- The low bytes of a number are those of what is left of it in fewer bytes. -/
theorem byte_emod (z : ℤ) {i n : ℕ} (h : i < n) : byte (z % 256 ^ n) i = byte z i := by
  obtain ⟨j, rfl⟩ := Nat.exists_eq_add_of_lt h
  have hsplit : z % 256 ^ (i + j + 1) =
      z - 256 ^ i * (256 * (256 ^ j * (z / 256 ^ (i + j + 1)))) := by
    rw [Int.emod_def]
    ring
  have hdiv : z % 256 ^ (i + j + 1) / 256 ^ i =
      z / 256 ^ i - 256 * (256 ^ j * (z / 256 ^ (i + j + 1))) := by
    rw [hsplit, Int.sub_mul_ediv_left _ _ (pow_ne_zero i (by decide))]
  rw [byte, byte, hdiv, Int.sub_mul_emod_self_left]

/-- The bytes above the first `n` are those of the quotient. -/
theorem byte_add (z : ℤ) (n i : ℕ) : byte z (n + i) = byte (z / 256 ^ n) i := by
  rw [byte, byte, pow_add, Int.ediv_ediv_of_nonneg (Int.pow_nonneg (by decide))]

/-- A number is known from its bytes. -/
theorem eq_of_bytes {x y n : ℕ} (hx : x < 256 ^ n) (hy : y < 256 ^ n)
    (h : ∀ i < n, byte x i = byte y i) : x = y := by
  induction n generalizing x y with
  | zero =>
    rw [pow_zero] at hx hy
    omega
  | succ n ih =>
    have hlow : x % 256 = y % 256 := by
      have hbyte := congrArg UInt8.toNat (h 0 n.succ_pos)
      rw [byte, byte, pow_zero, Int.ediv_one, Int.ediv_one, UInt8.toNat_ofNat',
        UInt8.toNat_ofNat'] at hbyte
      omega
    have hhigh : x / 256 = y / 256 := by
      rw [pow_succ] at hx hy
      refine ih (Nat.div_lt_of_lt_mul (by omega)) (Nat.div_lt_of_lt_mul (by omega)) fun i hi => ?_
      have hbyte := h (i + 1) (Nat.succ_lt_succ hi)
      rw [Nat.add_comm i 1, byte_add, byte_add, pow_one] at hbyte
      exact_mod_cast hbyte
    rw [← Nat.div_add_mod x 256, ← Nat.div_add_mod y 256, hlow, hhigh]

/-! ### The words of the fixed-width types -/

/-- What a field of one byte keeps of a number, -/
theorem toNat_ofInt_u8 (z : ℤ) : ((UInt8.ofInt z).toNat : ℤ) = z % 256 ^ 1 := by
  rw [UInt8.ofInt, UInt8.toNat_ofNat']
  omega

/-- one of two, -/
theorem toNat_ofInt_u16 (z : ℤ) : ((UInt16.ofInt z).toNat : ℤ) = z % 256 ^ 2 := by
  rw [UInt16.ofInt, UInt16.toNat_ofNat']
  omega

/-- and one of four. -/
theorem toNat_ofInt_u32 (z : ℤ) : ((UInt32.ofInt z).toNat : ℤ) = z % 256 ^ 4 := by
  rw [UInt32.ofInt, UInt32.toNat_ofNat']
  omega

theorem u16_eq_of_bytes {x y : UInt16} (h : ∀ i < 2, byte x.toNat i = byte y.toNat i) : x = y :=
  UInt16.toNat.inj (eq_of_bytes (n := 2) x.toNat_lt y.toNat_lt h)

theorem u32_eq_of_bytes {x y : UInt32} (h : ∀ i < 4, byte x.toNat i = byte y.toNat i) : x = y :=
  UInt32.toNat.inj (eq_of_bytes (n := 4) x.toNat_lt y.toNat_lt h)

end Stores
