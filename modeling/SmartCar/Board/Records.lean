import Mathlib.Tactic.IntervalCases
import SmartCar.Art.OpenArt
import SmartCar.Mcx.Vision

/-!
# The two links: the records in memory

`sscanf` is given the addresses of the fields, and stores four bytes at each. The handlers of the
two links are modelled on the fields (`artArgs`, `mcxArgs`); here this is compared with the bytes.

* `faceWords` and `reportWords`: where the fields of a record stand, padding left out;
* `storesAt_artArgs` and `storesAt_mcxArgs`: what an argument does to the fields is what four bytes
  stored at its address do;
* `image_store`: of all that the call stores, each byte of a field keeps what came last;
* `lies_store`: so a record that lies in memory goes on as the one of the model does.
-/

namespace SmartCar.Board

open Art Mcx Scanf
open Stores (Word byte byte_zero byte_emod byte_add lastByte storeEach storeEach_apply)

/-! ## Calls -/

/-- An argument of a call: the address, and the number whose four low bytes a conversion stores. -/
abbrev Target := ℕ × (Value → ℤ)

/-- The word that a conversion stores. -/
def Target.word (t : Target) (v : Value) : Word := ⟨t.1, 4, t.2 v⟩

/-- The words that a call stores for what it has found. -/
def storedWords (targets : List Target) (found : List Value) : List Word :=
  (targets.zip found).map fun (t, v) => t.word v

section Calls

variable {σ : Type*} {image : σ → ℕ → Option UInt8} {targets : List Target}
  {args : List (Value → σ → σ)}

/-- What the argument does to a record is what the word does to its bytes. -/
def StoresAt (image : σ → ℕ → Option UInt8) (t : Target) (arg : Value → σ → σ) : Prop :=
  ∀ v info k, image (arg v info) k = (image info k).map fun b => ((t.word v).byteAt k).getD b

/-- The record takes 16 bytes, and one looks at no more. -/
theorem storesAt_of_lt {t : Target} {arg : Value → σ → σ}
    (hbeyond : ∀ info k, 16 ≤ k → image info k = none)
    (h : ∀ v info, ∀ k < 16,
      image (arg v info) k = (image info k).map fun b => ((t.word v).byteAt k).getD b) :
    StoresAt image t arg := by
  intro v info k
  rcases lt_or_ge k 16 with hk | hk
  · exact h v info k hk
  · rw [hbeyond _ k hk, hbeyond _ k hk, Option.map_none]

/-- Each byte is the last one that the call stores there, or the one that it was. -/
theorem image_store (h : List.Forall₂ (StoresAt image) targets args) (found : List Value)
    (info : σ) (k : ℕ) :
    image (store args found info) k =
      (image info k).map fun b => (lastByte (storedWords targets found) k).getD b := by
  induction h generalizing found info with
  | nil => simp [store, storedWords]
  | @cons t arg targets args hstores _ ih =>
    cases found with
    | nil => simp [store, storedWords]
    | cons v found =>
      change image (store args found (arg v info)) k = _
      rw [ih, hstores, Option.map_map]
      refine congrArg (Option.map · (image info k)) (funext fun b => ?_)
      change (lastByte (storedWords targets found) k).getD _ =
        ((lastByte (storedWords targets found) k).or _).getD b
      cases lastByte (storedWords targets found) k <;> rfl

/-- The words leave each field as it is. -/
def Repeats (words : List Word) (bytes : ℕ → Option UInt8) : Prop :=
  ∀ k, ∀ b ∈ lastByte words k, ∀ b' ∈ bytes k, b = b'

/-- The call changes no byte if and only if each field holds what is last stored in it. -/
theorem image_store_eq_self_iff (h : List.Forall₂ (StoresAt image) targets args)
    (found : List Value) (info : σ) :
    image (store args found info) = image info ↔
      Repeats (storedWords targets found) (image info) := by
  rw [funext_iff]
  refine forall_congr' fun k => ?_
  rw [image_store h]
  cases image info k with
  | none => simp
  | some b' => cases lastByte (storedWords targets found) k <;> simp

/-- The record lies in memory. -/
def Lies (bytes : ℕ → Option UInt8) (m : ℕ → UInt8) : Prop := ∀ k, ∀ b ∈ bytes k, m k = b

/-- The words are stored in memory, and the record that lies there is the one of the model. -/
theorem lies_store (h : List.Forall₂ (StoresAt image) targets args) (found : List Value)
    {info : σ} {m : ℕ → UInt8} (hm : Lies (image info) m) :
    Lies (image (store args found info)) (storeEach m (storedWords targets found)) := by
  intro k b hb
  rw [image_store h, Option.mem_def, Option.map_eq_some_iff] at hb
  obtain ⟨old, hold, rfl⟩ := hb
  rw [storeEach_apply, hm k old hold]

end Calls

/-! ## Bytes of the fields -/

theorem ofInt_u8 (z : ℤ) : UInt8.ofInt z = byte z 0 := by
  rw [← byte_zero (UInt8.ofInt z), Stores.toNat_ofInt_u8, byte_emod z Nat.one_pos]

theorem byte_u16 (z : ℤ) {i : ℕ} (h : i < 2) : byte (UInt16.ofInt z).toNat i = byte z i := by
  rw [Stores.toNat_ofInt_u16, byte_emod z h]

theorem byte_u32 (z : ℤ) {i : ℕ} (h : i < 4) : byte (UInt32.ofInt z).toNat i = byte z i := by
  rw [Stores.toNat_ofInt_u32, byte_emod z h]

theorem byte_highHalf (z : ℤ) {i : ℕ} (h : i < 2) : byte (highHalf z).toNat i = byte z (2 + i) := by
  have hpow : (65536 : ℤ) = 256 ^ 2 := by norm_num
  rw [highHalf, byte_u16 _ h, byte_add, hpow]

/-! ## The record of the MCX link -/

/-- The fields of `cube_info`. -/
def reportWords (info : CubeReport) : List Word :=
  [⟨0, 1, info.state.toNat⟩, ⟨2, 2, info.xCenter.toNat⟩, ⟨4, 2, info.yCenter.toNat⟩,
   ⟨8, 4, info.pCount.toNat⟩, ⟨12, 2, info.xLength.toNat⟩]

def reportImage (info : CubeReport) : ℕ → Option UInt8 := lastByte (reportWords info)

/-- The addresses that are passed with `mcxFormat`. -/
def mcxTargets : List Target := [(0, intOf), (2, intOf), (4, intOf), (8, intOf), (12, intOf)]

theorem reportImage_beyond (info : CubeReport) (k : ℕ) (hk : 16 ≤ k) :
    reportImage info k = none := by
  have hall : ∀ x ∈ reportWords info, x.addr + x.width ≤ 16 := by simp [reportWords]
  exact Stores.lastByte_eq_none fun x hx => (hall x hx).trans hk

attribute [local simp] reportImage reportWords Word.byteAt Target.word byte_zero ofInt_u8
  byte_u16 byte_u32 byte_highHalf in
/-- The five arguments are the addresses. A store of four bytes reaches two bytes into `x_center`
from `state`, into `y_center` from `x_center`, and into padding from the other short fields. -/
theorem storesAt_mcxArgs : List.Forall₂ (StoresAt reportImage) mcxTargets mcxArgs := by
  refine .cons ?_ (.cons ?_ (.cons ?_ (.cons ?_ (.cons ?_ .nil))))
  all_goals
    refine storesAt_of_lt reportImage_beyond fun v info k hk => ?_
    interval_cases k <;> simp

/-- A payload that breaks off behind the x coordinate clears what was held of y. -/
example : store mcxArgs [.int 1, .int 160] ⟨1, 160, 77, 20000, 5⟩ = ⟨1, 160, 0, 20000, 5⟩ := by
  decide

attribute [local simp] reportImage reportWords Word.byteAt byte_zero in
/-- The bytes of the fields are the record. -/
theorem reportImage_inj {info info' : CubeReport} :
    reportImage info = reportImage info' ↔ info = info' := by
  refine ⟨fun h => ?_, congrArg reportImage⟩
  have hbyte : ∀ k, reportImage info k = reportImage info' k := congrFun h
  have hstate : info.state = info'.state := by simpa using hbyte 0
  have hx : info.xCenter = info'.xCenter := by
    refine Stores.u16_eq_of_bytes fun i hi => ?_
    interval_cases i
    · simpa using hbyte 2
    · simpa using hbyte 3
  have hy : info.yCenter = info'.yCenter := by
    refine Stores.u16_eq_of_bytes fun i hi => ?_
    interval_cases i
    · simpa using hbyte 4
    · simpa using hbyte 5
  have hp : info.pCount = info'.pCount := by
    refine Stores.u32_eq_of_bytes fun i hi => ?_
    interval_cases i
    · simpa using hbyte 8
    · simpa using hbyte 9
    · simpa using hbyte 10
    · simpa using hbyte 11
  have hl : info.xLength = info'.xLength := by
    refine Stores.u16_eq_of_bytes fun i hi => ?_
    interval_cases i
    · simpa using hbyte 12
    · simpa using hbyte 13
  cases info
  cases info'
  simp only at hstate hx hy hp hl
  rw [hstate, hx, hy, hp, hl]

/-! ## The record of the ART link -/

variable {single : Scanf.Real → UInt32}

/-- The fields of `current_cube_face_info`, if a number is converted to a `float` by `single`. -/
def faceWords (single : Scanf.Real → UInt32) (info : CubeFaceInfo) : List Word :=
  [⟨0, 1, info.valid.toNat⟩, ⟨1, 1, info.cls.toNat⟩, ⟨4, 4, (single info.classProb.value).toNat⟩] ++
  (info.classProb.low.map fun b => ⟨4, 1, b.toNat⟩).toList ++
  [⟨8, 1, info.number.toNat⟩, ⟨12, 4, (single info.numberProb).toNat⟩]

def faceImage (single : Scanf.Real → UInt32) (info : CubeFaceInfo) : ℕ → Option UInt8 :=
  lastByte (faceWords single info)

/-- The addresses that are passed with `artFormat`. -/
def artTargets (single : Scanf.Real → UInt32) : List Target :=
  [(1, intOf), (4, fun v => (single (realOf v)).toNat), (8, intOf),
   (12, fun v => (single (realOf v)).toNat)]

theorem faceImage_beyond (info : CubeFaceInfo) (k : ℕ) (hk : 16 ≤ k) :
    faceImage single info k = none := by
  have hall : ∀ x ∈ faceWords single info, x.addr + x.width ≤ 16 := by
    rcases info with ⟨valid, cls, ⟨value, _ | low⟩, number, numberProb⟩ <;> simp [faceWords]
  exact Stores.lastByte_eq_none fun x hx => (hall x hx).trans hk

attribute [local simp] faceImage faceWords Word.byteAt Target.word byte_zero ofInt_u8 in
/-- The four arguments are the addresses. A store of four bytes reaches one byte into
`class_prob` from `class`, and into padding from `number`. -/
theorem storesAt_artArgs :
    List.Forall₂ (StoresAt (faceImage single)) (artTargets single) artArgs := by
  refine .cons ?_ (.cons ?_ (.cons ?_ (.cons ?_ .nil)))
  all_goals
    refine storesAt_of_lt faceImage_beyond fun v info k hk => ?_
    rcases info with ⟨valid, cls, ⟨value, _ | low⟩, number, numberProb⟩ <;>
      interval_cases k <;> simp

end SmartCar.Board
