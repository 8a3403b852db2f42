import SmartCar.Board.Records
import SmartCar.Lib.Printf
import SmartCar.Mcx.Frames

/-!
# The two links: what a payload changes

Both handlers pass the fields of their record to `sscanf` and do not look at how many values
it has found. A payload that breaks off leaves a record that is half new, and the ART handler
calls it valid.

* `FaceWhole` and `ReportWhole`: a payload is stored whole, or changes nothing;
* `FaceOk` and `ReportOk`: it has all fields, with numbers that fit them, or repeats what the
  record holds;
* `payloads_whole_iff`: the one is the other, on both links.
-/

namespace SmartCar.Board

open Art Mcx Scanf Events
open Stores (byte)

/-! ## Law and condition -/

/-- The values that a payload holds if it is stored as `info`. -/
def faceValues (info : CubeFaceInfo) : List Value :=
  [.int info.cls.toNat, .real info.classProb.value, .int info.number.toNat, .real info.numberProb]

theorem length_faceValues (info : CubeFaceInfo) : (faceValues info).length = 4 := rfl

/-- The values that a payload holds if it is stored as `info`. -/
def reportValues (info : CubeReport) : List Value :=
  [.int info.state.toNat, .int info.xCenter.toNat, .int info.yCenter.toNat,
    .int info.pCount.toNat, .int info.xLength.toNat]

/-- What `sscanf` finds in the payload of the ART link. -/
def foundFace (s : Art.State) : List Value := scan artFormat (parsedText s)

/-- What `sscanf` finds in the payload of the MCX link. -/
def foundReport (s : Receiver) : List Value :=
  scan mcxFormat (cString (parsedBuffer s).toList)

/-- The handler finds the four fields and stores them, or changes no byte of the record. -/
def FaceWhole (single : Scanf.Real → UInt32) (s : Art.State) : Prop :=
  let info := (artCubeDataHandlePitCall s).currentCubeFaceInfo
  (foundFace s = faceValues info ∧ info.classProb.low = none ∧ info.valid = true) ∨
    faceImage single info = faceImage single s.currentCubeFaceInfo

/-- The handler finds the five fields and stores them, or changes nothing. -/
def ReportWhole (s : Receiver) (now now' : UInt32) : Prop :=
  let info := (mcxCubeDataHandlePitCall s now now').cubeInfo
  foundReport s = reportValues info ∨ info = s.cubeInfo

instance (s : Receiver) (now now' : UInt32) : Decidable (ReportWhole s now now') :=
  inferInstanceAs (Decidable (_ ∨ _))

/-- The handler parses a payload. -/
def ParsesFace (s : Art.State) : Prop :=
  s.artInitFlag = true ∧ s.artDataRecvFinishFlag = true

/-- The payload has all four fields, with numbers that fit theirs; or the record is valid, and
the four bytes that are stored for each number found repeat what the fields there hold. -/
def FaceOk (single : Scanf.Real → UInt32) (s : Art.State) : Prop :=
  (∃ info, foundFace s = faceValues info) ∨
    (s.currentCubeFaceInfo.valid = true ∧
      Repeats (storedWords (artTargets single) (foundFace s))
        (faceImage single s.currentCubeFaceInfo))

/-- The payload has all five fields, with numbers that fit theirs; or the four bytes that are
stored for each number found repeat what the fields there hold. -/
def ReportOk (s : Receiver) : Prop :=
  (∃ info, foundReport s = reportValues info) ∨
    Repeats (storedWords mcxTargets (foundReport s)) (reportImage s.cubeInfo)

/-! ## The fields -/

/-- A number that fits its field is read back from it. -/
@[simp] theorem u8_ofInt_toNat (x : UInt8) : UInt8.ofInt x.toNat = x := by
  apply UInt8.toNat.inj
  have hx := x.toNat_lt
  rw [UInt8.ofInt, UInt8.toNat_ofNat']
  omega

@[simp] theorem u16_ofInt_toNat (x : UInt16) : UInt16.ofInt x.toNat = x := by
  apply UInt16.toNat.inj
  have hx := x.toNat_lt
  rw [UInt16.ofInt, UInt16.toNat_ofNat']
  omega

@[simp] theorem u32_ofInt_toNat (x : UInt32) : UInt32.ofInt x.toNat = x := by
  apply UInt32.toNat.inj
  have hx := x.toNat_lt
  rw [UInt32.ofInt, UInt32.toNat_ofNat']
  omega

/-- The record, said to be valid. -/
def marked (info : CubeFaceInfo) : CubeFaceInfo := { info with valid := true }

theorem marked_of_valid {info : CubeFaceInfo} (h : info.valid = true) : marked info = info := by
  rw [marked, ← h]

/-- `valid` is not a field of the payload. -/
theorem valid_store (found : List Value) (info : CubeFaceInfo) :
    (store artArgs found info).valid = info.valid := by
  refine store_keeps (p := fun info' : CubeFaceInfo => info'.valid = info.valid) ?_ found rfl
  simp [artArgs]

theorem store_faceValues (info info' : CubeFaceInfo) :
    store artArgs (faceValues info) info' =
      { info with classProb := ⟨info.classProb.value, none⟩, valid := info'.valid } := by
  simp [store, artArgs, faceValues, intOf, realOf]

theorem store_reportValues (info info' : CubeReport) :
    store mcxArgs (reportValues info) info' = info := by
  simp [store, mcxArgs, reportValues, intOf]

variable {single : Scanf.Real → UInt32}

/-- The byte of `valid` is seen in memory. -/
theorem valid_eq_of_faceImage {info info' : CubeFaceInfo}
    (h : faceImage single info = faceImage single info') : info.valid = info'.valid := by
  have hzero : ∀ info : CubeFaceInfo, faceImage single info 0 = some (byte info.valid.toNat 0) := by
    rintro ⟨valid, cls, ⟨value, _ | low⟩, number, numberProb⟩ <;>
      simp [faceImage, faceWords, Stores.Word.byteAt]
  have hbyte := congrFun h 0
  rw [hzero, hzero, Option.some_inj] at hbyte
  revert hbyte
  cases info.valid <;> cases info'.valid <;> decide

/-! ## The handlers -/

theorem face_of_parses {s : Art.State} (h : ParsesFace s) :
    (artCubeDataHandlePitCall s).currentCubeFaceInfo =
      marked (store artArgs (foundFace s) s.currentCubeFaceInfo) := by
  simp [artCubeDataHandlePitCall, h.1, h.2, foundFace, marked]

theorem face_of_not_parses {s : Art.State} (h : ¬ ParsesFace s) :
    (artCubeDataHandlePitCall s).currentCubeFaceInfo = s.currentCubeFaceInfo := by
  rw [artCubeDataHandlePitCall, if_pos]
  simpa [ParsesFace, or_iff_not_imp_left] using h

/-- No byte is changed if and only if the record was valid, and the payload repeats it. -/
theorem face_same_iff {s : Art.State} (h : ParsesFace s) :
    faceImage single (artCubeDataHandlePitCall s).currentCubeFaceInfo =
        faceImage single s.currentCubeFaceInfo ↔
      s.currentCubeFaceInfo.valid = true ∧
        Repeats (storedWords (artTargets single) (foundFace s))
          (faceImage single s.currentCubeFaceInfo) := by
  rw [face_of_parses h, ← image_store_eq_self_iff storesAt_artArgs]
  have hkept := valid_store (foundFace s) s.currentCubeFaceInfo
  constructor
  · intro hsame
    have hvalid : s.currentCubeFaceInfo.valid = true := (valid_eq_of_faceImage hsame).symm
    rw [marked_of_valid (hkept.trans hvalid)] at hsame
    exact ⟨hvalid, hsame⟩
  · rintro ⟨hvalid, hsame⟩
    rw [marked_of_valid (hkept.trans hvalid)]
    exact hsame

/-- The four fields are stored as they are if and only if there are four that fit. -/
theorem face_stored_iff {s : Art.State} (h : ParsesFace s) :
    let info := (artCubeDataHandlePitCall s).currentCubeFaceInfo
    (foundFace s = faceValues info ∧ info.classProb.low = none ∧ info.valid = true) ↔
      ∃ info', foundFace s = faceValues info' := by
  intro info
  constructor
  · rintro ⟨hfound, -⟩
    exact ⟨info, hfound⟩
  · rintro ⟨info', hfound⟩
    have hinfo : info = marked { info' with classProb := ⟨info'.classProb.value, none⟩ } := by
      rw [show info = _ from face_of_parses h, hfound, store_faceValues]
      rfl
    rw [hinfo]
    exact ⟨hfound, rfl, rfl⟩

theorem faceWhole_iff (single : Scanf.Real → UInt32) (s : Art.State) :
    FaceWhole single s ↔ (ParsesFace s → FaceOk single s) := by
  by_cases h : ParsesFace s
  · have hiff : FaceWhole single s ↔ FaceOk single s :=
      or_congr (face_stored_iff h) (face_same_iff h)
    simp [hiff, h]
  · simp [FaceWhole, face_of_not_parses h, h]

theorem report_of_parses {s : Receiver} (h : Parses s) (now now' : UInt32) :
    (mcxCubeDataHandlePitCall s now now').cubeInfo =
      store mcxArgs (foundReport s) s.cubeInfo := by
  have hused := h.used
  have hlength := h.length
  simp only [mcxDataLengthMax] at hused hlength
  simp [mcxCubeDataHandlePitCall, h.init, h.finish, hused, hlength, foundReport]

theorem report_of_not_parses {s : Receiver} (h : ¬ Parses s) (now now' : UInt32) :
    (mcxCubeDataHandlePitCall s now now').cubeInfo = s.cubeInfo := by
  unfold mcxCubeDataHandlePitCall
  split_ifs with hflags hused
  · rfl
  · rfl
  · -- a buffer of another length is dropped
    have hlength : ¬ (fifoReadBuffer s.mcxUartFifo s.mcxDataLength).1 = 36 := by
      intro hlength
      simp only [not_or, not_not] at hflags
      exact h ⟨hflags.1, hflags.2, not_not.mp hused, hlength⟩
    simp [hlength]

theorem reportWhole_iff (s : Receiver) (now now' : UInt32) :
    ReportWhole s now now' ↔ (Parses s → ReportOk s) := by
  by_cases h : Parses s
  · have hsame := image_store_eq_self_iff storesAt_mcxArgs (foundReport s) s.cubeInfo
    rw [reportImage_inj] at hsame
    -- if some record has these values, the stored one does
    have hstored : foundReport s = reportValues (store mcxArgs (foundReport s) s.cubeInfo) ↔
        ∃ info, foundReport s = reportValues info := by
      constructor
      · exact fun hfound => ⟨_, hfound⟩
      · rintro ⟨info, hfound⟩
        rw [hfound, store_reportValues]
    have hiff : ReportWhole s now now' ↔ ReportOk s := by
      simp only [ReportWhole, report_of_parses h, ReportOk]
      exact or_congr hstored hsame
    simp [hiff, h]
  · simp [ReportWhole, report_of_not_parses h, h]

/-! ## The law -/

/-- On both links a payload that is parsed is stored whole, or changes nothing, if and only if
it has all fields, with numbers that fit them, or its stores repeat the record. -/
theorem payloads_whole_iff (single : Scanf.Real → UInt32) (art : Art.State) (mcx : Receiver)
    (now now' : UInt32) :
    (FaceWhole single art ↔ (ParsesFace art → FaceOk single art)) ∧
      (ReportWhole mcx now now' ↔ (Parses mcx → ReportOk mcx)) :=
  ⟨faceWhole_iff single art, reportWhole_iff mcx now now'⟩

/-! ## Payloads that break off -/

/-- The ART receiver after a frame that breaks off in the first field. -/
def brokenFace : Art.State :=
  run Art.step Art.start ((Printf.ascii "[o:07;p:0.90]").map .byte)

/-- The MCX receiver after a frame whose third field is garbled. -/
def brokenReport : Receiver :=
  run Mcx.step Mcx.start ((mcxBufferHead :: Printf.ascii "s:1,xf: 160,y?: 120,p: 20000,l:  30
" ++
    [mcxBufferTail]).map .byte)

/-- The class alone is stored, and called valid; the state and the x coordinate alone are. -/
theorem broken_payloads :
    (∀ single, ¬ FaceWhole single brokenFace) ∧ ¬ ReportWhole brokenReport 0 0 := by
  refine ⟨fun single hwhole => ?_, by decide +kernel⟩
  rcases hwhole with ⟨hfound, -⟩ | hsame
  · -- one value has been found
    have hlength : (foundFace brokenFace).length = 1 := by decide +kernel
    rw [hfound, length_faceValues] at hlength
    exact absurd hlength (by decide)
  · have hvalid := valid_eq_of_faceImage hsame
    revert hvalid
    decide +kernel

end SmartCar.Board
