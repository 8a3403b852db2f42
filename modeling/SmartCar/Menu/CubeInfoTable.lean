import SmartCar.Board.Rt1064

/-!
# menu: the table of the cubes

`cube_info_table_refresh` prints a row for each cube of `cube_info_list`, and looks up the name
of its class without a check. The class is a number that `%u` has read from a frame, and goes
into the list as it is.

* `NamesInTable`: the table would be printed with names of `cube_picture_class_name` only;
* `names_in_table_iff`: this holds in every state of a run if and only if each cube that is
  listed has a class.
-/

namespace SmartCar.Menu

open Board Events
open Art (CubeFaceInfo CubeFaceInfoClass)

/-! ## The table -/

/-- `cube_picture_class_name` -/
def cubePictureClassName : List String :=
  ["电钻", "头戴式耳机", "键盘", "卷尺", "手机", "显示器", "鼠标", "万用表", "数字", "示波器", "钳子",
    "打印机", "螺丝刀", "电烙铁", "音响", "扳手"]

/-- What is printed in a cell: a blank, a number, or the name that stands at an index of
`cube_picture_class_name`. -/
inductive Text
  | blank
  | number (n : ℕ)
  | className (index : UInt8)
deriving DecidableEq

/-- A call of `ips200pro_table_cell_printf`, by row and column. -/
structure Cell where
  row : ℕ
  column : ℕ
  text : Text
deriving DecidableEq

/-- The cells of entry `i` of the list. -/
def rowCells (i : ℕ) (info : CubeFaceInfo) : List Cell :=
  if info.valid = false then [⟨i + 1, 1, .blank⟩, ⟨i + 1, 2, .blank⟩]
  else
    [⟨i + 1, 1, .number (i + 1)⟩,
      ⟨i + 1, 2, if info.cls = CubeFaceInfoClass.number.val then .number info.number.toNat
        else .className info.cls⟩]

/-- `cube_info_table_refresh`: what it prints. -/
def cubeInfoTableRefresh (cubeInfoTableId : UInt16) (list : Queue CubeFaceInfo 13) : List Cell :=
  if cubeInfoTableId = 0 then []
  else list.items.zipIdx.flatMap fun (info, i) => rowCells i info

/-! ## Law and condition -/

/-- Every name that `cube_info_table_refresh` looks up in this state is in the table. -/
def NamesInTable (cubeInfoTableId : UInt16) (s : Rt1064) : Prop :=
  ∀ cell ∈ cubeInfoTableRefresh cubeInfoTableId s.modes.cubeInfoList, ∀ index,
    cell.text = .className index → index.toNat < cubePictureClassName.length

/-- A cube that is listed has one of the 16 classes. -/
def Classed (_ : List Event) (s : Rt1064) : Event → Prop
  | .call v => Motion.Adds (s.modes, s.readings v) → s.modes.cubeInfoList.used < 13 →
      s.art.currentCubeFaceInfo.cls < 16
  | _ => True

/-! ## What the list holds -/

/-- Every entry is valid, as `cube_info_add` makes it. -/
def Listed (s : Rt1064) : Prop := ∀ info ∈ s.modes.cubeInfoList.items, info.valid = true

/-- Every entry has a class. -/
def ClassesKnown (s : Rt1064) : Prop := ∀ info ∈ s.modes.cubeInfoList.items, info.cls < 16

/-- What `rowCells` looks up for an entry that is valid. -/
theorem lookup_rowCells {info : CubeFaceInfo} (hvalid : info.valid = true) (i : ℕ)
    (index : UInt8) : (∃ cell ∈ rowCells i info, cell.text = .className index) ↔
      info.cls ≠ CubeFaceInfoClass.number.val ∧ index = info.cls := by
  by_cases hcls : info.cls = CubeFaceInfoClass.number.val
  · simp [rowCells, hvalid, hcls]
  · simp [rowCells, hvalid, hcls, eq_comm]

theorem namesInTable_iff {cubeInfoTableId : UInt16} (hid : cubeInfoTableId ≠ 0) {s : Rt1064}
    (h : Listed s) : NamesInTable cubeInfoTableId s ↔ ClassesKnown s := by
  have hlength : cubePictureClassName.length = 16 := rfl
  simp only [NamesInTable, cubeInfoTableRefresh, if_neg hid, hlength]
  constructor
  · intro hnames info hinfo
    by_cases hcls : info.cls = CubeFaceInfoClass.number.val
    · -- no name is looked up for a number
      rw [hcls]
      decide
    · obtain ⟨i, hi⟩ := List.mem_iff_getElem?.mp hinfo
      obtain ⟨cell, hcell, htext⟩ := (lookup_rowCells (h info hinfo) i info.cls).mpr ⟨hcls, rfl⟩
      refine UInt8.lt_iff_toNat_lt.mpr (hnames cell ?_ info.cls htext)
      exact List.mem_flatMap.mpr ⟨(info, i), List.mem_zipIdx_iff_getElem?.mpr hi, hcell⟩
  · intro hknown cell hcell index htext
    obtain ⟨⟨info, i⟩, hinfo, hcell⟩ := List.mem_flatMap.mp hcell
    have hmem : info ∈ s.modes.cubeInfoList.items := List.fst_mem_of_mem_zipIdx hinfo
    obtain ⟨-, rfl⟩ := (lookup_rowCells (h info hmem) i index).mp ⟨cell, hcell, htext⟩
    exact UInt8.lt_iff_toNat_lt.mp (hknown info hmem)

/-- The entry that an event adds to the list. -/
def added (s : Rt1064) : Event → Option CubeFaceInfo
  | .call v =>
    if Motion.Adds (s.modes, s.readings v) ∧ s.modes.cubeInfoList.used < 13 then
      some { valid := true, cls := s.art.currentCubeFaceInfo.cls, classProb := ⟨.fin 0, none⟩
             number := s.art.currentCubeFaceInfo.number, numberProb := .fin 0 }
    else none
  | _ => none

/-- The list grows by the entries that are added. -/
theorem items_step (s : Rt1064) (e : Event) :
    (step s e).modes.cubeInfoList.items =
      s.modes.cubeInfoList.items ++ (added s e).toList := by
  cases e with
  | call v =>
    have hlist := Motion.cubeInfoList_motionModeCalc s.modes (s.readings v)
    by_cases hadds : Motion.Adds (s.modes, s.readings v)
    · rw [if_pos hadds, Motion.cubeInfoAdd] at hlist
      by_cases hroom : s.modes.cubeInfoList.used < 13
      · simp only [step, hlist, Queue.items_push_of_lt hroom, added, hadds, hroom]
        rfl
      · simp [step, hlist, Queue.push_of_full hroom, added, hroom]
    · rw [if_neg hadds] at hlist
      simp [step, hlist, added, hadds]
  | artByte b => simp [step, added]
  | mcxByte b => simp [step, added]
  | pit now now' => simp [step, added]

theorem valid_of_added {s : Rt1064} {e : Event} {info : CubeFaceInfo}
    (h : info ∈ (added s e).toList) : info.valid = true := by
  cases e with
  | call v =>
    simp only [added] at h
    split_ifs at h
    · obtain rfl := List.mem_singleton.mp h
      rfl
    · cases h
  | _ => cases h

theorem classed_iff (before : List Event) (s : Rt1064) (e : Event) :
    Classed before s e ↔ ∀ info ∈ (added s e).toList, info.cls < 16 := by
  cases e with
  | call v =>
    simp only [Classed, added, ← and_imp]
    split_ifs with hadds
    · simp [hadds]
    · simp [hadds]
  | artByte b => simp [Classed, added]
  | mcxByte b => simp [Classed, added]
  | pit now now' => simp [Classed, added]

theorem listed_run {s₀ : Rt1064} (h : s₀.modes.cubeInfoList = .empty) (tr : List Event) :
    Listed (run step s₀ tr) := by
  refine run_induction step s₀ (fun _ s => Listed s) (by simp [Listed, h]) ?_ tr
  intro tr e hlisted info hinfo
  rw [items_step] at hinfo
  rcases List.mem_append.mp hinfo with hold | hnew
  · exact hlisted info hold
  · exact valid_of_added hnew

/-! ## The law -/

/-- The classes in the list are known in every state if and only if each one that is added
is. -/
theorem classesKnown_throughout_iff {s₀ : Rt1064} (h : s₀.modes.cubeInfoList = .empty)
    (tr : List Event) : Throughout step s₀ ClassesKnown tr ↔ Along step s₀ Classed tr := by
  induction tr using List.reverseRecOn with
  | nil => simp [throughout_nil, ClassesKnown, h]
  | append_singleton tr e ih =>
    rw [throughout_concat, along_concat, ← ih, classed_iff]
    refine and_congr_right fun hbefore => ?_
    have hnow : ClassesKnown (run step s₀ tr) := hbefore tr [] (by simp)
    rw [ClassesKnown, items_step, List.forall_mem_append]
    exact and_iff_right hnow

/-- In every run `cube_info_table_refresh` would look up names in the table only, in whatever
state it is called, if and only if the table is not created or each cube that is listed has a
class. -/
theorem names_in_table_iff (cubeInfoTableId : UInt16) (s₀ : Rt1064)
    (h : s₀.modes.cubeInfoList = .empty) (tr : List Event) :
    Throughout step s₀ (NamesInTable cubeInfoTableId) tr ↔
      (cubeInfoTableId ≠ 0 → Along step s₀ Classed tr) := by
  by_cases hid : cubeInfoTableId = 0
  · simp [Throughout, NamesInTable, cubeInfoTableRefresh, hid]
  · rw [← classesKnown_throughout_iff h]
    simp only [ne_eq, hid, not_false_eq_true, true_implies]
    refine forall_congr' fun before => forall_congr' fun after => imp_congr_right fun _ => ?_
    exact namesInTable_iff hid (listed_run h before)

/-! ## A class that is not in the table -/

/-- The cube comes into view, and OpenART reports it with class 99. -/
def unknownClass : List Event :=
  reportFrame.map .mcxByte ++ (Printf.ascii "[o:99,p:0.90,n:00,p:0.00]").map .artByte ++
    .pit 0 0 :: [0, 0, 0, 3000].map fun timer => .call ⟨0, Motion.grayInTrack, timer⟩

theorem names_in_table_iff_unknownClass :
    Throughout step start (NamesInTable 1) unknownClass ↔
      ((1 : UInt16) ≠ 0 → Along step start Classed unknownClass) :=
  names_in_table_iff 1 start rfl unknownClass

/-- Its name is looked up at index 99. -/
theorem unknownClass_outside : ¬ Throughout step start (NamesInTable 1) unknownClass := by
  intro h
  have hcell : ⟨1, 2, .className 99⟩ ∈
      cubeInfoTableRefresh 1 (run step start unknownClass).modes.cubeInfoList := by
    decide +kernel
  exact absurd (h unknownClass [] (by simp) _ hcell 99 rfl) (by decide)

end SmartCar.Menu
