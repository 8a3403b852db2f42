import SmartCar.MtImage.Elements

/-!
# mt_image: the passes of the search

`Pc.succs` is the graph of the labels, and `code_succs` says that the code goes along it. The
labels belong to passes, and the code goes from one pass to another in few ways: `code_flow`
says which. `code_still` says at which labels nothing of a side changes but its cursor. All
three are for invariants that only a few labels can break.
-/

namespace SmartCar.MtImage

variable {mem : Cell → UInt8} {enableLoop : Bool} {s t u : State} {d e : Side}

/-- `search` is called, with any element type stored and any values in its variables. -/
structure Enters (s : State) : Prop where
  pc : s.pc = .entry
  ranges : Ranges s

theorem Enters.inv (h : Enters s) : Inv s where
  ranges := h.ranges
  kw := fun hne => absurd h.pc hne
  here := by simp [h.pc]

theorem enters_called (elementType : ElementType) : Enters (called elementType) where
  pc := rfl
  ranges := by simp [ranges_iff, called]

/-! ## Labels -/

/-- The labels that the code may go to from a label. -/
def Pc.succs : Pc → List Pc
  | .entry | .zebra => [.zebra, .bottom]
  | .bottom => [.bottomLeft true, .bottomSeek, .bottomFound]
  | .bottomLeft true => [.bottomLeft true, .bottomRight]
  | .bottomLeft false => [.bottomLeft false, .bottomTest]
  | .bottomRight => [.bottomRight, .bottomTest]
  | .bottomSeek => [.bottomSeek, .bottomLeft false, .bottomRight, .bottomTest]
  | .bottomTest => [.bottom, .bottomFound]
  | .bottomFound | .edge .left => [.edge .left, .edge .right, .dispatch]
  | .edge .right => [.edge .right, .dispatch]
  | .dispatch => [.normalBound, .loop, .crossBound]
  | .normalBound => [.row]
  | .row => [.side .left, .normalEnd]
  | .side .left => [.inward .left, .side .right]
  | .side .right => [.inward .right, .row]
  | .inward d => [.inward d, .outward d, .record d]
  | .outward d => [.outward d, .exitProbe d, .record d]
  | .exitProbe d => [.exitColumn d, .record d]
  | .exitColumn d => [.exitDown d, .append d]
  | .exitDown d => [.exitDown d, .exitUp d, .record d]
  | .exitUp d => [.exitClimb d, .exitColumn d, .record d]
  | .exitClimb d => [.exitClimb d, .exitColumn d, .record d]
  | .record .left => [.side .right, .normalEnd]
  | .record .right => [.row, .normalEnd]
  | .normalEnd => [.analyze]
  | .loop => [.loopDrop .left, .loopDrop .right]
  | .loopDrop d => [.loopDrop d, .loopRise d]
  | .loopRise d => [.loopRise d, .corner d, .loopCancel]
  | .corner .left => [.cornerUp .left, .cornerDown .left, .append .right, .loopCancel]
  | .corner .right => [.cornerUp .right, .cornerDown .right, .append .left, .loopCancel]
  | .cornerUp d => [.cornerUp d, .cornerDown d, .loopCancel]
  | .cornerDown d => [.cornerDown d, .corner d]
  | .loopCancel => [.normalBound]
  | .append d => [.append d, .mid]
  | .crossBound => [.top]
  | .top => [.topLeft true, .topSeek]
  | .topLeft true => [.topLeft true, .topRight, .topNext]
  | .topLeft false => [.topLeft false, .topTest, .topNext]
  | .topRight => [.topRight, .topTest, .topNext]
  | .topSeek => [.topSeek, .topLeft false, .topRight, .topNext]
  | .topTest => [.crossRow, .topNext]
  | .topNext => [.top, .normalBound]
  | .crossRow => [.crossOut .left, .crossEnd]
  | .crossOut d => [.crossOut d, .crossIn d, .crossRecord d]
  | .crossIn d => [.crossIn d, .crossRecord d]
  | .crossRecord .left => [.crossOut .right]
  | .crossRecord .right => [.crossRow, .crossEnd]
  | .crossEnd => [.analyze, .normalBound]
  | .analyze => [.loop, .crossBound, .mid]
  | .mid | .midRow => [.midRow]

/-- The labels at which the search may end. -/
def Pc.MayHalt (p : Pc) : Prop := p = .zebra ∨ p = .dispatch ∨ p = .midRow

theorem record_succs : Jumps mem (fun t => t.pc ∈ (Pc.record d).succs) (record d s) := by
  have hrow : Leads mem (RowEnd d s) (record d s) := record_sat fun _ _ => ⟨trivial, trivial⟩
  refine (record_renamed.and_sat hrow).mono (fun t ht => ?_) fun _ => id
  rcases ht.2 with ⟨u, -, rfl | rfl⟩ <;> cases d <;> simp [Pc.succs, afterSide]

/-- The code goes along the graph of the labels. -/
theorem code_succs (enableLoop : Bool) (mem : Cell → UInt8) (s : State) :
    (code enableLoop s).Post mem (fun t => t.pc ∈ s.pc.succs) fun _ => s.pc.MayHalt := by
  unfold code Pc.succs Pc.MayHalt
  cases h : s.pc with
  | entry => simp [entry, locals]
  | zebra => by_cases hp : mem (119, s.zx) = s.curr <;> simp [zebra, locals, h, hp]
  | bottom => simp [bottom]
  | bottomLeft b => cases b <;> simp [bottomLeft, h]
  | bottomRight => simp [bottomRight, h]
  | bottomSeek => simp [bottomSeek, h]
  | bottomTest =>
    simp only [bottomTest, bottomStore, Act.post_ite, Act.post_touch, Act.post_goto]
    simp
  | bottomFound => simp [bottomFound, edgeLeft, edgeRight]
  | edge d => cases d <;> simp [edge, edgeDone, edgeRight, setStop, h]
  | dispatch => simp [dispatch]
  | normalBound => simp [normalBound]
  | row => simp [row]
  | side d =>
    simp only [side, sideEnd_eq, Act.post_ite, Act.post_goto]
    cases d <;> simp [afterSide]
  | inward d =>
    simp only [inward, inwardEnd, post_px, Act.post_ite, Act.post_goto]
    cases d <;> simp [h]
  | outward d => cases d <;> simp [outward, h]
  | exitProbe d => cases d <;> simp [exitProbe, invLost]
  | exitColumn d => cases d <;> simp [exitColumn, appendStart]
  | exitDown d => cases d <;> simp [exitDown, loopExitLost, invLost, h]
  | exitUp d => cases d <;> simp [exitUp, exitNext, loopExitLost, invLost]
  | exitClimb d => cases d <;> simp [exitClimb, exitNext, loopExitLost, invLost, h]
  | record d =>
    exact record_succs.mono (fun t ht => by cases d <;> exact ht) fun _ => False.elim
  | normalEnd => simp [normalEnd]
  | loop => simp [loop]
  | loopDrop d => cases d <;> simp [loopDrop, h]
  | loopRise d => cases d <;> simp [loopRise, h]
  | corner d => cases d <;> simp [corner, cornerFound, appendStart]
  | cornerUp d => cases d <;> simp [cornerUp, cornerUpDone, h]
  | cornerDown d => cases d <;> simp [cornerDown, cornerNext, h]
  | append d => cases d <;> simp [append, h]
  | loopCancel => simp [loopCancel]
  | crossBound => simp [crossBound]
  | top => simp [top]
  | topLeft b => cases b <;> simp [topLeft, h]
  | topRight => simp [topRight, h]
  | topSeek => simp [topSeek, h]
  | topTest => simp [topTest]
  | topNext => simp [topNext, crossExit]
  | crossRow => simp [crossRow]
  | crossOut d => cases d <;> simp [crossOut, crossOutEnd, h]
  | crossIn d => cases d <;> simp [crossIn, h]
  | crossRecord d =>
    simp only [crossRecord, Act.post_touch]
    cases d <;> simp only [Act.post_ite, post_setImg, Act.post_goto] <;> simp
  | crossEnd => simp [crossEnd, crossExit, crossSlope]
  | analyze => simp [analyze]
  | mid => simp [mid]
  | midRow => simp [midRow, midline, midOneSided, h]

theorem next_succs (h : (code enableLoop s).next mem = some t) : t.pc ∈ s.pc.succs :=
  (Act.post_iff.mp (code_succs enableLoop mem s)).1 t h

/-- A property of labels that says nothing of those that come next. -/
theorem leads_of_succs {Q : Pc → State → Prop} (h : ∀ q ∈ s.pc.succs, ∀ t, Q q t) :
    Leads mem (fun t => Q t.pc t) (code enableLoop s) :=
  Act.sat_iff.mpr ⟨by simp, by simp, fun t ht => h t.pc (next_succs ht) t⟩

/-- At the other labels the code jumps. -/
theorem exists_next (h : ¬ s.pc.MayHalt) :
    ∃ t, (code enableLoop s).next mem = some t ∧ t.pc ∈ s.pc.succs := by
  obtain ⟨hnext, hfinal⟩ := Act.post_iff.mp (code_succs enableLoop mem s)
  cases hn : (code enableLoop s).next mem with
  | some t => exact ⟨t, rfl, hnext t hn⟩
  | none =>
    obtain ⟨u, hu⟩ := ((code enableLoop s).next_eq_none_iff).mp hn
    exact absurd (hfinal u hu) h

/-! ## Passes -/

/-- The parts of `search`, with the labels at which a pass may be left for an appended
boundary apart. -/
inductive Pass
  | opening | bottom | dispatch | normal | exit | loop | corner | append | cross | analyze
  | midline
deriving DecidableEq, Repr

def Pc.pass : Pc → Pass
  | .entry | .zebra => .opening
  | .bottom | .bottomLeft _ | .bottomRight | .bottomSeek | .bottomTest | .bottomFound
  | .edge _ => .bottom
  | .dispatch => .dispatch
  | .normalBound | .row | .side _ | .inward _ | .outward _ | .exitProbe _ | .exitDown _
  | .exitUp _ | .exitClimb _ | .record _ | .normalEnd => .normal
  | .exitColumn _ => .exit
  | .loop | .loopDrop _ | .loopRise _ | .cornerUp _ | .cornerDown _ | .loopCancel => .loop
  | .corner _ => .corner
  | .append _ => .append
  | .crossBound | .top | .topLeft _ | .topRight | .topSeek | .topTest | .topNext | .crossRow
  | .crossOut _ | .crossIn _ | .crossRecord _ | .crossEnd => .cross
  | .analyze => .analyze
  | .mid | .midRow => .midline

/-- The next label is in pass `q` if this one is in pass `p`. -/
def Pass.To (p q : Pass) : Prop :=
  match p with
  | .opening => q = .opening ∨ q = .bottom
  | .bottom => q = .bottom ∨ q = .dispatch
  | .dispatch => q = .normal ∨ q = .loop ∨ q = .cross
  | .normal => q = .normal ∨ q = .exit ∨ q = .analyze
  | .exit => q = .normal ∨ q = .append
  | .loop => q = .loop ∨ q = .corner ∨ q = .normal
  | .corner => q = .loop ∨ q = .append
  | .append => q = .append ∨ q = .midline
  | .cross => q = .cross ∨ q = .normal ∨ q = .analyze
  | .analyze => q = .loop ∨ q = .cross ∨ q = .midline
  | .midline => q = .midline

namespace Pc

variable {p : Pc}

attribute [local simp] pass

theorem pass_opening : p.pass = .opening ↔ p = .entry ∨ p = .zebra := by
  cases p <;> simp

theorem pass_dispatch : p.pass = .dispatch ↔ p = .dispatch := by
  cases p <;> simp

theorem pass_exit : p.pass = .exit ↔ ∃ d, p = .exitColumn d := by
  cases p <;> simp

theorem pass_analyze : p.pass = .analyze ↔ p = .analyze := by
  cases p <;> simp

/-- In the normal pass only the recording of a row may rename. -/
theorem record_of_renames (h : p.pass = .normal) (hren : Renames p) : ∃ d, p = .record d := by
  cases p <;> simp at h hren ⊢

theorem not_renames (h : p.pass = .bottom ∨ p.pass = .append ∨ p.pass = .midline) :
    ¬ Renames p := by
  cases p <;> simp at h ⊢

end Pc

/-- The passes in which the search may end. -/
def Pass.MayEnd (p : Pass) : Prop := p = .opening ∨ p = .dispatch ∨ p = .midline

theorem Pc.to_of_succs {p : Pc} : ∀ q ∈ p.succs, p.pass.To q.pass := by
  cases p with
  | bottomLeft b | topLeft b => cases b <;> simp [succs, pass, Pass.To]
  | edge d | side d | record d | corner d | crossRecord d =>
    cases d <;> simp [succs, pass, Pass.To]
  | _ => simp [succs, pass, Pass.To]

/-- The passes that the code goes to, and those in which it may halt. -/
theorem code_flow (enableLoop : Bool) (mem : Cell → UInt8) (s : State) :
    (code enableLoop s).Post mem (fun t => s.pc.pass.To t.pc.pass)
      fun _ => s.pc.pass.MayEnd := by
  refine (code_succs enableLoop mem s).mono (fun t => Pc.to_of_succs t.pc) fun _ h => ?_
  rcases h with h | h | h <;> rw [h] <;> simp [Pc.pass, Pass.MayEnd]

theorem pass_ne_opening {p q : Pass} (h : p.To q) (hp : p ≠ .opening) : q ≠ .opening := by
  rintro rfl
  cases p <;> simp [Pass.To] at h hp

/-- The labels of the normal pass once its variables are reset. -/
def Pc.Reset (p : Pc) : Prop := (p.pass = .normal ∨ p.pass = .exit) ∧ p ≠ .normalBound

theorem Pc.reset_of_succs {p : Pc} :
    ∀ q ∈ p.succs, q.Reset → p = .normalBound ∨ p.Reset := by
  cases p with
  | bottomLeft b | topLeft b => cases b <;> simp [succs, Reset, pass]
  | edge e | side e | record e | corner e | crossRecord e =>
    cases e <;> simp [succs, Reset, pass]
  | _ => simp [succs, Reset, pass]

theorem record_flow : Jumps mem (fun t => t.pc.pass = .normal) (record d s) := by
  refine record_succs.mono (fun t ht => ?_) fun _ => id
  cases d <;> simp [Pc.succs] at ht <;> rcases ht with ht | ht <;> rw [ht] <;> rfl

/-! ## What stays of a side -/

/-- The variables of a side but for its cursor. -/
def Track.still (t : Track) : Track := { t with x := 0 }

/-- The labels that change more of a side than its cursor. -/
@[simp] def Settles : Pc → Prop
  | .entry | .zebra | .bottomTest | .bottomFound | .edge _ | .normalBound | .record _
  | .append _ | .crossRecord _ | .crossEnd => True
  | _ => False

/-- At the other labels only the cursors move. -/
theorem code_still (h : ¬ Settles s.pc) :
    Leads mem (fun t => t.l.still = s.l.still ∧ t.r.still = s.r.still) (code enableLoop s) := by
  unfold code
  cases hpc : s.pc with
  | bottom => simp [bottom, Track.still]
  | bottomLeft b => cases b <;> simp [bottomLeft, Track.still]
  | bottomRight =>
    simp only [bottomRight, sat_px, Act.sat_ite, Act.sat_goto]
    simp [Track.still]
  | bottomSeek => simp [bottomSeek, Track.still]
  | dispatch => simp [dispatch]
  | row => simp [row]
  | side d =>
    simp only [side, sideEnd_eq, Act.sat_ite, Act.sat_goto]
    cases d <;> simp [afterSide]
  | inward d =>
    simp only [inward, inwardEnd, sat_px, Act.sat_ite, Act.sat_goto]
    cases d <;> simp [Track.still]
  | outward d => cases d <;> simp [outward, Track.still]
  | exitProbe d => cases d <;> simp [exitProbe, invLost]
  | exitColumn d => cases d <;> simp [exitColumn, appendStart]
  | exitDown d => cases d <;> simp [exitDown, loopExitLost, invLost]
  | exitUp d => cases d <;> simp [exitUp, exitNext, loopExitLost, invLost]
  | exitClimb d => cases d <;> simp [exitClimb, exitNext, loopExitLost, invLost]
  | normalEnd => simp [normalEnd]
  | loop => simp [loop]
  | loopDrop d => cases d <;> simp [loopDrop]
  | loopRise d => cases d <;> simp [loopRise, Track.still]
  | corner d => cases d <;> simp [corner, cornerFound, appendStart]
  | cornerUp d => cases d <;> simp [cornerUp, cornerUpDone]
  | cornerDown d => cases d <;> simp [cornerDown, cornerNext, Track.still]
  | loopCancel => simp [loopCancel]
  | crossBound => simp [crossBound]
  | top => simp [top, Track.still]
  | topLeft b =>
    simp only [topLeft, sat_px, Act.sat_ite, Act.sat_goto]
    simp [Track.still]
  | topRight =>
    simp only [topRight, sat_px, Act.sat_ite, Act.sat_goto]
    simp [Track.still]
  | topSeek =>
    simp only [topSeek, sat_px, Act.sat_ite, Act.sat_goto]
    simp [Track.still]
  | topTest => simp [topTest]
  | topNext => simp [topNext, crossExit]
  | crossRow => simp [crossRow]
  | crossOut d => cases d <;> simp [crossOut, crossOutEnd, Track.still]
  | crossIn d => cases d <;> simp [crossIn, Track.still]
  | analyze => simp [analyze]
  | mid => simp [mid]
  | midRow => simp [midRow, midline, midOneSided, Track.still]
  | _ => simp [hpc] at h

end SmartCar.MtImage
