import SmartCar.MtImage.Midline
import Mathlib.Logic.Relation

/-!
# mt_image: the element types

`search` takes up the element type that the frame before has left (`el`) and leaves
one itself. `Follows` says which may follow which.

* `Renamed` is how the recording of a row may change the element type;
* `Known` is what holds of `el` and of the stored element type at every label;
* `reports_follow` is the law of one frame and of sequences of frames.
-/

namespace SmartCar.MtImage

variable {mem : Cell → UInt8} {s t u : State} {d : Side} {enableLoop : Bool} {p n : ElementType}

/-! ## The rules -/

/-- The element type of the loop itself. -/
def loopOf : Side → ElementType
  | .left => .loopLeft
  | .right => .loopRight

/-- `n` may follow `p`. -/
@[mk_iff] structure Follows (enableLoop : Bool) (p n : ElementType) : Prop where
  le : n ≤ .loopRight
  curve : n = .curveLeft ∨ n = .curveRight → p ≤ .normal
  cross : n = .cross → p = .crossBefore ∨ p = .cross
  second : ∀ d, n = loopBefore2 d → p = loopBefore d ∨ p = loopBefore2 d
  loop : ∀ d, n = loopOf d → p = loopBefore d ∨ p = loopBefore2 d ∨ p = loopOf d
  before : ∀ d, n = loopBefore d → p ≠ n → enableLoop = true

/-- `search` may find `n` in a frame, whatever the image and the variables that are not
initialised, when the frame before has left `p`. -/
def Reports (enableLoop : Bool) (p n : ElementType) : Prop :=
  ∃ (image : Image) (beyond : ℤ → UInt8) (s u : State), Start s ∧ s.elementType = p ∧
    Goto.Halts (code enableLoop) (memory image beyond) s u ∧ u.elementType = n

/-- The element type may stay what it is. -/
theorem Follows.refl (h : p ≤ .loopRight) : Follows enableLoop p p := by
  refine ⟨h, ?_, .inr, fun _ => .inr, fun _ h => .inr (.inr h), fun _ _ hne => absurd rfl hne⟩
  rintro (rfl | rfl) <;> decide

/-! ## Recording a row -/

@[simp] theorem post_px {Q F : State → Prop} (y x : ℤ) (k : UInt8 → Go) :
    (px y x k).Post mem Q F ↔ (k (mem (y, x))).Post mem Q F := Iff.rfl

@[simp] theorem post_setImg {Q F : State → Prop} (x y : ℤ) (c : UInt8) (k : Go) :
    (setImg x y c k).Post mem Q F ↔ k.Post mem Q F := Iff.rfl

/-- The stretch jumps, and the state it jumps to meets `Q`. -/
abbrev Jumps (mem : Cell → UInt8) (Q : State → Prop) (a : Go) : Prop :=
  a.Post mem Q fun _ => False

/-- `t` has the element types of `s`. -/
@[mk_iff] structure SameElement (s t : State) : Prop where
  elementType : t.elementType = s.elementType
  el : t.el = s.el
  prevElNormal : t.prevElNormal = s.prevElNormal

/-- How a row of side `d` may change the element type. -/
inductive Renamed (d : Side) (s t : State) : Prop
  | same (h : SameElement s t)
  | curve (hprev : s.prevElNormal = true) (hel : t.el = curveOf d)
      (het : t.elementType = curveOf d) (hprev' : t.prevElNormal = true)
  | secondLoop (hel : s.el = loopBefore d) (hel' : t.el = loopBefore2 d)
      (het : t.elementType = loopBefore2 d) (hprev : t.prevElNormal = false)

/-- Changes of `dx` and of the side's variables keep the element types. -/
theorem SameElement.setTrack (h : SameElement s u) (d : Side) (tr : Track) :
    SameElement s (u.setTrack d tr) := by
  cases d <;> exact ⟨h.1, h.2, h.3⟩

/-- A side's variables hold no element type. -/
theorem Renamed.setTrack (h : Renamed d s u) (tr : Track) : Renamed d s (u.setTrack d tr) := by
  have hu : SameElement u (u.setTrack d tr) := SameElement.setTrack ⟨rfl, rfl, rfl⟩ d tr
  cases h with
  | same h => exact .same (h.setTrack d tr)
  | curve hprev hel het hprev' =>
    exact .curve hprev (hu.el.trans hel) (hu.elementType.trans het) (hu.prevElNormal.trans hprev')
  | secondLoop hel hel' het hprev =>
    exact .secondLoop hel (hu.el.trans hel') (hu.elementType.trans het)
      (hu.prevElNormal.trans hprev)

/-- Nor does `dx`. -/
theorem Renamed.setDx (h : Renamed d s u) (dx : ℤ) : Renamed d s { u with dx := dx } := by
  cases h with
  | same h => exact .same ⟨h.1, h.2, h.3⟩
  | curve hprev hel het hprev' => exact .curve hprev hel het hprev'
  | secondLoop hel hel' het hprev => exact .secondLoop hel hel' het hprev

/-- The end of a side changes no element type. -/
theorem sideEnd_renamed (h : Renamed d s u) : Jumps mem (Renamed d s) (sideEnd d u) := by
  rw [sideEnd_eq]
  change Renamed d s (afterSide d u)
  cases h with
  | same h => cases d <;> exact .same ⟨h.1, h.2, h.3⟩
  | curve hprev hel het hprev' => cases d <;> exact .curve hprev hel het hprev'
  | secondLoop hel hel' het hprev => cases d <;> exact .secondLoop hel hel' het hprev

/-- Nor does a good row. -/
theorem good_renamed (h : Renamed d s u) : Jumps mem (Renamed d s) (good d u) := by
  unfold good
  apply sideEnd_renamed
  split
  · exact h.setTrack _
  · exact h

/-- Nor does the debounce. -/
theorem debounce_renamed (h : Renamed d s u) : Jumps mem (Renamed d s) (debounce d u) := by
  simp only [debounce, Act.post_ite]
  refine ⟨fun _ => ⟨fun _ => ?_, fun _ => ?_⟩, fun _ => ⟨fun _ => ⟨fun _ => ?_, fun _ => ?_⟩,
    fun _ => sideEnd_renamed h⟩⟩
  · exact sideEnd_renamed (h.setTrack _)
  · exact good_renamed (h.setTrack _)
  · exact good_renamed (h.setTrack _)
  · exact sideEnd_renamed (h.setTrack _)

/-- The second sign of a loop may change it. -/
theorem secondLoop_renamed (h : SameElement s u) : Renamed d s (secondLoop d u) := by
  unfold secondLoop
  split
  · rename_i hc
    exact .secondLoop (h.el ▸ hc.2) rfl rfl rfl
  · exact .same h

/-- A row may change it to a curve, or to the second sign of a loop. -/
theorem convexity_renamed (h : SameElement s u) :
    Jumps mem (Renamed d s) (convexity d u) := by
  simp only [convexity, Act.post_touch, Act.post_ite]
  refine ⟨fun hc => ?_, fun _ => ?_⟩
  · -- a curve ends the pass
    have hprev : u.prevElNormal = true := by cases d <;> exact hc.2
    exact .curve (h.prevElNormal ▸ hprev) rfl rfl (by cases d <;> exact hprev)
  · refine debounce_renamed (Renamed.setTrack (secondLoop_renamed ?_) _)
    cases d <;> exact ⟨h.1, h.2, h.3⟩

/-- The slope does not change it. -/
theorem slope_renamed {Q : State → Prop} {k : State → Go} (h : SameElement s u)
    (hk : ∀ v, SameElement s v → Jumps mem Q (k v)) : Jumps mem Q (slope d u k) := by
  simp only [slope, Act.post_ite, Act.post_touch]
  exact ⟨fun _ => ⟨fun _ => hk _ (h.setTrack d _), fun _ => hk _ h⟩, fun _ => hk _ h⟩

/-- What a row may change it to. -/
theorem record_renamed : Jumps mem (Renamed d s) (record d s) := by
  have hnoGood : ∀ u, SameElement s u → Jumps mem (Renamed d s) (noGood d u) :=
    fun u hu => sideEnd_renamed (.same (hu.setTrack d _))
  have hs : SameElement s s := ⟨rfl, rfl, rfl⟩
  have hset : SameElement s (if (s.track d).unset then
      s.setTrack d { s.track d with y0 := s.y, unset := false } else s) := by
    split
    · exact hs.setTrack d _
    · exact hs
  simp only [record, Act.post_ite]
  refine ⟨fun _ => hnoGood _ (hs.setTrack d _), fun _ => ⟨fun _ => ?_, fun _ => ?_⟩⟩
  · simp only [recordLost, Act.post_ite, Act.post_touch, post_setImg]
    refine ⟨fun _ => sideEnd_renamed (.same (hset.setTrack d _)), fun _ => ⟨fun _ => ?_, fun _ =>
      sideEnd_renamed (.same hset)⟩⟩
    exact hnoGood _ ((hset.setTrack d _).setTrack d _)
  · exact slope_renamed hset fun v hv => convexity_renamed (hv.setTrack d _)

/-! ## The labels that do not rename -/

/-- The element types stay, and the midline is not left. -/
def Keeps (s t : State) : Prop :=
  SameElement s t ∧ t.pc ≠ .entry ∧ (s.pc = .mid ∨ s.pc = .midRow → t.pc = .midRow)

/-- The labels at which `search` may change the element type. -/
@[simp] def Renames : Pc → Prop
  | .entry | .zebra | .record _ | .loopCancel | .topNext | .crossEnd | .analyze => True
  | _ => False

/-- At every other label the stretch of code keeps it. -/
theorem code_keeps (hpc : ¬ Renames s.pc) :
    (code enableLoop s).Post mem (Keeps s) (fun u => u.elementType = s.elementType) := by
  unfold code
  cases h : s.pc with
  | bottom => simp [bottom, Keeps, sameElement_iff, h]
  | bottomLeft b => cases b <;> simp [bottomLeft, Keeps, sameElement_iff, h]
  | bottomRight => simp [bottomRight, Keeps, sameElement_iff, h]
  | bottomSeek => simp [bottomSeek, Keeps, sameElement_iff, h]
  | bottomTest => simp [bottomTest, bottomStore, Keeps, sameElement_iff, h]
  | bottomFound => simp [bottomFound, edgeLeft, edgeRight, Keeps, sameElement_iff, h]
  | edge d => cases d <;> simp [edge, edgeDone, edgeRight, setStop, Keeps, sameElement_iff, h]
  | dispatch => simp [dispatch, Keeps, sameElement_iff, h]
  | normalBound => simp [normalBound, Keeps, sameElement_iff, h]
  | row => simp [row, Keeps, sameElement_iff, h]
  | side d =>
    simp only [side, sideEnd_eq, Act.post_ite, Act.post_goto]
    cases d <;> simp [afterSide, Keeps, sameElement_iff, h]
  | inward d =>
    simp only [inward, inwardEnd, post_px, Act.post_ite, Act.post_goto]
    cases d <;> simp [Keeps, sameElement_iff, h]
  | outward d => cases d <;> simp [outward, Keeps, sameElement_iff, h]
  | exitProbe d => cases d <;> simp [exitProbe, invLost, Keeps, sameElement_iff, h]
  | exitColumn d => cases d <;> simp [exitColumn, appendStart, Keeps, sameElement_iff, h]
  | exitDown d => cases d <;> simp [exitDown, loopExitLost, invLost, Keeps, sameElement_iff, h]
  | exitUp d =>
    cases d <;> simp [exitUp, exitNext, loopExitLost, invLost, Keeps, sameElement_iff, h]
  | exitClimb d =>
    cases d <;> simp [exitClimb, exitNext, loopExitLost, invLost, Keeps, sameElement_iff, h]
  | normalEnd => simp [normalEnd, Keeps, sameElement_iff, h]
  | loop => simp [loop, Keeps, sameElement_iff, h]
  | loopDrop d => cases d <;> simp [loopDrop, Keeps, sameElement_iff, h]
  | loopRise d => cases d <;> simp [loopRise, Keeps, sameElement_iff, h]
  | corner d => cases d <;> simp [corner, cornerFound, appendStart, Keeps, sameElement_iff, h]
  | cornerUp d => cases d <;> simp [cornerUp, cornerUpDone, Keeps, sameElement_iff, h]
  | cornerDown d => cases d <;> simp [cornerDown, cornerNext, Keeps, sameElement_iff, h]
  | append d => cases d <;> simp [append, Keeps, sameElement_iff, h]
  | crossBound => simp [crossBound, Keeps, sameElement_iff, h]
  | top => simp [top, Keeps, sameElement_iff, h]
  | topLeft b => cases b <;> simp [topLeft, Keeps, sameElement_iff, h]
  | topRight => simp [topRight, Keeps, sameElement_iff, h]
  | topSeek => simp [topSeek, Keeps, sameElement_iff, h]
  | topTest => simp [topTest, Keeps, sameElement_iff, h]
  | crossRow => simp [crossRow, Keeps, sameElement_iff, h]
  | crossOut d => cases d <;> simp [crossOut, crossOutEnd, Keeps, sameElement_iff, h]
  | crossIn d => cases d <;> simp [crossIn, Keeps, sameElement_iff, h]
  | crossRecord d => cases d <;> simp [crossRecord, Keeps, sameElement_iff, h]
  | mid => simp [mid, Keeps, sameElement_iff, h]
  | midRow => simp [midRow, midline, midOneSided, Keeps, sameElement_iff, h]
  | _ => simp [h] at hpc

/-! ## What is known at every label -/

/-- What `el` says about the element type `p` that the frame before has left. -/
@[mk_iff] structure Taken (p el : ElementType) : Prop where
  crossBefore : el = .crossBefore → p = .crossBefore
  before : ∀ d, el = loopBefore d → p = loopBefore d
  second : ∀ d, el = loopBefore2 d → p = loopBefore d ∨ p = loopBefore2 d

/-- What holds in every state that is visited when the frame before has left `p`. In the
midline `el` is that of this frame. -/
@[mk_iff] structure Known (enableLoop : Bool) (p : ElementType) (s : State) : Prop where
  entry : s.pc = .entry → s.elementType = p
  stored : Follows enableLoop p s.elementType
  prevElNormal : s.pc ≠ .entry → s.prevElNormal = true → p ≤ .normal
  el : s.pc ≠ .entry → s.pc ≠ .mid → s.pc ≠ .midRow → Taken p s.el

/-- At the beginning `el` is the type that the frame before has left. -/
theorem Taken.refl : Taken p p := ⟨id, fun _ => id, fun _ => .inr⟩

/-- Both sides. -/
theorem forall_side {P : Side → Prop} : (∀ d, P d) ↔ P .left ∧ P .right := by
  constructor
  · exact fun h => ⟨h .left, h .right⟩
  · rintro ⟨hl, hr⟩ (_ | _)
    · exact hl
    · exact hr

/-- `Normal` follows every type, -/
theorem follows_normal : Follows enableLoop p .normal := by
  simp [follows_iff, forall_side, loopBefore, loopBefore2, loopOf]
  decide

/-- as a zebra crossing does, -/
theorem follows_zebra : Follows enableLoop p .zebra := by
  simp [follows_iff, forall_side, loopBefore, loopBefore2, loopOf]
  decide

/-- and the announcement of a crossing. -/
theorem follows_crossBefore : Follows enableLoop p .crossBefore := by
  simp [follows_iff, forall_side, loopBefore, loopBefore2, loopOf]
  decide

/-- A curve follows a type up to `Normal`. -/
theorem follows_curveOf (h : p ≤ .normal) (d : Side) : Follows enableLoop p (curveOf d) := by
  cases d <;> simp [follows_iff, forall_side, loopBefore, loopBefore2, loopOf, curveOf, h] <;>
    decide

/-- The first sign of a loop follows every type, if loops are enabled. -/
theorem follows_loopBefore (h : enableLoop = true) (d : Side) :
    Follows enableLoop p (loopBefore d) := by
  cases d <;> simp [follows_iff, forall_side, loopBefore, loopBefore2, loopOf, h] <;> decide

/-- The second sign follows the first, of the same side, -/
theorem follows_loopBefore2 (h : p = loopBefore d ∨ p = loopBefore2 d) :
    Follows enableLoop p (loopBefore2 d) := by
  cases d <;> simp [follows_iff, forall_side, loopBefore, loopBefore2, loopOf] at h ⊢ <;>
    exact ⟨by decide, h⟩

/-- and the loop follows either of them. -/
theorem follows_loopOf (h : p = loopBefore d ∨ p = loopBefore2 d) :
    Follows enableLoop p (loopOf d) := by
  cases d <;> simp [follows_iff, forall_side, loopBefore, loopBefore2, loopOf] at h ⊢ <;>
    exact ⟨by decide, by tauto⟩

/-- A crossing follows its announcement. -/
theorem follows_cross (h : p = .crossBefore) : Follows enableLoop p .cross := by
  simp [follows_iff, forall_side, loopBefore, loopBefore2, loopOf, h]
  decide

/-- A row does not lead back to the beginning. -/
theorem record_ne_entry : Jumps mem (fun t => t.pc ≠ .entry) (record d s) := by
  have hjumps : Jumps mem (Renamed d s) (record d s) := record_renamed
  have hrow : Leads mem (RowEnd d s) (record d s) := record_sat fun _ _ => ⟨trivial, trivial⟩
  refine Act.post_iff.mpr ⟨fun t ht => ?_, (Act.post_iff.mp hjumps).2⟩
  rcases hrow.next ht with ⟨u, -, rfl | rfl⟩
  · simp
  · cases d <;> simp [afterSide]

/-- A curve needs a type up to `Normal`, and the second sign of a loop the first one. -/
theorem record_known (h : Known enableLoop p s) (hpc : s.pc = .record d) :
    Jumps mem (Known enableLoop p) (record d s) := by
  have hel := h.el (by simp [hpc]) (by simp [hpc]) (by simp [hpc])
  have hprev := h.prevElNormal (by simp [hpc])
  refine (record_renamed.and record_ne_entry).mono (fun t ⟨ht, hne⟩ => ?_) fun _ => And.left
  cases ht with
  | same ht =>
    exact ⟨fun hpc => absurd hpc hne, ht.elementType ▸ h.stored,
      fun _ => ht.prevElNormal ▸ hprev, fun _ _ _ => ht.el ▸ hel⟩
  | curve hp hel' het hprev' =>
    refine ⟨fun hpc => absurd hpc hne, het ▸ follows_curveOf (hprev hp) d, fun _ _ => hprev hp,
      fun _ _ _ => ?_⟩
    rw [hel']
    cases d <;> simp [taken_iff, forall_side, loopBefore, loopBefore2, curveOf]
  | secondLoop hel' hel'' het hprev' =>
    have hp : p = loopBefore d := hel.before d hel'
    refine ⟨fun hpc => absurd hpc hne, het ▸ follows_loopBefore2 (.inl hp),
      fun _ => by simp [hprev'], fun _ _ _ => ?_⟩
    rw [hel'', hp]
    cases d <;> simp [taken_iff, forall_side, loopBefore, loopBefore2]

/-- `Normal` does not tell what the frame before has left, -/
theorem taken_normal : Taken p .normal := by
  simp [taken_iff, forall_side, loopBefore, loopBefore2]

/-- nor does a loop. -/
theorem taken_loopOf (d : Side) : Taken p (loopOf d) := by
  cases d <;> simp [taken_iff, forall_side, loopBefore, loopBefore2, loopOf]

/-- A loop and a crossing need what announces them; the rest may follow anything. -/
theorem analyze_known (h : Known enableLoop p s) (hpc : s.pc = .analyze) :
    Jumps mem (Known enableLoop p) (analyze enableLoop s) := by
  have hel := h.el (by simp [hpc]) (by simp [hpc]) (by simp [hpc])
  have hprev := h.prevElNormal (by simp [hpc])
  simp only [analyze, Act.post_ite, Act.post_goto]
  refine ⟨fun hl => ?_, fun _ => ⟨fun hr => ?_, fun _ => ⟨fun _ => ⟨fun hb => ?_, fun _ =>
    ⟨fun hb => ?_, fun _ => ⟨fun _ => ?_, fun _ => ⟨fun _ => ?_, fun _ => ?_⟩⟩⟩⟩, fun _ =>
    ⟨fun hc => ?_, fun _ => ?_⟩⟩⟩⟩
  -- the loop itself: its second sign has been seen in this frame or before
  · exact ⟨by simp, follows_loopOf (d := .left) (hel.second .left hl.1), fun _ => hprev,
      fun _ _ _ => taken_loopOf .left⟩
  · exact ⟨by simp, follows_loopOf (d := .right) (hel.second .right hr.1), fun _ => hprev,
      fun _ _ _ => taken_loopOf .right⟩
  -- the first sign of a loop, where loops are enabled
  · exact ⟨by simp, follows_loopBefore hb.1 .left, fun _ => hprev, fun _ hne => absurd rfl hne⟩
  · exact ⟨by simp, follows_loopBefore hb.1 .right, fun _ => hprev, fun _ hne => absurd rfl hne⟩
  -- the announcement of a crossing, a straight track, and a track that stays what it is
  · exact ⟨by simp, follows_crossBefore, fun _ => hprev, fun _ hne => absurd rfl hne⟩
  · exact ⟨by simp, follows_normal, fun _ => hprev, fun _ hne => absurd rfl hne⟩
  · exact ⟨by simp, h.stored, fun _ => hprev, fun _ hne => absurd rfl hne⟩
  -- the crossing itself, or not yet
  · refine ⟨by simp, follows_cross (hel.crossBefore hc.1), fun _ => hprev, fun _ _ _ => ?_⟩
    simp [taken_iff, forall_side, loopBefore, loopBefore2]
  · exact ⟨by simp, h.stored, fun _ => hprev, fun _ hne => absurd rfl hne⟩

/-- From a label of the search, back to `normal`. -/
theorem known_normal (h : Known enableLoop p s) (hpc : s.pc ≠ .entry) :
    Known enableLoop p { s with pc := .normalBound, el := .normal, elementType := .normal } :=
  ⟨by simp, follows_normal, fun _ => h.prevElNormal hpc, fun _ _ _ => taken_normal⟩

/-- A crossing that is over is `normal`. -/
theorem crossEnd_known (h : Known enableLoop p s) (hpc : s.pc = .crossEnd) :
    Jumps mem (Known enableLoop p) (crossEnd s) := by
  have hel := h.el (by simp [hpc]) (by simp [hpc]) (by simp [hpc])
  have hprev := h.prevElNormal (by simp [hpc])
  simp only [crossEnd, crossExit, crossSlope, Act.post_ite, Act.post_touch, Act.post_goto]
  refine ⟨fun _ => ?_, fun _ => ?_⟩
  · exact ⟨by simp, follows_normal, fun _ => hprev, fun _ _ _ => taken_normal⟩
  · exact ⟨by simp, h.stored, fun _ => hprev, fun _ _ _ => hel⟩

/-- A crossing without a top is `normal` too. -/
theorem topNext_known (h : Known enableLoop p s) (hpc : s.pc = .topNext) :
    Jumps mem (Known enableLoop p) (topNext s) := by
  have hel := h.el (by simp [hpc]) (by simp [hpc]) (by simp [hpc])
  have hprev := h.prevElNormal (by simp [hpc])
  simp only [topNext, crossExit, Act.post_ite, Act.post_goto]
  refine ⟨fun _ => ?_, fun _ => ?_⟩
  · exact ⟨by simp, follows_normal, fun _ => hprev, fun _ _ _ => taken_normal⟩
  · exact ⟨by simp, h.stored, fun _ => hprev, fun _ _ _ => hel⟩

/-- A frame begins with the type stored. -/
theorem entry_known (hle : p ≤ .loopRight) (het : s.elementType = p) :
    Jumps mem (Known enableLoop p) (entry s) := by
  have hknown : ∀ t : State, t.elementType = p → t.el = p → t.prevElNormal = decide (p ≤ .normal) →
      Known enableLoop p t := by
    intro t ht hel hprev
    exact ⟨fun _ => ht, by rw [ht]; exact Follows.refl hle, fun _ => by simp [hprev],
      fun _ _ _ => by rw [hel]; exact Taken.refl⟩
  simp only [entry, locals, post_px, Act.post_ite, Act.post_goto]
  exact ⟨fun _ => hknown _ het het (by simp [het]), fun _ => hknown _ het het (by simp [het])⟩

/-- A zebra crossing ends the search; a zebra crossing that is over is `normal`. -/
theorem zebra_known (h : Known enableLoop p s) (hpc : s.pc = .zebra) :
    (zebra s).Post mem (Known enableLoop p) fun u => Follows enableLoop p u.elementType := by
  have hel := h.el (by simp [hpc]) (by simp [hpc]) (by simp [hpc])
  have hprev := h.prevElNormal (by simp [hpc])
  simp only [zebra, locals, post_px, Act.post_ite, Act.post_goto, Act.post_halt]
  refine ⟨fun _ => ⟨fun _ => follows_zebra, fun _ => ?_⟩, fun _ => ⟨fun _ => ?_, fun _ => ?_⟩⟩
  · split
    · exact ⟨by simp [hpc], h.stored, fun _ => hprev, fun _ _ _ => hel⟩
    · exact ⟨by simp [hpc], h.stored, fun _ => hprev, fun _ _ _ => hel⟩
  · exact ⟨by simp, follows_normal, fun _ => hprev, fun _ _ _ => hel⟩
  · exact ⟨by simp, h.stored, fun _ => hprev, fun _ _ _ => hel⟩

/-- Each stretch of code keeps what is known, and leaves an element type that may follow. -/
theorem step_known (h : Known enableLoop p s) (hle : p ≤ .loopRight) :
    (code enableLoop s).Post mem (Known enableLoop p)
      fun u => Follows enableLoop p u.elementType := by
  have hjumps : ∀ a, Jumps mem (Known enableLoop p) a →
      a.Post mem (Known enableLoop p) fun u => Follows enableLoop p u.elementType :=
    fun a ha => ha.mono (fun _ => id) fun _ => False.elim
  by_cases hrenames : Renames s.pc
  · unfold code
    cases hpc : s.pc with
    | entry => exact hjumps _ (entry_known hle (h.entry hpc))
    | zebra => exact zebra_known h hpc
    | record d => exact hjumps _ (record_known h hpc)
    | loopCancel => exact known_normal h (by simp [hpc])
    | topNext => exact hjumps _ (topNext_known h hpc)
    | crossEnd => exact hjumps _ (crossEnd_known h hpc)
    | analyze => exact hjumps _ (analyze_known h hpc)
    | _ => simp [hpc] at hrenames
  · refine (code_keeps hrenames).mono ?_ fun u hu => hu ▸ h.stored
    rintro t ⟨ht, hentry, hmid⟩
    refine ⟨fun hpc => absurd hpc hentry, ht.elementType ▸ h.stored, fun _ => ?_,
      fun _ hne hne' => ?_⟩
    · rw [ht.prevElNormal]
      exact h.prevElNormal fun hpc => hrenames (by simp [hpc])
    · rw [ht.el]
      exact h.el (fun hpc => hrenames (by simp [hpc])) (fun hpc => hne' (hmid (.inl hpc)))
        fun hpc => hne' (hmid (.inr hpc))

/-! ## Frames -/

/-- The element type that `search` leaves follows the one that it has found. -/
theorem follows_of_halts (h : Start s) (hu : Goto.Halts (code enableLoop) mem s u) :
    Follows enableLoop s.elementType u.elementType := by
  have hinit : Known enableLoop s.elementType s :=
    ⟨fun _ => rfl, Follows.refl h.elementType, fun hne => absurd h.pc hne,
      fun hne => absurd h.pc hne⟩
  exact hu.of_post (Known enableLoop s.elementType) _ hinit
    fun t _ ht => step_known ht h.elementType

/-- A type that may be reported may follow. -/
theorem Reports.follows (h : Reports enableLoop p n) : Follows enableLoop p n := by
  rcases h with ⟨image, beyond, s, u, hs, rfl, hu, rfl⟩
  exact follows_of_halts hs hu

/-- A stored type is one up to `Cross`, or one of a loop on either side. -/
theorem le_cross_or_loop (h : n ≤ .loopRight) :
    n ≤ .cross ∨ ∃ d, n = loopBefore d ∨ n = loopBefore2 d ∨ n = loopOf d := by
  cases n with
  | loopLeftBefore => exact .inr ⟨.left, .inl rfl⟩
  | loopRightBefore => exact .inr ⟨.right, .inl rfl⟩
  | loopLeftBefore2 => exact .inr ⟨.left, .inr (.inl rfl)⟩
  | loopRightBefore2 => exact .inr ⟨.right, .inr (.inl rfl)⟩
  | loopLeft => exact .inr ⟨.left, .inr (.inr rfl)⟩
  | loopRight => exact .inr ⟨.right, .inr (.inr rfl)⟩
  | _ => exact .inl (by revert h; decide)

/-- The types of a loop come after `Cross`. -/
theorem not_le_cross (d : Side) :
    ¬ loopBefore d ≤ .cross ∧ ¬ loopBefore2 d ≤ .cross ∧ ¬ loopOf d ≤ .cross := by
  cases d <;> decide

/-- Without the loops, none is found: each of their element types needs one before it. -/
theorem Follows.le_cross (h : Follows false p n) (hp : p ≤ .cross) : n ≤ .cross := by
  rcases le_cross_or_loop h.le with hn | ⟨d, hn⟩
  · exact hn
  · rcases not_le_cross d with ⟨h1, h2, h3⟩
    exfalso
    rcases hn with hn | hn | hn
    · have henabled := h.before d hn fun hpn => h1 (hn ▸ hpn ▸ hp)
      cases henabled
    · rcases h.second d hn with rfl | rfl
      · exact h1 hp
      · exact h2 hp
    · rcases h.loop d hn with rfl | rfl | rfl
      · exact h1 hp
      · exact h2 hp
      · exact h3 hp

/-- The element types of successive frames follow one another; and frames that begin with
`normal`, without the loops, never leave a loop's element type. -/
theorem reports_follow :
    (∀ enableLoop p n, Reports enableLoop p n → Follows enableLoop p n) ∧
      ∀ n, Relation.ReflTransGen (Reports false) .normal n → n ≤ .cross := by
  refine ⟨fun _ _ _ => Reports.follows, fun n h => ?_⟩
  induction h with
  | refl => decide
  | tail _ hlast ih => exact hlast.follows.le_cross ih

/-- A run that has been followed to its end. -/
theorem reports_of_run (image : Image) (k : ℕ) (hp : p ≤ .loopRight)
    (hrun : (Goto.after (code enableLoop) (memory image fun _ => EMPTY) k (called p)).any
      (fun t => ((code enableLoop t).final (memory image fun _ => EMPTY)).any
        fun u => decide (u.elementType = n)) = true) : Reports enableLoop p n := by
  rcases (Option.any_eq_true _ _).mp hrun with ⟨t, ht, hfinal⟩
  rcases (Option.any_eq_true _ _).mp hfinal with ⟨u, hu, hn⟩
  exact ⟨image, fun _ => EMPTY, called p, u, start_called hp, rfl, ⟨t, ⟨k, ht⟩, hu⟩,
    of_decide_eq_true hn⟩

/-- A road that narrows, and the bar of a crossing in the rows from `first` to `last`. -/
def crossRoad (first last : ℕ) : Image := fun y x =>
  decide (x = 0 ∨ first ≤ y.val ∧ y.val ≤ last ∨
    40 + (119 - y.val) / 2 ≤ x.val ∧ x.val + (119 - y.val) / 2 ≤ 146)

/-- The crossing is announced while there is road before its bar. -/
theorem reports_announced : Reports false .normal .crossBefore :=
  reports_of_run (crossRoad 95 100) 1018 (by decide) (by decide +kernel)

/-- The car stands in the bar. -/
theorem reports_entered : Reports false .crossBefore .cross :=
  reports_of_run (crossRoad 70 118) 1993 (by decide) (by decide +kernel)

/-- Two frames, in which a crossing is announced and entered. -/
theorem reports_follow_crossing :
    (Reports false .crossBefore .cross ∧ Follows false .crossBefore .cross) ∧
      Relation.ReflTransGen (Reports false) .normal .cross ∧ ElementType.cross ≤ .cross := by
  have hrun : Relation.ReflTransGen (Reports false) .normal .cross :=
    .tail (.single reports_announced) reports_entered
  exact ⟨⟨reports_entered, reports_follow.1 false .crossBefore .cross reports_entered⟩, hrun,
    reports_follow.2 .cross hrun⟩

end SmartCar.MtImage
