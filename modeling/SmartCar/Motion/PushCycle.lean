import Mathlib.Algebra.Order.Ring.Abs
import Mathlib.Data.Rat.Cast.Order
import Mathlib.Tactic.Linarith
import SmartCar.Motion.Modes

/-!
# motion_control: one push cycle

A cycle runs from `LINE_FOLLOW` to the next `LINE_FOLLOW`. Two things about it are
recorded beside the machine (`Cycle`): the angle read at its first call in
`CUBE_ANGLE_POSITION`, and the label it acted on.

* `heading_kept_iff`: the recorded heading survives exactly the runs in which the
  car does not turn while it is in `CUBE_ANGLE_POSITION`;
* `heading_lost`: in every run, a car that comes back to the line is more than 80
  degrees off;
* `pushed_as_labelled_iff`: the cube goes where its label says exactly for the
  labels on which `get_cube_push_dir` agrees with the rule.
-/

namespace SmartCar.Motion

open Art Mcx Events

/-! ## Cycles -/

/-- What the current cycle has seen. -/
structure Cycle where
  /-- The angle at the first call in `CUBE_ANGLE_POSITION`. -/
  began : Option ℚ
  /-- The class and the number passed to `cube_info_add`. -/
  face : Option (UInt8 × UInt8)

/-- The machine and its cycle. -/
structure Tracked where
  car : State
  cycle : Cycle

/-- The cycle after a call with readings `r` in state `s`. -/
def Cycle.after (c : Cycle) (s : State) (r : Readings) : Cycle :=
  if (motionModeCalc s r).motionMode = .lineFollow then ⟨none, none⟩
  else
    { began := if s.motionMode = .cubeAnglePosition then c.began.or (some r.angleZ) else c.began
      face :=
        if s.motionMode = .cubeIdentify ∧ (motionModeCalc s r).motionMode = .cubeAnglePosition then
          some (r.currentCubeFaceInfo.cls, r.currentCubeFaceInfo.number)
        else c.face }

def step (t : Tracked) (r : Readings) : Tracked :=
  { car := motionModeCalc t.car r, cycle := t.cycle.after t.car r }

/-- A run starts with no cycle under way. -/
def begin (s : State) : Tracked := ⟨s, none, none⟩

/-! ## The invariant of a cycle -/

/-- The modes before `CUBE_ANGLE_POSITION`. -/
def Early (m : MotionMode) : Prop :=
  m = .lineFollow ∨ m = .cubeDistancePosition ∨ m = .cubeIdentify

/-- The modes after `CUBE_ANGLE_POSITION`. -/
def Late (m : MotionMode) : Prop := m = .cubePush ∨ m = .linePositionBack ∨ m = .lineAngleBack

/-- What holds of the machine and its cycle: the target is 90 degrees off the angle at
which the cycle began, and once the car has turned there so is the line's angle. -/
structure Inv (t : Tracked) : Prop where
  known : t.car.motionMode ≠ .unknown
  early : Early t.car.motionMode → t.car.targetAngleZSettedFlag = false ∧ t.cycle.began = none
  labelled : t.car.motionMode = .cubeAnglePosition →
    ∃ f, t.cycle.face = some f ∧ t.car.cubePushDir = getCubePushDir f.1 f.2
  unaimed : t.car.motionMode = .cubeAnglePosition → t.car.targetAngleZSettedFlag = false →
    t.cycle.began = none
  aimed : t.car.motionMode = .cubeAnglePosition → t.car.targetAngleZSettedFlag = true →
    ∃ a, t.cycle.began = some a ∧ |t.car.targetGyroAngleZ - a| = 90
  late : Late t.car.motionMode → t.car.targetAngleZSettedFlag = false ∧
    ∃ a, t.cycle.began = some a ∧ 85 < |t.car.lineGyroAngleZ - a|

theorem init_inv {s : State} (h : Rest s) : Inv (begin s) where
  known := by simp [begin, h.mode]
  early := fun _ => ⟨h.setted, rfl⟩
  labelled := by simp [begin, h.mode]
  unaimed := by simp [begin, h.mode]
  aimed := by simp [begin, h.mode]
  late := by simp [begin, Late, h.mode]

theorem abs_pushAngle_sub (dir : CubePushDir) (a : ℚ) : |pushAngle dir a - a| = 90 := by
  cases dir <;> norm_num [pushAngle]

/-- The line's angle ends up next to the target. -/
theorem line_off_of_turned {target angle a : ℚ} (htarget : |target - a| = 90)
    (hclose : |target - angle| < 5) : 85 < |angle - a| := by
  have := abs_sub_abs_le_abs_sub (target - a) (target - angle)
  have heq : target - a - (target - angle) = angle - a := by ring
  rw [heq] at this
  linarith

theorem step_inv {t : Tracked} (inv : Inv t) (r : Readings) : Inv (step t r) := by
  rcases t with ⟨s, c⟩
  have htr := transition_motionModeCalc s r
  simp only [step, Cycle.after]
  generalize motionModeCalc s r = s' at htr
  cases htr with
  | spotted hmode =>
    rcases inv.early (.inl hmode) with ⟨hset, hbegan⟩
    simp only at hset hbegan
    constructor <;> simp [State.enter, Late, hmode, hset, hbegan]
  | lostApproaching hmode =>
    -- the cube has gone: the cycle ends before it has begun
    rcases inv.early (.inr (.inl hmode)) with ⟨hset, -⟩
    simp only at hset
    constructor <;> simp [Late, hset]
  | positioned hmode =>
    rcases inv.early (.inr (.inl hmode)) with ⟨hset, hbegan⟩
    simp only at hset hbegan
    constructor <;> simp [State.enter, Late, hmode, hset, hbegan]
  | lostIdentifying hmode =>
    rcases inv.early (.inr (.inr hmode)) with ⟨hset, -⟩
    simp only at hset
    constructor <;> simp [Late, hset]
  | waitBegun hmode =>
    rcases inv.early (.inr (.inr hmode)) with ⟨hset, hbegan⟩
    simp only at hset hbegan
    constructor <;> simp [Late, hmode, hset, hbegan]
  | identified hmode =>
    -- the cycle turns to its label
    rcases inv.early (.inr (.inr hmode)) with ⟨hset, hbegan⟩
    simp only at hset hbegan
    constructor <;> simp [State.enter, Early, Late, hmode, hset, hbegan]
  | aimed hmode hset =>
    -- the first call: the cycle begins, and the target is set
    have hbegan := inv.unaimed hmode hset
    have hlabel := inv.labelled hmode
    simp only at hbegan hlabel
    constructor <;> simp [Early, Late, hmode, hbegan, hlabel, abs_pushAngle_sub]
  | turned hmode hset hclose =>
    -- the car has turned, and the line's angle with it
    rcases inv.aimed hmode hset with ⟨a, hbegan, htarget⟩
    simp only at hbegan htarget
    have hoff := line_off_of_turned htarget hclose
    constructor <;> simp [State.enter, Early, hmode, hbegan, hoff]
  | turning hmode hset hclose =>
    -- on the way there the line's angle is not bound to anything
    rcases inv.aimed hmode hset with ⟨a, hbegan, htarget⟩
    have hlabel := inv.labelled hmode
    simp only at hbegan htarget hlabel
    constructor <;> simp [Early, Late, hmode, hset, hbegan, htarget, hlabel]
  | pushedOut hmode =>
    rcases inv.late (.inl hmode) with ⟨hset, hoff⟩
    simp only at hset hoff
    constructor <;> simp [State.enter, Early, hmode, hset, hoff]
  | backOnTrack hmode =>
    rcases inv.late (.inr (.inl hmode)) with ⟨hset, hoff⟩
    simp only at hset hoff
    constructor <;> simp [State.enter, Early, hmode, hset, hoff]
  | aligned hmode =>
    -- back on the line: no cycle is under way
    rcases inv.late (.inr (.inr hmode)) with ⟨hset, -⟩
    simp only at hset
    constructor <;> simp [State.enter, Late, hset]
  | reset hmode => exact absurd hmode inv.known
  | stay hmode =>
    by_cases hline : s.motionMode = .lineFollow
    · rcases inv.early (.inl hline) with ⟨hset, -⟩
      simp only at hset
      constructor <;> simp [Late, hline, hset]
    · simpa [hline, hmode] using inv

theorem inv_run {s : State} (h : Rest s) : ∀ tr, Inv (run step (begin s) tr) :=
  run_induction step (begin s) (fun _ t => Inv t) (init_inv h) fun _ r inv => step_inv inv r

/-! ## The heading -/

/-- The line's angle is the one at which the cycle began. -/
def Kept (t : Tracked) : Prop := ∀ a ∈ t.cycle.began, t.car.lineGyroAngleZ = a

/-- The call leaves the line's angle as it was when the cycle began; and if it brings the
car back to the line, the car is within 5 degrees of that angle. -/
def HeadingKept (_ : List Readings) (t : Tracked) (r : Readings) : Prop :=
  Kept (step t r) ∧
    (t.car.motionMode = .lineAngleBack → (step t r).car.motionMode = .lineFollow →
      ∃ a ∈ t.cycle.began, |r.angleZ - a| < 5)

/-- In `CUBE_ANGLE_POSITION` the call reads the angle at which the cycle began. -/
def Steady (_ : List Readings) (t : Tracked) (r : Readings) : Prop :=
  t.car.motionMode = .cubeAnglePosition → ∀ a ∈ t.cycle.began, r.angleZ = a

theorem lineGyroAngleZ_step (t : Tracked) (r : Readings) :
    (step t r).car.lineGyroAngleZ =
      if t.car.motionMode = .cubeAnglePosition then r.angleZ else t.car.lineGyroAngleZ :=
  (transition_motionModeCalc t.car r).lineGyroAngleZ_eq

/-- From `CUBE_ANGLE_POSITION` the cycle goes on. -/
theorem began_step_of_anglePosition {t : Tracked} (h : t.car.motionMode = .cubeAnglePosition)
    (r : Readings) : (step t r).cycle.began = t.cycle.began.or (some r.angleZ) := by
  have hmode := (transition_motionModeCalc t.car r).ne_lineFollow h
  simp [step, Cycle.after, hmode, h]

/-- Elsewhere it keeps the angle at which it began, or ends. -/
theorem began_step_of_ne {t : Tracked} (h : t.car.motionMode ≠ .cubeAnglePosition)
    (r : Readings) : ∀ a ∈ (step t r).cycle.began, a ∈ t.cycle.began := by
  simp only [step, Cycle.after, h, if_false]
  split_ifs <;> simp

theorem kept_step {t : Tracked} (hkept : Kept t) {r : Readings} (hsteady : Steady [] t r) :
    Kept (step t r) := by
  intro a ha
  rw [lineGyroAngleZ_step]
  by_cases h : t.car.motionMode = .cubeAnglePosition
  · rw [began_step_of_anglePosition h] at ha
    rw [if_pos h]
    cases hbegan : t.cycle.began with
    | none => simpa [hbegan] using ha
    | some b =>
      -- a later call: it reads the angle of the first one
      simp only [hbegan, Option.some_or, Option.mem_some_iff] at ha
      exact (hsteady h b hbegan).trans ha
  · rw [if_neg h]
    exact hkept a (began_step_of_ne h r a ha)

/-- The line's angle survives exactly the runs in which the car does not turn while it is
in `CUBE_ANGLE_POSITION`. -/
theorem heading_kept_iff (s : State) (h : Rest s) (tr : List Readings) :
    Along step (begin s) HeadingKept tr ↔ Along step (begin s) Steady tr := by
  constructor
  · refine along_of_inv step (begin s) HeadingKept Steady (fun _ _ => True)
      (fun _ _ => trivial) ?_ tr
    rintro before r - ⟨hkept, -⟩ hmode a ha
    -- what was read is what was written
    have hline := hkept a (by rw [began_step_of_anglePosition hmode, Option.mem_def.mp ha]; rfl)
    rwa [lineGyroAngleZ_step, if_pos hmode] at hline
  · refine along_of_inv step (begin s) Steady HeadingKept
      (fun _ t => Inv t ∧ Kept t) (fun tr htr => ⟨inv_run h tr, ?_⟩) ?_ tr
    · exact run_induction_along step (begin s) Steady (fun _ t => Kept t) (by simp [Kept, begin])
        (fun _ _ hkept hsteady => kept_step hkept hsteady) tr htr
    · rintro before r ⟨inv, hkept⟩ hsteady
      refine ⟨kept_step hkept hsteady, fun hmode hmode' => ?_⟩
      -- a car that comes back is close to the line's angle, which has been kept
      rcases inv.late (.inr (.inr hmode)) with ⟨-, a, hbegan, -⟩
      have hclose := (transition_motionModeCalc _ r).close_of_back hmode hmode'
      rw [hkept a hbegan] at hclose
      exact ⟨a, hbegan, hclose⟩

/-- In every run, a car that comes back to the line is more than 80 degrees off the angle
at which its cycle began. -/
theorem heading_lost (s : State) (h : Rest s) (tr : List Readings) (r : Readings)
    (hmode : (run step (begin s) tr).car.motionMode = .lineAngleBack)
    (hmode' : (step (run step (begin s) tr) r).car.motionMode = .lineFollow) :
    ∃ a ∈ (run step (begin s) tr).cycle.began, 80 < |r.angleZ - a| := by
  rcases (inv_run h tr).late (.inr (.inr hmode)) with ⟨-, a, hbegan, hoff⟩
  have hclose := (transition_motionModeCalc _ r).close_of_back hmode hmode'
  refine ⟨a, hbegan, ?_⟩
  have htri := abs_sub_le (run step (begin s) tr).car.lineGyroAngleZ r.angleZ a
  rw [abs_sub_comm (run step (begin s) tr).car.lineGyroAngleZ r.angleZ] at htri
  linarith

/-! ## The label -/

/-- The electronic peripherals, which are pushed to the left. -/
def Peripheral (cls : UInt8) : Prop :=
  cls = CubeFaceInfoClass.mouse.val ∨ cls = CubeFaceInfoClass.keyboard.val ∨
    cls = CubeFaceInfoClass.monitor.val ∨ cls = CubeFaceInfoClass.headphones.val ∨
    cls = CubeFaceInfoClass.speaker.val ∨ cls = CubeFaceInfoClass.printer.val ∨
    cls = CubeFaceInfoClass.mobilePhone.val

instance (cls : UInt8) : Decidable (Peripheral cls) := inferInstanceAs (Decidable (_ ∨ _))

/-- The direction that a label demands: odd numbers and peripherals to the left, even
numbers and tools to the right. -/
def demandedDir (cls : UInt8) (number : UInt8) : CubePushDir :=
  if (cls = CubeFaceInfoClass.number.val ∧ number % 2 ≠ 0) ∨ Peripheral cls then .left else .right

/-- The labels on which `get_cube_push_dir` does what the label demands: numbers that are
even; and, where the number happens to equal the class, peripherals with an odd one and
others with an even one. -/
def RuleAgrees (cls : UInt8) (number : UInt8) : Prop :=
  if cls = CubeFaceInfoClass.number.val then number % 2 = 0
  else cls = number → (number % 2 ≠ 0 ↔ Peripheral cls)

instance (cls : UInt8) (number : UInt8) : Decidable (RuleAgrees cls number) :=
  inferInstanceAs (Decidable (ite _ _ _))

theorem getCubePushDir_eq (cls : UInt8) (number : UInt8) :
    getCubePushDir cls number =
      if cls = number then (if number % 2 ≠ 0 then .left else .right)
      else if Peripheral cls then .left else .right := rfl

theorem getCubePushDir_eq_demandedDir_iff (cls : UInt8) (number : UInt8) :
    getCubePushDir cls number = demandedDir cls number ↔ RuleAgrees cls number := by
  rw [getCubePushDir_eq, demandedDir, RuleAgrees]
  by_cases hnum : cls = CubeFaceInfoClass.number.val
  · -- the class `number` itself is even, and no peripheral
    have hper : ¬ Peripheral cls := by rw [hnum]; decide
    have heven : cls = number → number % 2 = 0 := by
      intro heq
      have h8 : number = 8 := heq.symm.trans hnum
      rw [h8]
      rfl
    by_cases hodd : number % 2 = 0 <;> by_cases heq : cls = number <;> simp_all
  · by_cases hodd : number % 2 = 0 <;> by_cases heq : cls = number <;>
      by_cases hper : Peripheral cls <;> simp_all

/-- At the first call of a cycle in `CUBE_ANGLE_POSITION`, the target lies to the side that
the label of the cycle demands. -/
def PushedAsLabelled (_ : List Readings) (t : Tracked) (r : Readings) : Prop :=
  t.car.motionMode = .cubeAnglePosition → t.cycle.began = none →
    ∃ f ∈ t.cycle.face,
      (step t r).car.targetGyroAngleZ = pushAngle (demandedDir f.1 f.2) r.angleZ

/-- At that call, the label of the cycle is one on which the rule agrees. -/
def LabelHonoured (_ : List Readings) (t : Tracked) (_ : Readings) : Prop :=
  t.car.motionMode = .cubeAnglePosition → t.cycle.began = none →
    ∃ f ∈ t.cycle.face, RuleAgrees f.1 f.2

instance (before : List Readings) (t : Tracked) (r : Readings) :
    Decidable (PushedAsLabelled before t r) :=
  inferInstanceAs (Decidable (_ → _ → ∃ _ ∈ _, _))

theorem pushAngle_injective {dir dir' : CubePushDir} {a : ℚ}
    (h : pushAngle dir a = pushAngle dir' a) : dir = dir' := by
  cases dir <;> cases dir' <;> simp only [pushAngle] at h ⊢ <;> linarith

/-- The cube is pushed as its label demands exactly in the runs whose labels are ones on
which the rule agrees. -/
theorem pushed_as_labelled_iff (s : State) (h : Rest s) (tr : List Readings) :
    Along step (begin s) PushedAsLabelled tr ↔ Along step (begin s) LabelHonoured tr := by
  have hiff : ∀ t r, Inv t → (PushedAsLabelled [] t r ↔ LabelHonoured [] t r) := by
    intro t r inv
    refine forall_congr' fun hmode => forall_congr' fun hbegan => ?_
    -- the first call aims by the direction that the label has got
    have hset : t.car.targetAngleZSettedFlag = false := by
      by_contra hset
      rcases inv.aimed hmode (by simpa using hset) with ⟨a, ha, -⟩
      simp [hbegan] at ha
    rcases inv.labelled hmode with ⟨f, hface, hdir⟩
    have htarget := (transition_motionModeCalc t.car r).target_of_aimed hmode hset
    simp only [hface, Option.mem_some_iff, exists_eq_left', step, htarget, hdir]
    rw [← getCubePushDir_eq_demandedDir_iff]
    exact ⟨pushAngle_injective, fun heq => by rw [heq]⟩
  constructor
  · exact along_of_inv step (begin s) _ _ (fun _ t => Inv t) (fun tr _ => inv_run h tr)
      (fun _ r inv => (hiff _ r inv).mp) tr
  · exact along_of_inv step (begin s) _ _ (fun _ t => Inv t) (fun tr _ => inv_run h tr)
      (fun _ r inv => (hiff _ r inv).mpr) tr

/-! ## A whole cycle -/

/-- Readings with a cube in position, and the label `cls`, `number`. -/
def reading (cls : UInt8) (number : UInt8) (angle : ℚ) (gray : UInt8) (timer : UInt32) :
    Readings where
  cubeInfo := ⟨CubeDetectionState.cubeInsideView.val, 160, 120, 20000, 0⟩
  angleZ := angle
  grayscaleData := gray
  currentCubeFaceInfo := ⟨true, cls, ⟨.fin 0, none⟩, number, .fin 0⟩
  timer := timer

/-- From `LINE_FOLLOW` to `LINE_FOLLOW`: the cube is found, identified for three seconds,
aimed at, turned around to 88 degrees, pushed out, and the car comes back. -/
def pushRun (cls : UInt8) (number : UInt8) : List Readings :=
  [reading cls number 0 0 0, reading cls number 0 0 0, reading cls number 0 0 0,
   reading cls number 0 0 3000, reading cls number 0 0 3000, reading cls number 88 0 3000,
   reading cls number 88 grayOutTrack 3000, reading cls number 88 grayInTrack 3000,
   reading cls number 88 0 3000]

theorem heading_kept_iff_pushRun :
    Along step (begin start) HeadingKept (pushRun 8 2) ↔
      Along step (begin start) Steady (pushRun 8 2) :=
  heading_kept_iff start rest_start (pushRun 8 2)

instance (before : List Readings) (t : Tracked) (r : Readings) :
    Decidable (HeadingKept before t r) :=
  inferInstanceAs (Decidable ((∀ _ ∈ _, _) ∧ (_ → _ → ∃ _ ∈ _, _)))

/-- The car comes back at 88 degrees to a line that it left at 0. -/
theorem heading_not_kept : ¬ Along step (begin start) HeadingKept (pushRun 8 2) := by
  decide +kernel

theorem pushed_as_labelled_iff_pushRun :
    Along step (begin start) PushedAsLabelled (pushRun 8 2) ↔
      Along step (begin start) LabelHonoured (pushRun 8 2) :=
  pushed_as_labelled_iff start rest_start (pushRun 8 2)

/-- The number 1 is odd, and is pushed to the right. -/
theorem not_pushed_as_labelled :
    ¬ Along step (begin start) PushedAsLabelled (pushRun CubeFaceInfoClass.number.val 1) := by
  decide +kernel

end SmartCar.Motion
