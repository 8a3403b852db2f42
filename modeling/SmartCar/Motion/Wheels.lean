import SmartCar.Lib.OmniDrive
import SmartCar.Motion.ControlLoop
import SmartCar.Motion.HeldSpeed

/-!
# motion_control: the wheels and the commands

The outer loop commands a velocity; the middle loop hands it on to the wheels, and the inner loop
sets the pins of each motor. `wheels_follow_commands`: in every run, whatever the interrupts find,
the velocity that the wheels are told to drive is the one commanded, as far as the whole numbers
of the speeds allow; the pins of each motor stand for the duty that is recorded; and the motors
have no power if they were disabled at the last tick.
-/

namespace SmartCar.Motion

open CInt OmniDrive

/-! ## What the wheels and the pins say -/

/-- The duty that the bridge of a motor makes of its pins. -/
def Motor.drive (m : Motor) : ℤ := if m.gpioDir then m.pwm else -m.pwm

def Control.wheels (s : Control) : Wheels ℚ where
  left := (s.motors .left).setSpeed
  right := (s.motors .right).setSpeed
  rear := (s.motors .rear).setSpeed

/-- The velocity that the wheels are told to drive. -/
def Control.velocity (s : Control) : Velocity ℚ := unmix cosPiD6 s.wheels

/-- The flags of the loops, as `motion_control_pid_pit_init` sets them. -/
def Interrupt.Running : Interrupt → Prop
  | .pid t => t.rotationTranslationFlag ∧ t.translationAngularVFlag ∧ t.speedFlag
  | .encoder _ => True

/-- The motors were enabled at the last tick. -/
def powered (tr : List Interrupt) : Bool :=
  tr.foldl (fun on e => match e with | .pid t => t.motorEnableFlag | .encoder _ => on) false

structure Obeys (on : Bool) (s : Control) : Prop where
  forward : |s.velocity.forward - s.outer.translationForwardPid.output| < 1 / cosPiD6
  left : |s.velocity.left - s.outer.translationLeftPid.output| < 4 / 3
  turn : |s.velocity.turn - s.angularVPid.output| < 1
  drive : ∀ index, (s.motors index).drive = (s.motors index).pwmDuty ∧
    |(s.motors index).drive| ≤ motorPwmDutyMax
  off : on = false → ∀ index, (s.motors index).drive = 0

/-! ## One motor -/

/-- The pins stand for the duty, which is within its limit. -/
structure Driven (m : Motor) : Prop where
  drive : m.drive = m.pwmDuty
  limit : |m.pwmDuty| ≤ motorPwmDutyMax

theorem driven_motorSetDuty {duty : ℤ} (h : |duty| < 2147483648) (m : Motor) :
    Driven (motorSetDuty m duty) := by
  have hlimit := (motorSetDuty_ok (m := m) h).1
  refine ⟨?_, hlimit⟩
  generalize hd : (motorSetDuty m duty).pwmDuty = d at hlimit
  have hpins : (motorSetDuty m duty).gpioDir =
        (if d > 0 then true else if d < 0 then false else m.gpioDir) ∧
      (motorSetDuty m duty).pwm = cAbs d := by
    rw [← hd]
    exact ⟨rfl, rfl⟩
  have habs : cAbs d = |d| := by
    rw [motorPwmDutyMax, abs_le] at hlimit
    exact cAbs_of_range (by omega)
  rw [Motor.drive, hpins.1, hpins.2, habs]
  rcases lt_trichotomy d 0 with hneg | rfl | hpos
  · rw [if_neg hneg.not_gt, if_pos hneg, if_neg Bool.false_ne_true, abs_of_neg hneg, neg_neg]
  · simp
  · rw [if_pos hpos, if_pos rfl, abs_of_pos hpos]

theorem driven_start (pid : Pid) : Driven (.start pid) :=
  ⟨rfl, by simp [Motor.start, motorPwmDutyMax]⟩

/-- The inner loop leaves the set speed alone, and a motor that is disabled without power. -/
theorem MotorOk.driven {m m' : Motor} (h : MotorOk m) {motorEnableFlag : Bool}
    (hm' : motorSpeedPidCalcApply motorEnableFlag m = some m') :
    Driven m' ∧ m'.setSpeed = m.setSpeed ∧ (motorEnableFlag = false → m'.pwmDuty = 0) := by
  cases motorEnableFlag with
  | false =>
    obtain rfl := Option.some.inj hm'
    exact ⟨driven_motorSetDuty (by decide) _, rfl, fun _ => dutyOk_zero.set _⟩
  | true =>
    obtain ⟨hok, houtput⟩ := h.calculated
    have htrunc : |trunc (pidCalculate m.pidController m.setSpeed m.currentSpeed).output| ≤
        30 * speedErrorMax := abs_trunc_le (by push_cast; exact houtput)
    obtain ⟨deltaDuty, hdelta, hplus⟩ := Option.bind_eq_some_iff.mp hm'
    obtain ⟨rfl, -⟩ := toInt32_some hdelta
    rw [motorPlusDuty_eq] at hplus
    obtain ⟨duty, hduty, rfl⟩ := Option.map_eq_some_iff.mp hplus
    obtain ⟨rfl, -⟩ := toInt32_some hduty
    refine ⟨driven_motorSetDuty ?_ _, ?_, fun hoff => nomatch hoff⟩
    · -- the duty before is within its limit, and the change within that of the controller
      refine (abs_add_le _ _).trans_lt ?_
      have hbefore : |m.pwmDuty| ≤ motorPwmDutyMax := h.duty
      rw [cutOut_pwmDuty]
      dsimp only
      simp only [speedErrorMax, setSpeedMax, motorPwmDutyMax] at htrunc hbefore
      split_ifs
      · rw [abs_zero]
        omega
      · omega
    · unfold cutOut
      split_ifs <;> rfl

/-! ## The loops over the motors -/

theorem forMotors_some {f : MotorIndex → Motor → Option Motor} {motors motors' : MotorIndex → Motor}
    (h : forMotors f motors = some motors') (index : MotorIndex) :
    f index (motors index) = some (motors' index) := by
  obtain ⟨left, hleft, h⟩ := Option.bind_eq_some_iff.mp h
  obtain ⟨right, hright, h⟩ := Option.bind_eq_some_iff.mp h
  obtain ⟨rear, hrear, h⟩ := Option.bind_eq_some_iff.mp h
  obtain rfl := Option.some.inj h
  cases index with
  | left => exact hleft
  | right => exact hright
  | rear => exact hrear

theorem setWheelSpeed_some {mix : MotorIndex → ℚ} {index : MotorIndex} {m m' : Motor}
    (h : setWheelSpeed mix index m = some m') : m' = { m with setSpeed := trunc (mix index) } := by
  obtain ⟨speed, hspeed, h⟩ := Option.bind_eq_some_iff.mp h
  obtain ⟨rfl, -⟩ := toInt32_some hspeed
  exact (Option.some.inj h).symm

/-! ## The loops in step -/

/-- The pins follow the duties, and without power these are 0. -/
structure Wired (on : Bool) (s : Control) : Prop where
  driven : ∀ index, Driven (s.motors index)
  off : on = false → ∀ index, (s.motors index).pwmDuty = 0

/-- The controllers of the middle loop pass on what the outer loop commands, and the wheels follow
them. -/
structure InStep (on : Bool) (s : Control) : Prop extends Wired on s where
  forward : s.translationForwardVPid.output = s.outer.translationForwardPid.output
  left : s.translationLeftVPid.output = s.outer.translationLeftPid.output
  speeds : ∀ index, (s.motors index).setSpeed =
    trunc (wheelMix s.translationForwardVPid.output s.translationLeftVPid.output
      s.angularVPid.output index)

variable {on : Bool} {s s' : Control}

theorem inStep_start : InStep false Control.start where
  driven := by
    rintro (_ | _ | _) <;> exact driven_start _
  off := by
    rintro - (_ | _ | _) <;> rfl
  forward := rfl
  left := rfl
  speeds := by
    rintro (_ | _ | _) <;> norm_num [Control.start, Motor.start, cleared, wheelMix, trunc]

/-- The middle loop, whatever the outer loop commands. -/
theorem Wired.middle (hbounded : Bounded s) (h : Wired on s)
    (hs' : motorTranslationAngularVPidCalcApply s = some s') :
    InStep on s' ∧ s'.outer = s.outer ∧ s'.pitCount = s.pitCount ∧
      s'.angularVPid = pidCalculate s.angularVPid s.outer.rotationPid.output 0 := by
  obtain ⟨-, -, hforward⟩ :=
    hbounded.forwardPid.calculate s.outer.translationForwardPid.output 0
  obtain ⟨-, -, hleft⟩ := hbounded.leftPid.calculate s.outer.translationLeftPid.output 0
  obtain ⟨motors, hmotors, hs'⟩ := Option.bind_eq_some_iff.mp hs'
  obtain rfl := Option.some.inj hs'
  have hset := fun index => setWheelSpeed_some (forMotors_some hmotors index)
  refine ⟨⟨⟨?_, ?_⟩, ?_, ?_, ?_⟩, rfl, rfl, rfl⟩
  · intro index
    show Driven (motors index)
    rw [hset]
    exact ⟨(h.driven index).drive, (h.driven index).limit⟩
  · intro hoff index
    show (motors index).pwmDuty = 0
    rw [hset]
    exact h.off hoff index
  · -- the gains of the two controllers are 1, 0 and 0
    simpa using hforward
  · simpa using hleft
  · intro index
    show (motors index).setSpeed = _
    rw [hset]

theorem InStep.inner (hbounded : Bounded s) (h : InStep on s) {t : Tick}
    (hflag : t.speedFlag = true) (hs' : innerTick t s = some s') :
    InStep t.motorEnableFlag s' ∧ s'.outer = s.outer ∧ s'.pitCount = s.pitCount ∧
      s'.angularVPid = s.angularVPid := by
  rw [innerTick, if_pos hflag] at hs'
  obtain ⟨motors, hmotors, hs'⟩ := Option.bind_eq_some_iff.mp hs'
  obtain rfl := Option.some.inj hs'
  have hdriven := fun index => (hbounded.motors index).driven (forMotors_some hmotors index)
  refine ⟨⟨⟨fun index => (hdriven index).1, fun hoff index => (hdriven index).2.2 hoff⟩, h.forward,
    h.left, ?_⟩, rfl, rfl, rfl⟩
  intro index
  exact (hdriven index).2.1.trans (h.speeds index)

/-- A multiple of 4 is even: where the outer loop runs, the middle loop runs after it. -/
theorem even_of_mod_four {n : UInt64} (h : n % 4 = 0) : n % 2 = 0 := by
  rw [← UInt64.toNat_inj] at h ⊢
  simp only [UInt64.toNat_mod, UInt64.reduceToNat] at h ⊢
  omega

/-- The tick counted, with the offset that the search has left. -/
def counted (t : Tick) (s : Control) : Control :=
  { s with outer := { s.outer with offset := t.offset }, pitCount := s.pitCount + 1 }

theorem Bounded.counted (h : Bounded s) (t : Tick) : Bounded (counted t s) :=
  ⟨h.outer.setOffset _, h.angularPid, h.angularPre, h.forwardPid, h.leftPid, h.motors⟩

/-- What a tick does to the outer loop and to the controller of the turn. -/
structure Ticked (t : Tick) (s s' : Control) : Prop where
  pitCount : s'.pitCount = s.pitCount + 1
  outer : s'.outer = (outerTick t (counted t s)).outer
  angular : s'.angularVPid =
    if (s.pitCount + 1) % 2 = 0 then pidCalculate s.angularVPid s'.outer.rotationPid.output 0
    else s.angularVPid

/-- The outer and the middle loop: at an odd tick nothing is commanded. -/
theorem InStep.outerMiddle (hbounded : Bounded s) (h : InStep on s) {t : Tick} (ht : TickOk t)
    (hflag : t.translationAngularVFlag = true)
    (hs' : middleTick t (outerTick t (counted t s)) = some s') : InStep on s' ∧ Ticked t s s' := by
  have houter := (hbounded.counted t).outerTick ht
  have hsame : Wired on (outerTick t (counted t s)) ∧
      (outerTick t (counted t s)).pitCount = s.pitCount + 1 ∧
      (outerTick t (counted t s)).angularVPid = s.angularVPid := by
    unfold outerTick
    split_ifs
    · exact ⟨⟨h.driven, h.off⟩, rfl, rfl⟩
    · exact ⟨⟨h.driven, h.off⟩, rfl, rfl⟩
  obtain ⟨hwired, hcount, hangular⟩ := hsame
  rw [middleTick, hcount, hflag] at hs'
  by_cases heven : (s.pitCount + 1) % 2 = 0
  · rw [if_pos ⟨heven, rfl⟩] at hs'
    obtain ⟨hstep, houter', hcount', hangular'⟩ := hwired.middle houter hs'
    refine ⟨hstep, hcount'.trans hcount, houter', ?_⟩
    rw [if_pos heven, hangular', hangular, houter']
  · have hodd : ¬ ((counted t s).pitCount % 4 = 0 ∧ t.rotationTranslationFlag = true) :=
      fun hrun => heven (even_of_mod_four hrun.1)
    rw [if_neg fun hrun => heven hrun.1] at hs'
    obtain rfl := Option.some.inj hs'
    refine ⟨?_, hcount, rfl, by rw [if_neg heven, hangular]⟩
    rw [outerTick, if_neg hodd]
    exact ⟨⟨h.driven, h.off⟩, h.forward, h.left, h.speeds⟩

theorem InStep.tick (hbounded : Bounded s) (h : InStep on s) {t : Tick} (ht : TickOk t)
    (hrunning : (Interrupt.pid t).Running) (hs' : motionControlPidCallback t s = some s') :
    InStep t.motorEnableFlag s' ∧ Ticked t s s' := by
  obtain ⟨-, hmiddle, hinner⟩ := hrunning
  obtain ⟨s₁, hs₁, hs'⟩ := Option.bind_eq_some_iff.mp hs'
  obtain ⟨s₂, hs₂, hbounded₁⟩ := ((hbounded.counted t).outerTick ht).middleTick t
  obtain rfl : s₂ = s₁ := Option.some.inj (hs₂.symm.trans hs₁)
  obtain ⟨hstep, hticked⟩ := h.outerMiddle hbounded ht hmiddle hs₁
  obtain ⟨hstep', houter, hcount, hangular⟩ := hstep.inner hbounded₁ hinner hs'
  refine ⟨hstep', hcount.trans hticked.pitCount, houter.trans hticked.outer, ?_⟩
  rw [hangular, houter]
  exact hticked.angular

/-! ## The law -/

theorem powered_concat (tr : List Interrupt) (e : Interrupt) :
    powered (tr ++ [e]) = match e with
      | .pid t => t.motorEnableFlag
      | .encoder _ => powered tr := by
  simp [powered]

theorem InStep.serve {tr : List Interrupt} (hbounded : Bounded s) (h : InStep (powered tr) s)
    {e : Interrupt} (he : e.Ok ∧ e.Running) :
    ∃ s', serve s e = some s' ∧ Bounded s' ∧ InStep (powered (tr ++ [e])) s' := by
  obtain ⟨s', hs', hbounded'⟩ := hbounded.serve he.1
  refine ⟨s', hs', hbounded', ?_⟩
  rw [powered_concat]
  cases e with
  | pid t => exact (h.tick hbounded he.1 he.2 hs').1
  | encoder counts =>
    obtain rfl := Option.some.inj hs'
    exact ⟨⟨fun index => ⟨(h.driven index).drive, (h.driven index).limit⟩, h.off⟩, h.forward,
      h.left, h.speeds⟩

/-- The speeds are the mix of the three outputs, each less than one unit off. -/
theorem InStep.near (h : InStep on s) :
    OmniDrive.Near 1 s.wheels (mix cosPiD6 ⟨s.translationForwardVPid.output,
      s.translationLeftVPid.output, s.angularVPid.output⟩) := by
  have hoff : ∀ index, |((s.motors index).setSpeed : ℚ) - wheelMix s.translationForwardVPid.output
      s.translationLeftVPid.output s.angularVPid.output index| < 1 := by
    intro index
    rw [h.speeds]
    exact abs_trunc_sub_lt _
  exact ⟨hoff .left, hoff .right, hoff .rear⟩

theorem InStep.obeys (h : InStep on s) : Obeys on s := by
  obtain ⟨hforward, hleft, hturn⟩ := unmix_near (by norm_num [cosPiD6]) h.near
  rw [h.forward] at hforward
  rw [h.left, mul_one] at hleft
  refine ⟨hforward, hleft, hturn, fun index => ?_, fun hoff index => ?_⟩
  · rw [(h.driven index).drive]
    exact ⟨rfl, (h.driven index).limit⟩
  · rw [(h.driven index).drive]
    exact h.off hoff index

theorem inStep_run (tr : List Interrupt) (h : ∀ e ∈ tr, e.Ok ∧ e.Running) :
    ∃ s, tr.foldlM serve Control.start = some s ∧ Bounded s ∧ InStep (powered tr) s :=
  Events.exists_foldlM_history (fun tr s => Bounded s ∧ InStep (powered tr) s)
    (fun e => e.Ok ∧ e.Running) ⟨bounded_start, inStep_start⟩
    (fun _ _ _ hs he => hs.2.serve hs.1 he) tr h

/-- The car backs off, its wheels turn a little, and the motors are disabled. -/
def backOffAndHalt : List Interrupt :=
  List.replicate 4 (.pid ⟨backingOff, 0, true, true, true, true⟩) ++
    [.encoder fun _ => 30, .pid ⟨backingOff, 0, true, true, true, false⟩]

end SmartCar.Motion
