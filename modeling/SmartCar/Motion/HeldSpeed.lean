import SmartCar.Motion.Motor

/-!
# motion_control: a wheel that holds its speed

While a wheel turns exactly as fast as it is told to, its controller asks for no change of the
duty. But the controller counts these ticks, and from the 300th on `motor_plus_duty` takes the
power away, whether the wheel is to stand or to turn.

* `Settled`: what holds from the second such tick on;
* `power_kept_iff`: the duty stays as it is exactly until the count is full.
-/

namespace SmartCar.Motion

open CInt

variable {m m' : Motor}

/-! ## Ticks at the set speed -/

/-- `motor_speed_pid_calc_apply`, with the motors enabled, for a wheel that has the speed `v`
that is set. -/
def heldTick (m : Motor) (v : ℤ) : Option Motor :=
  motorSpeedPidCalcApply true { m with setSpeed := v, currentSpeed := v }

/-- The controller after such a tick. -/
def heldPid (pid : Pid) (v : ℤ) : Pid := pidCalculate pid v v

theorem heldPid_inc {pid : Pid} (htype : pid.type = .inc) (v : ℤ) :
    (heldPid pid v).type = .inc ∧ (heldPid pid v).preError = 0 ∧
      (heldPid pid v).prePreError = pid.preError ∧
      (heldPid pid v).errorZeroCount = pid.errorZeroCount + 1 ∧
      (heldPid pid v).output =
        pid.kp * (0 - pid.preError) + pid.kd * (0 - 2 * pid.preError + pid.prePreError) := by
  simp [heldPid, pidCalculate, htype]

/-! ## The duty -/

/-- A duty that `motor_set_duty` leaves as it is. -/
structure DutyOk (duty : ℤ) : Prop where
  range : -2147483648 ≤ duty ∧ duty < 2147483648
  limit : cAbs duty ≤ motorPwmDutyMax

theorem DutyOk.set {duty : ℤ} (h : DutyOk duty) (m : Motor) :
    (motorSetDuty m duty).pwmDuty = duty := by
  simp only [motorSetDuty]
  rw [if_neg (not_lt.mpr h.limit)]

theorem dutyOk_zero : DutyOk 0 := ⟨by decide, by decide⟩

theorem dutyOk_motorSetDuty {duty : ℤ} (h : -2147483648 ≤ duty ∧ duty < 2147483648) (m : Motor) :
    DutyOk (motorSetDuty m duty).pwmDuty := by
  simp only [motorSetDuty]
  split_ifs with hgt
  · exact ⟨by decide, by decide⟩
  · exact ⟨by decide, by decide⟩
  · exact ⟨h, not_lt.mp hgt⟩

theorem toInt32_some {z w : ℤ} (h : toInt32 z = some w) :
    w = z ∧ -2147483648 ≤ z ∧ z < 2147483648 := by
  unfold toInt32 at h
  split_ifs at h with hrange
  exact ⟨(Option.some.inj h).symm, hrange⟩

/-- The motor that `motor_plus_duty` adds to: from the 300th tick on it starts from 0. -/
def cutOut (m : Motor) : Motor :=
  if m.pidController.errorZeroCount ≥ 300 then motorSetDuty m 0 else m

theorem motorPlusDuty_eq (m : Motor) (deltaDuty : ℤ) :
    motorPlusDuty m deltaDuty =
      (toInt32 ((cutOut m).pwmDuty + deltaDuty)).map (motorSetDuty (cutOut m)) := by
  rw [Option.map_eq_bind]
  rfl

theorem cutOut_pidController (m : Motor) : (cutOut m).pidController = m.pidController := by
  unfold cutOut
  split_ifs <;> rfl

theorem cutOut_pwmDuty (m : Motor) :
    (cutOut m).pwmDuty = if m.pidController.errorZeroCount ≥ 300 then 0 else m.pwmDuty := by
  unfold cutOut
  split_ifs with hcount
  · exact dutyOk_zero.set m
  · rfl

/-- What `motor_plus_duty` leaves. -/
theorem motorPlusDuty_some {deltaDuty : ℤ} (h : motorPlusDuty m deltaDuty = some m') :
    m'.pidController = m.pidController ∧ DutyOk m'.pwmDuty := by
  rw [motorPlusDuty_eq] at h
  obtain ⟨duty, hduty, rfl⟩ := Option.map_eq_some_iff.mp h
  obtain ⟨rfl, hrange⟩ := toInt32_some hduty
  exact ⟨cutOut_pidController m, dutyOk_motorSetDuty hrange _⟩

/-- Without a change of the duty, it is kept or taken away. -/
theorem motorPlusDuty_zero (h : DutyOk m.pwmDuty) :
    ∃ m', motorPlusDuty m 0 = some m' ∧ m'.pidController = m.pidController ∧
      m'.pwmDuty = if m.pidController.errorZeroCount ≥ 300 then 0 else m.pwmDuty := by
  have hduty : DutyOk (cutOut m).pwmDuty := by
    rw [cutOut_pwmDuty]
    split_ifs
    · exact dutyOk_zero
    · exact h
  have hint : toInt32 ((cutOut m).pwmDuty + 0) = some (cutOut m).pwmDuty := by
    rw [add_zero]
    exact if_pos hduty.range
  refine ⟨motorSetDuty (cutOut m) (cutOut m).pwmDuty, ?_, cutOut_pidController m, ?_⟩
  · rw [motorPlusDuty_eq, hint]
    rfl
  · rw [hduty.set, cutOut_pwmDuty]

/-! ## Settled wheels -/

/-- The motor before its duty is changed. -/
def calculated (m : Motor) (v : ℤ) : Motor :=
  { m with setSpeed := v, currentSpeed := v, pidController := heldPid m.pidController v }

theorem heldTick_eq (m : Motor) (v : ℤ) :
    heldTick m v = (toInt32 (trunc (heldPid m.pidController v).output)).bind
      (motorPlusDuty (calculated m v)) := rfl

/-- The controller after a tick, and a duty that has been set. -/
theorem heldTick_some (h : heldTick m v = some m') :
    m'.pidController = heldPid m.pidController v ∧ DutyOk m'.pwmDuty := by
  obtain ⟨deltaDuty, -, hplus⟩ := Option.bind_eq_some_iff.mp h
  exact motorPlusDuty_some hplus

/-- The errors that the controller keeps are 0, and the duty is one that has been set. -/
structure Settled (m : Motor) : Prop where
  type : m.pidController.type = .inc
  preError : m.pidController.preError = 0
  prePreError : m.pidController.prePreError = 0
  duty : DutyOk m.pwmDuty

/-- Two ticks settle the controller. -/
theorem settled_of_ticks {m₁ m₂ : Motor} {v₁ v₂ : ℤ} (htype : m.pidController.type = .inc)
    (h₁ : heldTick m v₁ = some m₁) (h₂ : heldTick m₁ v₂ = some m₂) : Settled m₂ := by
  obtain ⟨hpid₁, -⟩ := heldTick_some h₁
  obtain ⟨hpid₂, hduty⟩ := heldTick_some h₂
  obtain ⟨htype₁, hpre₁, -⟩ := heldPid_inc htype v₁
  rw [← hpid₁] at htype₁ hpre₁
  -- the second tick moves the error of the first, which is 0, to `pre_pre_error`
  obtain ⟨htype₂, hpre₂, hprePre₂, -⟩ := heldPid_inc htype₁ v₂
  rw [← hpid₂] at htype₂ hpre₂ hprePre₂
  exact ⟨htype₂, hpre₂, hprePre₂.trans hpre₁, hduty⟩

/-- A tick of a settled wheel counts, and keeps the duty or takes it away. -/
theorem Settled.tick (h : Settled m) (v : ℤ) :
    ∃ m', heldTick m v = some m' ∧ Settled m' ∧
      m'.pidController.errorZeroCount = m.pidController.errorZeroCount + 1 ∧
      m'.pwmDuty = if m.pidController.errorZeroCount + 1 ≥ 300 then 0 else m.pwmDuty := by
  obtain ⟨htype, hpre, hprePre, hcount, houtput⟩ := heldPid_inc h.type v
  rw [h.preError] at hprePre
  rw [h.preError, h.prePreError] at houtput
  -- three errors that are 0 give no output, whatever the gains
  have hdelta : toInt32 (trunc (heldPid m.pidController v).output) = some 0 := by
    rw [houtput]
    norm_num [trunc, toInt32]
  obtain ⟨m', hm', hpid, hduty⟩ := motorPlusDuty_zero (m := calculated m v) h.duty
  have htick : heldTick m v = some m' := by
    rw [heldTick_eq, hdelta]
    exact hm'
  refine ⟨m', htick, ⟨?_, ?_, ?_, (heldTick_some htick).2⟩, ?_, ?_⟩
  · rw [hpid]
    exact htype
  · rw [hpid]
    exact hpre
  · rw [hpid]
    exact hprePre
  · rw [hpid]
    exact hcount
  · rw [hduty]
    simp only [calculated, hcount]

/-! ## Runs -/

/-- Until the count is full, the duty is kept. -/
theorem Settled.run (h : Settled m) (vs : List ℤ)
    (hcount : m.pidController.errorZeroCount.toNat + vs.length < 300) :
    ∃ m', vs.foldlM heldTick m = some m' ∧ Settled m' ∧ m'.pwmDuty = m.pwmDuty ∧
      m'.pidController.errorZeroCount.toNat =
        m.pidController.errorZeroCount.toNat + vs.length := by
  induction vs generalizing m with
  | nil => exact ⟨m, rfl, h, rfl, rfl⟩
  | cons v vs ih =>
    rw [List.length_cons] at hcount
    obtain ⟨m₁, hm₁, hsettled, hcount₁, hduty⟩ := h.tick v
    have hnat : m₁.pidController.errorZeroCount.toNat =
        m.pidController.errorZeroCount.toNat + 1 := by
      rw [hcount₁, UInt32.toNat_add]
      simp
      omega
    -- the count is not full after this tick
    rw [if_neg] at hduty
    · obtain ⟨m', hm', hsettled', hduty', hcount'⟩ := ih hsettled (by omega)
      refine ⟨m', ?_, hsettled', hduty'.trans hduty, ?_⟩
      · rw [List.foldlM_cons, hm₁]
        exact hm'
      · rw [hcount', hnat, List.length_cons]
        omega
    · rw [← hcount₁, ge_iff_le, UInt32.le_iff_toNat_le, hnat]
      simp
      omega

/-- A wheel without power stays so. -/
theorem Settled.run_idle (h : Settled m) (hduty : m.pwmDuty = 0) (vs : List ℤ) :
    ∃ m', vs.foldlM heldTick m = some m' ∧ m'.pwmDuty = 0 := by
  induction vs generalizing m with
  | nil => exact ⟨m, rfl, hduty⟩
  | cons v vs ih =>
    obtain ⟨m₁, hm₁, hsettled, -, hduty₁⟩ := h.tick v
    rw [hduty, ite_self] at hduty₁
    obtain ⟨m', hm', hduty'⟩ := ih hsettled hduty₁
    refine ⟨m', ?_, hduty'⟩
    rw [List.foldlM_cons, hm₁]
    exact hm'

/-- The tick that fills the count takes the power away. -/
theorem Settled.run_cut (h : Settled m) (vs : List ℤ) (v : ℤ)
    (hcount : m.pidController.errorZeroCount.toNat + vs.length = 299) :
    ∃ m', (vs ++ [v]).foldlM heldTick m = some m' ∧ m'.pwmDuty = 0 := by
  obtain ⟨m₁, hm₁, hsettled, -, hcount₁⟩ := h.run vs (by omega)
  obtain ⟨m', hm', -, -, hduty⟩ := hsettled.tick v
  refine ⟨m', ?_, ?_⟩
  · rw [List.foldlM_append, hm₁]
    simpa using hm'
  · rw [hduty, if_pos]
    rw [ge_iff_le, UInt32.le_iff_toNat_le, UInt32.toNat_add, hcount₁, hcount]
    decide

/-! ## The law -/

/-- The duty is the same after each of the ticks. -/
def KeepsPower (m : Motor) (vs : List ℤ) : Prop :=
  ∀ n ≤ vs.length, ∃ m', (vs.take n).foldlM heldTick m = some m' ∧ m'.pwmDuty = m.pwmDuty

/-- What is left by the third tick: the wheel is settled, and without power if the count is
full. -/
theorem settled_of_third {m₃ : Motor} {v₁ v₂ v₃ : ℤ} (htype : m.pidController.type = .inc)
    (h₃ : [v₁, v₂, v₃].foldlM heldTick m = some m₃) :
    Settled m₃ ∧ (300 ≤ m₃.pidController.errorZeroCount.toNat → m₃.pwmDuty = 0) := by
  simp only [List.foldlM_cons, List.foldlM_nil, Option.bind_eq_bind, Option.bind_eq_some_iff,
    Option.pure_def, Option.some.injEq, exists_eq_right] at h₃
  obtain ⟨m₁, hm₁, m₂, hm₂, hm₃⟩ := h₃
  obtain ⟨m', hm', hsettled, hcount, hduty⟩ := (settled_of_ticks htype hm₁ hm₂).tick v₃
  obtain rfl : m' = m₃ := Option.some.inj (hm'.symm.trans hm₃)
  refine ⟨hsettled, fun hfull => ?_⟩
  rw [hduty, if_pos]
  rw [← hcount, ge_iff_le, UInt32.le_iff_toNat_le]
  exact hfull

/-- After three ticks at the set speed, the duty is kept for as long as there is none, or the
count stays below 300. -/
theorem power_kept_iff (m m₃ : Motor) (v₁ v₂ v₃ : ℤ) (htype : m.pidController.type = .inc)
    (h₃ : [v₁, v₂, v₃].foldlM heldTick m = some m₃) (vs : List ℤ) :
    KeepsPower m₃ vs ↔
      m₃.pwmDuty = 0 ∨ m₃.pidController.errorZeroCount.toNat + vs.length < 300 := by
  obtain ⟨hsettled, hfull⟩ := settled_of_third htype h₃
  constructor
  · intro hkeeps
    by_contra hnot
    obtain ⟨hduty, hcount⟩ := not_or.mp hnot
    have hlt : m₃.pidController.errorZeroCount.toNat < 300 := by
      by_contra hge
      exact hduty (hfull (by omega))
    -- the tick after which the count is 300
    obtain ⟨k, hk⟩ : ∃ k, m₃.pidController.errorZeroCount.toNat + k = 299 :=
      ⟨299 - m₃.pidController.errorZeroCount.toNat, by omega⟩
    have hklt : k < vs.length := by omega
    obtain ⟨m', hm', hzero⟩ := hsettled.run_cut (vs.take k) vs[k] (by
      rw [List.length_take]
      omega)
    rw [List.take_append_getElem] at hm'
    obtain ⟨m'', hm'', hsame⟩ := hkeeps (k + 1) hklt
    obtain rfl : m' = m'' := Option.some.inj (hm'.symm.trans hm'')
    exact hduty (hsame.symm.trans hzero)
  · rintro (hduty | hcount) n hn
    · obtain ⟨m', hm', hzero⟩ := hsettled.run_idle hduty (vs.take n)
      exact ⟨m', hm', hzero.trans hduty.symm⟩
    · obtain ⟨m', hm', -, hduty, -⟩ := hsettled.run (vs.take n) (by
        rw [List.length_take]
        omega)
      exact ⟨m', hm', hduty⟩

/-! ## A wheel on a straight track -/

/-- A wheel that has just reached its speed, with a quarter of the power. -/
def rolling : Motor where
  pwmDuty := 1000
  currentSpeed := 50
  setSpeed := 50
  encoderFilter := ⟨fun _ => 50, 0, 250⟩
  pidController := ⟨.inc, 12, 4, 1 / 2, 0, 0, 0, 0, 0, 0, 0⟩
  gpioDir := true
  pwm := 1000

theorem power_kept_iff_rolling :
    ∃ m₃, [50, 50, 50].foldlM heldTick rolling = some m₃ ∧
      (KeepsPower m₃ (List.replicate 10 50) ↔
        m₃.pwmDuty = 0 ∨ m₃.pidController.errorZeroCount.toNat + 10 < 300) := by
  obtain ⟨m₃, hm₃⟩ := Option.isSome_iff_exists.mp
    (show ([50, 50, 50].foldlM heldTick rolling).isSome by decide +kernel)
  exact ⟨m₃, hm₃, power_kept_iff rolling m₃ 50 50 50 rfl hm₃ (List.replicate 10 50)⟩

/-- After 300 ticks at its speed the wheel loses its power. -/
theorem rolling_cut :
    ¬ ∀ m₃, [50, 50, 50].foldlM heldTick rolling = some m₃ →
      KeepsPower m₃ (List.replicate 297 50) := by
  intro h
  have hthird : ([50, 50, 50].foldlM heldTick rolling).any
      (fun m : Motor => decide (m.pwmDuty = 1000)) = true := by decide +kernel
  have hcut : (([50, 50, 50] ++ List.replicate 297 (50 : ℤ)).foldlM heldTick rolling).any
      (fun m : Motor => decide (m.pwmDuty = 0)) = true := by decide +kernel
  obtain ⟨m₃, hm₃, hduty⟩ := (Option.any_eq_true _ _).mp hthird
  obtain ⟨m', hm', hzero⟩ := (Option.any_eq_true _ _).mp hcut
  obtain ⟨m'', hm'', hsame⟩ := h m₃ hm₃ 297 (by rw [List.length_replicate])
  rw [List.foldlM_append, hm₃] at hm'
  rw [List.take_replicate] at hm''
  obtain rfl : m' = m'' := Option.some.inj (hm'.symm.trans hm'')
  rw [of_decide_eq_true hzero, of_decide_eq_true hduty] at hsame
  exact absurd hsame (by decide)

end SmartCar.Motion
