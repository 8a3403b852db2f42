import SmartCar.Motion.Wheels

/-!
# motion_control: standing still

To identify a cube the car stands: the outer loop commands no motion. But the controller of the
turn has an accumulated error, which goes on turning the car until 50 errors that are 0 have
been counted. `standstill`: from whatever state a run has led to, no wheel is told more than 4
once the car has stood for 6 ticks, and after 104 ticks they are all told to stand.
-/

namespace SmartCar.Motion

open CInt

/-- A tick in a mode that commands no motion, or the encoders. -/
def Interrupt.Still : Interrupt → Prop
  | .pid t => t.inputs.motionMode = .cubeIdentify ∨ t.inputs.motionMode = .unknown
  | .encoder _ => True

/-- How often the control loop runs. -/
def ticks : List Interrupt → ℕ :=
  List.countP fun e => match e with | .pid _ => true | .encoder _ => false

theorem ticks_concat (tr : List Interrupt) (e : Interrupt) :
    ticks (tr ++ [e]) = match e with | .pid _ => ticks tr + 1 | .encoder _ => ticks tr := by
  cases e <;> simp [ticks, List.countP_append]

theorem outputs_still {i : Inputs} (h : i.motionMode = .cubeIdentify ∨ i.motionMode = .unknown)
    (s : Outer) : (motorRotationTranslationPidCalcApply i s).outputs = ⟨0, 0, 0⟩ := by
  rcases h with h | h <;> simp only [motorRotationTranslationPidCalcApply, h] <;> rfl

/-! ## The accumulated error -/

section Turn

variable {pid : Pid}

theorem errorZeroCount_limitSum (pid : Pid) :
    pid.limitSum.errorZeroCount = pid.errorZeroCount := by
  unfold Pid.limitSum
  split_ifs <;> rfl

/-- An accumulated error within its limit is left alone. -/
theorem limitSum_of_abs_le (h : |pid.errorSum| ≤ pid.errorLimit) : pid.limitSum = pid := by
  obtain ⟨hlow, hhigh⟩ := abs_le.mp h
  rw [Pid.limitSum, if_neg (not_lt.mpr hhigh), if_neg (not_lt.mpr hlow)]

/-- The next count, as long as it is not cleared. -/
theorem toNat_count (h : pid.errorZeroCount.toNat ≤ 50) :
    (pid.errorZeroCount + 1).toNat = pid.errorZeroCount.toNat + 1 := by
  rw [UInt32.toNat_add, UInt32.toNat_one]
  omega

theorem count_accumulate (pid : Pid) : pid.accumulate.errorZeroCount.toNat ≤ 50 := by
  unfold Pid.accumulate
  dsimp only
  split_ifs with hzero hfull
  · exact Nat.zero_le 50
  · exact UInt32.le_iff_toNat_le.mp (UInt32.not_lt.mp hfull)
  · exact Nat.zero_le 50

/-- An error that is 0 is counted, or the accumulated one is cleared. -/
theorem accumulate_zero (herror : pid.error = 0) (h : pid.errorZeroCount.toNat ≤ 50) :
    pid.accumulate.errorSum = 0 ∨ pid.accumulate.errorSum = pid.errorSum ∧
      pid.accumulate.errorZeroCount.toNat = pid.errorZeroCount.toNat + 1 := by
  unfold Pid.accumulate
  simp only [herror, add_zero, if_true]
  split_ifs with hfull
  · exact .inl rfl
  · exact .inr ⟨rfl, toNat_count h⟩

/-- The count stays below 51: it is cleared with the accumulated error. -/
theorem count_pidCalculate (htype : pid.type = .poi) (target current : ℚ) :
    (pidCalculate pid target current).errorZeroCount.toNat ≤ 50 := by
  rw [pidCalculate_eq_of_poi htype]
  show (pid.summed target current).errorZeroCount.toNat ≤ 50
  rw [Pid.summed, errorZeroCount_limitSum]
  exact count_accumulate _

theorem drain_pidCalculate (htype : pid.type = .poi) (h : pid.errorZeroCount.toNat ≤ 50)
    (hlimit : |pid.errorSum| ≤ pid.errorLimit) :
    (pidCalculate pid 0 0).errorSum = 0 ∨ (pidCalculate pid 0 0).errorSum = pid.errorSum ∧
      (pidCalculate pid 0 0).errorZeroCount.toNat = pid.errorZeroCount.toNat + 1 := by
  rw [pidCalculate_eq_of_poi htype]
  show (pid.summed 0 0).errorSum = 0 ∨ (pid.summed 0 0).errorSum = pid.errorSum ∧
    (pid.summed 0 0).errorZeroCount.toNat = pid.errorZeroCount.toNat + 1
  have hframe := (accumulate_frame { pid with error := 0 - 0 }).1
  simp only [Pid.gains, Prod.mk.injEq] at hframe
  have hdrain := @accumulate_zero { pid with error := 0 - 0 } (sub_zero 0) h
  -- what is left is within the limit still
  have hsum : |({ pid with error := 0 - 0 } : Pid).accumulate.errorSum| ≤
      ({ pid with error := 0 - 0 } : Pid).accumulate.errorLimit := by
    rw [hframe.2.2.2.2]
    rcases hdrain with hzero | ⟨hsame, -⟩
    · rw [hzero, abs_zero]
      exact (abs_nonneg _).trans hlimit
    · rw [hsame]
      exact hlimit
  rw [Pid.summed, limitSum_of_abs_le hsum]
  exact hdrain

end Turn

/-! ## Ticks that command no motion -/

/-- The controller of the turn has been told `k` times not to turn. -/
structure Quiet (k : ℕ) (s : Control) : Prop where
  halted : s.outer.outputs = ⟨0, 0, 0⟩
  preError : s.angularVPid.preError = 0
  told : 1 ≤ k
  drained : s.angularVPid.errorSum = 0 ∨ k ≤ s.angularVPid.errorZeroCount.toNat
  output : 2 ≤ k → s.angularVPid.output = s.angularVPid.errorSum / 50

/-- What a run keeps. -/
structure Sound (s : Control) : Prop where
  bounded : Bounded s
  step : InStep true s
  count : s.angularVPid.errorZeroCount.toNat ≤ 50

/-- After `n` ticks: the outer loop has not run yet, or the controller of the turn has been told
in every second tick. -/
def Settling (n : ℕ) (s : Control) : Prop :=
  n ≤ s.pitCount.toNat % 4 ∨ ∃ k, Quiet k s ∧ n ≤ 2 * k + 2 + s.pitCount.toNat % 2

variable {on : Bool} {s s' : Control}

theorem InStep.weaken (h : InStep on s) : InStep true s :=
  ⟨⟨h.driven, fun hoff => nomatch hoff⟩, h.forward, h.left, h.speeds⟩

/-- The turn is controlled when the count of the timer is even. -/
theorem even_iff (n : UInt64) : (n + 1) % 2 = 0 ↔ n.toNat % 2 = 1 := by
  rw [← UInt64.toNat_inj]
  simp only [UInt64.toNat_mod, UInt64.toNat_add, UInt64.reduceToNat]
  omega

theorem fourth_iff (n : UInt64) : (n + 1) % 4 = 0 ↔ n.toNat % 4 = 3 := by
  rw [← UInt64.toNat_inj]
  simp only [UInt64.toNat_mod, UInt64.toNat_add, UInt64.reduceToNat]
  omega

theorem toNat_succ_mod (n : UInt64) :
    (n + 1).toNat % 4 = (n.toNat + 1) % 4 ∧ (n + 1).toNat % 2 = (n.toNat + 1) % 2 := by
  simp only [UInt64.toNat_add, UInt64.reduceToNat]
  omega

variable {t : Tick}

theorem Sound.tick (h : Sound s) (ht : TickOk t) (hrunning : (Interrupt.pid t).Running)
    (hs' : motionControlPidCallback t s = some s') : Sound s' ∧ Ticked t s s' := by
  obtain ⟨hstep, hticked⟩ := h.step.tick h.bounded ht hrunning hs'
  obtain ⟨s₁, hs₁, hbounded⟩ := h.bounded.tick ht
  obtain rfl : s₁ = s' := Option.some.inj (hs₁.symm.trans hs')
  refine ⟨⟨hbounded, hstep.weaken, ?_⟩, hticked⟩
  rw [hticked.angular]
  split_ifs
  · exact count_pidCalculate (congrArg Prod.fst h.bounded.angularPid.gains) _ _
  · exact h.count

theorem Sound.encoder (h : Sound s) {counts : MotorIndex → Int16}
    (hs' : serve s (.encoder counts) = some s') : Sound s' := by
  obtain ⟨s₁, hs₁, hbounded⟩ := h.bounded.serve (e := .encoder counts) trivial
  obtain rfl : s₁ = s' := Option.some.inj (hs₁.symm.trans hs')
  obtain rfl := Option.some.inj hs'
  exact ⟨hbounded, ⟨⟨fun index => ⟨(h.step.driven index).drive, (h.step.driven index).limit⟩,
    h.step.off⟩, h.step.forward, h.step.left, h.step.speeds⟩, h.count⟩

/-- The outer loop commands no motion from its next turn on. -/
theorem outputs_outerTick (hrunning : (Interrupt.pid t).Running) (hstill : (Interrupt.pid t).Still)
    (h : s.outer.outputs = ⟨0, 0, 0⟩ ∨ (s.pitCount + 1) % 4 = 0) :
    (outerTick t (counted t s)).outer.outputs = ⟨0, 0, 0⟩ := by
  unfold outerTick
  split_ifs with hrun
  · exact outputs_still hstill _
  · rcases h with hhalted | hfourth
    · exact hhalted
    · exact absurd ⟨hfourth, hrunning.1⟩ hrun

/-- The controller of the turn is told once more. -/
theorem Sound.quiet (h : Sound s) (hticked : Ticked t s s') (heven : (s.pitCount + 1) % 2 = 0)
    (hhalted : s'.outer.outputs = ⟨0, 0, 0⟩) {k : ℕ} (hk : k = 0 ∨ Quiet k s) :
    Quiet (k + 1) s' := by
  have hrotation : s'.outer.rotationPid.output = 0 := congrArg Outputs.rotation hhalted
  have hangular := hticked.angular
  rw [if_pos heven, hrotation] at hangular
  obtain ⟨-, hpre, houtput⟩ := h.bounded.angularPid.calculate 0 0
  have hgains := h.bounded.angularPid.gains
  simp only [Pid.gains, Prod.mk.injEq] at hgains
  have hlimit : |s.angularVPid.errorSum| ≤ s.angularVPid.errorLimit := by
    rw [hgains.2.2.2.2]
    exact h.bounded.angularPid.errorSum
  refine ⟨hhalted, ?_, by omega, ?_, fun htwice => ?_⟩
  · rw [hangular, hpre, sub_zero]
  · rw [hangular]
    rcases drain_pidCalculate hgains.1 h.count hlimit with hzero | ⟨hsame, hcount⟩
    · exact .inl hzero
    · rw [hsame, hcount]
      rcases hk with rfl | hquiet
      · exact .inr (by omega)
      · exact hquiet.drained.imp id fun hle => by omega
  · -- the error before was 0 too
    rcases hk with rfl | hquiet
    · omega
    · rw [hangular, houtput, hquiet.preError]
      ring

theorem Sound.settling (h : Sound s) (hticked : Ticked t s s')
    (hrunning : (Interrupt.pid t).Running)
    (hstill : (Interrupt.pid t).Still) {n : ℕ} (hsettling : Settling n s) :
    Settling (n + 1) s' := by
  obtain ⟨hfour, htwo⟩ := toNat_succ_mod s.pitCount
  rw [← hticked.pitCount] at hfour htwo
  rcases hsettling with hwaits | ⟨k, hquiet, hn⟩
  · by_cases hfourth : s.pitCount.toNat % 4 = 3
    · -- the outer loop runs
      have hmod := (fourth_iff s.pitCount).mpr hfourth
      have hhalted : s'.outer.outputs = ⟨0, 0, 0⟩ := by
        rw [hticked.outer]
        exact outputs_outerTick hrunning hstill (.inr hmod)
      exact .inr ⟨1, h.quiet hticked (even_of_mod_four hmod) hhalted (.inl rfl), by omega⟩
    · exact .inl (by omega)
  · have hhalted : s'.outer.outputs = ⟨0, 0, 0⟩ := by
      rw [hticked.outer]
      exact outputs_outerTick hrunning hstill (.inl hquiet.halted)
    by_cases heven : s.pitCount.toNat % 2 = 1
    · exact .inr ⟨k + 1, h.quiet hticked ((even_iff s.pitCount).mpr heven) hhalted (.inr hquiet),
        by omega⟩
    · have hangular := hticked.angular
      rw [if_neg fun hmod => heven ((even_iff s.pitCount).mp hmod)] at hangular
      refine .inr ⟨k, ⟨hhalted, ?_, hquiet.told, ?_, ?_⟩, by omega⟩
      · rw [hangular]
        exact hquiet.preError
      · rw [hangular]
        exact hquiet.drained
      · rw [hangular]
        exact hquiet.output

theorem Sound.serve {n : ℕ} (h : Sound s) {e : Interrupt} (he : e.Ok ∧ e.Running) :
    ∃ s', serve s e = some s' ∧ Sound s' ∧ (e.Still → Settling n s →
      Settling (match e with | .pid _ => n + 1 | .encoder _ => n) s') := by
  obtain ⟨s', hs', -⟩ := h.bounded.serve he.1
  refine ⟨s', hs', ?_⟩
  cases e with
  | pid t =>
    obtain ⟨hsound, hticked⟩ := h.tick he.1 he.2 hs'
    exact ⟨hsound, fun hstill hsettling => h.settling hticked he.2 hstill hsettling⟩
  | encoder counts =>
    refine ⟨h.encoder hs', fun _ hsettling => ?_⟩
    obtain rfl := Option.some.inj hs'
    refine hsettling.imp id ?_
    rintro ⟨k, hquiet, hn⟩
    exact ⟨k, ⟨hquiet.halted, hquiet.preError, hquiet.told, hquiet.drained, hquiet.output⟩, hn⟩

/-! ## The law -/

/-- The wheels turn by the output of the controller alone. -/
theorem Sound.speeds (h : Sound s) {k : ℕ} (hquiet : Quiet k s) (index : MotorIndex) :
    (s.motors index).setSpeed = trunc (wheelMix 0 0 s.angularVPid.output index) := by
  have hforward : s.translationForwardVPid.output = 0 :=
    h.step.forward.trans (congrArg Outputs.forward hquiet.halted)
  have hleft : s.translationLeftVPid.output = 0 :=
    h.step.left.trans (congrArg Outputs.left hquiet.halted)
  rw [h.step.speeds, hforward, hleft]

theorem Sound.slow (h : Sound s) {n : ℕ} (hn : 6 ≤ n) (hsettling : Settling n s)
    (index : MotorIndex) : |(s.motors index).setSpeed| ≤ 4 := by
  rcases hsettling with hwaits | ⟨k, hquiet, hle⟩
  · omega
  · have hsum := abs_le.mp h.bounded.angularPid.errorSum
    rw [h.speeds hquiet, hquiet.output (by omega)]
    refine abs_trunc_le (abs_le.mpr ?_)
    cases index <;> simp only [wheelMix] <;> constructor <;> push_cast <;> linarith

theorem Sound.stands (h : Sound s) {n : ℕ} (hn : 104 ≤ n) (hsettling : Settling n s)
    (index : MotorIndex) : (s.motors index).setSpeed = 0 := by
  rcases hsettling with hwaits | ⟨k, hquiet, hle⟩
  · omega
  · -- the count cannot be more than 50
    have hcount := h.count
    have hsum : s.angularVPid.errorSum = 0 := hquiet.drained.resolve_right (by omega)
    rw [h.speeds hquiet, hquiet.output (by omega), hsum]
    cases index <;> norm_num [wheelMix, trunc]

/-- After any run, ticks that command no motion bring the wheels to a stand. -/
theorem standstill (tr still : List Interrupt) (h : ∀ e ∈ tr ++ still, e.Ok ∧ e.Running)
    (hstill : ∀ e ∈ still, e.Still) :
    ∃ s, (tr ++ still).foldlM serve Control.start = some s ∧
      (6 ≤ ticks still → ∀ index, |(s.motors index).setSpeed| ≤ 4) ∧
      (104 ≤ ticks still → ∀ index, (s.motors index).setSpeed = 0) := by
  obtain ⟨s, hs, hsound⟩ := Events.exists_foldlM Sound (fun e => e.Ok ∧ e.Running)
    (fun s e hs he => (hs.serve (n := 0) he).imp fun _ hnext => ⟨hnext.1, hnext.2.1⟩) tr
    Control.start ⟨bounded_start, inStep_start.weaken, Nat.zero_le 50⟩
    fun e he => h e (List.mem_append_left _ he)
  obtain ⟨s', hs', hsound', hsettling⟩ := Events.exists_foldlM_history
    (fun still s => Sound s ∧ Settling (ticks still) s)
    (fun e => (e.Ok ∧ e.Running) ∧ e.Still) ⟨hsound, .inl (Nat.zero_le _)⟩
    (by
      rintro still s e ⟨hsound, hsettling⟩ ⟨he, hstill⟩
      obtain ⟨s', hs', hsound', hnext⟩ := hsound.serve (n := ticks still) he
      refine ⟨s', hs', hsound', ?_⟩
      rw [ticks_concat]
      cases e with
      | pid t => exact hnext hstill hsettling
      | encoder counts => exact hnext hstill hsettling)
    still fun e he => ⟨h e (List.mem_append_right _ he), hstill e he⟩
  refine ⟨s', ?_, fun hn => hsound'.slow hn hsettling, fun hn => hsound'.stands hn hsettling⟩
  rw [List.foldlM_append, hs]
  exact hs'

/-- The car is where the cube is to be identified. -/
def identifying : Inputs := { backingOff with motionMode := .cubeIdentify }

def backOff : List Interrupt := List.replicate 4 (.pid ⟨backingOff, 0, true, true, true, true⟩)

def stay : List Interrupt :=
  List.replicate 104 (.pid ⟨identifying, 0, true, true, true, true⟩)

/-- The car backs off, and then stands for 104 ticks. -/
theorem standstill_backOff :
    ∃ s, (backOff ++ stay).foldlM serve Control.start = some s ∧
      (6 ≤ ticks stay → ∀ index, |(s.motors index).setSpeed| ≤ 4) ∧
      (104 ≤ ticks stay → ∀ index, (s.motors index).setSpeed = 0) := by
  have hok : ∀ i : Inputs, i.angleZ = 0 ∧ i.targetGyroAngleZ = 0 ∧ i.lineGyroAngleZ = 0 →
      (Interrupt.pid ⟨i, 0, true, true, true, true⟩).Ok := by
    rintro i ⟨hangle, htarget, hline⟩
    exact ⟨by norm_num [hangle], by norm_num [htarget], by norm_num [hline]⟩
  refine standstill backOff stay (fun e he => ?_) fun e he => ?_
  · rcases List.mem_append.mp he with he | he
    · rw [List.eq_of_mem_replicate he]
      exact ⟨hok backingOff ⟨rfl, rfl, rfl⟩, rfl, rfl, rfl⟩
    · rw [List.eq_of_mem_replicate he]
      exact ⟨hok identifying ⟨rfl, rfl, rfl⟩, rfl, rfl, rfl⟩
  · rw [List.eq_of_mem_replicate he]
    exact .inl rfl

end SmartCar.Motion
