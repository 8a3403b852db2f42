import Mathlib.Tactic.Ring
import SmartCar.Lib.Events
import SmartCar.Motion.Pid

/-!
# pid_control: the two forms of a controller

An incremental controller puts out by how much its command changes, a position controller the
command itself. With exact arithmetic they are the same controller: the outputs of the one add
up to the output of the other, for as long as the accumulated error is left alone.

* `positional`: the command that the errors so far call for;
* `Follows` and `Accumulates`: what either form keeps of the errors;
* `pid_forms_agree` is the law.
-/

namespace SmartCar.Motion

open Events

variable {pid : Pid} {kp ki kd e : ℚ} {es : List ℚ} {tr : List (ℚ × ℚ)} {i : ℚ × ℚ}

/-! ## Runs of a controller -/

/-- A call of `PID_calculate`, with a target and a measurement. -/
def pidStep (pid : Pid) (i : ℚ × ℚ) : Pid := pidCalculate pid i.1 i.2

/-- The errors of the calls. -/
def errors (tr : List (ℚ × ℚ)) : List ℚ := tr.map fun i => i.1 - i.2

/-- The outputs of the calls, added up. -/
def outputSum (pid : Pid) (tr : List (ℚ × ℚ)) : ℚ :=
  ((consumed pidStep pid tr).map fun c => (pidStep c.1 c.2).output).sum

/-- The command after the errors `es`; there is no error before the first one. -/
def positional (kp ki kd : ℚ) (es : List ℚ) : ℚ :=
  kp * es.getLastD 0 + ki * es.sum + kd * (es.getLastD 0 - es.dropLast.getLastD 0)

/-- The call clears the accumulated error. -/
def Clears (pid : Pid) (i : ℚ × ℚ) : Prop := i.1 - i.2 = 0 ∧ pid.errorZeroCount + 1 > 50

/-- The call clamps the accumulated error. -/
def Clamps (pid : Pid) (i : ℚ × ℚ) : Prop :=
  let sum := ({ pid with error := i.1 - i.2 } : Pid).accumulate.errorSum
  sum > pid.errorLimit ∨ sum < -pid.errorLimit

/-- The call leaves the accumulated error alone. -/
def Accumulated (_ : List (ℚ × ℚ)) (pid : Pid) (i : ℚ × ℚ) : Prop :=
  ¬ Clears pid i ∧ ¬ Clamps pid i

instance (pid : Pid) (i : ℚ × ℚ) : Decidable (Clears pid i) :=
  inferInstanceAs (Decidable (_ ∧ _))

instance (pid : Pid) (i : ℚ × ℚ) : Decidable (Clamps pid i) :=
  inferInstanceAs (Decidable (_ ∨ _))

instance (before : List (ℚ × ℚ)) (pid : Pid) (i : ℚ × ℚ) : Decidable (Accumulated before pid i) :=
  inferInstanceAs (Decidable (_ ∧ _))

theorem errors_concat (tr : List (ℚ × ℚ)) (i : ℚ × ℚ) :
    errors (tr ++ [i]) = errors tr ++ [i.1 - i.2] := by
  simp [errors]

theorem outputSum_concat (pid : Pid) (tr : List (ℚ × ℚ)) (i : ℚ × ℚ) :
    outputSum pid (tr ++ [i]) = outputSum pid tr + (pidStep (run pidStep pid tr) i).output := by
  simp [outputSum]

theorem positional_concat (kp ki kd e : ℚ) (es : List ℚ) :
    positional kp ki kd (es ++ [e]) =
      kp * e + ki * (es.sum + e) + kd * (e - es.getLastD 0) := by
  simp [positional]

/-! ## The incremental form -/

/-- The last two errors are kept, and the outputs so far add up to the command. -/
structure Follows (pid₀ : Pid) (tr : List (ℚ × ℚ)) (pid : Pid) : Prop where
  type : pid.type = .inc
  gains : pid.gains = pid₀.gains
  preError : pid.preError = (errors tr).getLastD 0
  prePreError : pid.prePreError = (errors tr).dropLast.getLastD 0
  sum : outputSum (pidClean pid₀) tr = positional pid₀.kp pid₀.ki pid₀.kd (errors tr)

theorem init_follows (h : pid.type = .inc) : Follows pid [] (pidClean pid) where
  type := h
  gains := rfl
  preError := rfl
  prePreError := rfl
  sum := by simp [outputSum, consumed, positional, errors]

/-- The change of the command: the sum of the outputs telescopes. -/
theorem positional_sub (kp ki kd e : ℚ) (es : List ℚ) :
    positional kp ki kd es +
        (kp * (e - es.getLastD 0) + ki * e +
          kd * (e - 2 * es.getLastD 0 + es.dropLast.getLastD 0)) =
      positional kp ki kd (es ++ [e]) := by
  rw [positional_concat, positional]
  ring

theorem step_follows {pid₀ : Pid} (hrun : run pidStep (pidClean pid₀) tr = pid)
    (h : Follows pid₀ tr pid) (i : ℚ × ℚ) : Follows pid₀ (tr ++ [i]) (pidStep pid i) := by
  obtain ⟨hpre, hprePre, houtput⟩ := pidCalculate_inc h.type i.1 i.2
  have hgains : (pidStep pid i).gains = pid.gains := gains_pidCalculate pid i.1 i.2
  have hold := h.gains
  simp only [Pid.gains, Prod.mk.injEq] at hold
  obtain ⟨-, hkp, hki, hkd, -⟩ := hold
  refine ⟨(congrArg Prod.fst hgains).trans h.type, hgains.trans h.gains, ?_, ?_, ?_⟩
  · rw [errors_concat, List.getLastD_concat]
    exact hpre
  · rw [errors_concat, List.dropLast_concat, ← h.preError]
    exact hprePre
  · -- the output is the change of the command
    rw [outputSum_concat, hrun, errors_concat, h.sum, ← positional_sub]
    congr 1
    rw [pidStep, houtput, hkp, hki, hkd, h.preError, h.prePreError]

theorem follows_run (pid : Pid) (h : pid.type = .inc) (tr : List (ℚ × ℚ)) :
    Follows pid tr (run pidStep (pidClean pid) tr) := by
  refine run_induction pidStep (pidClean pid) (Follows pid) (init_follows h) ?_ tr
  intro tr i hfollows
  exact step_follows rfl hfollows i

/-! ## The position form -/

/-- The last error is kept, and the sum of all of them, and the output is the command. -/
structure Accumulates (pid₀ : Pid) (tr : List (ℚ × ℚ)) (pid : Pid) : Prop where
  type : pid.type = .poi
  gains : pid.gains = pid₀.gains
  preError : pid.preError = (errors tr).getLastD 0
  errorSum : pid.errorSum = (errors tr).sum
  output : pid.output = positional pid₀.kp pid₀.ki pid₀.kd (errors tr)

theorem init_accumulates (h : pid.type = .poi) : Accumulates pid [] (pidClean pid) where
  type := h
  gains := rfl
  preError := rfl
  errorSum := rfl
  output := by simp [pidClean, positional, errors]

/-- A call that does not clear the accumulated error adds to it. -/
theorem errorSum_accumulate (h : ¬ Clears pid i) :
    ({ pid with error := i.1 - i.2 } : Pid).accumulate.errorSum =
      pid.errorSum + (i.1 - i.2) := by
  unfold Pid.accumulate
  dsimp only
  split_ifs with hzero hcount
  · exact absurd ⟨hzero, hcount⟩ h
  · rfl
  · rfl

theorem errorSum_summed (h : Accumulated tr pid i) :
    (pid.summed i.1 i.2).errorSum = pid.errorSum + (i.1 - i.2) := by
  obtain ⟨hclears, hclamps⟩ := h
  have hframe := (accumulate_frame { pid with error := i.1 - i.2 }).1
  simp only [Pid.gains, Prod.mk.injEq] at hframe
  have hlimit := hframe.2.2.2.2
  simp only [Clamps, not_or] at hclamps
  rw [Pid.summed, Pid.limitSum, hlimit, if_neg hclamps.1, if_neg hclamps.2]
  exact errorSum_accumulate hclears

theorem step_accumulates {pid₀ : Pid} (h : Accumulates pid₀ tr pid) (hi : Accumulated tr pid i) :
    Accumulates pid₀ (tr ++ [i]) (pidStep pid i) := by
  have hgains : (pidStep pid i).gains = pid.gains := gains_pidCalculate pid i.1 i.2
  obtain ⟨hsummed, herror, hpre⟩ := summed_frame pid i.1 i.2
  have hsum := errorSum_summed hi
  have hold := hsummed.trans h.gains
  simp only [Pid.gains, Prod.mk.injEq] at hold
  obtain ⟨-, hkp, hki, hkd, -⟩ := hold
  refine ⟨(congrArg Prod.fst hgains).trans h.type, hgains.trans h.gains, ?_, ?_, ?_⟩
  · rw [errors_concat, List.getLastD_concat, pidStep, pidCalculate_eq_of_poi h.type]
    exact herror
  · rw [errors_concat, List.sum_append, List.sum_singleton, pidStep,
      pidCalculate_eq_of_poi h.type, ← h.errorSum]
    exact hsum
  · -- the output is the command itself
    rw [errors_concat, positional_concat, pidStep, pidCalculate_eq_of_poi h.type]
    simp only [hkp, hki, hkd, herror, hpre, hsum, h.errorSum, h.preError]

theorem accumulates_run (pid : Pid) (h : pid.type = .poi) (tr : List (ℚ × ℚ))
    (htr : Along pidStep (pidClean pid) Accumulated tr) :
    Accumulates pid tr (run pidStep (pidClean pid) tr) :=
  run_induction_along pidStep (pidClean pid) Accumulated (fun tr p => Accumulates pid tr p)
    (init_accumulates h) (fun _ _ inv hi => step_accumulates inv hi) tr htr

/-! ## The law -/

/-- The outputs of an incremental controller add up to the command that the errors call for,
and so to the output of a position controller with the same gains whose accumulated error has
never been cleared or clamped. -/
theorem pid_forms_agree (inc poi : Pid) (hinc : inc.type = .inc) (hpoi : poi.type = .poi)
    (hkp : poi.kp = inc.kp) (hki : poi.ki = inc.ki) (hkd : poi.kd = inc.kd)
    (tr : List (ℚ × ℚ)) :
    outputSum (pidClean inc) tr = positional inc.kp inc.ki inc.kd (errors tr) ∧
      (Along pidStep (pidClean poi) Accumulated tr →
        outputSum (pidClean inc) tr = (run pidStep (pidClean poi) tr).output) := by
  have hsum := (follows_run inc hinc tr).sum
  refine ⟨hsum, fun htr => ?_⟩
  have houtput := (accumulates_run poi hpoi tr htr).output
  rw [hkp, hki, hkd] at houtput
  rw [hsum, houtput]

/-- A controller of a wheel, and one of the same gains in the position form. -/
def wheelPid (type : PidType) : Pid := ⟨type, 12, 4, 1 / 2, 3, 1, 2, 5, 200, 7, 9⟩

/-- A wheel that speeds up to 10. -/
def speedUp : List (ℚ × ℚ) := [(10, 0), (10, 4), (10, 9), (10, 10)]

theorem pid_forms_agree_speedUp :
    outputSum (pidClean (wheelPid .inc)) speedUp = positional 12 4 (1 / 2) [10, 6, 1, 0] ∧
      outputSum (pidClean (wheelPid .inc)) speedUp =
        (run pidStep (pidClean (wheelPid .poi)) speedUp).output := by
  have hagree := pid_forms_agree (wheelPid .inc) (wheelPid .poi) rfl rfl rfl rfl rfl speedUp
  refine ⟨hagree.1.trans ?_, hagree.2 (by decide +kernel)⟩
  norm_num [errors, speedUp, wheelPid]

end SmartCar.Motion
