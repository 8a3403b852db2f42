import SmartCar.MtImage.Locals

/-!
# mt_image: the debug build

With `IMAGE_DEBUG` a mark is written to the image, and `cross_app` draws the boundary on
to the bottom of the image. The firmware leaves the image as it is.

* `debug` is the debug build as a program that carries its image along;
* `Agree` says that both builds leave the same result;
* `Unspoilt` says that the debug build reads no pixel that a mark has turned into road;
* `debug_agrees` is the law.
-/

namespace SmartCar.MtImage

open CInt

/-! ## The program -/

/-- `image[y][x] = T`, the array being rows of 188 bytes on end. -/
def paint (k : Mark) (m : Cell → UInt8) (c : Cell) : UInt8 :=
  if c.1 * 188 + c.2 = k.y * 188 + k.x then k.t else m c

/-- `for (; y < Y_MAX; y ++) { SET_IMG(xls[y0] + (int8) (ml * (y - y0)), y, BOUND_APP); ... }`,
with `n` rows left. -/
def crossDraw (y0 : ℤ) (s : State) : ℕ → ℤ → Go → Go
  | 0, _, k => k
  | n + 1, y, k =>
    setImg (s.l.xs y0 + i8 (trunc (s.l.m * (y - y0 : ℤ)))) y BOUND_APP <|
      setImg (s.r.xs y0 + i8 (trunc (s.r.m * (y - y0 : ℤ)))) y BOUND_APP <|
        crossDraw y0 s n (y + 1) k

/-- `crossEnd` with the boundary that the debug build draws. -/
def crossEndDebug (s : State) : Go :=
  let s := { s with yEnd := s.y }
  if s.y = yMax then crossExit s
  else
    let y0 := u8 (max s.yStart (s.y - yXrMHeight - yXrMOffset))
    let y1 := u8 (s.y - yXrMOffset)
    crossSlope .left y0 y1 s fun s => crossSlope .right y0 y1 s fun s =>
      crossDraw y0 s (yMax - s.y).toNat s.y <| .goto { s with pc := .analyze, y := max s.y yMax }

variable (enableLoop : Bool)

/-- `search`, label by label, in the debug build. -/
def codeDebug (s : State) : Go :=
  match s.pc with
  | .crossEnd => crossEndDebug s
  | _ => code enableLoop s

/-- The debug build carries its image along. -/
def debug (s : State × (Cell → UInt8)) : Act (State × (Cell → UInt8)) Cell Entry Mark UInt8 :=
  (codeDebug enableLoop s.1).writing paint s.2

/-! ## Law and condition -/

/-- Both builds leave the same result, if one of them ends. -/
def Agree (mem : Cell → UInt8) (s : State) : Prop :=
  (∀ u, Goto.Halts (code enableLoop) mem s u →
    ∃ v, Goto.Halts (debug enableLoop) mem (s, mem) v ∧ SameResult u v.1) ∧
  ∀ v, Goto.Halts (debug enableLoop) mem (s, mem) v →
    ∃ u, Goto.Halts (code enableLoop) mem s u ∧ SameResult u v.1

/-- Road or not, the same. -/
def Alike (p q : UInt8) : Prop := p = EMPTY ↔ q = EMPTY

instance (p q : UInt8) : Decidable (Alike p q) := inferInstanceAs (Decidable (_ ↔ _))

/-- A pixel that the debug build reads is road if it is road in the image: no mark has been
written there, or only over road. -/
def Unspoilt (mem : Cell → UInt8) (s : State) : Prop :=
  ∀ t, Goto.Visits (debug enableLoop) mem (s, mem) t →
    ∀ c ∈ (codeDebug enableLoop t.1).seen paint t.2, Alike c.2 (mem c.1)

/-! ## What is read is compared with `EMPTY` -/

variable {enableLoop} {mem m : Cell → UInt8} {s u : State} {d : Side} {t : State × (Cell → UInt8)}

/-- Zebra detection is over. -/
def Past (s : State) : Prop := s.pc ≠ .entry ∧ s.pc ≠ .zebra

@[simp] theorem blind_px (y x : ℤ) (k : UInt8 → Go) :
    (px y x k).Blind Alike Past ↔
      (∀ p q, Alike p q → k p = k q) ∧ ∀ p, (k p).Blind Alike Past := Iff.rfl

@[simp] theorem blind_setImg (x y : ℤ) (c : UInt8) (k : Go) :
    (setImg x y c k).Blind Alike Past ↔ k.Blind Alike Past := Iff.rfl

theorem record_blind (d : Side) (s : State) : (record d s).Blind Alike Past := by
  have hsat : (record d s).Sat (fun _ => EMPTY) (fun _ => False) (fun _ => True) Past := by
    refine (record_sat fun _ _ => ⟨trivial, trivial⟩).mono ?_
    rintro t ⟨u, -, rfl | rfl⟩
    · simp [Past]
    · cases d <;> simp [Past, afterSide]
  exact Act.blind_of_sat hsat

theorem midRow_blind (hpc : s.pc = .midRow) : (midRow s).Blind Alike Past := by
  simp only [midRow, Act.blind_ite, blind_setImg, Act.blind_halt, implies_true, and_true]
  intro _
  refine midline_cases (Act.Blind Alike Past) (fun _ _ _ ha => ha) fun v hv => ?_
  rcases hv.frame with ⟨xl, xr, dx, xm, dxm, bothCount, rfl⟩
  simp [Past, hpc]

theorem inward_blind (hpc : s.pc = .inward d) : (inward d s).Blind Alike Past := by
  have hend : ∀ s, (inwardEnd d s).Blind Alike Past := by
    intro s
    simp only [inwardEnd, Act.blind_ite]
    simp [Past]
  have hon : Past (s.setX d (u8 ((s.track d).x + d.sgn))) := by cases d <;> simp [Past, hpc]
  simp only [inward, blind_px, Act.blind_ite]
  refine ⟨fun p q hpq => by simp only [Alike] at hpq; simp only [hpq], fun p => ⟨fun _ => ?_, ?_⟩⟩
  · exact ⟨fun _ => hend _, fun _ => hon⟩
  · exact fun _ => hend _

theorem side_blind (d : Side) (s : State) : (side d s).Blind Alike Past := by
  simp only [side, Act.blind_ite]
  cases d <;> simp [Past, sideEnd]

theorem crossRecord_blind (d : Side) (s : State) : (crossRecord d s).Blind Alike Past := by
  cases d with
  | left => simp [crossRecord, Past]
  | right =>
    simp only [crossRecord, Act.blind_touch, Act.blind_ite]
    simp [Past]

theorem cornerFound_blind (d : Side) (s : State) : (cornerFound d s).Blind Alike Past := by
  cases d <;> simp [cornerFound, appendStart, Past]

theorem analyze_blind (s : State) : (analyze enableLoop s).Blind Alike Past := by
  simp only [analyze, Act.blind_ite, Act.blind_goto, Past, ne_eq, reduceCtorEq, not_false_eq_true,
    and_self, implies_true]

/-- After zebra detection nothing but road or not is read. -/
theorem code_blind (h : Past s) : (code enableLoop s).Blind Alike Past := by
  unfold code
  cases hpc : s.pc with
  | entry => exact absurd hpc h.1
  | zebra => exact absurd hpc h.2
  | record d => exact record_blind d s
  | bottom => simp +contextual [bottom, Past, Alike, hpc]
  | bottomLeft c => cases c <;> simp +contextual [bottomLeft, Past, Alike, hpc]
  | bottomRight => simp +contextual [bottomRight, Past, Alike, hpc]
  | bottomSeek => simp +contextual [bottomSeek, Past, Alike, hpc]
  | bottomTest => simp +contextual [bottomTest, bottomStore, Past, hpc]
  | bottomFound => simp +contextual [bottomFound, edgeLeft, edgeRight, Past]
  | edge d => cases d <;> simp +contextual [edge, edgeDone, edgeRight, setStop, Past, Alike, hpc]
  | dispatch => simp +contextual [dispatch, Past]
  | normalBound => simp +contextual [normalBound, Past]
  | row => simp +contextual [row, Past]
  | side d => exact side_blind d s
  | inward d => exact inward_blind hpc
  | outward d => cases d <;> simp +contextual [outward, Past, Alike, hpc]
  | exitProbe d => cases d <;> simp +contextual [exitProbe, invLost, Past, Alike]
  | exitColumn d => cases d <;> simp +contextual [exitColumn, appendStart, Past]
  | exitDown d => cases d <;> simp +contextual [exitDown, loopExitLost, invLost, Past, Alike, hpc]
  | exitUp d => cases d <;> simp +contextual [exitUp, loopExitLost, invLost, exitNext, Past, Alike]
  | exitClimb d =>
    cases d <;> simp +contextual [exitClimb, loopExitLost, invLost, exitNext, Past, Alike, hpc]
  | normalEnd => simp +contextual [normalEnd, Past]
  | loop => simp +contextual [loop, Past]
  | loopDrop d => cases d <;> simp +contextual [loopDrop, Past, Alike, hpc]
  | loopRise d => cases d <;> simp +contextual [loopRise, Past, Alike, hpc]
  | corner d => cases d <;> simp +contextual [corner, cornerFound_blind, Past, Alike]
  | cornerUp d => cases d <;> simp +contextual [cornerUp, cornerUpDone, Past, Alike, hpc]
  | cornerDown d => cases d <;> simp +contextual [cornerDown, cornerNext, Past, Alike, hpc]
  | append d => cases d <;> simp +contextual [append, Past, hpc]
  | loopCancel => simp +contextual [loopCancel, Past]
  | crossBound => simp +contextual [crossBound, Past]
  | top => simp +contextual [top, Past, Alike, hpc]
  | topLeft c => cases c <;> simp +contextual [topLeft, Past, Alike, hpc]
  | topRight => simp +contextual [topRight, Past, Alike, hpc]
  | topSeek => simp +contextual [topSeek, Past, Alike, hpc]
  | topTest => simp +contextual [topTest, Past]
  | topNext => simp +contextual [topNext, crossExit, Past]
  | crossRow => simp +contextual [crossRow, Past]
  | crossOut d => cases d <;> simp +contextual [crossOut, crossOutEnd, Past, Alike, hpc]
  | crossIn d => cases d <;> simp +contextual [crossIn, Past, Alike, hpc]
  | crossRecord d => exact crossRecord_blind d s
  | crossEnd => simp +contextual [crossEnd, crossExit, crossSlope, Past]
  | analyze => exact analyze_blind s
  | mid => simp +contextual [mid, Past]
  | midRow => exact midRow_blind hpc

/-! ## The two builds side by side -/

/-- The firmware is in `s`, the debug build in `t`. After `cross_app` the row is not the same,
but it is not read. -/
inductive Beside (mem : Cell → UInt8) : State → State × (Cell → UInt8) → Prop
  | same (s : State) (m : Cell → UInt8) (h : Past s ∨ m = mem) : Beside mem s (s, m)
  | drawn (s : State) (m : Cell → UInt8) (y : ℤ)
      (h : s.pc = .mid ∨ s.pc = .analyze ∧ s.el = .cross) : Beside mem s ({ s with y := y }, m)

/-- Both go on alike, or leave the same result. -/
abbrev Paired (mem : Cell → UInt8) (a : Go)
    (b : Act (State × (Cell → UInt8)) Cell Entry Mark UInt8) : Prop :=
  Act.Pair mem (Beside mem) (fun u v => SameResult u v.1) a b

/-- Zebra detection, over the image as it is. -/
theorem zebra_beside (h : s.pc = .entry ∨ s.pc = .zebra) :
    Paired mem (code enableLoop s) ((code enableLoop s).writing paint mem) := by
  have hgoto : ∀ s, Paired mem (.goto s) (.goto (s, mem)) :=
    fun s => (Act.pair_goto _ _).mpr (.same s mem (.inr rfl))
  have hhalt : ∀ s, Paired mem (.halt s) (.halt (s, mem)) :=
    fun s => (Act.pair_halt _ _).mpr ⟨rfl, rfl⟩
  rcases h with hpc | hpc
  · simp only [code, hpc, entry, px, Act.writing, Act.pair_read_left, Act.writing_ite]
    exact Act.Pair.ite Iff.rfl (fun _ => hgoto _) fun _ => hgoto _
  · simp only [code, hpc, zebra, px, Act.writing, Act.writing_ite]
    refine Act.Pair.ite Iff.rfl (fun _ => ?_) fun _ => ?_
    · rw [Act.pair_read_left]
      exact Act.Pair.ite Iff.rfl (fun _ => hhalt _) fun _ => hgoto _
    · exact Act.Pair.ite Iff.rfl (fun _ => hgoto _) fun _ => hgoto _

/-- What the debug build draws is marks only. -/
theorem crossDraw_beside {a : Go} {y0 : ℤ} {k : Go} (h : ∀ m, Paired mem a (k.writing paint m))
    (s : State) (n : ℕ) (y : ℤ) (m : Cell → UInt8) :
    Paired mem a ((crossDraw y0 s n y k).writing paint m) := by
  induction n generalizing y m with
  | zero => exact h m
  | succ n ih => exact ih _ _

theorem crossEnd_beside (hel : s.el = .cross) (m : Cell → UInt8) :
    Paired mem (crossEnd s) ((crossEndDebug s).writing paint m) := by
  simp only [crossEnd, crossEndDebug, Act.writing_ite]
  refine Act.Pair.ite Iff.rfl (fun _ => ?_) fun _ => ?_
  · simp only [crossExit, Act.writing, Act.pair_goto]
    exact .same _ m (.inl (by simp [Past]))
  · simp only [crossSlope, Act.writing, Act.pair_touch]
    refine crossDraw_beside (fun m => ?_) _ _ _ _
    simp only [Act.writing, Act.pair_goto]
    exact .drawn _ m _ (.inr ⟨rfl, hel⟩)

theorem codeDebug_eq (h : s.pc ≠ .crossEnd) : codeDebug enableLoop s = code enableLoop s := by
  unfold codeDebug
  split
  · contradiction
  · rfl

/-- One stretch of both builds. -/
theorem step_beside (h : Beside mem s t) (hi : Inv s)
    (hseen : ∀ c ∈ (codeDebug enableLoop t.1).seen paint t.2, Alike c.2 (mem c.1)) :
    Paired mem (code enableLoop s) (debug enableLoop t) := by
  cases h with
  | same m hm =>
    by_cases hcross : s.pc = .crossEnd
    · have hat := hi.at hcross
      simp at hat
      simp only [debug, code, codeDebug, hcross]
      exact crossEnd_beside hat.2.2.1 m
    · rw [debug, codeDebug_eq hcross]
      rw [codeDebug_eq hcross] at hseen
      by_cases hpast : Past s
      · refine ((code_blind hpast).pair hseen).mono ?_ ?_
        · rintro u ⟨u', m'⟩ ⟨rfl, hu⟩
          exact .same u' m' (.inl hu)
        · rintro u ⟨u', m'⟩ rfl
          exact ⟨rfl, rfl⟩
      · obtain rfl : m = mem := hm.resolve_left hpast
        exact zebra_beside (by unfold Past at hpast; tauto)
  | drawn m y hy =>
    rcases hy with hpc | ⟨hpc, hel⟩
    · rw [debug, codeDebug_eq (by simp [hpc])]
      simp only [code, hpc, mid, Act.writing, Act.pair_goto]
      exact .same _ m (.inl (by simp [Past]))
    · have hcode : ∀ u : State, u.pc = .analyze → u.el = .cross →
          code enableLoop u = .goto { u with pc := .mid } := by
        intro u hu hel
        unfold code
        rw [hu]
        exact analyze_cross hel
      rw [debug, codeDebug_eq (by simp [hpc]), hcode s hpc hel, hcode { s with y := y } hpc hel]
      simp only [Act.writing, Act.pair_goto]
      exact .drawn _ m y (.inl rfl)

/-- Both builds leave the same result if the debug build reads the image as it was. -/
theorem debug_agrees (image : Image) (beyond : ℤ → UInt8) (s : State) (hs : Start s)
    (hunspoilt : Unspoilt true (memory image beyond) s) :
    Agree true (memory image beyond) s := by
  have hinit : Beside (memory image beyond) s (s, memory image beyond) := .same s _ (.inr rfl)
  refine ⟨fun u hu => ?_, fun v hv => ?_⟩
  · exact hu.pair (Beside (memory image beyond)) (fun u v => SameResult u v.1) hinit
      fun s' t hv ht h => step_beside h (inv_visits hs.inv hv) (hunspoilt t ht)
  · exact hv.pair (flip (Beside (memory image beyond))) (fun v u => SameResult u v.1) hinit
      fun t s' ht hv h => (step_beside h (inv_visits hs.inv hv) (hunspoilt t ht)).swap

theorem debug_final (hpc : s.pc = .midRow) (hlt : s.y < s.yStart) :
    ∃ v, (debug enableLoop (s, m)).final mem = some v ∧ v.1.offset = .quot s.so s.sw := by
  have hge : ¬ s.y ≥ s.yStart := by omega
  have hcode : codeDebug enableLoop s = midRow s := by
    rw [codeDebug_eq (by simp [hpc])]
    simp only [code, hpc]
  simp only [debug, hcode, midRow, hge, if_false]
  exact ⟨_, rfl, rfl⟩

/-- A track that bends to the right. -/
def bend : Image := fun y x =>
  decide (x = 0 ∨ 85 ≤ x ∧ x ≤ 101 ∧ (y ≤ 111 → 87 ≤ x) ∧ (y ≤ 110 → 91 ≤ x))

theorem bend_agrees :
    Start (called .normal) ∧ Unspoilt true (memory bend fun _ => EMPTY) (called .normal) ∧
      Agree true (memory bend fun _ => EMPTY) (called .normal) := by
  have hstart : Start (called .normal) := start_called (by decide)
  have hunspoilt : Unspoilt true (memory bend fun _ => EMPTY) (called .normal) := by
    intro t ht c hc
    have hrun : ((codeDebug true t.1).seen paint t.2).all (fun c =>
        decide (Alike c.2 (memory bend (fun _ => EMPTY) c.1))) = true :=
      Goto.visits_of_checkRun (n := 120)
        (p := fun t => ((codeDebug true t.1).seen paint t.2).all fun c =>
          decide (Alike c.2 (memory bend (fun _ => EMPTY) c.1))) (by decide +kernel) t ht
    exact of_decide_eq_true (List.all_eq_true.mp hrun c hc)
  exact ⟨hstart, hunspoilt, debug_agrees bend (fun _ => EMPTY) _ hstart hunspoilt⟩

/-- A road as wide as the image, narrower by two columns on the left from row 77 on, and no
road in the lowest row. -/
def darkBottom : Image := fun y x => decide (x = 0 ∨ y ≤ 118 ∧ x ≤ 182 ∧ (y < 78 → 3 ≤ x))

/-- The mark in the lower left corner closes the left border of the image. -/
theorem darkBottom_not_agree :
    Start (called .normal) ∧ ¬ Agree true (memory darkBottom fun _ => EMPTY) (called .normal) := by
  refine ⟨start_called (by decide), fun hagree => ?_⟩
  rcases Goto.exists_visits (code true) (memory darkBottom fun _ => EMPTY) (called .normal) 646
    (fun t => decide (t.pc = .midRow ∧ t.y < t.yStart ∧ t.so = 71870 ∧ t.sw = 5520))
    (by decide +kernel) with ⟨s, hs, hcheck⟩
  rcases Goto.exists_visits (debug true) (memory darkBottom fun _ => EMPTY)
    (called .normal, memory darkBottom fun _ => EMPTY) 713
    (fun t => decide (t.1.pc = .midRow ∧ t.1.y < t.1.yStart ∧ t.1.so = 129480 ∧ t.1.sw = 3165))
    (by decide +kernel) with ⟨⟨t, m⟩, ht, hcheck'⟩
  rcases of_decide_eq_true hcheck with ⟨hpc, hlt, hso, hsw⟩
  rcases of_decide_eq_true hcheck' with ⟨hpc', hlt', hso', hsw'⟩
  obtain ⟨u, hu, hou⟩ : ∃ u, (code true s).final (memory darkBottom fun _ => EMPTY) = some u ∧
      u.offset = .quot s.so s.sw := (midRow_final hpc hlt).2
  obtain ⟨v, ⟨t', ht', hv⟩, -, hoffset⟩ := hagree.1 u ⟨s, hs, hu⟩
  obtain ⟨w, hw, how⟩ : ∃ w, (debug true (t, m)).final (memory darkBottom fun _ => EMPTY) = some w ∧
      w.1.offset = .quot t.so t.sw := debug_final hpc' hlt'
  obtain rfl : v = w := Goto.Halts.unique ⟨t', ht', hv⟩ ⟨_, ht, hw⟩
  rw [hou, how, hso, hso', hsw, hsw'] at hoffset
  simp [F64.quot] at hoffset
  norm_num at hoffset

end SmartCar.MtImage
