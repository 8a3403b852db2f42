import Mathlib.Algebra.Order.Group.Multiset
import Mathlib.Data.Multiset.MapFold
import Mathlib.Data.Set.Insert
import SmartCar.Debugger.Backend
import SmartCar.Lib.Exchange

/-!
# Which runs of the debugger lose no update

`/run-frame` reads the session before `image_test` is started and writes to it when
`image_test` has ended. What the other handlers write in between is lost: an element that
has been set, or the frame index of another request. Without that, the requests
could have been handled one at a time:

* `Undisturbed` says when a step comes in no other handler's way;
* `serial_of_undisturbed` is the law for every run of such steps.

The order is not the one in which the requests come, nor the one in which they are
replied to: a request without a frame index may be served with the one that a later
request has set. The two then change places (`Exchange`).
-/

namespace SmartCar.Debugger

open Events Exchange

/-! ## Law and condition -/

/-- `prevDataStr` is what handling the requests one at a time leaves, in some order. -/
def Serial (env : Env) (session : Session) (tr : List Event) : Prop :=
  ∃ order : List Request, order.Perm (requests tr) ∧
    (order.foldl (handleAlone env) ⟨session, []⟩).session.prevDataStr =
      (run (step env) ⟨session, []⟩ tr).session.prevDataStr

/-- All requests have been replied to. -/
def Replied (b : Backend) : Prop :=
  ∀ handler ∈ b.handlers, ∃ reply, handler = .replied reply

instance : ∀ handler : Handler, Decidable (∃ reply, handler = .replied reply)
  | .replied reply => .isTrue ⟨reply, rfl⟩
  | .stat _ => .isFalse fun h => Handler.noConfusion h.choose_spec
  | .execa _ _ => .isFalse fun h => Handler.noConfusion h.choose_spec

instance (b : Backend) : Decidable (Replied b) :=
  inferInstanceAs (Decidable (∀ handler ∈ b.handlers, _))

/-- A run of `image_test` is on its way whose result will be written to the session. -/
def willWrite (env : Env) : Handler → Bool
  | .execa _ args => (env.imageTest args).isOk
  | _ => false

def InFlight (env : Env) (b : Backend) : Prop := ∃ handler ∈ b.handlers, willWrite env handler

instance (env : Env) (b : Backend) : Decidable (InFlight env b) :=
  inferInstanceAs (Decidable (∃ handler ∈ b.handlers, _))

/-- If the handler starts `image_test`, then while no other run is in flight, and with the
frame index of its request, if that has one. -/
def StartsAlone (env : Env) (b : Backend) : Option Handler → Prop
  | some (.stat frameIndex) =>
    env.found = true →
      ¬ InFlight env b ∧ (frameIndex = none ∨ frameIndex = some b.session.frameIndex)
  | _ => True

instance (env : Env) (b : Backend) : ∀ handler, Decidable (StartsAlone env b handler)
  | some (.stat _) => inferInstanceAs (Decidable (_ → _ ∧ _))
  | some (.execa _ _) | some (.replied _) | none => inferInstanceAs (Decidable True)

/-- The step comes in no other handler's way. An element is set only while no run is in
flight, unless it is the one that is there. -/
def Undisturbed (env : Env) (_ : List Event) (b : Backend) : Event → Prop
  | .request (.runFrame _ _) => True
  | .request (.setElement id element) =>
    id = b.session.id → InFlight env b →
      replaceElement element b.session.prevDataStr = b.session.prevDataStr
  | .settled i => StartsAlone env b b.handlers[i]?

instance (env : Env) (tr : List Event) (b : Backend) : ∀ e, Decidable (Undisturbed env tr b e)
  | .request (.runFrame _ _) => inferInstanceAs (Decidable True)
  | .request (.setElement _ _) => inferInstanceAs (Decidable (_ → _ → _ = _))
  | .settled i => inferInstanceAs (Decidable (StartsAlone env b b.handlers[i]?))

/-! ## A request alone -/

/-- What `image_test` leaves when it is run on frame `v`. -/
def ran (env : Env) (session : Session) (v : ℚ) : Session :=
  if env.found then
    match env.imageTest { runSession session with frameIndex := v } with
    | .ok result => { session with frameIndex := v, prevDataStr := result.stderr }
    | .error _ => { session with frameIndex := v }
  else { session with frameIndex := v }

theorem ran_of_ok {env : Env} {session : Session} {v : ℚ} {result : Output}
    (hfound : env.found = true)
    (h : env.imageTest { runSession session with frameIndex := v } = .ok result) :
    ran env session v = { session with frameIndex := v, prevDataStr := result.stderr } := by
  simp [ran, hfound, h]

theorem ran_of_error {env : Env} {session : Session} {v : ℚ} {stderr : String}
    (hfound : env.found = true)
    (h : env.imageTest { runSession session with frameIndex := v } = .error stderr) :
    ran env session v = { session with frameIndex := v } := by
  simp [ran, hfound, h]

/-- The three parts of a handler in a row. -/
def handled (env : Env) (session : Session) (req : Request) : Session :=
  let (session, handler) := handle session req
  let (session, handler) := resume env session handler
  (resume env session handler).1

section Alone

variable {env : Env} {session : Session} {id : String}

theorem handleAlone_session (env : Env) (b : Backend) (req : Request) :
    (handleAlone env b req).session = handled env b.session req := by
  simp [handleAlone, run, step, handled]

theorem foldl_handleAlone (env : Env) (order : List Request) (b : Backend) :
    (order.foldl (handleAlone env) b).session = order.foldl (handled env) b.session := by
  induction order generalizing b with
  | nil => rfl
  | cons req order ih => rw [List.foldl_cons, List.foldl_cons, ih, handleAlone_session]

theorem handle_runFrame (session : Session) (frameIndex : Option ℚ) :
    handle session (.runFrame session.id frameIndex) =
      ({ session with frameIndex := frameIndex.getD session.frameIndex }, .stat frameIndex) := by
  cases frameIndex <;> simp [handle]

theorem handled_runFrame (env : Env) (session : Session) (frameIndex : Option ℚ) :
    handled env session (.runFrame session.id frameIndex) =
      ran env session (frameIndex.getD session.frameIndex) := by
  simp only [handled, handle_runFrame, resume, ran]
  cases env.found with
  | false => rfl
  | true =>
    simp only [if_true, runSession]
    cases env.imageTest _ <;> rfl

theorem handled_setElement (env : Env) (session : Session) (element : ElementDisplay) :
    handled env session (.setElement session.id element) =
      { session with prevDataStr := replaceElement element session.prevDataStr } := by
  simp [handled, handle, resume]

/-- A request on a session that is not there. -/
theorem handle_of_ne {req : Request} (h : req.id ≠ session.id) :
    handle session req = (session, .replied (sessionNotFound req.id)) := by
  cases req <;>
  · simp only [Request.id] at h
    simp [handle, h, Request.id]

theorem handled_of_ne {req : Request} (env : Env) (h : req.id ≠ session.id) :
    handled env session req = session := by
  simp [handled, handle_of_ne h, resume]

end Alone

/-! ## Handlers in flight -/

section Writers

variable {env : Env} {hs : List Handler} {i : ℕ} {handler handler' : Handler}

/-- The handlers in flight, by the numbers of their requests. -/
def writers (env : Env) (hs : List Handler) : Set ℕ :=
  {i | ∃ handler, hs[i]? = some handler ∧ willWrite env handler = true}

theorem willWrite_of_ok {args : Args} {result : Output} (o : Option ℚ)
    (h : env.imageTest args = .ok result) : willWrite env (.execa o args) = true := by
  simp [willWrite, h, Except.isOk, Except.toBool]

theorem willWrite_of_error {args : Args} {stderr : String} (o : Option ℚ)
    (h : env.imageTest args = .error stderr) : willWrite env (.execa o args) = false := by
  simp [willWrite, h, Except.isOk, Except.toBool]

theorem not_inFlight_iff {b : Backend} : ¬ InFlight env b ↔ writers env b.handlers = ∅ := by
  rw [Set.eq_empty_iff_forall_notMem]
  constructor
  · rintro h i ⟨handler, hi, hwrite⟩
    exact h ⟨handler, List.mem_of_getElem? hi, hwrite⟩
  · rintro h ⟨handler, hmem, hwrite⟩
    rcases List.mem_iff_getElem?.mp hmem with ⟨i, hi⟩
    exact h i ⟨handler, hi, hwrite⟩

theorem writers_concat (h : willWrite env handler = false) :
    writers env (hs ++ [handler]) = writers env hs := by
  ext j
  rcases lt_trichotomy j hs.length with hlt | rfl | hgt
  · simp [writers, List.getElem?_append_left hlt]
  · simp [writers, h]
  · have hlen : (hs ++ [handler]).length ≤ j := by
      rw [List.length_append, List.length_singleton]
      exact hgt
    simp [writers, List.getElem?_eq_none hlen, List.getElem?_eq_none (le_of_lt hgt)]

theorem writers_set (h : willWrite env handler = false) (i : ℕ) :
    writers env (hs.set i handler) = writers env hs \ {i} := by
  ext j
  by_cases hij : i = j
  · subst hij
    simp [writers, List.getElem?_set, h]
  · simp [writers, List.getElem?_set_ne hij, Ne.symm hij]

theorem writers_set_insert (hi : hs[i]? = some handler') (h : willWrite env handler = true) :
    writers env (hs.set i handler) = insert i (writers env hs) := by
  have hlen : i < hs.length := (List.getElem?_eq_some_iff.mp hi).1
  ext j
  by_cases hij : i = j
  · subst hij
    simp [writers, List.getElem?_set_self hlen, h]
  · simp [writers, List.getElem?_set_ne hij, Ne.symm hij]

end Writers

/-! ## The invariant of undisturbed runs -/

/-- The frame index with which a handler has still to be served, as its request has it.
A run that fails leaves nothing, so it is served when it is started. -/
def outstanding (env : Env) : Handler → Option (Option ℚ)
  | .stat frameIndex => some frameIndex
  | .execa frameIndex args =>
    if willWrite env (.execa frameIndex args) then some frameIndex else none
  | .replied _ => none

def waiting (env : Env) (b : Backend) : Multiset (Option ℚ) :=
  (b.handlers.filterMap (outstanding env) : Multiset (Option ℚ))

/-- The requests in `order`, handled one at a time, lead to the session that is there, but
for the frame index, which is then `g`. The others are those of `pool`. -/
structure Served (env : Env) (s₀ : Session) (reqs : List Request) (b : Backend)
    (order : List Request) (pool : Multiset (Option ℚ)) (g : ℚ) : Prop where
  id : b.session.id = s₀.id
  requests : (order : Multiset Request) + pool.map (.runFrame s₀.id) = (reqs : Multiset Request)
  session : order.foldl (handled env) s₀ = { b.session with frameIndex := g }
  pool : StandsFor pool (waiting env b)

/-- The next request can be served with frame index `v`: `g` is what one without a frame
index would be served with. -/
def Has (pool : Multiset (Option ℚ)) (g v : ℚ) : Prop := g = v ∨ some v ∈ pool

theorem Has.cons {pool : Multiset (Option ℚ)} {g v : ℚ} (h : Has pool g v) (o : Option ℚ) :
    Has (o ::ₘ pool) g v := h.imp_right (Multiset.mem_cons_of_mem)

/-- At most one run is in flight. It has been started with the session as it is, but for
the frame index. -/
inductive Flight (env : Env) (b : Backend) (pool : Multiset (Option ℚ)) (g : ℚ) : Prop
  | idle (hwriters : writers env b.handlers = ∅)
      (hframe : env.found = true → Has pool g b.session.frameIndex)
  | busy (i : ℕ) (o : Option ℚ) (v : ℚ) (hfound : env.found = true)
      (hi : b.handlers[i]? = some (.execa o { runSession b.session with frameIndex := v }))
      (hwriters : writers env b.handlers = {i}) (ho : o = none ∨ o = some v)
      (hv : Has pool g v) (hframe : Has pool v b.session.frameIndex)

def Inv (env : Env) (s₀ : Session) (reqs : List Request) (b : Backend) : Prop :=
  ∃ order pool g, Served env s₀ reqs b order pool g ∧ Flight env b pool g

section Steps

variable {env : Env} {s₀ : Session} {reqs order : List Request} {b : Backend}
  {pool : Multiset (Option ℚ)} {g : ℚ}

theorem init_inv (env : Env) (s₀ : Session) : Inv env s₀ [] ⟨s₀, []⟩ :=
  ⟨[], 0, s₀.frameIndex, ⟨rfl, by simp, rfl, standsFor_zero⟩,
    .idle (by simp [writers]) fun _ => .inl rfl⟩

/-- One of the waiting requests is served, with `v` if `d` is the frame index that there
is. -/
theorem Served.serve {o : Option ℚ} {d v : ℚ} {rest : Multiset (Option ℚ)}
    (h : Served env s₀ reqs b order pool g) (hrest : waiting env b = o ::ₘ rest)
    (ho : o = none ∨ o = some v) (hv : Has pool d v) :
    ∃ (o' : Option ℚ) (order' : List Request) (pool' : Multiset (Option ℚ)),
      (order' : Multiset Request) + pool'.map (.runFrame s₀.id) = (reqs : Multiset Request) ∧
      order'.foldl (handled env) s₀ = ran env { b.session with frameIndex := g } (o'.getD g) ∧
      StandsFor pool' rest ∧ o'.getD d = v ∧ ∀ w, Has pool v w → Has pool' v w := by
  have hpool := h.pool
  rw [hrest] at hpool
  rcases hpool.exchange ho hv with ⟨o', pool', rfl, hpool', ho', hget⟩
  refine ⟨o', order ++ [.runFrame s₀.id o'], pool', ?_, ?_, hpool', hget, fun w hw => ?_⟩
  · rw [← h.requests, Multiset.map_cons, ← Multiset.coe_add, add_assoc]
    rfl
  · have hid : s₀.id = ({ b.session with frameIndex := g } : Session).id := h.id.symm
    rw [List.foldl_append, h.session, List.foldl_cons, List.foldl_nil, hid, handled_runFrame]
  · -- the request that is taken out asks for nothing else
    rcases hw with rfl | hw
    · exact .inl rfl
    · rcases Multiset.mem_cons.mp hw with hw | hw
      · rcases ho' with rfl | rfl
        · cases hw
        · exact .inl (Option.some.inj hw).symm
      · exact .inr hw

/-- A request that is served as it comes. -/
theorem served_concat {req : Request} {session : Session} {reply : Reply}
    (h : Served env s₀ reqs b order pool g) (hid : session.id = b.session.id)
    (hsession : handled env { b.session with frameIndex := g } req =
      { session with frameIndex := g }) :
    Served env s₀ (reqs ++ [req]) ⟨session, b.handlers ++ [.replied reply]⟩ (order ++ [req])
      pool g := by
  refine ⟨hid.trans h.id, ?_, ?_, ?_⟩
  · rw [← Multiset.coe_add, ← Multiset.coe_add, ← h.requests, add_right_comm]
  · rw [List.foldl_append, h.session, List.foldl_cons, List.foldl_nil, hsession]
  · have hwaiting : waiting env ⟨session, b.handlers ++ [.replied reply]⟩ = waiting env b := by
      simp [waiting, outstanding, List.filterMap_cons]
    rw [hwaiting]
    exact h.pool

/-- A request that is served as it comes leaves the others as they are. -/
theorem flight_concat {session : Session} {reply : Reply} (h : Flight env b pool g)
    (hframe : session.frameIndex = b.session.frameIndex)
    (hsame : InFlight env b → session = b.session) :
    Flight env ⟨session, b.handlers ++ [.replied reply]⟩ pool g := by
  have hconcat : writers env (b.handlers ++ [.replied reply]) = writers env b.handlers :=
    writers_concat rfl
  cases h with
  | idle hwriters hhas =>
    exact .idle (by rw [hconcat, hwriters]) fun hfound => by rw [hframe]; exact hhas hfound
  | busy i o v hfound hi hwriters ho hv hhas =>
    have hflight : InFlight env b := by
      by_contra hidle
      simp [not_inFlight_iff.mp hidle] at hwriters
    refine .busy i o v hfound ?_ (by rw [hconcat, hwriters]) ho hv (by rw [hframe]; exact hhas)
    rw [hsame hflight, List.getElem?_append_left (List.getElem?_eq_some_iff.mp hi).1]
    exact hi

/-! ### Requests -/

theorem stranger_inv {req : Request} (h : Inv env s₀ reqs b) (hid : req.id ≠ b.session.id) :
    Inv env s₀ (reqs ++ [req]) (step env b (.request req)) := by
  rcases h with ⟨order, pool, g, hserved, hflight⟩
  simp only [step, handle_of_ne hid]
  refine ⟨order ++ [req], pool, g, served_concat hserved rfl ?_, flight_concat hflight rfl ?_⟩
  · exact handled_of_ne env hid
  · exact fun _ => rfl

theorem setElement_inv {element : ElementDisplay} (h : Inv env s₀ reqs b)
    (hund : Undisturbed env [] b (.request (.setElement b.session.id element))) :
    Inv env s₀ (reqs ++ [.setElement b.session.id element])
      (step env b (.request (.setElement b.session.id element))) := by
  rcases h with ⟨order, pool, g, hserved, hflight⟩
  simp only [step, handle, ne_eq, not_true_eq_false, if_false]
  refine ⟨order ++ [.setElement b.session.id element], pool, g, served_concat hserved ?_ ?_,
    flight_concat hflight ?_ fun hbusy => ?_⟩
  · rfl
  · exact handled_setElement env { b.session with frameIndex := g } element
  · rfl
  · rw [hund rfl hbusy]

theorem Has.ask {v : ℚ} (h : Has pool g v) (o : Option ℚ) : Has (o ::ₘ pool) g (o.getD v) := by
  cases o with
  | none => exact h.cons none
  | some w => exact .inr (Multiset.mem_cons_self _ _)

/-- A run waits for its turn, with the frame index that it asks for. -/
theorem runFrame_inv {o : Option ℚ} (h : Inv env s₀ reqs b) :
    Inv env s₀ (reqs ++ [.runFrame b.session.id o])
      (step env b (.request (.runFrame b.session.id o))) := by
  rcases h with ⟨order, pool, g, hserved, hflight⟩
  simp only [step, handle_runFrame]
  have hconcat : writers env (b.handlers ++ [.stat o]) = writers env b.handlers :=
    writers_concat rfl
  refine ⟨order, o ::ₘ pool, g, ⟨hserved.id, ?_, hserved.session, ?_⟩, ?_⟩
  · rw [← Multiset.coe_add, ← hserved.requests, Multiset.map_cons, hserved.id,
      ← Multiset.singleton_add, add_left_comm, add_comm]
    rfl
  · rw [waiting, List.filterMap_append, ← Multiset.coe_add, add_comm]
    exact hserved.pool.cons o
  · cases hflight with
    | idle hwriters hhas =>
      exact .idle (by rw [hconcat, hwriters]) fun hfound => (hhas hfound).ask o
    | busy i o' v hfound hi hwriters ho hv hhas =>
      refine .busy i o' v hfound ?_ (by rw [hconcat, hwriters]) ho (hv.cons o) (hhas.ask o)
      rw [List.getElem?_append_left (List.getElem?_eq_some_iff.mp hi).1]
      exact hi

/-! ### Handlers that go on -/

variable {i : ℕ} {o : Option ℚ} {args : Args}

/-- Without the executable a run leaves nothing but its frame index. -/
theorem missing_inv (h : Inv env s₀ reqs b) (hi : b.handlers[i]? = some (.stat o))
    (hfound : env.found = false) : Inv env s₀ reqs (step env b (.settled i)) := by
  rcases h with ⟨order, pool, g, hserved, hflight⟩
  simp only [step, hi, resume, hfound, Bool.false_eq_true, if_false]
  have hwaiting : waiting env b = o ::ₘ waiting env
      ⟨b.session, b.handlers.set i (.replied (.failure "Executable not found"))⟩ :=
    coe_filterMap_set hi rfl rfl
  have ho : o = none ∨ o = some (o.getD 0) := by cases o <;> simp
  rcases hserved.serve hwaiting ho (.inl rfl) with ⟨o', order', pool', hreqs, hsession, hpool, -⟩
  refine ⟨order', pool', o'.getD g, ⟨hserved.id, hreqs, ?_, hpool⟩, .idle ?_ (by simp [hfound])⟩
  · rw [hsession]
    simp [ran, hfound]
  · cases hflight with
    | idle hwriters => rw [writers_set rfl, hwriters, Set.empty_sdiff]
    | busy j o v hfound' => simp [hfound] at hfound'

/-- Nothing is in flight when a run is started, and it finds the frame index it asks for. -/
theorem idle_of_undisturbed (hi : b.handlers[i]? = some (.stat o)) (hfound : env.found = true)
    (hund : Undisturbed env [] b (.settled i)) (hflight : Flight env b pool g) :
    writers env b.handlers = ∅ ∧ (o = none ∨ o = some b.session.frameIndex) ∧
      Has pool g b.session.frameIndex := by
  simp only [Undisturbed, hi, StartsAlone] at hund
  rcases hund hfound with ⟨hidle, ho⟩
  have hwriters := not_inFlight_iff.mp hidle
  cases hflight with
  | idle _ hhas => exact ⟨hwriters, ho, hhas hfound⟩
  | busy j _ _ _ _ hbusy => simp [hwriters] at hbusy

/-- A handler that need not be served any more, since a request has been served with `v`. -/
theorem Served.settle {handler : Handler} {v : ℚ} (h : Served env s₀ reqs b order pool g)
    (session : Session) (handler' : Handler) (hi : b.handlers[i]? = some handler)
    (hout : outstanding env handler = some o) (hout' : outstanding env handler' = none)
    (ho : o = none ∨ o = some v) (hv : Has pool g v) (hid : session.id = b.session.id)
    (hran : ran env { b.session with frameIndex := g } v = { session with frameIndex := v }) :
    ∃ order' pool', Served env s₀ reqs ⟨session, b.handlers.set i handler'⟩ order' pool' v ∧
      ∀ w, Has pool v w → Has pool' v w := by
  have hwaiting : waiting env b = o ::ₘ waiting env ⟨session, b.handlers.set i handler'⟩ :=
    coe_filterMap_set hi hout hout'
  rcases h.serve hwaiting ho hv with ⟨o', order', pool', hreqs, hsession, hpool, hget, hkeep⟩
  rw [hget, hran] at hsession
  exact ⟨order', pool', ⟨hid.trans h.id, hreqs, hsession, hpool⟩, hkeep⟩

/-- A run that will fail is served when it is started. -/
theorem startFailing_inv (h : Inv env s₀ reqs b) (hi : b.handlers[i]? = some (.stat o))
    (hfound : env.found = true) {stderr : String}
    (hfail : env.imageTest (runSession b.session) = .error stderr)
    (hund : Undisturbed env [] b (.settled i)) :
    Inv env s₀ reqs (step env b (.settled i)) := by
  rcases h with ⟨order, pool, g, hserved, hflight⟩
  rcases idle_of_undisturbed hi hfound hund hflight with ⟨hwriters, ho, hhas⟩
  have hquiet := willWrite_of_error o hfail
  simp only [step, hi, resume, hfound, if_true]
  rcases hserved.settle b.session (.execa o (runSession b.session)) hi rfl
    (by simp [outstanding, hquiet]) ho hhas rfl (ran_of_error hfound hfail) with
    ⟨order', pool', hserved', -⟩
  refine ⟨order', pool', b.session.frameIndex, hserved', .idle ?_ fun _ => .inl rfl⟩
  rw [writers_set hquiet, hwriters, Set.empty_sdiff]

/-- A run that will not fail is in flight from then on. -/
theorem start_inv (h : Inv env s₀ reqs b) (hi : b.handlers[i]? = some (.stat o))
    (hfound : env.found = true) {result : Output}
    (hok : env.imageTest (runSession b.session) = .ok result)
    (hund : Undisturbed env [] b (.settled i)) :
    Inv env s₀ reqs (step env b (.settled i)) := by
  rcases h with ⟨order, pool, g, hserved, hflight⟩
  rcases idle_of_undisturbed hi hfound hund hflight with ⟨hwriters, ho, hhas⟩
  have hwrite := willWrite_of_ok o hok
  simp only [step, hi, resume, hfound, if_true]
  have hwaiting : waiting env ⟨b.session, b.handlers.set i (.execa o (runSession b.session))⟩ =
      waiting env b := by
    rw [waiting, filterMap_set_of_eq hi (by simp [outstanding, hwrite])]
    rfl
  refine ⟨order, pool, g, ⟨hserved.id, hserved.requests, hserved.session, ?_⟩,
    .busy i o b.session.frameIndex hfound ?_ ?_ ho hhas (.inl rfl)⟩
  · rw [hwaiting]
    exact hserved.pool
  · exact List.getElem?_set_self (List.getElem?_eq_some_iff.mp hi).1
  · rw [writers_set_insert hi hwrite, hwriters, insert_empty_eq]

/-- The run in flight writes its result. -/
theorem finish_inv (h : Inv env s₀ reqs b) (hi : b.handlers[i]? = some (.execa o args))
    {result : Output} (hok : env.imageTest args = .ok result) :
    Inv env s₀ reqs (step env b (.settled i)) := by
  rcases h with ⟨order, pool, g, hserved, hflight⟩
  have hwrite := willWrite_of_ok o hok
  have hmem : i ∈ writers env b.handlers := ⟨_, hi, hwrite⟩
  cases hflight with
  | idle hwriters => simp [hwriters] at hmem
  | busy j o' v hfound hj hwriters ho hv hhas =>
    -- it is this one
    obtain rfl : i = j := by simpa [hwriters] using hmem
    rw [hi, Option.some.injEq, Handler.execa.injEq] at hj
    rcases hj with ⟨rfl, rfl⟩
    simp only [step, hi, resume, hok]
    rcases hserved.settle { b.session with prevDataStr := result.stderr }
      (.replied (.ran result)) hi (by simp [outstanding, hwrite]) rfl ho hv rfl
      (ran_of_ok hfound hok) with ⟨order', pool', hserved', hkeep⟩
    refine ⟨order', pool', v, hserved', .idle ?_ fun _ => hkeep _ hhas⟩
    rw [writers_set rfl, hwriters, Set.sdiff_self]

/-- A step that writes nothing and waits for nothing else. -/
theorem keep_inv {handler handler' : Handler} (h : Inv env s₀ reqs b)
    (hi : b.handlers[i]? = some handler) (hquiet : willWrite env handler = false)
    (hnone : outstanding env handler = none) (hnone' : outstanding env handler' = none)
    (hquiet' : willWrite env handler' = false) :
    Inv env s₀ reqs ⟨b.session, b.handlers.set i handler'⟩ := by
  rcases h with ⟨order, pool, g, hserved, hflight⟩
  have hwaiting : waiting env ⟨b.session, b.handlers.set i handler'⟩ = waiting env b := by
    rw [waiting, filterMap_set_of_eq hi (by rw [hnone, hnone'])]
    rfl
  -- the handler is not among those that write, neither before nor after
  have hi_notMem : i ∉ writers env b.handlers := by
    rintro ⟨handler'', hi', hwrite⟩
    rw [hi, Option.some.injEq] at hi'
    simp [← hi', hquiet] at hwrite
  have hwriters : writers env (b.handlers.set i handler') = writers env b.handlers := by
    rw [writers_set hquiet', Set.sdiff_singleton_eq_self hi_notMem]
  refine ⟨order, pool, g, ⟨hserved.id, hserved.requests, hserved.session, ?_⟩, ?_⟩
  · rw [hwaiting]
    exact hserved.pool
  · cases hflight with
    | idle hidle hhas => exact .idle (by rw [hwriters, hidle]) hhas
    | busy j o' v hfound hj hbusy ho hv hhas =>
      refine .busy j o' v hfound ?_ (by rw [hwriters, hbusy]) ho hv hhas
      have hij : i ≠ j := by
        rintro rfl
        exact hi_notMem (by rw [hbusy]; rfl)
      rw [List.getElem?_set_ne hij]
      exact hj

theorem request_inv {req : Request} (h : Inv env s₀ reqs b)
    (hund : Undisturbed env [] b (.request req)) :
    Inv env s₀ (reqs ++ [req]) (step env b (.request req)) := by
  by_cases hid : req.id = b.session.id
  · cases req with
    | runFrame id o =>
      obtain rfl : id = b.session.id := hid
      exact runFrame_inv h
    | setElement id element =>
      obtain rfl : id = b.session.id := hid
      exact setElement_inv h hund
  · exact stranger_inv h hid

theorem settled_inv (h : Inv env s₀ reqs b) (hund : Undisturbed env [] b (.settled i)) :
    Inv env s₀ reqs (step env b (.settled i)) := by
  cases hi : b.handlers[i]? with
  | none =>
    simp only [step, hi]
    exact h
  | some handler =>
    cases handler with
    | stat o =>
      cases hfound : env.found with
      | false => exact missing_inv h hi hfound
      | true =>
        cases hresult : env.imageTest (runSession b.session) with
        | ok result => exact start_inv h hi hfound hresult hund
        | error stderr => exact startFailing_inv h hi hfound hresult hund
    | execa o args =>
      cases hresult : env.imageTest args with
      | ok result => exact finish_inv h hi hresult
      | error stderr =>
        have hquiet := willWrite_of_error o hresult
        simp only [step, hi, resume, hresult]
        exact keep_inv h hi hquiet (by simp [outstanding, hquiet]) rfl rfl
    | replied reply =>
      simp only [step, hi, resume]
      exact keep_inv h hi rfl rfl rfl rfl

end Steps

theorem undisturbed_inv (env : Env) (session : Session) :
    ∀ tr, Along (step env) ⟨session, []⟩ (Undisturbed env) tr →
      Inv env session (requests tr) (run (step env) ⟨session, []⟩ tr) := by
  refine run_induction_along (step env) ⟨session, []⟩ (Undisturbed env)
    (fun tr b => Inv env session (requests tr) b) (init_inv env session) fun tr e inv hund => ?_
  cases e with
  | request req =>
    rw [requests_request]
    exact request_inv inv hund
  | settled i =>
    rw [requests_settled]
    exact settled_inv inv hund

/-! ## The law -/

/-- When all have been replied to, all have been served. -/
theorem waiting_of_replied {env : Env} {b : Backend} (h : Replied b) : waiting env b = 0 := by
  have hnil : b.handlers.filterMap (outstanding env) = [] := by
    rw [List.filterMap_eq_nil_iff]
    intro handler hmem
    rcases h handler hmem with ⟨reply, rfl⟩
    rfl
  rw [waiting, hnil]
  rfl

/-- In every undisturbed run, no update is lost. -/
theorem serial_of_undisturbed (env : Env) (session : Session) (tr : List Event)
    (hund : Along (step env) ⟨session, []⟩ (Undisturbed env) tr)
    (hreplied : Replied (run (step env) ⟨session, []⟩ tr)) : Serial env session tr := by
  rcases undisturbed_inv env session tr hund with ⟨order, pool, g, hserved, -⟩
  have hpool := hserved.pool
  rw [waiting_of_replied hreplied] at hpool
  have hreqs := hserved.requests
  rw [hpool.eq_zero, Multiset.map_zero, add_zero] at hreqs
  refine ⟨order, Multiset.coe_eq_coe.mp hreqs, ?_⟩
  rw [foldl_handleAlone, hserved.session]

/-- What is printed for a frame on which the element stays what it was. -/
def report (element : ElementDisplay) : String :=
  "[prev element = " ++ toString (ElementDisplay.display.idxOf element) ++ " (" ++ element.name ++
    ")]\n[offset = 0.000000]\n[time = 1 ms]\n" ++ elementText element ++ "\n"

/-- A data set on which the element stays what it was, normal or a cross. -/
def straight : Env where
  found := true
  imageTest args :=
    if args.prevDataStr = replaceElement .cross (report .normal) then
      .ok ⟨"", report .cross⟩
    else .ok ⟨"", report .normal⟩

def onStraight : Session :=
  { id := "session", datasetName := "straight", frameIndex := 1, prevDataStr := report .normal,
    controlStr := "" }

/-- The second request comes while the first one is being run, and waits for it. -/
theorem serial_of_undisturbed_waiting :
    Serial straight onStraight
      [.request (.runFrame "session" none), .settled 0,
       .request (.runFrame "session" (some 2)), .settled 0, .settled 1, .settled 1,
       .request (.setElement "session" .cross)] :=
  serial_of_undisturbed straight onStraight _ (by decide +kernel) (by decide +kernel)

/-- An element that is set while a frame is being run is overwritten. -/
theorem element_lost :
    ¬ ∀ env session tr, Replied (run (step env) ⟨session, []⟩ tr) → Serial env session tr := by
  intro h
  rcases h straight onStraight
    [.request (.runFrame "session" none), .settled 0,
     .request (.setElement "session" .cross), .settled 0] (by decide +kernel) with
    ⟨order, hperm, heq⟩
  have hlost : ∀ order ∈ List.permutations'
      [Request.runFrame "session" none, .setElement "session" .cross],
      (order.foldl (handled straight) onStraight).prevDataStr ≠ report .normal := by
    decide +kernel
  rw [foldl_handleAlone] at heq
  exact hlost order (List.mem_permutations'.mpr hperm) (heq.trans (by decide +kernel))

end SmartCar.Debugger
