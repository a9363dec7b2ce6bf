/-
EffectHandlers/Proofs/Interleaving.lean

One chain, driven many times.

A chain is an immutable value, but the programs in it share records of the
world: their live coroutines.  Many drives of one chain may be under way at
once (`Family`).  A drive is a handler, a state and what came of the chain so
far; one step offers the effect that the chain waits for.  The steps of the
drives come in any order; a drive may fail, and it may be left alone half
way.  In between the chain may be run to the end, against any handler, any
effect may be resumed, and any other function may be called.

None of this can be noticed.  A drive against a pure handler stands where it
would stand after the same number of steps if the chain had been built for
it alone, in some other world (`lone`).

Main result: `drives_do_not_interfere`.
-/
import EffectHandlers.Proofs.Data
import EffectHandlers.Proofs.PureHandlers
import EffectHandlers.Proofs.Recipe

namespace EffectHandlers

variable {s : Settings}

/-! ### Drives step by step -/

/-- Where a drive stands: it is under way, nobody took its effect, or it failed. -/
inductive Course
  | going (state next : Value)
  | declined (state : Value) (e : Effect)
  | failed (f : Failure)

/-- An action whose failure is its value. -/
def Action.caught {α : Type} (x : Action α) : Action (Except Failure α) := fun w =>
  match x w with
  | .value a w' => .value (.ok a) w'
  | .failed f w' => .value (.error f) w'
  | .exhausted => .exhausted

namespace Course

/-- Where a drive stands after its effect was offered. -/
def after (state : Value) (e : Effect) : Except Failure Value → Course
  | .ok (.handled state next) => .going state next
  | .ok _ => .declined state e
  | .error f => .failed f

/-- One step of a drive against a handler. -/
noncomputable def step (s : Settings) (h : Handler) : Course → Action Course
  | .going state (.chain (.suspended e _)) => do
    return after state e (← (h.offer (Callable.meaning s) state e).caught)
  | .going state (.chain (.done v r)) => pure (.going state (.chain (.done v r)))
  | .going _ next => pure (.failed (.notChainStep next.typeName))
  | course => pure course

/-- The beginning of a drive of a chain. -/
noncomputable def start (s : Settings) (h : Handler) (c : Chain) : Action Course := do
  match ← (h.start (Callable.meaning s)).caught with
  | .ok state => return .going state (.chain c)
  | .error f => return .failed f

/-- Drive a chain for a number of steps: where the drive stands then, and where it stood before,
latest first. -/
noncomputable def take (s : Settings) (h : Handler) (c : Chain) :
    Nat → Action (Course × List Course)
  | 0 => do return (← start s h c, [])
  | n + 1 => do
    let (course, past) ← take s h c n
    return (← course.step s h, course :: past)

end Course

/-- Build a chain and drive it alone, for a number of steps. -/
noncomputable def lone (s : Settings) (p : Recipe) (h : Handler) (n : Nat) :
    Action (Course × List Course) := do
  Course.take s h (← p.build (Callable.meaning s)) n

/-- Build a chain and run it. -/
noncomputable def loneRun (s : Settings) (p : Recipe) (h : Handler) : Action Value := do
  run s (Callable.meaning s) (← p.build (Callable.meaning s)) h

/-! ### Families of drives -/

/-- A drive with its handler: where it stands, and where it stood before each of its steps, latest
first. -/
structure Track where
  handler : Handler
  course : Course
  past : List Course

/-- The drives of a chain that were begun since a world, and the world to which they, and whatever
else was done, have led. -/
inductive Family (s : Settings) (c : Chain) (b : World) : World → List Track → Prop
  | none : Family s c b b []
  | start {w w' : World} {ts : List Track} {course : Course} (before : Family s c b w ts)
      (h : Handler) (starts : Course.start s h c w = .value course w') :
      Family s c b w' (⟨h, course, []⟩ :: ts)
  | step {w w' : World} {ts ts' : List Track} {t : Track} {course : Course}
      (before : Family s c b w (ts ++ t :: ts'))
      (steps : t.course.step s t.handler w = .value course w') :
      Family s c b w' (ts ++ ⟨t.handler, course, t.course :: t.past⟩ :: ts')
  | resume {w w' : World} {ts : List Track} (before : Family s c b w ts) (e : Effect)
      (answer : Value) (resumes : (e.resume (Callable.meaning s) answer w).world? = some w') :
      Family s c b w' ts
  | run {w w' : World} {ts : List Track} (before : Family s c b w ts) (h : Handler)
      (runs : (run s (Callable.meaning s) c h w).world? = some w') : Family s c b w' ts
  | call {w w' : World} {ts : List Track} (before : Family s c b w ts) (f : Callable)
      (args : List Value) (calls : (Callable.meaning s f args w).world? = some w') :
      Family s c b w' ts

/-! ### Steps keep worlds kept -/

theorem Keeps.caught {α : Type} {P : α → Prop} {x : Action α} (hx : Keeps s P x) :
    Keeps s (fun _ => True) x.caught := by
  intro births w hw
  have hlead := hx births w hw
  unfold Action.caught
  cases hxw : x w with
  | value a w' =>
    rw [hxw] at hlead
    exact ⟨hlead.1, trivial⟩
  | failed f w' =>
    rw [hxw] at hlead
    exact ⟨hlead, trivial⟩
  | exhausted => trivial

theorem keeps_offer (s : Settings) (h : Handler) (state : Value) (e : Effect) :
    Keeps s (Value.Obeys .free) (h.offer (Callable.meaning s) state e) :=
  Discipline.offer (D := keeping s) (keeping_meaning s) h h.obeys_free state.obeys_free
    e.obeys_free

theorem keeps_handlerStart (s : Settings) (h : Handler) :
    Keeps s (Value.Obeys .free) (h.start (Callable.meaning s)) :=
  Discipline.start (D := keeping s) (keeping_meaning s) h h.obeys_free

theorem keeps_run (s : Settings) (c : Chain) (h : Handler) :
    Keeps s (Value.Obeys .free) (run s (Callable.meaning s) c h) :=
  Discipline.run (D := keeping s) s (keeping_meaning s) c.obeys_free h.obeys_free

theorem Course.keeps_step (s : Settings) (h : Handler) (course : Course) :
    Keeps s (fun _ => True) (course.step s h) := by
  unfold Course.step
  split
  · exact Keeps.bind (keeps_offer s h _ _).caught fun _ _ => Keeps.ret trivial
  all_goals exact Keeps.ret trivial

theorem Course.keeps_start (s : Settings) (h : Handler) (c : Chain) :
    Keeps s (fun _ => True) (Course.start s h c) := by
  refine Keeps.bind (keeps_handlerStart s h).caught fun x _ => ?_
  cases x <;> exact Keeps.ret trivial

/-! ### Drives that stand alike -/

/-- Two drives stand alike: in states that are alike, with what is related to go on with; or at
requests that nobody took and that cannot be told apart; or they failed alike. -/
inductive Course.Alike (L : Sameness s) (h : Handler) (w u : World) (R : Value → Value → Prop) :
    Course → Course → Prop
  | going {a a' v v' : Value} (state : L.States w u h a a') (next : R v v') :
      Alike L h w u R (.going a v) (.going a' v')
  | declined {a a' : Value} {e e' : Effect} (state : L.States w u h a a')
      (request : L.Asks w e.request u e'.request) :
      Alike L h w u R (.declined a e) (.declined a' e')
  | failed {f f' : Failure} (same : f.Alike f') : Alike L h w u R (.failed f) (.failed f')

theorem Course.Alike.mono {L : Sameness s} {h : Handler} {w u : World}
    {R R' : Value → Value → Prop} {course course' : Course}
    (hc : Course.Alike L h w u R course course') (hR : ∀ v v', R v v' → R' v v') :
    Course.Alike L h w u R' course course' := by
  cases hc with
  | going state next => exact .going state (hR _ _ next)
  | declined state request => exact .declined state request
  | failed same => exact .failed same

/-- Drives that stand alike and go on alike. -/
abbrev Course.Even (L : Sameness s) (h : Handler) (w : Known s) (course : Course) (u : Known s)
    (course' : Course) : Prop :=
  Course.Alike L h w u (fun v v' => L.Behaves.Ends w v u v') course course'

section

variable {L : Sameness s} {b : World} {w w' u u' : Known s} {h : Handler} {course course' : Course}

theorem Course.Alike.later (hp : h.Pure L b) (hc : Course.Even L h w course u course')
    (hw : w.Later w') (hu : u.Later u') : Course.Even L h w' course u' course' := by
  cases hc with
  | going state next =>
    exact .going (state.grow hp hw.grows hu.grows) (Sameness.Ends.later next hw hu)
  | declined state request =>
    exact .declined (state.grow hp hw.grows hu.grows) (request.grow hw.grows hu.grows)
  | failed same => exact .failed same

/-- Both gave a value, and these are related, or both failed alike. -/
inductive Caught {α β : Type} (R : Known s → α → Known s → β → Prop) (w : Known s) :
    Except Failure α → Known s → Except Failure β → Prop
  | ok {a : α} {b : β} {u : Known s} (h : R w a u b) : Caught R w (.ok a) u (.ok b)
  | error {f f' : Failure} {u : Known s} (h : f.Alike f') : Caught R w (.error f) u (.error f')

theorem Concurs.caught {α β : Type} {R : Known s → α → Known s → β → Prop} {P : α → Prop}
    {P' : β → Prop} {x : Action α} {y : Action β} (h : Concurs R w x u y) (hx : Keeps s P x)
    (hy : Keeps s P' y) : Concurs (Caught R) w x.caught u y.caught := by
  unfold Concurs Action.caught at *
  generalize hxw : x w = o at h ⊢
  generalize hyu : y u = o' at h ⊢
  cases h with
  | value h =>
    obtain ⟨v, v', hvw, hvu, hv, hv', hR⟩ := h
    exact .value ⟨v, v', hvw, hvu, hv, hv', .ok hR⟩
  | failed h =>
    obtain ⟨v, hvw, hv⟩ := hx.known w (by rw [hxw]; rfl)
    obtain ⟨v', hvu, hv'⟩ := hy.known u (by rw [hyu]; rfl)
    exact .value ⟨v, v', hvw, hvu, hv, hv', .error h⟩
  | exhausted => exact .exhausted

/-- **A step preserves that two drives stand alike.** -/
theorem Course.Alike.step (hp : h.Pure L b) (hc : Course.Even L h w course u course') :
    Concurs (Course.Even L h) w (course.step s h) u (course'.step s h) := by
  cases hc with
  | failed same => exact .ret (.failed same)
  | declined state request => exact .ret (.declined state request)
  | @going a a' v v' state next =>
    cases next with
    | other left right type =>
      have hstep (a v : Value) (hv : ∀ c, v ≠ .chain c) :
          (Course.going a v).step s h = pure (.failed (.notChainStep v.typeName)) := by
        cases v with
        | chain c => exact absurd rfl (hv c)
        | _ => rfl
      rw [hstep a v left, hstep a' v' right, type]
      exact .ret (.failed (.refl _))
    | @chain c c' _ hcc' =>
      have hunfolds := hcc'.unfolds
      match c, c', hunfolds with
      | .done x r, .done y _, ⟨rfl, hxy⟩ => exact .ret (.going state (.chain hcc'))
      | .suspended e r, .suspended e' _, ⟨rfl, hasks, _⟩ =>
        have hoffer := (hp.offer state hcc').caught (keeps_offer s h a e) (keeps_offer s h a' e')
        refine hoffer.bind fun w₁ x u₁ x' hw hu hx => .ret ?_
        cases hx with
        | error hf => exact .failed hf
        | ok hv =>
          cases hv with
          | handled state next => exact .going state next
          | declined =>
            exact .declined (state.grow hp hw.grows hu.grows) (hasks.grow hw.grows hu.grows)

/-- Drives of chains that behave alike begin alike. -/
theorem Course.start_concurs (hp : h.Pure L b) (hw : b.Grows w) (hu : b.Grows u) {c c' : Chain}
    (hc : L.Behaves w c u c') :
    Concurs (Course.Even L h) w (Course.start s h c) u (Course.start s h c') := by
  have hstart := (hp.start hw hu).caught (keeps_handlerStart s h) (keeps_handlerStart s h)
  refine hstart.bind fun w₁ x u₁ x' hw₁ hu₁ hx => ?_
  cases hx with
  | error hf => exact .ret (.failed hf)
  | ok hstate => exact .ret (.going hstate (.chain (hc.later hw₁ hu₁)))

/-! ### Families -/

/-- What a family keeps: every drive against a pure handler stands and stood where a drive of
a chain that behaves alike does. -/
def Undisturbed (L : Sameness s) (b : World) (c' : Chain) (u : Known s) (w : Known s)
    (ts : List Track) : Prop :=
  ∀ t ∈ ts, t.handler.Pure L b → ∃ course past v,
    Course.take s t.handler c' t.past.length u = .value (course, past) (Known.world v) ∧
      u.Later v ∧ Course.Even L t.handler w t.course v course ∧
      List.Forall₂ (fun x y => Course.Even L t.handler w x v y) t.past past

theorem Undisturbed.later {c' : Chain} {ts : List Track} (h : Undisturbed L b c' u w ts)
    (hw : w.Later w') : Undisturbed L b c' u w' ts := by
  intro t ht hp
  obtain ⟨course, past, v, hcourse, hv, heven, hpast⟩ := h t ht hp
  refine ⟨course, past, v, hcourse, hv, heven.later hp hw (.refl v), hpast.imp ?_⟩
  exact fun x y hxy => hxy.later hp hw (.refl v)

/-- What concurs with an action that gives a value gives one. -/
theorem Concurs.of_value {α β : Type} {R : Known s → α → Known s → β → Prop} {x : Action α}
    {y : Action β} (h : Concurs R w x u y) {a : α} {z : World} (hx : x w = .value a z) :
    ∃ v b v', v.world = z ∧ y u = .value b v'.world ∧ w.Later v ∧ u.Later v' ∧ R v a v' b := by
  unfold Concurs at h
  rw [hx] at h
  generalize hyu : y u = o at h
  cases h with
  | @value _ b _ u' h =>
    obtain ⟨v, v', hvw, rfl, hv, hv', hR⟩ := h
    exact ⟨v, b, v', hvw, rfl, hv, hv', hR⟩

/-- Whatever is done with a chain, it leads to a later world. -/
theorem Family.leads {c : Chain} {z : World} {ts : List Track} (hf : Family s c w z ts) :
    ∃ w' : Known s, w'.world = z ∧ w.Later w' := by
  have hstep {z z' : World} (ih : ∃ v : Known s, v.world = z ∧ w.Later v)
      (h : ∀ v : Known s, v.world = z → ∃ v' : Known s, v'.world = z' ∧ v.Later v') :
      ∃ v : Known s, v.world = z' ∧ w.Later v := by
    obtain ⟨v, hvz, hv⟩ := ih
    obtain ⟨v', hvz', hv'⟩ := h v hvz
    exact ⟨v', hvz', hv.trans hv'⟩
  induction hf with
  | none => exact ⟨w, rfl, .refl w⟩
  | start before h starts ih =>
    refine hstep ih fun v hv => (Course.keeps_start s h c).known v ?_
    rw [hv, starts]
    rfl
  | @step _ _ _ _ t _ before steps ih =>
    refine hstep ih fun v hv => (Course.keeps_step s t.handler t.course).known v ?_
    rw [hv, steps]
    rfl
  | resume before e answer resumes ih =>
    refine hstep ih fun v hv => (Reference.keeps_effectResume s e answer).known v ?_
    rw [hv, resumes]
  | run before h runs ih =>
    refine hstep ih fun v hv => (keeps_run s c h).known v ?_
    rw [hv, runs]
  | call before f args calls ih =>
    refine hstep ih fun v hv => (keeps_meaning s f args).known v ?_
    rw [hv, calls]

/-- **Whatever is done with a chain, no drive of it is disturbed.** -/
theorem Family.undisturbed {c c' : Chain} (hc : L.Behaves w c u c') (hw : b.Grows w)
    (hu : b.Grows u) {z : World} {ts : List Track} (hf : Family s c w z ts) :
    ∃ w' : Known s, w'.world = z ∧ w.Later w' ∧ Undisturbed L b c' u w' ts := by
  induction hf with
  | none => exact ⟨w, rfl, .refl w, fun _ ht => by cases ht⟩
  | @start z z' ts course before h starts ih =>
    obtain ⟨v, rfl, hv, hts⟩ := ih
    by_cases hp : h.Pure L b
    · have hstart := Course.start_concurs hp (hw.trans hv.grows) hu (hc.later hv (.refl u))
      obtain ⟨v', course', x, rfl, hx, hv', hux, heven⟩ := hstart.of_value starts
      refine ⟨v', rfl, hv.trans hv', fun t ht hpt => ?_⟩
      rcases List.mem_cons.mp ht with rfl | ht
      · exact ⟨course', [], x, (Action.bind_of_value hx).trans rfl, hux, heven, .nil⟩
      · exact hts.later hv' t ht hpt
    · obtain ⟨v', rfl, hv'⟩ := (Course.keeps_start s h c).known v (by rw [starts]; rfl)
      refine ⟨v', rfl, hv.trans hv', fun t ht hpt => ?_⟩
      rcases List.mem_cons.mp ht with rfl | ht
      · exact absurd hpt hp
      · exact hts.later hv' t ht hpt
  | @step z z' ts ts' t course before steps ih =>
    obtain ⟨v, rfl, hv, hts⟩ := ih
    have ht : t ∈ ts ++ t :: ts' := by simp
    have hother {t' : Track} (h : t' ∈ ts ++ ⟨t.handler, course, t.course :: t.past⟩ :: ts') :
        t' = ⟨t.handler, course, t.course :: t.past⟩ ∨ t' ∈ ts ++ t :: ts' := by
      simp only [List.mem_append, List.mem_cons] at h ⊢
      tauto
    by_cases hp : t.handler.Pure L b
    · obtain ⟨course₁, past, x, hx, hux, heven, hpast⟩ := hts t ht hp
      obtain ⟨v', course', x', rfl, hx', hv', hxx', heven'⟩ := (heven.step hp).of_value steps
      refine ⟨v', rfl, hv.trans hv', fun t' ht' hpt => ?_⟩
      rcases hother ht' with rfl | ht'
      · refine ⟨course', course₁ :: past, x', ?_, hux.trans hxx', heven', ?_⟩
        · show Course.take s t.handler c' (t.past.length + 1) u = _
          rw [Course.take, Action.bind_of_value hx]
          exact Action.bind_of_value hx'
        · refine .cons (heven.later hp hv' hxx') (hpast.imp ?_)
          exact fun x y hxy => hxy.later hp hv' hxx'
      · exact hts.later hv' t' ht' hpt
    · obtain ⟨v', rfl, hv'⟩ := (Course.keeps_step s t.handler t.course).known v
        (by rw [steps]; rfl)
      refine ⟨v', rfl, hv.trans hv', fun t' ht' hpt => ?_⟩
      rcases hother ht' with rfl | ht'
      · exact absurd hpt hp
      · exact hts.later hv' t' ht' hpt
  | resume before e answer resumes ih =>
    obtain ⟨v, rfl, hv, hts⟩ := ih
    obtain ⟨v', rfl, hv'⟩ := (Reference.keeps_effectResume s e answer).known v resumes
    exact ⟨v', rfl, hv.trans hv', hts.later hv'⟩
  | run before h runs ih =>
    obtain ⟨v, rfl, hv, hts⟩ := ih
    obtain ⟨v', rfl, hv'⟩ := (keeps_run s c h).known v runs
    exact ⟨v', rfl, hv.trans hv', hts.later hv'⟩
  | call before f args calls ih =>
    obtain ⟨v, rfl, hv, hts⟩ := ih
    obtain ⟨v', rfl, hv'⟩ := (keeps_meaning s f args).known v calls
    exact ⟨v', rfl, hv.trans hv', hts.later hv'⟩

end

/-! ### The theorem -/

/-- **Drives of one chain do not interfere.**  A chain is built by a steady recipe, and drives of
it are begun, carried on in any order, and left; it is run to the end, and other functions are
called.  A drive against a pure handler then stands where it stands after as many steps if the
chain is built for it alone in any other kept world: in states that are alike, and with chains
that seem alike, or it failed alike; and so it did before each of its steps.  And whenever the
chain is run against a pure handler, the run has the outcome that it has if the chain is built for
it alone. -/
theorem drives_do_not_interfere {L : Sameness s} {b w w₀ z : World} {p : Recipe} {c : Chain}
    {ts : List Track} (hp : p.Steady L b) (hw : Kept s w) (hbw : b.Grows w)
    (hbuild : p.build (Callable.meaning s) w = .value c w₀) (hf : Family s c w₀ z ts) {u : World}
    (hu : Kept s u) (hbu : b.Grows u) :
    (∀ t ∈ ts, t.handler.Pure L b → ∃ course past z',
      lone s p t.handler t.past.length u = .value (course, past) z' ∧
      Course.Alike L t.handler z z' (L.Seems z z') t.course course ∧
      List.Forall₂ (Course.Alike L t.handler z z' (L.Seems z z')) t.past past) ∧
    ∀ h : Handler, h.Pure L b → (run s (Callable.meaning s) c h z).Alike
      (fun w v u v' => L.Finishes h w u v v') (loneRun s p h u) := by
  obtain ⟨w, rfl⟩ := Known.exists_of_kept hw
  obtain ⟨u, rfl⟩ := Known.exists_of_kept hu
  obtain ⟨v, c', x, rfl, hx, hv, hux, hc⟩ := (hp w u hbw hbu).build_concurs.of_value hbuild
  have hbv := hbw.trans hv.grows
  have hbx := hbu.trans hux.grows
  obtain ⟨v', rfl, hv', hts⟩ := Family.undisturbed hc hbv hbx hf
  constructor
  · intro t ht hpt
    obtain ⟨course, past, z', hz', hxz', heven, hpast⟩ := hts t ht hpt
    refine ⟨course, past, z', (Action.bind_of_value hx).trans hz', ?_, hpast.imp ?_⟩
    · exact heven.mono fun _ _ => Sameness.Ends.seems
    · exact fun _ _ h => h.mono fun _ _ => Sameness.Ends.seems
  · intro h hph
    have hrun := run_concurs hph (hbv.trans hv'.grows) hbx (hc.later hv' (.refl x))
    rw [loneRun, Action.bind_of_value hx]
    refine Outcome.Alike.mono hrun ?_
    rintro _ a _ a' ⟨y, y', rfl, rfl, -, -, hfinishes⟩
    exact hfinishes

/-! ### Drives by hand -/

open Reference

/-- A pending chain of a call is answered as its reference is. -/
theorem answered_of_reference {L : Likeness s} {b : World} {body : List Stmt} {env : Env} {id : Nat}
    (hd : Determinate L b body env) {w : Known s} (hbirth : w.births id = b) {u : World}
    (hu : Kept s u) (hbu : b.Grows u) {e : Effect} {r : CapabilitySet} {n : Node}
    (hagree : Agrees L b body env id w (.suspended e r) u (.pending n)) {a a' : Value}
    (hsame : L.same w a u a') {res : Result} {u' : World} (hn : n.resume s a' u = .value res u') :
    ∃ (c : Chain) (v : Known s), e.resume (Callable.meaning s) a w = .value (.chain c) v.world ∧
      w.Later v ∧ v.births id = b ∧ Agrees L b body env id v c u' res := by
  have hid : id < w.world.invocations.size := by
    obtain ⟨-, -, -, -, -, -, i, answers, hi, -⟩ := hagree
    exact (Array.getElem?_eq_some_iff.mp hi).1
  have hlike := node_alike hd w.keptFrom hbirth hu hbu hagree hsame
  rw [hn] at hlike
  generalize ho : e.resume (Callable.meaning s) a w = o at hlike
  cases hlike with
  | @value x _ z _ h =>
    obtain ⟨c, rfl, hc⟩ := h
    obtain ⟨v, rfl, hv⟩ := (keeps_effectResume s e a).known w (by rw [ho]; rfl)
    exact ⟨c, v, rfl, hv, (hv.births id hid).trans hbirth, hc⟩

/-- The chain of a program waits where its reference does. -/
theorem begun_of_reference {L : Likeness s} {b : World} (fid : Nat) {params : List String}
    {body : List Stmt} {env env' : Env} {args : List Value} (hb : Kept s b)
    (henv : Env.setAll? env params args = some env') (hd : Determinate L b body env') {n : Node}
    {u : World} (hn : translate s body env' [] b = .value (.pending n) u) :
    ∃ (e : Effect) (r : CapabilitySet) (w : Known s),
      Callable.meaning s (.program fid ∅ params (.resumable body) env) args b
        = .value (.chain (.suspended e r)) w.world ∧
      w.births b.invocations.size = b ∧
      Agrees L b body env' b.invocations.size w (.suspended e r) u (.pending n) := by
  obtain ⟨_, hkept⟩ := hb.exists_births
  obtain ⟨births, -, hbirth, hkept⟩ := hkept.exists_birth
  have hbegin := begin_alike hd hkept hbirth (Callable.meaning s)
  rw [hn] at hbegin
  generalize ho : Invocation.begin (Evaluation.meaning s) (Callable.meaning s) s.maxSteps body env'
    b = o at hbegin
  cases hbegin with
  | @value c _ w _ hagrees =>
    match c, hagrees with
    | .suspended e r, hagrees =>
      have hleads := Outcome.Leads.begin (sound_meaning s) (Callable.meaning s) s.maxSteps body
        env' hkept hbirth
      obtain ⟨⟨-, births', hagree, hw⟩, -⟩ := hleads.of_value ho
      refine ⟨e, r ∪ ∅, ⟨w, births', hw⟩, ?_, ?_, hagrees⟩
      · rw [Callable.meaning_program, henv]
        exact Action.bind_of_value ho
      · exact (hagree _ (by simp [World.withCall])).trans hbirth

/-- A step against a tail-resumptive handler: the bare request is offered, and the effect is resumed
with the answer. -/
theorem Course.step_of_offer {h : Handler}
    (htail : TailResumptive (Callable.meaning s) (h.offer (Callable.meaning s)))
    {state state' answer next : Value} {e : Effect} {r : CapabilitySet} {w w' w'' : World}
    (hoffer : h.offer (Callable.meaning s) state (.of e.request) w
      = .value (.handled state' answer) w')
    (hresume : e.resume (Callable.meaning s) answer w' = .value next w'') :
    (Course.going state (.chain (.suspended e r))).step s h w
      = .value (.going state' next) w'' := by
  have hhandled : h.offer (Callable.meaning s) state e w = .value (.handled state' next) w'' := by
    rw [htail state e, Action.bind_of_value hoffer]
    exact Action.bind_of_value hresume
  have hcaught : (h.offer (Callable.meaning s) state e).caught w
      = .value (.ok (.handled state' next)) w'' := by
    rw [Action.caught, hhandled]
  exact Action.bind_of_value hcaught

/-! ### Two drives of a program -/

/-- A function that adds one. -/
def addOne (id : Nat) (env : Env) : Callable :=
  .closure id ["v"] (.op (.data .add) [.var "v", .literal (.int 1)]) env

theorem meaning_addOne (s : Settings) (id : Nat) (env : Env) (v : Value) :
    Callable.meaning s (addOne id env) [v] = Action.ofExcept (addOp v (.int 1)) := by
  rw [Callable.meaning_unfold]
  show ((evalVar (Env.set env "v" v) "v" >>= _) >>= _) = _
  rw [evalVar, Env.lookup_set]
  rfl

/-- Functions that add one are counterparts of each other, whenever they were made and whatever else
they can see. -/
def adders (s : Settings) : Counterparts s where
  rel f g := ∃ i j env env', f = addOne i env ∧ g = addOne j env'
  symm := by
    rintro _ _ ⟨i, j, env, env', rfl, rfl⟩
    exact ⟨j, i, env', env, rfl, rfl⟩
  trans := by
    rintro _ _ _ ⟨i, j, env, env', rfl, rfl⟩ ⟨_, k, _, env'', -, rfl⟩
    exact ⟨i, k, env, env'', rfl, rfl⟩
  apply := by
    rintro _ _ ⟨i, j, env, env', rfl, rfl⟩ w u as bs - - hall
    have harity (id : Nat) (env : Env) (as : List Value) (has : ∀ a, as ≠ [a]) :
        Callable.meaning s (addOne id env) as = Action.fail .arity := by
      rw [Callable.meaning_unfold]
      match as with
      | [] => rfl
      | [a] => exact absurd rfl (has a)
      | _ :: _ :: _ => rfl
    match as, bs, hall with
    | [a], [b], .cons hab .nil =>
      rw [meaning_addOne, meaning_addOne]
      cases hab with
      | int n => exact .value (.int (n + 1))
      | _ => exact .failed (.refl _)
    | [], [], _ =>
      rw [harity i env [] (by simp), harity j env' [] (by simp)]
      exact .failed (.refl _)
    | a :: a' :: as, b :: b' :: bs, _ =>
      rw [harity i env _ (by simp), harity j env' _ (by simp)]
      exact .failed (.refl _)

/-- The routine adds one to what is stored, and to the counter what is stored then. -/
def recount : List Stmt :=
  tickAfter (.op (.effect .modify) [.literal (.text "n"),
    .lambda ["v"] (.op (.data .add) [.var "v", .literal (.int 1)])])

/-- The recipe that calls a program. -/
def recountRecipe : Recipe :=
  .make (.program 1 ∅ [] (.resumable recount) [] []) .done

theorem data_tick {F : Counterparts s} {w u : World} {v v' : Value}
    (h : (Sameness.data F).same w v u v') :
    (Sameness.data F).same w (.effect (.of (.tick v))) u (.effect (.of (.tick v'))) :=
  Value.Alike.effect_iff.mpr ⟨⟨rfl, .cons ⟨rfl, h⟩ .nil⟩, .nil⟩

theorem recount_determinate (s : Settings) (b : World) :
    Determinate (Sameness.data (adders s)).toLikeness b recount [] := by
  refine tickAfter_determinate (fun {w u} _ _ _ _ => .value ?_) data_tick
  show (Value.effect (.of (.modify (.text "n") (.function (addOne w.fresh []))))).Alike _
    (.effect (.of (.modify (.text "n") (.function (addOne u.fresh [])))))
  refine Value.Alike.effect_iff.mpr ⟨⟨rfl, ?_⟩, .cons (.refl _) .nil⟩
  exact .cons ⟨rfl, .text "n"⟩ (.cons ⟨rfl, .function ⟨_, _, _, _, rfl, rfl⟩⟩ .nil)

theorem recountRecipe_steady (s : Settings) (b : World) :
    recountRecipe.Steady (Sameness.data (adders s)) b := by
  intro w u hw hu
  refine .make (.program rfl ?_) fun _ _ _ _ _ _ hc => .done hc
  rintro env₁ env₁' henv henv'
  cases henv
  cases henv'
  exact .resumable (Sameness.alongside_of_determinate (recount_determinate s b) hw hu)

/-- The nodes of the reference of the routine: in which it modifies the store, and in which it asks
for a tick. -/
def modifyNode (id : Nat) : Node :=
  ⟨recount, [], (Effect.of (.modify (.text "n") (.function (addOne id [])))).map .lift, []⟩

@[inherit_doc modifyNode]
def tickNode (amount : Value) : Node :=
  ⟨recount, [], (Effect.of (.tick amount)).map .lift, [amount]⟩

theorem translate_recount (s : Settings) (w : World) :
    translate s recount [] [] w
      = .value (.pending (modifyNode w.fresh)) { w with fresh := w.fresh + 1 } :=
  translate_effect rfl

theorem modifyNode_resume (s : Settings) (id : Nat) (a : Value) (w : World) :
    (modifyNode id).resume s a w
      = .value (.pending (tickNode a)) { w with fresh := w.fresh + 1 } := by
  rw [Node.resume, modifyNode, Effect.resume_map, Effect.resume_of]
  show translate s recount [] [a] w = _
  exact translate_effect rfl

theorem tickNode_resume (s : Settings) (amount a : Value) (w : World) :
    (tickNode amount).resume s a w = .value (.finished a) { w with fresh := w.fresh + 1 } := by
  rw [Node.resume, tickNode, Effect.resume_map, Effect.resume_of]
  show translate s recount [] [a, amount] w = _
  exact translate_returned rfl

section

variable {b : World} {body : List Stmt} {env : Env} {id : Nat} {w u : World} {e : Effect}
  {r : CapabilitySet}

theorem request_of_modifyNode {k : Nat}
    (h : Agrees (Sameness.data (adders s)).toLikeness b body env id w (.suspended e r) u
      (.pending (modifyNode k))) :
    ∃ j env', e.request = .modify (.text "n") (.function (addOne j env')) := by
  obtain ⟨-, -, f, k, rfl, hwaits, -⟩ := h
  have hmatches := hwaits.relates.matches
  show ∃ j env', f.request = _
  generalize f.request = q at hmatches
  cases hmatches with
  | modify hkey hfunction =>
    cases hkey
    cases hfunction with
    | function h =>
      obtain ⟨j, _, env', _, rfl, -⟩ := h
      exact ⟨j, env', rfl⟩

theorem request_of_tickNode {n : Int}
    (h : Agrees (Sameness.data (adders s)).toLikeness b body env id w (.suspended e r) u
      (.pending (tickNode (.int n)))) : e.request = .tick (.int n) := by
  obtain ⟨-, -, f, k, rfl, hwaits, -⟩ := h
  have hmatches := hwaits.relates.matches
  show f.request = _
  generalize f.request = q at hmatches
  cases hmatches with
  | tick h =>
    cases h
    rfl

end

/-- A store and a counter. -/
def tally : Handler := .pair 2 (.store 0 [(.text "n", .int 0)]) (.counter 1)

/-- The states of the store and the counter. -/
def tallied (n t : Int) : Value := .tuple [.frozen [(.text "n", .int n)], .int t]

theorem tally_pure (F : Counterparts s) (b : World) : tally.Pure (Sameness.data F) b := by
  refine .pair 2 (.store 0 _ fun w u _ _ => ?_) (.counter 1)
  exact .cons ⟨.refl _, .text "n", .int 0⟩ .nil

theorem offer_modify (s : Settings) (j : Nat) (env : Env) (w : World) :
    tally.offer (Callable.meaning s) (tallied 0 0)
        (.of (.modify (.text "n") (.function (addOne j env)))) w
      = .value (.handled (tallied 1 0) (.int 1)) w := by
  have hstep : Handler.storeStep (Callable.meaning s) (.frozen [(.text "n", .int 0)])
        (.of (.modify (.text "n") (.function (addOne j env)))) w
      = .value (.frozen [(.text "n", .int 1)], .int 1) w := by
    refine (Action.bind_of_value (congrFun (meaning_addOne s j env (.int 0)) w)).trans ?_
    show (Effect.resume (Callable.meaning s) (.of _) (.int 1) >>= _) w = _
    rw [Effect.resume_of]
    rfl
  have hstore : (Handler.store 0 [(.text "n", .int 0)]).offer (Callable.meaning s)
        (.frozen [(.text "n", .int 0)]) (.of (.modify (.text "n") (.function (addOne j env)))) w
      = .value (.handled (.frozen [(.text "n", .int 1)]) (.int 1)) w := Action.bind_of_value hstep
  exact Action.bind_of_value hstore

theorem offer_tick (s : Settings) (w : World) :
    tally.offer (Callable.meaning s) (tallied 1 0) (.of (.tick (.int 1))) w
      = .value (.handled (tallied 1 1) (.int 1)) w := by
  have hstep : Handler.counterStep (Callable.meaning s) (.int 0) (.of (.tick (.int 1))) w
      = .value (.int 1, .int 1) w := by
    show (Effect.resume (Callable.meaning s) (.of (.tick (.int 1))) (.int 1) >>= _) w = _
    rw [Effect.resume_of]
    rfl
  have hcounter : (Handler.counter 1).offer (Callable.meaning s) (.int 0) (.of (.tick (.int 1))) w
      = .value (.handled (.int 1) (.int 1)) w := Action.bind_of_value hstep
  exact Action.bind_of_value hcounter

/-- The recipe builds a chain that waits where the reference does. -/
theorem recountRecipe_build (s : Settings) :
    ∃ (e : Effect) (r : CapabilitySet) (w : Known s),
      recountRecipe.build (Callable.meaning s) (.initial "") = .value (.suspended e r) w.world ∧
      w.births 0 = .initial "" ∧
      Agrees (Sameness.data (adders s)).toLikeness (.initial "") recount [] 0 w (.suspended e r)
        { World.initial "" with fresh := 1 } (.pending (modifyNode 0)) := by
  have henv : Env.setAll? [] [] [] = some [] := rfl
  obtain ⟨e, r, w, hcall, hbirth, hagrees⟩ := begun_of_reference 1 (kept_initial s "") henv
    (recount_determinate s (.initial "")) (translate_recount s (.initial ""))
  refine ⟨e, r, w, ?_, hbirth, hagrees⟩
  rw [recountRecipe, Recipe.build, Making.make, bind_assoc]
  exact Action.bind_of_value hcall

/-- The chain that the recipe builds is answered where the reference is. -/
theorem recountRecipe_answered (s : Settings) (n : Int) :
    ∃ (e : Effect) (r : CapabilitySet) (c : Chain) (w w' : World),
      recountRecipe.build (Callable.meaning s) (.initial "") = .value (.suspended e r) w ∧
      e.resume (Callable.meaning s) (.int n) w = .value (.chain c) w' := by
  obtain ⟨e, r, w, hbuild, hbirth, hagrees⟩ := recountRecipe_build s
  obtain ⟨hkept, hgrows, -⟩ := (keeps_translate s recount [] []).of_value (kept_initial s "")
    (translate_recount s _)
  obtain ⟨c, w', hresume, -, -, -⟩ := answered_of_reference (recount_determinate s _) hbirth hkept
    hgrows hagrees (a := .int n) (.int n) (modifyNode_resume _ _ _ _)
  exact ⟨e, r, c, _, _, hbuild, hresume⟩

/-- A program is called, and its chain driven twice against a store and a counter.  First both
drives make a step; then the first one goes on, though the live routine of the program stands where
the other one has left it. -/
theorem drives_do_not_interfere_recount : ∃ (c : Chain) (w₀ z : World) (ts : List Track),
    recountRecipe.build (Callable.meaning ⟨false, 10⟩) (.initial "") = .value c w₀ ∧
    Family ⟨false, 10⟩ c w₀ z ts ∧ (ts.map fun t => t.past.length) = [2, 1] ∧
    ∀ t ∈ ts, ∃ course past z',
      lone ⟨false, 10⟩ recountRecipe t.handler t.past.length (.initial "")
        = .value (course, past) z' ∧
      Course.Alike (Sameness.data (adders ⟨false, 10⟩)) t.handler z z'
        ((Sameness.data (adders ⟨false, 10⟩)).Seems z z') t.course course ∧
      List.Forall₂ (Course.Alike (Sameness.data (adders ⟨false, 10⟩)) t.handler z z'
        ((Sameness.data (adders ⟨false, 10⟩)).Seems z z')) t.past past := by
  have hkept : Kept ⟨false, 10⟩ (World.initial "") := kept_initial _ ""
  have hgrows := World.Grows.refl (World.initial "")
  have hd := recount_determinate ⟨false, 10⟩ (World.initial "")
  obtain ⟨e, r, w, hbuild, hbirth, hagrees⟩ := recountRecipe_build ⟨false, 10⟩
  obtain ⟨j, env', hmodify⟩ := request_of_modifyNode hagrees
  -- The reference is answered with 1 and then with 1 again.
  obtain ⟨hkept₁, hgrows₁, -⟩ := (keeps_translate _ recount [] []).of_value hkept
    (translate_recount _ _)
  obtain ⟨hkept₂, hgrows₂, -⟩ := (Node.keeps_resume _ (modifyNode 0) (.int 1)).of_value hkept₁
    (modifyNode_resume _ _ _ _)
  -- The chain is answered with 1 in both drives, and then once more in the first of them.
  obtain ⟨c₁, w₁, hfirst, hw₁, hbirth₁, hagrees₁⟩ := answered_of_reference hd hbirth hkept₁ hgrows₁
    hagrees (a := .int 1) (.int 1) (modifyNode_resume _ _ _ _)
  obtain ⟨c₂, w₂, hsecond, hw₂, hbirth₂, -⟩ := answered_of_reference hd hbirth₁ hkept₁ hgrows₁
    (hagrees.grow hw₁.grows (.refl _)) (a := .int 1) (.int 1) (modifyNode_resume _ _ _ _)
  match c₁, hagrees₁ with
  | .suspended e₁ r₁, hagrees₁ =>
  have htick := request_of_tickNode hagrees₁
  obtain ⟨c₃, w₃, hthird, -, -, -⟩ := answered_of_reference hd hbirth₂ hkept₂
    (hgrows₁.trans hgrows₂) (hagrees₁.grow hw₂.grows (.refl _)) (a := .int 1) (.int 1)
    (tickNode_resume _ _ _ _)
  have hpure := tally_pure (adders ⟨false, 10⟩) (World.initial "")
  have htail := hpure.tailResumptive (Callable.meaning ⟨false, 10⟩)
  have hbegun : Family ⟨false, 10⟩ (.suspended e r) w w
      ([] ++ ⟨tally, .going (tallied 0 0) (.chain (.suspended e r)), []⟩ ::
        [⟨tally, .going (tallied 0 0) (.chain (.suspended e r)), []⟩]) :=
    .start (.start .none tally rfl) tally rfl
  have hone := hbegun.step (Course.step_of_offer htail (hmodify ▸ offer_modify _ j env' _) hfirst)
  have htwo : Family ⟨false, 10⟩ (.suspended e r) w w₂ ([_] ++ _ :: []) :=
    .step hone (Course.step_of_offer htail (hmodify ▸ offer_modify _ j env' _) hsecond)
  have hthree : Family ⟨false, 10⟩ (.suspended e r) w w₃ ([] ++ _ :: [_]) :=
    .step htwo (Course.step_of_offer htail (htick ▸ offer_tick _ _) hthird)
  refine ⟨_, _, _, _, hbuild, hthree, rfl, fun t ht => ?_⟩
  refine (drives_do_not_interfere (recountRecipe_steady _ _) hkept hgrows hbuild hthree hkept
    hgrows).1 t ht ?_
  rcases List.mem_cons.mp ht with rfl | ht
  · exact hpure
  · cases List.mem_singleton.mp ht
    exact hpure

end EffectHandlers
