/-
EffectHandlers/Proofs/Heeding.lean

Failures that are heeded.

In the course of a computation functions are called and expressions are
evaluated.  To see what becomes of a failure, put another outcome in the
place of one of these, in one world (`Probe.instead`).  If this makes a
difference, the computation has asked for it there.

A computation that heeds what it asks for ends as soon as that fails.  It
is so with everything that is built from actions in sequence, so it is a
discipline (`heeding`): another outcome makes no difference, or the
computation ends in given ways.

Main results: a call that fails is passed on unchanged by resuming an effect
(`Effect.resume_heeds`) and by a run (`run_heeds`), whoever makes it: a
stage, a binder or a method of the handler.
-/
import EffectHandlers.Proofs.Discipline.Calls

namespace EffectHandlers

variable {α β : Type}

/-! ### Ends of a computation -/

/-- Ways in which a computation may end without a value. -/
structure Ends where
  failed : Failure → World → Prop
  exhausted : Prop

/-- An outcome is one of the given ends. -/
def Outcome.EndsIn (E : Ends) : Outcome α → Prop
  | .value _ _ => False
  | .failed f w => E.failed f w
  | .exhausted => E.exhausted

/-- The end with one failure in one world. -/
def Ends.only (f : Failure) (w : World) : Ends := ⟨fun f' w' => f' = f ∧ w' = w, False⟩

theorem Outcome.endsIn_only {o : Outcome α} {f : Failure} {w : World} :
    o.EndsIn (.only f w) ↔ o = .failed f w := by
  cases o <;> simp [EndsIn, Ends.only]

/-! ### Probes -/

/-- Something that a computation may ask for. -/
inductive Query
  | call (f : Callable) (args : List Value)
  | eval (env : Env) (e : Expr)

/-- A place to put another outcome: what is asked for, and in which world. -/
structure Probe where
  query : Query
  world : World

open Classical in
/-- An action that answers a query, with another outcome in the place of a probe, or with none. -/
noncomputable def Probe.instead (p : Probe) (o : Option (Outcome Value)) (q : Query)
    (x : Action Value) : Action Value :=
  match o with
  | none => x
  | some o => fun w => if q = p.query ∧ w = p.world then o else x w

/-- A call model with another outcome in the place of a probe. -/
noncomputable def Probe.calls (p : Probe) (o : Option (Outcome Value)) (call : Call) : Call :=
  fun f args => p.instead o (.call f args) (call f args)

/-- What makes calls asks for what is probed: another outcome there makes a difference. -/
def Probe.AskedBy (p : Probe) (call : Call) (x : Call → Action α) (w : World) : Prop :=
  ∃ o, x (p.calls (some o) call) w ≠ x call w

/-! ### The discipline -/

/-- Another outcome makes no difference, or the computation ends in given ways. -/
def Heeds (E : Ends) (P : α → Prop) (x : Option (Outcome Value) → Action α) : Prop :=
  ∀ w, ((∀ o, x (some o) w = x none w) ∨ (x none w).EndsIn E) ∧
    ∀ a u, x none w = .value a u → P a

namespace Heeds

variable {E : Ends} {P : α → Prop}

theorem const {x : Action α} (h : ∀ w a u, x w = .value a u → P a) : Heeds E P fun _ => x :=
  fun w => ⟨.inl fun _ => rfl, h w⟩

theorem bind {Q : β → Prop} {x : Option (Outcome Value) → Action α}
    {f : Option (Outcome Value) → α → Action β} (hx : Heeds E P x)
    (hf : ∀ a, P a → Heeds E Q fun o => f o a) : Heeds E Q fun o => x o >>= f o := by
  intro w
  obtain ⟨hsame, hpost⟩ := hx w
  constructor
  · simp only [Action.bind_apply]
    cases hnone : x none w with
    | value a u =>
      rw [hnone] at hsame
      rcases hsame with hsame | hend
      · -- The first part is the same, so it depends on the second one.
        refine (hf a (hpost a u hnone) u).1.imp (fun h o => ?_) id
        rw [hsame o]
        exact h o
      · exact hend.elim
    | failed | exhausted =>
      rw [hnone] at hsame
      refine hsame.imp (fun h o => ?_) id
      rw [h o]
  · intro b v hb
    obtain ⟨a, u, ha, hb⟩ := Action.bind_eq_value.mp hb
    exact (hf a (hpost a u ha) u).2 b v hb

/-- What is asked for at a probe has to end in one of the given ways. -/
theorem instead {P : Value → Prop} {x : Option (Outcome Value) → Action Value} (hx : Heeds E P x)
    (p : Probe) (q : Query) (hends : q = p.query → (x none p.world).EndsIn E) :
    Heeds E P fun o => p.instead o q (x o) := by
  intro w
  obtain ⟨hsame, hpost⟩ := hx w
  refine ⟨?_, hpost⟩
  -- At the probe anything may come instead; elsewhere the two are the same.
  by_cases hat : q = p.query ∧ w = p.world
  · exact .inr (hat.2 ▸ hends hat.1)
  · exact hsame.imp (fun h o => (if_neg hat).trans (h o)) id

end Heeds

/-- To heed what is asked for is a discipline. -/
def heeding (E : Ends) : Discipline (Option (Outcome Value)) .free where
  holds := Heeds E
  ret ha := .const fun _ _ _ h => (Action.pure_eq_value.mp h).1 ▸ ha
  fail P f := .const fun _ _ _ h => by cases h
  exhaust P := .const fun _ _ _ h => by cases h
  bind := .bind
  fresh := .const fun _ _ _ _ => trivial
  emit _ := .const fun _ _ _ _ => trivial
  showValue _ := .const fun _ _ _ _ => trivial
  newCell _ := .const fun _ _ _ _ => Value.obeys_free _
  readCell _ := .const fun _ _ _ _ => Value.obeys_free _
  writeCell _ _ _ := .const fun _ _ _ _ => trivial
  newSource _ := .const fun _ _ _ _ => trivial
  readLine _ := .const fun _ _ _ _ => trivial
  newJournal := .const fun _ _ _ _ => trivial
  journalEntries _ := .const fun _ _ _ _ _ _ => Value.obeys_free _
  record _ _ _ _ := .const fun _ _ _ _ => trivial

/-! ### Calls that are passed on -/

section

variable {call : Call} {f : Callable} {args : List Value} {u z : World} {failure : Failure}

theorem heeding_calls {p : Probe} {E : Ends}
    (hends : ∀ f args, .call f args = p.query → (call f args p.world).EndsIn E) :
    (heeding E).Calls fun o => p.calls o call := fun f args _ _ =>
  .instead (.const fun _ v _ _ => v.obeys_free) p (.call f args) (hends f args)

theorem heeding_calls_only (hfails : call f args u = .failed failure z) :
    (heeding (.only failure z)).Calls fun o => Probe.calls ⟨.call f args, u⟩ o call := by
  refine heeding_calls fun g bs hat => ?_
  cases hat
  exact Outcome.endsIn_only.mpr hfails

/-- A computation that asks for a call fails as the call does. -/
theorem Heeds.eq_failed {P : α → Prop} {x : Option (Outcome Value) → Action α} {w : World}
    (hx : Heeds (.only failure z) P x) (hasks : ∃ o, x (some o) w ≠ x none w) :
    x none w = .failed failure z := by
  obtain ⟨o, ho⟩ := hasks
  exact (hx w).1.elim (fun hsame => absurd (hsame o) ho) Outcome.endsIn_only.mp

/-- **Resuming an effect passes failures on**: if a call that it makes fails, it fails in the same
way and in the same world. -/
theorem Effect.resume_heeds (hfails : call f args u = .failed failure z) (e : Effect)
    (answer : Value) {w : World}
    (hasks : Probe.AskedBy ⟨.call f args, u⟩ call (e.resume · answer) w) :
    e.resume call answer w = .failed failure z := by
  have hheeds : Heeds (.only failure z) (Value.Obeys .free) fun o =>
      e.resume (Probe.calls ⟨.call f args, u⟩ o call) answer :=
    Discipline.resume (heeding_calls_only hfails) e.obeys_free answer.obeys_free
  exact hheeds.eq_failed hasks

/-- **A run passes failures on**: if a call that it makes fails, it fails in the same way and in
the same world. -/
theorem run_heeds (hfails : call f args u = .failed failure z) (s : Settings) (c : Chain)
    (h : Handler) {w : World}
    (hasks : Probe.AskedBy ⟨.call f args, u⟩ call (run s · c h) w) :
    run s call c h w = .failed failure z := by
  have hheeds : Heeds (.only failure z) (Value.Obeys .free) fun o =>
      run s (Probe.calls ⟨.call f args, u⟩ o call) c h :=
    Discipline.run s (heeding_calls_only hfails) c.obeys_free h.obeys_free
  exact hheeds.eq_failed hasks

end

end EffectHandlers
