/-
EffectHandlers/Proofs/Abiding.lean

Computations that keep to a regime.

A regime that excludes no call restricts what values and code contain.  If
everything in a world keeps to it, and everything that a computation is
given, then so does what the computation comes to and all that it leaves in
the world.  This is also true of the world in which a computation fails,
because what happened before the failure has happened.

For a value this is one half of a frame without a call that is left out; the
worlds of failures are what is added here.

Main results: the statement is a discipline (`abiding`), so it holds of
everything that the interpreter does (`abiding_meaning`).
-/
import EffectHandlers.Proofs.Frame
import EffectHandlers.Proofs.Keeping

namespace EffectHandlers

variable {R : Regime} {w w' : World}

/-! ### Failures -/

/-- If an action fails, everything in the world that is left keeps to the regime. -/
def FailsWithin {α : Type} (R : Regime) (x : Action α) : Prop :=
  ∀ w, w.Obeys R → ∀ f w', x w = .failed f w' → w'.Obeys R

namespace FailsWithin

/-- An action that fails only where it is begun. -/
theorem of_still {α : Type} {x : Action α} (h : ∀ w f w', x w = .failed f w' → w' = w) :
    FailsWithin R x := fun w hw f w' hf => h w f w' hf ▸ hw

theorem exchange {α : Type} (f : World → α × World) : FailsWithin R (Action.exchange f) :=
  of_still fun _ _ _ h => nomatch h

theorem ask {α : Type} (f : World → α) : FailsWithin R (Action.ask f) :=
  of_still fun _ _ _ h => nomatch h

theorem change (f : World → World) : FailsWithin R (Action.change f) :=
  of_still fun _ _ _ h => nomatch h

theorem pure {α : Type} (a : α) : FailsWithin R (pure a) :=
  of_still fun _ _ _ h => nomatch h

theorem exhaust {α : Type} : FailsWithin R (Action.exhaust : Action α) :=
  of_still fun _ _ _ h => nomatch h

theorem require {α : Type} (f : Failure) (x : Option α) :
    FailsWithin R (Action.require f x) := by
  refine of_still fun w g w' hg => ?_
  cases x with
  | none =>
    cases hg
    rfl
  | some a => cases hg

theorem bind {α β : Type} {P : α → Prop} {x : Action α} {f : α → Action β}
    (hP : Framed R none P x) (hx : FailsWithin R x) (hf : ∀ a, P a → FailsWithin R (f a)) :
    FailsWithin R (x >>= f) := by
  intro w hw e w' he
  rcases Action.bind_eq_failed.mp he with he | ⟨a, w₁, ha, he⟩
  · exact hx w hw e w' he
  · obtain ⟨hPa, hw₁⟩ := (hP w hw.clean).2 a w₁ ha
    exact hf a hPa w₁ hw₁.obeys e w' he

/-- What follows a look at the record of a call. -/
theorem recordOf {β : Type} (id : Nat) {f : Invocation → Action β}
    (hf : ∀ i, i.Obeys R → FailsWithin R (f i)) : FailsWithin R (Invocation.recordOf id >>= f) := by
  refine bind (Framed.recordOf nofun) ?_ hf
  refine bind (P := fun _ => True) (Framed.askCall (g := fun o => o) nofun fun _ _ => trivial) ?_
    fun o _ => require _ o
  exact ask _

theorem execute (id gen : Nat) {part : Action Exit} (hpart : FailsWithin R part) :
    FailsWithin R (Coroutine.execute id gen part) := by
  have obeys_at {w : World} (hw : w.Obeys R) {p : Position} (hp : p.Obeys R) :
      (w.setPosition id gen p).Obeys R :=
    (hw.clean.changeCall fun i hi => hi.setPosition gen hp).obeys
  intro w hw f w' hf
  have hrunning : (w.setPosition id gen .running).Obeys R := obeys_at hw trivial
  rw [Coroutine.execute_apply] at hf
  cases hp : part (w.setPosition id gen .running) with
  | value exit w₁ =>
    rw [hp] at hf
    cases hf
  | failed g w₁ =>
    rw [hp] at hf
    cases hf
    exact obeys_at (hpart _ hrunning g w₁ hp) trivial
  | exhausted =>
    rw [hp] at hf
    cases hf

end FailsWithin

/-! ### The discipline -/

/-- In worlds that keep to a regime, what an action gives satisfies `P`, and the world in which it
ends keeps to the regime, also if it fails. -/
structure Abiding {α : Type} (R : Regime) (P : α → Prop) (x : Action α) : Prop where
  framed : Framed R none P x
  fails : FailsWithin R x

namespace Abiding

variable {α : Type} {P : α → Prop} {x : Action α}

theorem of_value (hx : Abiding R P x) (hw : w.Obeys R) {a : α} (h : x w = .value a w') :
    P a ∧ w'.Obeys R := by
  obtain ⟨ha, hw'⟩ := (hx.framed w hw.clean).2 a w' h
  exact ⟨ha, hw'.obeys⟩

/-- However an action ends, the world keeps to the regime. -/
theorem of_world (hx : Abiding R P x) (hw : w.Obeys R) (h : (x w).world? = some w') :
    w'.Obeys R := by
  cases hxw : x w with
  | value a w₁ =>
    rw [hxw] at h
    cases h
    exact (hx.of_value hw hxw).2
  | failed f w₁ =>
    rw [hxw] at h
    cases h
    exact hx.fails w hw f w' hxw
  | exhausted =>
    rw [hxw] at h
    cases h

theorem bind {β : Type} {Q : β → Prop} {f : α → Action β} (hx : Abiding R P x)
    (hf : ∀ a, P a → Abiding R Q (f a)) : Abiding R Q (x >>= f) where
  framed := hx.framed.bind fun a ha => (hf a ha).framed
  fails := .bind hx.framed hx.fails fun a ha => (hf a ha).fails

end Abiding

/-- The discipline of keeping to a regime that excludes no call. -/
def abiding (R : Regime) (hcall : ∀ k, R.call k) : CallDiscipline Unit R :=
  let F := frame R none (Regime.call_iff hcall)
  { holds P x := Abiding R P (x ())
    ret ha := ⟨F.ret ha, .pure _⟩
    fail P f := ⟨F.fail P f, .of_still fun _ _ _ h => by cases h; rfl⟩
    exhaust P := ⟨F.exhaust P, .exhaust⟩
    bind := Abiding.bind
    fresh := ⟨F.fresh, .exchange _⟩
    emit e := ⟨F.emit e, .change _⟩
    showValue hv := ⟨F.showValue hv, .change _⟩
    newCell hv := ⟨F.newCell hv, .exchange _⟩
    readCell a := ⟨F.readCell a, .ask _⟩
    writeCell a _ hv := ⟨F.writeCell a hv, .change _⟩
    newSource s := ⟨F.newSource s, .exchange _⟩
    readLine source := ⟨F.readLine source, .exchange _⟩
    newJournal := ⟨F.newJournal, .exchange _⟩
    journalEntries journal := ⟨F.journalEntries journal, .ask _⟩
    record journal name _ hv := ⟨F.record journal name hv, .change _⟩
    create hbody henv := ⟨F.create hbody henv, .exchange _⟩
    spawn hk := ⟨F.spawn hk, .recordOf _ fun _ _ => .exchange _⟩
    liveOf hk := ⟨F.liveOf hk, .ask _⟩
    setLive hk l := ⟨F.setLive hk l, .change _⟩
    answersOf hk h := ⟨F.answersOf hk h, .recordOf _ fun i _ => .require _ i.histories[h]?⟩
    extendHistory hk h _ ha := ⟨F.extendHistory hk h ha, .recordOf _ fun i hi =>
      .bind (.require _ fun vs hvs => hi.answers h vs hvs) (.require _ _) fun _ _ =>
        .exchange _⟩
    standing hk gen := ⟨F.standing hk gen, .ask _⟩
    receive hk gen _ ha := ⟨F.receive hk gen ha, .change _⟩
    execute hk gen _ hpart :=
      ⟨F.execute hk gen hpart.framed, .execute _ gen hpart.fails⟩ }

/-- Calls of any depth keep to a regime that excludes no call. -/
theorem abiding_meaning (hcall : ∀ k, R.call k) (s : Settings) :
    (abiding R hcall).Calls fun _ => Callable.meaning s := by
  intro f args hf hargs
  refine ⟨frame_meaning (Regime.call_iff hcall) s f args hf hargs, fun w hw e w' he => ?_⟩
  obtain ⟨depth, hdepth⟩ := Callable.apply_of_meaning s f args w
  have hcalls := CallDiscipline.calls (abiding R hcall) (Callable.runsAlike_const R s)
    (fun _ => rfl) depth f args hf hargs
  exact hcalls.fails w hw e w' (hdepth.trans he)

end EffectHandlers
