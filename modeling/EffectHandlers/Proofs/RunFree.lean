/-
EffectHandlers/Proofs/RunFree.lean

Settings matter to runs only.

The interpreter reads whether steps are to be recorded in one place, the
loop of a run.  So what does not call `run` does the same under settings
that differ in this and have the same bound.

The statement is about a family of actions, one for each of the settings:
all of them come to the same from a world that keeps to a regime, and they
leave a world that keeps to it (`Indifferent`).  The second half carries the
first one through sequences, because a function that is called may have
been kept in a cell before.

Main result: calls do not depend on whether steps are recorded, under a
regime that excludes runs (`indifferent_meaning`).
-/
import EffectHandlers.Proofs.Abiding

namespace EffectHandlers

/-- The regime that excludes runs, and nothing else. -/
def Regime.runFree : Regime :=
  { free with
    op := fun o => o ≠ .handler .runChain
    suspended := fun _ _ _ => trivial }

theorem Regime.runFree_call (k : Nat) : runFree.call k := trivial

variable {ι α β : Type} {R : Regime}

/-! ### Families that come to the same -/

/-- The actions of a family come to the same from every world that keeps to a regime, and keep to
it. -/
structure Indifferent (R : Regime) (P : α → Prop) (x : ι → Action α) : Prop where
  abides (i : ι) : Abiding R P (x i)
  same (i j : ι) (w : World) (hw : w.Obeys R) : x i w = x j w

namespace Indifferent

variable {P : α → Prop} {x : ι → Action α}

theorem const {x : Action α} (hx : Abiding R P x) : Indifferent R P fun _ : ι => x where
  abides _ := hx
  same _ _ _ _ := rfl

theorem bind {Q : β → Prop} {f : ι → α → Action β} (hx : Indifferent R P x)
    (hf : ∀ a, P a → Indifferent R Q fun i => f i a) :
    Indifferent R Q fun i => x i >>= f i where
  abides i := (hx.abides i).bind fun a ha => (hf a ha).abides i
  same i j w hw := by
    show (x i >>= f i) w = (x j >>= f j) w
    rw [Action.bind_congr_apply (hx.same i j w hw)]
    refine Action.bind_congr_of_value fun a w' ha => ?_
    obtain ⟨hP, hw'⟩ := (hx.abides j).of_value hw ha
    exact (hf a hP).same i j w' hw'

/-- A part of a coroutine is executed in a world that keeps to the regime, as the one before it
does. -/
theorem execute (id gen : Nat) {part : ι → Action Exit}
    (hpart : Indifferent R (Exit.Obeys R) part) :
    Indifferent R (Advance.Obeys R) fun i => Coroutine.execute id gen (part i) where
  abides i := by
    have hother : some id ≠ none := nofun
    exact ⟨.execute hother gen (hpart.abides i).framed, .execute id gen (hpart.abides i).fails⟩
  same i j w hw := by
    have hrunning : (w.setPosition id gen .running).Obeys R :=
      (hw.clean.changeCall fun i hi => hi.setPosition gen (p := .running) trivial).obeys
    simp only [Coroutine.execute_apply, hpart.same i j _ hrunning]

end Indifferent

/-- The discipline of coming to the same, for a regime that excludes no call. -/
def indifferent (ι : Type) (R : Regime) (hcall : ∀ k, R.call k) : CallDiscipline ι R :=
  let A := abiding R hcall
  { holds P x := Indifferent R P x
    ret ha := .const (A.ret ha)
    fail P f := .const (A.fail P f)
    exhaust P := .const (A.exhaust P)
    bind := Indifferent.bind
    fresh := .const A.fresh
    emit e := .const (A.emit e)
    showValue hv := .const (A.showValue hv)
    newCell hv := .const (A.newCell hv)
    readCell a := .const (A.readCell a)
    writeCell a _ hv := .const (A.writeCell a hv)
    newSource s := .const (A.newSource s)
    readLine source := .const (A.readLine source)
    newJournal := .const A.newJournal
    journalEntries journal := .const (A.journalEntries journal)
    record journal name _ hv := .const (A.record journal name hv)
    create hbody henv := .const (A.create hbody henv)
    spawn hk := .const (A.spawn hk)
    liveOf hk := .const (A.liveOf hk)
    setLive hk l := .const (A.setLive hk l)
    answersOf hk h := .const (A.answersOf hk h)
    extendHistory hk h _ ha := .const (A.extendHistory hk h ha)
    standing hk gen := .const (A.standing hk gen)
    receive hk gen _ ha := .const (A.receive hk gen ha)
    execute _ gen _ hpart := .execute _ gen hpart }

/-- Calls come to the same under settings with one bound, if there are no runs in what is called,
in its arguments and in the world. -/
theorem indifferent_meaning (hcall : ∀ k, R.call k) (hrun : ¬ R.op (.handler .runChain))
    {s : ι → Settings} {n : Nat} (hn : ∀ i, (s i).maxSteps = n) :
    (indifferent ι R hcall).Calls fun i => Callable.meaning (s i) := by
  intro f args hf hargs
  refine ⟨fun i => abiding_meaning hcall (s i) f args hf hargs, fun i j w hw => ?_⟩
  have hcalls := CallDiscipline.calls (indifferent ι R hcall) (fun h => absurd h hrun) hn
  obtain ⟨k, hk⟩ := Callable.apply_eventually (s i) f args w
  obtain ⟨l, hl⟩ := Callable.apply_eventually (s j) f args w
  -- At a depth that is sufficient for both.
  calc Callable.meaning (s i) f args w
      = Callable.apply (s i) (max k l) f args w := (hk _ (Nat.le_max_left k l)).symm
    _ = Callable.apply (s j) (max k l) f args w :=
        (hcalls (max k l) f args hf hargs).same i j w hw
    _ = Callable.meaning (s j) f args w := hl _ (Nat.le_max_right k l)

end EffectHandlers
