/-
EffectHandlers/Proofs/Discipline.lean

One walk through the interpreter for every property of it.

Many facts about the interpreter are proved in the same way: they hold of
its primitive actions and go through sequences, so they hold of every
operation of the library and of every program.  A discipline is what such a
fact has to provide.  `holds P x` says that the action `x` respects the
discipline and that what it gives satisfies `P`; the rules say that the
primitives respect it, and sequences of actions that do.

A discipline speaks of a family of actions, so that it may also compare
actions with each other: the family is a single action for an invariant, two
actions for a comparison, a sequence for a limit.

Values are restricted by a regime: a discipline need not know what happens
to values that do not obey it.  How functions are called is left open; that
calls respect the discipline is a hypothesis of the walk
(`Discipline.Calls`), to be tied by induction on the depth of calls.

This module has the rules, and the walk through chains and pipelines.
-/
import EffectHandlers.Proofs.Regime
import EffectHandlers.Script.Library

namespace EffectHandlers

/-- What a property of actions has to provide to hold of the interpreter, for values that obey
a regime. -/
structure Discipline (ι : Type) (R : Regime) where
  /-- The actions respect the discipline and what they give satisfies `P`. -/
  holds {α : Type} (P : α → Prop) (x : ι → Action α) : Prop
  /- Sequences. -/
  ret {α : Type} {P : α → Prop} {a : α} (ha : P a) : holds P fun _ => pure a
  fail {α : Type} (P : α → Prop) (f : Failure) : holds P fun _ => Action.fail f
  exhaust {α : Type} (P : α → Prop) : holds P fun _ => Action.exhaust
  bind {α β : Type} {P : α → Prop} {Q : β → Prop} {x : ι → Action α} {f : ι → α → Action β}
    (hx : holds P x) (hf : ∀ a, P a → holds Q fun i => f i a) : holds Q fun i => x i >>= f i
  /- Identities, events and cells. -/
  fresh : holds (fun _ => True) fun _ => Action.fresh
  emit (e : Event) : holds (fun _ => True) fun _ => Action.emit e
  showValue {v : Value} (hv : v.Obeys R) : holds (fun _ => True) fun _ => showValue v
  newCell {v : Value} (hv : v.Obeys R) : holds (Value.Obeys R) fun _ => newCell v
  readCell (address : Nat) : holds (Value.Obeys R) fun _ => readCell address
  writeCell (address : Nat) {v : Value} (hv : v.Obeys R) :
    holds (fun _ => True) fun _ => writeCell address v
  /- Sources and journals. -/
  newSource (s : String) : holds (fun _ => True) fun _ => newSource s
  readLine (source : Nat) : holds (fun _ => True) fun _ => Handler.readLine source
  newJournal : holds (fun _ => True) fun _ => newJournal
  journalEntries (journal : Nat) :
    holds (fun vs => ∀ v ∈ vs, v.Obeys R) fun _ => journalEntries journal
  record (journal : Nat) (name : String) {v : Value} (hv : v.Obeys R) :
    holds (fun _ => True) fun _ => Handler.record journal name v

namespace Discipline

variable {ι : Type} {R : Regime} (D : Discipline ι R) {call : ι → Call}

/-- Calls of functions respect the discipline. -/
def Calls (call : ι → Call) : Prop :=
  ∀ f args, f.Obeys R → (∀ a ∈ args, a.Obeys R) →
    D.holds (Value.Obeys R) fun i => call i f args

/-! ### Derived rules -/

/-- An action whose value is put to some use. -/
theorem map {α β : Type} {P : α → Prop} {Q : β → Prop} {x : ι → Action α} {g : α → β}
    (hx : D.holds P x) (h : ∀ a, P a → Q (g a)) :
    D.holds Q fun i => x i >>= fun a => pure (g a) :=
  D.bind hx fun a ha => D.ret (h a ha)

theorem ite {α : Type} {P : α → Prop} {c : Prop} [Decidable c] {x y : ι → Action α}
    (hx : D.holds P x) (hy : D.holds P y) : D.holds P fun i => if c then x i else y i := by
  by_cases hc : c
  · simpa only [if_pos hc] using hx
  · simpa only [if_neg hc] using hy

theorem ofExcept {α : Type} {P : α → Prop} {x : Except Failure α} (h : ∀ a, x = .ok a → P a) :
    D.holds P fun _ => Action.ofExcept x := by
  rcases x with f | a
  · exact D.fail P f
  · exact D.ret (h a rfl)

theorem require {α : Type} {P : α → Prop} (f : Failure) {x : Option α}
    (h : ∀ a, x = some a → P a) : D.holds P fun _ => Action.require f x := by
  rcases x with _ | a
  · exact D.fail P f
  · exact D.ret (h a rfl)

theorem text (t : Except TextFault String) :
    D.holds (fun _ => True) fun _ => Action.text t :=
  D.ofExcept fun _ _ => trivial

theorem note (severity : Severity) (text : String) :
    D.holds (fun _ => True) fun _ => Action.note severity text :=
  D.emit (.noted severity text)

variable {D}

theorem callValue (hcall : D.Calls call) {v : Value} (hv : v.Obeys R) {args : List Value}
    (hargs : ∀ a ∈ args, a.Obeys R) :
    D.holds (Value.Obeys R) fun i => (call i).value v args := by
  unfold Call.value
  split
  · exact hcall _ args hv hargs
  · exact D.fail _ _

/-! ### Chains -/

theorem ofValue (role : String) {v : Value} (hv : v.Obeys R) :
    D.holds (Chain.Obeys R) fun _ => Chain.ofValue role v := by
  unfold Chain.ofValue
  split
  · exact D.ret hv
  · exact D.fail _ _

/-- What an action gives, weakened. -/
theorem mono {α : Type} {P Q : α → Prop} {x : ι → Action α} (hx : D.holds P x)
    (h : ∀ a, P a → Q a) : D.holds Q x := by
  simpa only [bind_pure] using D.map hx h

/-- Binders give chains that keep to the regime; those that collect give chains of lists. -/
theorem binderApply (hcall : D.Calls call) {b : Binder} (hb : b.Obeys R) {v : Value}
    (hv : v.Obeys R) :
    D.holds (fun c => c.Obeys R ∧ (b.collects = true → c.Gathering))
      fun i => b.apply (call i) v := by
  have hargs : ∀ a ∈ [v], a.Obeys R := by simpa using hv
  rcases b with f | f | c | c | collected
  · exact D.bind (hcall f [v] hb hargs) fun r hr =>
      mono (ofValue "binder" hr) fun c hc => ⟨hc, nofun⟩
  · exact D.map (hcall f [v] hb hargs) fun r hr => ⟨Chain.obeys_finished hr, nofun⟩
  · exact D.ret ⟨hb, nofun⟩
  · simp only [Binder.apply]
    split
    · exact D.ret ⟨Chain.obeys_gather hb (valuesObey_iff.mp hv), fun _ =>
        Chain.gathering_gather c _⟩
    · exact D.fail _ _
  · refine D.ret ⟨Chain.obeys_finished ?_, fun _ => ⟨_, rfl⟩⟩
    simp_all [or_imp]

/-- Continuing a chain, where a binder that needs a list gets one. -/
theorem chainBind_collects (hcall : D.Calls call) {c : Chain} (hc : c.Obeys R) {b : Binder}
    (hb : b.Obeys R) (hgathers : R.ordered → b.gathers = true → c.Gathering) :
    D.holds (fun d => d.Obeys R ∧ (b.collects = true → d.Gathering))
      fun i => c.bind (call i) b := by
  rcases c with ⟨v, r⟩ | ⟨e, r⟩
  · exact D.map (binderApply hcall hb hc) fun c hc =>
      ⟨Chain.obeys_declare hc.1 r, fun h => Chain.gathering_declare (hc.2 h) r⟩
  · exact D.ret ⟨Chain.obeys_bind hc hb hgathers, fun h =>
      ⟨.bind b, by rw [Effect.pipeline_map, List.getLast?_concat]; rfl, h⟩⟩

/-- Continuing a chain with a binder that needs no list. -/
theorem chainBind (hcall : D.Calls call) {c : Chain} (hc : c.Obeys R) {b : Binder}
    (hb : b.Obeys R) (hgathers : b.gathers = false) :
    D.holds (Chain.Obeys R) fun i => c.bind (call i) b :=
  mono (chainBind_collects hcall hc hb fun _ h => by rw [hgathers] at h; cases h) fun _ hd => hd.1

theorem sequenceAfter (hcall : D.Calls call) {cs : List Chain} (hcs : ∀ c ∈ cs, c.Obeys R)
    {acc : Chain} (hacc : acc.Obeys R ∧ acc.Gathering) :
    D.holds (Chain.Obeys R) fun i => Chain.sequenceAfter (call i) acc cs := by
  induction cs generalizing acc with
  | nil => exact D.ret hacc.1
  | cons c cs ih =>
    have hgather : (Binder.gather c).Obeys R := hcs c List.mem_cons_self
    exact D.bind (chainBind_collects hcall hacc.1 hgather fun _ _ => hacc.2) fun acc hacc =>
      ih (fun c hc => hcs c (List.mem_cons_of_mem _ hc)) ⟨hacc.1, hacc.2 rfl⟩

theorem sequence (hcall : D.Calls call) {cs : List Chain} (hcs : ∀ c ∈ cs, c.Obeys R) :
    D.holds (Chain.Obeys R) fun i => Chain.sequence (call i) cs :=
  sequenceAfter hcall hcs ⟨Chain.obeys_finished (by simp), _, rfl⟩

/-! ### Pipelines -/

/-- A stage that fits, on a value that the stage before it left behind. -/
theorem stageApply (hcall : D.Calls call) {s : Stage} (hs : s.Obeys R) {before : Option Stage}
    (hfits : R.ordered → s.Fits before) {v : Value} (hv : v.Obeys R)
    (hleaves : R.ordered → ∀ t ∈ before, t.Leaves v) :
    D.holds (fun v => v.Obeys R ∧ s.Leaves v) fun i => s.apply (call i) v := by
  rcases s with f | _ | b
  · exact mono (hcall f [v] hs (by simpa using hv)) fun v hv => ⟨hv, nofun⟩
  · exact D.ret ⟨Chain.obeys_finished hv, fun _ => ⟨_, rfl, nofun⟩⟩
  · simp only [Stage.apply]
    split
    · rename_i c
      refine D.map (chainBind_collects hcall hv hs fun hR hb => ?_) fun d hd =>
        ⟨hd.1, fun _ => ⟨d, rfl, hd.2⟩⟩
      obtain ⟨t, ht, hgives, hcollects⟩ := hfits hR
      obtain ⟨_, ⟨⟩, hc⟩ := hleaves hR t ht hgives
      exact hc (hcollects hb)
    · exact D.fail _ _

theorem applyStages (hcall : D.Calls call) {ss : List Stage} (hss : ∀ s ∈ ss, s.Obeys R)
    {before : Option Stage} (hfit : R.ordered → stagesFit before ss) {v : Value}
    (hv : v.Obeys R) (hleaves : R.ordered → ∀ t ∈ before, t.Leaves v) :
    D.holds (Value.Obeys R) fun i => EffectHandlers.applyStages (call i) v ss := by
  induction ss generalizing before v with
  | nil => exact D.ret hv
  | cons s ss ih =>
    refine D.bind (stageApply hcall (hss s List.mem_cons_self) (fun hR => (hfit hR).1) hv hleaves)
      fun v hv => ih (fun s hs => hss s (List.mem_cons_of_mem _ hs)) (fun hR => (hfit hR).2) hv.1 ?_
    rintro - t ⟨⟩
    exact hv.2

theorem resume (hcall : D.Calls call) {e : Effect} (he : e.Obeys R) {answer : Value}
    (ha : answer.Obeys R) : D.holds (Value.Obeys R) fun i => e.resume (call i) answer := by
  have hfold := applyStages hcall (Effect.obeys_pipeline he) (Effect.fit_pipeline he) ha
    (by simp)
  simpa only [Effect.resume, resumeFrom_eq_applyStages] using hfold

end Discipline

end EffectHandlers
