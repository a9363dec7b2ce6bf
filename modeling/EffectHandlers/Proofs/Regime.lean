/-
EffectHandlers/Proofs/Regime.lean

What values may contain.

A value may hold other values at any depth: in a list, in the bindings of a
function, in a state, in the pipeline of an effect.  A regime restricts all
of them at once.  It says

* which calls of programs a resumption may go on with,
* what a pending node, an effect with its declaration, may look like,
* which operations code may use,
* whether the stages of every pipeline have to fit after each other.

`Value.Obeys R v` says that everything in `v` keeps to the regime `R`.  The
nodes of a regime have to be closed under what the library itself does with
nodes: performing an effect, adding a bind stage, declaring more.

Main statements: under a regime without restrictions everything obeys
(`Value.obeys_of_free`); and the operations on values give back only what
they were given, so that items, fields, members and look-ups of a value that
obeys do so too.
-/
import EffectHandlers.Proofs.Fitting
import EffectHandlers.Script.Data

namespace EffectHandlers

/-! ### Code -/

mutual

/-- Every operation that an expression uses satisfies `op`. -/
@[simp] def Expr.Uses (op : Op → Prop) : Expr → Prop
  | .literal _ | .var _ => True
  | .lambda _ body | .fixpoint _ _ body => body.Uses op
  | .cond test yes no => test.Uses op ∧ yes.Uses op ∧ no.Uses op
  | .letIn _ bound body => bound.Uses op ∧ body.Uses op
  | .block es => exprsUse op es
  | .mapping entries => entriesUse op entries
  | .program requires _ body => exprsUse op requires ∧ body.Uses op
  | .custom spec => spec.Uses op
  | .op o args => op o ∧ exprsUse op args
termination_by structural e => e

/-- Every operation that some expressions use satisfies `op`. -/
@[simp] def exprsUse (op : Op → Prop) : List Expr → Prop
  | [] => True
  | e :: es => e.Uses op ∧ exprsUse op es
termination_by structural es => es

/-- Every operation that the entries of a mapping use satisfies `op`. -/
@[simp] def entriesUse (op : Op → Prop) : List (Expr × Expr) → Prop
  | [] => True
  | (k, v) :: es => k.Uses op ∧ v.Uses op ∧ entriesUse op es
termination_by structural es => es

/-- Every operation that an optional expression uses satisfies `op`. -/
@[simp] def optionUses (op : Op → Prop) : Option Expr → Prop
  | none => True
  | some e => e.Uses op
termination_by structural e => e

/-- Every operation that a statement uses satisfies `op`. -/
@[simp] def Stmt.Uses (op : Op → Prop) : Stmt → Prop
  | .yield _ e | .assign _ e | .eval e | .exit e => e.Uses op
  | .cond test yes no => test.Uses op ∧ stmtsUse op yes ∧ stmtsUse op no
  | .each _ items body => items.Uses op ∧ stmtsUse op body
termination_by structural s => s

/-- Every operation that some statements use satisfies `op`. -/
@[simp] def stmtsUse (op : Op → Prop) : List Stmt → Prop
  | [] => True
  | s :: ss => s.Uses op ∧ stmtsUse op ss
termination_by structural ss => ss

/-- Every operation that the body of a program uses satisfies `op`. -/
@[simp] def Routine.Uses (op : Op → Prop) : Routine → Prop
  | .resumable body => stmtsUse op body
  | .plain body => body.Uses op
termination_by structural r => r

/-- Every operation that the description of a handler uses satisfies `op`. -/
@[simp] def HandlerSpec.Uses (op : Op → Prop) : HandlerSpec → Prop
  | .mk _ _ _ _ start step offer finish =>
    optionUses op start ∧ optionUses op step ∧ optionUses op offer ∧ optionUses op finish
termination_by structural spec => spec

end

/-! ### Regimes -/

/-- What values may contain: the calls that resumptions may go on with, the nodes that may be
pending, and the operations that code may use.  In an ordered regime, the stages of every pipeline
fit, and that of a pending node gives a chain. -/
structure Regime where
  call : Nat → Prop
  node : Effect → CapabilitySet → Prop
  op : Op → Prop
  ordered : Prop := False
  perform (e : Effect) : node (e.map .lift) (.single e.capability)
  bind {e : Effect} {r : CapabilitySet} (b : Binder) : node e r → node (e.map (.bind b)) r
  declare {e : Effect} {r : CapabilitySet} (s : CapabilitySet) : node e r → node e (r ∪ s)
  suspended : op (.chain .suspended) → ∀ (e : Effect) (r : CapabilitySet), node e r
  ends : ordered → ∀ {e : Effect} {r : CapabilitySet}, node e r →
    ∃ t ∈ e.pipeline.getLast?, t.givesChain = true := by exact nofun

namespace Regime

/-- The regime that restricts the calls only. -/
def ofCalls (call : Nat → Prop) : Regime where
  call := call
  node _ _ := True
  op _ := True
  perform _ := trivial
  bind _ _ := trivial
  declare _ _ := trivial
  suspended _ _ _ := trivial

/-- The regime without restrictions. -/
def free : Regime := ofCalls fun _ => True

end Regime

mutual

/-- Everything in a value keeps to a regime. -/
@[simp] def Value.Obeys (R : Regime) : Value → Prop
  | .null | .bool _ | .int _ | .text _ => True
  | .list xs | .tuple xs => valuesObey R xs
  | .dict es | .frozen es => entriesObey R es
  | .capability _ | .capabilities _ => True
  | .effect e => e.Obeys R
  | .chain c => c.Obeys R
  | .function f => f.Obeys R
  | .handler h => h.Obeys R
  | .handled s n => s.Obeys R ∧ n.Obeys R
  | .declined => True
  | .result v o => v.Obeys R ∧ o.Obeys R
  | .cell _ => True
  | .refusal _ r => r.Obeys R
termination_by structural v => v

/-- Everything in some values keeps to a regime. -/
def valuesObey (R : Regime) : List Value → Prop
  | [] => True
  | v :: vs => v.Obeys R ∧ valuesObey R vs
termination_by structural vs => vs

/-- Everything in the entries of a mapping keeps to a regime. -/
def entriesObey (R : Regime) : List (Value × Value) → Prop
  | [] => True
  | (k, v) :: es => (k.Obeys R ∧ v.Obeys R) ∧ entriesObey R es
termination_by structural es => es

/-- Everything in bindings keeps to a regime. -/
def bindingsObey (R : Regime) : List (String × Value) → Prop
  | [] => True
  | (_, v) :: bs => v.Obeys R ∧ bindingsObey R bs
termination_by structural bs => bs

/-- Everything in an optional value keeps to a regime. -/
@[simp] def optionObeys (R : Regime) : Option Value → Prop
  | none => True
  | some v => v.Obeys R
termination_by structural v => v

/-- Everything in a request keeps to a regime. -/
@[simp] def Request.Obeys (R : Regime) : Request → Prop
  | .log m => m.Obeys R
  | .loudLog m v => m.Obeys R ∧ v.Obeys R
  | .writeLine l => l.Obeys R
  | .readLine | .beep => True
  | .get k => k.Obeys R
  | .put k v => k.Obeys R ∧ v.Obeys R
  | .modify k f => k.Obeys R ∧ f.Obeys R
  | .poke k => k.Obeys R
  | .tick n => n.Obeys R
  | .custom _ _ v => v.Obeys R
termination_by structural r => r

/-- Everything in an effect keeps to a regime. -/
@[simp] def Effect.Obeys (R : Regime) : Effect → Prop
  | ⟨r, ss⟩ => r.Obeys R ∧ stagesObey R ss ∧ (R.ordered → stagesFit none ss)
termination_by structural e => e

/-- Everything in a chain keeps to a regime. -/
@[simp] def Chain.Obeys (R : Regime) : Chain → Prop
  | .done v _ => v.Obeys R
  | .suspended e r => R.node e r ∧ e.Obeys R
termination_by structural c => c

/-- Everything in a stage keeps to a regime. -/
@[simp] def Stage.Obeys (R : Regime) : Stage → Prop
  | .call f => f.Obeys R
  | .lift => True
  | .bind b => b.Obeys R
termination_by structural s => s

/-- Everything in some stages keeps to a regime. -/
def stagesObey (R : Regime) : List Stage → Prop
  | [] => True
  | s :: ss => s.Obeys R ∧ stagesObey R ss
termination_by structural ss => ss

/-- Everything in a binder keeps to a regime. -/
@[simp] def Binder.Obeys (R : Regime) : Binder → Prop
  | .call f | .map f => f.Obeys R
  | .always c | .gather c => c.Obeys R
  | .append xs => valuesObey R xs
termination_by structural b => b

/-- Everything in a function keeps to a regime. -/
@[simp] def Callable.Obeys (R : Regime) : Callable → Prop
  | .closure _ _ body env => body.Uses R.op ∧ bindingsObey R env
  | .fixpoint _ _ _ body env => body.Uses R.op ∧ bindingsObey R env
  | .program _ _ _ body env => body.Uses R.op ∧ bindingsObey R env
  | .resumption id _ => R.call id
termination_by structural f => f

/-- Everything in a handler keeps to a regime. -/
@[simp] def Handler.Obeys (R : Regime) : Handler → Prop
  | .collector _ | .counter _ | .stream _ _ => True
  | .emitter _ level component => level.Obeys R ∧ component.Obeys R
  | .transcript _ lines => valuesObey R lines
  | .store _ initial => entriesObey R initial
  | .recorder _ _ inner => inner.Obeys R
  | .pair _ first second => first.Obeys R ∧ second.Obeys R
  | .custom _ m => m.Obeys R
termination_by structural h => h

/-- Everything in the methods of a custom handler keeps to a regime. -/
@[simp] def CustomMethods.Obeys (R : Regime) : CustomMethods → Prop
  | ⟨_, _, _, _, start, step, offer, finish⟩ =>
    optionObeys R start ∧ optionObeys R step ∧ optionObeys R offer ∧ optionObeys R finish
termination_by structural m => m

/-- Everything in a refusal keeps to a regime. -/
@[simp] def Refusal.Obeys (R : Regime) : Refusal → Prop
  | .unhandledEffect e => e.Obeys R
  | .missingCapability _ | .capabilityConflict _ | .consoleInputExhausted _ => True
termination_by structural r => r

end

section

variable {R : Regime}

/-! ### Collections -/

@[simp] theorem valuesObey_iff {vs : List Value} :
    valuesObey R vs ↔ ∀ v ∈ vs, v.Obeys R := by
  induction vs with
  | nil => simp [valuesObey]
  | cons v vs ih => simp [valuesObey, ih]

@[simp] theorem entriesObey_iff {es : List (Value × Value)} :
    entriesObey R es ↔ ∀ e ∈ es, e.1.Obeys R ∧ e.2.Obeys R := by
  induction es with
  | nil => simp [entriesObey]
  | cons e es ih =>
    obtain ⟨k, v⟩ := e
    simp [entriesObey, ih]

@[simp] theorem bindingsObey_iff {bs : List (String × Value)} :
    bindingsObey R bs ↔ ∀ b ∈ bs, b.2.Obeys R := by
  induction bs with
  | nil => simp [bindingsObey]
  | cons b bs ih =>
    obtain ⟨n, v⟩ := b
    simp [bindingsObey, ih]

@[simp] theorem stagesObey_iff {ss : List Stage} :
    stagesObey R ss ↔ ∀ s ∈ ss, s.Obeys R := by
  induction ss with
  | nil => simp [stagesObey]
  | cons s ss ih => simp [stagesObey, ih]

/-! ### Bindings and mappings -/

/-- Everything in an environment keeps to a regime. -/
abbrev Env.Obeys (R : Regime) (env : Env) : Prop := ∀ b ∈ env, b.2.Obeys R

theorem Env.obeys_lookup {env : Env} (henv : Env.Obeys R env) {name : String} {v : Value}
    (h : Env.lookup env name = some v) : v.Obeys R := by
  induction env with
  | nil => cases h
  | cons b rest ih =>
    obtain ⟨n, w⟩ := b
    unfold Env.lookup at h
    split at h
    · cases h
      exact henv _ List.mem_cons_self
    · exact ih (fun b hb => henv b (List.mem_cons_of_mem _ hb)) h

theorem Env.obeys_set {env : Env} (henv : Env.Obeys R env) (name : String) {v : Value}
    (hv : v.Obeys R) : Env.Obeys R (Env.set env name v) := by
  induction env with
  | nil => simpa [Env.set, Env.Obeys] using hv
  | cons b rest ih =>
    obtain ⟨n, w⟩ := b
    have hrest : Env.Obeys R rest := fun b hb => henv b (List.mem_cons_of_mem _ hb)
    unfold Env.set
    split
    · simpa [Env.Obeys, hv] using hrest
    · have hw : w.Obeys R := henv _ List.mem_cons_self
      simpa [Env.Obeys, hw] using ih hrest

theorem Env.obeys_setAll {env env' : Env} (henv : Env.Obeys R env) {names : List String}
    {vs : List Value} (hvs : ∀ v ∈ vs, v.Obeys R) (h : Env.setAll? env names vs = some env') :
    Env.Obeys R env' := by
  induction names generalizing env vs with
  | nil =>
    rcases vs with _ | ⟨v, vs⟩
    · cases h
      exact henv
    · cases h
  | cons n names ih =>
    rcases vs with _ | ⟨v, vs⟩
    · cases h
    · exact ih (Env.obeys_set henv n (hvs v List.mem_cons_self))
        (fun v hv => hvs v (List.mem_cons_of_mem _ hv)) h

/-- Everything in the entries of a mapping keeps to a regime. -/
abbrev Mapping.Obeys (R : Regime) (m : Mapping) : Prop := ∀ e ∈ m, e.1.Obeys R ∧ e.2.Obeys R

theorem Mapping.obeys_lookup {m : Mapping} (hm : Mapping.Obeys R m) {k v : Value}
    (h : Mapping.lookup m k = some v) : v.Obeys R := by
  induction m with
  | nil => cases h
  | cons e rest ih =>
    rw [Mapping.lookup_cons] at h
    split at h
    · cases h
      exact (hm _ List.mem_cons_self).2
    · exact ih (fun e he => hm e (List.mem_cons_of_mem _ he)) h

theorem Mapping.obeys_set {m : Mapping} (hm : Mapping.Obeys R m) {k v : Value}
    (hk : k.Obeys R) (hv : v.Obeys R) : Mapping.Obeys R (Mapping.set m k v) := by
  induction m with
  | nil => simpa [Mapping.set, Mapping.Obeys] using And.intro hk hv
  | cons e rest ih =>
    obtain ⟨j, w⟩ := e
    have hrest : Mapping.Obeys R rest := fun e he => hm e (List.mem_cons_of_mem _ he)
    have he : j.Obeys R ∧ w.Obeys R := hm _ List.mem_cons_self
    unfold Mapping.set
    split
    · simpa [Mapping.Obeys, he.1, hv] using hrest
    · simpa [Mapping.Obeys, he.1, he.2] using ih hrest

/-! ### Parts of values -/

theorem Effect.obeys_request {e : Effect} (he : e.Obeys R) : e.request.Obeys R := by
  obtain ⟨r, ss⟩ := e
  exact he.1

theorem Effect.obeys_pipeline {e : Effect} (he : e.Obeys R) : ∀ s ∈ e.pipeline, s.Obeys R := by
  obtain ⟨r, ss⟩ := e
  exact stagesObey_iff.mp he.2.1

theorem Effect.fit_pipeline {e : Effect} (he : e.Obeys R) (hR : R.ordered) :
    stagesFit none e.pipeline := by
  obtain ⟨r, ss⟩ := e
  exact he.2.2 hR

theorem Request.obeys_fields {r : Request} (hr : r.Obeys R) : ∀ f ∈ r.fields, f.2.Obeys R := by
  cases r <;> simp_all [Request.fields]

theorem Request.obeys_member {r : Request} (hr : r.Obeys R) {name : String} {v : Value}
    (h : r.member name = .ok v) : v.Obeys R := by
  unfold Request.member at h
  split at h
  · rename_i f hf
    cases h
    exact Request.obeys_fields hr f (List.mem_of_find?_eq_some hf)
  · cases h

theorem Value.obeys_items? {v : Value} (hv : v.Obeys R) {xs : List Value}
    (h : v.items? = some xs) : ∀ x ∈ xs, x.Obeys R := by
  unfold Value.items? at h
  split at h <;> cases h
  case h_1 | h_2 | h_3 => simpa using hv
  case h_4 | h_7 => simp [Value.char]
  case h_5 | h_6 =>
    intro x hx
    obtain ⟨e, he, rfl⟩ := List.mem_map.mp hx
    exact (entriesObey_iff.mp hv e he).1

theorem Value.obeys_items {v : Value} (hv : v.Obeys R) {xs : List Value}
    (h : v.items = .ok xs) : ∀ x ∈ xs, x.Obeys R := by
  unfold Value.items at h
  split at h
  · rename_i hxs
    cases h
    exact Value.obeys_items? hv hxs
  · cases h

theorem Value.obeys_reversed {v : Value} (hv : v.Obeys R) {xs : List Value}
    (h : v.reversed = .ok xs) : ∀ x ∈ xs, x.Obeys R := by
  unfold Value.reversed at h
  split at h
  · cases h
  · cases h
  · rename_i hxs
    cases h
    intro x hx
    exact Value.obeys_items? hv hxs x (List.mem_reverse.mp hx)

theorem Value.obeys_unpackTwo {v : Value} (hv : v.Obeys R) {p : Value × Value}
    (h : v.unpackTwo = .ok p) : p.1.Obeys R ∧ p.2.Obeys R := by
  unfold Value.unpackTwo at h
  split at h <;> cases h
  rename_i hxs
  have hitems := Value.obeys_items? hv hxs
  exact ⟨hitems _ (by simp), hitems _ (by simp)⟩

theorem obeys_itemAt? {xs : List Value} (hxs : ∀ x ∈ xs, x.Obeys R) {n : Int} {x : Value}
    (h : itemAt? xs n = some x) : x.Obeys R := by
  unfold itemAt? at h
  grind

theorem Value.obeys_item {v i : Value} (hv : v.Obeys R) {x : Value} (h : v.item i = .ok x) :
    x.Obeys R := by
  have hitems (xs : List Value) (hxs : v.items? = some xs) := Value.obeys_items? hv hxs
  cases v
  case dict m | frozen m =>
    have hm : Mapping.Obeys R m := entriesObey_iff.mp hv
    simp only [Value.item] at h
    split at h
    · cases h
    · split at h
      · rename_i hx
        cases h
        exact Mapping.obeys_lookup hm hx
      · cases h
  case list | tuple | result | text =>
    simp only [Value.item] at h
    grind [obeys_itemAt?]
  all_goals cases h

theorem Value.obeys_plus {a b : Value} (ha : a.Obeys R) (hb : b.Obeys R) {v : Value}
    (h : a.plus b = .ok v) : v.Obeys R := by
  unfold Value.plus at h
  split at h
  case h_11 => grind [Value.Obeys]
  all_goals cases h
  all_goals simp_all [or_imp]

/-! ### Effects and chains -/

/-- An effect with no stages. -/
theorem Effect.obeys_of {r : Request} (hr : r.Obeys R) : (Effect.of r).Obeys R :=
  ⟨hr, trivial, fun _ => trivial⟩

/-- An effect with one more stage, which has to fit. -/
theorem Effect.obeys_map {e : Effect} (he : e.Obeys R) {s : Stage} (hs : s.Obeys R)
    (hfits : R.ordered → s.Fits e.pipeline.getLast?) : (e.map s).Obeys R := by
  obtain ⟨r, ss⟩ := e
  obtain ⟨hr, hss, hfit⟩ := he
  refine ⟨hr, stagesObey_iff.mpr fun t ht => ?_, fun hR =>
    stagesFit_concat.mpr ⟨hfit hR, hfits hR⟩⟩
  rcases List.mem_append.mp ht with ht | ht
  · exact stagesObey_iff.mp hss t ht
  · rw [List.mem_singleton.mp ht]
    exact hs

/-- A pending node with one more bind stage. -/
theorem Chain.obeys_bind {e : Effect} {r : CapabilitySet} (hc : (Chain.suspended e r).Obeys R)
    {b : Binder} (hb : b.Obeys R)
    (hgathers : R.ordered → b.gathers = true → (Chain.suspended e r).Gathering) :
    (Chain.suspended (e.map (.bind b)) r).Obeys R := by
  refine ⟨R.bind b hc.1, Effect.obeys_map hc.2 hb fun hR => ?_⟩
  obtain ⟨t, ht, hgives⟩ := R.ends hR hc.1
  refine ⟨t, ht, hgives, fun h => ?_⟩
  obtain ⟨t', ht', hcollects⟩ := hgathers hR h
  cases ht.symm.trans ht'
  exact hcollects

theorem Chain.obeys_finished {v : Value} (hv : v.Obeys R) : (Chain.finished v).Obeys R := by
  simpa [Chain.finished] using hv

theorem Chain.obeys_perform {e : Effect} (he : e.Obeys R) : (Chain.perform e).Obeys R := by
  have hlift : Stage.lift.Obeys R := by simp
  exact ⟨R.perform e, Effect.obeys_map he hlift fun _ => trivial⟩

theorem Chain.obeys_declare {c : Chain} (hc : c.Obeys R) (s : CapabilitySet) :
    (c.declare s).Obeys R := by
  rcases c with ⟨v, r⟩ | ⟨e, r⟩
  · simpa [Chain.declare, Chain.setRequires] using hc
  · exact ⟨R.declare s hc.1, hc.2⟩

theorem Chain.obeys_gather {c : Chain} (hc : c.Obeys R) {collected : List Value}
    (hvs : ∀ v ∈ collected, v.Obeys R) : (c.gather collected).Obeys R := by
  have happend : (Binder.append collected).Obeys R := by simpa using hvs
  rcases c with ⟨v, r⟩ | ⟨e, r⟩
  · simp_all [Chain.gather, or_imp]
  · exact Chain.obeys_bind hc happend fun _ h => absurd h Bool.false_ne_true

end

/-! ### Without restrictions -/

mutual

theorem Expr.uses_any : ∀ e : Expr, e.Uses fun _ => True
  | .literal _ | .var _ => trivial
  | .lambda _ body | .fixpoint _ _ body => Expr.uses_any body
  | .cond test yes no => ⟨Expr.uses_any test, Expr.uses_any yes, Expr.uses_any no⟩
  | .letIn _ bound body => ⟨Expr.uses_any bound, Expr.uses_any body⟩
  | .block es => exprsUse_any es
  | .mapping entries => entriesUse_any entries
  | .program requires _ body => ⟨exprsUse_any requires, Routine.uses_any body⟩
  | .custom spec => HandlerSpec.uses_any spec
  | .op _ args => ⟨trivial, exprsUse_any args⟩
termination_by structural e => e

theorem exprsUse_any : ∀ es : List Expr, exprsUse (fun _ => True) es
  | [] => trivial
  | e :: es => ⟨Expr.uses_any e, exprsUse_any es⟩
termination_by structural es => es

theorem entriesUse_any : ∀ es : List (Expr × Expr), entriesUse (fun _ => True) es
  | [] => trivial
  | (k, v) :: es => ⟨Expr.uses_any k, Expr.uses_any v, entriesUse_any es⟩
termination_by structural es => es

theorem optionUses_any : ∀ e : Option Expr, optionUses (fun _ => True) e
  | none => trivial
  | some e => Expr.uses_any e
termination_by structural e => e

theorem Stmt.uses_any : ∀ s : Stmt, s.Uses fun _ => True
  | .yield _ e | .assign _ e | .eval e | .exit e => Expr.uses_any e
  | .cond test yes no => ⟨Expr.uses_any test, stmtsUse_any yes, stmtsUse_any no⟩
  | .each _ items body => ⟨Expr.uses_any items, stmtsUse_any body⟩
termination_by structural s => s

theorem stmtsUse_any : ∀ ss : List Stmt, stmtsUse (fun _ => True) ss
  | [] => trivial
  | s :: ss => ⟨Stmt.uses_any s, stmtsUse_any ss⟩
termination_by structural ss => ss

theorem Routine.uses_any : ∀ r : Routine, r.Uses fun _ => True
  | .resumable body => stmtsUse_any body
  | .plain body => Expr.uses_any body
termination_by structural r => r

theorem HandlerSpec.uses_any : ∀ spec : HandlerSpec, spec.Uses fun _ => True
  | .mk _ _ _ _ start step offer finish =>
    ⟨optionUses_any start, optionUses_any step, optionUses_any offer, optionUses_any finish⟩
termination_by structural spec => spec

end

mutual

theorem Value.obeys_free : ∀ v : Value, v.Obeys .free
  | .null | .bool _ | .int _ | .text _ => trivial
  | .list xs | .tuple xs => valuesObey_free xs
  | .dict es | .frozen es => entriesObey_free es
  | .capability _ | .capabilities _ => trivial
  | .effect e => Effect.obeys_free e
  | .chain c => Chain.obeys_free c
  | .function f => Callable.obeys_free f
  | .handler h => Handler.obeys_free h
  | .handled s n => ⟨Value.obeys_free s, Value.obeys_free n⟩
  | .declined => trivial
  | .result v o => ⟨Value.obeys_free v, Value.obeys_free o⟩
  | .cell _ => trivial
  | .refusal _ r => Refusal.obeys_free r
termination_by structural v => v

theorem valuesObey_free : ∀ vs : List Value, valuesObey .free vs
  | [] => trivial
  | v :: vs => ⟨Value.obeys_free v, valuesObey_free vs⟩
termination_by structural vs => vs

theorem entriesObey_free : ∀ es : List (Value × Value), entriesObey .free es
  | [] => trivial
  | (k, v) :: es => ⟨⟨Value.obeys_free k, Value.obeys_free v⟩, entriesObey_free es⟩
termination_by structural es => es

theorem bindingsObey_free : ∀ bs : List (String × Value), bindingsObey .free bs
  | [] => trivial
  | (_, v) :: bs => ⟨Value.obeys_free v, bindingsObey_free bs⟩
termination_by structural bs => bs

theorem optionObeys_free : ∀ v : Option Value, optionObeys .free v
  | none => trivial
  | some v => Value.obeys_free v
termination_by structural v => v

theorem Request.obeys_free : ∀ r : Request, r.Obeys .free
  | .log m => Value.obeys_free m
  | .loudLog m v => ⟨Value.obeys_free m, Value.obeys_free v⟩
  | .writeLine l => Value.obeys_free l
  | .readLine | .beep => trivial
  | .get k => Value.obeys_free k
  | .put k v => ⟨Value.obeys_free k, Value.obeys_free v⟩
  | .modify k f => ⟨Value.obeys_free k, Value.obeys_free f⟩
  | .poke k => Value.obeys_free k
  | .tick n => Value.obeys_free n
  | .custom _ _ v => Value.obeys_free v
termination_by structural r => r

theorem Effect.obeys_free : ∀ e : Effect, e.Obeys .free
  | ⟨r, ss⟩ => ⟨Request.obeys_free r, stagesObey_free ss, nofun⟩
termination_by structural e => e

theorem Chain.obeys_free : ∀ c : Chain, c.Obeys .free
  | .done v _ => Value.obeys_free v
  | .suspended e _ => ⟨trivial, Effect.obeys_free e⟩
termination_by structural c => c

theorem Stage.obeys_free : ∀ s : Stage, s.Obeys .free
  | .call f => Callable.obeys_free f
  | .lift => trivial
  | .bind b => Binder.obeys_free b
termination_by structural s => s

theorem stagesObey_free : ∀ ss : List Stage, stagesObey .free ss
  | [] => trivial
  | s :: ss => ⟨Stage.obeys_free s, stagesObey_free ss⟩
termination_by structural ss => ss

theorem Binder.obeys_free : ∀ b : Binder, b.Obeys .free
  | .call f | .map f => Callable.obeys_free f
  | .always c | .gather c => Chain.obeys_free c
  | .append xs => valuesObey_free xs
termination_by structural b => b

theorem Callable.obeys_free : ∀ f : Callable, f.Obeys .free
  | .closure _ _ body env => ⟨Expr.uses_any body, bindingsObey_free env⟩
  | .fixpoint _ _ _ body env => ⟨Expr.uses_any body, bindingsObey_free env⟩
  | .program _ _ _ body env => ⟨Routine.uses_any body, bindingsObey_free env⟩
  | .resumption _ _ => trivial
termination_by structural f => f

theorem Handler.obeys_free : ∀ h : Handler, h.Obeys .free
  | .collector _ | .counter _ | .stream _ _ => trivial
  | .emitter _ level component => ⟨Value.obeys_free level, Value.obeys_free component⟩
  | .transcript _ lines => valuesObey_free lines
  | .store _ initial => entriesObey_free initial
  | .recorder _ _ inner => Handler.obeys_free inner
  | .pair _ first second => ⟨Handler.obeys_free first, Handler.obeys_free second⟩
  | .custom _ m => CustomMethods.obeys_free m
termination_by structural h => h

theorem CustomMethods.obeys_free : ∀ m : CustomMethods, m.Obeys .free
  | ⟨_, _, _, _, start, step, offer, finish⟩ =>
    ⟨optionObeys_free start, optionObeys_free step, optionObeys_free offer, optionObeys_free finish⟩
termination_by structural m => m

theorem Refusal.obeys_free : ∀ r : Refusal, r.Obeys .free
  | .unhandledEffect e => Effect.obeys_free e
  | .missingCapability _ | .capabilityConflict _ | .consoleInputExhausted _ => trivial
termination_by structural r => r

end

end EffectHandlers
