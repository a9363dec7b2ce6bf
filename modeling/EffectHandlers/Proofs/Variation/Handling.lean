/-
EffectHandlers/Proofs/Variation/Handling.lean

Handlers that programs make, and runs in programs.

A program may make handlers of the library, combine them, and run a chain
against them, also while it is run itself.  What it makes in this way are
combinations of handlers of the library on both sides, whose stores start
with mappings without equal keys.  So a run inside a program is linked to the
run of a chain that varies.

Main statements: the operations of the library on handlers, in the roles of
handlers (`Action.LinkedBy.libraryOp`, `Action.LinkedBy.combineOp` and
`Action.LinkedBy.runOp`).
-/
import EffectHandlers.Proofs.Variation.Expressions
import EffectHandlers.Proofs.Variation.Runs

namespace EffectHandlers

/-! ### Combinations of handlers of the library -/

/-- One handler of the library that is no store. -/
theorem Handler.OfLibrary.one {A : Handler} (hA : A.Shipped) (hleaves : A.leaves = [A])
    (hstore : A.isStore = false) : A.OfLibrary where
  shipped h hmem := by
    rw [hleaves, List.mem_singleton] at hmem
    exact hmem ▸ hA
  distinct id initial hmem := by
    rw [hleaves, List.mem_singleton] at hmem
    rw [← hmem] at hstore
    cases hstore

theorem Handler.OfLibrary.store (id : Nat) {initial : Mapping} (h : initial.Distinct) :
    (Handler.store id initial).OfLibrary where
  shipped a ha := by
    rw [List.mem_singleton.mp ha]
    exact .store id initial
  distinct _ _ hmem := by
    cases List.mem_singleton.mp hmem
    exact h

theorem Handler.hasStore_store (id : Nat) (initial : Mapping) :
    (Handler.store id initial).HasStore := ⟨_, List.mem_cons_self, rfl⟩

/-- What is combined of combinations is a combination.  If one of them has a store, it has one. -/
theorem Handler.OfLibrary.combine {as : List Handler} {A : Handler} {w w' : World}
    (h : Handler.combine as w = .value A w') (has : ∀ a ∈ as, a.OfLibrary) : A.OfLibrary := by
  have hleaves := leaves_combine h
  constructor
  · intro h hmem
    rw [hleaves] at hmem
    obtain ⟨a, ha, hmem⟩ := List.mem_flatMap.mp hmem
    exact (has a ha).shipped h hmem
  · intro id initial hmem
    rw [hleaves] at hmem
    obtain ⟨a, ha, hmem⟩ := List.mem_flatMap.mp hmem
    exact (has a ha).distinct id initial hmem

theorem Handler.HasStore.combine {as : List Handler} {A : Handler} {w w' : World}
    (h : Handler.combine as w = .value A w') {a : Handler} (ha : a ∈ as) (hstore : a.HasStore) :
    A.HasStore := by
  obtain ⟨b, hb, hstore⟩ := hstore
  exact ⟨b, leaves_combine h ▸ List.mem_flatMap.mpr ⟨a, ha, hb⟩, hstore⟩

/-- What an operation makes that makes a handler of the library. -/
theorem HandlerOp.ships_made {o : HandlerOp} (ho : o.ships = true) {s : Settings} {call : Call}
    {vs : List Value} {v : Value} {w w' : World} (h : o.apply s call vs w = .value v w') :
    ∃ A : Handler, v = .handler A ∧ A.OfLibrary := by
  have hmade {make : Nat → Handler} {u : World} (hmake : ∀ id, (make id).OfLibrary)
      (h : newHandler make u = .value v w') : ∃ A : Handler, v = .handler A ∧ A.OfLibrary := by
    obtain ⟨id, w₁, -, h⟩ := Action.bind_eq_value.mp h
    cases h
    exact ⟨make id, rfl, hmake id⟩
  have hstream {u : World} {text : Action String}
      (h : (text >>= fun t => newSource t >>= fun n => newHandler (.stream · n)) u = .value v w') :
      ∃ A : Handler, v = .handler A ∧ A.OfLibrary := by
    obtain ⟨t, w₁, -, h⟩ := Action.bind_eq_value.mp h
    obtain ⟨n, w₂, -, h⟩ := Action.bind_eq_value.mp h
    exact hmade (fun id => .one (.stream id n) rfl rfl) h
  rcases vs with _ | ⟨a, _ | ⟨b, _ | ⟨d, vs⟩⟩⟩ <;> cases o <;> try cases ho
  case nil.collector => exact hmade (fun id => .one (.collector id) rfl rfl) h
  case nil.emitter => exact hmade (fun id => .one (.emitter id _ _) rfl rfl) h
  case nil.transcript => exact hmade (fun id => .one (.transcript id []) rfl rfl) h
  case nil.counter => exact hmade (fun id => .one (.counter id) rfl rfl) h
  case cons.nil.emitter => exact hmade (fun id => .one (.emitter id a _) rfl rfl) h
  case cons.nil.transcript =>
    obtain ⟨lines, w₁, -, h⟩ := Action.bind_eq_value.mp h
    exact hmade (fun id => .one (.transcript id lines) rfl rfl) h
  case cons.nil.stream =>
    cases a
    case null => exact hmade (fun id => .one (.stream id _) rfl rfl) h
    all_goals exact hstream h
  case cons.cons.nil.emitterFor => exact hmade (fun id => .one (.emitter id a b) rfl rfl) h
  case cons.cons.nil.stream | cons.cons.cons.stream => cases a <;> cases h
  all_goals cases h

/-- Entries that are added to a mapping keep its keys unequal. -/
theorem evalEntries_distinct {s : Settings} {call : Call} {env : Env}
    {entries : List (Expr × Expr)} {m m' : Mapping} (hm : m.Distinct) {w w' : World}
    (h : evalEntries s call m entries env w = .value m' w') : m'.Distinct := by
  induction entries generalizing m w with
  | nil =>
    cases h
    exact hm
  | cons e entries ih =>
    obtain ⟨k, v⟩ := e
    obtain ⟨a, w₁, -, h⟩ := Action.bind_eq_value.mp h
    obtain ⟨b, w₂, -, h⟩ := Action.bind_eq_value.mp h
    obtain ⟨m₁, w₃, hadded, h⟩ := Action.bind_eq_value.mp h
    refine ih ?_ h
    cases ha : a.keyFault? with
    | some t =>
      rw [addMappingEntry, ha] at hadded
      cases hadded
    | none =>
      rw [addMappingEntry, ha] at hadded
      cases hadded
      exact hm.set a b

/-! ### Values in the roles of handlers -/

/-- In the roles of handlers of the library there are such handlers. -/
theorem Varied.handler_cases {loose : Bool} {L : Link} {ρ : Role} {v v' : Value}
    (h : Varied loose L ρ v v') (hρ : ρ ≤ .shipped) : ∃ A A', v = .handler A ∧ v' = .handler A' ∧
      Counterpart L A A' ∧ A.OfLibrary ∧ (ρ = .served → A.HasStore) := by
  have hcases : ρ = .shipped ∨ ρ = .served := by
    cases hρ with
    | refl => exact .inl rfl
    | served_shipped => exact .inr rfl
    | plain _ h => cases h
  obtain rfl | rfl := hcases
  · cases h with
    | plain _ h => cases h
    | shipped h hA => exact ⟨_, _, rfl, rfl, h, hA, fun h => by cases h⟩
  · cases h with
    | plain _ h => cases h
    | served h hA hstore => exact ⟨_, _, rfl, rfl, h, hA, fun _ => hstore⟩

/-- Values in the roles of handlers of the library are such handlers. -/
theorem valuesVary.handlers {loose : Bool} {L : Link} {ρs : List Role} {vs vs' : List Value}
    (hvs : valuesVary loose L ρs vs vs') (hρs : ∀ ρ ∈ ρs, ρ ≤ .shipped) :
    ∃ as as' : List Handler, vs = as.map .handler ∧ vs' = as'.map .handler ∧
      Counterpart L as as' ∧ (∀ a ∈ as, a.OfLibrary) ∧
      (.served ∈ ρs → ∃ a ∈ as, a.HasStore) := by
  induction hvs with
  | nil => exact ⟨[], [], rfl, rfl, .nil, fun a ha => (List.not_mem_nil ha).elim,
      fun h => (List.not_mem_nil h).elim⟩
  | @cons ρ ρs v v' vs vs' hv _ ih =>
    obtain ⟨as, as', rfl, rfl, has, hlibrary, hstore⟩ :=
      ih fun ρ hρ => hρs ρ (List.mem_cons_of_mem _ hρ)
    obtain ⟨A, A', rfl, rfl, hA, hA', hserved⟩ := hv.handler_cases (hρs ρ List.mem_cons_self)
    refine ⟨A :: as, A' :: as', rfl, rfl, .cons hA has, ?_, ?_⟩
    · rintro a (_ | ⟨_, ha⟩)
      · exact hA'
      · exact hlibrary a ha
    · rintro (_ | ⟨_, h⟩)
      · exact ⟨A, List.mem_cons_self, hserved rfl⟩
      · obtain ⟨a, ha, hstore⟩ := hstore h
        exact ⟨a, List.mem_cons_of_mem _ ha, hstore⟩

theorem handlersOf_map (as : List Handler) : handlersOf (as.map .handler) = pure as := by
  induction as with
  | nil => rfl
  | cons a as ih =>
    rw [List.map_cons, handlersOf, ih]
    rfl

namespace Action.LinkedBy

variable {W : Comparing} {L : Link} {s s' : Settings} {call call' : Call} {vs vs' : List Value}
  {ρs : List Role}

/-- What the first side comes to may be used. -/
theorem and_left {α β : Type} {R : Link → α → β → Prop} {x : Action α} {y : Action β}
    (h : Action.LinkedBy W L R x y) {P : α → Prop}
    (hP : ∀ a w w', x w = .value a w' → P a) :
    Action.LinkedBy W L (fun M a b => R M a b ∧ P a) x y := by
  intro w w' hw
  have hxy := h w w' hw
  have hvalue := hP (w := w)
  generalize x w = o at hxy hvalue ⊢
  generalize y w' = o' at hxy ⊢
  cases hxy with
  | value hLM hw h => exact .value hLM hw ⟨h, hvalue _ _ rfl⟩
  | failed hLM hw h => exact .failed hLM hw h
  | left h => exact .left h _
  | right h => exact .right h _

theorem libraryOp (hs : W.Fits s s') (hcall : CallsLinked W call call') {o : HandlerOp}
    (ho : o.ships = true) (hvs : Counterpart L vs vs') :
    Action.LinkedBy W L (fun M => Varied W.loose M .shipped) (o.apply s call vs)
      (o.apply s' call' vs') := by
  refine (and_left (handlerOp hs hcall o hvs) fun v w w' h => o.ships_made ho h).mono
    fun M v v' _ hv => ?_
  obtain ⟨hsame, A, rfl, hA⟩ := hv
  cases Value.shape hsame with
  | handler hh => exact .shipped hh hA

/-- A new store that starts with a mapping without equal keys. -/
theorem newStore {m m' : Mapping} (hm : Counterpart L m m') (hdistinct : m.Distinct) :
    Action.LinkedBy W L (fun M => Varied W.loose M .served) (EffectHandlers.newHandler (.store · m))
      (EffectHandlers.newHandler (.store · m')) :=
  fresh.map fun _ id _ hLM hid => .served (.ofShape (.store hid (hm.mono hLM)))
    (.store id hdistinct) (Handler.hasStore_store id m)

theorem combineOp (s s' : Settings) (call call' : Call) (hρs : ∀ ρ ∈ ρs, ρ ≤ .shipped)
    (hvs : valuesVary W.loose L ρs vs vs') :
    Action.LinkedBy W L (fun M v v' => Varied W.loose M .shipped v v' ∧
        (.served ∈ ρs → Varied W.loose M .served v v'))
      (HandlerOp.apply s call .combine vs) (HandlerOp.apply s' call' .combine vs') := by
  obtain ⟨as, as', rfl, rfl, has, hlibrary, hstore⟩ := hvs.handlers hρs
  simp only [HandlerOp.apply, handlersOf_map, pure_bind]
  have hcombined : Action.LinkedBy W L
      (fun M A A' => Counterpart M A A' ∧ A.OfLibrary ∧ (.served ∈ ρs → A.HasStore))
      (Handler.combine as) (Handler.combine as') := by
    refine and_left (combine has) fun A w w' h => ⟨Handler.OfLibrary.combine h hlibrary, ?_⟩
    intro hserved
    obtain ⟨a, ha, hstore⟩ := hstore hserved
    exact Handler.HasStore.combine h ha hstore
  exact hcombined.map fun M A A' _ hA =>
    ⟨.shipped hA.1 hA.2.1, fun h => .served hA.1 hA.2.1 (hA.2.2 h)⟩

theorem runOp (hs : W.Fits s s') (hcall : CallsUnfolded W call call') {a a' b b' : Value}
    (ha : Varied W.loose L .chain a a') (hb : Varied W.loose L .served b b') :
    Action.LinkedBy W L (fun M => Varied W.loose M (.ofRun W.loose))
      (HandlerOp.apply s call .runChain [a, b]) (HandlerOp.apply s' call' .runChain [a', b']) := by
  cases hb with
  | plain _ h => cases h
  | served hh hA hstore =>
    refine (asChainVaried "run" ha).bind fun M c c' hLM hc => ?_
    exact run_linked hs hcall hA hstore (hh.mono hLM) hc

theorem checkOp (s s' : Settings) (call call' : Call) {a a' b b' : Value}
    (ha : Varied W.loose L .chain a a') (hb : Varied W.loose L .plain b b') :
    Action.LinkedBy W L (fun M => Varied W.loose M .plain) (HandlerOp.apply s call .check [a, b])
      (HandlerOp.apply s' call' .check [a', b']) := by
  refine (asChainVaried "run" ha).bind fun M c c' hLM hc => ?_
  refine (asProvider ((Varied.plain_iff.mp hb).mono hLM)).bind fun N h h' hMN hh => ?_
  have hrequires := Chain.Varies.requires (Varied.mono hc hMN)
  exact (Action.LinkedBy.checkProvided hrequires hh).map fun _ _ _ _ _ => .plain .null trivial

/-- The value of a result. -/
theorem valueOp (hcall : CallsLinked W call call') {a a' : Value}
    (ha : Varied W.loose L .outcome a a') :
    Action.LinkedBy W L Counterpart (ChainOp.apply call .value [a])
      (ChainOp.apply call' .value [a']) := by
  cases ha with
  | plain h _ => exact chainOp hcall .value (.cons h .nil)
  | outcome hx _ _ => exact .pure hx

end Action.LinkedBy

end EffectHandlers
