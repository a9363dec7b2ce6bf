/-
EffectHandlers/Proofs/Discipline/Scripts.lean

The walk through operations, expressions and routines.

Every operation, every expression and every part of a routine respects a
discipline if calls of functions do.  Code is restricted by the regime to
the operations that it may use.
-/
import EffectHandlers.Proofs.Discipline.Handlers
import EffectHandlers.Script.Eval

namespace EffectHandlers

variable {ι : Type} {R : Regime} {D : Discipline ι R} {call : ι → Call}

/-! ### Data -/

theorem obeys_rangeItems (n : Int) : ∀ v ∈ rangeItems n, v.Obeys R := by
  simp [rangeItems]

theorem obeys_addOp {a b : Value} (ha : a.Obeys R) (hb : b.Obeys R) {v : Value}
    (h : addOp a b = .ok v) : v.Obeys R := by
  unfold addOp at h
  split at h <;> cases h
  all_goals simp_all [or_imp]

theorem Mapping.obeys_addEntry {m : Mapping} (hm : Mapping.Obeys R m) {k v : Value}
    (hk : k.Obeys R) (hv : v.Obeys R) {m' : Mapping} (h : addMappingEntry m k v = .ok m') :
    Mapping.Obeys R m' := by
  unfold addMappingEntry at h
  split at h <;> cases h
  exact Mapping.obeys_set hm hk hv

namespace Discipline

theorem foldItems (hcall : D.Calls call) {f : Value} (hf : f.Obeys R) {xs : List Value}
    (hxs : ∀ x ∈ xs, x.Obeys R) {acc : Value} (hacc : acc.Obeys R) :
    D.holds (Value.Obeys R) fun i => EffectHandlers.foldItems (call i) f xs acc := by
  induction xs generalizing acc with
  | nil => exact D.ret hacc
  | cons x xs ih =>
    have hargs : ∀ a ∈ [acc, x], a.Obeys R := by simp [hacc, hxs x List.mem_cons_self]
    exact D.bind (callValue hcall hf hargs) fun acc hacc =>
      ih (fun x hx => hxs x (List.mem_cons_of_mem _ hx)) hacc

theorem items {v : Value} (hv : v.Obeys R) :
    D.holds (fun vs => ∀ v ∈ vs, v.Obeys R) fun _ => Action.ofExcept v.items :=
  D.ofExcept fun _ h => Value.obeys_items hv h

theorem dataOp (hcall : D.Calls call) (o : DataOp) {vs : List Value}
    (hvs : ∀ v ∈ vs, v.Obeys R) :
    D.holds (Value.Obeys R) fun i => o.apply (call i) vs := by
  have one {a : Value} (h : ∀ v ∈ [a], v.Obeys R) : a.Obeys R := h a (by simp)
  unfold DataOp.apply
  split
  -- Collections.
  case h_1 | h_2 => exact D.ret (by simpa using hvs)
  case h_3 =>
    split
    · exact D.ret (by simpa using obeys_rangeItems _)
    · exact D.fail _ _
  case h_4 => exact D.map (P := fun _ => True) (D.ofExcept fun _ _ => trivial) fun _ _ => trivial
  case h_5 v i => exact D.ofExcept fun _ h => Value.obeys_item (hvs v (by simp)) h
  case h_6 a b =>
    exact D.ofExcept fun _ h => obeys_addOp (hvs a (by simp)) (hvs b (by simp)) h
  -- Functions.
  case h_19 f args =>
    exact callValue hcall (hvs f (by simp)) fun a ha => hvs a (List.mem_cons_of_mem _ ha)
  case h_20 xs acc f =>
    exact D.bind (items (hvs xs (by simp))) fun vs hxs =>
      foldItems hcall (hvs f (by simp)) hxs (hvs acc (by simp))
  -- The observer and cells.
  case h_21 => exact D.map (D.showValue (one hvs)) fun _ _ => one hvs
  case h_23 => exact D.newCell (one hvs)
  case h_24 => exact D.readCell _
  case h_26 a v =>
    have hv : v.Obeys R := hvs v (by simp)
    exact D.map (D.writeCell a hv) fun _ _ => hv
  -- What is left makes plain data or fails.
  case h_15 | h_16 => exact D.map (D.text _) fun _ _ => trivial
  case h_7 | h_9 | h_11 | h_13 | h_14 | h_17 => exact D.ret trivial
  all_goals exact D.fail _ _

/-! ### Effects and chains -/

theorem asFunction (role : String) {v : Value} (hv : v.Obeys R) :
    D.holds (Callable.Obeys R) fun _ => v.asFunction role := by
  cases v
  case function => exact D.ret hv
  all_goals exact D.fail _ _

theorem asChain (operation : String) {v : Value} (hv : v.Obeys R) :
    D.holds (Chain.Obeys R) fun _ => v.asChain operation := by
  cases v
  case chain => exact D.ret hv
  all_goals exact D.fail _ _

theorem asEffect (operation : String) {v : Value} (hv : v.Obeys R) :
    D.holds (Effect.Obeys R) fun _ => v.asEffect operation := by
  cases v
  case effect => exact D.ret hv
  all_goals exact D.fail _ _

theorem asHandler (operation : String) {v : Value} (hv : v.Obeys R) :
    D.holds (Handler.Obeys R) fun _ => v.asHandler operation := by
  cases v
  case handler => exact D.ret hv
  all_goals exact D.fail _ _

theorem asProvider {v : Value} (hv : v.Obeys R) :
    D.holds (Handler.Obeys R) fun _ => v.asProvider := by
  cases v
  case handler => exact D.ret hv
  all_goals exact D.fail _ _

theorem asDeclaring {v : Value} (hv : v.Obeys R) :
    D.holds (Chain.Obeys R) fun _ => v.asDeclaring := by
  unfold Value.asDeclaring
  split
  · exact D.ret hv
  all_goals exact D.fail _ _

theorem asText (operation : String) (v : Value) :
    D.holds (fun _ => True) fun _ => v.asText operation := by
  cases v
  case text => exact D.ret trivial
  all_goals exact D.fail _ _

theorem capabilitiesOf (operation : String) (vs : List Value) :
    D.holds (fun _ => True) fun _ => EffectHandlers.capabilitiesOf operation vs := by
  induction vs with
  | nil => exact D.ret trivial
  | cons v vs ih =>
    cases v
    case capability => exact D.map ih fun _ _ => trivial
    all_goals exact D.fail _ _

theorem chainsOf (role : String) {vs : List Value} (hvs : ∀ v ∈ vs, v.Obeys R) :
    D.holds (fun cs => ∀ c ∈ cs, c.Obeys R) fun _ => EffectHandlers.chainsOf role vs := by
  induction vs with
  | nil => exact D.ret (by simp)
  | cons v vs ih =>
    refine D.bind (ofValue role (hvs v List.mem_cons_self)) fun c hc => ?_
    exact D.map (ih fun v hv => hvs v (List.mem_cons_of_mem _ hv)) fun cs hcs => by simpa [hc]

theorem handlersOf {vs : List Value} (hvs : ∀ v ∈ vs, v.Obeys R) :
    D.holds (fun hs => ∀ h ∈ hs, h.Obeys R) fun _ => EffectHandlers.handlersOf vs := by
  induction vs with
  | nil => exact D.ret (by simp)
  | cons v vs ih =>
    cases v
    case handler h =>
      have hh : h.Obeys R := hvs (.handler h) List.mem_cons_self
      exact D.map (ih fun v hv => hvs v (List.mem_cons_of_mem _ hv)) fun hs hhs => by simpa [hh]
    all_goals exact D.fail _ _

theorem declaredCapabilities (vs : List Value) :
    D.holds (fun _ => True) fun _ => EffectHandlers.declaredCapabilities vs := by
  have hkeys : D.holds (fun _ => True) fun _ => checkKeys vs := by
    induction vs with
    | nil => exact D.ret trivial
    | cons v vs ih =>
      unfold checkKeys
      split
      · exact D.fail _ _
      · exact ih
  refine D.bind hkeys fun _ _ => ?_
  clear hkeys
  induction vs with
  | nil => exact D.ret trivial
  | cons v vs ih =>
    cases v
    case capability => exact D.map ih fun _ _ => trivial
    all_goals exact D.fail _ _

theorem effectOp (hcall : D.Calls call) (o : EffectOp) {vs : List Value}
    (hvs : ∀ v ∈ vs, v.Obeys R) :
    D.holds (Value.Obeys R) fun i => o.apply (call i) vs := by
  unfold EffectOp.apply
  split
  case h_12 kind capability payload =>
    refine D.bind (asText "Custom" kind) fun _ _ => D.bind (asText "Custom" capability) fun _ _ => ?_
    exact D.ret (by simpa [Effect.of] using hvs payload (by simp))
  case h_13 e f =>
    refine D.bind (asEffect "map" (hvs e (by simp))) fun e he => ?_
    exact D.map (asFunction "mapper" (hvs f (by simp))) fun f hf =>
      Effect.obeys_map he hf fun _ => trivial
  case h_14 e => exact D.bind (asEffect "resume" (hvs e (by simp))) fun e he => resume hcall he trivial
  case h_15 e answer =>
    exact D.bind (asEffect "resume" (hvs e (by simp))) fun e he =>
      resume hcall he (hvs answer (by simp))
  case h_16 e => exact D.map (asEffect "pipe_len" (hvs e (by simp))) fun _ _ => trivial
  case h_17 => exact D.fail _ _
  case h_4 | h_5 | h_10 => exact D.ret (by simp [Effect.of])
  all_goals exact D.ret (by simpa [Effect.of] using hvs)

theorem performValue {r : Request} (hr : r.Obeys R) :
    D.holds (Value.Obeys R) fun _ => EffectHandlers.performValue r :=
  D.ret (Chain.obeys_perform (Effect.obeys_of hr))

theorem refusalOf (kind : RefusalClass) {vs : List Value} (hvs : ∀ v ∈ vs, v.Obeys R) :
    D.holds (Refusal.Obeys R) fun _ => EffectHandlers.refusalOf kind vs := by
  unfold EffectHandlers.refusalOf
  split
  case h_1 => exact D.ret (by simpa using hvs)
  case h_3 | h_4 | h_5 | h_6 => exact D.ret trivial
  case h_7 => exact D.map (D.text _) fun _ _ => trivial
  all_goals exact D.fail _ _

theorem fillWith (template args named : Value) :
    D.holds (Value.Obeys R) fun _ => EffectHandlers.fillWith template args named := by
  unfold EffectHandlers.fillWith
  split
  case h_1 t m =>
    refine D.bind (P := fun _ => True) (D.ofExcept fun _ _ => trivial) fun vs _ => ?_
    split
    · exact D.fail _ _
    · split
      · exact D.fail _ _
      · exact D.map (P := fun _ => True) (D.ofExcept fun _ _ => trivial) fun _ _ => trivial
  all_goals exact D.fail _ _

theorem chainOp (hcall : D.Calls call) {o : ChainOp} (ho : R.op (.chain o)) {vs : List Value}
    (hvs : ∀ v ∈ vs, v.Obeys R) :
    D.holds (Value.Obeys R) fun i => o.apply (call i) vs := by
  unfold ChainOp.apply
  split
  -- Capabilities.
  case h_1 n => exact D.map (asText "cap" n) fun _ _ => trivial
  case h_2 => exact D.map (capabilitiesOf "capset" vs) fun _ _ => trivial
  -- Chains by their constructors.
  case h_3 v caps =>
    have hv : v.Obeys R := hvs v (by simp)
    exact D.map (capabilitiesOf "Done" caps) fun _ _ => hv
  case h_4 e caps =>
    refine D.bind (asEffect "Suspended" (hvs e (by simp))) fun e he => ?_
    exact D.map (capabilitiesOf "Suspended" caps) fun r _ => ⟨R.suspended ho e r, he⟩
  -- Programs.
  case h_5 v => exact D.ret (Chain.obeys_finished (hvs v (by simp)))
  case h_6 v =>
    have hv : v.Obeys R := hvs v (by simp)
    split
    · exact D.ret (Chain.obeys_perform hv)
    · exact D.fail _ _
  case h_7 c f =>
    refine D.bind (asFunction "binder" (hvs f (by simp))) fun f hf => ?_
    refine D.bind (asChain "bind" (hvs c (by simp))) fun c hc => ?_
    exact D.map (chainBind hcall hc (b := .call f) hf rfl) fun _ hd => hd
  case h_8 c f =>
    refine D.bind (asFunction "mapper" (hvs f (by simp))) fun f hf => ?_
    refine D.bind (asChain "bind" (hvs c (by simp))) fun c hc => ?_
    exact D.map (chainBind hcall hc (b := .map f) hf rfl) fun _ hd => hd
  case h_9 c next =>
    refine D.bind (ofValue "then" (hvs next (by simp))) fun next hn => ?_
    refine D.bind (asChain "bind" (hvs c (by simp))) fun c hc => ?_
    exact D.map (chainBind hcall hc (b := .always next) hn rfl) fun _ hd => hd
  case h_10 cs =>
    refine D.bind (items (hvs cs (by simp))) fun vs hvs => ?_
    refine D.bind (chainsOf "sequence" hvs) fun cs hcs => ?_
    exact D.map (sequence hcall hcs) fun _ hd => hd
  case h_11 v => exact D.ret (hvs v (by simp))
  case h_12 v caps _ =>
    refine D.bind (asDeclaring (hvs v (by simp))) fun c hc => ?_
    exact D.map (capabilitiesOf "with_requirements" caps) fun s _ => Chain.obeys_declare hc s
  case h_13 => split <;> exact D.ret trivial
  case h_14 => split <;> exact D.ret trivial
  -- Single requests.
  case h_15 | h_17 | h_19 | h_23 => exact performValue (by simpa using hvs)
  case h_20 | h_21 => exact performValue (by simpa using hvs)
  case h_18 | h_22 => exact performValue (by simp)
  case h_16 template args named =>
    exact D.bind (fillWith template args named) fun m hm => performValue hm
  -- Parts of chains and of results.
  case h_24 v =>
    have hv : v.Obeys R := hvs v (by simp)
    split
    · exact D.ret hv
    · exact D.ret hv.1
    · exact D.fail _ _
  case h_25 v =>
    have hv : v.Obeys R := hvs v (by simp)
    split
    · exact D.ret hv.2
    · exact D.fail _ _
  case h_26 v =>
    have hv : v.Obeys R := hvs v (by simp)
    split
    · exact D.ret hv.2
    · exact D.fail _ _
  case h_27 =>
    split
    · exact D.ret trivial
    · exact D.ret trivial
    · exact D.fail _ _
  case h_28 => exact D.map (D.text _) fun _ _ => trivial
  case h_29 =>
    split
    · exact D.map (D.text _) fun _ _ => trivial
    · exact D.fail _ _
  case h_30 v role =>
    have hv : v.Obeys R := hvs v (by simp)
    split
    · exact D.ret hv
    · exact D.bind (D.text _) fun _ _ => D.fail _ _
  case h_31 kind =>
    exact D.bind (refusalOf kind hvs) fun r hr => D.map D.fresh fun _ _ => hr
  case h_32 => exact D.fail _ _

/-! ### Handlers -/

theorem newHandler {make : Nat → Handler} (h : ∀ id, (make id).Obeys R) :
    D.holds (Value.Obeys R) fun _ => EffectHandlers.newHandler make :=
  D.map D.fresh fun id _ => h id

theorem handlerOp {s : ι → Settings} (hcall : D.Calls call) {o : HandlerOp}
    (hs : o = .runChain → ∃ s', s = fun _ => s') {vs : List Value}
    (hvs : ∀ v ∈ vs, v.Obeys R) :
    D.holds (Value.Obeys R) fun i => o.apply (s i) (call i) vs := by
  unfold HandlerOp.apply
  split
  -- New handlers.
  case h_1 | h_5 | h_7 | h_9 | h_11 => exact newHandler fun _ => by simp
  case h_2 => exact newHandler fun _ => by simp [Handler.defaultLevel, Handler.defaultComponent]
  case h_3 level => exact newHandler fun _ => by simp [hvs level (by simp), Handler.defaultComponent]
  case h_4 level component =>
    exact newHandler fun _ => by simp [hvs level (by simp), hvs component (by simp)]
  case h_6 v =>
    exact D.bind (items (hvs v (by simp))) fun lines hlines =>
      newHandler fun _ => by simpa using hlines
  case h_8 t _ =>
    refine D.bind (asText "StreamConsole" t) fun text _ => ?_
    exact D.bind (D.newSource text) fun source _ => newHandler fun _ => by simp
  case h_10 v =>
    have hv : v.Obeys R := hvs v (by simp)
    split
    · exact newHandler fun _ => hv
    · exact newHandler fun _ => hv
    · split
      · exact D.fail _ _
      · exact newHandler fun _ => by simp
  case h_12 h =>
    refine D.bind (asProvider (hvs h (by simp))) fun h hh => ?_
    exact D.bind D.newJournal fun journal _ => newHandler fun _ => hh
  -- Combinations.
  case h_13 =>
    exact D.bind (handlersOf hvs) fun hs hhs => D.map (combine hhs) fun _ hh => hh
  case h_14 a b =>
    refine D.bind (asProvider (hvs a (by simp))) fun a ha => ?_
    refine D.bind (asProvider (hvs b (by simp))) fun b hb => ?_
    exact D.map (pairOf ha hb) fun _ hh => hh
  -- Runs.
  case h_15 c h =>
    obtain ⟨s', rfl⟩ := hs rfl
    refine D.bind (asChain "run" (hvs c (by simp))) fun c hc => ?_
    exact D.bind (asProvider (hvs h (by simp))) fun h hh => run s' hcall hc hh
  case h_16 c h =>
    refine D.bind (asChain "run" (hvs c (by simp))) fun c hc => ?_
    refine D.bind (asProvider (hvs h (by simp))) fun h hh => ?_
    exact D.map (checkProvided c h) fun _ _ => trivial
  -- Outcomes.
  case h_17 v o => exact D.ret ⟨hvs v (by simp), hvs o (by simp)⟩
  case h_18 v n => exact D.ret ⟨hvs v (by simp), hvs n (by simp)⟩
  case h_19 => exact D.ret trivial
  case h_20 v =>
    have hv : v.Obeys R := hvs v (by simp)
    split
    · exact D.ret hv.1
    · exact D.fail _ _
  case h_21 v =>
    have hv : v.Obeys R := hvs v (by simp)
    split
    · exact D.ret hv.2
    · exact D.fail _ _
  -- Parts of handlers.
  case h_22 v =>
    have hv : v.Obeys R := hvs v (by simp)
    split
    · exact D.ret hv.1
    · exact D.fail _ _
  case h_23 v =>
    have hv : v.Obeys R := hvs v (by simp)
    split
    · exact D.ret hv.2
    · exact D.fail _ _
  case h_24 h => exact D.map (asHandler "caps" (hvs h (by simp))) fun _ _ => trivial
  case h_25 =>
    split
    · exact D.map (D.journalEntries _) fun vs hvs => by simpa using hvs
    · exact D.fail _ _
  -- The three methods.
  case h_26 h => exact D.bind (asHandler "start" (hvs h (by simp))) fun h hh => start hcall h hh
  case h_27 h state e =>
    refine D.bind (asHandler "try_step" (hvs h (by simp))) fun h hh => ?_
    exact D.bind (asEffect "try_step" (hvs e (by simp))) fun e he =>
      offer hcall h hh (hvs state (by simp)) he
  case h_28 h state =>
    exact D.bind (asHandler "finish" (hvs h (by simp))) fun h hh =>
      finish hcall h hh (hvs state (by simp))
  case h_29 => exact D.fail _ _

end Discipline

end EffectHandlers
