/-
EffectHandlers/Proofs/Variation/Values.lean

Values that come of programs that vary.

Where two programs vary, one side has a chain with one side of a law and the
other side has one with the other side.  What is continued after that is
the same, up to variation: the same binders stand behind, and functions
have texts that vary and bindings that vary in their roles.  A chain that
has been varied always waits for an answer, because every side of a law
starts with a request.

Main statements: values that vary still do so in a larger link
(`Varied.mono`) and in a weaker role (`Varied.weaken`), and environments
that vary do so after bindings (`EnvVaried.set`, `EnvVaried.setAll`).
-/
import EffectHandlers.Proofs.Served
import EffectHandlers.Proofs.Variation

namespace EffectHandlers

/-! ### Values that vary -/

/-- The variables of a scope are bound on both sides or on neither, and those that are known to be
bound are. -/
structure Scope.Binds (Γ : Scope) (env env' : Env) : Prop where
  bound (x : String) : (Γ x).bound = true → ∃ v, env.lookup x = some v
  both (x : String) : (Γ x).role ≠ .unknown → (env.lookup x).isSome = (env'.lookup x).isSome

/-- Two values that vary in a role, one in each of two worlds. -/
inductive Varied (loose : Bool) (L : Link) : Role → Value → Value → Prop
  | unknown (v v' : Value) : Varied loose L .unknown v v'
  | plain {ρ : Role} {v v' : Value} (h : Counterpart L v v') (hρ : ρ.HasPlain) :
    Varied loose L ρ v v'
  | known {v v' : Value} (h : Counterpart L v v') : Varied loose L (.known v v') v v'
  /- Chains. -/
  | effect {e e' : Effect} (h : Counterpart L e e') (r : CapabilitySet) :
    Varied loose L .waiting (.chain (.suspended e r)) (.chain (.suspended e' r))
  | bindCall {e e' : Effect} {r : CapabilitySet} {f f' : Callable}
      (he : Varied loose L .waiting (.chain (.suspended e r)) (.chain (.suspended e' r)))
      (hf : Varied loose L .continuation (.function f) (.function f')) :
    Varied loose L .waiting (.chain (.suspended (e.map (.bind (.call f))) r))
      (.chain (.suspended (e'.map (.bind (.call f'))) r))
  | bindMap {e e' : Effect} {r : CapabilitySet} {f f' : Callable}
      (he : Varied loose L .waiting (.chain (.suspended e r)) (.chain (.suspended e' r)))
      (hf : Varied loose L .mapping (.function f) (.function f')) :
    Varied loose L .waiting (.chain (.suspended (e.map (.bind (.map f))) r))
      (.chain (.suspended (e'.map (.bind (.map f'))) r))
  | bindAlways {e e' : Effect} {r : CapabilitySet} {c c' : Chain}
      (he : Varied loose L .waiting (.chain (.suspended e r)) (.chain (.suspended e' r)))
      (hc : Varied loose L .made (.chain c) (.chain c')) :
    Varied loose L .waiting (.chain (.suspended (e.map (.bind (.always c))) r))
      (.chain (.suspended (e'.map (.bind (.always c'))) r))
  | bindGather {e e' : Effect} {r : CapabilitySet} {c c' : Chain}
      (he : Varied loose L .waiting (.chain (.suspended e r)) (.chain (.suspended e' r)))
      (hc : Varied loose L .made (.chain c) (.chain c')) :
    Varied loose L .waiting (.chain (.suspended (e.map (.bind (.gather c))) r))
      (.chain (.suspended (e'.map (.bind (.gather c'))) r))
  | bindAppend {e e' : Effect} {r : CapabilitySet} {xs xs' : List Value}
      (he : Varied loose L .waiting (.chain (.suspended e r)) (.chain (.suspended e' r)))
      (hxs : Counterpart L xs xs') :
    Varied loose L .waiting (.chain (.suspended (e.map (.bind (.append xs))) r))
      (.chain (.suspended (e'.map (.bind (.append xs'))) r))
  | declared {e e' : Effect} {r : CapabilitySet} (s : CapabilitySet)
      (he : Varied loose L .waiting (.chain (.suspended e r)) (.chain (.suspended e' r))) :
    Varied loose L .waiting (.chain (.suspended e s)) (.chain (.suspended e' s))
  | made {v v' : Value} (h : Varied loose L .waiting v v') : Varied loose L .made v v'
  | same {c c' : Chain} (h : Counterpart L c c') : Varied loose L .made (.chain c) (.chain c')
  | chain {v v' : Value} (h : Varied loose L .made v v') : Varied loose L .chain v v'
  | nil : Varied loose L .chains (.list []) (.list [])
  | cons {v v' : Value} {vs vs' : List Value} (hv : Varied loose L .chain v v')
      (hvs : Varied loose L .chains (.list vs) (.list vs')) :
    Varied loose L .chains (.list (v :: vs)) (.list (v' :: vs'))
  /- Functions. -/
  | closure {Γ : Scope} {takes : List Role} {ρ : Role} {id id' : Nat} {params : List String}
      {body body' : Expr} {env env' : Env}
      (hbody : Expr.Varies loose (Γ.setAll params takes) ρ body body') (hΓ : Γ.Binds env env')
      (henv : ∀ x v v', env.lookup x = some v → env'.lookup x = some v' →
        Varied loose L (Γ x).role v v') :
    Varied loose L (.function takes ρ) (.function (.closure id params body env))
      (.function (.closure id' params body' env'))
  | fixpoint {Γ : Scope} {takes : List Role} {ρ : Role} {id id' : Nat} {name : String}
      {params : List String} {body body' : Expr} {env env' : Env}
      (hbody : Expr.Varies loose ((Γ.set name (.function takes ρ)).setAll params takes) ρ body
        body')
      (hΓ : Γ.Binds env env')
      (henv : ∀ x v v', env.lookup x = some v → env'.lookup x = some v' →
        Varied loose L (Γ x).role v v') :
    Varied loose L (.function takes ρ) (.function (.fixpoint id name params body env))
      (.function (.fixpoint id' name params body' env'))
  | program {Γ Δ : Scope} {takes : List Role} {id id' : Nat} {requires : CapabilitySet}
      {params : List String} {body body' : Routine} {env env' : Env}
      (hscope : ∀ x, Γ.setAll params takes x ≤ Δ x) (hbody : Routine.Varies loose Δ body body')
      (hΓ : Γ.Binds env env')
      (henv : ∀ x v v', env.lookup x = some v → env'.lookup x = some v' →
        Varied loose L (Γ x).role v v') :
    Varied loose L (.function takes .chain) (.function (.program id requires params body env))
      (.function (.program id' requires params body' env'))
  | resumption {id id' : Nat} (h : Nat) (hid : L.calls id = some id') :
    Varied loose L (.function [.plain] .chain) (.function (.resumption id h))
      (.function (.resumption id' h))
  | sameFunction {takes : List Role} {gives : Role} {f f' : Callable}
      (h : Counterpart L (Value.function f) (.function f'))
      (hρ : (Role.callable takes gives).HasPlain) :
    Varied loose L (.function takes gives) (.function f) (.function f')
  | callable {takes : List Role} {gives : Role} {v v' : Value}
      (h : Varied loose L (.function takes gives) v v') :
    Varied loose L (.callable takes gives) v v'
  | builder {Γ : Scope} {takes : List Role} {id id' : Nat} {params : List String}
      {body body' : Expr} {env env' : Env} (hparams : params.length = takes.length)
      (hbody : Surely loose (Γ.setAll params takes) .made body body') (hΓ : Γ.Binds env env')
      (henv : ∀ x v v', env.lookup x = some v → env'.lookup x = some v' →
        Varied loose L (Γ x).role v v') :
    Varied loose L (.builder takes) (.function (.closure id params body env))
      (.function (.closure id' params body' env'))
  | building {takes : List Role} {v v' : Value} (h : Varied loose L (.builder takes) v v') :
    Varied loose L (.function takes .chain) v v'
  /- Handlers and results. -/
  | shipped {A A' : Handler} (h : Counterpart L A A') (hA : A.OfLibrary) :
    Varied loose L .shipped (.handler A) (.handler A')
  | served {A A' : Handler} (h : Counterpart L A A') (hA : A.OfLibrary) (hstore : A.HasStore) :
    Varied loose L .served (.handler A) (.handler A')
  | outcome {x x' o o₁ o' : Value} (hx : Counterpart L x x') (ho : o.Reordered loose o₁)
      (ho' : Counterpart L o₁ o') : Varied loose L .outcome (.result x o) (.result x' o')
  /- The laws. -/
  | modify {k k' f f' : Value} (hk : Counterpart L k k') (hf : Varied loose L .mapping f f') :
    Varied loose L .waiting (.chain (waiting (.modify k f) []))
      (.chain (waiting (.modify k' f') []))
  | modify_get_put {k k' f f' : Value} {g : Callable} (hk : Counterpart L k k')
      (hf : Varied loose L .mapping f f')
      (hg : ∀ s call x, g.applyWith s call [x] = Call.value call f' [x] >>= fun n =>
        pure (.chain (waiting (.put k' n) [.always (.finished n)]))) :
    Varied loose L .waiting (.chain (waiting (.modify k f) []))
      (.chain (waiting (.get k') [.call g]))
  | put_put {k k' v u u' : Value} {c c' : Chain} (hk : Counterpart L k k')
      (hu : Counterpart L u u') (hc : Varied loose L .made (.chain c) (.chain c')) :
    Varied loose L .waiting (.chain (waiting (.put k v) [.always (waiting (.put k u) [.always c])]))
      (.chain (waiting (.put k' u') [.always c']))
  | put_get {k k' v v' : Value} {g g' h : Callable} (hk : Counterpart L k k')
      (hv : Counterpart L v v') (hg : Varied loose L .continuation (.function g) (.function g'))
      (hh : ∀ s call x, h.applyWith s call [x] = call g' [v']) :
    Varied loose L .waiting (.chain (waiting (.put k v) [.always (waiting (.get k) [.call g])]))
      (.chain (waiting (.put k' v') [.call h]))
  | put_get_built {k k' v v' : Value} {g : Callable} {make : World → Chain} {c' : Chain}
      (hk : Counterpart L k k') (hv : Counterpart L v v')
      (hmake : ∀ s call w, ∃ n, w.fresh ≤ n ∧
        g.applyWith s call [v] w = .value (.chain (make w)) { w with fresh := n })
      (hc : ∀ w, Varied loose L .made (.chain (make w)) (.chain c')) :
    Varied loose L .waiting (.chain (waiting (.put k v) [.always (waiting (.get k) [.call g])]))
      (.chain (waiting (.put k' v') [.always c']))
  | modify_modify {k k' f f' g g' : Value} {h : Callable} (hk : Counterpart L k k')
      (hf : Varied loose L .mapping f f') (hg : Varied loose L .mapping g g')
      (hh : ∀ s call x, h.applyWith s call [x] = Call.value call f' [x] >>= fun u =>
        Call.value call g' [u]) :
    Varied loose L .waiting
      (.chain (waiting (.modify k f) [.always (waiting (.modify k g) [])]))
      (.chain (waiting (.modify k' (.function h)) []))
  | put_comm {k k' v v' j j' u u' : Value} (hloose : loose = true) (hk : Counterpart L k k')
      (hv : Counterpart L v v') (hj : Counterpart L j j') (hu : Counterpart L u u')
      (hkey : k.keyFault? = none) (hkey' : j.keyFault? = none) (hkj : k.same j = false) :
    Varied loose L .waiting (.chain (waiting (.put k v) [.always (waiting (.put j u) [])]))
      (.chain (waiting (.put j' u') [.always (waiting (.put k' v') [])]))

/-- Two environments that vary in a scope. -/
structure EnvVaried (loose : Bool) (L : Link) (Γ : Scope) (env env' : Env) : Prop
    extends Γ.Binds env env' where
  values (x : String) (v v' : Value) : env.lookup x = some v → env'.lookup x = some v' →
    Varied loose L (Γ x).role v v'

variable {loose : Bool} {L M : Link} {ρ σ : Role} {v v' : Value}

theorem Varied.mono (h : Varied loose L ρ v v') (hLM : L ≤ M) : Varied loose M ρ v v' := by
  induction h with
  | unknown v v' => exact .unknown v v'
  | plain h hρ => exact .plain (h.mono hLM) hρ
  | known h => exact .known (h.mono hLM)
  | effect h r => exact .effect (h.mono hLM) r
  | bindCall _ _ he hf => exact .bindCall he hf
  | bindMap _ _ he hf => exact .bindMap he hf
  | bindAlways _ _ he hc => exact .bindAlways he hc
  | bindGather _ _ he hc => exact .bindGather he hc
  | bindAppend _ hxs he => exact .bindAppend he (hxs.mono hLM)
  | declared s _ he => exact .declared s he
  | made _ h => exact .made h
  | same h => exact .same (h.mono hLM)
  | chain _ h => exact .chain h
  | nil => exact .nil
  | cons _ _ hv hvs => exact .cons hv hvs
  | closure hbody hΓ _ henv => exact .closure hbody hΓ henv
  | fixpoint hbody hΓ _ henv => exact .fixpoint hbody hΓ henv
  | program hscope hbody hΓ _ henv => exact .program hscope hbody hΓ henv
  | resumption h hid => exact .resumption h (hLM.calls _ _ hid)
  | sameFunction h hρ => exact .sameFunction (h.mono hLM) hρ
  | callable _ h => exact .callable h
  | builder hparams hbody hΓ _ henv => exact .builder hparams hbody hΓ henv
  | building _ h => exact .building h
  | shipped h hA => exact .shipped (h.mono hLM) hA
  | served h hA hstore => exact .served (h.mono hLM) hA hstore
  | outcome hx ho ho' => exact .outcome (hx.mono hLM) ho (ho'.mono hLM)
  | modify hk _ hf => exact .modify (hk.mono hLM) hf
  | modify_get_put hk _ hg hf => exact .modify_get_put (hk.mono hLM) hf hg
  | put_put hk hu _ hc => exact .put_put (hk.mono hLM) (hu.mono hLM) hc
  | put_get hk hv _ hh hg => exact .put_get (hk.mono hLM) (hv.mono hLM) hg hh
  | put_get_built hk hv hmake _ hc =>
    exact .put_get_built (hk.mono hLM) (hv.mono hLM) hmake hc
  | modify_modify hk _ _ hh hf hg => exact .modify_modify (hk.mono hLM) hf hg hh
  | put_comm hloose hk hv hj hu hkey hkey' hkj =>
    exact .put_comm hloose (hk.mono hLM) (hv.mono hLM) (hj.mono hLM) (hu.mono hLM) hkey hkey' hkj

namespace Varied

theorem of_isPlain (h : Varied loose L ρ v v') (hρ : ρ.IsPlain) : Counterpart L v v' := by
  cases h with
  | plain h _ => exact h
  | known h => exact h
  | shipped h _ | served h _ _ => exact h.handler
  | _ => cases hρ

theorem plain_iff : Varied loose L .plain v v' ↔ Counterpart L v v' :=
  ⟨fun h => h.of_isPlain trivial, fun h => .plain h trivial⟩

theorem weaken (h : Varied loose L ρ v v') (hρ : ρ ≤ σ) : Varied loose L σ v v' := by
  cases hρ with
  | refl => exact h
  | plain hρ hσ => exact .plain (h.of_isPlain hρ) hσ
  | waiting_made => exact .made h
  | waiting_chain => exact .chain (.made h)
  | made_chain => exact .chain h
  | known_function hσ =>
    cases h with
    | plain _ h => cases h
    | known h => exact .sameFunction h hσ
  | function_callable => exact .callable h
  | builder_function => exact .building h
  | builder_callable => exact .callable (.building h)
  | served_shipped =>
    cases h with
    | plain _ h => cases h
    | served h hA _ => exact .shipped h hA
  | unknown => exact .unknown v v'

/-- What waits for an answer is a suspended chain, which declares the same on both sides. -/
theorem waiting_cases (h : Varied loose L .waiting v v') : ∃ e e' r,
    v = .chain (.suspended e r) ∧ v' = .chain (.suspended e' r) := by
  cases h with
  | plain _ h => cases h
  | _ => exact ⟨_, _, _, rfl, rfl⟩

/-- Chains that have been made are the same, or they wait for an answer. -/
theorem made_cases (h : Varied loose L .made v v') :
    (∃ c c', v = .chain c ∧ v' = .chain c' ∧ Counterpart L c c') ∨
      Varied loose L .waiting v v' := by
  cases h with
  | plain _ h => cases h
  | made h => exact .inr h
  | same h => exact .inl ⟨_, _, rfl, rfl, h⟩

theorem made_chains (h : Varied loose L .made v v') : ∃ c c', v = .chain c ∧ v' = .chain c' := by
  obtain ⟨c, c', hc, hc', -⟩ | hwaiting := h.made_cases
  · exact ⟨c, c', hc, hc'⟩
  · obtain ⟨e, e', r, he, he'⟩ := hwaiting.waiting_cases
    exact ⟨_, _, he, he'⟩

theorem chain_cases (h : Varied loose L .chain v v') :
    Counterpart L v v' ∨ Varied loose L .waiting v v' := by
  cases h with
  | plain h _ => exact .inl h
  | chain h =>
    obtain ⟨c, c', rfl, rfl, hc⟩ | hwaiting := h.made_cases
    · exact .inl hc.chain
    · exact .inr hwaiting

/-- Chains are made, and other values are counterparts. -/
theorem of_chain {c c' : Chain} (h : Varied loose L .chain (.chain c) (.chain c')) :
    Varied loose L .made (.chain c) (.chain c') := by
  obtain h | h := h.chain_cases
  · cases Value.shape h with
    | chain hc => exact .same hc
  · exact .made h

/-- In the role of chains there are lists of chains, or counterparts. -/
theorem chains_cases (h : Varied loose L .chains v v') : Counterpart L v v' ∨
    ∃ vs vs', v = .list vs ∧ v' = .list vs' ∧ List.Forall₂ (Varied loose L .chain) vs vs' := by
  generalize hρ : Role.chains = ρ at h
  induction h with
  | plain h _ => exact .inl h
  | nil => exact .inr ⟨[], [], rfl, rfl, .nil⟩
  | @cons _ _ vs vs' hv _ _ ih =>
    obtain h | ⟨us, us', hus, hus', hvs⟩ := ih rfl
    · cases Value.shape h with
      | list hvs =>
        exact .inr ⟨_, _, rfl, rfl, .cons hv
          ((counterpart_list.mp hvs).imp fun _ _ h => .plain h trivial)⟩
    · cases hus
      cases hus'
      exact .inr ⟨_, _, rfl, rfl, .cons hv hvs⟩
  | _ => cases hρ

theorem callable_cases {takes : List Role} (h : Varied loose L (.callable takes ρ) v v') :
    (Counterpart L v v' ∧ (Role.callable takes ρ).HasPlain) ∨
      Varied loose L (.function takes ρ) v v' := by
  cases h with
  | plain h hρ => exact .inl ⟨h, hρ⟩
  | callable h => exact .inr h

/-- In the role of a function there are functions. -/
theorem function_cases {takes : List Role} (h : Varied loose L (.function takes ρ) v v') :
    ∃ f f', v = .function f ∧ v' = .function f' := by
  cases h with
  | plain _ h => cases h
  | building h =>
    cases h with
    | plain _ h => cases h
    | builder => exact ⟨_, _, rfl, rfl⟩
  | _ => exact ⟨_, _, rfl, rfl⟩

end Varied

/-! ### Chains -/

/-- Two binders that vary. -/
inductive Binder.Varied (loose : Bool) (L : Link) : Binder → Binder → Prop
  | call {f f' : Callable}
      (hf : EffectHandlers.Varied loose L .continuation (.function f) (.function f')) :
    Binder.Varied loose L (.call f) (.call f')
  | map {f f' : Callable}
      (hf : EffectHandlers.Varied loose L .mapping (.function f) (.function f')) :
    Binder.Varied loose L (.map f) (.map f')
  | always {c c' : Chain} (hc : EffectHandlers.Varied loose L .made (.chain c) (.chain c')) :
    Binder.Varied loose L (.always c) (.always c')
  | gather {c c' : Chain} (hc : EffectHandlers.Varied loose L .made (.chain c) (.chain c')) :
    Binder.Varied loose L (.gather c) (.gather c')
  | append {xs xs' : List Value} (hxs : Counterpart L xs xs') :
    Binder.Varied loose L (.append xs) (.append xs')

theorem Binder.Varied.mono {b b' : Binder} (h : b.Varied loose L b') (hLM : L ≤ M) :
    b.Varied loose M b' := by
  cases h with
  | call hf => exact .call (hf.mono hLM)
  | map hf => exact .map (hf.mono hLM)
  | always hc => exact .always (hc.mono hLM)
  | gather hc => exact .gather (hc.mono hLM)
  | append hxs => exact .append (hxs.mono hLM)

/-- What waits for an answer can be continued. -/
theorem Varied.mapBinder {e e' : Effect} {r : CapabilitySet} {b b' : Binder}
    (he : Varied loose L .waiting (.chain (.suspended e r)) (.chain (.suspended e' r)))
    (hb : b.Varied loose L b') : Varied loose L .waiting
      (.chain (.suspended (e.map (.bind b)) r)) (.chain (.suspended (e'.map (.bind b')) r)) := by
  cases hb with
  | call hf => exact .bindCall he hf
  | map hf => exact .bindMap he hf
  | always hc => exact .bindAlways he hc
  | gather hc => exact .bindGather he hc
  | append hxs => exact .bindAppend he hxs

/-! ### Environments -/

/-- Values that vary, each in its role. -/
inductive valuesVary (loose : Bool) (L : Link) : List Role → List Value → List Value → Prop
  | nil : valuesVary loose L [] [] []
  | cons {ρ : Role} {ρs : List Role} {v v' : Value} {vs vs' : List Value}
      (hv : Varied loose L ρ v v') (hvs : valuesVary loose L ρs vs vs') :
    valuesVary loose L (ρ :: ρs) (v :: vs) (v' :: vs')

theorem valuesVary.counterpart {ρs : List Role} {vs vs' : List Value}
    (h : valuesVary loose L ρs vs vs') (hρs : ∀ ρ ∈ ρs, ρ.IsPlain) : Counterpart L vs vs' := by
  induction h with
  | nil => exact .nil
  | cons hv _ ih =>
    exact .cons (hv.of_isPlain (hρs _ List.mem_cons_self))
      (ih fun ρ hρ => hρs ρ (List.mem_cons_of_mem _ hρ))

/-- Arguments of which nothing varies. -/
theorem valuesVary.counterpart_plain {es : List Expr} {vs vs' : List Value}
    (h : valuesVary loose L (es.map fun _ => .plain) vs vs') : Counterpart L vs vs' :=
  h.counterpart fun ρ hρ => by
    obtain ⟨_, -, rfl⟩ := List.mem_map.mp hρ
    trivial

/-- Lists of values in the role of chains are lists of chains. -/
theorem valuesVary.chains {α : Type} {as : List α} {vs vs' : List Value}
    (h : valuesVary loose L (as.map fun _ => .chain) vs vs') :
    Varied loose L .chains (.list vs) (.list vs') := by
  induction as generalizing vs vs' with
  | nil =>
    cases h
    exact .nil
  | cons a as ih =>
    cases h with
    | cons hv hvs => exact .cons hv (ih hvs)

namespace EnvVaried

variable {Γ Δ : Scope} {env env' : Env}

theorem mono (h : EnvVaried loose L Γ env env') (hLM : L ≤ M) : EnvVaried loose M Γ env env' :=
  { h with values := fun x v v' hv hv' => (h.values x v v' hv hv').mono hLM }

/-- Less may be known of an environment. -/
theorem weaken (h : EnvVaried loose L Γ env env') (hΓ : ∀ x, Γ x ≤ Δ x) :
    EnvVaried loose L Δ env env' where
  bound x hx := h.bound x ((hΓ x).bound hx)
  both x hx := by
    refine h.both x fun hunknown => hx ?_
    have hrole := (hΓ x).role
    rw [hunknown] at hrole
    generalize (Δ x).role = ρ at hrole
    cases hrole with
    | refl => rfl
    | plain hρ _ => cases hρ
    | unknown => rfl
  values x v v' hv hv' := (h.values x v v' hv hv').weaken (hΓ x).role

/-- What is bound on one side is bound on the other one. -/
theorem lookup (h : EnvVaried loose L Γ env env') (x : String) (hx : (Γ x).role ≠ .unknown) :
    (env.lookup x = none ∧ env'.lookup x = none) ∨ ∃ v v', env.lookup x = some v ∧
      env'.lookup x = some v' ∧ Varied loose L (Γ x).role v v' := by
  have hboth := h.both x hx
  cases hv : env.lookup x with
  | none =>
    rw [hv] at hboth
    exact .inl ⟨rfl, by simpa using hboth.symm⟩
  | some v =>
    rw [hv] at hboth
    obtain ⟨v', hv'⟩ := Option.isSome_iff_exists.mp hboth.symm
    exact .inr ⟨v, v', rfl, hv', h.values x v v' hv hv'⟩

/-- A variable that is given a value in its role. -/
theorem assign (h : EnvVaried loose L Γ env env') {x : String} {v v' : Value}
    (hv : Varied loose L (Γ x).role v v') :
    EnvVaried loose L Γ (Env.set env x v) (Env.set env' x v') where
  bound y hy := by
    rw [Env.lookup_set]
    split
    · exact ⟨v, rfl⟩
    · exact h.bound y hy
  both y hy := by
    rw [Env.lookup_set, Env.lookup_set]
    split
    · rfl
    · exact h.both y hy
  values y w w' hw hw' := by
    rw [Env.lookup_set] at hw hw'
    split at hw
    · rename_i hxy
      rw [if_pos hxy] at hw'
      cases hw
      cases hw'
      exact hxy ▸ hv
    · rename_i hxy
      rw [if_neg hxy] at hw'
      exact h.values y w w' hw hw'

theorem set (h : EnvVaried loose L Γ env env') {x : String} {v v' : Value}
    (hv : Varied loose L ρ v v') :
    EnvVaried loose L (Γ.set x ρ) (Env.set env x v) (Env.set env' x v') where
  bound y hy := by
    rw [Env.lookup_set]
    split
    · exact ⟨v, rfl⟩
    · rename_i hxy
      rw [Scope.set, Function.update_of_ne (Ne.symm hxy)] at hy
      exact h.bound y hy
  both y hy := by
    rw [Env.lookup_set, Env.lookup_set]
    split
    · rfl
    · rename_i hxy
      rw [Scope.set, Function.update_of_ne (Ne.symm hxy)] at hy
      exact h.both y hy
  values y w w' hw hw' := by
    rw [Env.lookup_set] at hw hw'
    split at hw
    · rename_i hxy
      rw [if_pos hxy] at hw'
      cases hw
      cases hw'
      rw [Scope.set, hxy, Function.update_self]
      exact hv
    · rename_i hxy
      rw [if_neg hxy] at hw'
      rw [Scope.set, Function.update_of_ne (Ne.symm hxy)]
      exact h.values y w w' hw hw'

/-- Parameters are bound on both sides, unless there are more or fewer of them than arguments. -/
theorem setAll (h : EnvVaried loose L Γ env env') (params : List String) {ρs : List Role}
    {vs vs' : List Value} (hvs : valuesVary loose L ρs vs vs') :
    Option.Rel (EnvVaried loose L (Γ.setAll params ρs)) (Env.setAll? env params vs)
      (Env.setAll? env' params vs') := by
  induction params generalizing Γ env env' ρs vs vs' with
  | nil =>
    cases hvs with
    | nil => exact .some h
    | cons => exact .none
  | cons p params ih =>
    cases hvs with
    | nil => exact .none
    | cons hv hvs => exact ih (h.set hv) hvs

end EnvVaried

end EffectHandlers
