/-
EffectHandlers/Proofs/Recipe.lean

How chains are built.

A recipe builds a chain with the constructors of the library, one after the
other.  What it goes on with may use every chain that was built so far, also
more than once and also inside functions, bindings and arguments.

Two recipes, followed in worlds of their own, are alike (`Recipe.Alike`) if
they use the same constructors on chains that behave alike and on values and
functions that are alike.  A recipe is steady if it is like itself in all
worlds from some world on: then its functions and routines depend on nothing
but what they are given.

Main result: recipes that are alike build chains that behave alike
(`Recipe.Alike.build_concurs`).
-/
import EffectHandlers.Proofs.Concurrence

namespace EffectHandlers

variable {s : Settings}

/-! ### Recipes -/

/-- One use of a constructor of the library. -/
inductive Making
  | finished (v : Value)
  | perform (e : Effect)
  | bind (c : Chain) (f : Callable)
  | fmap (c : Chain) (f : Callable)
  | andThen (c next : Chain)
  | sequence (cs : List Chain)
  | declare (c : Chain) (caps : CapabilitySet)
  | program (id : Nat) (caps : CapabilitySet) (params : List String) (body : Routine) (env : Env)
    (args : List Value)

/-- The chain that a constructor makes. -/
def Making.make (call : Call) : Making → Action Chain
  | .finished v => pure (Chain.finished v)
  | .perform e => pure (Chain.perform e)
  | .bind c f => c.bind call (.call f)
  | .fmap c f => c.fmap call f
  | .andThen c next => c.andThen call next
  | .sequence cs => Chain.sequence call cs
  | .declare c caps => pure (c.declare caps)
  | .program id caps params body env args => do
    Chain.ofValue "program" (← call (.program id caps params body env) args)

/-- Constructors of the library, one after the other, each given the chains that were made
before. -/
inductive Recipe
  | done (c : Chain)
  | make (m : Making) (next : Chain → Recipe)

/-- The chain that a recipe comes to. -/
def Recipe.build (call : Call) : Recipe → Action Chain
  | .done c => pure c
  | .make m next => do (next (← m.make call)).build call

/-! ### Recipes that are alike -/

/-- The same constructor on chains that behave alike, on values that are alike, and on functions
and routines that, given what is alike, come to what is alike. -/
inductive Making.Alike (L : Sameness s) (w : Known s) : Making → Known s → Making → Prop
  | finished {v v' : Value} {u : Known s} (value : L.same w v u v') :
      Alike L w (.finished v) u (.finished v')
  | perform {e e' : Effect} {u : Known s} (effect : L.same w (.effect e) u (.effect e')) :
      Alike L w (.perform e) u (.perform e')
  | bind {c c' : Chain} {f g : Callable} {u : Known s} (chain : L.Behaves w c u c')
      (function : ∀ w' u' x y, w.Later w' → u.Later u' → L.same w' x u' y →
        Concurs L.Behaves.Ends w' (Callable.meaning s f [x]) u' (Callable.meaning s g [y])) :
      Alike L w (.bind c f) u (.bind c' g)
  | fmap {c c' : Chain} {f g : Callable} {u : Known s} (chain : L.Behaves w c u c')
      (function : ∀ w' u' x y, w.Later w' → u.Later u' → L.same w' x u' y →
        Concurs (fun w v u v' => L.same w v u v') w' (Callable.meaning s f [x]) u'
          (Callable.meaning s g [y])) :
      Alike L w (.fmap c f) u (.fmap c' g)
  | andThen {c c' next next' : Chain} {u : Known s} (chain : L.Behaves w c u c')
      (second : L.Behaves w next u next') : Alike L w (.andThen c next) u (.andThen c' next')
  | sequence {cs cs' : List Chain} {u : Known s} (chains : L.Behave w cs u cs') :
      Alike L w (.sequence cs) u (.sequence cs')
  | declare {c c' : Chain} {caps : CapabilitySet} {u : Known s} (chain : L.Behaves w c u c') :
      Alike L w (.declare c caps) u (.declare c' caps)
  | program {id id' : Nat} {caps : CapabilitySet} {params params' : List String}
      {body body' : Routine} {env env' : Env} {args args' : List Value} {u : Known s}
      (arity : (Env.setAll? env params args).isSome = (Env.setAll? env' params' args').isSome)
      (routine : ∀ env₁ env₁', Env.setAll? env params args = some env₁ →
        Env.setAll? env' params' args' = some env₁' → L.Begins w body env₁ u body' env₁') :
      Alike L w (.program id caps params body env args) u
        (.program id' caps params' body' env' args')

/-- Recipes that use constructors alike, and go on alike whenever that is done. -/
inductive Recipe.Alike (L : Sameness s) : Known s → Recipe → Known s → Recipe → Prop
  | done {w u : Known s} {c c' : Chain} (chain : L.Behaves w c u c') :
      Alike L w (.done c) u (.done c')
  | make {w u : Known s} {m m' : Making} {next next' : Chain → Recipe}
      (first : m.Alike L w u m')
      (goOn : ∀ w' u' c c', w.Later w' → u.Later u' → L.Behaves w' c u' c' →
        Alike L w' (next c) u' (next' c')) :
      Alike L w (.make m next) u (.make m' next')

/-- A recipe whose functions and routines depend on nothing but what they are given, in all worlds
not earlier than `b`. -/
def Recipe.Steady (L : Sameness s) (b : World) (p : Recipe) : Prop :=
  ∀ w u : Known s, b.Grows w → b.Grows u → p.Alike L w u p

/-! ### Building -/

section

variable {L : Sameness s} {w u : Known s}

/-- Constructors that are used alike make chains that behave alike. -/
theorem Making.Alike.make_concurs {m m' : Making} (h : m.Alike L w u m') :
    Concurs L.Behaves w (m.make (Callable.meaning s)) u (m'.make (Callable.meaning s)) := by
  cases h with
  | finished value => exact .ret (Sameness.behaves_done value ∅)
  | perform effect => exact .ret (Sameness.behaves_perform effect)
  | bind chain function => exact chain.bind (Sameness.continues_call function)
  | fmap chain function => exact chain.bind (Sameness.continues_map function)
  | andThen chain second => exact chain.bind (Sameness.continues_always second)
  | sequence chains => exact chains.sequence
  | declare chain => exact .ret (chain.declare _)
  | program arity routine =>
    refine (Sameness.program_concurs arity routine).bind fun w' v u' v' _ _ hv => ?_
    exact Sameness.ofValue_concurs "program" hv

/-- **Recipes that are alike build chains that behave alike.** -/
theorem Recipe.Alike.build_concurs {p p' : Recipe} (h : p.Alike L w u p') :
    Concurs L.Behaves w (p.build (Callable.meaning s)) u (p'.build (Callable.meaning s)) := by
  induction h with
  | done chain => exact .ret chain
  | make first _ ih =>
    exact first.make_concurs.bind fun w' c u' c' hw hu hc => ih w' u' c c' hw hu hc

end

end EffectHandlers
