/-
EffectHandlers/Proofs/Identity.lean

Continuing with a finished chain, and continuing a finished chain.

Lifting a value to a finished chain is the identity of binding, on both
sides.  On the left it is so exactly: a finished chain that declares nothing
is continued to what the function gives, with nothing lost or gained in its
declaration.

On the right, one more bind stage rides along at every node to the end of
the program.  It is seen nowhere: the stage is no part of what is seen of a
node, an answer goes through the node's own pipeline first, and the chain
that this comes to takes the stage over; at the end it lifts the value that
is there already.  What this needs is that every node does come to a chain,
which is true of the nodes that the library makes (`Effect.Made`).

As for associativity, both sides are first observed from one world, and then
from two, for chains that are built by steady recipes.

Main result: `bind_identity`.
-/
import EffectHandlers.Proofs.Associativity
import EffectHandlers.Proofs.Declared

namespace EffectHandlers

variable {s : Settings} {f : Callable}

/-! ### Declaring nothing -/

@[simp] theorem Chain.declare_empty (c : Chain) : c.declare ∅ = c := by
  have hunion : c.requires ∪ ∅ = c.requires := by
    apply CapabilitySet.ext
    intro a
    simp
  rw [Chain.declare, hunion]
  cases c <;> rfl

@[simp] theorem Chain.finished_declare (v : Value) (r : CapabilitySet) :
    (Chain.finished v).declare r = .done v r := by
  have hunion : (∅ : CapabilitySet) ∪ r = r := by
    apply CapabilitySet.ext
    intro a
    simp
  show Chain.done v (∅ ∪ r) = _
  rw [hunion]

/-! ### On the left -/

/-- A finished chain is continued to what the function gives for its value. -/
theorem bind_finished (hf : GivesChains s f) (v : Value) :
    ((Chain.finished v).bind (Callable.meaning s) (.call f) >>= fun c => pure (.chain c))
      = Callable.meaning s f [v] := by
  have hbind : (Chain.finished v).bind (Callable.meaning s) (.call f)
      = Callable.meaning s f [v] >>= Chain.ofValue "binder" := by
    rw [Chain.finished, Chain.bind_done]
    simp only [Chain.declare_empty, bind_pure]
    rfl
  rw [hbind, bind_assoc]
  conv_rhs => rw [← bind_pure (Callable.meaning s f [v])]
  funext w
  refine Action.bind_congr_of_value fun u w' hu => ?_
  obtain ⟨c, rfl⟩ := hf v u w w' hu
  rfl

/-! ### On the right -/

/-- The function that lifts a value to a finished chain. -/
def lifting (id : Nat) : Callable := .closure id ["x"] (.op (.chain .lift) [.var "x"]) []

theorem meaning_lifting (s : Settings) (id : Nat) (v : Value) :
    Callable.meaning s (lifting id) [v] = pure (.chain (Chain.finished v)) := by
  rw [Callable.meaning_unfold]
  rfl

/-- A chain continued with lifting. -/
noncomputable def bindLifting (s : Settings) (id : Nat) (c : Chain) : Action Chain :=
  c.bind (Callable.meaning s) (.call (lifting id))

/-- At the end, lifting gives the finished chain that is there already. -/
theorem bindLifting_done (s : Settings) (id : Nat) (v : Value) (r : CapabilitySet) :
    bindLifting s id (.done v r) = pure (.done v r) := by
  rw [bindLifting, Chain.bind_done, Binder.apply, meaning_lifting]
  simp only [pure_bind, Chain.ofValue, Chain.finished_declare]

/-- The observation of a chain does not come to anything that is no chain. -/
def EndsInChains (call : Call) (c : Chain) (answers : List Value) (w : World) : Prop :=
  ∀ v w', observe call (pure c) answers w = .value v w' → ∃ d, v = .chain d

section

variable {call : Call} {e : Effect} {r : CapabilitySet} {a : Value} {answers : List Value}

theorem observe_suspended (call : Call) (e : Effect) (r : CapabilitySet) (a : Value)
    (answers : List Value) :
    observe call (pure (.suspended e r)) (a :: answers)
      = e.resume call a >>= fun u => u.follow call answers >>= fun v => pure v.sight := by
  rw [observe, pure_bind, Value.follow_cons, bind_assoc]
  rfl

theorem observe_done (call : Call) (v : Value) (r : CapabilitySet) (answers : List Value) :
    observe call (pure (.done v r)) answers = pure (.chain (.done v r)) := by
  induction answers with
  | nil => rfl
  | cons a answers ih => exact ih

/-- What is no chain waits for nothing. -/
theorem Value.follow_other {u : Value} (hu : ∀ c, u ≠ .chain c) (answers : List Value) :
    u.follow call answers = pure u := by
  induction answers with
  | nil => rfl
  | cons a answers ih =>
    have hstays : u.answered call a = pure u := by
      cases u with
      | chain c => exact absurd rfl (hu c)
      | _ => rfl
    rw [Value.follow_cons, hstays, pure_bind, ih]

/-- If an observation comes to chains only, then so does every answer on the way. -/
theorem EndsInChains.resume {u : Value} {w w' : World}
    (h : EndsInChains call (.suspended e r) (a :: answers) w)
    (hu : e.resume call a w = .value u w') :
    ∃ d, u = .chain d ∧ EndsInChains call d answers w' := by
  rw [EndsInChains, observe_suspended, Action.bind_of_value hu] at h
  by_cases hchain : ∃ d, u = .chain d
  · obtain ⟨d, rfl⟩ := hchain
    exact ⟨d, rfl, h⟩
  · -- The observation ends here, with what is no chain.
    have hother : ∀ c, u ≠ .chain c := not_exists.mp hchain
    rw [Value.follow_other hother] at h
    obtain ⟨d, hd⟩ := h u.sight w' rfl
    cases u with
    | chain c => exact absurd rfl (hother c)
    | _ => cases hd

end

/-- Chains that the library made are answered by chains. -/
theorem endsInChains_of_made {c : Chain} {w : World} {answers : List Value}
    (hc : c.Obeys .made) (hw : w.Obeys .made) (hanswers : ∀ a ∈ answers, a.Obeys .made) :
    EndsInChains (Callable.meaning s) c answers w := by
  induction answers generalizing c w with
  | nil =>
    rintro v w' hv
    cases hv
    exact ⟨c.sight, rfl⟩
  | cons a answers ih =>
    cases c with
    | done v r =>
      rw [EndsInChains, observe_done]
      rintro u w' hu
      cases hu
      exact ⟨_, rfl⟩
    | suspended e r =>
      obtain ⟨hnode, he⟩ := hc
      obtain ⟨ha, hrest⟩ := List.forall_mem_cons.mp hanswers
      rw [EndsInChains, observe_suspended]
      intro v w'' hv
      obtain ⟨u, w', hu, hv⟩ := Action.bind_eq_value.mp hv
      obtain ⟨d, rfl⟩ := hnode.endsInChain.resume hu
      have habides := Discipline.resume (abiding_meaning Regime.made_call s) he ha
      obtain ⟨hd, hw'⟩ := Abiding.of_value habides hw hu
      exact ih hd hw' hrest v w'' hv

/-- **The stage that lifts is seen nowhere**, whatever the answers are, as long as they lead to
chains. -/
theorem observe_bindLifting (s : Settings) (id : Nat) {c : Chain} {w : World}
    {answers : List Value} (hends : EndsInChains (Callable.meaning s) c answers w) :
    observe (Callable.meaning s) (bindLifting s id c) answers w
      = observe (Callable.meaning s) (pure c) answers w := by
  induction answers generalizing c w with
  | nil =>
    cases c with
    | done v r => rw [bindLifting_done]
    | suspended e r => rfl
  | cons a answers ih =>
    cases c with
    | done v r => rw [bindLifting_done]
    | suspended e r =>
      have hresume : (e.map (.bind (.call (lifting id)))).resume (Callable.meaning s) a
          = e.resume (Callable.meaning s) a >>= fun u => u.asChain "bind" >>= fun c =>
            bindLifting s id c >>= fun d => pure (.chain d) := by
        simp only [Effect.resume_map, Stage.apply_bind, bindLifting]
      rw [observe_continued (bindLifting s id) (r := r) rfl hresume, observe_suspended]
      refine Action.bind_congr_of_value fun u w' hu => ?_
      -- The node comes to a chain, and that chain takes the stage over.
      obtain ⟨d, rfl, hd⟩ := hends.resume hu
      exact ih hd

/-! ### The laws -/

variable {L : Sameness s} {b : World}

/-- Lifting depends on nothing but its argument. -/
theorem lifting_steady (L : Sameness s) (b : World) (id : Nat) : (lifting id).Steady L b := by
  intro w u x y _ _ hxy
  rw [meaning_lifting, meaning_lifting]
  exact .ret (.chain (Sameness.behaves_done hxy ∅))

/-- **Identity of binding.**  A finished chain that declares nothing is continued to the very chain
that the function gives.  A chain and the chain continued with lifting show the same whatever they
are answered, to the end or to the failure that ends it: exactly so from one and the same world; and
so again, as far as can be told apart, if the chain is built by a steady recipe and one side is
observed in one world and the other side in another one, whatever has been done with the chain
before.  The answers must not lead to what is no chain; they do not when everything was made with
the constructors of the library. -/
theorem bind_identity (s : Settings) (id : Nat) :
    (∀ (f : Callable) (v : Value), GivesChains s f →
      ((Chain.finished v).bind (Callable.meaning s) (.call f) >>= fun c => pure (.chain c))
        = Callable.meaning s f [v]) ∧
    (∀ (p : Recipe) (w w₀ z : World) (c : Chain) (answers : List Value), p.Obeys .made →
      w.Obeys .made → p.build (Callable.meaning s) w = .value c w₀ → z.Obeys .made →
      (∀ a ∈ answers, a.Obeys .made) → EndsInChains (Callable.meaning s) c answers z) ∧
    (∀ (c : Chain) (w : World) (answers : List Value),
      EndsInChains (Callable.meaning s) c answers w →
      observe (Callable.meaning s) (bindLifting s id c) answers w
        = observe (Callable.meaning s) (pure c) answers w) ∧
    ∀ (L : Sameness s) (b w w₀ z z' : World) (p : Recipe) (c : Chain) (ts ts' : List Track)
      (answers answers' : List Value), p.Steady L b → Kept s w → b.Grows w →
      p.build (Callable.meaning s) w = .value c w₀ → Family s c w₀ z ts →
      Family s c w₀ z' ts' → L.All z answers z' answers' →
      EndsInChains (Callable.meaning s) c answers' z' →
      (observe (Callable.meaning s) (bindLifting s id c) answers z).Alike
        (fun w v u v' => L.Seems w u v v')
        (observe (Callable.meaning s) (pure c) answers' z') := by
  refine ⟨fun f v hf => bind_finished hf v, ?_, fun c w answers => observe_bindLifting s id, ?_⟩
  · intro p w w₀ z c answers hp hw hbuild hz hanswers
    have hc := (Discipline.build (abiding_meaning Regime.made_call s) hp).of_value hw hbuild
    exact endsInChains_of_made hc.1 hz hanswers
  · intro L b w w₀ z z' p c ts ts' answers answers' hp hw hbw hbuild hz hz' hall hends
    rw [← observe_bindLifting s id hends]
    -- Now both sides have the stage, and the chain behaves like itself.
    obtain ⟨w, rfl⟩ := Known.exists_of_kept hw
    obtain ⟨v, c', u, rfl, hu, hv, hwu, hcc⟩ := (hp w w hbw hbw).build_concurs.of_value hbuild
    rw [hbuild] at hu
    obtain ⟨rfl, huv⟩ := Outcome.value.inj hu
    obtain ⟨v', rfl, hv'⟩ := hz.leads
    obtain ⟨u', rfl, hu'⟩ := Family.leads (huv ▸ hz')
    refine Sameness.observe_alike ((hcc.later hv' hu').bind ?_) hall
    exact (lifting_steady L b id).continues ((hbw.trans hv.grows).trans hv'.grows)
      ((hbw.trans hwu.grows).trans hu'.grows)

/-- Adding to the counter after a finished chain; and a program that makes two requests, continued
with lifting and observed at once, while the program alone is observed after it has been answered
already. -/
theorem bind_identity_recount : ∃ (e : Effect) (r : CapabilitySet) (v : Value) (w w' : World),
    recountRecipe.build (Callable.meaning ⟨false, 10⟩) (.initial "") = .value (.suspended e r) w ∧
    e.resume (Callable.meaning ⟨false, 10⟩) (.int 7) w = .value v w' ∧
    ((Chain.finished (.int 3)).bind (Callable.meaning ⟨false, 10⟩) (.call tickArgument) >>=
      fun c => pure (.chain c)) = Callable.meaning ⟨false, 10⟩ tickArgument [.int 3] ∧
    observe (Callable.meaning ⟨false, 10⟩) (bindLifting ⟨false, 10⟩ 1 (.suspended e r))
        [.int 2, .int 4, .int 8] w
      = observe (Callable.meaning ⟨false, 10⟩) (pure (.suspended e r)) [.int 2, .int 4, .int 8] w ∧
    (observe (Callable.meaning ⟨false, 10⟩) (bindLifting ⟨false, 10⟩ 1 (.suspended e r))
        [.int 2, .int 4, .int 8] w).Alike
      (fun w v u v' => (Sameness.data (adders ⟨false, 10⟩)).Seems w u v v')
      (observe (Callable.meaning ⟨false, 10⟩) (pure (.suspended e r)) [.int 2, .int 4, .int 8]
        w') := by
  have hkept : Kept ⟨false, 10⟩ (World.initial "") := kept_initial _ ""
  have hinitial := World.obeys_initial .made ""
  have hcalls := abiding_meaning Regime.made_call ⟨false, 10⟩
  obtain ⟨e, r, c, w, w', hbuild, hresume⟩ := recountRecipe_answered ⟨false, 10⟩ 7
  obtain ⟨hc, hw⟩ := Abiding.of_value (Discipline.build hcalls recountRecipe_obeys) hinitial hbuild
  have hanswer : (Value.int 7).Obeys .made := trivial
  have hw' := (Abiding.of_value (Discipline.resume hcalls hc.2 hanswer) hw hresume).2
  have hbegun : Family ⟨false, 10⟩ (.suspended e r) w w [] := .none
  have hresumed := hbegun.resume e (.int 7) (congrArg Outcome.world? hresume)
  obtain ⟨hleft, hmade, hsame, halike⟩ := bind_identity ⟨false, 10⟩ 1
  have hanswers : ∀ a ∈ [Value.int 2, .int 4, .int 8], a.Obeys .made := by simp
  have hends (z : World) (hz : z.Obeys .made) : EndsInChains (Callable.meaning ⟨false, 10⟩)
      (.suspended e r) [.int 2, .int 4, .int 8] z :=
    hmade recountRecipe (.initial "") w z _ _ recountRecipe_obeys hinitial hbuild hz hanswers
  refine ⟨e, r, .chain c, w, w', hbuild, hresume, hleft _ _ (tickArgument_givesChains _),
    hsame _ _ _ (hends w hw), ?_⟩
  refine halike (.data _) (.initial "") _ _ _ _ recountRecipe _ _ _ _ _
    (recountRecipe_steady _ _) hkept (.refl _) hbuild hbegun hresumed ?_ (hends w' hw')
  exact .cons (.int 2) (.cons (.int 4) (.cons (.int 8) .nil))

end EffectHandlers
