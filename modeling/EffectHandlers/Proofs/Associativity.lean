/-
EffectHandlers/Proofs/Associativity.lean

Continuing a chain twice.

A chain is observed by answering it: `Value.follow` feeds a list of answers,
one after the other, and `Chain.sight` shows of the chain that is reached
whether it is finished, its value or its request, and what it declares.  It
does not show the pipeline, which is how the chain goes on.

The two sides of the law of associativity hold different pipelines at every
step: two bind stages on one side, one stage with the composed function on
the other one.  They stay related in this way as long as the first chain is
under way; when its value reaches the first function, the chain that this
gives is continued by the second one on both sides, and from then on the two
sides are the same chain (`observe_bindBoth`).

So far both sides are observed from one and the same world.  If the chain is
built by a steady recipe it behaves like itself in all later worlds, so one
side can also be observed after the other one, and after whatever else was
done with the chain.

Main result: `bind_associative`.
-/
import EffectHandlers.Proofs.Interleaving
import EffectHandlers.Proofs.Sequencing

namespace EffectHandlers

/-! ### Observing a chain -/

/-- What can be seen of a chain: everything but the pipeline of its effect. -/
def Chain.sight : Chain → Chain
  | .done v r => .done v r
  | .suspended e r => .suspended (.of e.request) r

/-- What can be seen of a value that may be a chain. -/
def Value.sight : Value → Value
  | .chain c => .chain c.sight
  | v => v

/-- Answer what a value waits for.  What waits for nothing stays. -/
def Value.answered (call : Call) (v answer : Value) : Action Value :=
  match v with
  | .chain (.suspended e _) => e.resume call answer
  | v => pure v

/-- Answers one after the other. -/
def Value.follow (call : Call) (v : Value) (answers : List Value) : Action Value :=
  answers.foldlM (Value.answered call) v

theorem Value.follow_cons (call : Call) (v a : Value) (answers : List Value) :
    v.follow call (a :: answers) = v.answered call a >>= fun u => u.follow call answers := rfl

/-- Answer a chain that an action makes, and look at what is reached. -/
def observe (call : Call) (x : Action Chain) (answers : List Value) : Action Value :=
  x >>= fun c => (Value.chain c).follow call answers >>= fun v => pure v.sight

/-! ### Declarations -/

theorem Chain.declare_declare (c : Chain) (r q : CapabilitySet) :
    (c.declare q).declare r = c.declare (q ∪ r) := by
  have hunion : c.requires ∪ q ∪ r = c.requires ∪ (q ∪ r) := by
    apply CapabilitySet.ext
    intro a
    simp [or_assoc]
  cases c <;> simp [Chain.declare, Chain.setRequires, Chain.requires] at hunion ⊢ <;> exact hunion

/-- A chain declares the same before it is continued and after. -/
theorem Chain.bind_declare (call : Call) (c : Chain) (r : CapabilitySet) (b : Binder) :
    (c.declare r).bind call b = c.bind call b >>= fun d => pure (d.declare r) := by
  cases c with
  | done v q =>
    show (b.apply call v >>= fun d => pure (d.declare (q ∪ r))) = _
    rw [bind_done, bind_assoc]
    simp only [pure_bind, declare_declare]
  | suspended e q => rfl

/-! ### The two sides -/

/-- The function that applies one function and continues what it gives with another one. -/
def composed (id : Nat) (f g : Callable) : Callable :=
  .closure id ["x"] (.op (.chain .bind) [.op (.data .call) [.var "f", .var "x"], .var "g"])
    [("f", .function f), ("g", .function g)]

section

variable {s : Settings} {f g : Callable}

theorem meaning_composed (id : Nat) (v : Value) :
    Callable.meaning s (composed id f g) [v]
      = Callable.meaning s f [v] >>= fun u => u.asChain "bind" >>= fun c =>
        c.bind (Callable.meaning s) (.call g) >>= fun d => pure (.chain d) := by
  rw [Callable.meaning_unfold]
  show (Callable.meaning s f [v] >>= fun u => pure [u, .function g]) >>=
    ChainOp.apply (Callable.meaning s) .bind = _
  rw [bind_assoc]
  rfl

/-- The first chain continued by both functions, one after the other. -/
noncomputable def bindBoth (s : Settings) (f g : Callable) (c : Chain) : Action Chain :=
  c.bind (Callable.meaning s) (.call f) >>= fun d => d.bind (Callable.meaning s) (.call g)

/-- The first chain continued by the composed function. -/
noncomputable def bindComposed (s : Settings) (id : Nat) (f g : Callable) (c : Chain) :
    Action Chain :=
  c.bind (Callable.meaning s) (.call (composed id f g))

/-- A function that gives a chain, or fails. -/
def GivesChains (s : Settings) (f : Callable) : Prop :=
  ∀ v u w w', Callable.meaning s f [v] w = .value u w' → ∃ c, u = .chain c

/-- Once the first chain is finished, both sides make the same chain. -/
theorem bindBoth_done (hf : GivesChains s f) (id : Nat) (v : Value) (r : CapabilitySet) :
    bindBoth s f g (.done v r) = bindComposed s id f g (.done v r) := by
  funext w
  rw [bindBoth, bindComposed, Chain.bind_done, Chain.bind_done, Binder.apply, Binder.apply,
    meaning_composed]
  simp only [bind_assoc]
  refine Action.bind_congr_of_value fun u w' hu => ?_
  obtain ⟨c, rfl⟩ := hf v u w w' hu
  show (c.declare r).bind (Callable.meaning s) (.call g) w' = _
  rw [Chain.bind_declare]
  simp only [Value.asChain, Chain.ofValue, pure_bind]

theorem Stage.apply_bind (call : Call) (b : Binder) :
    (Stage.bind b).apply call = fun u => u.asChain "bind" >>= fun c =>
      c.bind call b >>= fun d => pure (.chain d) := by
  funext u
  cases u <;> rfl

/-- If a chain is continued, an answer goes through its own pipeline first. -/
theorem observe_continued {call : Call} (continued : Chain → Action Chain) {e e' : Effect}
    {r : CapabilitySet} {a : Value}
    (hpending : continued (.suspended e r) = pure (.suspended e' r))
    (hresume : e'.resume call a = e.resume call a >>= fun u => u.asChain "bind" >>= fun c =>
      continued c >>= fun d => pure (.chain d)) (answers : List Value) :
    observe call (continued (.suspended e r)) (a :: answers)
      = e.resume call a >>= fun u => u.asChain "bind" >>= fun c =>
        observe call (continued c) answers := by
  rw [observe, hpending, pure_bind, Value.follow_cons]
  show (e'.resume call a >>= fun u => u.follow call answers) >>= _ = _
  rw [hresume]
  simp only [bind_assoc, pure_bind, observe]

/-- **Both sides show the same**, whatever the answers are. -/
theorem observe_bindBoth (hf : GivesChains s f) (id : Nat) (c : Chain) (answers : List Value) :
    observe (Callable.meaning s) (bindBoth s f g c) answers
      = observe (Callable.meaning s) (bindComposed s id f g c) answers := by
  induction answers generalizing c with
  | nil =>
    cases c with
    | done v r => rw [bindBoth_done hf]
    | suspended e r => rfl
  | cons a answers ih =>
    cases c with
    | done v r => rw [bindBoth_done hf]
    | suspended e r =>
      have hboth : ((e.map (.bind (.call f))).map (.bind (.call g))).resume (Callable.meaning s) a
          = e.resume (Callable.meaning s) a >>= fun u => u.asChain "bind" >>= fun c =>
            bindBoth s f g c >>= fun d => pure (.chain d) := by
        simp only [Effect.resume_map, Stage.apply_bind, bindBoth, bind_assoc, pure_bind]
        rfl
      have hcomposed : (e.map (.bind (.call (composed id f g)))).resume (Callable.meaning s) a
          = e.resume (Callable.meaning s) a >>= fun u => u.asChain "bind" >>= fun c =>
            bindComposed s id f g c >>= fun d => pure (.chain d) := by
        simp only [Effect.resume_map, Stage.apply_bind, bindComposed]
      rw [observe_continued (bindBoth s f g) (r := r) rfl hboth,
        observe_continued (bindComposed s id f g) (r := r) rfl hcomposed]
      simp only [ih]

end

/-! ### Observing chains that behave alike -/

namespace Sameness

variable {s : Settings} {L : Sameness s} {w u : Known s}

theorem answered_concurs {v v' a a' : Value} (h : L.Behaves.Ends w v u v')
    (ha : L.same w a u a') :
    Concurs L.Behaves.Ends w (v.answered (Callable.meaning s) a) u
      (v'.answered (Callable.meaning s) a') := by
  cases h with
  | other left right type =>
    have hstays (v a : Value) (hv : ∀ c, v ≠ .chain c) :
        v.answered (Callable.meaning s) a = pure v := by
      cases v with
      | chain c => exact absurd rfl (hv c)
      | _ => rfl
    rw [hstays v a left, hstays v' a' right]
    exact .ret (.other left right type)
  | @chain c c' _ hcc' =>
    have hunfolds := hcc'.unfolds
    match c, c', hunfolds with
    | .done x r, .done y _, _ => exact .ret (.chain hcc')
    | .suspended e r, .suspended e' _, ⟨_, _, hresume⟩ =>
      exact hresume w u a a' (.refl w) (.refl u) ha

/-- Answers that are alike lead to what behaves alike. -/
theorem follow_concurs {v v' : Value} {as bs : List Value} (h : L.Behaves.Ends w v u v')
    (hall : L.All w as u bs) :
    Concurs L.Behaves.Ends w (v.follow (Callable.meaning s) as) u
      (v'.follow (Callable.meaning s) bs) := by
  induction as generalizing w u v v' bs with
  | nil =>
    cases hall
    exact .ret h
  | cons a as ih =>
    cases hall with
    | @cons _ a' _ bs ha hall =>
      rw [Value.follow_cons, Value.follow_cons]
      refine (answered_concurs h ha).bind fun w' x u' x' hw hu hx => ?_
      exact ih hx (Likeness.All.grow hall hw.grows hu.grows)

theorem Seems.sight {w u : World} {v v' : Value} (h : L.Seems w u v v') :
    L.Seems w u v.sight v'.sight := by
  cases h with
  | done value => exact .done value
  | waiting request => exact .waiting request
  | other left right type =>
    have hsight (v : Value) (hv : ∀ c, v ≠ .chain c) : v.sight = v := by
      cases v with
      | chain c => exact absurd rfl (hv c)
      | _ => rfl
    rw [hsight v left, hsight v' right]
    exact .other left right type

/-- Chains that behave alike look alike after answers that are alike. -/
theorem observe_alike {x y : Action Chain} {as bs : List Value} (h : Concurs L.Behaves w x u y)
    (hall : L.All w as u bs) :
    (observe (Callable.meaning s) x as w).Alike (fun w v u v' => L.Seems w u v v')
      (observe (Callable.meaning s) y bs u) := by
  have hsights : Concurs (fun w v u v' => L.Seems w u v v') w
      (observe (Callable.meaning s) x as) u (observe (Callable.meaning s) y bs) := by
    refine h.bind fun w' c u' c' hw hu hc => ?_
    refine (follow_concurs (.chain hc) (Likeness.All.grow hall hw.grows hu.grows)).bind ?_
    exact fun _ _ _ _ _ _ hv => .ret (Ends.seems hv).sight
  refine Outcome.Alike.mono hsights ?_
  rintro _ v _ v' ⟨y, y', rfl, rfl, -, -, hseems⟩
  exact hseems

end Sameness

/-! ### The law -/

section

variable {s : Settings} {L : Sameness s} {b : World}

/-- A function that depends on nothing but its argument, in all worlds not earlier than `b`: given
arguments that are alike, it comes to chains that behave alike or to other values of one type, or
fails alike. -/
def Callable.Steady (L : Sameness s) (b : World) (f : Callable) : Prop :=
  ∀ (w u : Known s) (x y : Value), b.Grows w → b.Grows u → L.same w x u y →
    Concurs L.Behaves.Ends w (Callable.meaning s f [x]) u (Callable.meaning s f [y])

theorem Callable.Steady.continues {f : Callable} (hf : f.Steady L b) {w u : Known s}
    (hw : b.Grows w) (hu : b.Grows u) : L.Continues w (.call f) u (.call f) :=
  Sameness.continues_call fun w' u' x y hw' hu' hxy =>
    hf w' u' x y (hw.trans hw'.grows) (hu.trans hu'.grows) hxy

/-- **Associativity of binding.**  A chain that is continued by two functions, one after the other,
and the chain continued by the one function that does both show the same whatever they are answered,
to the end or to the failure that ends it: exactly so from one and the same world; and so again,
as far as can be told apart, if the chain is built by a steady recipe and the functions depend on
nothing but their arguments, and one side is observed in one world and the other side in another
one, whatever has been done with the chain before. -/
theorem bind_associative (s : Settings) (f g : Callable) (id : Nat) (hchains : GivesChains s f) :
    (∀ (c : Chain) (answers : List Value),
      observe (Callable.meaning s) (bindBoth s f g c) answers
        = observe (Callable.meaning s) (bindComposed s id f g c) answers) ∧
    ∀ (L : Sameness s) (b w w₀ z z' : World) (p : Recipe) (c : Chain) (ts ts' : List Track)
      (answers answers' : List Value), p.Steady L b → f.Steady L b → g.Steady L b → Kept s w →
      b.Grows w → p.build (Callable.meaning s) w = .value c w₀ → Family s c w₀ z ts →
      Family s c w₀ z' ts' → L.All z answers z' answers' →
      (observe (Callable.meaning s) (bindBoth s f g c) answers z).Alike
        (fun w v u v' => L.Seems w u v v')
        (observe (Callable.meaning s) (bindComposed s id f g c) answers' z') := by
  refine ⟨observe_bindBoth hchains id, ?_⟩
  intro L b w w₀ z z' p c ts ts' answers answers' hp hf hg hw hbw hbuild hz hz' hall
  obtain ⟨w, rfl⟩ := Known.exists_of_kept hw
  -- The chain behaves like itself, also after different things were done with it.
  obtain ⟨v, c', u, rfl, hu, hv, hwu, hc⟩ := (hp w w hbw hbw).build_concurs.of_value hbuild
  rw [hbuild] at hu
  obtain ⟨rfl, huv⟩ := Outcome.value.inj hu
  have hbv := hbw.trans hv.grows
  have hbu := hbw.trans hwu.grows
  obtain ⟨v', rfl, hv'⟩ := hz.leads
  obtain ⟨u', rfl, hu'⟩ := Family.leads (huv ▸ hz')
  have hbv' := hbv.trans hv'.grows
  have hbu' := hbu.trans hu'.grows
  rw [← observe_bindBoth hchains id c answers']
  refine Sameness.observe_alike ?_ hall
  refine ((hc.later hv' hu').bind (hf.continues hbv' hbu')).bind fun x d y d' hx hy hd => ?_
  exact hd.bind (hg.continues (hbv'.trans hx.grows) (hbu'.trans hy.grows))

end

/-! ### Adding three times -/

variable {s : Settings}

theorem meaning_tickArgument (s : Settings) (x : Value) :
    Callable.meaning s tickArgument [x] = pure (.chain (.perform (.of (.tick x)))) := by
  rw [Callable.meaning_unfold]
  rfl

theorem tickArgument_givesChains (s : Settings) : GivesChains s tickArgument := by
  intro v u w w' h
  rw [meaning_tickArgument] at h
  cases h
  exact ⟨_, rfl⟩

theorem tickArgument_steady (F : Counterparts s) (b : World) :
    tickArgument.Steady (Sameness.data F) b := by
  intro w u x y _ _ hxy
  rw [meaning_tickArgument, meaning_tickArgument]
  exact .ret (.chain (Sameness.behaves_perform (data_tick hxy)))

/-- A program that makes two requests is continued by two functions that make one each.  One side
is observed at once, and the other one after the chain has been answered already. -/
theorem bind_associative_recount : ∃ (e : Effect) (r : CapabilitySet) (v : Value) (w w' : World),
    recountRecipe.build (Callable.meaning ⟨false, 10⟩) (.initial "") = .value (.suspended e r) w ∧
    e.resume (Callable.meaning ⟨false, 10⟩) (.int 7) w = .value v w' ∧
    observe (Callable.meaning ⟨false, 10⟩) (bindBoth ⟨false, 10⟩ tickArgument tickArgument
      (.suspended e r)) [.int 2, .int 4, .int 8, .int 16]
    = observe (Callable.meaning ⟨false, 10⟩) (bindComposed ⟨false, 10⟩ 1 tickArgument tickArgument
      (.suspended e r)) [.int 2, .int 4, .int 8, .int 16] ∧
    (observe (Callable.meaning ⟨false, 10⟩) (bindBoth ⟨false, 10⟩ tickArgument tickArgument
      (.suspended e r)) [.int 2, .int 4, .int 8, .int 16] w).Alike
      (fun w v u v' => (Sameness.data (adders ⟨false, 10⟩)).Seems w u v v')
      (observe (Callable.meaning ⟨false, 10⟩) (bindComposed ⟨false, 10⟩ 1 tickArgument tickArgument
        (.suspended e r)) [.int 2, .int 4, .int 8, .int 16] w') := by
  have hkept : Kept ⟨false, 10⟩ (World.initial "") := kept_initial _ ""
  obtain ⟨e, r, c, w, w', hbuild, hresume⟩ := recountRecipe_answered ⟨false, 10⟩ 7
  have hbegun : Family ⟨false, 10⟩ (.suspended e r) w w [] := .none
  have hresumed := hbegun.resume e (.int 7) (congrArg Outcome.world? hresume)
  have hlaw := bind_associative ⟨false, 10⟩ tickArgument tickArgument 1
    (tickArgument_givesChains _)
  refine ⟨e, r, .chain c, w, w', hbuild, hresume, hlaw.1 _ _, ?_⟩
  refine hlaw.2 (.data _) (.initial "") _ _ _ _ recountRecipe _ _ _ _ _
    (recountRecipe_steady _ _) (tickArgument_steady _ _) (tickArgument_steady _ _) hkept
    (.refl _) hbuild hbegun hresumed ?_
  exact .cons (.int 2) (.cons (.int 4) (.cons (.int 8) (.cons (.int 16) .nil)))

end EffectHandlers
