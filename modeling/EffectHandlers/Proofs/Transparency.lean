/-
EffectHandlers/Proofs/Transparency.lean

Replay cannot be noticed.

A session with a program calls it once and then resumes the nodes that it
has obtained: any of them, in any order, with any answers, the same node
again, an older one after a newer one, and whether or not a resumption
fails.  The same is done with the reference (`Session`).

Main result: for a determinate routine every operation of every session has
outcomes that look the same on both sides (`replay_transparent`).
-/
import EffectHandlers.Proofs.Correspondence

namespace EffectHandlers

open Reference

variable {s : Settings} {L : Likeness s}

/-! ### Sessions -/

/-- The node that an operation gave, on both sides. -/
def obtained : Outcome Value → Outcome Result → List (Effect × Node)
  | .value (.chain (.suspended e _)) _, .value (.pending n) _ => [(e, n)]
  | _, _ => []

/-- A session with a program and its reference, from a world: the nodes obtained before the last
operation, and what the last operation came to on both sides.  After an outcome that is exhausted
nothing can be done. -/
inductive Session (L : Likeness s) (program : Action Value) (reference : Action Result)
    (b : World) : List (Effect × Node) → Outcome Value → Outcome Result → Prop
  | start : Session L program reference b [] (program b) (reference b)
  | resume {nodes : List (Effect × Node)} {o : Outcome Value} {o' : Outcome Result} {w u : World}
      {e : Effect} {n : Node} {a a' : Value} (before : Session L program reference b nodes o o')
      (left : o.world? = some w) (right : o'.world? = some u)
      (node : (e, n) ∈ obtained o o' ++ nodes) (alike : L.same w a u a') :
      Session L program reference b (obtained o o' ++ nodes)
        (e.resume (Callable.meaning s) a w) (n.resume s a' u)

/-- What a program and its reference came to looks the same: they are finished with values that
are alike, or wait for effects of the same kind with fields that are alike. -/
def Likeness.Seen (L : Likeness s) (w : World) (v : Value) (u : World) (r : Result) : Prop :=
  match v, r with
  | .chain (.done x _), .finished y => L.same w x u y
  | .chain (.suspended e _), .pending n =>
    e.request.Relates (fun a b => L.same w a u b) n.effect.request
  | _, _ => False

/-! ### What sessions keep -/

section

variable {births : Births} {b w u : World} {body : List Stmt} {env : Env} {id : Nat}

theorem Likeness.Waits.relates {e e' : Effect} (h : L.Waits w e u e') :
    e.request.Relates (fun a b => L.same w a u b) e'.request := by
  rcases h with h | ⟨f, f', rfl, rfl, h⟩
  · obtain ⟨_, he, hr⟩ := L.effect h
    cases he
    exact hr
  · obtain ⟨_, hf, hr⟩ := L.effect h
    cases hf
    exact hr

theorem AgreesValue.seen {v : Value} {r : Result} (h : AgreesValue L b body env id w v u r) :
    L.Seen w v u r := by
  obtain ⟨c, rfl, hc⟩ := h
  match c, r, hc with
  | .done x _, .finished y, hxy => exact hxy
  | .suspended e _, .pending n, hagrees =>
    obtain ⟨-, -, f, h, rfl, hwaits, -⟩ := hagrees
    exact hwaits.relates

/-- The invariant of sessions: the call was made from the first world, and all nodes agree. -/
structure Session.Sound (L : Likeness s) (b : World) (body : List Stmt) (env : Env) (w u : World)
    (nodes : List (Effect × Node)) : Prop where
  left : ∃ births, births b.invocations.size = b ∧ KeptFrom s births w
  right : Kept s u
  later : b.Grows u
  nodes (p : Effect × Node) : p ∈ nodes →
    ∃ r, Agrees L b body env b.invocations.size w (.suspended p.1 r) u (.pending p.2)

/-- What an operation gave agrees. -/
theorem agrees_of_mem_obtained {o : Outcome Value} {o' : Outcome Result}
    (h : o.Alike (AgreesValue L b body env id) o') (hw : o.world? = some w)
    (hu : o'.world? = some u) {p : Effect × Node} (hp : p ∈ obtained o o') :
    ∃ r, Agrees L b body env id w (.suspended p.1 r) u (.pending p.2) := by
  cases h with
  | failed h => cases hp
  | exhausted => cases hp
  | @value v r w' u' h =>
    cases hw
    cases hu
    obtain ⟨c, rfl, hc⟩ := h
    match c, r, hc with
    | .done x _, .finished y, _ => cases hp
    | .suspended e caps, .pending n, hagrees =>
      cases List.mem_singleton.mp hp
      exact ⟨caps, hagrees⟩

/-- The invariant holds after every operation, and the outcomes agree. -/
theorem Session.sound {program : Action Value} {reference : Action Result}
    (hd : Determinate L b body env) (hb : Kept s b)
    (hbirth : births b.invocations.size = b)
    (hprogram : (program b).Leads s births (b.withCall body env) fun _ _ => True)
    (hreference : Keeps s (fun _ => True) reference)
    (hstart : (program b).Alike (AgreesValue L b body env b.invocations.size) (reference b))
    {nodes : List (Effect × Node)} {o : Outcome Value} {o' : Outcome Result}
    (h : Session L program reference b nodes o o') :
    o.Alike (AgreesValue L b body env b.invocations.size) o' ∧
      ∀ w u, o.world? = some w → o'.world? = some u →
        Session.Sound L b body env w u (obtained o o' ++ nodes) := by
  induction h with
  | start =>
    refine ⟨hstart, fun w u hw hu => ?_⟩
    obtain ⟨-, births', hagree, hw'⟩ := hprogram.after_world hw
    obtain ⟨hu', hbu⟩ := hreference.world hb hu
    refine ⟨⟨births', ?_, hw'⟩, hu', hbu, fun p hp => ?_⟩
    · exact (hagree _ (by simp [World.withCall])).trans hbirth
    · rw [List.append_nil] at hp
      exact agrees_of_mem_obtained hstart hw hu hp
  | @resume nodes o o' w u e n a a' before left right node alike ih =>
    obtain ⟨⟨births', hbirth', hw⟩, hu, hbu, hnodes⟩ := ih.2 w u left right
    obtain ⟨caps, hagrees⟩ := hnodes _ node
    have hid : b.invocations.size < w.invocations.size := by
      obtain ⟨-, -, -, -, -, -, i, answers, hi, -⟩ := hagrees
      exact (Array.getElem?_eq_some_iff.mp hi).1
    have hlike := node_alike hd hw hbirth' hu hbu hagrees alike
    refine ⟨hlike, fun w' u' hw' hu' => ?_⟩
    obtain ⟨hf, births'', hagree, hkept⟩ :=
      (keeps_effectResume s e a births' w hw).after_world hw'
    obtain ⟨hkept', huu'⟩ := (Node.keeps_resume s n a').world hu hu'
    refine ⟨⟨births'', (hagree _ hid).trans hbirth', hkept⟩, hkept', hbu.trans huu', fun p hp => ?_⟩
    rcases List.mem_append.mp hp with hp | hp
    · exact agrees_of_mem_obtained hlike hw' hu' hp
    · obtain ⟨r, hr⟩ := hnodes p hp
      exact ⟨r, hr.grow hf.grows huu'⟩

end

/-! ### Programs -/

section

variable {b : World} {fid : Nat} {caps : CapabilitySet} {params : List String} {body : List Stmt}
  {env env' : Env} {args : List Value}

theorem Callable.meaning_program (s : Settings) (fid : Nat) (caps : CapabilitySet)
    (params : List String) (body : List Stmt) (env : Env) (args : List Value) :
    Callable.meaning s (.program fid caps params (.resumable body) env) args =
      (Action.require .arity (Env.setAll? env params args) >>= fun env =>
        Invocation.begin (Evaluation.meaning s) (Callable.meaning s) s.maxSteps body env >>=
          fun c => pure (.chain (c.declare caps))) := by
  rw [Callable.meaning_unfold]
  rfl

/-- A program that is called with the wrong number of arguments gives no node. -/
theorem Session.eq_start {program : Action Value} {reference : Action Result} {f : Failure}
    (hprogram : program b = .failed f b) {nodes : List (Effect × Node)} {o : Outcome Value}
    {o' : Outcome Result} (h : Session L program reference b nodes o o') :
    nodes = [] ∧ o = program b ∧ o' = reference b := by
  induction h with
  | start => exact ⟨rfl, rfl, rfl⟩
  | resume before left right node alike ih =>
    obtain ⟨rfl, rfl, rfl⟩ := ih
    rw [hprogram] at node
    cases node

/-- **Replay cannot be noticed**: whatever is resumed in whichever order, a program and its
reference come to the same, as far as can be seen. -/
theorem replay_transparent (hb : Kept s b)
    (hd : ∀ env', Env.setAll? env params args = some env' → Determinate L b body env')
    {nodes : List (Effect × Node)} {o : Outcome Value} {o' : Outcome Result}
    (h : Session L (Callable.meaning s (.program fid caps params (.resumable body) env) args)
      (Reference.call s body env params args) b nodes o o') :
    o.Alike L.Seen o' := by
  cases henv : Env.setAll? env params args with
  | none =>
    have hprogram : Callable.meaning s (.program fid caps params (.resumable body) env) args b
        = .failed .arity b := by
      rw [Callable.meaning_program, henv]
      rfl
    obtain ⟨-, rfl, rfl⟩ := h.eq_start hprogram
    rw [hprogram, Reference.call, henv]
    exact .failed (.refl _)
  | some env' =>
    obtain ⟨_, hkept⟩ := hb.exists_births
    obtain ⟨births, -, hbirth, hkept⟩ := hkept.exists_birth
    have hdet := hd env' henv
    have hprogram : Callable.meaning s (.program fid caps params (.resumable body) env) args =
        Invocation.begin (Evaluation.meaning s) (Callable.meaning s) s.maxSteps body env' >>=
          fun c => pure (.chain (c.declare caps)) := by
      rw [Callable.meaning_program, henv]
      rfl
    have hreference : Reference.call s body env params args = translate s body env' [] := by
      rw [Reference.call, henv]
      rfl
    rw [hprogram, hreference] at h
    have hleads := Outcome.Leads.begin (sound_meaning s) (Callable.meaning s) s.maxSteps body env' hkept
      hbirth
    have hbegin := begin_alike hdet hkept hbirth (Callable.meaning s)
    refine (h.sound hdet hb hbirth ?_ (keeps_translate s body env' []) ?_).1.mono
      fun _ _ _ _ => AgreesValue.seen
    · exact hleads.bind fun c w hafter _ => ⟨hafter, trivial⟩
    · refine Eq.mp (congrArg _ (congrFun (bind_pure (translate s body env' [])) b)) ?_
      exact hbegin.bind fun c w r u _ _ hagrees => .value ⟨_, rfl, hagrees.declare caps⟩

end

/-- If the reference waits, so does the program. -/
theorem Outcome.Alike.suspended {o : Outcome Value} {n : Node} {u : World}
    (h : o.Alike L.Seen (.value (.pending n) u)) :
    ∃ e r w, o = .value (.chain (.suspended e r)) w := by
  cases h with
  | @value v _ w _ hseen =>
    match v, hseen with
    | .chain (.suspended e r), _ => exact ⟨e, r, w, rfl⟩

/-! ### Plain data -/

/-- Plain data: data without functions and handlers, requests about nothing but plain data, and
chains that are made of these by performing a request and by going on with a chain. -/
inductive Value.Plain : Value → Prop
  | null : Plain .null
  | bool (b : Bool) : Plain (.bool b)
  | int (n : Int) : Plain (.int n)
  | text (s : String) : Plain (.text s)
  | effect (r : Request) (fields : ∀ f ∈ r.fields, f.2.Plain) : Plain (.effect (.of r))
  | performed (r : Request) (fields : ∀ f ∈ r.fields, f.2.Plain) :
      Plain (.effect ((Effect.of r).map .lift))
  | followed {e : Effect} {c : Chain} (first : Plain (.effect e)) (second : Plain (.chain c)) :
      Plain (.effect (e.map (.bind (.always c))))
  | done {v : Value} (r : CapabilitySet) (value : v.Plain) : Plain (.chain (.done v r))
  | suspended {e : Effect} (r : CapabilitySet) (effect : Plain (.effect e)) :
      Plain (.chain (.suspended e r))

namespace Value.Plain

theorem fields_effect {e : Effect} (h : (Value.effect e).Plain) :
    ∀ f ∈ e.request.fields, f.2.Plain := by
  generalize hv : Value.effect e = v at h
  induction h generalizing e with
  | effect r fields | performed r fields =>
    cases hv
    exact fields
  | followed _ _ ih _ =>
    cases hv
    have hfields := ih rfl
    exact hfields
  | _ => cases hv

theorem declare {c : Chain} (h : (Value.chain c).Plain) (r : CapabilitySet) :
    (Value.chain (c.declare r)).Plain := by
  cases h with
  | done q value => exact .done _ value
  | suspended q effect => exact .suspended _ effect

/-- Going on with a plain chain leaves plain data, or fails, whatever the world is. -/
theorem apply_always {v : Value} {c : Chain} (hv : v.Plain) (hc : (Value.chain c).Plain)
    (call : Call) :
    (∃ u, (Stage.bind (.always c)).apply call v = pure u ∧ u.Plain) ∨
      ∃ f, (Stage.bind (.always c)).apply call v = Action.fail f := by
  cases hv with
  | done r value => exact .inl ⟨_, rfl, hc.declare r⟩
  | suspended r effect => exact .inl ⟨_, rfl, .suspended r (effect.followed hc)⟩
  | _ => exact .inr ⟨_, rfl⟩

/-- An effect of plain data goes on to plain data, or fails, whatever the world is. -/
theorem resume {e : Effect} {a : Value} (h : (Value.effect e).Plain) (ha : a.Plain)
    (call : Call) :
    (∃ v, e.resume call a = pure v ∧ v.Plain) ∨ ∃ f, e.resume call a = Action.fail f := by
  generalize hv : Value.effect e = v at h
  induction h generalizing e with
  | effect r fields =>
    cases hv
    exact .inl ⟨a, Effect.resume_of .., ha⟩
  | performed r fields =>
    cases hv
    rw [Effect.resume_map, Effect.resume_of]
    exact .inl ⟨_, rfl, .done ∅ ha⟩
  | followed _ second ih _ =>
    cases hv
    rw [Effect.resume_map]
    obtain ⟨v, hresume, hv⟩ | ⟨f, hresume⟩ := ih rfl
    · rw [hresume, pure_bind]
      exact hv.apply_always second call
    · rw [hresume]
      exact .inr ⟨f, rfl⟩
  | _ => cases hv

end Value.Plain

/-- Plain data is alike if it is the same. -/
def Likeness.plain (s : Settings) : Likeness s where
  same _ a _ b := a = b ∧ a.Plain
  symm h := ⟨h.1.symm, h.1 ▸ h.2⟩
  trans h h' := ⟨h.1.trans h'.1, h.2⟩
  grow h _ _ := h
  typeName h := by rw [h.1]
  chain {_ _ c _} h := by
    obtain ⟨rfl, hplain⟩ := h
    refine ⟨c, rfl, ?_⟩
    cases hplain with
    | done r value => exact ⟨rfl, value⟩
    | suspended r effect => exact ⟨rfl, effect⟩
  effect {_ _ e _} h := by
    obtain ⟨rfl, hplain⟩ := h
    refine ⟨e, rfl, rfl, List.forall₂_same.mpr fun f hf => ⟨rfl, rfl, ?_⟩⟩
    exact hplain.fields_effect f hf
  resume {_ w _ u _ _ a b} h _ _ _ _ hab := by
    obtain ⟨he, hplain⟩ := h
    cases he
    obtain ⟨rfl, ha⟩ := hab
    obtain ⟨v, hresume, hv⟩ | ⟨f, hresume⟩ := hplain.resume ha (Callable.meaning s)
    · rw [hresume]
      exact .value ⟨rfl, hv⟩
    · rw [hresume]
      exact .failed (.refl f)

/-- A routine that makes a request with its first answer. -/
def tickAfter (first : Expr) : List Stmt :=
  [.yield (some "x") first, .yield (some "y") (.op (.effect .tick) [.var "x"]), .exit (.var "y")]

/-- Where the routine stands after no answer and after one. -/
theorem tickAfter_reached {s : Settings} {b : World} {first : Expr} {as : List Value}
    {target : Option String} {rest : List Frame} {env : Env}
    (h : Reached s b (tickAfter first) [] as target rest env) :
    (as = [] ∧ target = some "x" ∧ env = [] ∧
      rest = [.block [.yield (some "y") (.op (.effect .tick) [.var "x"]), .exit (.var "y")]]) ∨
    ∃ a, as = [a] ∧ target = some "y" ∧ env = [("x", a)] ∧ rest = [.block [.exit (.var "y")]] := by
  induction as generalizing target rest env with
  | nil =>
    cases h with
    | start _ _ hslice =>
      obtain ⟨exit, w, hexec, hexit⟩ := Action.bind_eq_value.mp hslice
      obtain ⟨v, w', -, hv⟩ := Action.bind_eq_value.mp hexec
      obtain ⟨rfl, rfl⟩ := Action.pure_eq_value.mp hv
      cases hexit
      exact .inl ⟨rfl, rfl, rfl, rfl⟩
  | cons a as ih =>
    cases h with
    | answer h _ _ hslice =>
      rcases ih h with ⟨rfl, rfl, rfl, rfl⟩ | ⟨a', rfl, rfl, rfl, rfl⟩
      · cases hslice
        exact .inr ⟨a, rfl, rfl, rfl, rfl⟩
      · cases hslice

/-- The routine depends on its answers only if its first request does not depend on anything, and
requests with alike amounts are alike. -/
theorem tickAfter_determinate {s : Settings} {L : Likeness s} {b : World} {first : Expr}
    (hfirst : ∀ {w u}, Kept s w → Kept s u → b.Grows w → b.Grows u →
      (firstSlice s (tickAfter first) [] w).Alike L.Exits (firstSlice s (tickAfter first) [] u))
    (htick : ∀ {w u v v'}, L.same w v u v' →
      L.same w (.effect (.of (.tick v))) u (.effect (.of (.tick v')))) :
    Determinate L b (tickAfter first) [] := by
  refine ⟨hfirst, fun _ _ _ _ h h' hall => ?_⟩
  cases hall with
  | cons hanswer hall =>
    rcases tickAfter_reached h with ⟨rfl, rfl, rfl, rfl⟩ | ⟨x, rfl, rfl, rfl, rfl⟩
    · cases hall
      rcases tickAfter_reached h' with ⟨-, rfl, rfl, rfl⟩ | ⟨x', hx', -⟩
      · exact .value (htick hanswer)
      · cases hx'
    · rcases tickAfter_reached h' with ⟨rfl, -⟩ | ⟨x', rfl, rfl, rfl, rfl⟩
      · cases hall
      · exact .value hanswer

/-- The chain of two requests, one after the other. -/
def tickTwice : Expr :=
  .op (.chain .andThen)
    [.op (.chain .tick) [.literal (.int 2)], .op (.chain .tick) [.literal (.int 3)]]

/-- A routine that yields the chain of two requests, and then a request with the second answer. -/
def tickAgain : List Stmt := tickAfter tickTwice

/-- What the chain of two requests waits for first. -/
def firstTick : Effect :=
  ((Effect.of (.tick (.int 2))).map .lift).map (.bind (.always (.perform (.of (.tick (.int 3))))))

theorem plain_tick {v : Value} (hv : v.Plain) : ∀ f ∈ (Request.tick v).fields, f.2.Plain := by
  intro f hf
  cases List.mem_singleton.mp hf
  exact hv

theorem tickAgain_determinate (s : Settings) (b : World) :
    Determinate (Likeness.plain s) b tickAgain [] := by
  have hfirst : (Value.chain (.suspended firstTick (.single ⟨"counter"⟩))).Plain :=
    .suspended _ (.followed (.performed _ (plain_tick (.int 2)))
      (.suspended _ (.performed _ (plain_tick (.int 3)))))
  refine tickAfter_determinate (fun _ _ _ _ => .value ⟨rfl, hfirst⟩) ?_
  rintro _ _ v _ ⟨rfl, hv⟩
  exact ⟨rfl, .effect _ (plain_tick hv)⟩

/-- The routine yields a chain of two requests.  Its first node is answered with 1 and after that
once more, with 5; then the second node, which the first answer led to, is answered with 4. -/
theorem replay_transparent_tickAgain :
    ∃ nodes o o', Session (Likeness.plain ⟨false, 10⟩)
        (Callable.meaning ⟨false, 10⟩ (.program 1 ∅ [] (.resumable tickAgain) []) [])
        (Reference.call ⟨false, 10⟩ tickAgain [] [] []) (World.initial "") nodes o o' ∧
      nodes.length = 3 ∧ o.Alike (Likeness.plain ⟨false, 10⟩).Seen o' := by
  have hd (env' : Env) (henv : Env.setAll? [] [] [] = some env') :
      Determinate (Likeness.plain ⟨false, 10⟩) (World.initial "") tickAgain env' := by
    cases henv
    exact tickAgain_determinate _ _
  -- The reference can be computed, and by the theorem the program comes to the same.
  have hcall : Reference.call ⟨false, 10⟩ tickAgain [] [] [] (World.initial "")
      = .value (.pending ⟨tickAgain, [], firstTick, []⟩) (World.initial "") := by
    show translate _ tickAgain [] [] _ = _
    exact translate_suspended rfl
  have hresume (a : Value) : Node.resume ⟨false, 10⟩ ⟨tickAgain, [], firstTick, []⟩ a
        (World.initial "")
      = .value (.pending ⟨tickAgain, [], (Effect.of (.tick (.int 3))).map .lift, []⟩)
        (World.initial "") := by
    rw [Node.resume, firstTick, Effect.resume_map, Effect.resume_map, Effect.resume_of]
    rfl
  have hfirst : Session (Likeness.plain ⟨false, 10⟩)
      (Callable.meaning ⟨false, 10⟩ (.program 1 ∅ [] (.resumable tickAgain) []) [])
      (Reference.call ⟨false, 10⟩ tickAgain [] [] []) (World.initial "") [] _ _ := .start
  rw [hcall] at hfirst
  obtain ⟨e, r, w, hfirst'⟩ := (replay_transparent (kept_initial _ "") hd hfirst).suspended
  rw [hfirst'] at hfirst
  have hsecond := Session.resume hfirst rfl rfl (.head _) (a := .int 1) ⟨rfl, .int 1⟩
  rw [hresume] at hsecond
  obtain ⟨e', r', w', hsecond'⟩ := (replay_transparent (kept_initial _ "") hd hsecond).suspended
  rw [hsecond'] at hsecond
  have hthird := Session.resume hsecond rfl rfl (.tail _ (.head _)) (a := .int 5) ⟨rfl, .int 5⟩
  rw [hresume] at hthird
  obtain ⟨e'', r'', w'', hthird'⟩ := (replay_transparent (kept_initial _ "") hd hthird).suspended
  rw [hthird'] at hthird
  have hfourth := Session.resume hthird rfl rfl (.tail _ (.head _)) (a := .int 4) ⟨rfl, .int 4⟩
  exact ⟨_, _, _, hfourth, rfl, replay_transparent (kept_initial _ "") hd hfourth⟩

end EffectHandlers
