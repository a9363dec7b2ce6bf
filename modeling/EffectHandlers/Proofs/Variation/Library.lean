/-
EffectHandlers/Proofs/Variation/Library.lean

The library on counterparts.

Every operation of the library does the same on counterparts, if calls of
functions do: it comes to counterparts, in worlds that are still linked, or
to the same failure.  Nothing of what a program can ask shows how identities
and calls are numbered.
-/
import EffectHandlers.Proofs.Variation.Worlds
import EffectHandlers.Script.Library

namespace EffectHandlers

/-! ### Lists -/

theorem Counterpart.nil_left {L : Link} {α : Type} [Along α] {ys : List α}
    (h : Counterpart L [] ys) : ys = [] := by
  cases counterpart_list.mp h
  rfl

theorem Counterpart.cons_left {L : Link} {α : Type} [Along α] {x : α} {xs ys : List α}
    (h : Counterpart L (x :: xs) ys) :
    ∃ y ys', ys = y :: ys' ∧ Counterpart L x y ∧ Counterpart L xs ys' := by
  cases counterpart_list.mp h with
  | cons hx hxs => exact ⟨_, _, rfl, hx, counterpart_list.mpr hxs⟩

theorem Counterpart.rangeItems (L : Link) (n : Int) :
    Counterpart L (rangeItems n) (rangeItems n) := by
  refine counterpart_list.mpr (List.forall₂_same.mpr fun v hv => ?_)
  obtain ⟨i, -, rfl⟩ := List.mem_map.mp hv
  exact .int _

/-- Numbers that stand for each other are the same. -/
theorem Counterpart.number_eq {L : Link} {m n : Nat} (h : Counterpart L m n) : m = n := by
  obtain ⟨k, ⟨-, rfl⟩, -, h⟩ := h
  exact h.symm

theorem Counterpart.callable {L : Link} {f f' : Callable}
    (h : Counterpart L (Value.function f) (.function f')) : Counterpart L f f' := by
  cases Value.shape h with
  | function made hf => exact hf

theorem Counterpart.isSome {L : Link} {α : Type} [Along α] {o o' : Option α}
    (h : Counterpart L o o') : o'.isSome = o.isSome := by
  cases counterpart_option.mp h <;> rfl

/-- Whether a name in a mapping is no text. -/
theorem Counterpart.anyNotText {L : Link} {m m' : Mapping} (h : Counterpart L m m') :
    (m'.any fun e => !e.1.isText) = m.any fun e => !e.1.isText := by
  have hentries := counterpart_list.mp h
  clear h
  induction hentries with
  | nil => rfl
  | cons he _ ih => rw [List.any_cons, List.any_cons, ih, (counterpart_prod.mp he).1.isText]

/-- Calls of functions are linked if the functions and the arguments vary. -/
structure CallsLinked (W : Comparing) (call call' : Call) : Prop where
  same {L : Link} {f f' : Callable} {args args' : List Value} (hf : Counterpart L f f')
    (hargs : Counterpart L args args') :
    Action.LinkedBy W L Counterpart (call f args) (call' f' args')
  function {L : Link} {takes : List Role} {ρ : Role} {f f' : Callable} {args args' : List Value}
    (hf : Varied W.loose L (.function takes ρ) (.function f) (.function f'))
    (hargs : valuesVary W.loose L takes args args') :
    Action.LinkedBy W L (fun M => Varied W.loose M ρ) (call f args) (call' f' args')

/-- The same, and a function is called as it is, unless the side on which it is called is bounded
and exhausted.  What the second side calls then is linked to what the first side calls. -/
structure CallsUnfolded (W : Comparing) (call call' : Call) : Prop
    extends CallsLinked W call call' where
  left (f : Callable) (args : List Value) :
    (W.bounded = .left ∧ call f args = Action.exhaust) ∨
      ∃ s next, call f args = f.applyWith s next args
  right (f : Callable) (args : List Value) :
    (W.bounded = .right ∧ call' f args = Action.exhaust) ∨
      ∃ s next, call' f args = f.applyWith s next args ∧ CallsLinked W call next

namespace Action.LinkedBy

variable {W : Comparing} {L : Link} {call call' : Call} {v v' : Value} {vs vs' : List Value}
  {c c' : Chain} {e e' : Effect} {r r' : Request}

/-! ### Failures that name no identity -/

theorem misuse {α β : Type} {R : Link → α → β → Prop} (name : String) :
    Action.LinkedBy W L R (Action.fail (.misuse name)) (Action.fail (.misuse name)) :=
  .fail (.failure fun _ => ⟨trivial, rfl⟩)

theorem arity {α β : Type} {R : Link → α → β → Prop} :
    Action.LinkedBy W L R (Action.fail .arity) (Action.fail .arity) :=
  .fail (.failure fun _ => ⟨trivial, rfl⟩)

/-- A failure that shows the type of a value only. -/
theorem failType {α β : Type} {R : Link → α → β → Prop} (hv : Counterpart L v v')
    (f : String → Failure) (hf : ∀ t, Counterpart L (f t) (f t)) :
    Action.LinkedBy W L R (Action.fail (f v.typeName)) (Action.fail (f v'.typeName)) := by
  rw [hv.typeName]
  exact .fail (hf _)

/-! ### Functions -/

theorem callValue (hcall : CallsLinked W call call') (hv : Counterpart L v v')
    (hargs : Counterpart L vs vs') :
    Action.LinkedBy W L Counterpart (Call.value call v vs) (Call.value call' v' vs') := by
  cases Value.shape hv with
  | function made hf => exact hcall.same hf hargs
  | _ => exact failType hv .notInvocable fun _ => .failure fun _ => ⟨trivial, rfl⟩

/-! ### Chains -/

theorem ofValue (role : String) (hv : Counterpart L v v') :
    Action.LinkedBy W L Counterpart (Chain.ofValue role v) (Chain.ofValue role v') := by
  cases Value.shape hv with
  | chain hc => exact .pure hc
  | _ => exact failType hv (.notChainResult role) fun _ => .failure fun _ => ⟨trivial, rfl⟩

theorem binderApply (hcall : CallsLinked W call call') {b b' : Binder} (hb : Counterpart L b b')
    (hv : Counterpart L v v') :
    Action.LinkedBy W L Counterpart (b.apply call v) (b'.apply call' v') := by
  cases Binder.shape hb with
  | call hf =>
    exact (hcall.same hf (.cons hv .nil)).bind fun M x y _ hxy => ofValue "binder" hxy
  | map hf => exact (hcall.same hf (.cons hv .nil)).map fun M x y _ hxy => hxy.finished
  | always hc => exact .pure hc
  | gather hc =>
    cases Value.shape hv with
    | list hxs => exact .pure (hc.gatherChain hxs)
    | _ => exact failType hv (.noSum · "list") fun _ => .failure fun _ => ⟨trivial, rfl⟩
  | append hxs => exact .pure (Counterpart.list (hxs.append (.cons hv .nil))).finished

theorem chainBind (hcall : CallsLinked W call call') (hc : Counterpart L c c') {b b' : Binder}
    (hb : Counterpart L b b') :
    Action.LinkedBy W L Counterpart (c.bind call b) (c'.bind call' b') := by
  cases Chain.shape hc with
  | done r hv => exact (binderApply hcall hb hv).map fun M x y _ hxy => hxy.declare r
  | suspended r he => exact .pure (.suspended (he.mapStage (.stageBind hb)) r)

theorem sequenceAfter (hcall : CallsLinked W call call') (hc : Counterpart L c c')
    {cs cs' : List Chain} (hcs : Counterpart L cs cs') :
    Action.LinkedBy W L Counterpart (c.sequenceAfter call cs) (c'.sequenceAfter call' cs') := by
  induction cs generalizing L c c' cs' with
  | nil =>
    obtain rfl := hcs.nil_left
    exact .pure hc
  | cons d cs ih =>
    obtain ⟨d', cs', rfl, hd, hcs⟩ := hcs.cons_left
    exact (chainBind hcall hc (.gather hd)).bind fun M x y hLM hxy => ih hxy (hcs.mono hLM)

theorem sequence (hcall : CallsLinked W call call') {cs cs' : List Chain}
    (hcs : Counterpart L cs cs') :
    Action.LinkedBy W L Counterpart (Chain.sequence call cs) (Chain.sequence call' cs') :=
  sequenceAfter hcall (Counterpart.list .nil).finished hcs

/-! ### Pipelines -/

theorem stageApply (hcall : CallsLinked W call call') {s s' : Stage} (hs : Counterpart L s s')
    (hv : Counterpart L v v') :
    Action.LinkedBy W L Counterpart (s.apply call v) (s'.apply call' v') := by
  cases Stage.shape hs with
  | call hf => exact hcall.same hf (.cons hv .nil)
  | lift => exact .pure hv.finished.chain
  | bind hb =>
    cases Value.shape hv with
    | chain hc => exact (chainBind hcall hc hb).map fun M x y _ hxy => hxy.chain
    | _ => exact failType hv (.notChain "bind") fun _ => .failure fun _ => ⟨trivial, rfl⟩

theorem applyStages (hcall : CallsLinked W call call') {ss ss' : List Stage}
    (hss : Counterpart L ss ss') (hv : Counterpart L v v') :
    Action.LinkedBy W L Counterpart (applyStages call v ss)
      (EffectHandlers.applyStages call' v' ss') := by
  induction ss generalizing L v v' ss' with
  | nil =>
    obtain rfl := hss.nil_left
    exact .pure hv
  | cons s ss ih =>
    obtain ⟨s', ss', rfl, hs, hss⟩ := hss.cons_left
    exact (stageApply hcall hs hv).bind fun M x y hLM hxy => ih (hss.mono hLM) hxy

theorem resume (hcall : CallsLinked W call call') (he : Counterpart L e e')
    (hv : Counterpart L v v') :
    Action.LinkedBy W L Counterpart (e.resume call v) (e'.resume call' v') := by
  simp only [Effect.resume, resumeFrom_eq_applyStages]
  exact applyStages hcall he.pipeline hv

/-! ### Data -/

section

variable {a a' b b' d d' : Value}

theorem foldItems (hcall : CallsLinked W call call') (ha : Counterpart L a a')
    (hvs : Counterpart L vs vs') (hb : Counterpart L b b') :
    Action.LinkedBy W L Counterpart (foldItems call a vs b)
      (EffectHandlers.foldItems call' a' vs' b') := by
  induction vs generalizing L b b' vs' with
  | nil =>
    obtain rfl := hvs.nil_left
    exact .pure hb
  | cons x vs ih =>
    obtain ⟨x', vs', rfl, hx, hvs⟩ := hvs.cons_left
    exact (callValue hcall ha (.cons hb (.cons hx .nil))).bind fun M y z hLM hyz =>
      ih (ha.mono hLM) (hvs.mono hLM) hyz

/-- The number of items of a value. -/
theorem lengthOf (ha : Counterpart L a a') :
    Action.LinkedBy W L (Equal Nat) (Action.ofExcept a.length) (Action.ofExcept a'.length) :=
  (ofExcept ha.valueLength).mono fun _ _ _ _ hn => hn.number_eq

theorem dataNone (o : DataOp) :
    Action.LinkedBy W L Counterpart (o.apply call []) (o.apply call' []) := by
  cases o
  case list => exact .pure (.list .nil)
  case tuple => exact .pure (.tuple .nil)
  case subtract | multiply | less | upper | cellGet | cellSet => exact misuse _
  all_goals exact arity

theorem dataOne (hcall : CallsLinked W call call') (o : DataOp) (ha : Counterpart L a a') :
    Action.LinkedBy W L Counterpart (o.apply call [a]) (o.apply call' [a']) := by
  cases o
  case list => exact .pure (.list (.cons ha .nil))
  case tuple => exact .pure (.tuple (.cons ha .nil))
  case range =>
    simp only [DataOp.apply, ha.number?, ha.typeName]
    cases a.number? with
    | some n => exact .pure (.list (.rangeItems L n))
    | none => exact .fail (.failure fun _ => ⟨trivial, rfl⟩)
  case length => exact (lengthOf ha).map fun M n n' _ hn => hn ▸ .int n
  case negate =>
    refine .pure ?_
    rw [ha.isTrue]
    exact .bool _
  case text =>
    simp only [DataOp.apply, ha.shown]
    exact (text _).map fun M t u _ htu => htu ▸ .text t
  case written =>
    simp only [DataOp.apply, ha.form]
    exact (text _).map fun M t u _ htu => htu ▸ .text t
  case upper =>
    cases Value.shape ha with
    | text t => exact .pure (.text _)
    | _ => exact misuse _
  case call => exact callValue hcall ha .nil
  case trace => exact (showValue ha).bind fun M _ _ hLM _ => .pure (ha.mono hLM)
  case raise kind => exact .fail (.raised kind ha)
  case cell => exact newCell ha
  case cellGet =>
    cases Value.shape ha with
    | cell n => exact readCell n
    | _ => exact misuse _
  case subtract | multiply | less | cellSet => cases Value.shape ha <;> exact misuse _
  all_goals exact arity

theorem dataTwo (hcall : CallsLinked W call call') (o : DataOp) (ha : Counterpart L a a')
    (hb : Counterpart L b b') :
    Action.LinkedBy W L Counterpart (o.apply call [a, b]) (o.apply call' [a', b']) := by
  have hab : Counterpart L [a, b] [a', b'] := .cons ha (.cons hb .nil)
  cases o
  case list => exact .pure hab.list
  case tuple => exact .pure hab.tuple
  case item => exact .ofExcept (ha.item hb)
  case add => exact .ofExcept (ha.addOp hb)
  case equal =>
    refine .pure ?_
    rw [ha.same hb]
    exact .bool _
  case call => exact callValue hcall ha (.cons hb .nil)
  case subtract =>
    cases Value.shape ha with
    | int m =>
      cases Value.shape hb with
      | int n => exact .pure (.int _)
      | _ => exact misuse _
    | _ => exact misuse _
  case multiply =>
    cases Value.shape ha with
    | int m =>
      cases Value.shape hb with
      | int n => exact .pure (.int _)
      | _ => exact misuse _
    | _ => exact misuse _
  case less =>
    cases Value.shape ha with
    | int m =>
      cases Value.shape hb with
      | int n => exact .pure (.bool _)
      | _ => exact misuse _
    | _ => exact misuse _
  case upper => cases Value.shape ha <;> exact misuse _
  case cellGet => cases Value.shape ha <;> exact misuse _
  case cellSet =>
    cases Value.shape ha with
    | cell n => exact (writeCell n hb).bind fun M _ _ hLM _ => .pure (hb.mono hLM)
    | _ => exact misuse _
  all_goals exact arity

theorem dataMore (hcall : CallsLinked W call call') (o : DataOp) (ha : Counterpart L a a')
    (hb : Counterpart L b b') (hd : Counterpart L d d') (hvs : Counterpart L vs vs') :
    Action.LinkedBy W L Counterpart (o.apply call (a :: b :: d :: vs))
      (o.apply call' (a' :: b' :: d' :: vs')) := by
  have hall : Counterpart L (a :: b :: d :: vs) (a' :: b' :: d' :: vs') :=
    .cons ha (.cons hb (.cons hd hvs))
  cases o
  case list => exact .pure hall.list
  case tuple => exact .pure hall.tuple
  case call => exact callValue hcall ha (.cons hb (.cons hd hvs))
  case fold =>
    cases vs with
    | nil =>
      obtain rfl := hvs.nil_left
      exact (ofExcept ha.items).bind fun M xs xs' hLM hxs =>
        foldItems hcall (hd.mono hLM) hxs (hb.mono hLM)
    | cons x vs =>
      obtain ⟨x', vs', rfl, -, -⟩ := hvs.cons_left
      exact arity
  case subtract | multiply | less =>
    cases Value.shape ha with
    | int m => cases Value.shape hb <;> exact misuse _
    | _ => exact misuse _
  case upper | cellGet | cellSet => cases Value.shape ha <;> exact misuse _
  all_goals exact arity

theorem dataOp (hcall : CallsLinked W call call') (o : DataOp) (hvs : Counterpart L vs vs') :
    Action.LinkedBy W L Counterpart (o.apply call vs) (o.apply call' vs') := by
  match vs with
  | [] =>
    obtain rfl := hvs.nil_left
    exact dataNone o
  | [a] =>
    obtain ⟨a', vs', rfl, ha, hvs⟩ := hvs.cons_left
    obtain rfl := hvs.nil_left
    exact dataOne hcall o ha
  | [a, b] =>
    obtain ⟨a', vs', rfl, ha, hvs⟩ := hvs.cons_left
    obtain ⟨b', vs', rfl, hb, hvs⟩ := hvs.cons_left
    obtain rfl := hvs.nil_left
    exact dataTwo hcall o ha hb
  | a :: b :: d :: vs =>
    obtain ⟨a', vs', rfl, ha, hvs⟩ := hvs.cons_left
    obtain ⟨b', vs', rfl, hb, hvs⟩ := hvs.cons_left
    obtain ⟨d', vs', rfl, hd, hvs⟩ := hvs.cons_left
    exact dataMore hcall o ha hb hd hvs

end

/-! ### Checks -/

theorem asFunction (role : String) (hv : Counterpart L v v') :
    Action.LinkedBy W L (fun M f f' => Counterpart M (Value.function f) (.function f'))
      (v.asFunction role) (v'.asFunction role) := by
  cases Value.shape hv with
  | function made hf => exact .pure hv
  | _ => exact failType hv (.notCallable role) fun _ => .failure fun _ => ⟨trivial, rfl⟩

theorem asChain (operation : String) (hv : Counterpart L v v') :
    Action.LinkedBy W L Counterpart (v.asChain operation) (v'.asChain operation) := by
  cases Value.shape hv with
  | chain hc => exact .pure hc
  | _ => exact failType hv (.notChain operation) fun _ => .failure fun _ => ⟨trivial, rfl⟩

theorem asEffect (operation : String) (hv : Counterpart L v v') :
    Action.LinkedBy W L Counterpart (v.asEffect operation) (v'.asEffect operation) := by
  cases Value.shape hv with
  | effect he => exact .pure he
  | _ => exact misuse _

theorem asHandler (operation : String) (hv : Counterpart L v v') :
    Action.LinkedBy W L Counterpart (v.asHandler operation) (v'.asHandler operation) := by
  cases Value.shape hv with
  | handler ha => exact .pure ha
  | _ => exact misuse _

theorem asProvider (hv : Counterpart L v v') :
    Action.LinkedBy W L Counterpart v.asProvider v'.asProvider := by
  cases Value.shape hv with
  | handler ha => exact .pure ha
  | _ => exact failType hv (.noMember · "capabilities") fun _ => .failure fun _ => ⟨trivial, rfl⟩

theorem asDeclaring (hv : Counterpart L v v') :
    Action.LinkedBy W L Counterpart v.asDeclaring v'.asDeclaring := by
  cases Value.shape hv with
  | chain hc => exact .pure hc
  | function made hf =>
    cases Callable.shape hf with
    | program => exact .fail (.failure fun _ => ⟨trivial, rfl⟩)
    | _ => exact failType hv (.noMember · "requires") fun _ => .failure fun _ => ⟨trivial, rfl⟩
  | _ => exact failType hv (.noMember · "requires") fun _ => .failure fun _ => ⟨trivial, rfl⟩

theorem asText (operation : String) (hv : Counterpart L v v') :
    Action.LinkedBy W L (Equal String) (v.asText operation) (v'.asText operation) := by
  cases Value.shape hv with
  | text t => exact .pure rfl
  | _ => exact misuse _

theorem capabilitiesOf (operation : String) (hvs : Counterpart L vs vs') :
    Action.LinkedBy W L (Equal CapabilitySet) (capabilitiesOf operation vs)
      (EffectHandlers.capabilitiesOf operation vs') := by
  induction vs generalizing vs' with
  | nil =>
    obtain rfl := hvs.nil_left
    exact .pure rfl
  | cons v vs ih =>
    obtain ⟨v', vs', rfl, hv, hrest⟩ := hvs.cons_left
    cases Value.shape hv with
    | capability c => exact (ih hrest).map fun M a b _ hab => hab ▸ rfl
    | _ => exact misuse _

theorem chainsOf (role : String) (hvs : Counterpart L vs vs') :
    Action.LinkedBy W L Counterpart (chainsOf role vs) (EffectHandlers.chainsOf role vs') := by
  induction vs generalizing L vs' with
  | nil =>
    obtain rfl := hvs.nil_left
    exact .pure .nil
  | cons v vs ih =>
    obtain ⟨v', vs', rfl, hv, hrest⟩ := hvs.cons_left
    refine (ofValue role hv).bind fun M c c' hLM hc => ?_
    exact (ih (hrest.mono hLM)).map fun N cs cs' hMN hcs => .cons (hc.mono hMN) hcs

theorem handlersOf (hvs : Counterpart L vs vs') :
    Action.LinkedBy W L Counterpart (handlersOf vs) (EffectHandlers.handlersOf vs') := by
  induction vs generalizing vs' with
  | nil =>
    obtain rfl := hvs.nil_left
    exact .pure .nil
  | cons v vs ih =>
    obtain ⟨v', vs', rfl, hv, hrest⟩ := hvs.cons_left
    cases Value.shape hv with
    | handler ha => exact (ih hrest).map fun M as as' hLM has => .cons (ha.mono hLM) has
    | _ => exact failType hv .notHandler fun _ => .failure fun _ => ⟨trivial, rfl⟩

theorem checkKeys (hvs : Counterpart L vs vs') :
    Action.LinkedBy W L (Equal Unit) (checkKeys vs) (EffectHandlers.checkKeys vs') := by
  induction vs generalizing vs' with
  | nil =>
    obtain rfl := hvs.nil_left
    exact .pure rfl
  | cons v vs ih =>
    obtain ⟨v', vs', rfl, hv, hrest⟩ := hvs.cons_left
    simp only [EffectHandlers.checkKeys, hv.keyFault?]
    cases v.keyFault? with
    | some t => exact .fail (.failure fun _ => ⟨trivial, rfl⟩)
    | none => exact ih hrest

theorem declaredCapabilities (hvs : Counterpart L vs vs') :
    Action.LinkedBy W L (Equal CapabilitySet) (declaredCapabilities vs)
      (EffectHandlers.declaredCapabilities vs') := by
  refine (checkKeys hvs).bind fun M _ _ hLM _ => ?_
  replace hvs := hvs.mono hLM
  induction vs generalizing vs' with
  | nil =>
    obtain rfl := hvs.nil_left
    exact .pure rfl
  | cons v vs ih =>
    obtain ⟨v', vs', rfl, hv, hrest⟩ := hvs.cons_left
    cases Value.shape hv with
    | capability c => exact (ih hrest).map fun M a b _ hab => hab ▸ rfl
    | _ => exact failType hv .notCapability fun _ => .failure fun _ => ⟨trivial, rfl⟩

/-! ### Effects -/

theorem requestValue (hr : Counterpart L r r') :
    Action.LinkedBy W L Counterpart (requestValue r) (EffectHandlers.requestValue r') :=
  .pure hr.effectOfRequest.effect

section

variable {a a' b b' d d' : Value}

theorem effectOne (hcall : CallsLinked W call call') (o : EffectOp) (ha : Counterpart L a a') :
    Action.LinkedBy W L Counterpart (o.apply call [a]) (o.apply call' [a']) := by
  cases o
  case log => exact requestValue (.log ha)
  case writeLine => exact requestValue (.writeLine ha)
  case get => exact requestValue (.get ha)
  case poke => exact requestValue (.poke ha)
  case tick => exact requestValue (.tick ha)
  case resume =>
    exact (asEffect "resume" ha).bind fun M e e' _ he => resume hcall he .null
  case pipelineLength =>
    refine (asEffect "pipe_len" ha).map fun M e e' _ he => ?_
    rw [he.pipeline.length]
    exact .int _
  all_goals exact arity

theorem effectTwo (hcall : CallsLinked W call call') (o : EffectOp) (ha : Counterpart L a a')
    (hb : Counterpart L b b') :
    Action.LinkedBy W L Counterpart (o.apply call [a, b]) (o.apply call' [a', b']) := by
  cases o
  case loudLog => exact requestValue (.loudLog ha hb)
  case put => exact requestValue (.put ha hb)
  case modify => exact requestValue (.modify ha hb)
  case map =>
    refine (asEffect "map" ha).bind fun M e e' hLM he => ?_
    exact (asFunction "mapper" (hb.mono hLM)).map fun N f f' hMN hf =>
      ((he.mono hMN).mapStage (.stageCall hf.callable)).effect
  case resume =>
    exact (asEffect "resume" ha).bind fun M e e' hLM he => resume hcall he (hb.mono hLM)
  all_goals exact arity

theorem effectMore (o : EffectOp) (ha : Counterpart L a a') (hb : Counterpart L b b')
    (hd : Counterpart L d d') (hvs : Counterpart L vs vs') :
    Action.LinkedBy W L Counterpart (o.apply call (a :: b :: d :: vs))
      (o.apply call' (a' :: b' :: d' :: vs')) := by
  cases o
  case custom =>
    cases vs with
    | nil =>
      obtain rfl := hvs.nil_left
      refine (asText "Custom" ha).bind fun M kind kind' hLM hkind => ?_
      refine (asText "Custom" (hb.mono hLM)).bind fun N cap cap' hMN hcap => ?_
      subst hkind hcap
      exact requestValue (.custom kind cap ((hd.mono hLM).mono hMN))
    | cons x vs =>
      obtain ⟨x', vs', rfl, -, -⟩ := hvs.cons_left
      exact arity
  all_goals exact arity

theorem effectOp (hcall : CallsLinked W call call') (o : EffectOp) (hvs : Counterpart L vs vs') :
    Action.LinkedBy W L Counterpart (o.apply call vs) (o.apply call' vs') := by
  match vs with
  | [] =>
    obtain rfl := hvs.nil_left
    cases o
    case readLine => exact requestValue .readLine
    case beep => exact requestValue .beep
    case tick => exact requestValue (.tick (.int 1))
    all_goals exact arity
  | [a] =>
    obtain ⟨a', vs', rfl, ha, hvs⟩ := hvs.cons_left
    obtain rfl := hvs.nil_left
    exact effectOne hcall o ha
  | [a, b] =>
    obtain ⟨a', vs', rfl, ha, hvs⟩ := hvs.cons_left
    obtain ⟨b', vs', rfl, hb, hvs⟩ := hvs.cons_left
    obtain rfl := hvs.nil_left
    exact effectTwo hcall o ha hb
  | a :: b :: d :: vs =>
    obtain ⟨a', vs', rfl, ha, hvs⟩ := hvs.cons_left
    obtain ⟨b', vs', rfl, hb, hvs⟩ := hvs.cons_left
    obtain ⟨d', vs', rfl, hd, hvs⟩ := hvs.cons_left
    exact effectMore o ha hb hd hvs

end

/-! ### Chains and what they are asked -/

theorem performValue (hr : Counterpart L r r') :
    Action.LinkedBy W L Counterpart (performValue r) (EffectHandlers.performValue r') :=
  .pure hr.effectOfRequest.perform.chain

theorem refusalOf (kind : RefusalClass) (hvs : Counterpart L vs vs') :
    Action.LinkedBy W L Counterpart (refusalOf kind vs) (EffectHandlers.refusalOf kind vs') := by
  have hplain (n : Option Int) : Counterpart L (Refusal.consoleInputExhausted n)
      (.consoleInputExhausted n) := .of_plain ⟨trivial, rfl⟩
  match vs with
  | [] =>
    obtain rfl := hvs.nil_left
    cases kind
    case consoleInputExhausted => exact .pure (hplain none)
    all_goals exact misuse _
  | [a] =>
    obtain ⟨a', vs', rfl, ha, hrest⟩ := hvs.cons_left
    obtain rfl := hrest.nil_left
    cases kind
    case unhandledEffect =>
      cases Value.shape ha with
      | effect he => exact .pure he.unhandledEffect
      | _ => exact failType ha (.noMember · "capability") fun _ => .failure fun _ => ⟨trivial, rfl⟩
    case missingCapability =>
      cases Value.shape ha with
      | capabilities s => exact .pure (.of_plain ⟨trivial, rfl⟩)
      | _ => exact misuse _
    case capabilityConflict =>
      cases Value.shape ha with
      | capabilities s => exact .pure (.of_plain ⟨trivial, rfl⟩)
      | _ => exact misuse _
    case consoleInputExhausted =>
      cases Value.shape ha with
      | null => exact .pure (hplain none)
      | int n => exact (text _).bind fun M _ _ _ _ => .pure (.of_plain ⟨trivial, rfl⟩)
      | _ => exact misuse _
  | a :: b :: vs =>
    obtain ⟨a', vs', rfl, ha, hrest⟩ := hvs.cons_left
    obtain ⟨b', vs', rfl, -, -⟩ := hrest.cons_left
    cases kind <;> cases Value.shape ha <;> exact misuse _

section

variable {a a' b b' d d' : Value}

theorem fillWith (ha : Counterpart L a a') (hb : Counterpart L b b') (hd : Counterpart L d d') :
    Action.LinkedBy W L Counterpart (fillWith a b d) (EffectHandlers.fillWith a' b' d') := by
  cases Value.shape ha with
  | text t =>
    cases Value.shape hd with
    | @dict m m' hm =>
      refine (ofExcept hb.items).bind fun M xs xs' hLM hxs => ?_
      rw [hm.anyNotText, (hm.lookup (.text "fmt")).isSome]
      split
      · exact .fail (.failure fun _ => ⟨trivial, rfl⟩)
      · split
        · exact .fail (.failure fun _ => ⟨trivial, rfl⟩)
        · exact (ofExcept (hxs.fillTemplate t (hm.mono hLM))).map fun N u u' _ hu =>
            hu.text_eq ▸ .text u
    | _ => exact misuse _
  | _ => exact failType ha (.noMember · "format") fun _ => .failure fun _ => ⟨trivial, rfl⟩

theorem chainDone (ha : Counterpart L a a') (hvs : Counterpart L vs vs') :
    Action.LinkedBy W L Counterpart (ChainOp.done.apply call (a :: vs))
      (ChainOp.done.apply call' (a' :: vs')) :=
  (capabilitiesOf "Done" hvs).map fun _ r _ hLM hr => hr ▸ ((ha.mono hLM).done r).chain

theorem chainSuspended (ha : Counterpart L a a') (hvs : Counterpart L vs vs') :
    Action.LinkedBy W L Counterpart (ChainOp.suspended.apply call (a :: vs))
      (ChainOp.suspended.apply call' (a' :: vs')) := by
  refine (asEffect "Suspended" ha).bind fun M e e' hLM he => ?_
  exact (capabilitiesOf "Suspended" (hvs.mono hLM)).map fun N r r' hMN hr =>
    hr ▸ ((he.mono hMN).suspended r).chain

theorem chainDeclare (ha : Counterpart L a a') (hvs : Counterpart L vs vs') :
    Action.LinkedBy W L Counterpart (ChainOp.declare.apply call (a :: vs))
      (ChainOp.declare.apply call' (a' :: vs')) := by
  cases vs with
  | nil =>
    obtain rfl := hvs.nil_left
    exact .pure ha
  | cons b vs =>
    obtain ⟨b', vs', rfl, hb, hrest⟩ := hvs.cons_left
    refine (asDeclaring ha).bind fun M c c' hLM hc => ?_
    exact (capabilitiesOf "with_requirements" ((Counterpart.cons hb hrest).mono hLM)).map
      fun N r r' hMN hr => hr ▸ ((hc.mono hMN).declare r).chain

theorem chainRefusal (kind : RefusalClass) (hvs : Counterpart L vs vs') :
    Action.LinkedBy W L Counterpart ((ChainOp.refusal kind).apply call vs)
      ((ChainOp.refusal kind).apply call' vs') := by
  refine (refusalOf kind hvs).bind fun M r r' _ hr => ?_
  exact fresh.map fun N id id' hMN hid => .refusal hid (hr.mono hMN)

theorem chainSet (hvs : Counterpart L vs vs') :
    Action.LinkedBy W L Counterpart (ChainOp.capabilitySet.apply call vs)
      (ChainOp.capabilitySet.apply call' vs') :=
  (capabilitiesOf "capset" hvs).map fun _ r _ _ hr => hr ▸ .capabilities r

theorem chainOne (hcall : CallsLinked W call call') (o : ChainOp) (ha : Counterpart L a a') :
    Action.LinkedBy W L Counterpart (o.apply call [a]) (o.apply call' [a']) := by
  cases o
  case capability => exact (asText "cap" ha).map fun M t t' _ ht => ht ▸ .capability _
  case capabilitySet => exact chainSet (.cons ha .nil)
  case done => exact chainDone ha .nil
  case suspended => exact chainSuspended ha .nil
  case declare => exact chainDeclare ha .nil
  case refusal kind => exact chainRefusal kind (.cons ha .nil)
  case lift => exact .pure ha.finished.chain
  case perform =>
    cases Value.shape ha with
    | effect he => exact .pure he.perform.chain
    | _ => exact failType ha .notEffect fun _ => .failure fun _ => ⟨trivial, rfl⟩
  case sequence =>
    refine (ofExcept ha.items).bind fun M xs xs' _ hxs => ?_
    refine (chainsOf "sequence" hxs).bind fun N cs cs' _ hcs => ?_
    exact (sequence hcall hcs).map fun N' c c' _ hc => hc.chain
  case isChain => cases Value.shape ha <;> exact .pure (.bool _)
  case isDone =>
    cases Value.shape ha with
    | chain hc =>
      refine .pure ?_
      rw [hc.isDone]
      exact .bool _
    | _ => exact .pure (.bool false)
  case write => exact performValue (.log ha)
  case writeLine => exact performValue (.writeLine ha)
  case get => exact performValue (.get ha)
  case tick => exact performValue (.tick ha)
  case value =>
    cases Value.shape ha with
    | chain hc =>
      cases Chain.shape hc with
      | done r hv => exact .pure hv
      | suspended r he => exact misuse _
    | result hv ho => exact .pure hv
    | _ => exact misuse _
  case output =>
    cases Value.shape ha with
    | result hv ho => exact .pure ho
    | _ => exact misuse _
  case effect =>
    cases Value.shape ha with
    | chain hc =>
      cases Chain.shape hc with
      | done r hv => exact misuse _
      | suspended r he => exact .pure he.effect
    | _ => exact misuse _
  case requires =>
    cases Value.shape ha with
    | chain hc =>
      refine .pure ?_
      rw [hc.requires]
      exact .capabilities _
    | function made hf =>
      cases Callable.shape hf with
      | program => exact .pure (.capabilities _)
      | _ => exact failType ha (.noMember · "requires") fun _ => .failure fun _ => ⟨trivial, rfl⟩
    | _ => exact failType ha (.noMember · "requires") fun _ => .failure fun _ => ⟨trivial, rfl⟩
  case truncated =>
    simp only [ChainOp.apply, ha.truncated]
    exact (text _).map fun M t u _ htu => htu ▸ .text t
  all_goals exact arity

theorem chainTwo (hcall : CallsLinked W call call') (o : ChainOp) (ha : Counterpart L a a')
    (hb : Counterpart L b b') :
    Action.LinkedBy W L Counterpart (o.apply call [a, b]) (o.apply call' [a', b']) := by
  cases o
  case capabilitySet => exact chainSet (.cons ha (.cons hb .nil))
  case done => exact chainDone ha (.cons hb .nil)
  case suspended => exact chainSuspended ha (.cons hb .nil)
  case declare => exact chainDeclare ha (.cons hb .nil)
  case refusal kind => exact chainRefusal kind (.cons ha (.cons hb .nil))
  case put => exact performValue (.put ha hb)
  case modify => exact performValue (.modify ha hb)
  case bind =>
    refine (asFunction "binder" hb).bind fun M f f' hLM hf => ?_
    refine (asChain "bind" (ha.mono hLM)).bind fun N c c' hMN hc => ?_
    exact (chainBind hcall hc (.binderCall (hf.callable.mono hMN))).map fun N' d d' _ hd => hd.chain
  case fmap =>
    refine (asFunction "mapper" hb).bind fun M f f' hLM hf => ?_
    refine (asChain "bind" (ha.mono hLM)).bind fun N c c' hMN hc => ?_
    exact (chainBind hcall hc (.binderMap (hf.callable.mono hMN))).map fun N' d d' _ hd => hd.chain
  case andThen =>
    refine (ofValue "then" hb).bind fun M c c' hLM hc => ?_
    refine (asChain "bind" (ha.mono hLM)).bind fun N d d' hMN hd => ?_
    exact (chainBind hcall hd (.always (hc.mono hMN))).map fun N' x x' _ hx => hx.chain
  case truncated =>
    simp only [ChainOp.apply, hb.number?, ha.truncated]
    cases b.number? with
    | some n => exact (text _).map fun M t u _ htu => htu ▸ .text t
    | none => exact misuse _
  case checkFunction =>
    have hnone {α β : Type} {R : Link → α → β → Prop} : Action.LinkedBy W L R
        (Action.text b.shown >>= fun t => Action.fail (.notCallable t a.typeName))
        (Action.text b'.shown >>= fun t => Action.fail (.notCallable t a'.typeName)) := by
      rw [hb.shown, ha.typeName]
      refine (text _).bind fun M t u _ htu => ?_
      subst htu
      exact .fail (.failure fun _ => ⟨trivial, rfl⟩)
    cases Value.shape ha with
    | function made hf => exact .pure ha
    | _ => exact hnone
  all_goals exact arity

theorem chainMore (o : ChainOp) (ha : Counterpart L a a') (hb : Counterpart L b b')
    (hd : Counterpart L d d') (hvs : Counterpart L vs vs') :
    Action.LinkedBy W L Counterpart (o.apply call (a :: b :: d :: vs))
      (o.apply call' (a' :: b' :: d' :: vs')) := by
  have hmore : Counterpart L (b :: d :: vs) (b' :: d' :: vs') := .cons hb (.cons hd hvs)
  cases o
  case capabilitySet => exact chainSet (.cons ha hmore)
  case done => exact chainDone ha hmore
  case suspended => exact chainSuspended ha hmore
  case declare => exact chainDeclare ha hmore
  case refusal kind => exact chainRefusal kind (.cons ha hmore)
  case writeFormat =>
    cases vs with
    | nil =>
      obtain rfl := hvs.nil_left
      exact (fillWith ha hb hd).bind fun M t t' _ ht => performValue (.log ht)
    | cons x vs =>
      obtain ⟨x', vs', rfl, -, -⟩ := hvs.cons_left
      exact arity
  all_goals exact arity

theorem chainOp (hcall : CallsLinked W call call') (o : ChainOp) (hvs : Counterpart L vs vs') :
    Action.LinkedBy W L Counterpart (o.apply call vs) (o.apply call' vs') := by
  match vs with
  | [] =>
    obtain rfl := hvs.nil_left
    cases o
    case capabilitySet => exact chainSet .nil
    case refusal kind => exact chainRefusal kind .nil
    case readLine => exact performValue .readLine
    case tick => exact performValue (.tick (.int 1))
    all_goals exact arity
  | [a] =>
    obtain ⟨a', vs', rfl, ha, hvs⟩ := hvs.cons_left
    obtain rfl := hvs.nil_left
    exact chainOne hcall o ha
  | [a, b] =>
    obtain ⟨a', vs', rfl, ha, hvs⟩ := hvs.cons_left
    obtain ⟨b', vs', rfl, hb, hvs⟩ := hvs.cons_left
    obtain rfl := hvs.nil_left
    exact chainTwo hcall o ha hb
  | a :: b :: d :: vs =>
    obtain ⟨a', vs', rfl, ha, hvs⟩ := hvs.cons_left
    obtain ⟨b', vs', rfl, hb, hvs⟩ := hvs.cons_left
    obtain ⟨d', vs', rfl, hd, hvs⟩ := hvs.cons_left
    exact chainMore o ha hb hd hvs

end

end Action.LinkedBy

end EffectHandlers
