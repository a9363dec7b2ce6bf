/-
EffectHandlers/Proofs/Variation/Calls.lean

Calls of functions that vary.

A function is called on either side with the other calls that it makes
answered on that side.  If those are linked, so is the call of the function;
by induction on the depth of calls all of them are.  In the limit no call is
bounded any more, and what comes of one side comes of the other one.

Main result: `callsUnfolded_meaning`.
-/
import EffectHandlers.Proofs.Meaning
import EffectHandlers.Proofs.Variation.Routines

namespace EffectHandlers

open Action.LinkedBy hiding pure bind fail map

/-! ### The same routine -/

/-- The scope in which the variables that a text mentions are plain, and nothing is known of the
other ones. -/
noncomputable def Scope.mentioning (names : List String) : Scope :=
  fun x => ⟨if x ∈ names then .plain else .unknown, false⟩

section

variable {loose : Bool} {L : Link} {names : List String} {env env' : Env}

theorem Scope.mentioning_isPlain {x : String} (hx : x ∈ names) :
    (Scope.mentioning names x).role.IsPlain := by
  rw [Scope.mentioning, if_pos hx]
  trivial

theorem Scope.plain_le_mentioning (x : String) : .plain ≤ (Scope.mentioning names x).role := by
  rw [Scope.mentioning]
  split
  · exact Role.le_refl _
  · exact .unknown _

theorem Env.Mentioned.varied (h : Env.Mentioned L names env env') :
    EnvVaried loose L (Scope.mentioning names) env env' where
  bound x hx := by cases hx
  both x hx := by
    rw [Scope.mentioning] at hx
    split at hx
    · rename_i hmem
      exact (h x hmem).isSome.symm
    · exact absurd rfl hx
  values x v v' hv hv' := by
    rw [Scope.mentioning]
    split
    · rename_i hmem
      have hcounterpart := h x hmem
      rw [hv, hv'] at hcounterpart
      cases counterpart_option.mp hcounterpart with
      | some h => exact .plain h trivial
    · exact .unknown v v'

variable {s : Stmt} {ss : List Stmt} {e : Expr}

/-- The same expression in the role of a variable. -/
theorem Expr.Varies.assigned (h : ∀ x ∈ e.names, x ∈ names) (x : String) :
    Expr.Varies loose (Scope.mentioning names) (Scope.mentioning names x).role e e :=
  .weaken (.same fun y hy => Scope.mentioning_isPlain (h y hy)) (Scope.plain_le_mentioning x)

mutual

/-- The same statement varies in the scope of what it mentions. -/
theorem Stmt.varies_self : ∀ (s : Stmt), (∀ x ∈ s.names, x ∈ names) →
    Stmt.Varies loose (Scope.mentioning names) .plain s s
  | .yield _ _, h =>
    .yield (.same fun x hx => Scope.mentioning_isPlain (h x hx))
      fun x _ => Scope.plain_le_mentioning x
  | .assign x _, h => .assign (.assigned h x)
  | .eval _, h => .eval (.same fun x hx => Scope.mentioning_isPlain (h x hx))
  | .exit _, h => .exit (.same fun x hx => Scope.mentioning_isPlain (h x hx))
  | .cond _ yes no, h =>
    .cond (.same fun x hx => Scope.mentioning_isPlain
        (h x (List.mem_append_left _ (List.mem_append_left _ hx))))
      (stmtsVary_self yes fun x hx => h x (List.mem_append_left _ (List.mem_append_right _ hx)))
      (stmtsVary_self no fun x hx => h x (List.mem_append_right _ hx))
  | .each x _ body, h =>
    .each .plain (.same fun y hy => Scope.mentioning_isPlain (h y (List.mem_append_left _ hy)))
      (Scope.plain_le_mentioning x)
      (stmtsVary_self body fun y hy => h y (List.mem_append_right _ hy))
termination_by structural s => s

/-- The same statements vary in the scope of what they mention. -/
theorem stmtsVary_self : ∀ (ss : List Stmt), (∀ x ∈ stmtsNames ss, x ∈ names) →
    stmtsVary loose (Scope.mentioning names) .plain ss ss
  | [], _ => .nil _ _
  | s :: ss, h =>
    .cons (Stmt.varies_self s fun x hx => h x (List.mem_append_left _ hx))
      (stmtsVary_self ss fun x hx => h x (List.mem_append_right _ hx))
termination_by structural ss => ss

end

end

/-! ### Arguments -/

section

variable {L : Link} {names : List String}

/-- Parameters are bound on both sides, or on neither. -/
theorem Env.Mentioned.setAll {env env' : Env} (h : Env.Mentioned L names env env')
    (params : List String) {args args' : List Value} (hargs : Counterpart L args args') :
    Option.Rel (Env.Mentioned L names) (Env.setAll? env params args)
      (Env.setAll? env' params args') := by
  induction params generalizing env env' args args' with
  | nil =>
    cases args with
    | nil =>
      obtain rfl := hargs.nil_left
      exact .some h
    | cons a args =>
      obtain ⟨a', args', rfl, -, -⟩ := hargs.cons_left
      exact .none
  | cons p params ih =>
    cases args with
    | nil =>
      obtain rfl := hargs.nil_left
      exact .none
    | cons a args =>
      obtain ⟨a', args', rfl, ha, hargs⟩ := hargs.cons_left
      exact ih (h.set ha) hargs

/-- A function is entered if the number of its arguments is right. -/
theorem Action.LinkedBy.entered {W : Comparing} {α β : Type} {R : Link → α → β → Prop}
    {P : Env → Env → Prop} {o o' : Option Env} (h : Option.Rel P o o') {f : Env → Action α}
    {g : Env → Action β} (hnext : ∀ env env', P env env' → Action.LinkedBy W L R (f env) (g env')) :
    Action.LinkedBy W L R (Action.require .arity o >>= f) (Action.require .arity o' >>= g) := by
  cases h with
  | none => exact arity
  | some h => exact hnext _ _ h

end

/-! ### One call -/

section

variable {W : Comparing} {L : Link} {s s' : Settings} {call call' : Call} {f f' : Callable}
  {args args' : List Value} {ρ : Role} {takes : List Role}

/-- What a program that is not resumed comes to: a chain, or a finished one of its value. -/
def Chain.ofResult : Value → Chain
  | .chain c => c
  | v => .finished v

theorem applyWith_plain (id : Nat) (requires : CapabilitySet) (params : List String) (body : Expr)
    (env : Env) :
    (Callable.program id requires params (.plain body) env).applyWith s call args
      = Action.require .arity (Env.setAll? env params args) >>= fun env =>
        body.eval s call env >>= fun v => pure (.chain ((Chain.ofResult v).declare requires)) := by
  rw [Callable.applyWith]
  refine congrArg (_ >>= ·) (funext fun env => congrArg (_ >>= ·) (funext fun v => ?_))
  cases v <;> rfl

theorem Counterpart.ofChain {c c' : Chain} (h : Counterpart L (Value.chain c) (.chain c')) :
    Counterpart L c c' := by
  cases Value.shape h with
  | chain hc => exact hc

theorem Counterpart.ofResult {v v' : Value} (h : Counterpart L v v') :
    Counterpart L (Chain.ofResult v) (Chain.ofResult v') := by
  have hfinished := h.finished
  cases Value.shape h with
  | chain hc => exact hc
  | _ => exact hfinished

theorem Chain.Varies.ofResult {loose : Bool} {v v' : Value} (h : Varied loose L .chain v v') :
    Chain.Varies loose L (Chain.ofResult v) (Chain.ofResult v') := by
  obtain hsame | hwaiting := h.chain_cases
  · exact .same hsame.ofResult
  · obtain ⟨e, e', r, rfl, rfl⟩ := hwaiting.waiting_cases
    exact .made hwaiting

/-- A function is called on counterparts as its counterpart is. -/
theorem applyWith_same (hs : W.Fits s s') (hcall : CallsUnfolded W call call')
    (hf : Counterpart L f f') (hargs : Counterpart L args args') :
    Action.LinkedBy W L Counterpart (f.applyWith s call args) (f'.applyWith s' call' args') := by
  have heval := hcall.evaluation hs
  cases Callable.shape hf with
  | closure params body hid hbindings =>
    exact .entered (Env.Mentioned.setAll hbindings params hargs) fun env env' henv =>
      Expr.linked hs hcall.toCallsLinked body henv
  | fixpoint name params body hid hbindings =>
    refine .entered (Env.Mentioned.setAll (Env.Mentioned.set hbindings ?_) params hargs)
      fun env env' henv => Expr.linked hs hcall.toCallsLinked body henv
    exact .function trivial hf
  | program requires params body hid hbindings =>
    cases body with
    | resumable body =>
      refine .entered (Env.Mentioned.setAll hbindings params hargs) fun env env' henv => ?_
      exact (begin heval hs.enough true rfl (stmtsVary_self body fun _ hx => hx)
        henv.varied).map fun M c c' _ hc =>
          ((Varied.plain_iff.mp hc).ofChain.declare requires).chain
    | plain body =>
      rw [applyWith_plain, applyWith_plain]
      refine .entered (Env.Mentioned.setAll hbindings params hargs) fun env env' henv => ?_
      exact (Expr.linked hs hcall.toCallsLinked body henv).map fun M v v' _ hv =>
        (hv.ofResult.declare requires).chain
  | resumption h hid =>
    match args with
    | [a] =>
      obtain ⟨a', args', rfl, ha, hargs⟩ := hargs.cons_left
      obtain rfl := hargs.nil_left
      exact (resumeCall heval ⟨hid.1, if_pos hid.2⟩ hs.enough h ha).map fun M c c' _ hc =>
        Varied.plain_iff.mp hc
    | [] =>
      obtain rfl := hargs.nil_left
      exact arity
    | _ :: _ :: _ =>
      obtain ⟨a', args', rfl, -, hargs⟩ := hargs.cons_left
      obtain ⟨a', args', rfl, -, -⟩ := hargs.cons_left
      exact arity

/-- A function is called as the one that it varies from. -/
theorem applyWith_varied (hs : W.Fits s s') (hcall : CallsUnfolded W call call')
    (hf : Varied W.loose L (.function takes ρ) (.function f) (.function f'))
    (hargs : valuesVary W.loose L takes args args') :
    Action.LinkedBy W L (fun M => Varied W.loose M ρ) (f.applyWith s call args)
      (f'.applyWith s' call' args') := by
  have heval := hcall.evaluation hs
  cases hf with
  | plain _ hρ => cases hρ
  | closure hbody hΓ henv =>
    exact .entered (EnvVaried.setAll ⟨hΓ, henv⟩ _ hargs) fun env env' henv =>
      hbody.linked hs hcall henv
  | fixpoint hbody hΓ henv =>
    refine .entered (EnvVaried.setAll (EnvVaried.set ⟨hΓ, henv⟩ ?_) _ hargs) fun env env' henv =>
      hbody.linked hs hcall henv
    exact .fixpoint hbody hΓ henv
  | program hscope hbody hΓ henv =>
    cases hbody with
    | resumable h =>
      refine .entered (EnvVaried.setAll ⟨hΓ, henv⟩ _ hargs) fun env env' henv => ?_
      exact (begin heval hs.enough false rfl h (henv.weaken hscope)).map fun M c c' _ hc =>
        .chain (Chain.Varies.declare hc.of_chain _)
    | plain h =>
      rw [applyWith_plain, applyWith_plain]
      refine .entered (EnvVaried.setAll ⟨hΓ, henv⟩ _ hargs) fun env env' henv => ?_
      exact (h.linked hs hcall (henv.weaken hscope)).map fun M v v' _ hv =>
        .chain ((Chain.Varies.ofResult hv).declare _)
  | resumption h hid =>
    cases hargs with
    | cons ha hargs =>
      cases hargs
      refine (resumeCall heval ⟨hid, rfl⟩ hs.enough h (Varied.plain_iff.mp ha)).map
        fun M c c' _ hc => ?_
      rw [Link.role] at hc
      split at hc
      · exact .plain (Varied.plain_iff.mp hc) trivial
      · exact hc
  | sameFunction h hρ =>
    exact (applyWith_same hs hcall h.callable (hargs.counterpart hρ.1)).mono
      fun _ _ _ _ hv => .plain hv hρ.2
  | building h =>
    cases h with
    | plain _ h => cases h
    | builder hparams hbody hΓ henv =>
      refine .entered (EnvVaried.setAll ⟨hΓ, henv⟩ _ hargs) fun env env' henv => ?_
      refine .of_drawn fun w w' => ?_
      obtain ⟨v, v', n, n', hv, hv', hvaried⟩ := hbody.eval henv w w'
      exact ⟨v, v', n, n', hv.le, hv'.le, hv.eq s call, hv'.eq s' call', .chain hvaried⟩

end

/-! ### All calls -/

section

variable {W : Comparing} {s s' : Settings}

/-- If the calls that functions make are linked, the calls of the functions are. -/
theorem CallsUnfolded.applyWith {call call' : Call} (hs : W.Fits s s')
    (hcall : CallsUnfolded W call call') :
    CallsLinked W (fun f args => f.applyWith s call args)
      (fun f args => f.applyWith s' call' args) where
  same := applyWith_same hs hcall
  function := applyWith_varied hs hcall

end

end EffectHandlers
