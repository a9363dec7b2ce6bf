/-
EffectHandlers/Proofs/Frame.lean

What does not concern a computation.

A computation over values that hold no resumption of a call neither reads
nor changes the record of that call.  It does not read the events either,
it only adds to them.  Both are one statement: the computation commutes
with putting other contents into the record and other events before its own
(`World.beside`).  The call is optional: without one, the statement is about
earlier events only.

The invariant that carries the induction is that everything outside the
record keeps to a regime that excludes resumptions of the call
(`World.Clean`).

Main results: the statement is a discipline (`frame`), so it holds of
everything that the interpreter does (`frame_meaning`).
-/
import EffectHandlers.Proofs.Meaning

namespace EffectHandlers

/-! ### Worlds that differ in what does not concern -/

/-- The records of calls with other contents in one of them, if any. -/
def recordsBeside (xs : Array Invocation) (i : Invocation) : Option Nat → Array Invocation
  | some id => xs.setIfInBounds id i
  | none => xs

@[simp] theorem recordsBeside_some (xs : Array Invocation) (i : Invocation) (id : Nat) :
    recordsBeside xs i (some id) = xs.setIfInBounds id i := rfl

/-- The world with other contents in the record of a call, if there is one, and with events
before its own. -/
def World.beside (id : Option Nat) (i : Invocation) (earlier : List Event) (w : World) : World :=
  { w with
    invocations := recordsBeside w.invocations i id
    events := w.events ++ earlier }

/-- The outcome with its world changed. -/
def Outcome.inWorld {α : Type} (g : World → World) : Outcome α → Outcome α
  | .value a w => .value a (g w)
  | .failed f w => .failed f (g w)
  | .exhausted => .exhausted

/-- Everything in the record of a call keeps to a regime. -/
structure Invocation.Obeys (R : Regime) (i : Invocation) : Prop where
  body : stmtsUse R.op i.body
  env : Env.Obeys R i.env
  positions (gen : Nat) (c : Coroutine) : i.coroutines[gen]? = some c → c.position.Obeys R
  answers (h : Nat) (vs : List Value) : i.histories[h]? = some vs → ∀ v ∈ vs, v.Obeys R

/-- A call was made, and everything outside its record keeps to a regime. -/
structure World.Clean (R : Regime) (id : Option Nat) (w : World) : Prop where
  made (k : Nat) : id = some k → k < w.invocations.size
  cells (a : Nat) (v : Value) : w.cells[a]? = some v → v.Obeys R
  journals (j : Nat) (vs : List Value) : w.journals[j]? = some vs → ∀ v ∈ vs, v.Obeys R
  records (k : Nat) (i : Invocation) : some k ≠ id → w.invocations[k]? = some i → i.Obeys R

/-- Everything in a world keeps to a regime. -/
structure World.Obeys (R : Regime) (w : World) : Prop where
  cells (a : Nat) (v : Value) : w.cells[a]? = some v → v.Obeys R
  journals (j : Nat) (vs : List Value) : w.journals[j]? = some vs → ∀ v ∈ vs, v.Obeys R
  records (k : Nat) (i : Invocation) : w.invocations[k]? = some i → i.Obeys R

/-- After a new call, everything outside its record is as before. -/
theorem World.Obeys.push {R : Regime} {w : World} (hw : w.Obeys R) (i : Invocation) :
    World.Clean R (some w.invocations.size) { w with invocations := w.invocations.push i } where
  made k hk := by
    cases hk
    simp
  cells := hw.cells
  journals := hw.journals
  records k j hk hj := by
    have hne : k ≠ w.invocations.size := fun h => hk (congrArg some h)
    refine hw.records k j ?_
    simpa only [Array.getElem?_push, if_neg hne] using hj

/-- A world that keeps to a regime is clean, without a call that is left out. -/
theorem World.Obeys.clean {R : Regime} {w : World} (hw : w.Obeys R) : World.Clean R none w where
  made _ hk := by cases hk
  cells := hw.cells
  journals := hw.journals
  records k i _ hi := hw.records k i hi

/-- A world that is clean, without a call that is left out, keeps to the regime. -/
theorem World.Clean.obeys {R : Regime} {w : World} (hw : w.Clean R none) : w.Obeys R where
  cells := hw.cells
  journals := hw.journals
  records k i hi := hw.records k i nofun hi

theorem World.obeys_initial (R : Regime) (input : String) : (World.initial input).Obeys R where
  cells a v h := by simp [World.initial] at h
  journals j vs h := by simp [World.initial] at h
  records k i h := by simp [World.initial] at h

/-- Every world keeps to the regime that excludes nothing. -/
theorem World.clean_free (w : World) : w.Clean .free none where
  made _ h := by cases h
  cells _ v _ := v.obeys_free
  journals _ _ _ v _ := v.obeys_free
  records _ i _ _ :=
    { body := stmtsUse_any i.body
      env := fun b _ => b.2.obeys_free
      positions := fun _ c _ => c.position.obeys_free
      answers := fun _ _ _ v _ => v.obeys_free }

theorem Array.modify_setIfInBounds {α : Type} (xs : Array α) {k id : Nat} (h : k ≠ id) (x : α)
    (f : α → α) : (xs.setIfInBounds id x).modify k f = (xs.modify k f).setIfInBounds id x := by
  apply Array.ext_getElem?
  intro j
  by_cases hj : id = j
  · subst hj
    simp [Array.getElem?_modify, Array.getElem?_setIfInBounds, h]
  · simp [Array.getElem?_modify, hj]

section

variable {R : Regime} {id : Option Nat} {k : Nat} {w : World}

theorem World.changeCall_beside (h : some k ≠ id) (i : Invocation) (es : List Event)
    (f : Invocation → Invocation) :
    (w.beside id i es).changeCall k f = (w.changeCall k f).beside id i es := by
  cases id with
  | none => rfl
  | some id =>
    have hk : k ≠ id := fun hk => h (congrArg some hk)
    simp only [World.beside, recordsBeside, World.changeCall,
      Array.modify_setIfInBounds w.invocations hk]

theorem World.invocations_beside (h : some k ≠ id) (i : Invocation) (es : List Event) :
    (w.beside id i es).invocations[k]? = w.invocations[k]? := by
  cases id with
  | none => rfl
  | some id =>
    have hk : k ≠ id := fun hk => h (congrArg some hk)
    simp [World.beside, recordsBeside, Ne.symm hk]

/-- A change of another record keeps everything clean if the record stays so. -/
theorem World.Clean.changeCall (hw : w.Clean R id) {f : Invocation → Invocation}
    (hf : ∀ i, i.Obeys R → (f i).Obeys R) : (w.changeCall k f).Clean R id where
  made j hj := by simpa [World.changeCall] using hw.made j hj
  cells := hw.cells
  journals := hw.journals
  records j i hj hi := by
    simp only [World.changeCall, Array.getElem?_modify] at hi
    split at hi
    · obtain ⟨i', hi', rfl⟩ := Option.map_eq_some_iff.mp hi
      exact hf i' (hw.records j i' hj hi')
    · exact hw.records j i hj hi

/-! ### The frame -/

/-- What an action comes to does not depend on the record of a call nor on earlier events, and
leaves everything clean. -/
def Framed {α : Type} (R : Regime) (id : Option Nat) (P : α → Prop) (x : Action α) : Prop :=
  ∀ w, w.Clean R id →
    (∀ i es, x (w.beside id i es) = (x w).inWorld (World.beside id i es)) ∧
    ∀ a w', x w = .value a w' → P a ∧ w'.Clean R id

theorem Framed.bind {α β : Type} {P : α → Prop} {Q : β → Prop} {x : Action α}
    {f : α → Action β} (hx : Framed R id P x) (hf : ∀ a, P a → Framed R id Q (f a)) :
    Framed R id Q (x >>= f) := by
  intro w hw
  obtain ⟨hcomm, hclean⟩ := hx w hw
  cases hxw : x w with
  | value a w' =>
    obtain ⟨ha, hw'⟩ := hclean a w' hxw
    obtain ⟨hcomm', hclean'⟩ := hf a ha w' hw'
    refine ⟨fun i es => ?_, fun b w'' hb => ?_⟩
    · rw [Action.bind_apply, Action.bind_apply, hcomm, hxw]
      exact hcomm' i es
    · rw [Action.bind_apply, hxw] at hb
      exact hclean' b w'' hb
  | failed | exhausted =>
    refine ⟨fun i es => ?_, fun b w'' hb => ?_⟩
    · rw [Action.bind_apply, Action.bind_apply, hcomm, hxw]
      rfl
    · rw [Action.bind_apply, hxw] at hb
      cases hb

/-- What is known of every value of an action is known after it. -/
theorem Framed.and {α : Type} {P Q : α → Prop} {x : Action α} (hx : Framed R id P x)
    (hQ : ∀ w a w', x w = .value a w' → Q a) : Framed R id (fun a => P a ∧ Q a) x := by
  intro w hw
  obtain ⟨hcomm, hclean⟩ := hx w hw
  refine ⟨hcomm, fun a w' ha => ?_⟩
  obtain ⟨hP, hw'⟩ := hclean a w' ha
  exact ⟨⟨hP, hQ w a w' ha⟩, hw'⟩

/-- An exchange is framed if it commutes with what does not concern it. -/
theorem Framed.exchange {α : Type} {P : α → Prop} {f : World → α × World}
    (hcomm : ∀ w, w.Clean R id → ∀ i es,
      f (w.beside id i es) = ((f w).1, (f w).2.beside id i es))
    (hclean : ∀ w, w.Clean R id → P (f w).1 ∧ (f w).2.Clean R id) :
    Framed R id P (Action.exchange f) := by
  intro w hw
  refine ⟨fun i es => ?_, fun a w' h => ?_⟩
  · show Outcome.value _ _ = Outcome.value _ _
    rw [hcomm w hw i es]
  · cases h
    exact hclean w hw

/-- A change of the record of another call is framed. -/
theorem Framed.changeCall {f : Invocation → Invocation} (h : some k ≠ id)
    (hf : ∀ i, i.Obeys R → (f i).Obeys R) :
    Framed R id (fun _ => True) (Action.change fun w => w.changeCall k f) := by
  intro w hw
  refine ⟨fun i es => ?_, fun a w' hw' => ?_⟩
  · exact congrArg (Outcome.value ()) (World.changeCall_beside h i es f)
  · cases hw'
    exact ⟨trivial, hw.changeCall hf⟩

/-- Reading the record of another call is framed. -/
theorem Framed.askCall {α : Type} {P : α → Prop} {g : Option Invocation → α} (h : some k ≠ id)
    (hg : ∀ o, (∀ i, o = some i → i.Obeys R) → P (g o)) :
    Framed R id P (Action.ask fun w => g w.invocations[k]?) := by
  intro w hw
  refine ⟨fun i es => ?_, fun a w' hw' => ?_⟩
  · exact congrArg (fun o => Outcome.value (g o) _) (World.invocations_beside h i es)
  · cases hw'
    exact ⟨hg _ fun i hi => hw.records k i h hi, hw⟩

/-! ### Accesses to records -/

theorem Framed.ret {α : Type} {P : α → Prop} {a : α} (ha : P a) : Framed R id P (pure a) := by
  intro w hw
  refine ⟨fun _ _ => rfl, fun a w' h => ?_⟩
  cases h
  exact ⟨ha, hw⟩

theorem Framed.fail {α : Type} (P : α → Prop) (f : Failure) :
    Framed R id P (Action.fail f) :=
  fun _ _ => ⟨fun _ _ => rfl, fun _ _ h => by cases h⟩

theorem Framed.exhaust {α : Type} (P : α → Prop) : Framed R id P Action.exhaust :=
  fun _ _ => ⟨fun _ _ => rfl, fun _ _ h => by cases h⟩

theorem Framed.require {α : Type} {P : α → Prop} (f : Failure) {x : Option α}
    (h : ∀ a, x = some a → P a) : Framed R id P (Action.require f x) := by
  rcases x with _ | a
  · exact Framed.fail P f
  · exact Framed.ret (h a rfl)

theorem Framed.recordOf (h : some k ≠ id) :
    Framed R id (Invocation.Obeys R) (Invocation.recordOf k) :=
  Framed.bind (P := fun o => ∀ i, o = some i → i.Obeys R)
    (Framed.askCall (g := fun o => o) h fun _ ho => ho) fun _ ho => Framed.require _ ho

theorem Framed.create {body : List Stmt} (hbody : stmtsUse R.op body) {env : Env}
    (henv : Env.Obeys R env) :
    Framed R id (fun k => some k ≠ id) (Invocation.create body env) := by
  refine Framed.exchange (fun w hw i es => ?_) fun w hw => ⟨?_, ?_⟩
  · cases id with
    | none => rfl
    | some id =>
      have hpush (x : Invocation) : (w.invocations.setIfInBounds id i).push x
          = (w.invocations.push x).setIfInBounds id i := by
        apply Array.ext_getElem?
        intro j
        have := hw.made id rfl
        grind
      simp [World.beside, recordsBeside, hpush]
  · intro hk
    exact absurd (hw.made _ hk.symm) (Nat.lt_irrefl _)
  · refine { hw with made := fun k hk => ?_, records := fun j i hj hi => ?_ }
    · simpa using Nat.lt_succ_of_lt (hw.made k hk)
    · simp only [Array.getElem?_push] at hi
      split at hi
      · cases hi
        refine ⟨hbody, henv, by simp, fun h vs hvs => ?_⟩
        rcases h with _ | h
        · cases hvs
          simp
        · cases hvs
      · exact hw.records j i hj hi

theorem Framed.spawn (h : some k ≠ id) : Framed R id (fun _ => True) (Invocation.spawn k) := by
  refine Framed.bind (Framed.recordOf h) fun i _ => ?_
  refine Framed.bind (x := Action.change _) (Framed.changeCall h fun i hi => ?_) fun _ _ =>
    Framed.ret (a := i.coroutines.size) trivial
  refine { hi with positions := fun gen c hc => ?_ }
  simp only [Array.getElem?_push] at hc
  split at hc
  · cases hc
    exact ⟨hi.body, hi.env⟩
  · exact hi.positions gen c hc

theorem Framed.extendHistory (h : some k ≠ id) (n : Nat) {answer : Value} (ha : answer.Obeys R) :
    Framed R id (fun _ => True) (Invocation.extendHistory k n answer) := by
  refine Framed.bind (Framed.recordOf h) fun i hi => ?_
  refine Framed.bind (Framed.require _ fun vs hvs => hi.answers n vs hvs) fun earlier he => ?_
  refine Framed.bind (x := Action.change _) (Framed.changeCall h fun i hi => ?_) fun _ _ =>
    Framed.ret (a := i.histories.size) trivial
  refine { hi with answers := fun m vs hvs => ?_ }
  simp only [Array.getElem?_push] at hvs
  split at hvs
  · cases hvs
    simpa [ha] using he
  · exact hi.answers m vs hvs

/-- Putting a coroutine at a position keeps a record within a regime. -/
theorem Invocation.Obeys.setPosition {i : Invocation} (hi : i.Obeys R) (gen : Nat) {p : Position}
    (hp : p.Obeys R) :
    Invocation.Obeys R
      { i with coroutines := i.coroutines.modify gen ({ · with position := p }) } := by
  refine { hi with positions := fun g c hc => ?_ }
  simp only [Array.getElem?_modify] at hc
  split at hc
  · obtain ⟨c', -, rfl⟩ := Option.map_eq_some_iff.mp hc
    exact hp
  · exact hi.positions g c hc

/-- So does keeping an answer among those that a coroutine received. -/
theorem Invocation.Obeys.receive {i : Invocation} (hi : i.Obeys R) (gen : Nat) (answer : Value) :
    Invocation.Obeys R
      { i with
        coroutines := i.coroutines.modify gen fun c =>
          { c with received := answer :: c.received } } := by
  refine { hi with positions := fun g c hc => ?_ }
  simp only [Array.getElem?_modify] at hc
  split at hc
  · obtain ⟨c', hc', rfl⟩ := Option.map_eq_some_iff.mp hc
    exact hi.positions g c' hc'
  · exact hi.positions g c hc

theorem Framed.execute (h : some k ≠ id) (gen : Nat) {part : Action Exit}
    (hpart : Framed R id (Exit.Obeys R) part) :
    Framed R id (Advance.Obeys R) (Coroutine.execute k gen part) := by
  have beside_at (w : World) (i : Invocation) (es : List Event) (p : Position) :
      (w.beside id i es).setPosition k gen p = (w.setPosition k gen p).beside id i es :=
    World.changeCall_beside h i es _
  have clean_at {w : World} (hw : w.Clean R id) {p : Position} (hp : p.Obeys R) :
      (w.setPosition k gen p).Clean R id :=
    hw.changeCall fun i hi => hi.setPosition gen hp
  intro w hw
  obtain ⟨hcomm, hclean⟩ := hpart _ (clean_at hw (p := .running) trivial)
  constructor
  · intro i es
    simp only [Coroutine.execute, beside_at, hcomm i es]
    cases part (w.setPosition k gen .running) with
    | value exit w' => simp only [Outcome.inWorld, beside_at]
    | failed f w' => simp only [Outcome.inWorld, beside_at]
    | exhausted => rfl
  · intro next w' hnext
    simp only [Coroutine.execute] at hnext
    cases hp : part (w.setPosition k gen .running) with
    | value exit w₁ =>
      obtain ⟨hexit, hw₁⟩ := hclean exit w₁ hp
      rw [hp] at hnext
      cases hnext
      exact ⟨hexit.advance, clean_at hw₁ hexit.position⟩
    | failed f w₁ =>
      rw [hp] at hnext
      cases hnext
    | exhausted =>
      rw [hp] at hnext
      cases hnext

/-! ### The discipline -/

/-- The discipline of what concerns neither the record of a call nor earlier events, for values
that hold no resumption of the call. -/
def frame (R : Regime) (id : Option Nat) (hid : ∀ k, R.call k ↔ some k ≠ id) : CallDiscipline Unit R where
  holds P x := Framed R id P (x ())
  ret := Framed.ret
  fail := Framed.fail
  exhaust := Framed.exhaust
  bind := Framed.bind
  fresh := Framed.exchange (fun _ _ _ _ => rfl) fun w hw => ⟨trivial, { hw with }⟩
  emit e := Framed.exchange (f := fun w => ((), { w with events := e :: w.events }))
    (fun _ _ _ _ => rfl) fun w hw => ⟨trivial, { hw with }⟩
  showValue {v} hv := Framed.exchange
    (f := fun w => ((), { w with events := .traced v w.cells :: w.events }))
    (fun _ _ _ _ => rfl) fun w hw => ⟨trivial, { hw with }⟩
  newCell {v} hv := Framed.exchange (fun _ _ _ _ => rfl) fun w hw => by
    refine ⟨trivial, { hw with cells := fun a u hu => ?_ }⟩
    simp only [Array.getElem?_push] at hu
    split at hu
    · cases hu
      exact hv
    · exact hw.cells a u hu
  readCell a := Framed.exchange (f := fun w => ((w.cells[a]?).getD .null, w))
    (fun _ _ _ _ => rfl) fun w hw => by
    refine ⟨?_, hw⟩
    cases hv : w.cells[a]? with
    | none => trivial
    | some v => exact hw.cells a v hv
  writeCell a {v} hv := Framed.exchange
    (f := fun w => ((), { w with cells := w.cells.setIfInBounds a v }))
    (fun _ _ _ _ => rfl) fun w hw => by
    refine ⟨trivial, { hw with cells := fun b u hu => ?_ }⟩
    simp only [Array.getElem?_setIfInBounds] at hu
    split at hu
    · split at hu
      · cases hu
        exact hv
      · cases hu
    · exact hw.cells b u hu
  newSource s := Framed.exchange (fun _ _ _ _ => rfl) fun w hw => ⟨trivial, { hw with }⟩
  readLine source := Framed.exchange (fun _ _ _ _ => rfl) fun w hw => ⟨trivial, { hw with }⟩
  newJournal := Framed.exchange (fun _ _ _ _ => rfl) fun w hw => by
    refine ⟨trivial, { hw with journals := fun j vs hvs => ?_ }⟩
    simp only [Array.getElem?_push] at hvs
    split at hvs
    · cases hvs
      simp
    · exact hw.journals j vs hvs
  journalEntries journal := Framed.exchange
    (f := fun w => (((w.journals[journal]?).getD []).reverse, w))
    (fun _ _ _ _ => rfl) fun w hw => by
    refine ⟨fun v hv => ?_, hw⟩
    cases hvs : w.journals[journal]? with
    | none => simp [hvs] at hv
    | some vs => exact hw.journals journal vs hvs v (by simpa [hvs] using hv)
  record journal name {v} hv := Framed.exchange
    (f := fun w => ((), { w with
      journals := w.journals.modify journal (.tuple [.text name, v] :: ·) }))
    (fun _ _ _ _ => rfl) fun w hw => by
    refine ⟨trivial, { hw with journals := fun j vs hvs => ?_ }⟩
    simp only [Array.getElem?_modify] at hvs
    split at hvs
    · obtain ⟨us, hus, rfl⟩ := Option.map_eq_some_iff.mp hvs
      simpa [hv] using hw.journals j us hus
    · exact hw.journals j vs hvs
  create hbody henv := by
    have hcall : R.call = fun k => some k ≠ id := funext fun k => propext (hid k)
    rw [hcall]
    exact Framed.create hbody henv
  spawn hk := Framed.spawn ((hid _).mp hk)
  liveOf hk := Framed.askCall (g := fun o => o.bind (·.live)) ((hid _).mp hk) fun _ _ => trivial
  setLive hk l := Framed.changeCall ((hid _).mp hk) fun i hi => { hi with }
  answersOf hk h := Framed.bind (Framed.recordOf ((hid _).mp hk)) fun i hi =>
    Framed.require _ fun vs hvs => hi.answers h vs hvs
  extendHistory hk h _ ha := Framed.extendHistory ((hid _).mp hk) h ha
  standing {k} hk gen := Framed.askCall
    (g := fun o => match o.bind (·.coroutines[gen]?) with
      | some c => c.position
      | none => .finished)
    ((hid k).mp hk) fun o ho => by
    rcases o with _ | i
    · trivial
    · simp only [Option.bind_some]
      split
      · rename_i c hc
        exact (ho i rfl).positions gen c hc
      · trivial
  receive hk gen answer _ := Framed.changeCall ((hid _).mp hk) fun _ hi => hi.receive gen answer
  execute hk gen _ hpart := Framed.execute ((hid _).mp hk) gen hpart

/-- No call is left out. -/
theorem Regime.call_iff (hcall : ∀ k, R.call k) (k : Nat) : R.call k ↔ some k ≠ none :=
  iff_of_true (hcall k) nofun

/-- Calls of any depth do not depend on the record of a call that they have no resumption of. -/
theorem frame_meaning (hid : ∀ k, R.call k ↔ some k ≠ id) (s : Settings) :
    (frame R id hid).Calls fun _ => Callable.meaning s := by
  have hcalls := CallDiscipline.calls (frame R id hid) (Callable.runsAlike_const R s) fun _ => rfl
  intro f args hf hargs w hw
  constructor
  · intro i es
    obtain ⟨n, hn⟩ := Callable.apply_eventually s f args w
    obtain ⟨m, hm⟩ := Callable.apply_eventually s f args (w.beside id i es)
    show Callable.meaning s f args (w.beside id i es)
      = (Callable.meaning s f args w).inWorld (World.beside id i es)
    rw [← hn (max n m) (by omega), ← hm (max n m) (by omega)]
    exact (hcalls (max n m) f args hf hargs w hw).1 i es
  · intro a w' ha
    obtain ⟨n, hn⟩ := Callable.apply_of_meaning s f args w
    exact (hcalls n f args hf hargs w hw).2 a w' (hn.trans ha)

end

end EffectHandlers
