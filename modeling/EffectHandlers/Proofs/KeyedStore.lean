/-
EffectHandlers/Proofs/KeyedStore.lean

The handler of keyed state as a store.

A store is described by the operations that it has answered, and not by the
mapping that it keeps.  After some operations a key reads

    the value last stored under an equal key, or else
    the value under it at the beginning, or else null

(`reads`), where keys are equal as values, so that different values may be
one key.  The mapping (`stored`) has the keys of the beginning in their
places, and then the keys that were first stored since, in order.

Main results: what the handler does with each request, as an equation of
actions (`store_get`, `store_put`, `store_modify`): a function is called once,
on what its key reads, before anything else happens.  In a run against any
combination of handlers with a store among them, every step that the store
takes is one of these operations, after those that it took before, and no
other step changes what it holds (`Advances.ledger`).  `store_keeps_values`
puts them together.
-/
import EffectHandlers.Proofs.Arrangement
import EffectHandlers.Proofs.Meaning
import EffectHandlers.Proofs.Protocol

namespace EffectHandlers

/-! ### Operations and what they store -/

/-- An operation that a store has answered: reading a key, storing a value, and modifying what was
read by a function. -/
inductive Operation
  | get (k answer : Value)
  | put (k v : Value)
  | modify (k f old new : Value)

/-- The key of an operation. -/
def Operation.key : Operation → Value
  | .get k _ | .put k _ | .modify k _ _ _ => k

/-- What an operation stores, and under which key. -/
def Operation.write? : Operation → Option (Value × Value)
  | .get _ _ => none
  | .put k v => some (k, v)
  | .modify k _ _ new => some (k, new)

/-- What some operations have stored, in order. -/
def writes (past : List Operation) : List (Value × Value) := past.filterMap Operation.write?

/-- The value last stored under a key that equals `k`. -/
def lastStored (past : List Operation) (k : Value) : Option Value :=
  Mapping.lookup (writes past).reverse k

/-- What a key reads after some operations. -/
def reads (initial : Mapping) (past : List Operation) (k : Value) : Value :=
  ((lastStored past k).or (initial.lookup k)).getD .null

/-- The mapping after some operations. -/
def stored (initial : Mapping) (past : List Operation) : Mapping :=
  (writes past).foldl (fun m e => m.set e.1 e.2) initial

/-- The keys of a list that equal none that was seen before them, in order. -/
def newKeys (seen : List Value) : List Value → List Value
  | [] => []
  | k :: ks => if seen.any (·.same k) then newKeys seen ks else k :: newKeys (seen ++ [k]) ks

/-! ### The mapping -/

namespace Mapping

theorem lookup_append (m n : Mapping) (k : Value) :
    lookup (m ++ n) k = (m.lookup k).or (n.lookup k) := by
  induction m with
  | nil => rfl
  | cons e rest ih =>
    rw [List.cons_append, lookup_cons, lookup_cons, ih]
    split <;> rfl

theorem isSome_lookup (m : Mapping) (k : Value) :
    (m.lookup k).isSome = m.keys.any (·.same k) := by
  induction m with
  | nil => rfl
  | cons e rest ih =>
    rw [lookup_cons]
    cases h : e.1.same k <;> simp [keys, h, ih]

/-- After some writes the last one under an equal key is read. -/
theorem lookup_foldl_set (m : Mapping) (es : List (Value × Value)) (k : Value) :
    (es.foldl (fun m e => m.set e.1 e.2) m).lookup k
      = (lookup es.reverse k).or (m.lookup k) := by
  induction es generalizing m with
  | nil => rfl
  | cons e es ih =>
    rw [List.foldl_cons, ih, lookup_set, List.reverse_cons, lookup_append, Option.or_assoc,
      lookup_cons]
    split <;> rfl

/-- After some writes the keys are where they were, and the new ones follow in order. -/
theorem keys_foldl_set (m : Mapping) (es : List (Value × Value)) :
    keys (es.foldl (fun m e => m.set e.1 e.2) m)
      = m.keys ++ newKeys m.keys (es.map Prod.fst) := by
  induction es generalizing m with
  | nil => exact (List.append_nil _).symm
  | cons e es ih =>
    rw [List.foldl_cons, ih, keys_set, isSome_lookup, List.map_cons, newKeys]
    split
    · rfl
    · rw [List.append_assoc]
      rfl

theorem Distinct.foldl_set {m : Mapping} (h : m.Distinct) (es : List (Value × Value)) :
    Distinct (es.foldl (fun m e => m.set e.1 e.2) m) := by
  induction es generalizing m with
  | nil => exact h
  | cons e es ih => exact ih (h.set e.1 e.2)

end Mapping

section

variable (initial : Mapping) (past : List Operation)

theorem lookup_stored (k : Value) :
    (stored initial past).lookup k = (lastStored past k).or (initial.lookup k) :=
  Mapping.lookup_foldl_set initial (writes past) k

theorem getD_lookup_stored (k : Value) :
    ((stored initial past).lookup k).getD .null = reads initial past k := by
  rw [lookup_stored]
  rfl

theorem keys_stored :
    (stored initial past).keys
      = initial.keys ++ newKeys initial.keys ((writes past).map Prod.fst) :=
  Mapping.keys_foldl_set initial (writes past)

/-- One more operation. -/
theorem stored_concat (op : Operation) :
    stored initial (past ++ [op]) = match op.write? with
      | some (k, v) => (stored initial past).set k v
      | none => stored initial past := by
  cases op <;> simp [stored, writes, Operation.write?, List.filterMap_cons]

/-- No operation changes what an unequal key reads. -/
theorem reads_concat_of_unequal {op : Operation} {j : Value} (h : op.key.same j = false) :
    reads initial (past ++ [op]) j = reads initial past j := by
  rw [← getD_lookup_stored, ← getD_lookup_stored, stored_concat]
  cases op with
  | get k v => rfl
  | put k v | modify k f old v =>
    have hset := Mapping.lookup_set (stored initial past) k v j
    rw [if_neg (by simpa [Operation.key] using h)] at hset
    exact congrArg (·.getD .null) hset

end

/-! ### Requests -/

theorem Action.ofExcept_ok {α : Type} (a : α) : Action.ofExcept (.ok a) = pure a := rfl

section

variable {call : Call} {id : Nat} {initial : Mapping} {past : List Operation} {e : Effect}
  {k f v : Value}

theorem Handler.readKey_frozen (m : Mapping) (hk : k.keyFault? = none) :
    Handler.readKey (.frozen m) k = .ok ((m.lookup k).getD .null) := by
  simp only [Handler.readKey, Handler.checkKey, hk]
  rfl

theorem Handler.writeKey_frozen (m : Mapping) (hk : k.keyFault? = none) :
    Handler.writeKey (.frozen m) k v = .ok (.frozen (m.set k v)) := by
  simp only [Handler.writeKey, Handler.checkKey, hk]
  rfl

theorem storeStep_get (m : Mapping) (he : e.request = .get k) (hk : k.keyFault? = none) :
    Handler.storeStep call (.frozen m) e
      = e.resume call ((m.lookup k).getD .null) >>= fun next => pure (.frozen m, next) := by
  simp only [Handler.storeStep, he, Handler.readKey_frozen m hk, Action.ofExcept_ok, pure_bind]

theorem storeStep_put (m : Mapping) (he : e.request = .put k v) (hk : k.keyFault? = none) :
    Handler.storeStep call (.frozen m) e
      = e.resume call .null >>= fun next => pure (.frozen (m.set k v), next) := by
  simp only [Handler.storeStep, he, Handler.writeKey_frozen m hk, Action.ofExcept_ok, pure_bind]

theorem storeStep_modify (m : Mapping) (he : e.request = .modify k f) (hk : k.keyFault? = none) :
    Handler.storeStep call (.frozen m) e
      = call.value f [(m.lookup k).getD .null] >>= fun new => e.resume call new >>= fun next =>
        pure (.frozen (m.set k new), next) := by
  simp only [Handler.storeStep, he, Handler.readKey_frozen m hk, Handler.writeKey_frozen m hk,
    Action.ofExcept_ok, pure_bind]

/-- A request of the kind of the store is a step of it. -/
theorem offer_store (he : e.request.isA .state = true) (state : Value) :
    (Handler.store id initial).offer call state e
      = Handler.storeStep call state e >>= fun p => pure (.handled p.1 p.2) := by
  show Handler.whenKind .state e (Handler.storeStep call state e) = _
  rw [Handler.whenKind, if_pos he]
  rfl

/-- **Reading** answers with what the key reads. -/
theorem store_get (he : e.request = .get k) (hk : k.keyFault? = none) :
    (Handler.store id initial).offer call (.frozen (stored initial past)) e
      = e.resume call (reads initial past k) >>= fun next =>
        pure (.handled
          (.frozen (stored initial (past ++ [.get k (reads initial past k)]))) next) := by
  rw [offer_store (by rw [he]; rfl), stored_concat, storeStep_get _ he hk, getD_lookup_stored,
    bind_assoc]
  simp only [pure_bind, Operation.write?]

/-- **Storing** answers with null. -/
theorem store_put (he : e.request = .put k v) (hk : k.keyFault? = none) :
    (Handler.store id initial).offer call (.frozen (stored initial past)) e
      = e.resume call .null >>= fun next =>
        pure (.handled (.frozen (stored initial (past ++ [.put k v]))) next) := by
  rw [offer_store (by rw [he]; rfl), stored_concat, storeStep_put _ he hk, bind_assoc]
  simp only [pure_bind, Operation.write?]

/-- **Modifying** calls the function once, on what the key reads, and stores and answers with what
it gives. -/
theorem store_modify (he : e.request = .modify k f) (hk : k.keyFault? = none) :
    (Handler.store id initial).offer call (.frozen (stored initial past)) e
      = call.value f [reads initial past k] >>= fun new => e.resume call new >>= fun next =>
        pure (.handled
          (.frozen (stored initial (past ++ [.modify k f (reads initial past k) new]))) next) := by
  rw [offer_store (by rw [he]; rfl), storeStep_modify _ he hk, getD_lookup_stored]
  simp only [bind_assoc, pure_bind, stored_concat, Operation.write?]

end

/-! ### Operations of a run -/

variable {ι : Type}

/-- An effect comes to a store in a world, after some operations, and it is an operation that the
store answers; the effect is resumed with the answer. -/
inductive Performs (call : Call) (initial : Mapping) (past : List Operation) (e : Effect)
    (u : World) : Operation → Value → World → Prop
  | get {k next : Value} {w : World} (request : e.request = .get k) (key : k.keyFault? = none)
    (resumes : e.resume call (reads initial past k) u = .value next w) :
    Performs call initial past e u (.get k (reads initial past k)) next w
  | put {k v next : Value} {w : World} (request : e.request = .put k v)
    (key : k.keyFault? = none) (resumes : e.resume call .null u = .value next w) :
    Performs call initial past e u (.put k v) next w
  | modify {k f new next : Value} {u' w : World} (request : e.request = .modify k f)
    (key : k.keyFault? = none)
    (calls : call.value f [reads initial past k] u = .value new u')
    (resumes : e.resume call new u' = .value next w) :
    Performs call initial past e u (.modify k f (reads initial past k) new) next w

/-- What a store takes is an operation on a key that can be one. -/
theorem performs_of_offer {call : Call} {id : Nat} {initial : Mapping} {past : List Operation}
    {e : Effect} {state next : Value} {u w : World}
    (h : (Handler.store id initial).offer call (.frozen (stored initial past)) e u
      = .value (.handled state next) w) :
    ∃ op, Performs call initial past e u op next w ∧
      state = .frozen (stored initial (past ++ [op])) := by
  have hstep := Handler.whenKind_handled h
  cases he : e.request with
  | get k =>
    cases hk : k.keyFault? with
    | none =>
      rw [store_get he hk] at h
      obtain ⟨n, w₁, hresume, hpure⟩ := Action.bind_eq_value.mp h
      obtain ⟨heq, rfl⟩ := Action.pure_eq_value.mp hpure
      cases heq
      exact ⟨_, .get he hk hresume, rfl⟩
    | some found =>
      simp only [Handler.storeStep, he, Handler.readKey, Handler.checkKey, hk] at hstep
      cases hstep
  | put k v =>
    cases hk : k.keyFault? with
    | none =>
      rw [store_put he hk] at h
      obtain ⟨n, w₁, hresume, hpure⟩ := Action.bind_eq_value.mp h
      obtain ⟨heq, rfl⟩ := Action.pure_eq_value.mp hpure
      cases heq
      exact ⟨_, .put he hk hresume, rfl⟩
    | some found =>
      simp only [Handler.storeStep, he, Handler.writeKey, Handler.checkKey, hk] at hstep
      cases hstep
  | modify k f =>
    cases hk : k.keyFault? with
    | none =>
      rw [store_modify he hk] at h
      obtain ⟨new, w₁, hcall, hrest⟩ := Action.bind_eq_value.mp h
      obtain ⟨n, w₂, hresume, hpure⟩ := Action.bind_eq_value.mp hrest
      obtain ⟨heq, rfl⟩ := Action.pure_eq_value.mp hpure
      cases heq
      exact ⟨_, .modify he hk hcall hresume, rfl⟩
    | some found =>
      simp only [Handler.storeStep, he, Handler.readKey, Handler.checkKey, hk] at hstep
      cases hstep
  | _ =>
    simp only [Handler.storeStep, he] at hstep
    cases hstep

variable (call : Call) (hs : ι → Handler) (t : Shape ι) (i : ι) (initial : Mapping) in
/-- The exchanges of a drive against a combination, with the operations that the store at `i` has
answered before them and after them.  A step that the store takes is one more operation, after
those before; a step that another handler takes leaves its state alone. -/
inductive Ledger [DecidableEq ι] : List Operation → List Exchange → List Operation → Prop
  | nil (past : List Operation) : Ledger past [] past
  | own {past now : List Operation} {op : Operation} {xs : List Exchange} {σ : ι → Value}
    {e : Effect} {state next : Value} {w u w' : World}
    (takes : (hs i).offer call (σ i) e u = .value (.handled state next) w')
    (performs : Performs call initial past e u op next w')
    (rest : Ledger (past ++ [op]) xs now) :
    Ledger past (⟨.offer (t.nest σ) e, w,
      .value (.handled (t.nest (Function.update σ i state)) next) w'⟩ :: xs) now
  | other {past now : List Operation} {j : ι} {xs : List Exchange} {σ : ι → Value}
    {e : Effect} {state next : Value} {w u w' : World} (another : i ≠ j)
    (takes : (hs j).offer call (σ j) e u = .value (.handled state next) w')
    (rest : Ledger past xs now) :
    Ledger past (⟨.offer (t.nest σ) e, w,
      .value (.handled (t.nest (Function.update σ j state)) next) w'⟩ :: xs) now

section

variable [DecidableEq ι] {s : Settings} {call : Call} {hs : ι → Handler} {t : Shape ι}
  {A : Handler} {i : ι} {id : Nat} {initial : Mapping}

/-- **The steps of a drive are operations of the store, or leave it alone.** -/
theorem Advances.ledger (hA : Arranged hs t A) (hn : t.leaves.Nodup)
    (hstore : hs i = .store id initial) {p q : Standing} {xs : List Exchange}
    (hsteps : Advances s (A.offer call) p xs q) {past : List Operation} {σ : ι → Value}
    (hp : p.state = t.nest σ) (hσ : σ i = .frozen (stored initial past)) :
    ∃ now τ, Ledger call hs t i initial past xs now ∧ q.state = t.nest τ ∧
      τ i = .frozen (stored initial now) := by
  induction hsteps generalizing past σ with
  | nil p => exact ⟨past, σ, .nil past, hp, hσ⟩
  | @cons n state state' next e r w w' u xs q within handled recorded rest ih =>
    obtain rfl : state = t.nest σ := hp
    obtain ⟨j, v, hoffered, rfl⟩ := (hA.offer_handled_iff hn).mp handled
    obtain ⟨-, v', htakes⟩ := offerEach_some hoffered
    by_cases hij : i = j
    · subst hij
      have hoffer := htakes
      rw [hstore, hσ] at hoffer
      obtain ⟨op, hperforms, rfl⟩ := performs_of_offer hoffer
      obtain ⟨now, τ, hledger, hq, hτ⟩ := ih rfl (Function.update_self _ _ _)
      exact ⟨now, τ, .own htakes hperforms hledger, hq, hτ⟩
    · have hkept : Function.update σ j v i = .frozen (stored initial past) := by
        rw [Function.update_of_ne hij]
        exact hσ
      obtain ⟨now, τ, hledger, hq, hτ⟩ := ih rfl hkept
      exact ⟨now, τ, .other hij htakes hledger, hq, hτ⟩

/-- A store is started with the mapping of the beginning, in every world. -/
theorem start_store (hA : Arranged hs t A) (hn : t.leaves.Nodup)
    (hi : i ∈ t.leaves) (hstore : hs i = .store id initial) {w u : World} {state : Value}
    (h : A.start call w = .value state u) :
    ∃ σ, state = t.nest σ ∧ σ i = .frozen (stored initial []) := by
  rw [hA.start_eq] at h
  obtain ⟨σ, rfl, hleaves⟩ := Shape.visit_value hn h
  obtain ⟨z, z', hstart⟩ := hleaves i hi
  rw [hstore] at hstart
  obtain ⟨hinitial, -⟩ := Action.pure_eq_value.mp hstart
  exact ⟨σ, rfl, hinitial.symm⟩

/-- A store gives the mapping that it holds. -/
theorem finish_store (hA : Arranged hs t A) (hn : t.leaves.Nodup) (hi : i ∈ t.leaves)
    (hstore : hs i = .store id initial) {σ : ι → Value} {w u : World} {output : Value}
    (h : A.finish call (t.nest σ) w = .value output u) :
    ∃ o, output = t.nest o ∧ o i = σ i := by
  rw [hA.finish_eq] at h
  obtain ⟨o, rfl, hleaves⟩ := Shape.visit_value hn h
  obtain ⟨z, z', hfinish⟩ := hleaves i hi
  rw [hstore] at hfinish
  obtain ⟨hkept, -⟩ := Action.pure_eq_value.mp hfinish
  exact ⟨o, rfl, hkept.symm⟩

end

/-- **A store keeps values under keys**, alone or among any handlers.

Each request has the effect of one operation: what is read is the value last stored under an equal
key in this run, or else the initial value, or null, and no operation changes what an unequal key
reads.  The mapping that the store holds has the initial keys in their places, then the keys that
were first stored since, in order.

A run may be begun in any world, also in one that an earlier run has left by a value or a failure.
However far it has come, the steps that the store took are operations from an empty past on, the
others have left it alone, and it holds what these operations have stored; when the run succeeds,
that mapping is its result. -/
theorem store_keeps_values [DecidableEq ι] (call : Call) (hs : ι → Handler) (t : Shape ι)
    (A : Handler) (i : ι) (id : Nat) (initial : Mapping) (hA : Arranged hs t A)
    (hn : t.leaves.Nodup) (hi : i ∈ t.leaves) (hstore : hs i = .store id initial) :
    (∀ past (e : Effect) k, k.keyFault? = none →
      (e.request = .get k → (hs i).offer call (.frozen (stored initial past)) e
        = e.resume call (reads initial past k) >>= fun next => pure (.handled
          (.frozen (stored initial (past ++ [.get k (reads initial past k)]))) next)) ∧
      (∀ v, e.request = .put k v → (hs i).offer call (.frozen (stored initial past)) e
        = e.resume call .null >>= fun next => pure (.handled
          (.frozen (stored initial (past ++ [.put k v]))) next)) ∧
      (∀ f, e.request = .modify k f → (hs i).offer call (.frozen (stored initial past)) e
        = call.value f [reads initial past k] >>= fun new => e.resume call new >>= fun next =>
          pure (.handled
            (.frozen (stored initial (past ++ [.modify k f (reads initial past k) new]))) next))) ∧
    (∀ past (op : Operation) j, op.key.same j = false →
      reads initial (past ++ [op]) j = reads initial past j) ∧
    (∀ past,
      (stored initial past).keys
        = initial.keys ++ newKeys initial.keys ((writes past).map Prod.fst) ∧
      (∀ k, (stored initial past).lookup k = (lastStored past k).or (initial.lookup k)) ∧
      (initial.Distinct → (stored initial past).Distinct)) ∧
    (∀ s c w xs q, RunReaches s call c A w xs q → ∃ past σ,
      Ledger call hs t i initial [] xs past ∧ q.state = t.nest σ ∧
        σ i = .frozen (stored initial past)) ∧
    ∀ s c w v w', run s call c A w = .value v w' → ∃ x o xs q r past,
      RunReaches s call c A w xs q ∧ q.next = .chain (.done x r) ∧
        Ledger call hs t i initial [] xs past ∧ v = .result x (t.nest o) ∧
        o i = .frozen (stored initial past) := by
  have hreached : ∀ s c w xs q, RunReaches s call c A w xs q → ∃ past σ,
      Ledger call hs t i initial [] xs past ∧ q.state = t.nest σ ∧
        σ i = .frozen (stored initial past) := by
    rintro s c w xs q ⟨state, u, hstart, hsteps⟩
    obtain ⟨σ, rfl, hσ⟩ := start_store hA hn hi hstore hstart
    exact hsteps.ledger hA hn hstore rfl hσ
  refine ⟨fun past e k hk => ⟨fun he => ?_, fun v he => ?_, fun f he => ?_⟩, fun past op j => ?_,
    fun past => ⟨keys_stored initial past, lookup_stored initial past, ?_⟩, hreached, ?_⟩
  · rw [hstore]
    exact store_get he hk
  · rw [hstore]
    exact store_put he hk
  · rw [hstore]
    exact store_modify he hk
  · exact reads_concat_of_unequal initial past
  · intro h
    exact h.foldl_set (writes past)
  · intro s c w v w' hrun
    obtain ⟨xs, d, r, u, output, hreaches, hfinish, rfl⟩ := run_value_reaches hrun
    obtain ⟨past, σ, hledger, hstate, hσ⟩ := hreached s c w xs _ hreaches
    have hfinished : A.finish call (t.nest σ) (d.closed u) = .value output w' := by
      rw [← hstate]
      exact hfinish
    obtain ⟨o, rfl, ho⟩ := finish_store hA hn hi hstore hfinished
    exact ⟨d.value, o, xs, _, r, past, hreaches, rfl, hledger, rfl, by rw [ho, ← hσ]⟩

/-- A counter, and a store with something under the key one. -/
def counted : Fin 2 → Handler
  | 0 => .counter 1
  | 1 => .store 2 [(.int 1, .text "a")]

/-- Storing under the key true, which equals one. -/
def putTrue : Effect := (Effect.of (.put (.bool true) (.int 5))).map .lift

theorem putTrue_offer (call : Call) (w : World) :
    (Handler.pair 0 (.counter 1) (.store 2 [(.int 1, .text "a")])).offer call
        (.tuple [.int 0, .frozen [(.int 1, .text "a")]]) putTrue w
      = .value (.handled (.tuple [.int 0, .frozen [(.int 1, .int 5)]])
          (.chain (.done .null ∅))) w := by
  have hresume : putTrue.resume call .null = pure (.chain (.done .null ∅)) := by
    rw [putTrue, Effect.resume_map, Effect.resume_of]
    rfl
  show (((putTrue.resume call .null >>= _) >>= _) >>= _) w = _
  rw [hresume]
  rfl

theorem run_putTrue (call : Call) (w : World) :
    ∃ w', run ⟨false, 5⟩ call (.suspended putTrue (.single ⟨"state"⟩))
        (.pair 0 (.counter 1) (.store 2 [(.int 1, .text "a")])) w
      = .value (.result .null (.tuple [.int 0, .frozen [(.int 1, .int 5)]])) w' := by
  have hcheck : checkProvided (.suspended putTrue (.single ⟨"state"⟩))
      (.pair 0 (.counter 1) (.store 2 [(.int 1, .text "a")])) w = .value () w := rfl
  obtain ⟨w₁, hopen⟩ : ∃ w₁, openRun call
      (.pair 0 (.counter 1) (.store 2 [(.int 1, .text "a")])) w
      = .value (.tuple [.int 0, .frozen [(.int 1, .text "a")]]) w₁ := ⟨_, rfl⟩
  rw [run, runBy, Action.bind_of_value hcheck, Action.bind_of_value hopen]
  show ∃ w', (drive ⟨false, 5⟩ _ 5 0 _ _ >>= _) w₁ = _
  rw [drive_suspended, bind_assoc, Action.bind_of_value (putTrue_offer call w₁)]
  exact ⟨_, rfl⟩

/-- What is stored under true takes the place of what was under one. -/
theorem store_keeps_values_one :
    ∃ past w', run ⟨false, 5⟩ (Callable.meaning ⟨false, 5⟩)
        (.suspended putTrue (.single ⟨"state"⟩))
        (.pair 0 (.counter 1) (.store 2 [(.int 1, .text "a")])) (.initial "")
        = .value (.result .null (.tuple [.int 0, .frozen [(.int 1, .int 5)]])) w' ∧
      (∃ xs, Ledger (Callable.meaning ⟨false, 5⟩) counted (.pair (.leaf 0) (.leaf 1)) 1
        [(.int 1, .text "a")] [] xs past) ∧
      stored [(.int 1, .text "a")] past = [(.int 1, .int 5)] := by
  have hA : Arranged counted (.pair (.leaf 0) (.leaf 1))
      (.pair 0 (.counter 1) (.store 2 [(.int 1, .text "a")])) := .pair 0 (.leaf 0) (.leaf 1)
  obtain ⟨-, -, -, -, hruns⟩ := store_keeps_values (Callable.meaning ⟨false, 5⟩) counted
    (.pair (.leaf 0) (.leaf 1)) _ 1 2 [(.int 1, .text "a")] hA (by decide) (by decide) rfl
  obtain ⟨w', hrun⟩ := run_putTrue (Callable.meaning ⟨false, 5⟩) (.initial "")
  obtain ⟨x, o, xs, q, r, past, -, -, hledger, hresult, ho⟩ := hruns _ _ _ _ _ hrun
  obtain ⟨-, houtput⟩ := Value.result.inj hresult
  obtain ⟨-, houtput⟩ := List.cons.inj (Value.tuple.inj houtput)
  obtain ⟨hstored, -⟩ := List.cons.inj houtput
  refine ⟨past, w', hrun, ⟨xs, hledger⟩, ?_⟩
  exact (Value.frozen.inj (hstored.trans ho)).symm

end EffectHandlers
