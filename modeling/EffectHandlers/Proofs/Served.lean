/-
EffectHandlers/Proofs/Served.lean

Drives against handlers with a store.

A drive stands somewhere: in a state of the handlers, at a chain that is
continued by the rest of the program.  It goes on by driving that chain
(`goesOn`).  Where the handlers are handlers of the library with a store
among them, a request for the store is one step, and then the drive goes on
with the answer.  A key that cannot be one is found first.

Main statements: the steps (`goesOn_get`, `goesOn_put`, `goesOn_modify` and
`goesOn_fault`), and that the store holds a mapping without equal keys
(`Served.holds`).
-/
import EffectHandlers.Proofs.Continued
import EffectHandlers.Proofs.Identity
import EffectHandlers.Proofs.Shelves

namespace EffectHandlers

/-! ### Handlers with a store -/

/-- A combination of handlers of the library, whose stores start with mappings without equal
keys. -/
structure Handler.OfLibrary (A : Handler) : Prop where
  shipped : ∀ h ∈ A.leaves, h.Shipped
  distinct : ∀ id (initial : Mapping), .store id initial ∈ A.leaves → initial.Distinct

/-- A handler with a store among its components. -/
def Handler.HasStore (A : Handler) : Prop := ∃ h ∈ A.leaves, h.isStore = true

/-- A combination of handlers of the library; a store is the first one of them, and no two keys that
it starts with are equal.  Steps are not recorded: a record that cannot be made would be seen. -/
structure Served {ι : Type} (s : Settings) (hs : ι → Handler) (t : Shape ι) (A : Handler) (i : ι) :
    Prop where
  unrecorded : s.logSteps = false
  arranged : Arranged hs t A
  nodup : t.leaves.Nodup
  shipped : ∀ j ∈ t.leaves, (hs j).Shipped
  first : t.leaves.find? (fun j => (hs j).isStore) = some i
  distinct {id : Nat} {initial : Mapping} : hs i = .store id initial → initial.Distinct

theorem leaves_combine {as : List Handler} {A : Handler} {w w' : World}
    (h : Handler.combine as w = .value A w') : A.leaves = as.flatMap Handler.leaves :=
  (Handler.nested_of_combine h).leaves_eq

/-- A handler of the library with a store among its components is such a combination. -/
theorem exists_served {s : Settings} (hlog : s.logSteps = false) {A : Handler} (hA : A.OfLibrary)
    (hstore : A.HasStore) : ∃ (hs : Nat → Handler) (t : Shape Nat) (i : Nat),
      t.leaves.map hs = A.leaves ∧ Served s hs t A i := by
  obtain ⟨hs, t, hn, hleaves, harranged⟩ := A.exists_arranged
  obtain ⟨_, hmem, hstore⟩ := hstore
  rw [← hleaves] at hmem
  obtain ⟨j, hj, rfl⟩ := List.mem_map.mp hmem
  obtain ⟨i, hi⟩ := Option.isSome_iff_exists.mp
    (List.find?_isSome.mpr ⟨j, hj, hstore⟩ : (t.leaves.find? fun j => (hs j).isStore).isSome = true)
  have hleaf {j : Nat} (hj : j ∈ t.leaves) : hs j ∈ A.leaves := hleaves ▸ List.mem_map_of_mem hj
  refine ⟨hs, t, i, hleaves, hlog, harranged, hn, fun j hj => hA.shipped _ (hleaf hj), hi, ?_⟩
  intro id initial hstore
  exact hA.distinct id initial (hstore ▸ hleaf (List.mem_of_find?_eq_some hi))

section

variable {ι : Type} {s : Settings} {hs : ι → Handler} {t : Shape ι} {A : Handler} {i : ι}

namespace Served

theorem mem (h : Served s hs t A i) : i ∈ t.leaves := List.mem_of_find?_eq_some h.first

theorem isStore (h : Served s hs t A i) : (hs i).isStore = true := by
  simpa using List.find?_some h.first

/-- Whoever takes an effect, the store goes on holding a mapping without equal keys. -/
theorem holds [DecidableEq ι] (h : Served s hs t A i) {σ : ι → Value} {m : Mapping}
    (hσ : σ i = .frozen m) (hm : m.Distinct) {call : Call} {e : Effect} {j : ι}
    {state next : Value} {w w' : World}
    (htaken : offerEach call hs σ e t.leaves w = .value (some (j, state, next)) w') :
    ∃ m' : Mapping, Function.update σ j state i = .frozen m' ∧ m'.Distinct := by
  obtain ⟨-, u, htakes⟩ := offerEach_some htaken
  by_cases hij : i = j
  · subst hij
    obtain ⟨id, initial, hstore⟩ := Handler.isStore_iff.mp h.isStore
    rw [hstore, hσ] at htakes
    obtain ⟨op, -, rfl⟩ := @performs_of_offer _ id m [] _ _ _ _ _ htakes
    exact ⟨_, Function.update_self _ _ _, hm.foldl_set _⟩
  · exact ⟨m, by rw [Function.update_of_ne hij, hσ], hm⟩

/-- No step is recorded. -/
theorem noteStep (h : Served s hs t A i) (p : Nat) (e : Effect) :
    s.noteStep p e = pure () := by
  rw [Settings.noteStep, h.unrecorded, if_neg Bool.false_ne_true]

end Served

/-! ### Requests that stores answer -/

/-- A request that a store answers. -/
inductive Request.Stored : Request → Prop
  | get (k : Value) : Stored (.get k)
  | put (k v : Value) : Stored (.put k v)
  | modify (k f : Value) : Stored (.modify k f)

/-- A bad key is found before anything else is done. -/
theorem storeStep_fault {call : Call} (m : Mapping) {e : Effect} {k : Value} {found : String}
    (hk : k.keyFault? = some found) (he : e.request.Stored) (hkey : e.request.keys = [k]) :
    Handler.storeStep call (.frozen m) e = Action.fail (.notKey found) := by
  obtain ⟨q, ss⟩ := e
  cases q with
  | get j | put j v | modify j f =>
    obtain rfl : j = k := List.head_eq_of_cons_eq hkey
    simp only [Handler.storeStep, Handler.readKey, Handler.writeKey, Handler.checkKey, hk]
    rfl
  | _ => cases he

theorem Handler.Shipped.offer_stored {call : Call} {h : Handler} {e : Effect} (hs : h.Shipped)
    (he : e.request.Stored) (state : Value) :
    h.offer call state e = if h.isStore
      then Handler.storeStep call state e >>= fun p => pure (.handled p.1 p.2)
      else pure .declined := by
  have hkinds (r : Request) (hr : r.Stored) : r.isA .state = true ∧ r.isA .log = false ∧
      r.isA .console = false ∧ r.isA .tick = false := by
    cases hr <;> exact ⟨rfl, rfl, rfl, rfl⟩
  obtain ⟨hstate, hother⟩ := hkinds e.request he
  cases hs with
  | store id initial => exact @offer_store _ id initial _ hstate state
  | collector id => exact (Handler.Simple.collector id).offer_of_other hother.1 state
  | emitter id level component =>
    exact (Handler.Simple.emitter id level component).offer_of_other hother.1 state
  | transcript id lines =>
    exact (Handler.Simple.transcript id lines).offer_of_other hother.2.1 state
  | stream id source => exact (Handler.Simple.stream id source).offer_of_other hother.2.1 state
  | counter id => exact (Handler.Simple.counter id).offer_of_other hother.2.2 state

/-- The first store takes what stores answer. -/
theorem offerEach_stored {call : Call} {is : List ι}
    (hshipped : ∀ j ∈ is, (hs j).Shipped) (hi : is.find? (fun j => (hs j).isStore) = some i)
    {e : Effect} (he : e.request.Stored) (σ : ι → Value) :
    offerEach call hs σ e is
      = Handler.storeStep call (σ i) e >>= fun p => pure (some (i, p.1, p.2)) := by
  induction is with
  | nil => cases hi
  | cons j is ih =>
    rw [offerEach_cons, (hshipped j List.mem_cons_self).offer_stored he]
    cases hj : (hs j).isStore with
    | true =>
      rw [List.find?_cons_of_pos (by exact hj)] at hi
      obtain rfl := Option.some.inj hi
      rw [if_pos rfl, bind_assoc]
      simp only [pure_bind]
      rfl
    | false =>
      rw [List.find?_cons_of_neg (by simp [hj])] at hi
      rw [if_neg (by simp), pure_bind]
      exact ih (fun k hk => hshipped k (List.mem_cons_of_mem _ hk)) hi

theorem Mapping.lookup_set_self (m : Mapping) (k v : Value) :
    ((m.set k v).lookup k).getD .null = v := by
  rw [Mapping.lookup_set, if_pos k.same_refl]
  rfl

/-! ### A drive that goes on -/

/-- A drive that stands in a state goes on: a chain is continued by the rest of a program and driven
for at most `n` steps more. -/
def goesOn (s : Settings) (call : Call) (A : Handler) (n steps : Nat) (state : Value)
    (bs : List Binder) (c : Chain) : Action Drive :=
  c.continued call bs >>= fun d => drive s (A.offer call) n steps state (.chain d)

variable {call : Call} {n p : Nat} {state : Value} {bs : List Binder}

theorem goesOn_nil (c : Chain) :
    goesOn s call A n p state [] c = drive s (A.offer call) n p state (.chain c) :=
  pure_bind _ _

theorem goesOn_suspended (e : Effect) (r : CapabilitySet) :
    goesOn s call A n p state bs (.suspended e r)
      = drive s (A.offer call) n p state (.chain (.suspended (e.extend (bs.map .bind)) r)) := by
  rw [goesOn, Chain.continued_suspended, pure_bind]

/-- The last binder of a suspended chain is the first one of the rest of the program. -/
theorem goesOn_map (e : Effect) (b : Binder) (r : CapabilitySet) :
    goesOn s call A n p state bs (.suspended (e.map (.bind b)) r)
      = goesOn s call A n p state (b :: bs) (.suspended e r) := by
  rw [goesOn_suspended, goesOn_suspended, Effect.map_eq_extend, Effect.extend_extend]
  rfl

/-- What a suspended chain declares no longer matters. -/
theorem goesOn_declared (e : Effect) (r r' : CapabilitySet) :
    goesOn s call A n p state bs (.suspended e r)
      = goesOn s call A n p state bs (.suspended e r') := by
  rw [goesOn_suspended, goesOn_suspended]
  cases n <;> rfl

/-- Without a step left, nothing comes of a chain that waits for an answer. -/
theorem goesOn_zero (e : Effect) (r : CapabilitySet) :
    goesOn s call A 0 p state bs (.suspended e r) = Action.exhaust := by
  rw [goesOn_suspended]
  rfl

/-- A finished chain goes on with a chain that is always the same. -/
theorem goesOn_always (v : Value) (c : Chain) :
    goesOn s call A n p state (.always c :: bs) (.finished v) = goesOn s call A n p state bs c := by
  rw [goesOn, Chain.continued, Chain.finished, Chain.bind_done, Binder.apply, pure_bind, pure_bind,
    Chain.declare_empty]
  rfl

/-- A finished chain goes on with what a function gives for its value. -/
theorem goesOn_call (v : Value) (f : Callable) :
    goesOn s call A n p state (.call f :: bs) (.finished v)
      = call f [v] >>= Chain.ofValue "binder" >>= goesOn s call A n p state bs := by
  rw [goesOn, Chain.continued, Chain.finished, Chain.bind_done, Binder.apply]
  simp only [Chain.declare_empty, bind_assoc, pure_bind]
  rfl

variable [DecidableEq ι] (h : Served s hs t A i) {σ : ι → Value} {m : Mapping}
  (hσ : σ i = .frozen m)

include h in
/-- **Drives go on alike from states that are related.** -/
theorem goesOn_shelves {E : Mapping → Mapping → Prop} (hE : Unnoticed E) {τ : ι → Value}
    (hστ : ∀ j ∈ t.leaves, Shelves E hs j (σ j) (τ j)) (c : Chain) :
    Action.SameBut (Shelves.Ends E hs t) (goesOn s call A n p (t.nest σ) bs c)
      (goesOn s call A n p (t.nest τ) bs c) :=
  .after _ fun d => drive_shelves hE h.arranged h.nodup n p (.chain d) hστ

include h hσ in
/-- What the store answers is one step. -/
theorem goesOn_stored {q : Request} (hq : q.Stored) (bs₀ : List Binder) :
    goesOn s call A (n + 1) p (t.nest σ) bs (waiting q bs₀)
      = Handler.storeStep call (.frozen m) (performing q (bs₀ ++ bs)) >>= fun a =>
        drive s (A.offer call) n (p + 1) (t.nest (Function.update σ i a.1)) a.2 := by
  rw [waiting, goesOn_suspended, h.arranged.drive_suspended h.nodup, performing_extend,
    offerEach_stored h.shipped h.first (e := performing _ _) hq, hσ]
  simp only [bind_assoc, pure_bind, Arranged.afterOffer, h.noteStep]

variable {k : Value} (bs₀ : List Binder)

include h hσ in
/-- A bad key is a failure at once. -/
theorem goesOn_fault {found : String} (hk : k.keyFault? = some found) {q : Request}
    (hq : q.Stored) (hkey : q.keys = [k]) :
    goesOn s call A (n + 1) p (t.nest σ) bs (waiting q bs₀) = Action.fail (.notKey found) := by
  rw [goesOn_stored h hσ hq, storeStep_fault m hk hq hkey, Action.fail_bind]

variable (hk : k.keyFault? = none)

include h hσ hk in
theorem goesOn_get : goesOn s call A (n + 1) p (t.nest σ) bs (waiting (.get k) bs₀)
    = goesOn s call A n (p + 1) (t.nest σ) (bs₀ ++ bs)
      (.finished ((m.lookup k).getD .null)) := by
  have hsame : Function.update σ i (.frozen m) = σ := by rw [← hσ, Function.update_eq_self]
  rw [goesOn_stored h hσ (.get k), storeStep_get m rfl hk, performing_resume]
  simp only [bind_assoc, pure_bind, hsame]
  rfl

include h hσ hk in
theorem goesOn_put (v : Value) : goesOn s call A (n + 1) p (t.nest σ) bs (waiting (.put k v) bs₀)
    = goesOn s call A n (p + 1) (t.nest (Function.update σ i (.frozen (m.set k v)))) (bs₀ ++ bs)
      (.finished .null) := by
  rw [goesOn_stored h hσ (.put k v), storeStep_put m rfl hk, performing_resume]
  simp only [bind_assoc, pure_bind]
  rfl

include h hσ hk in
/-- Storing, and then a chain. -/
theorem goesOn_put_always (v : Value) (c : Chain) :
    goesOn s call A (n + 1) p (t.nest σ) bs (waiting (.put k v) [.always c])
      = goesOn s call A n (p + 1) (t.nest (Function.update σ i (.frozen (m.set k v)))) bs c := by
  rw [goesOn_put h hσ _ hk]
  exact goesOn_always .null c

include h hσ hk in
/-- Storing and reading goes on with a function, called on what was stored. -/
theorem goesOn_put_get (v : Value) (g : Callable) :
    goesOn s call A (n + 2) p (t.nest σ) bs
        (waiting (.put k v) [.always (waiting (.get k) [.call g])])
      = call g [v] >>= Chain.ofValue "binder" >>=
        goesOn s call A n (p + 2) (t.nest (Function.update σ i (.frozen (m.set k v)))) bs := by
  rw [goesOn_put_always h hσ hk, goesOn_get h (Function.update_self _ _ _) _ hk,
    Mapping.lookup_set_self]
  exact goesOn_call v g

include h hσ hk in
theorem goesOn_modify (f : Value) :
    goesOn s call A (n + 1) p (t.nest σ) bs (waiting (.modify k f) bs₀)
      = call.value f [(m.lookup k).getD .null] >>= fun new =>
        goesOn s call A n (p + 1) (t.nest (Function.update σ i (.frozen (m.set k new))))
          (bs₀ ++ bs) (.finished new) := by
  rw [goesOn_stored h hσ (.modify k f), storeStep_modify m rfl hk]
  simp only [performing_resume, bind_assoc, pure_bind]
  rfl

end

end EffectHandlers
