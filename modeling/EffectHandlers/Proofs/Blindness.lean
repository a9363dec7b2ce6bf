/-
EffectHandlers/Proofs/Blindness.lean

Computations that have nothing to do with a stream.

A computation is blind for a stream if it comes to the same whatever is
left to read there, and leaves it as it is (`Blind`).  Nothing in the
language writes to a stream: whatever is executed either is blind for it or,
unless there is nothing left to read, leaves less (`AtMostReads`).  That is
a discipline, so it holds of everything (`reading_meaning`).

What has been read cannot be put back.  So if a sequence of computations
that comes to an end is blind for a stream, then each of them is, in the
world that it is executed in (`EndsClear.bind`).
-/
import EffectHandlers.Proofs.Frame

namespace EffectHandlers

variable {α β : Type} {k : Nat} {w u : World}

/-! ### Streams -/

/-- What is left to read from a stream. -/
def World.contents (k : Nat) (w : World) : List Char := w.sources[k]?.getD []

/-- The world with something else to read from a stream. -/
def World.withSource (k : Nat) (text : List Char) (w : World) : World :=
  { w with sources := w.sources.setIfInBounds k text }

namespace World

@[simp] theorem size_withSource (text : List Char) (w : World) :
    (w.withSource k text).sources.size = w.sources.size := by
  simp [withSource]

theorem contents_withSource (hk : k < w.sources.size) (text : List Char) :
    (w.withSource k text).contents k = text := by
  simp [contents, withSource, hk]

theorem withSource_contents (w : World) : w.withSource k (w.contents k) = w := by
  have hset : w.sources.setIfInBounds k (w.contents k) = w.sources := by
    apply Array.ext_getElem?
    intro j
    by_cases hj : k = j
    · subst hj
      by_cases hlt : k < w.sources.size
      · simp [contents, hlt]
      · simp [Nat.le_of_not_lt hlt]
    · simp [hj]
  rw [withSource, hset]

theorem withSource_withSource (text text' : List Char) (w : World) :
    (w.withSource k text).withSource k text' = w.withSource k text' := by
  simp [withSource]

end World

/-- An action comes to the same whatever is left to read from a stream, and leaves it as it
is. -/
def Blind (k : Nat) (x : Action α) (w : World) : Prop :=
  ∀ text, x (w.withSource k text) = (x w).inWorld (World.withSource k text)

/-- An outcome leaves less to read from a stream than there was, unless it is exhausted. -/
def Outcome.Consumes (k : Nat) (text : List Char) : Outcome α → Prop
  | .value _ w | .failed _ w => (w.contents k).length < text.length
  | .exhausted => True

/-- An outcome leaves a stream where it is, with no more to read. -/
def Outcome.Spends (k : Nat) (w : World) : Outcome α → Prop
  | .value _ u | .failed _ u =>
    k < u.sources.size ∧ (u.contents k).length ≤ (w.contents k).length
  | .exhausted => True

/-! ### Reading -/

/-- An action at most reads from a stream: it is blind for it, or leaves less to read if there is
anything. -/
structure AtMostReads (k : Nat) (x : Action α) : Prop where
  spends {w : World} (hk : k < w.sources.size) : (x w).Spends k w
  reads {w : World} (hk : k < w.sources.size) :
    Blind k x w ∨ ∀ text, text ≠ [] → (x (w.withSource k text)).Consumes k text

namespace AtMostReads

theorem of_blind {x : Action α} (hspends : ∀ {w : World}, k < w.sources.size → (x w).Spends k w)
    (hblind : ∀ {w : World}, k < w.sources.size → Blind k x w) : AtMostReads k x :=
  ⟨hspends, fun hk => .inl (hblind hk)⟩

theorem ret (a : α) : AtMostReads k (pure a) :=
  .of_blind (fun hk => ⟨hk, Nat.le_refl _⟩) fun _ _ => rfl

theorem fail (f : Failure) : AtMostReads k (Action.fail f : Action α) :=
  .of_blind (fun hk => ⟨hk, Nat.le_refl _⟩) fun _ _ => rfl

theorem exhaust : AtMostReads k (Action.exhaust : Action α) :=
  .of_blind (fun _ => trivial) fun _ _ => rfl

/-- An exchange that leaves the streams alone. -/
theorem exchange {f : World → α × World} (hsources : ∀ w, (f w).2.sources = w.sources)
    (hblind : ∀ w text, f (w.withSource k text) = ((f w).1, (f w).2.withSource k text)) :
    AtMostReads k (Action.exchange f) := by
  refine .of_blind (fun {w} hk => ?_) fun {w} _ text => ?_
  · show k < (f w).2.sources.size ∧ ((f w).2.contents k).length ≤ _
    rw [World.contents, World.contents, hsources w]
    exact ⟨hk, Nat.le_refl _⟩
  · show Outcome.value _ _ = Outcome.value _ _
    rw [hblind w text]

/-- What was read stays read. -/
theorem consumes_bind {P : α → Prop} {x : Action α} {f : α → Action β} (hx : AtMostReads k x)
    (hP : ∀ w a w', x w = .value a w' → P a) (hf : ∀ a, P a → AtMostReads k (f a))
    (hk : k < w.sources.size) {text : List Char} (hless : (x w).Consumes k text) :
    ((x >>= f) w).Consumes k text := by
  have hspends := hx.spends hk
  rw [Action.bind_apply]
  cases hxw : x w with
  | value a w' =>
    rw [hxw] at hless hspends
    have hfa := (hf a (hP _ a w' hxw)).spends hspends.1
    show (f a w').Consumes k text
    cases hfaw : f a w' with
    | value b w'' | failed _ w'' =>
      rw [hfaw] at hfa
      exact Nat.lt_of_le_of_lt hfa.2 hless
    | exhausted => trivial
  | failed e w' =>
    rw [hxw] at hless
    exact hless
  | exhausted => trivial

theorem bind {P : α → Prop} {x : Action α} {f : α → Action β} (hx : AtMostReads k x)
    (hP : ∀ w a w', x w = .value a w' → P a) (hf : ∀ a, P a → AtMostReads k (f a)) :
    AtMostReads k (x >>= f) := by
  have hspends {w : World} (hk : k < w.sources.size) : ((x >>= f) w).Spends k w := by
    have hx := hx.spends hk
    rw [Action.bind_apply]
    cases hxw : x w with
    | value a w' =>
      rw [hxw] at hx
      obtain ⟨hk', hle⟩ := hx
      have hfa := (hf a (hP w a w' hxw)).spends hk'
      show (f a w').Spends k w
      cases hfaw : f a w' with
      | value b w'' | failed _ w'' =>
        rw [hfaw] at hfa
        exact ⟨hfa.1, Nat.le_trans hfa.2 hle⟩
      | exhausted => trivial
    | failed e w' => rwa [hxw] at hx
    | exhausted => trivial
  refine ⟨hspends, fun {w} hk => ?_⟩
  rcases hx.reads hk with hblind | hconsumes
  · cases hxw : x w with
    | value a w' =>
      have hx' (text : List Char) : x (w.withSource k text) = .value a (w'.withSource k text) := by
        rw [hblind text, hxw]
        rfl
      have hkeeps := hx.spends hk
      rw [hxw] at hkeeps
      rcases (hf a (hP w a w' hxw)).reads hkeeps.1 with hblind' | hconsumes
      · refine .inl fun text => ?_
        rw [Action.bind_of_value (hx' text), hblind' text, Action.bind_of_value hxw]
      · refine .inr fun text htext => ?_
        rw [Action.bind_of_value (hx' text)]
        exact hconsumes text htext
    | failed e w' =>
      refine .inl fun text => ?_
      rw [Action.bind_apply, Action.bind_apply, hblind text, hxw]
      rfl
    | exhausted =>
      refine .inl fun text => ?_
      rw [Action.bind_apply, Action.bind_apply, hblind text, hxw]
      rfl
  · exact .inr fun text htext => consumes_bind hx hP hf (by simpa using hk) (hconsumes text htext)

theorem require (f : Failure) (o : Option α) : AtMostReads k (Action.require f o) := by
  cases o with
  | none => exact fail f
  | some a => exact ret a

theorem recordOf (id : Nat) : AtMostReads k (Invocation.recordOf id) :=
  bind (P := fun _ => True)
    (exchange (f := fun w => (w.invocations[id]?, w)) (fun _ => rfl) fun _ _ => rfl)
    (fun _ _ _ _ => trivial) fun o _ => require _ o

/-- A change of the record of a call. -/
theorem changeCall (id : Nat) (f : Invocation → Invocation) :
    AtMostReads k (Action.change fun w => w.changeCall id f) :=
  exchange (f := fun w => ((), w.changeCall id f)) (fun _ => rfl) fun _ _ => rfl

/-- What is done with the record of a call. -/
theorem withRecord {id : Nat} {f : Invocation → Action α}
    (hf : ∀ i, AtMostReads k (f i)) : AtMostReads k (Invocation.recordOf id >>= f) :=
  bind (P := fun _ => True) (recordOf id) (fun _ _ _ _ => trivial) fun i _ => hf i

theorem execute (id gen : Nat) {part : Action Exit} (hpart : AtMostReads k part) :
    AtMostReads k (Coroutine.execute id gen part) := by
  refine ⟨fun {w} hk => ?_, fun {w} hk => ?_⟩
  · have hspends := hpart.spends (w := w.setPosition id gen .running) hk
    rw [Coroutine.execute]
    cases hw : part (w.setPosition id gen .running) with
    | value exit w' | failed f w' => rwa [hw] at hspends
    | exhausted => trivial
  · rcases hpart.reads (w := w.setPosition id gen .running) hk with hblind | hconsumes
    · refine .inl fun text => ?_
      have hpart : part ((w.withSource k text).setPosition id gen .running) = _ := hblind text
      rw [Coroutine.execute, Coroutine.execute, hpart]
      cases part (w.setPosition id gen .running) <;> rfl
    · refine .inr fun text htext => ?_
      have hless : (part ((w.withSource k text).setPosition id gen .running)).Consumes k text :=
        hconsumes text htext
      rw [Coroutine.execute]
      cases hw : part ((w.withSource k text).setPosition id gen .running) with
      | value exit w' | failed f w' => rwa [hw] at hless
      | exhausted => trivial

/-- A new stream leaves the others as they are. -/
theorem newSource (s : String) : AtMostReads k (EffectHandlers.newSource s) := by
  refine .of_blind (fun {w} hk => ?_) fun {w} hk text => ?_
  · show k < (w.sources.push s.toList).size ∧ ((w.sources.push s.toList)[k]?.getD []).length ≤ _
    rw [Array.getElem?_push, if_neg (Nat.ne_of_lt hk), Array.size_push]
    exact ⟨Nat.lt_succ_of_lt hk, Nat.le_refl _⟩
  · have hpush : (w.sources.setIfInBounds k text).push s.toList
        = (w.sources.push s.toList).setIfInBounds k text := by
      apply Array.ext_getElem?
      intro j
      grind
    have hsize : (w.withSource k text).sources.size = w.sources.size := by simp
    show Outcome.value (w.withSource k text).sources.size _ = Outcome.value w.sources.size _
    rw [hsize]
    refine congrArg (Outcome.value _) ?_
    simp only [World.withSource, hpush]

/-- What is left of a text after its first line. -/
theorem length_splitLine_le (cs : List Char) :
    (Handler.splitLine cs).2.length ≤ cs.length ∧
      (cs ≠ [] → (Handler.splitLine cs).2.length < cs.length) := by
  induction cs with
  | nil => simp [Handler.splitLine]
  | cons c cs ih =>
    by_cases hc : c = '\n'
    · simp [Handler.splitLine, hc]
    · simp [Handler.splitLine, hc]
      omega

/-- Reading a line from some stream. -/
theorem readLine (j : Nat) : AtMostReads k (Handler.readLine j) := by
  have hcontents (w : World) (hk : k < w.sources.size) :
      (Handler.readLine j w) = .value (Handler.splitLine (w.contents j)).1
        (w.withSource j (Handler.splitLine (w.contents j)).2) := rfl
  refine ⟨fun {w} hk => ?_, fun {w} hk => ?_⟩
  · rw [hcontents w hk]
    refine ⟨by simpa using hk, ?_⟩
    by_cases hj : j = k
    · subst hj
      rw [World.contents_withSource hk]
      exact (length_splitLine_le _).1
    · simp [World.contents, World.withSource, hj]
  · by_cases hj : j = k
    · subst hj
      refine .inr fun text htext => ?_
      have hk' : j < (w.withSource j text).sources.size := by simpa using hk
      rw [hcontents _ hk']
      show ((World.withSource j _ _).contents j).length < _
      rw [World.contents_withSource hk', World.contents_withSource hk]
      exact (length_splitLine_le text).2 htext
    · refine .inl fun text => ?_
      have hother : (w.withSource k text).contents j = w.contents j := by
        simp [World.contents, World.withSource, Ne.symm hj]
      rw [hcontents _ (by simpa using hk), hcontents w hk, hother]
      refine congrArg (Outcome.value _) ?_
      simp [World.withSource, Array.setIfInBounds_comm _ _ hj]

end AtMostReads

/-- At most reading from a stream is a discipline. -/
def reading (k : Nat) : CallDiscipline Unit .free where
  holds P x := AtMostReads k (x ()) ∧ ∀ w a w', x () w = .value a w' → P a
  ret ha := ⟨.ret _, fun _ _ _ h => (Action.pure_eq_value.mp h).1 ▸ ha⟩
  fail _ f := ⟨.fail f, nofun⟩
  exhaust _ := ⟨.exhaust, nofun⟩
  bind hx hf := by
    refine ⟨hx.1.bind hx.2 fun a ha => (hf a ha).1, fun w b w'' hb => ?_⟩
    obtain ⟨a, w', ha, hb⟩ := Action.bind_eq_value.mp hb
    exact (hf a (hx.2 w a w' ha)).2 w' b w'' hb
  fresh := ⟨.exchange (fun _ => rfl) fun _ _ => rfl, fun _ _ _ _ => trivial⟩
  emit e := ⟨.exchange (f := fun w => ((), { w with events := e :: w.events })) (fun _ => rfl)
    fun _ _ => rfl, fun _ _ _ _ => trivial⟩
  showValue {v} _ := ⟨.exchange
    (f := fun w => ((), { w with events := .traced v w.cells :: w.events })) (fun _ => rfl)
    fun _ _ => rfl, fun _ _ _ _ => trivial⟩
  newCell _ := ⟨.exchange (fun _ => rfl) fun _ _ => rfl, fun _ a _ _ => a.obeys_free⟩
  readCell a := ⟨.exchange (f := fun w => ((w.cells[a]?).getD .null, w)) (fun _ => rfl)
    fun _ _ => rfl, fun _ a _ _ => a.obeys_free⟩
  writeCell a {v} _ := ⟨.exchange
    (f := fun w => ((), { w with cells := w.cells.setIfInBounds a v })) (fun _ => rfl)
    fun _ _ => rfl, fun _ _ _ _ => trivial⟩
  newSource s := ⟨.newSource s, fun _ _ _ _ => trivial⟩
  readLine j := ⟨.readLine j, fun _ _ _ _ => trivial⟩
  newJournal := ⟨.exchange (fun _ => rfl) fun _ _ => rfl, fun _ _ _ _ => trivial⟩
  journalEntries j := ⟨.exchange
    (f := fun w => (((w.journals[j]?).getD []).reverse, w)) (fun _ => rfl) fun _ _ => rfl,
    fun _ _ _ _ v _ => v.obeys_free⟩
  record j name {v} _ := ⟨.exchange
    (f := fun w => ((), { w with
      journals := w.journals.modify j (.tuple [.text name, v] :: ·) })) (fun _ => rfl)
    fun _ _ => rfl, fun _ _ _ _ => trivial⟩
  create _ _ := ⟨.exchange (fun _ => rfl) fun _ _ => rfl, fun _ _ _ _ => trivial⟩
  spawn _ := ⟨.withRecord fun _ => .exchange (fun _ => rfl) fun _ _ => rfl, fun _ _ _ _ => trivial⟩
  liveOf {id} _ := ⟨.exchange (f := fun w => ((w.invocations[id]?).bind (·.live), w)) (fun _ => rfl)
    fun _ _ => rfl, fun _ _ _ _ => trivial⟩
  setLive _ _ := ⟨.changeCall _ _, fun _ _ _ _ => trivial⟩
  answersOf _ _ := ⟨.withRecord fun _ => .require _ _, fun _ _ _ _ v _ => v.obeys_free⟩
  extendHistory _ _ _ _ := ⟨.withRecord fun _ => .bind (P := fun _ => True) (.require _ _)
    (fun _ _ _ _ => trivial) fun _ _ => .exchange (fun _ => rfl) fun _ _ => rfl,
    fun _ _ _ _ => trivial⟩
  standing {id} _ gen := ⟨.exchange (f := fun w =>
      (match (w.invocations[id]?).bind (·.coroutines[gen]?) with
        | some c => c.position
        | none => .finished, w)) (fun _ => rfl) fun _ _ => rfl,
    fun _ p _ _ => p.obeys_free⟩
  receive _ _ _ _ := ⟨.changeCall _ _, fun _ _ _ _ => trivial⟩
  execute _ gen _ hpart := ⟨.execute _ gen hpart.1, fun _ next _ _ => by
    cases next <;> exact Value.obeys_free _⟩

/-- Calls of any depth at most read from a stream. -/
theorem reading_meaning (k : Nat) (s : Settings) :
    (reading k).Calls fun _ => Callable.meaning s := by
  have hcalls := CallDiscipline.calls (reading k) (Callable.runsAlike_const _ s) fun _ => rfl
  intro f args hf hargs
  have hreads (n : Nat) : AtMostReads k (Callable.apply s n f args) := (hcalls n f args hf hargs).1
  refine ⟨⟨fun {w} hk => ?_, fun {w} hk => ?_⟩, fun _ v _ _ => v.obeys_free⟩
  · obtain ⟨n, hn⟩ := Callable.apply_of_meaning s f args w
    show (Callable.meaning s f args w).Spends k w
    rw [← hn]
    exact (hreads n).spends hk
  · -- At every depth that is sufficient for two worlds, the outcomes there are those of the call.
    refine Classical.or_iff_not_imp_left.mpr fun hseen text htext => ?_
    obtain ⟨text', hseen⟩ := Classical.not_forall.mp hseen
    obtain ⟨n, hn⟩ := Callable.apply_eventually s f args w
    obtain ⟨n', hn'⟩ := Callable.apply_eventually s f args (w.withSource k text')
    obtain ⟨m, hm⟩ := Callable.apply_eventually s f args (w.withSource k text)
    let depth := max n (max n' m)
    rcases (hreads depth).reads hk with hblind | hconsumes
    · refine absurd ?_ hseen
      have h := hblind text'
      rwa [hn depth (by omega), hn' depth (by omega)] at h
    · have h := hconsumes text htext
      rwa [hm depth (by omega)] at h

/-! ### Clear of a stream -/

/-- The stream is there, if one is named. -/
def World.Provides (source : Option Nat) (w : World) : Prop :=
  ∀ k, source = some k → k < w.sources.size

/-- An action has nothing to do with a stream, if one is named. -/
def Clear (source : Option Nat) (x : Action α) (w : World) : Prop :=
  ∀ k, source = some k → Blind k x w

theorem clear_none (x : Action α) (w : World) : Clear none x w := nofun

/-- An action comes to an end and has nothing to do with a stream, if one is named. -/
structure EndsClear (source : Option Nat) (x : Action α) (w : World) : Prop where
  clear : Clear source x w
  ends : x w ≠ .exhausted
  provides : w.Provides source

/-- **What has been read cannot be put back**: if a sequence comes to an end and has nothing to do
with a stream, so do its parts. -/
theorem EndsClear.bind {source : Option Nat} {x : Action α} {f : α → Action β}
    (h : EndsClear source (x >>= f) w) (hx : ∀ k, AtMostReads k x)
    (hf : ∀ k a, AtMostReads k (f a)) :
    EndsClear source x w ∧ ∀ a u, x w = .value a u → EndsClear source (f a) u := by
  have hparts (k : Nat) (hsource : source = some k) :
      Blind k x w ∧ ∀ a u, x w = .value a u → Blind k (f a) u ∧ k < u.sources.size := by
    have hk := h.provides k hsource
    have hblind := h.clear k hsource
    have hall (w : World) (a : α) (u : World) (_ : x w = .value a u) : True := trivial
    have hspends := ((hx k).bind hall fun a _ => hf k a).spends hk
    have hblind' : Blind k x w := by
      refine ((hx k).reads hk).resolve_right fun hconsumes => ?_
      have hless := (hx k).consumes_bind hall (fun a _ => hf k a)
        (w := w.withSource k ['x']) (by simpa using hk) (hconsumes ['x'] (by simp))
      rw [hblind ['x']] at hless
      cases ho : (x >>= f) w with
      | value b u | failed _ u =>
        rw [ho] at hspends hless
        have hless : ((u.withSource k ['x']).contents k).length < 1 := hless
        rw [World.contents_withSource hspends.1] at hless
        exact Nat.lt_irrefl _ hless
      | exhausted => exact h.ends ho
    refine ⟨hblind', fun a u ha => ?_⟩
    have hfu : (x >>= f) w = f a u := Action.bind_of_value ha
    have hkept := (hx k).spends hk
    rw [ha] at hkept
    refine ⟨fun text => ?_, hkept.1⟩
    have ha' : x (w.withSource k text) = .value a (u.withSource k text) := by
      rw [hblind' text, ha]
      rfl
    exact (Action.bind_of_value ha').symm.trans ((hblind text).trans (by rw [hfu]))
  have hxends : x w ≠ .exhausted := fun hx => h.ends (by rw [Action.bind_apply, hx])
  refine ⟨⟨fun k hk => (hparts k hk).1, hxends, h.provides⟩, fun a u ha =>
    ⟨fun k hk => ((hparts k hk).2 a u ha).1, ?_, fun k hk => ((hparts k hk).2 a u ha).2⟩⟩
  rw [← Action.bind_of_value (f := f) ha]
  exact h.ends

/-- What an action gives, put to a use that says what it was. -/
theorem Clear.of_map {source : Option Nat} {x : Action α} {g : α → β}
    (hg : Function.Injective g) (h : Clear source (x >>= fun a => pure (g a)) w) :
    Clear source x w := by
  intro k hk text
  have h := h k hk text
  rw [Action.bind_apply, Action.bind_apply] at h
  cases hx : x w <;> cases hx' : x (w.withSource k text) <;>
    simp_all [Outcome.inWorld, Action.pure_apply, hg.eq_iff]

end EffectHandlers
