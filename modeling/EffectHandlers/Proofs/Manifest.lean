/-
EffectHandlers/Proofs/Manifest.lean

Which handlers can be combined.

Handlers are put together from the last two on, and each one is compared
with the capabilities of all the later ones at once.  So a conflict is found
at the last handler that shares a capability with a later one, and nothing
is found exactly if the sets are pairwise disjoint, however many of them
overlap.

`Handler.shared hs i` is what the handler at place `i` shares with the later
ones; `Handler.LastSharing hs i` says that this is the last place where it
has members.  Both are read off a list by induction, and putting the list
together comes to one of two things (`nest_cases`).

Main result: `combine_of_manifest`, for every list of values.
-/
import EffectHandlers.Proofs.Served
import EffectHandlers.Proofs.Protocol
import EffectHandlers.Script.Library

namespace EffectHandlers

/-! ### Shared capabilities -/

/-- No member in common. -/
def CapabilitySet.Disjoint (s t : CapabilitySet) : Prop := ∀ x, x ∈ s → ¬ x ∈ t

namespace Handler

/-- The capability sets of the handlers are pairwise disjoint. -/
def ConflictFree (hs : List Handler) : Prop :=
  hs.Pairwise fun h k => h.capabilities.Disjoint k.capabilities

/-- The capabilities that the handler at a place shares with the later ones. -/
def shared (hs : List Handler) (i : Nat) : CapabilitySet :=
  match hs.drop i with
  | [] => ∅
  | h :: later => h.capabilities ∩ Flat.provided later

/-- The last place where a handler shares a capability with a later one. -/
structure LastSharing (hs : List Handler) (i : Nat) : Prop where
  shares : ∃ x, x ∈ shared hs i
  last {j : Nat} (hj : i < j) (x : Capability) : ¬ x ∈ shared hs j

variable {h : Handler} {hs : List Handler} {i : Nat} {x : Capability}

theorem mem_provided : x ∈ Flat.provided hs ↔ ∃ h ∈ hs, x ∈ h.capabilities := by
  induction hs with
  | nil => exact iff_of_false (CapabilitySet.not_mem_empty x) (by simp)
  | cons h hs ih =>
    show x ∈ h.capabilities ∪ Flat.provided hs ↔ _
    rw [CapabilitySet.mem_union, ih, List.exists_mem_cons_iff]

theorem mem_shared : x ∈ shared hs i ↔
    ∃ h, hs[i]? = some h ∧ x ∈ h.capabilities ∧ ∃ k ∈ hs.drop (i + 1), x ∈ k.capabilities := by
  unfold shared
  cases hd : hs.drop i with
  | nil =>
    have hnone : hs[i]? = none := List.getElem?_eq_none (List.drop_eq_nil_iff.mp hd)
    refine iff_of_false (CapabilitySet.not_mem_empty x) ?_
    rintro ⟨h, hh, -⟩
    rw [hnone] at hh
    cases hh
  | cons h later =>
    have hsome : hs[i]? = some h := by rw [← List.head?_drop, hd, List.head?_cons]
    have hlater : hs.drop (i + 1) = later := by rw [← List.tail_drop, hd, List.tail_cons]
    rw [CapabilitySet.mem_inter, mem_provided, hsome, hlater]
    simp

/-- What is shared is claimed at two places. -/
theorem two_claim (hx : x ∈ shared hs i) :
    ∃ (j : Nat) (h k : Handler), i < j ∧ hs[i]? = some h ∧ hs[j]? = some k ∧ x ∈ h.capabilities ∧
      x ∈ k.capabilities := by
  obtain ⟨h, hh, hxh, k, hk, hxk⟩ := mem_shared.mp hx
  obtain ⟨d, hd⟩ := List.mem_iff_getElem?.mp hk
  rw [List.getElem?_drop] at hd
  exact ⟨i + 1 + d, h, k, by omega, hh, hd, hxh, hxk⟩

/-- The first handler of a conflict-free list shares nothing with the others. -/
theorem conflictFree_cons : ConflictFree (h :: hs) ↔
    h.capabilities.Disjoint (Flat.provided hs) ∧ ConflictFree hs := by
  refine List.pairwise_cons.trans (and_congr_left fun _ => ?_)
  constructor
  · intro hd x hx hp
    obtain ⟨k, hk, hxk⟩ := mem_provided.mp hp
    exact hd k hk x hx hxk
  · intro hd k hk x hx hxk
    exact hd x hx (mem_provided.mpr ⟨k, hk, hxk⟩)

/-- Nothing is shared exactly in a list that is conflict-free. -/
theorem conflictFree_iff : ConflictFree hs ↔ ∀ i x, ¬ x ∈ shared hs i := by
  induction hs with
  | nil =>
    refine iff_of_true List.Pairwise.nil fun i x hx => ?_
    obtain ⟨h, hh, -⟩ := mem_shared.mp hx
    cases hh
  | cons h hs ih =>
    rw [conflictFree_cons, ih]
    constructor
    · rintro ⟨hfirst, hrest⟩ i x hx
      cases i with
      | zero =>
        obtain ⟨hxh, hxp⟩ := CapabilitySet.mem_inter.mp hx
        exact hfirst x hxh hxp
      | succ i => exact hrest i x hx
    · intro hnone
      refine ⟨fun x hxh hxp => hnone 0 x (CapabilitySet.mem_inter.mpr ⟨hxh, hxp⟩), ?_⟩
      exact fun i x hx => hnone (i + 1) x hx

namespace LastSharing

theorem not_conflictFree (hi : LastSharing hs i) : ¬ ConflictFree hs := by
  intro hfree
  obtain ⟨x, hx⟩ := hi.shares
  exact conflictFree_iff.mp hfree i x hx

theorem cons (hi : LastSharing hs i) : LastSharing (h :: hs) (i + 1) := by
  refine ⟨hi.shares, fun {j} hj x => ?_⟩
  cases j with
  | zero => exact absurd hj (Nat.not_lt_zero _)
  | succ j => exact hi.last (Nat.lt_of_succ_lt_succ hj) x

/-- Before a conflict-free list, the conflict is that of the first handler. -/
theorem first (hfree : ConflictFree hs)
    (hx : ∃ x, x ∈ h.capabilities ∩ Flat.provided hs) : LastSharing (h :: hs) 0 := by
  refine ⟨hx, fun {j} hj x => ?_⟩
  cases j with
  | zero => exact absurd hj (Nat.lt_irrefl _)
  | succ j => exact conflictFree_iff.mp hfree j x

theorem lt_length (hi : LastSharing hs i) : i < hs.length := by
  obtain ⟨x, hx⟩ := hi.shares
  obtain ⟨h, hh, -⟩ := mem_shared.mp hx
  exact (List.getElem?_eq_some_iff.mp hh).1

end LastSharing

end Handler

/-! ### Putting handlers together -/

/-- The world after a number of identities were drawn. -/
def World.drawn (w : World) (n : Nat) : World := { w with fresh := w.fresh + n }

theorem World.drawn_drawn (w : World) (m n : Nat) : (w.drawn m).drawn n = w.drawn (m + n) := by
  simp only [World.drawn, Nat.add_assoc]

namespace Handler

variable {h k c : Handler} {hs : List Handler} {i : Nat} {w : World}

theorem pairOf_disjoint (hd : h.capabilities.Disjoint k.capabilities) (w : World) :
    ∃ id, pairOf h k w = .value (.pair id h k) (w.drawn 1) := by
  have hempty : (h.capabilities ∩ k.capabilities).isEmpty = true := by
    refine CapabilitySet.isEmpty_iff.mpr fun x hx => ?_
    obtain ⟨hxh, hxk⟩ := CapabilitySet.mem_inter.mp hx
    exact hd x hxh hxk
  refine ⟨w.fresh, ?_⟩
  simp only [pairOf, hempty, if_true]
  rfl

theorem pairOf_overlap (hx : ∃ x, x ∈ h.capabilities ∩ k.capabilities) :
    pairOf h k = Action.fail (.refused (.capabilityConflict (h.capabilities ∩ k.capabilities))) := by
  obtain ⟨x, hx⟩ := hx
  exact if_neg fun hempty => CapabilitySet.isEmpty_iff.mp hempty x hx

/-- Handlers are put together if no two of them claim one capability; otherwise what the last of
them shares with the later ones is refused.  One identity is drawn for each pair. -/
theorem nest_cases (hne : hs ≠ []) (w : World) :
    (ConflictFree hs ∧ ∃ c, nest hs w = .value c (w.drawn (hs.length - 1))) ∨
    ∃ i, LastSharing hs i ∧
      nest hs w = .failed (.refused (.capabilityConflict (shared hs i)))
        (w.drawn (hs.length - 2 - i)) := by
  induction hs with
  | nil => exact absurd rfl hne
  | cons h hs ih =>
    rcases hs with _ | ⟨k, hs⟩
    · exact .inl ⟨List.pairwise_singleton _ _, h, rfl⟩
    · have hnest : nest (h :: k :: hs) = nest (k :: hs) >>= pairOf h := rfl
      rw [hnest]
      -- The later handlers come first: only if they share nothing does the first one matter.
      rcases ih (List.cons_ne_nil _ _) with ⟨hfree, c, hc⟩ | ⟨i, hi, hc⟩
      · rw [Action.bind_of_value hc]
        have hprovided := (nested_of_nest hc).capabilities_eq
        by_cases hx : ∃ x, x ∈ h.capabilities ∩ Flat.provided (k :: hs)
        · refine .inr ⟨0, .first hfree hx, ?_⟩
          rw [← hprovided] at hx
          rw [pairOf_overlap hx, hprovided]
          rfl
        · have hd : h.capabilities.Disjoint (Flat.provided (k :: hs)) :=
            fun x hxh hxp => hx ⟨x, CapabilitySet.mem_inter.mpr ⟨hxh, hxp⟩⟩
          refine .inl ⟨conflictFree_cons.mpr ⟨hd, hfree⟩, ?_⟩
          rw [← hprovided] at hd
          obtain ⟨id, hpair⟩ := pairOf_disjoint hd (w.drawn ((k :: hs).length - 1))
          exact ⟨.pair id h c, by rw [hpair, World.drawn_drawn]; rfl⟩
      · refine .inr ⟨i + 1, hi.cons, ?_⟩
        have hlen := hi.lt_length
        have hdrawn : (h :: k :: hs).length - 2 - (i + 1) = (k :: hs).length - 2 - i := by
          simp only [List.length_cons]
          omega
        rw [Action.bind_apply, hc, hdrawn]
        rfl

theorem combine_conflictFree (hne : hs ≠ []) (hfree : ConflictFree hs) (w : World) :
    ∃ c, combine hs w = .value c ((w.drawn (hs.length - 1)).noted .debug
        ("Combined " ++ toString hs.length ++ " handler(s): " ++ c.written)) ∧ Nested hs c := by
  rcases nest_cases hne w with ⟨-, c, hc⟩ | ⟨i, hi, -⟩
  · have hcombine := Action.bind_of_value (f := fun combined => do
      Action.note .debug
        ("Combined " ++ toString hs.length ++ " handler(s): " ++ combined.written)
      return combined) hc
    exact ⟨c, hcombine, nested_of_nest hc⟩
  · exact absurd hfree hi.not_conflictFree

theorem combine_conflict (hne : hs ≠ []) (hconflict : ¬ ConflictFree hs) (w : World) :
    ∃ i, LastSharing hs i ∧
      combine hs w = .failed (.refused (.capabilityConflict (shared hs i)))
        (w.drawn (hs.length - 2 - i)) := by
  rcases nest_cases hne w with ⟨hfree, -⟩ | ⟨i, hi, hc⟩
  · exact absurd hfree hconflict
  · exact ⟨i, hi, by rw [combine, Action.bind_apply, hc]⟩

end Handler

/-! ### Values that have to be handlers -/

theorem handlersOf_handlers (hs : List Handler) :
    handlersOf (hs.map Value.handler) = pure hs := by
  induction hs with
  | nil => rfl
  | cons h hs ih =>
    show (do return h :: (← handlersOf (hs.map Value.handler))) = _
    rw [ih, pure_bind]

/-- The first value that is not a handler is refused. -/
theorem handlersOf_other {v : Value} (hv : ∀ h, v ≠ .handler h) (hs : List Handler)
    (vs : List Value) :
    handlersOf (hs.map Value.handler ++ v :: vs) = Action.fail (.notHandler v.typeName) := by
  induction hs with
  | nil =>
    cases v with
    | handler h => exact absurd rfl (hv h)
    | _ => rfl
  | cons h hs ih =>
    show (do return h :: (← handlersOf (hs.map Value.handler ++ v :: vs))) = _
    rw [ih, Action.fail_bind]

/-- A list of values is a list of handlers, or there is a first value that is none. -/
theorem Value.handlers_or (vs : List Value) :
    (∃ hs : List Handler, vs = hs.map Value.handler) ∨
      ∃ (hs : List Handler) (v : Value) (rest : List Value),
        vs = hs.map Value.handler ++ v :: rest ∧ ∀ h, v ≠ .handler h := by
  induction vs with
  | nil => exact .inl ⟨[], rfl⟩
  | cons v vs ih =>
    by_cases hv : ∃ h, v = .handler h
    · obtain ⟨h, rfl⟩ := hv
      rcases ih with ⟨hs, rfl⟩ | ⟨hs, u, rest, rfl, hu⟩
      · exact .inl ⟨h :: hs, rfl⟩
      · exact .inr ⟨h :: hs, u, rest, rfl, hu⟩
    · exact .inr ⟨[], v, vs, rfl, fun h hvh => hv ⟨h, hvh⟩⟩

/-! ### The operation -/

section

variable {s : Settings} {call : Call}

theorem HandlerOp.combine_handlers (hs : List Handler) :
    HandlerOp.combine.apply s call (hs.map Value.handler)
      = Handler.combine hs >>= fun c => pure (.handler c) := by
  show (do return Value.handler (← Handler.combine (← handlersOf (hs.map Value.handler)))) = _
  rw [handlersOf_handlers, pure_bind]

theorem HandlerOp.combine_other {v : Value} (hv : ∀ h, v ≠ .handler h) (hs : List Handler)
    (vs : List Value) :
    HandlerOp.combine.apply s call (hs.map Value.handler ++ v :: vs)
      = Action.fail (.notHandler v.typeName) := by
  show (do
    return Value.handler
      (← Handler.combine (← handlersOf (hs.map Value.handler ++ v :: vs)))) = _
  rw [handlersOf_other hv]
  rfl

variable (s call) {hs : List Handler}

/-- Handlers are combined in order, if no two of them claim one capability. -/
theorem HandlerOp.combine_conflictFree (hne : hs ≠ []) (hfree : Handler.ConflictFree hs)
    (w : World) : ∃ c,
      HandlerOp.combine.apply s call (hs.map Value.handler) w
        = .value (.handler c) ((w.drawn (hs.length - 1)).noted .debug
          ("Combined " ++ toString hs.length ++ " handler(s): " ++ c.written)) ∧
      Nested hs c ∧ c.leaves = hs.flatMap Handler.leaves ∧
      ∀ x, x ∈ c.capabilities ↔ ∃ h ∈ hs, x ∈ h.capabilities := by
  obtain ⟨c, hc, hn⟩ := Handler.combine_conflictFree hne hfree w
  refine ⟨c, ?_, hn, hn.leaves_eq, fun x => ?_⟩
  · rw [HandlerOp.combine_handlers, Action.bind_of_value hc]
    rfl
  · rw [hn.capabilities_eq, Handler.mem_provided]

/-- Otherwise what the last of them shares with the later ones is refused. -/
theorem HandlerOp.combine_conflict (hne : hs ≠ []) (hnot : ¬ Handler.ConflictFree hs) (w : World) :
    ∃ i, Handler.LastSharing hs i ∧
      HandlerOp.combine.apply s call (hs.map Value.handler) w
        = .failed (.refused (.capabilityConflict (Handler.shared hs i)))
          (w.drawn (hs.length - 2 - i)) := by
  obtain ⟨i, hi, hc⟩ := Handler.combine_conflict hne hnot w
  exact ⟨i, hi, by rw [HandlerOp.combine_handlers, Action.bind_apply, hc]⟩

end

/-- **Handlers can be combined exactly if no two of them claim one capability.**

A list with a value that is not a handler is refused for its first such value, whatever the
others claim.  A list of handlers is combined if their capability sets are pairwise disjoint, and
then the result is put together from them in order, has their components from left to right and
the union of their capabilities.  If the sets are not pairwise disjoint, then the capabilities
that are refused are those that the last handler that shares any shares with the later ones:
there is one, and each is claimed at two places.

Whatever comes of it, nothing of a handler has run: the functions that the interpreter `call`
knows play no part, and the world differs from the one before in the identities that were drawn
and, for a combination, in one diagnostic record. -/
theorem combine_of_manifest (s : Settings) (call : Call) (w : World) :
    (∀ vs : List Value, (∃ v ∈ vs, ∀ h, v ≠ .handler h) →
      ∃ (hs : List Handler) (v : Value) (rest : List Value),
        vs = hs.map Value.handler ++ v :: rest ∧ (∀ h, v ≠ .handler h) ∧
        HandlerOp.combine.apply s call vs w = .failed (.notHandler v.typeName) w) ∧
    (∀ hs : List Handler, hs ≠ [] →
      ((∃ v w', HandlerOp.combine.apply s call (hs.map Value.handler) w = .value v w') ↔
        Handler.ConflictFree hs) ∧
      (Handler.ConflictFree hs → ∃ c,
        HandlerOp.combine.apply s call (hs.map Value.handler) w
          = .value (.handler c) ((w.drawn (hs.length - 1)).noted .debug
            ("Combined " ++ toString hs.length ++ " handler(s): " ++ c.written)) ∧
        Nested hs c ∧ c.leaves = hs.flatMap Handler.leaves ∧
        ∀ x, x ∈ c.capabilities ↔ ∃ h ∈ hs, x ∈ h.capabilities) ∧
      (¬ Handler.ConflictFree hs → ∃ i overlap,
        HandlerOp.combine.apply s call (hs.map Value.handler) w
          = .failed (.refused (.capabilityConflict overlap)) (w.drawn (hs.length - 2 - i)) ∧
        (∃ h, hs[i]? = some h ∧ ∀ x, x ∈ overlap ↔
          x ∈ h.capabilities ∧ ∃ k ∈ hs.drop (i + 1), x ∈ k.capabilities) ∧
        (∀ j h, i < j → hs[j]? = some h → ∀ x ∈ h.capabilities,
          ¬ ∃ k ∈ hs.drop (j + 1), x ∈ k.capabilities) ∧
        (∃ x, x ∈ overlap) ∧
        ∀ x ∈ overlap, ∃ (a b : Nat) (h k : Handler), a < b ∧ hs[a]? = some h ∧ hs[b]? = some k ∧
          x ∈ h.capabilities ∧ x ∈ k.capabilities)) ∧
    ∀ (vs : List Value) (call' : Call),
      HandlerOp.combine.apply s call' vs w = HandlerOp.combine.apply s call vs w := by
  refine ⟨?_, ?_, fun _ _ => rfl⟩
  · rintro vs ⟨v, hv, hother⟩
    rcases Value.handlers_or vs with ⟨hs, rfl⟩ | ⟨hs, u, rest, rfl, hu⟩
    · obtain ⟨h, -, rfl⟩ := List.mem_map.mp hv
      exact absurd rfl (hother h)
    · exact ⟨hs, u, rest, rfl, hu, congrFun (HandlerOp.combine_other hu hs rest) w⟩
  · intro hs hne
    refine ⟨⟨?_, ?_⟩, fun hfree => HandlerOp.combine_conflictFree s call hne hfree w, ?_⟩
    · rintro ⟨v, w', hv⟩
      by_contra hnot
      obtain ⟨i, -, hc⟩ := HandlerOp.combine_conflict s call hne hnot w
      rw [hc] at hv
      cases hv
    · intro hfree
      obtain ⟨c, hc, -⟩ := HandlerOp.combine_conflictFree s call hne hfree w
      exact ⟨_, _, hc⟩
    · intro hnot
      obtain ⟨i, hi, hc⟩ := HandlerOp.combine_conflict s call hne hnot w
      obtain ⟨y, hy⟩ := hi.shares
      obtain ⟨h, hh, -⟩ := Handler.mem_shared.mp hy
      refine ⟨i, Handler.shared hs i, hc, ⟨h, hh, fun x => ?_⟩, ?_, ⟨y, hy⟩, ?_⟩
      · rw [Handler.mem_shared, hh]
        simp
      · intro j k hj hk x hx hlater
        exact hi.last hj x (Handler.mem_shared.mpr ⟨k, hk, hx, hlater⟩)
      · intro x hx
        obtain ⟨j, h, k, hij, hh, hk, hxh, hxk⟩ := Handler.two_claim hx
        exact ⟨i, j, h, k, hij, hh, hk, hxh, hxk⟩

/-- Two capabilities are claimed twice; the conflict is that of the two counters, which is the
later one. -/
theorem combine_of_manifest_five :
    ∃ i overlap,
      HandlerOp.combine.apply ⟨false, 0⟩ (fun _ _ => pure .null)
          (List.map Value.handler
            [.collector 0, .counter 1, .collector 2, .counter 3, .store 4 []]) (.initial "")
        = .failed (.refused (.capabilityConflict overlap))
          ((World.initial "").drawn (5 - 2 - i)) ∧
      i = 1 ∧ overlap = .single ⟨"counter"⟩ ∧ ∃ x, x ∈ overlap := by
  have hnot : ¬ Handler.ConflictFree
      [.collector 0, .counter 1, .collector 2, .counter 3, .store 4 []] := by
    intro hfree
    exact Handler.conflictFree_iff.mp hfree 0 ⟨"log"⟩ (by decide)
  obtain ⟨i, overlap, hfailed, -, -, hsome, -⟩ :=
    ((combine_of_manifest ⟨false, 0⟩ (fun _ _ => pure .null) (.initial "")).2.1
      [.collector 0, .counter 1, .collector 2, .counter 3, .store 4 []] (by simp)).2.2 hnot
  have hcomputed : HandlerOp.combine.apply ⟨false, 0⟩ (fun _ _ => pure .null)
      (List.map Value.handler [.collector 0, .counter 1, .collector 2, .counter 3, .store 4 []])
      (.initial "")
      = .failed (.refused (.capabilityConflict (.single ⟨"counter"⟩)))
        ((World.initial "").drawn 2) := rfl
  refine ⟨i, overlap, hfailed, ?_, ?_, hsome⟩
  · have hworlds := Outcome.failed.inj (hcomputed.symm.trans hfailed)
    have hfresh : 0 + 2 = 0 + (5 - 2 - i) := congrArg World.fresh hworlds.2
    omega
  · have hoverlap := (Outcome.failed.inj (hcomputed.symm.trans hfailed)).1
    simpa using hoverlap.symm

end EffectHandlers
