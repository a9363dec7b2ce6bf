/-
EffectHandlers/Proofs/Uses.lean

How often a routine is executed when its chain is used.

The holder of a chain is at a node.  A use of the chain is a sequence of
steps: the node is resumed, which leads to the next one or to the end of the
routine, or something else happens that leaves the record of the call alone
(`Use`).  This is what a run makes of a chain, whatever its handler is, if
that resumes each effect at most once: no node is resumed twice, and no other
node of the chain is resumed in between.  A use may stop anywhere, and the
holder of a node may never resume it.

Going on from a node either goes on with the live coroutine or makes a fresh
one first.  Once a coroutine has gone on, the live coroutine stands at the
node at hand, because every node is continued from the very history that the
live coroutine was left at.  So only the first resumption of a use can make a
coroutine, and all that follows is what a coroutine that is never made again
would do (`advancing`).

Main results: the course of a use (`course_of_uses`), and the number of
coroutines after complete uses (`executions_of_complete_uses`).
-/
import EffectHandlers.Proofs.Sparing
import Mathlib.Logic.Relation

namespace EffectHandlers

variable {s : Settings} {id gen h : Nat} {i j : Invocation} {w u v : World} {t t' : Hand}
  {answers : List Value}

/-! ### Uses -/

/-- Where a resumption leaves its holder. -/
def Outcome.hand (id : Nat) : Outcome Chain → Hand
  | .value c _ => c.hand id
  | .failed _ _ | .exhausted => .lost

/-- How a routine goes on from a history with an answer. -/
abbrev Going := Evaluation → Nat → Value → Action Chain

/-- The resumptions of a call. -/
noncomputable def resuming (s : Settings) (id : Nat) : Going := fun eval h answer =>
  Invocation.resume eval (Callable.meaning s) s.maxSteps id h answer

/-- Going on in the live coroutine, without ever making a fresh one. -/
noncomputable def advancing (s : Settings) (id : Nat) : Going := fun eval h answer =>
  Invocation.advance eval (Callable.meaning s) s.maxSteps id h answer

/-- One step of a use of a chain, with the world and what is at hand.

* `aside`: anything that leaves the record of the call alone;
* `resume`: the node at hand is resumed, and the routine leaves the record of its call alone while
  it is executed. -/
inductive Use (s : Settings) (id : Nat) (go : Going) : World × Hand → World × Hand → Prop
  | aside {w u : World} {t : Hand} (same : w.SameCall id u) : Use s id go (w, t) (u, t)
  | resume {w u : World} {h : Nat} (answer : Value)
      (apart : go ((Evaluation.meaning s).sparing id) h answer w
        = go (Evaluation.meaning s) h answer w)
      (after : (go (Evaluation.meaning s) h answer w).world? = some u) :
      Use s id go (w, .node h) (u, (go (Evaluation.meaning s) h answer w).hand id)

/-- A use of a chain. -/
abbrev Uses (s : Settings) (id : Nat) (go : Going) : World × Hand → World × Hand → Prop :=
  Relation.ReflTransGen (Use s id go)

theorem Outcome.Moves.stands {o : Outcome Chain}
    (ho : o.Moves id gen i fun c j => j.AtHand gen (c.hand id)) (hu : o.world? = some u) :
    ∃ j, u.invocations[id]? = some j ∧ i.Moved gen j ∧ j.AtHand gen (o.hand id) := by
  cases o with
  | value c w =>
    cases hu
    exact ho
  | failed f w =>
    cases hu
    obtain ⟨j, hj, hij⟩ := ho
    exact ⟨j, hj, hij, trivial⟩
  | exhausted => cases hu

/-! ### The steps of a use -/

/-- Where the record stands at the node at hand, a step of a use makes no coroutine. -/
theorem Use.advances {p q : World × Hand} (huse : Use s id (resuming s id) p q)
    (hi : p.1.invocations[id]? = some i) (hstands : i.AtHand gen p.2) :
    Use s id (advancing s id) p q ∧
      ∃ j, q.1.invocations[id]? = some j ∧ i.Moved gen j ∧ j.AtHand gen q.2 := by
  cases huse with
  | aside same => exact ⟨.aside same, i, Eq.trans same hi, .refl gen i, hstands⟩
  | @resume w u h answer apart after =>
    have hlive : i.live = some (gen, h) := hstands
    have hsame (eval : Evaluation) :
        resuming s id eval h answer w = advancing s id eval h answer w := by
      rw [resuming, Invocation.resume_apply _ _ _ _ _ hi, hlive, Invocation.standsAt,
        beq_self_eq_true, if_pos rfl, advancing]
    rw [hsame] at after ⊢
    rw [hsame, hsame] at apart
    have hmoves := advance_moves (Evaluation.meaning s) (Callable.meaning s) s.maxSteps h answer
      hi hlive
    rw [← advancing, apart] at hmoves
    exact ⟨.resume answer apart after, hmoves.stands after⟩

/-- Where the record stands at the node at hand, a use makes no coroutine. -/
theorem Uses.advances {p q : World × Hand} (huses : Uses s id (resuming s id) p q)
    (hi : p.1.invocations[id]? = some i) (hstands : i.AtHand gen p.2) :
    Uses s id (advancing s id) p q ∧
      ∃ j, q.1.invocations[id]? = some j ∧ i.Moved gen j ∧ j.AtHand gen q.2 := by
  induction huses with
  | refl => exact ⟨.refl, i, hi, .refl gen i, hstands⟩
  | tail _ hstep ih =>
    obtain ⟨huses, j, hj, hij, hstands⟩ := ih
    obtain ⟨hstep, k, hk, hjk, hstands⟩ := hstep.advances hj hstands
    exact ⟨huses.tail hstep, k, hk, hij.trans hjk, hstands⟩

/-! ### The first continuation -/

/-- The coroutine in which a routine goes on from a history: the live one if it stands there, else
a fresh one; with the record as it is before the answer is sent. -/
inductive Invocation.Opens (i : Invocation) (h : Nat) : Nat → Invocation → Prop
  | live {gen : Nat} (hl : i.live = some (gen, h)) : Opens i h gen i
  | fresh (hl : standsAt h i.live = false) : Opens i h i.coroutines.size i.withFresh

/-- A resumption makes a coroutine only if the live one does not stand at its history. -/
theorem resume_moves (eval : Evaluation) (call : Call) (maxSteps : Nat) (answer : Value)
    (hi : w.invocations[id]? = some i) (hh : i.histories[h]? = some answers) :
    ∃ gen k, i.Opens h gen k ∧
      (Invocation.resume (eval.sparing id) call maxSteps id h answer w).Moves id gen k
        fun c j => j.AtHand gen (c.hand id) := by
  rw [Invocation.resume_apply _ _ _ _ _ hi]
  cases hl : Invocation.standsAt h i.live with
  | true =>
    obtain ⟨gen, hl⟩ : ∃ gen, i.live = some (gen, h) := by
      cases hlive : i.live with
      | none => simp [hlive, Invocation.standsAt] at hl
      | some l => exact ⟨l.1, by simpa [hlive, Invocation.standsAt, Prod.ext_iff] using hl⟩
    exact ⟨gen, i, .live hl, advance_moves eval call maxSteps h answer hi hl⟩
  | false =>
    exact ⟨_, _, .fresh hl, (rebuild_moves eval hi hh).bind fun _ u j hj _ hl =>
      advance_moves eval call maxSteps h answer hj hl⟩

/-- A use either never goes on from the first node, or it makes a coroutine at most when it does so
for the first time. -/
theorem Uses.split {p q : World × Hand} (huses : Uses s id (resuming s id) p q)
    (hp : p.2 = .node h) (hi : p.1.invocations[id]? = some i)
    (hh : i.histories[h]? = some answers) :
    (p.1.SameCall id q.1 ∧ q.2 = .node h) ∨
    ∃ v v' answer gen k j, p.1.SameCall id v ∧
      (resuming s id (Evaluation.meaning s) h answer v).world? = some v' ∧
      Uses s id (advancing s id) (v', (resuming s id (Evaluation.meaning s) h answer v).hand id) q ∧
      i.Opens h gen k ∧ q.1.invocations[id]? = some j ∧ k.Moved gen j ∧ j.AtHand gen q.2 := by
  -- From the front: up to the first resumption the record is as it was, and after it the record
  -- stands at the node at hand.
  induction huses using Relation.ReflTransGen.head_induction_on with
  | refl => exact .inl ⟨.refl id q.1, hp⟩
  | head hstep hrest ih =>
    cases hstep with
    | aside same =>
      rcases ih hp (Eq.trans same hi) with ⟨hsame, hq⟩ | ⟨v, v', answer, gen, k, j, hsame, hlater⟩
      · exact .inl ⟨same.trans hsame, hq⟩
      · exact .inr ⟨v, v', answer, gen, k, j, same.trans hsame, hlater⟩
    | @resume v v' _ answer apart after =>
      cases hp
      obtain ⟨gen, k, hopens, hmoves⟩ := resume_moves (Evaluation.meaning s) (Callable.meaning s)
        s.maxSteps answer hi hh
      rw [← resuming, apart] at hmoves
      obtain ⟨i', hi', hki', hstands⟩ := hmoves.stands after
      obtain ⟨hplain, j, hj, hij, hstands⟩ := Uses.advances hrest hi' hstands
      exact .inr ⟨v, v', answer, gen, k, j, .refl id v, after, hplain, hopens, hj, hki'.trans hij,
        hstands⟩

/-! ### The course of a use -/

/-- How many executions of its routine a call has begun. -/
def World.executions (id : Nat) (w : World) : Nat :=
  (w.invocations[id]?).elim 0 (·.coroutines.size)

/-- Whether the live coroutine of a call stands at a history. -/
def World.standsAt (id h : Nat) (w : World) : Bool :=
  (w.invocations[id]?).any fun i => Invocation.standsAt h i.live

/-- Make a fresh coroutine live at a history, after it was sent answers, oldest first. -/
def Invocation.renew (eval : Evaluation) (id h : Nat) (answers : List Value) : Action Unit := do
  let gen ← spawn id
  mustYield (← Coroutine.start eval id gen)
  replay eval id gen answers
  setLive id (some (gen, h))

theorem Invocation.rebuild_apply (eval : Evaluation) (hi : w.invocations[id]? = some i)
    (hh : i.histories[h]? = some answers) :
    rebuild eval id h w = renew eval id h answers.reverse w := by
  rw [rebuild, Action.bind_of_value (answersOf_apply hi hh)]
  rfl

/-- Go on from a history with an answer: in the live coroutine if that stands there, else in a
fresh one. -/
noncomputable def continuing (s : Settings) (id h : Nat) (answers : List Value) (live : Bool)
    (answer : Value) : Action Chain := do
  if live then pure () else Invocation.renew (Evaluation.meaning s) id h answers
  advancing s id (Evaluation.meaning s) h answer

/-- The course of a use of a chain from its first node.

* `untouched`: the routine does not go on;
* `continued`: it goes on, in the live coroutine if that stands at the first node and else in one
  that is made for it; and what follows is done in this coroutine alone. -/
inductive CourseOfUse (s : Settings) (id h : Nat) (answers : List Value) (w : World) :
    World × Hand → Prop
  | untouched {u : World} (same : w.SameCall id u) : CourseOfUse s id h answers w (u, .node h)
  | continued {v v' : World} {q : World × Hand} (answer : Value) (before : w.SameCall id v)
      (first : (resuming s id (Evaluation.meaning s) h answer v)
        = continuing s id h answers (w.standsAt id h) answer v)
      (after : (continuing s id h answers (w.standsAt id h) answer v).world? = some v')
      (plain : Uses s id (advancing s id)
        (v', (continuing s id h answers (w.standsAt id h) answer v).hand id) q)
      (made : q.1.executions id = w.executions id + if w.standsAt id h then 0 else 1) :
      CourseOfUse s id h answers w q

theorem Invocation.Opens.size {k : Invocation} (hopens : i.Opens h gen k) :
    k.coroutines.size = i.coroutines.size + if standsAt h i.live then 0 else 1 := by
  cases hopens with
  | live hl => simp [hl, standsAt]
  | fresh hl => simp [hl, withFresh]

/-- **A use makes at most one coroutine**, when the routine goes on for the first time, and none if
the live one stands at the first node. -/
theorem course_of_uses {q : World × Hand} (huses : Uses s id (resuming s id) (w, .node h) q)
    (hi : w.invocations[id]? = some i) (hh : i.histories[h]? = some answers.reverse) :
    CourseOfUse s id h answers w q := by
  have hlive : w.standsAt id h = Invocation.standsAt h i.live := by simp [World.standsAt, hi]
  rcases huses.split rfl hi hh with
    ⟨hsame, hq⟩ | ⟨v, v', answer, gen, k, j, hsame, hafter, hplain, hopens, hj, hkj, -⟩
  · obtain ⟨u, t⟩ := q
    cases hq
    exact .untouched hsame
  · have hv : v.invocations[id]? = some i := Eq.trans hsame hi
    have hfirst : resuming s id (Evaluation.meaning s) h answer v
        = continuing s id h answers (w.standsAt id h) answer v := by
      rw [resuming, Invocation.resume_apply _ _ _ _ _ hv, continuing, hlive]
      cases Invocation.standsAt h i.live with
      | true => rfl
      | false =>
        have hrebuild := Invocation.rebuild_apply (Evaluation.meaning s) hv hh
        rw [List.reverse_reverse] at hrebuild
        show (Invocation.rebuild _ _ _ >>= _) v = (Invocation.renew _ _ _ _ >>= _) v
        rw [Action.bind_apply, Action.bind_apply, hrebuild]
        rfl
    rw [hfirst] at hafter hplain
    refine .continued answer hsame hfirst hafter hplain ?_
    rw [World.executions, World.executions, hj, hi, hlive]
    exact hkj.size.trans hopens.size

/-! ### Complete uses -/

/-- A call whose executions have all come to an end. -/
structure Invocation.Spent (i : Invocation) (n : Nat) : Prop where
  executions : i.coroutines.size = n
  live : i.live = none
  finished (gen : Nat) : i.Finished gen

/-- A use that leads to the end of the routine ends the execution that it goes on with. -/
theorem Uses.complete (huses : Uses s id (resuming s id) (w, .node h) (u, .returned))
    (hi : w.invocations[id]? = some i) (hh : i.histories[h]? = some answers) :
    ∃ gen k j, i.Opens h gen k ∧ u.invocations[id]? = some j ∧ k.Moved gen j ∧ j.live = none ∧
      j.Finished gen := by
  rcases huses.split rfl hi hh with
    ⟨-, hq⟩ | ⟨v, v', answer, gen, k, j, -, -, -, hopens, hj, hkj, hlive, hfinished⟩
  · cases hq
  · exact ⟨gen, k, j, hopens, hj, hkj, hlive, hfinished⟩

theorem Invocation.Opens.grows {k : Invocation} (hopens : i.Opens h gen k) : i.Grows k := by
  cases hopens with
  | live => exact .refl i
  | fresh => exact grows_withFresh i

/-- The first complete use ends the only execution. -/
theorem Uses.spent_one (huses : Uses s id (resuming s id) (w, .node h) (u, .returned))
    (hi : w.invocations[id]? = some i) (hh : i.histories[h]? = some answers)
    (hsize : i.coroutines.size = 1) (hl : i.live = some (0, h)) :
    ∃ j, u.invocations[id]? = some j ∧ j.Spent 1 ∧ j.histories[h]? = some answers := by
  obtain ⟨gen, k, j, hopens, hj, hkj, hlive, hfinished⟩ := huses.complete hi hh
  have hhist := hkj.grows.histories h _ (hopens.grows.histories h _ hh)
  cases hopens with
  | fresh hfresh => simp [hl, Invocation.standsAt] at hfresh
  | live hl' =>
    rw [hl] at hl'
    cases hl'
    refine ⟨j, hj, ⟨hkj.size.trans hsize, hlive, fun g => ?_⟩, hhist⟩
    by_cases hg : g = 0
    · exact hg ▸ hfinished
    · intro c hc
      have hlt := (Array.getElem?_eq_some_iff.mp hc).1
      rw [hkj.size, hsize] at hlt
      exact absurd (Nat.lt_one_iff.mp hlt) hg

/-- Every later complete use makes an execution and ends it. -/
theorem Uses.spent_succ {n : Nat}
    (huses : Uses s id (resuming s id) (w, .node h) (u, .returned))
    (hi : w.invocations[id]? = some i) (hh : i.histories[h]? = some answers) (hspent : i.Spent n) :
    ∃ j, u.invocations[id]? = some j ∧ j.Spent (n + 1) ∧ j.histories[h]? = some answers := by
  obtain ⟨gen, k, j, hopens, hj, hkj, hlive, hfinished⟩ := huses.complete hi hh
  have hhist := hkj.grows.histories h _ (hopens.grows.histories h _ hh)
  cases hopens with
  | live hl =>
    rw [hspent.live] at hl
    cases hl
  | fresh =>
    have hsize : i.withFresh.coroutines.size = n + 1 := by
      rw [← hspent.executions]
      exact Array.size_push _
    refine ⟨j, hj, ⟨hkj.size.trans hsize, hlive, fun g => ?_⟩, hhist⟩
    by_cases hg : g = i.coroutines.size
    · exact hg ▸ hfinished
    · intro c hc
      rw [hkj.others g hg] at hc
      have hc : (i.coroutines.push _)[g]? = some c := hc
      rw [Array.getElem?_push, if_neg hg] at hc
      exact hspent.finished g c hc

/-- **Complete uses are executions**: after so many complete uses of a chain, one after the other,
its routine was executed so many times, each time to the end. -/
theorem executions_of_complete_uses {ws : Nat → World} {n : Nat}
    (hi : (ws 0).invocations[id]? = some i) (hh : i.histories[h]? = some answers)
    (hsize : i.coroutines.size = 1) (hl : i.live = some (0, h))
    (huses : ∀ k, k ≤ n → Uses s id (resuming s id) (ws k, .node h) (ws (k + 1), .returned)) :
    ∃ j, (ws (n + 1)).invocations[id]? = some j ∧ j.Spent (n + 1) := by
  have hspent (k : Nat) (hk : k ≤ n) : ∃ j, (ws (k + 1)).invocations[id]? = some j ∧
      j.Spent (k + 1) ∧ j.histories[h]? = some answers := by
    induction k with
    | zero => exact (huses 0 hk).spent_one hi hh hsize hl
    | succ k ih =>
      obtain ⟨j, hj, hspent, hhj⟩ := ih (Nat.le_of_succ_le hk)
      exact (huses (k + 1) hk).spent_succ hj hhj hspent
  obtain ⟨j, hj, hspent, -⟩ := hspent n (Nat.le_refl n)
  exact ⟨j, hj, hspent⟩

end EffectHandlers
