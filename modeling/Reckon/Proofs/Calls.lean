import Reckon.Evaluator
import Reckon.Proofs.Cache
import Reckon.Proofs.Evaluation

/-!
Calls to one evaluator. The trees that it keeps are those of their texts, so that every call is
answered as a new evaluator would answer it.
-/
namespace Reckon

namespace Evaluator

/-- What an evaluator can be asked for. -/
inductive Call where
  | evaluateText (text : String) (bindings : Bindings)
  | parse (text : String)
  | evaluate (e : Expr) (bindings : Bindings)
  | evaluateBatch (e : Expr) (batch : List Bindings)

/-- The text that a call evaluates, if it evaluates one. -/
def Call.text? : Call → Option String
  | evaluateText text _ => some text
  | _ => none

inductive Answer where
  | value (result : Except Error Value)
  | tree (result : Except Error Expr)
  | values (results : List (Except Error Value))

/-- The answer to a call, and the evaluator after it. -/
def answer (ev : Evaluator) : Call → Answer × Evaluator
  | .evaluateText text bindings =>
    let (result, ev) := ev.evaluateText text bindings
    (.value result, ev)
  | .parse text => (.tree (ev.parse text), ev)
  | .evaluate e bindings => (.value (ev.evaluate e bindings), ev)
  | .evaluateBatch e batch => (.values (ev.evaluateBatch e batch), ev)

/-- The answers to the calls, in order. -/
def answers : Evaluator → List Call → List Answer
  | _, [] => []
  | ev, call :: calls => (ev.answer call).1 :: (ev.answer call).2.answers calls

def after (ev : Evaluator) (calls : List Call) : Evaluator :=
  calls.foldl (fun ev call => (ev.answer call).2) ev

end Evaluator

open Evaluator

namespace EvaluatorConfig

/-- The answer to a call from its grammar and least divisor alone. -/
def meaning (c : EvaluatorConfig) : Call → Answer
  | .evaluateText text bindings =>
    .value do (← c.grammar.parse text).evaluate c.build.epsilon bindings
  | .parse text => .tree (c.grammar.parse text)
  | .evaluate e bindings => .value (e.evaluate c.build.epsilon bindings)
  | .evaluateBatch e batch => .values (batch.map (e.evaluate c.build.epsilon))

/-- The evaluator is one of the configuration, whatever trees it keeps, and these are right. -/
structure Serves (c : EvaluatorConfig) (ev : Evaluator) : Prop where
  grammar : ev.grammar = c.grammar
  epsilon : ev.epsilon = c.build.epsilon
  trees : ∀ p ∈ ev.trees.entries, c.grammar.parse p.1 = .ok p.2

variable {c : EvaluatorConfig} {ev : Evaluator}

theorem serves_build (c : EvaluatorConfig) : c.Serves c.build :=
  ⟨rfl, rfl, by simp [build, Cache.empty]⟩

namespace Serves

theorem evaluate_eq (h : c.Serves ev) (e : Expr) : ev.evaluate e = e.evaluate c.build.epsilon := by
  funext bindings
  rw [Evaluator.evaluate, h.epsilon]

theorem parse_of_get? (h : c.Serves ev) {text : String} {e : Expr} {trees : Cache String Expr}
    (hget : ev.trees.get? text = some (e, trees)) : c.grammar.parse text = .ok e :=
  h.trees _ (Cache.leastRecentlyUsed.mem_of_get? hget)

/-- It makes no difference to the value whether a tree is kept. -/
theorem evaluateText_eq (h : c.Serves ev) (text : String) (bindings : Bindings) :
    (ev.evaluateText text bindings).1 =
      (do (← c.grammar.parse text).evaluate c.build.epsilon bindings) := by
  cases hget : ev.trees.get? text with
  | some found =>
    obtain ⟨e, trees⟩ := found
    simp [Evaluator.evaluateText, hget, h.parse_of_get? hget, h.evaluate_eq]
  | none =>
    cases hp : c.grammar.parse text <;>
      simp [Evaluator.evaluateText, hget, Evaluator.parse, h.grammar, hp, h.evaluate_eq]

theorem answer_eq_meaning (h : c.Serves ev) (call : Call) :
    (ev.answer call).1 = c.meaning call := by
  cases call with
  | evaluateText text bindings => simp [answer, meaning, h.evaluateText_eq]
  | parse text => simp [answer, meaning, Evaluator.parse, h.grammar]
  | evaluate e bindings => simp [answer, meaning, h.evaluate_eq]
  | evaluateBatch e batch => simp [answer, meaning, evaluateBatch, h.evaluate_eq]

theorem evaluateText_of_ok (h : c.Serves ev) {text : String} {e : Expr}
    (hp : c.grammar.parse text = .ok e) (bindings : Bindings) :
    ∃ trees, ev.trees.Uses text e trees ∧
      (ev.evaluateText text bindings).2 = { ev with trees } := by
  cases hget : ev.trees.get? text with
  | some found =>
    obtain ⟨e', trees⟩ := found
    obtain rfl : e' = e := Except.ok.inj ((h.parse_of_get? hget).symm.trans hp)
    exact ⟨trees, .inl hget, by simp [Evaluator.evaluateText, hget]⟩
  | none =>
    refine ⟨ev.trees.put text e, .inr ⟨hget, rfl⟩, ?_⟩
    simp [Evaluator.evaluateText, hget, Evaluator.parse, h.grammar, hp]

theorem evaluateText_of_error (h : c.Serves ev) {text : String} {error : Error}
    (hp : c.grammar.parse text = .error error) (bindings : Bindings) :
    (ev.evaluateText text bindings).2 = ev := by
  cases hget : ev.trees.get? text with
  | some found =>
    have hok := h.parse_of_get? hget
    rw [hp] at hok
    cases hok
  | none => simp [Evaluator.evaluateText, hget, Evaluator.parse, h.grammar, hp]

theorem answer (h : c.Serves ev) (call : Call) : c.Serves (ev.answer call).2 := by
  cases call with
  | evaluateText text bindings =>
    cases hp : c.grammar.parse text with
    | error error =>
      have hev := h.evaluateText_of_error hp bindings
      exact hev.symm ▸ h
    | ok e =>
      obtain ⟨trees, huses, hev⟩ := h.evaluateText_of_ok hp bindings
      refine hev.symm ▸ ⟨h.grammar, h.epsilon, ?_⟩
      intro p hmem
      rcases List.mem_cons.mp (huses.entries hmem) with rfl | hmem
      · exact hp
      · exact h.trees p hmem
  | parse | evaluate | evaluateBatch => exact h

theorem after (h : c.Serves ev) (calls : List Call) : c.Serves (ev.after calls) := by
  induction calls generalizing ev with
  | nil => exact h
  | cons call calls ih => exact ih (h.answer call)

theorem answers_eq (h : c.Serves ev) (calls : List Call) :
    ev.answers calls = calls.map c.meaning := by
  induction calls generalizing ev with
  | nil => rfl
  | cons call calls ih =>
    rw [answers, List.map_cons, h.answer_eq_meaning call, ih (h.answer call)]

end Serves

theorem epsilon_default : ({} : EvaluatorConfig).build.epsilon = defaultEpsilon := by
  simp [build]

/-- Whatever was asked for before, a call is answered as by a new evaluator, from the grammar and
the least divisor alone; and by default as a text is evaluated on its own. The trees kept are those
of their texts, and only the evaluation of a text may change which ones they are. -/
theorem answers_eq_map_fresh (c : EvaluatorConfig) (calls : List Call) :
    let ev := c.build.after calls
    c.build.answers calls = calls.map (fun call => (c.build.answer call).1) ∧
    (∀ call, (ev.answer call).1 = (c.build.answer call).1 ∧ (ev.answer call).1 = c.meaning call) ∧
    (∀ e (batch : List Bindings) (i : Nat),
      (ev.evaluateBatch e batch)[i]? = batch[i]?.map (c.build.evaluate e)) ∧
    (∀ p ∈ ev.trees.entries, c.grammar.parse p.1 = .ok p.2) ∧
    (∀ call, call.text? = none → (ev.answer call).2 = ev) ∧
    ∀ text bindings, ((({} : EvaluatorConfig).build.after calls).evaluateText text bindings).1 =
      Reckon.evaluateText text bindings := by
  intro ev
  have hnew : ∀ call, (c.build.answer call).1 = c.meaning call := c.serves_build.answer_eq_meaning
  have hev : c.Serves ev := c.serves_build.after calls
  refine ⟨?_, ?_, ?_, hev.trees, ?_, ?_⟩
  · rw [c.serves_build.answers_eq calls]
    exact (List.map_congr_left fun call _ => hnew call).symm
  · intro call
    have hanswer := hev.answer_eq_meaning call
    exact ⟨hanswer.trans (hnew call).symm, hanswer⟩
  · intro e batch i
    rw [evaluateBatch, List.getElem?_map, hev.evaluate_eq e, c.serves_build.evaluate_eq e]
  · intro call hcall
    cases call with
    | evaluateText text bindings => cases hcall
    | parse | evaluate | evaluateBatch => rfl
  · intro text bindings
    have hdefault := serves_build {}
    have hanswer := (hdefault.after calls).answer_eq_meaning (.evaluateText text bindings)
    simp only [Evaluator.answer, meaning, Answer.value.injEq] at hanswer
    rw [hanswer, epsilon_default]
    rfl

/-- Only one tree is kept. That of the first text is needed again after another has taken its place,
after a text that does not parse and after one without value. -/
theorem answers_evicted :
    let c : EvaluatorConfig := { cacheSize := 0 }
    let e : Expr := .binary .add (.var "x") (.const 1)
    let ev := c.build.after [.evaluateText "x + 1" [("x", .scalar 2)], .evaluateText "x +" [],
      .evaluateText "y" [], .evaluateText "x + 1" []]
    ("x + 1", e) ∈ ev.trees.entries ∧ ({} : Grammar).parse "x + 1" = .ok e ∧
      (Call.evaluate e []).text? = none ∧ (ev.answer (.evaluate e [])).2 = ev ∧
      (ev.answer (.evaluateText "x + 1" [("x", .array [1, 2])])).1 =
        .value (.ok (.array [2, 3])) := by
  intro c e ev
  have hmem : ("x + 1", e) ∈ ev.trees.entries := by decide +kernel
  have hvalue : e.evaluate c.build.epsilon [("x", .array [1, 2])] = .ok (.array [2, 3]) := by
    rw [Expr.evaluate_eq_eval]
    decide +kernel
  obtain ⟨-, hanswer, -, htrees, hkeep, -⟩ := answers_eq_map_fresh c
    [.evaluateText "x + 1" [("x", .scalar 2)], .evaluateText "x +" [], .evaluateText "y" [],
      .evaluateText "x + 1" []]
  have hparse : c.grammar.parse "x + 1" = .ok e := htrees _ hmem
  refine ⟨hmem, hparse, rfl, hkeep _ rfl, ?_⟩
  rw [(hanswer _).2, meaning, hparse, ok_bind, hvalue]

end EvaluatorConfig

end Reckon
