import Reckon.Proofs.Recency
import Reckon.Session

/-!
Sessions. The requests of a session come down to calls, which its evaluator answers one after another.
So the replies follow from the requests alone: what came before decides which trees have names, and
whether the tree of a text is at hand.
-/
namespace Reckon

open Evaluator

theorem Evaluator.answers_append (ev : Evaluator) (call? : Option Call) (calls : List Call) :
    ev.answers (call?.toList ++ calls) =
      (call?.map fun call => (ev.answer call).1).toList ++ (ev.after call?.toList).answers calls := by
  cases call? <;> rfl

namespace Session

/-- The text that a request evaluates, if it evaluates one. -/
def Request.text? : Request → Option String
  | evaluateText text _ => some text
  | _ => none

/-- The answer that is passed on. -/
def Reply.answer? : Reply → Option Answer
  | value result => some (.value result)
  | textValue result _ => some (.value result)
  | tree result => some (.tree result)
  | values results => some (.values results)
  | description _ _ | noSuchTree _ => none

/-- What the evaluator is called for. A description takes no call, nor does a name that no tree
has. -/
def call? (s : Session) : Request → Option Call
  | .evaluateText text bindings => some (.evaluateText text bindings)
  | .parse text _ => some (.parse text)
  | .evaluate name bindings => (s.kept.lookup name).map (.evaluate · bindings)
  | .evaluateBatch name batch => (s.kept.lookup name).map (.evaluateBatch · batch)
  | .describe => none

/-- The calls that the requests come down to, in order. -/
def calls : Session → List Request → List Call
  | _, [] => []
  | s, r :: rs => (s.call? r).toList ++ (s.answer r).2.calls rs

def after (s : Session) (requests : List Request) : Session :=
  requests.foldl (fun s r => (s.answer r).2) s

theorem after_append_singleton (s : Session) (rs : List Request) (r : Request) :
    s.after (rs ++ [r]) = ((s.after rs).answer r).2 := by
  simp [after]

theorem answer?_answer (s : Session) (r : Request) :
    (s.answer r).1.answer? = (s.call? r).map fun call => (s.evaluator.answer call).1 := by
  cases r with
  | evaluateText | describe => rfl
  | parse text name =>
    cases hp : s.evaluator.parse text <;>
      simp [answer, Reply.answer?, call?, Evaluator.answer, hp]
  | evaluate name | evaluateBatch name =>
    cases hk : s.kept.lookup name <;> simp [answer, Reply.answer?, call?, Evaluator.answer, hk]

theorem evaluator_answer (s : Session) (r : Request) :
    (s.answer r).2.evaluator = s.evaluator.after (s.call? r).toList := by
  cases r with
  | evaluateText | describe => rfl
  | parse text name =>
    cases hp : s.evaluator.parse text <;> simp [answer, call?, Evaluator.after, Evaluator.answer, hp]
  | evaluate name | evaluateBatch name =>
    cases hk : s.kept.lookup name <;> simp [answer, call?, Evaluator.after, Evaluator.answer, hk]

theorem text?_call? (s : Session) (r : Request) : (s.call? r).bind Call.text? = r.text? := by
  cases r with
  | evaluateText | parse | describe => rfl
  | evaluate name | evaluateBatch name =>
    cases hk : s.kept.lookup name <;> simp [call?, Call.text?, Request.text?, hk]

/-- The replies pass on what the evaluator answers to the calls. -/
theorem answerAll_eq_answers (s : Session) (requests : List Request) :
    (s.answerAll requests).filterMap Reply.answer? = s.evaluator.answers (s.calls requests) := by
  induction requests generalizing s with
  | nil => rfl
  | cons r rs ih =>
    have hrest := ih (s.answer r).2
    rw [evaluator_answer] at hrest
    simp only [List.filterMap_eq_flatMap_toList] at hrest ⊢
    rw [answerAll, List.flatMap_cons, hrest, answer?_answer, calls, answers_append]

/-- The requests leave the evaluator as the calls do. -/
theorem evaluator_after (s : Session) (requests : List Request) :
    (s.after requests).evaluator = s.evaluator.after (s.calls requests) := by
  induction requests generalizing s with
  | nil => rfl
  | cons r rs ih =>
    have hrest := ih (s.answer r).2
    rw [evaluator_answer] at hrest
    rw [calls, Evaluator.after, List.foldl_append]
    exact hrest

theorem filterMap_text?_calls (s : Session) (requests : List Request) :
    (s.calls requests).filterMap Call.text? = requests.filterMap Request.text? := by
  induction requests generalizing s with
  | nil => rfl
  | cons r rs ih =>
    rw [calls, List.filterMap_append, ih, List.filterMap_cons, ← s.text?_call? r]
    cases s.call? r with
    | none => rfl
    | some call => cases ht : call.text? <;> simp [ht]

theorem getElem?_answerAll (s : Session) (requests : List Request) (i : Nat) :
    (s.answerAll requests)[i]? =
      requests[i]?.map fun r => ((s.after (requests.take i)).answer r).1 := by
  induction requests generalizing s i with
  | nil => rfl
  | cons r rs ih =>
    cases i with
    | zero => rfl
    | succ i => exact ih _ i

end Session

open Session

namespace EvaluatorConfig

variable {c : EvaluatorConfig} {s : Session}

/-- The tree that a request gives a name to. -/
def named? (c : EvaluatorConfig) : Request → Option (String × Expr)
  | .parse text name => (c.grammar.parse text).toOption.map (name, ·)
  | _ => none

/-- The trees that have names after the requests, the latest first. -/
def named (c : EvaluatorConfig) (requests : List Request) : List (String × Expr) :=
  (requests.filterMap c.named?).reverse

/-- The texts whose trees are at hand after the requests, the latest first. -/
def recent (c : EvaluatorConfig) (requests : List Request) : List String :=
  ((requests.filterMap Request.text?).filter c.grammar.parses).reverse.eraseDups.take c.room

/-- The reply to a request that comes after others. -/
def reply (c : EvaluatorConfig) (before : List Request) : Request → Reply
  | .evaluateText text bindings =>
    .textValue (do (← c.grammar.parse text).evaluate c.build.epsilon bindings)
      (text ∈ c.recent before)
  | .parse text _ => .tree (c.grammar.parse text)
  | .evaluate name bindings =>
    match (c.named before).lookup name with
    | some e => .value (e.evaluate c.build.epsilon bindings)
    | none => .noSuchTree name
  | .evaluateBatch name batch =>
    match (c.named before).lookup name with
    | some e => .values (batch.map (e.evaluate c.build.epsilon))
    | none => .noSuchTree name
  | .describe => .description c.grammar c.build.epsilon

/-- A session with a new evaluator. -/
def session (c : EvaluatorConfig) : Session where
  evaluator := c.build

theorem serves_session (c : EvaluatorConfig) (requests : List Request) :
    c.Serves (c.session.after requests).evaluator := by
  rw [evaluator_after]
  exact c.serves_build.after _

theorem keys_session (c : EvaluatorConfig) (requests : List Request) :
    (c.session.after requests).evaluator.trees.keys = c.recent requests := by
  rw [evaluator_after, session, (c.recalls_after _).keys, filterMap_text?_calls, recent]

theorem kept_answer (h : c.Serves s.evaluator) (r : Request) :
    (s.answer r).2.kept = (c.named? r).toList ++ s.kept := by
  cases r with
  | evaluateText | describe => rfl
  | parse text name =>
    cases hp : c.grammar.parse text <;>
      simp [Session.answer, named?, Evaluator.parse, h.grammar, hp, Except.toOption]
  | evaluate name | evaluateBatch name =>
    cases hk : s.kept.lookup name <;> simp [Session.answer, named?, hk]

theorem kept_session (c : EvaluatorConfig) (requests : List Request) :
    (c.session.after requests).kept = c.named requests := by
  induction requests using List.reverseRecOn with
  | nil => rfl
  | append_singleton rs r ih =>
    rw [after_append_singleton, kept_answer (c.serves_session rs), ih, named, named,
      reverse_filterMap_append_singleton]

theorem answer_session (c : EvaluatorConfig) (before : List Request) (r : Request) :
    ((c.session.after before).answer r).1 = c.reply before r := by
  have hev := c.serves_session before
  have hkept := c.kept_session before
  cases r with
  | evaluateText text bindings =>
    have hhit : (c.session.after before).evaluator.trees.contains text =
        decide (text ∈ c.recent before) := by
      rw [← keys_session, Bool.eq_iff_iff, Cache.contains_iff, decide_eq_true_iff]
    simp [Session.answer, reply, hev.evaluateText_eq, hhit]
  | parse text name =>
    cases hp : c.grammar.parse text <;>
      simp [Session.answer, reply, Evaluator.parse, hev.grammar, hp]
  | evaluate name bindings =>
    cases hk : (c.named before).lookup name <;>
      simp [Session.answer, reply, hkept, hk, hev.evaluate_eq]
  | evaluateBatch name batch =>
    cases hk : (c.named before).lookup name <;>
      simp [Session.answer, reply, hkept, hk, evaluateBatch, hev.evaluate_eq]
  | describe => simp [Session.answer, reply, hev.grammar, hev.epsilon]

/-- Each reply of a session follows from its request and from the requests before it. -/
theorem answerAll_session (c : EvaluatorConfig) (requests : List Request) (i : Nat) :
    (c.session.answerAll requests)[i]? = requests[i]?.map (c.reply (requests.take i)) := by
  rw [getElem?_answerAll]
  simp only [answer_session]

end EvaluatorConfig

end Reckon
