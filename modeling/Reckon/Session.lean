import Reckon.Evaluator

/-!
Sessions: one evaluator at work on a list of requests, with parsed trees kept by name.
-/
namespace Reckon

structure Session where
  evaluator : Evaluator
  /-- The latest tree of a name comes first. -/
  kept : List (String × Expr) := []

namespace Session

inductive Request where
  | evaluateText (text : String) (bindings : Bindings)
  /-- Parses a text and keeps its tree under a name. -/
  | parse (text name : String)
  | evaluate (name : String) (bindings : Bindings)
  | evaluateBatch (name : String) (batch : List Bindings)
  | describe

inductive Reply where
  | value (result : Except Error Value)
  /-- With whether the tree was at hand when the text came. -/
  | textValue (result : Except Error Value) (cached : Bool)
  | tree (result : Except Error Expr)
  | values (results : List (Except Error Value))
  | description (grammar : Grammar) (epsilon : Float)
  | noSuchTree (name : String)

variable (s : Session)

def answer : Request → Reply × Session
  | .evaluateText text bindings =>
    let (result, evaluator) := s.evaluator.evaluateText text bindings
    (.textValue result (s.evaluator.trees.contains text), { s with evaluator })
  | .parse text name =>
    match s.evaluator.parse text with
    | .ok e => (.tree (.ok e), { s with kept := (name, e) :: s.kept })
    | .error e => (.tree (.error e), s)
  | .evaluate name bindings =>
    match s.kept.lookup name with
    | some e => (.value (s.evaluator.evaluate e bindings), s)
    | none => (.noSuchTree name, s)
  | .evaluateBatch name batch =>
    match s.kept.lookup name with
    | some e => (.values (s.evaluator.evaluateBatch e batch), s)
    | none => (.noSuchTree name, s)
  | .describe => (.description s.evaluator.grammar s.evaluator.epsilon, s)

/-- The replies to the requests, in order. -/
def answerAll : Session → List Request → List Reply
  | _, [] => []
  | s, r :: rs =>
    let (reply, s) := s.answer r
    reply :: answerAll s rs

end Session

end Reckon
