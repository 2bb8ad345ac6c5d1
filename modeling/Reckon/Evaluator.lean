import Reckon.Cache
import Reckon.Expr.Eval
import Reckon.Parse

/-!
Evaluators: a grammar, the least divisor, and the trees of the texts evaluated most recently.
-/
namespace Reckon

def defaultEpsilon : Float := 1e-10

def defaultCacheSize : Nat := 100

/-- A text evaluated on its own, with the default grammar. -/
def evaluateText (text : String) (bindings : Bindings) : Except Error Value := do
  (← ({} : Grammar).parse text).evaluate defaultEpsilon bindings

structure Evaluator where
  grammar : Grammar
  epsilon : Float
  trees : Cache String Expr

/-- What an evaluator is asked to be. -/
structure EvaluatorConfig where
  grammar : Grammar := {}
  epsilon : Float := defaultEpsilon
  cacheSize : Nat := defaultCacheSize

namespace EvaluatorConfig

variable (c : EvaluatorConfig)

/-- Divisors can be kept away from zero only by a finite, positive number. -/
def hasValidEpsilon : Bool :=
  c.epsilon.isFinite && 0 < c.epsilon

def build : Evaluator where
  grammar := c.grammar
  epsilon := if c.hasValidEpsilon then c.epsilon else defaultEpsilon
  trees := .empty c.cacheSize

def warnings : List String :=
  if c.hasValidEpsilon then []
  else
    let write := NumberStyle.plain.write
    [s!"Invalid epsilon {write c.epsilon}, using default {write defaultEpsilon}"]

end EvaluatorConfig

namespace Evaluator

variable (ev : Evaluator)

def parse (text : String) : Except Error Expr :=
  ev.grammar.parse text

def evaluate (e : Expr) (bindings : Bindings) : Except Error Value :=
  e.evaluate ev.epsilon bindings

def evaluateBatch (e : Expr) (batch : List Bindings) : List (Except Error Value) :=
  batch.map (ev.evaluate e)

/-- A text whose tree is not kept is parsed, and its tree is put in if it has one. Either way it
becomes the most recently used one, whether or not it has a value. -/
def evaluateText (text : String) (bindings : Bindings) : Except Error Value × Evaluator :=
  match ev.trees.get? text with
  | some (e, trees) => (ev.evaluate e bindings, { ev with trees })
  | none =>
    match ev.parse text with
    | .ok e => (ev.evaluate e bindings, { ev with trees := ev.trees.put text e })
    | .error e => (.error e, ev)

end Evaluator

end Reckon
