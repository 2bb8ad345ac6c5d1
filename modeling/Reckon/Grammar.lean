import Reckon.Lookup

/-!
Grammars: which functions are known, and how strongly each operator binds. A function hides the
variable of its name; the name of a function that is not known is a variable like any other.
-/
namespace Reckon

structure Grammar where
  knows : Func → Bool := fun _ => true
  precedence : Operator → Nat := Operator.defaultPrecedence

namespace Grammar

variable (g : Grammar)

def function? (name : String) : Option Func :=
  (Func.ofName? name).filter g.knows

theorem function?_eq_some {g : Grammar} {name : String} {f : Func} :
    g.function? name = some f ↔ name = f.name ∧ g.knows f := by
  simp only [function?, Option.filter_eq_some_iff]
  constructor
  · rintro ⟨hf, hk⟩
    exact ⟨(Func.name_of_ofName? hf).symm, hk⟩
  · rintro ⟨rfl, hk⟩
    exact ⟨Func.ofName?_name f, hk⟩

def isFunction (name : String) : Bool :=
  (g.function? name).isSome

def without (f : Func) : Grammar :=
  { g with knows := fun f' => f' != f && g.knows f' }

def withPrecedence (o : Operator) (n : Nat) : Grammar :=
  { g with precedence := fun o' => if o' = o then n else g.precedence o' }

/-- The default grammar with changes asked for by name, in order, up to the first unknown name. -/
def custom (removed : List String) (precedences : List (String × Nat)) :
    Except SyntaxFault Grammar := do
  let g ← removed.foldlM (fun g name => return without g (← Func.ofText name)) {}
  precedences.foldlM (fun g (symbol, n) => return withPrecedence g (← Operator.ofText symbol) n) g

end Grammar

end Reckon
