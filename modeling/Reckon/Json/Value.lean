import Reckon.Json.Number
import Reckon.Json.Text
import Reckon.Text.Blank
import Reckon.Value

/-!
Values in JSON: a number is a scalar and a list of numbers an array, and nothing else is a value.
Bindings are an object whose members are values.
-/
namespace Reckon

namespace Json

open Text (skipBlanks)

/-- The elements of a list up to its closing bracket, after those already found, which are listed
last first; and what follows the bracket. The text begins with an element. -/
def numbersFrom? (found : List Float) (cs : List Char) : Option (List Float × List Char) :=
  match _hx : number? cs with
  | none => none
  | some (x, after) =>
    match _hr : skipBlanks after with
    | ',' :: rest => numbersFrom? (x :: found) (skipBlanks rest)
    | ']' :: rest => some ((x :: found).reverse, rest)
    | _ => none
termination_by cs.length
decreasing_by
  have h1 := (suffix_of_number? _hx).length_le
  have h2 := Text.length_skipBlanks_le after
  have h3 := Text.length_skipBlanks_le rest
  simp only [_hr, List.length_cons] at h2
  omega

/-- The value that a text begins with, and what follows it. -/
def value? : List Char → Option (Value × List Char)
  | '[' :: cs =>
    match skipBlanks cs with
    | ']' :: rest => some (.array [], rest)
    | cs => (numbersFrom? [] cs).map fun (xs, rest) => (.array xs, rest)
  | cs => (number? cs).map fun (x, rest) => (.scalar x, rest)

theorem length_of_numbersFrom? {found xs : List Float} {cs rest : List Char}
    (h : numbersFrom? found cs = some (xs, rest)) : rest.length ≤ cs.length := by
  fun_induction numbersFrom? found cs with
  | case1 => simp at h
  | case2 found cs x tail hx rest' hr ih =>
    have h1 := (suffix_of_number? hx).length_le
    have h2 := Text.length_skipBlanks_le tail
    have h3 := Text.length_skipBlanks_le rest'
    simp only [hr, List.length_cons] at h2
    have := ih h
    omega
  | case3 found cs x tail hx rest' hr =>
    have h1 := (suffix_of_number? hx).length_le
    have h2 := Text.length_skipBlanks_le tail
    simp only [hr, List.length_cons] at h2
    simp only [Option.some.injEq, Prod.mk.injEq] at h
    rw [← h.2]
    omega
  | case4 => simp at h

theorem length_of_value? {cs rest : List Char} {v : Value} (h : value? cs = some (v, rest)) :
    rest.length ≤ cs.length := by
  unfold value? at h
  split at h
  · rename_i tail
    have h1 := Text.length_skipBlanks_le tail
    split at h
    · rename_i rest' hs
      simp only [hs, List.length_cons] at h1
      simp_all
      omega
    · simp only [Option.map_eq_some_iff, Prod.mk.injEq] at h
      obtain ⟨_, hn, _, rfl⟩ := h
      have := length_of_numbersFrom? hn
      simp only [List.length_cons]
      omega
  · simp only [Option.map_eq_some_iff, Prod.mk.injEq] at h
    obtain ⟨_, hn, _, rfl⟩ := h
    exact (suffix_of_number? hn).length_le

/-- The name and value of a member, and what follows it. -/
def member? : List Char → Option (String × Value × List Char)
  | '"' :: cs => do
    let (name, cs) ← stringFrom? [] cs
    match skipBlanks cs with
    | ':' :: cs =>
      let (v, cs) ← value? (skipBlanks cs)
      return (name, v, cs)
    | _ => none
  | _ => none

theorem length_of_member? {cs rest : List Char} {name : String} {v : Value}
    (h : member? cs = some (name, v, rest)) : rest.length < cs.length := by
  unfold member? at h
  split at h
  · simp only [bind, Option.bind_eq_some_iff] at h
    obtain ⟨⟨_, cs₁⟩, h1, h⟩ := h
    have := length_of_stringFrom? h1
    have h2 := Text.length_skipBlanks_le cs₁
    split at h
    · rename_i cs₂ hs
      simp only [Option.bind_eq_some_iff] at h
      obtain ⟨⟨_, cs₃⟩, h3, h⟩ := h
      have := length_of_value? h3
      have := Text.length_skipBlanks_le cs₂
      simp_all
      omega
    · simp at h
  · simp at h

/-- The members of an object up to its closing brace, before those already found; and what follows
the brace. The text begins with a member. -/
def membersFrom? (found : Bindings) (cs : List Char) : Option (Bindings × List Char) :=
  match _hm : member? cs with
  | none => none
  | some (name, v, after) =>
    match _hr : skipBlanks after with
    | ',' :: rest => membersFrom? ((name, v) :: found) (skipBlanks rest)
    | '\x7d' :: rest => some ((name, v) :: found, rest)
    | _ => none
termination_by cs.length
decreasing_by
  have h1 := length_of_member? _hm
  have h2 := Text.length_skipBlanks_le after
  have h3 := Text.length_skipBlanks_le rest
  simp only [_hr, List.length_cons] at h2
  omega

def object? : List Char → Option (Bindings × List Char)
  | '\x7b' :: cs =>
    match skipBlanks cs with
    | '\x7d' :: rest => some ([], rest)
    | cs => membersFrom? [] cs
  | _ => none

/-- What a text holds besides blanks around it. -/
def only? {α : Type} (read? : List Char → Option (α × List Char)) (text : String) : Option α := do
  let (a, rest) ← read? (skipBlanks text.toList)
  if (skipBlanks rest).isEmpty then some a else none

/-- JSON has no word for infinity or not-a-number. -/
def writeNumber (x : Float) : String :=
  if x.isFinite then NumberStyle.json.write x else "null"

end Json

def Value.ofJson? (text : String) : Option Value :=
  Json.only? Json.value? text

def Value.toJson : Value → String
  | scalar x => Json.writeNumber x
  | array xs => "[" ++ ",".intercalate (xs.map Json.writeNumber) ++ "]"

/-- A later member of the same name counts. -/
def Bindings.ofJson? (text : String) : Option Bindings :=
  Json.only? Json.object? text

end Reckon
