import Reckon.Expr.Walk

/-!
Trees in memory: each node has an address of its own, so that nodes that look alike can be told
apart. `turns` counts how often the nodes come off the stack of a walk that remembers, by address,
which of them are done.
-/
namespace Reckon

inductive Placed where
  | const (address : Nat) (x : Float)
  | var (address : Nat) (name : String)
  | call (address : Nat) (f : Func) (argument : Placed)
  | binary (address : Nat) (o : Operator) (left right : Placed)

namespace Placed

def address : Placed → Nat
  | const a _ | var a _ | call a _ _ | binary a _ _ _ => a

/-- The tree without its addresses. -/
def expr : Placed → Expr
  | const _ x => .const x
  | var _ name => .var name
  | call _ f t => .call f t.expr
  | binary _ o l r => .binary o l.expr r.expr

/-- The addresses of all nodes. -/
def addresses : Placed → List Nat
  | const a _ | var a _ => [a]
  | call a _ t => a :: t.addresses
  | binary a _ l r => a :: l.addresses ++ r.addresses

def operands : Placed → List Placed
  | const _ _ | var _ _ => []
  | call _ _ t => [t]
  | binary _ _ l r => [l, r]

/-- Places a node on top of the trees placed before it, which it takes its operands from, the left
one first. -/
def plant (address : Nat) : List Placed → Node → List Placed
  | trees, .const x => const address x :: trees
  | trees, .var name => var address name :: trees
  | t :: trees, .function f => call address f t :: trees
  | l :: r :: trees, .operator o => binary address o l r :: trees
  | trees, _ => trees

/-- Places the nodes one after another, from the given address on. -/
def plantAll (address : Nat) (trees : List Placed) : List Node → List Placed
  | [] => trees
  | n :: nodes => plantAll (address + 1) (plant address trees n) nodes

/-- The addresses that have values once the node has one, if those in `known` have theirs. -/
def learn (known : Nat → Bool) (t : Placed) : Nat → Bool :=
  if known t.address then known
  else match t with
    | const a _ | var a _ => fun b => a == b || known b
    | call a _ t => fun b => a == b || learn known t b
    | binary a _ l r => fun b => a == b || learn (learn known l) r b

/-- How many nodes come off the stack from this one's turn until it has its value: itself, and if
its operands have none yet, they and all they need, and itself again. -/
def turns (known : Nat → Bool) (t : Placed) : Nat :=
  if known t.address then 1
  else match t with
    | const _ _ | var _ _ => 1
    | call _ _ t => if known t.address then 1 else turns known t + 2
    | binary _ _ l r =>
      if known l.address && known r.address then 1
      else turns known l + turns (learn known l) r + 2

def learnAll (known : Nat → Bool) (stack : List Placed) : Nat → Bool :=
  stack.foldl learn known

def allTurns (known : Nat → Bool) : List Placed → Nat
  | [] => 0
  | t :: stack => turns known t + allTurns (learn known t) stack

section
variable {known : Nat → Bool} {t : Placed}

theorem learn_of_known (h : known t.address) : learn known t = known := by
  unfold learn
  rw [if_pos h]

theorem turns_of_known (h : known t.address) : turns known t = 1 := by
  unfold turns
  rw [if_pos h]

/-- Nothing is forgotten. -/
theorem learn_mono {a : Nat} (t : Placed) (h : known a) : learn known t a := by
  induction t generalizing known <;> unfold learn <;> split <;> simp_all

theorem learn_address (known : Nat → Bool) (t : Placed) : learn known t t.address := by
  unfold learn
  split
  · assumption
  · cases t <;> simp [address]

/-- A node whose operands have values gets its own next. -/
theorem learn_of_ready (h : ∀ s ∈ t.operands, known s.address) :
    learn known t = fun b => t.address == b || known b := by
  by_cases ht : known t.address
  · rw [learn_of_known ht]
    funext b
    by_cases hb : t.address = b <;> simp_all
  · unfold learn
    rw [if_neg ht]
    cases t <;> simp_all [operands, address, learn_of_known]

theorem turns_of_ready (h : ∀ s ∈ t.operands, known s.address) : turns known t = 1 := by
  unfold turns
  cases t <;> simp_all [operands]

theorem learn_of_new (h : ¬ known t.address) :
    learn known t = fun b => t.address == b || learnAll known t.operands b := by
  unfold learn
  rw [if_neg h]
  cases t <;> rfl

theorem turns_of_waiting (hn : ¬ known t.address) (h : ¬ ∀ s ∈ t.operands, known s.address) :
    turns known t = allTurns known t.operands + 2 := by
  unfold turns
  rw [if_neg hn]
  cases t <;> simp_all [operands, allTurns]

theorem allTurns_append (stack stack' : List Placed) : allTurns known (stack ++ stack') =
    allTurns known stack + allTurns (learnAll known stack) stack' := by
  induction stack generalizing known with
  | nil => simp [allTurns, learnAll]
  | cons t stack ih => simp [allTurns, learnAll, ih, Nat.add_assoc]

theorem learnAll_operands (known : Nat → Bool) (t : Placed) :
    ∀ s ∈ t.operands, learnAll known t.operands s.address := by
  cases t with
  | const | var => simp [operands]
  | call a f s => simpa [operands, learnAll] using learn_address known s
  | binary a o l r =>
    have hl := learn_mono r (learn_address known l)
    have hr := learn_address (learn known l) r
    simp [operands, learnAll, hl, hr]

/-- A node that waits for its operands comes off the stack once more than they do. -/
theorem allTurns_operands (hn : ¬ known t.address) (h : ¬ ∀ s ∈ t.operands, known s.address)
    (stack : List Placed) :
    allTurns known (t.operands ++ t :: stack) < allTurns known (t :: stack) := by
  have hready := learnAll_operands known t
  rw [allTurns_append, allTurns, allTurns, turns_of_waiting hn h, turns_of_ready hready,
    learn_of_ready hready, learn_of_new hn]
  omega

end

end Placed

/-- The tree with its nodes placed, the last one first. -/
def Expr.placed (e : Expr) : Option Placed :=
  (Placed.plantAll 0 [] e.nodes.reverse).head?

end Reckon
