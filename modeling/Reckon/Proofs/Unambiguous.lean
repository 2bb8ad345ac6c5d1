import Reckon.Proofs.Formula

/-! Ordered formulas of the same tokens are the same. -/
namespace Reckon

variable {g : Grammar}

namespace Formula

/-- The first operand. -/
def head : Formula g → Operand g
  | operand a => a
  | binary _ l _ => l.head

/-- The other operands that are in no parentheses, each with the operator before it. -/
def rest : Formula g → List (Operator × Operand g)
  | operand _ => []
  | binary o l r => l.rest ++ (o, r.head) :: r.rest

/-- The tokens of operators and operands in turn. -/
def chainTokens (ps : List (Operator × Operand g)) : List Token :=
  ps.flatMap fun p => .symbol (.operator p.1) :: p.2.tokens

@[simp] theorem chainTokens_nil : chainTokens ([] : List (Operator × Operand g)) = [] := rfl

@[simp] theorem chainTokens_cons (o : Operator) (a : Operand g) (ps : List (Operator × Operand g)) :
    chainTokens ((o, a) :: ps) = .symbol (.operator o) :: (a.tokens ++ chainTokens ps) := by
  simp [chainTokens]

@[simp] theorem chainTokens_append (ps qs : List (Operator × Operand g)) :
    chainTokens (ps ++ qs) = chainTokens ps ++ chainTokens qs := by
  simp [chainTokens]

theorem tokens_eq_chain (e : Formula g) : e.tokens = e.head.tokens ++ chainTokens e.rest := by
  cases e with
  | operand a => simp [tokens, head, rest]
  | binary o l r => simp [tokens, head, rest, l.tokens_eq_chain, r.tokens_eq_chain]

/-- The ordered formula that begins with `e` and goes on with the operators and operands. -/
def appendAll (e : Formula g) (ps : List (Operator × Operand g)) : Formula g :=
  ps.foldl (fun e p => e.append p.1 p.2) e

theorem appendAll_right {o : Operator} {ps : List (Operator × Operand g)}
    (h : ∀ p ∈ ps, g.precedence o < g.precedence p.1) (l r : Formula g) :
    appendAll (binary o l r) ps = binary o l (appendAll r ps) := by
  induction ps generalizing r with
  | nil => rfl
  | cons p ps ih =>
    have hp : ¬ g.precedence p.1 ≤ g.precedence o := Nat.not_le.mpr (h p List.mem_cons_self)
    have ih := ih (fun q hq => h q (List.mem_cons_of_mem p hq)) (r.append p.1 p.2)
    simpa [appendAll, append, hp] using ih

theorem append_of_ordered {o : Operator} {l : Formula g} (a : Operand g)
    (h : ∀ p ∈ l.root?, g.precedence o ≤ g.precedence p) :
    l.append o a = binary o l (operand a) := by
  cases l with
  | operand b => rfl
  | binary p l r => simp [append, h p rfl]

/-- The root of an ordered formula is one of its weakest operators. -/
theorem root_le_rest {e : Formula g} (he : e.Ordered) {o : Operator} (ho : o ∈ e.root?) :
    ∀ p ∈ e.rest, g.precedence o ≤ g.precedence p.1 := by
  cases e with
  | operand a => cases ho
  | binary q l r =>
    obtain rfl : q = o := Option.some.inj ho
    obtain ⟨hl, hr, hlo, hro⟩ := he
    intro p hp
    rcases List.mem_append.mp hp with hp | hp
    · cases l with
      | operand a => cases hp
      | binary k _ _ => exact Nat.le_trans (hlo k rfl) (root_le_rest hl rfl p hp)
    · rcases List.mem_cons.mp hp with rfl | hp
      · exact Nat.le_refl _
      · cases r with
        | operand a => cases hp
        | binary k _ _ =>
          exact Nat.le_trans (Nat.le_of_lt (hro k rfl)) (root_le_rest hr rfl p hp)

/-- What stands to the right of a root binds more strongly than it. -/
theorem root_lt_rest_right {o : Operator} {l r : Formula g} (he : (binary o l r).Ordered) :
    ∀ p ∈ r.rest, g.precedence o < g.precedence p.1 := by
  obtain ⟨-, hr, -, hro⟩ := he
  intro p hp
  cases r with
  | operand a => cases hp
  | binary k _ _ => exact Nat.lt_of_lt_of_le (hro k rfl) (root_le_rest hr rfl p hp)

/-- An ordered formula is found again from its operands and operators. -/
theorem appendAll_head_rest {e : Formula g} (he : e.Ordered) :
    appendAll (operand e.head) e.rest = e := by
  cases e with
  | operand a => rfl
  | binary o l r =>
    have hl := appendAll_head_rest he.1
    have hr := appendAll_head_rest he.2.1
    have hsplit : appendAll (operand l.head) (l.rest ++ (o, r.head) :: r.rest) =
        appendAll ((appendAll (operand l.head) l.rest).append o r.head) r.rest := by
      simp [appendAll]
    rw [head, rest, hsplit, hl, append_of_ordered _ he.2.2.1,
      appendAll_right (root_lt_rest_right he), hr]

theorem eq_of_chain_eq {e f : Formula g} (he : e.Ordered) (hf : f.Ordered)
    (hh : e.head = f.head) (hr : e.rest = f.rest) : e = f := by
  rw [← appendAll_head_rest he, ← appendAll_head_rest hf, hh, hr]

theorem ordered_head {e : Formula g} (he : e.Ordered) : e.head.Ordered := by
  cases e with
  | operand a => exact he
  | binary o l r =>
    have hl : l.head.Ordered := ordered_head he.1
    exact hl

theorem ordered_rest {e : Formula g} (he : e.Ordered) : ∀ p ∈ e.rest, p.2.Ordered := by
  cases e with
  | operand a => intro p hp; cases hp
  | binary o l r =>
    intro p hp
    rcases List.mem_append.mp hp with hp | hp
    · exact ordered_rest he.1 p hp
    · rcases List.mem_cons.mp hp with rfl | hp
      · exact ordered_head he.2.1
      · exact ordered_rest he.2.1 p hp

end Formula

open Formula

mutual

theorem Operand.eq_of_tokens_append {a b : Operand g} (ha : a.Ordered) (hb : b.Ordered)
    {xs ys : List Token} (h : a.tokens ++ xs = b.tokens ++ ys) : a = b ∧ xs = ys := by
  cases a with
  | number text => cases b <;> simp_all [Operand.tokens]
  | name text free =>
    cases b with
    | number | group => simp [Operand.tokens] at h
    | name text' free' => simp_all [Operand.tokens]
    | apply f known b =>
      simp only [Operand.tokens, List.cons_append, List.cons.injEq, Token.word.injEq] at h
      simp [h.1, known] at free
  | apply f known a =>
    cases b with
    | number | group => simp [Operand.tokens] at h
    | name text free =>
      simp only [Operand.tokens, List.cons_append, List.cons.injEq, Token.word.injEq] at h
      simp [← h.1, known] at free
    | apply f' known' b =>
      simp only [Operand.tokens, List.cons_append, List.cons.injEq, Token.word.injEq] at h
      obtain ⟨hname, h⟩ := h
      obtain rfl : f = f' := by simpa [hname, known'] using known.symm
      have ha : a.Ordered := ha
      have hb : b.Ordered := hb
      obtain ⟨rfl, rfl⟩ := Operand.eq_of_tokens_append ha hb h
      exact ⟨rfl, rfl⟩
  | group e =>
    cases b with
    | number | name | apply => simp [Operand.tokens] at h
    | group f =>
      simp only [Operand.tokens, List.cons_append, List.append_assoc, List.cons.injEq,
        true_and, f.tokens_eq_chain] at h
      have he : e.Ordered := ha
      have hf : f.Ordered := hb
      obtain ⟨hhead, qs, hrest, hx⟩ := Formula.chain_of_tokens_append he (ordered_head hf)
        (ordered_rest hf) (by simp) h
      cases qs with
      | nil =>
        obtain rfl : e = f := eq_of_chain_eq he hf hhead (by simpa using hrest.symm)
        exact ⟨rfl, by simpa using hx⟩
      | cons q qs => simp [chainTokens] at hx

/-- The formula's operands and operators are the first ones of any that the tokens begin with. -/
theorem Formula.chain_of_tokens_append {e : Formula g} (he : e.Ordered) {b : Operand g}
    (hb : b.Ordered) {qs : List (Operator × Operand g)} (hq : ∀ q ∈ qs, q.2.Ordered)
    {xs ys : List Token} (hy : ∀ o zs, ys ≠ .symbol (.operator o) :: zs)
    (h : e.tokens ++ xs = b.tokens ++ (chainTokens qs ++ ys)) :
    e.head = b ∧ ∃ qs', qs = e.rest ++ qs' ∧ xs = chainTokens qs' ++ ys := by
  cases e with
  | operand a =>
    obtain ⟨rfl, rfl⟩ := Operand.eq_of_tokens_append he hb h
    exact ⟨rfl, qs, rfl, rfl⟩
  | binary o l r =>
    obtain ⟨hl, hr, -, -⟩ := he
    simp only [Formula.tokens, List.append_assoc, List.cons_append] at h
    obtain ⟨hhead, qs', rfl, hr'⟩ := Formula.chain_of_tokens_append hl hb hq hy h
    cases qs' with
    | nil => exact absurd hr'.symm (hy _ _)
    | cons q qs' =>
      obtain ⟨p, c⟩ := q
      simp only [chainTokens_cons, List.cons_append, List.append_assoc, List.cons.injEq,
        Token.symbol.injEq, Symbol.operator.injEq] at hr'
      obtain ⟨rfl, hr'⟩ := hr'
      have hc : c.Ordered := hq (o, c) (by simp)
      have hq' : ∀ q ∈ qs', q.2.Ordered := fun q hmem => hq q (by simp [hmem])
      obtain ⟨rfl, qs'', rfl, hx⟩ := Formula.chain_of_tokens_append hr hc hq' hy hr'
      exact ⟨hhead, qs'', by simp [Formula.rest], hx⟩

end

theorem Formula.eq_of_tokens_eq {e f : Formula g} (he : e.Ordered) (hf : f.Ordered)
    (h : e.tokens = f.tokens) : e = f := by
  have h' : e.tokens ++ [] = f.head.tokens ++ (chainTokens f.rest ++ []) := by
    simpa [← tokens_eq_chain] using h
  obtain ⟨hhead, qs, hrest, hx⟩ :=
    Formula.chain_of_tokens_append he (ordered_head hf) (ordered_rest hf) (by simp) h'
  cases qs with
  | nil => exact eq_of_chain_eq he hf hhead (by simpa using hrest.symm)
  | cons q qs => simp [chainTokens] at hx

end Reckon
