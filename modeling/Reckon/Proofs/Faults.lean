import Reckon.Proofs.Acceptance
import Reckon.Proofs.Leaves
import Reckon.Proofs.Munch
import Reckon.Proofs.Reordering

/-!
Which fault a text is rejected with. The faults of the tree builder are found among tokens in
another order, but which of them it can be follows from counts of the tokens as they stand.
-/
namespace Reckon

variable {g : Grammar} {nodes : List Node} {tokens listing : List Token} {fault : SyntaxFault}
  {text : String}

namespace Forest

variable {trees trees' : Forest} {n : Node}

/-- Each tree that waits counts as one operand, however many nodes it has. -/
theorem sum_weight_listing (trees : Forest) :
    ((Forest.listing trees).map Node.weight).sum = trees.length := by
  induction trees with
  | nil => rfl
  | cons e trees ih => simp [ih, e.sum_weight_postorder]

/-- A forest never becomes empty again, as its listing keeps every node. -/
theorem eq_nil_of_grown (h : nodes.foldlM grow [] = .ok []) : nodes = [] := by
  simpa using (listing_foldlM_grow h).symm

theorem grow_eq_error_iff : grow trees n = .error fault ↔
    (∃ f, n = .function f ∧ trees.length < 1 ∧ fault = .missingOperand f) ∨
      ∃ o, n = .operator o ∧ trees.length < 2 ∧ fault = .missingOperands o := by
  cases n with
  | const | var => simp [grow]
  | function f => cases trees <;> simp [grow, eq_comm]
  | operator o => rcases trees with _ | ⟨r, _ | ⟨l, trees⟩⟩ <;> simp [grow, eq_comm]

theorem fault_of_foldlM_grow (h : nodes.foldlM grow trees = .error fault) :
    (∃ f, .function f ∈ nodes ∧ fault = .missingOperand f) ∨
      ∃ o, .operator o ∈ nodes ∧ fault = .missingOperands o := by
  induction nodes generalizing trees with
  | nil => cases h
  | cons n nodes ih =>
    rw [List.foldlM_cons] at h
    cases hn : grow trees n with
    | error e =>
      rw [hn] at h
      obtain rfl : e = fault := Except.error.inj h
      obtain ⟨f, rfl, -, hf⟩ | ⟨o, rfl, -, ho⟩ := grow_eq_error_iff.mp hn
      · exact .inl ⟨f, List.mem_cons_self, hf⟩
      · exact .inr ⟨o, List.mem_cons_self, ho⟩
    | ok grown =>
      rw [hn] at h
      obtain ⟨f, hf, hfault⟩ | ⟨o, ho, hfault⟩ := ih h
      · exact .inl ⟨f, List.mem_cons_of_mem n hf, hfault⟩
      · exact .inr ⟨o, List.mem_cons_of_mem n ho, hfault⟩

theorem fault_of_single (h : single trees = .error fault) :
    (trees = [] ∧ fault = .emptyExpression) ∨
      2 ≤ trees.length ∧ fault = .surplusOperands trees.length := by
  match trees, h with
  | [], h => exact .inl ⟨rfl, (Except.error.inj h).symm⟩
  | _ :: _ :: trees, h => exact .inr ⟨by simp, (Except.error.inj h).symm⟩

end Forest

open Postfix

namespace Grammar

theorem foldlM_of_nodes (h : tokens.mapM g.node = .ok nodes) (trees : Forest) :
    tokens.foldlM (fun trees t => do Forest.grow trees (← g.node t)) trees =
      nodes.foldlM Forest.grow trees := by
  induction tokens generalizing nodes trees with
  | nil =>
    obtain rfl : [] = nodes := Except.ok.inj h
    rfl
  | cons t tokens ih =>
    simp only [List.mapM_cons, bind_eq_ok, pure_eq_ok] at h
    obtain ⟨n, hn, nodes, hnodes, rfl⟩ := h
    simp only [List.foldlM_cons, hn, ok_bind, ih hnodes]

theorem build_of_nodes (h : tokens.mapM g.node = .ok nodes) :
    g.build tokens = nodes.foldlM Forest.grow [] >>= Forest.single := by
  rw [build, foldlM_of_nodes h]

/-- Only parentheses stand for no node. -/
theorem exists_node (t : Token) (h : ¬ isParenthesis t) : ∃ n, g.node t = .ok n := by
  cases t with
  | number text => exact ⟨_, rfl⟩
  | word text => exact ⟨_, rfl⟩
  | symbol s =>
    rcases s with _ | _ | o
    · exact absurd rfl h
    · exact absurd rfl h
    · exact ⟨_, rfl⟩

theorem exists_nodes (h : ∀ t ∈ tokens, ¬ isParenthesis t) :
    ∃ nodes, tokens.mapM g.node = .ok nodes := by
  induction tokens with
  | nil => exact ⟨[], rfl⟩
  | cons t tokens ih =>
    obtain ⟨n, hn⟩ := exists_node (g := g) t (h t List.mem_cons_self)
    obtain ⟨nodes, hnodes⟩ := ih fun u hu => h u (List.mem_cons_of_mem t hu)
    exact ⟨n :: nodes, by simp [hn, hnodes, pure, Except.pure]⟩

theorem word_mem_of_function {f : Func} (h : tokens.mapM g.node = .ok nodes)
    (hf : .function f ∈ nodes) : .word f.name ∈ tokens ∧ g.function? f.name = some f := by
  obtain ⟨t, ht, hn⟩ := exists_of_mem_mapM h _ hf
  obtain ⟨-, hleaf⟩ | ⟨f', rfl, hf', heq⟩ | ⟨o, -, heq⟩ := node_cases hn
  · exact absurd hleaf.symm (Node.leaf_ne_function _ f)
  · cases heq
    exact ⟨ht, hf'⟩
  · cases heq

theorem symbol_mem_of_operator {o : Operator} (h : tokens.mapM g.node = .ok nodes)
    (ho : .operator o ∈ nodes) : .symbol (.operator o) ∈ tokens := by
  obtain ⟨t, ht, hn⟩ := exists_of_mem_mapM h _ ho
  obtain ⟨-, hleaf⟩ | ⟨f, -, -, heq⟩ | ⟨o', rfl, heq⟩ := node_cases hn
  · exact absurd hleaf.symm (Node.leaf_ne_operator _ o)
  · cases heq
  · cases heq
    exact ht

/-- The fault is that a function or an operator among the tokens has too few operands. -/
def LacksOperand (g : Grammar) (tokens : List Token) (fault : SyntaxFault) : Prop :=
  (∃ f, .word f.name ∈ tokens ∧ g.function? f.name = some f ∧ fault = .missingOperand f ∧
    fault.message = s!"function {f.name} without operand") ∨
  ∃ o, .symbol (.operator o) ∈ tokens ∧ fault = .missingOperands o ∧
    fault.message = s!"operator {o.symbol} without two operands"

theorem LacksOperand.mono (h : g.LacksOperand listing fault) (hsub : listing ⊆ tokens) :
    g.LacksOperand tokens fault := by
  obtain ⟨f, hf, hg⟩ | ⟨o, ho, hfault⟩ := h
  · exact .inl ⟨f, hsub hf, hg⟩
  · exact .inr ⟨o, hsub ho, hfault⟩

/-- How many more operands than operators there are. -/
def surplus (g : Grammar) (tokens : List Token) : ℤ :=
  (tokens.filter g.isOperand).length - (tokens.filterMap Token.operator?).length

theorem weight_eq_surplus (t : Token) : g.weight t = g.surplus [t] := by
  cases t with
  | number text => rfl
  | word text =>
    cases hf : g.isFunction text <;>
      simp [weight, surplus, isOperand, hf, List.filterMap_cons, Token.operator?]
  | symbol s => rcases s with _ | _ | o <;> rfl

theorem sum_weight_eq_surplus (tokens : List Token) :
    (tokens.map g.weight).sum = g.surplus tokens := by
  induction tokens with
  | nil => rfl
  | cons t tokens ih =>
    have hsplit : g.surplus (t :: tokens) = g.surplus [t] + g.surplus tokens := by
      rw [← List.singleton_append]
      simp only [surplus, List.filter_append, List.filterMap_append, List.length_append]
      omega
    rw [List.map_cons, List.sum_cons, ih, hsplit, weight_eq_surplus]

/-- What the tokens must be like to be rejected with the fault. -/
def Warrants (g : Grammar) (tokens : List Token) : SyntaxFault → Prop
  | .mismatchedParentheses => ¬ Balanced tokens
  | .emptyExpression => Balanced tokens ∧ ∀ t ∈ tokens, isParenthesis t
  | .surplusOperands n => Balanced tokens ∧ 2 ≤ n ∧ (n : ℤ) = g.surplus tokens
  | fault => Balanced tokens ∧ g.LacksOperand tokens fault

/-- What is not rejected for one of its functions or operators is empty or has operands to spare. -/
theorem fault_of_build (hp : ∀ t ∈ listing, ¬ isParenthesis t)
    (h : g.build listing = .error fault) :
    (listing = [] ∧ fault = .emptyExpression) ∨
    (∃ n : ℕ, 2 ≤ n ∧ (n : ℤ) = (listing.map g.weight).sum ∧ fault = .surplusOperands n) ∨
    g.LacksOperand listing fault := by
  obtain ⟨nodes, hnodes⟩ := exists_nodes (g := g) hp
  rw [build_of_nodes hnodes] at h
  cases hgrow : nodes.foldlM Forest.grow [] with
  | error e =>
    rw [hgrow] at h
    obtain rfl : e = fault := Except.error.inj h
    refine .inr (.inr ?_)
    obtain ⟨f, hf, rfl⟩ | ⟨o, ho, rfl⟩ := Forest.fault_of_foldlM_grow hgrow
    · obtain ⟨hmem, hfun⟩ := word_mem_of_function hnodes hf
      exact .inl ⟨f, hmem, hfun, rfl, rfl⟩
    · exact .inr ⟨o, symbol_mem_of_operator hnodes ho, rfl, rfl⟩
  | ok trees =>
    rw [hgrow] at h
    obtain ⟨rfl, rfl⟩ | ⟨hlen, rfl⟩ := Forest.fault_of_single h
    · obtain rfl := Forest.eq_nil_of_grown hgrow
      exact .inl ⟨mapM_eq_nil hnodes, rfl⟩
    · have hlisting : Forest.listing trees = nodes := by
        simpa using Forest.listing_foldlM_grow hgrow
      refine .inr (.inl ⟨_, hlen, ?_, rfl⟩)
      rw [← sum_weight_nodes hnodes, ← hlisting, Forest.sum_weight_listing]

/-- The parentheses are looked at first, and the tokens between them if these are balanced. -/
theorem warrants_of_parseTokens (h : g.parseTokens tokens = .error fault) :
    g.Warrants tokens fault := by
  cases ho : g.postfixOrder tokens with
  | error e =>
    rw [parseTokens, ho] at h
    obtain rfl : e = fault := Except.error.inj h
    obtain ⟨hn, rfl⟩ := postfixOrder_eq_error_iff.mp ho
    exact hn
  | ok listing =>
    rw [parseTokens, ho] at h
    have horder := postfixOrder_eq_ok_iff.mp ho
    have hperm := perm_of_order? horder
    have hb : Balanced tokens := exists_order?_iff.mp ⟨listing, horder⟩
    obtain ⟨rfl, rfl⟩ | ⟨n, hn, hsum, rfl⟩ | hlacks :=
      fault_of_build (not_isParenthesis_of_order? horder) h
    · exact ⟨hb, by simpa using hperm.symm⟩
    · rw [(hperm.map g.weight).sum_eq, sum_weight_filter, sum_weight_eq_surplus] at hsum
      exact ⟨hb, hn, hsum⟩
    · have hall := hlacks.mono (subset_of_order? horder)
      obtain ⟨f, -, -, rfl, -⟩ | ⟨o, -, rfl, -⟩ := hlacks
      · exact ⟨hb, hall⟩
      · exact ⟨hb, hall⟩

theorem parseTokens_of_unbalanced (h : ¬ Balanced tokens) :
    g.parseTokens tokens = .error .mismatchedParentheses := by
  rw [parseTokens, postfixOrder_eq_error_iff.mpr ⟨h, rfl⟩, error_bind]

theorem parseTokens_of_parentheses (hb : Balanced tokens) (hp : ∀ t ∈ tokens, isParenthesis t) :
    g.parseTokens tokens = .error .emptyExpression := by
  obtain ⟨listing, ho⟩ := exists_order?_iff (g := g) |>.mpr hb
  have hnil : listing = [] := by
    have hperm := perm_of_order? ho
    rw [List.filter_eq_nil_iff.mpr (by simpa using hp)] at hperm
    exact hperm.eq_nil
  rw [parseTokens, postfixOrder_eq_ok_iff.mpr ho, hnil]
  rfl

theorem parse_eq_error_iff (h : tokenize text = .ok tokens) :
    g.parse text = .error (.malformed fault) ↔ g.parseTokens tokens = .error fault := by
  rw [parse_of_tokenize h]
  cases g.parseTokens tokens <;> simp [Except.mapError]

theorem parse_eq_invalidToken_iff :
    (∃ s, g.parse text = .error (.invalidToken s)) ↔ ¬ ∃ tokens, tokenize text = .ok tokens := by
  cases h : tokenize text with
  | error err =>
    obtain rfl := Lexer.error_of_tokenize h
    simp [parse, h]
  | ok tokens =>
    rw [parse_of_tokenize h]
    cases g.parseTokens tokens <;> simp [Except.mapError]

/-- A text that is not cut into tokens is rejected as a whole. Else unbalanced parentheses are the
fault, and if there is nothing but parentheses, the lack of anything else. Any other fault is either
that operands are left over, as many as there are more of them than operators, or that a function or
operator of the text lacks an operand, which is certain if there are no more operands than
operators. -/
theorem parse_faults (g : Grammar) (text : String) :
    ((∃ s, g.parse text = .error (.invalidToken s)) ↔ ¬ ∃ tokens, tokenize text = .ok tokens) ∧
    ∀ tokens, tokenize text = .ok tokens →
      (g.parse text = .error (.malformed .mismatchedParentheses) ↔ ¬ Balanced tokens) ∧
      (Balanced tokens → (g.parse text = .error (.malformed .emptyExpression) ↔
        ∀ t ∈ tokens, isParenthesis t)) ∧
      (∀ err, g.parse text = .error err → ∃ fault, err = .malformed fault ∧
        ((fault = .mismatchedParentheses ∧ fault.message = "mismatched parentheses") ∨
        (fault = .emptyExpression ∧ fault.message = "empty expression") ∨
        (∃ n : ℕ, 2 ≤ n ∧ (n : ℤ) = g.surplus tokens ∧ fault = .surplusOperands n ∧
          fault.message = s!"invalid expression: {n} operands left without an operator") ∨
        g.LacksOperand tokens fault)) ∧
      (∀ c, g.parse text ≠ .error (.malformed (.strayParenthesis c))) ∧
      (Balanced tokens → (∃ t ∈ tokens, ¬ isParenthesis t) → g.surplus tokens ≤ 0 →
        ∃ fault, g.parse text = .error (.malformed fault) ∧ g.LacksOperand tokens fault) := by
  refine ⟨parse_eq_invalidToken_iff, ?_⟩
  intro tokens ht
  simp only [ne_eq, parse_eq_error_iff ht]
  refine ⟨⟨warrants_of_parseTokens, parseTokens_of_unbalanced⟩, ?_, ?_, ?_, ?_⟩
  · intro hb
    exact ⟨fun h => (warrants_of_parseTokens h).2, parseTokens_of_parentheses hb⟩
  · intro err h
    obtain ⟨fault, rfl⟩ := malformed_of_parse ht h
    have hw := warrants_of_parseTokens ((parse_eq_error_iff ht).mp h)
    refine ⟨fault, rfl, ?_⟩
    cases fault with
    | mismatchedParentheses => exact .inl ⟨rfl, rfl⟩
    | emptyExpression => exact .inr (.inl ⟨rfl, rfl⟩)
    | surplusOperands n => exact .inr (.inr (.inl ⟨n, hw.2.1, hw.2.2, rfl, rfl⟩))
    | _ => exact .inr (.inr (.inr hw.2))
  · intro c h
    simpa [LacksOperand] using (warrants_of_parseTokens h).2
  · rintro hb ⟨t, htmem, hpt⟩ hle
    cases h : g.parseTokens tokens with
    | ok e =>
      have hone := sum_weight_of_parseTokens h
      rw [sum_weight_eq_surplus] at hone
      omega
    | error fault =>
      have hw := warrants_of_parseTokens h
      refine ⟨fault, rfl, ?_⟩
      cases fault with
      | mismatchedParentheses => exact absurd hb hw
      | emptyExpression => exact absurd (hw.2 t htmem) hpt
      | surplusOperands n =>
        obtain ⟨-, hn, hsum⟩ := hw
        omega
      | _ => exact hw.2

/-- The function takes the last operand and the operator the last two. Their sum is left, and the
first operand. -/
example : ({} : Grammar).parse "1 2 3 + sin" = .error (.malformed (.surplusOperands 2)) := by
  decide +kernel

end Grammar

end Reckon
