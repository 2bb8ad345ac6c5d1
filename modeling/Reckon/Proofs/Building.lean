import Reckon.Proofs.Faults

/-!
Building a tree is the inverse of listing its nodes in postorder. What is no such listing is rejected
at the first token that does not fit the tokens before it, or at the end.
-/
namespace Reckon.Grammar

open Postfix

variable {g : Grammar} {t : Token} {n : Node} {tokens before : List Token} {nodes : List Node}
  {trees : Forest} {fault : SyntaxFault}

/-- The node that a token is read as. -/
inductive Reads (g : Grammar) : Token → Node → Prop where
  | number (text : String) : Reads g (.number text) (.leaf text)
  | name {text : String} (free : g.function? text = none) : Reads g (.word text) (.leaf text)
  | function {text : String} {f : Func} (known : g.function? text = some f) :
    Reads g (.word text) (.function f)
  | operator (o : Operator) : Reads g (.symbol (.operator o)) (.operator o)

/-- The token cannot follow the tokens before it. The trees that wait for a parent are as many as
there are more operands than operators among these. -/
inductive Misfit (g : Grammar) (before : List Token) : Token → SyntaxFault → Prop where
  | parenthesis {s : Symbol} (h : s.operator? = none) :
    Misfit g before (.symbol s) (.strayParenthesis s.char)
  | function {text : String} {f : Func} (known : g.function? text = some f)
    (h : g.surplus before < 1) : Misfit g before (.word text) (.missingOperand f)
  | operator (o : Operator) (h : g.surplus before < 2) :
    Misfit g before (.symbol (.operator o)) (.missingOperands o)

/-- Each token can follow those before it. -/
def Fitting (g : Grammar) (tokens : List Token) : Prop :=
  ∀ before t after, tokens = before ++ t :: after → ∀ fault, ¬ g.Misfit before t fault

theorem node_eq_ok_iff_reads : g.node t = .ok n ↔ g.Reads t n := by
  constructor
  · intro h
    cases t with
    | number text =>
      obtain rfl := Except.ok.inj h
      exact .number text
    | word text =>
      cases hf : g.function? text with
      | none =>
        simp only [node, hf, Option.elim_none, Except.ok.injEq] at h
        exact h ▸ .name hf
      | some f =>
        simp only [node, hf, Option.elim_some, Except.ok.injEq] at h
        exact h ▸ .function hf
    | symbol s =>
      rcases s with _ | _ | o
      · cases h
      · cases h
      · obtain rfl := Except.ok.inj h
        exact .operator o
  · intro h
    cases h with
    | number | operator => rfl
    | name free => simp [node, free]
    | function known => simp [node, known]

theorem node_eq_error (h : g.node t = .error fault) :
    ∃ s, t = .symbol s ∧ s.operator? = none ∧ fault = .strayParenthesis s.char := by
  cases t with
  | number | word => cases h
  | symbol s =>
    rcases s with _ | _ | o
    · exact ⟨_, rfl, rfl, (Except.error.inj h).symm⟩
    · exact ⟨_, rfl, rfl, (Except.error.inj h).symm⟩
    · cases h

theorem not_isParenthesis_of_reads (h : g.Reads t n) : ¬ isParenthesis t := by
  cases h <;> simp [isParenthesis]

theorem mapM_node_eq_ok_iff : tokens.mapM g.node = .ok nodes ↔ List.Forall₂ g.Reads tokens nodes := by
  simp only [mapM_eq_ok_iff_forall₂, node_eq_ok_iff_reads]

/-- One more token of a listing. -/
def grow (g : Grammar) (trees : Forest) (t : Token) : Except SyntaxFault Forest := do
  Forest.grow trees (← g.node t)

theorem length_of_grown (h : tokens.foldlM g.grow [] = .ok trees) :
    (trees.length : ℤ) = g.surplus tokens := by
  obtain ⟨nodes, hnodes, hgrown⟩ := foldlM_grow_node.mp h
  have hlisting : Forest.listing trees = nodes := by
    simpa using Forest.listing_foldlM_grow hgrown
  rw [← Forest.sum_weight_listing, hlisting, sum_weight_nodes hnodes, sum_weight_eq_surplus]

/-- Whether a token fits depends on how many trees wait, and not on what they are. -/
theorem grow_eq_error_iff (h : before.foldlM g.grow [] = .ok trees) :
    g.grow trees t = .error fault ↔ g.Misfit before t fault := by
  have hlength := length_of_grown h
  constructor
  · intro herr
    cases hn : g.node t with
    | error e =>
      rw [grow, hn] at herr
      obtain rfl : e = fault := Except.error.inj herr
      obtain ⟨s, rfl, hs, rfl⟩ := node_eq_error hn
      exact .parenthesis hs
    | ok n =>
      rw [grow, hn] at herr
      obtain ⟨-, rfl⟩ | ⟨f, rfl, known, rfl⟩ | ⟨o, rfl, rfl⟩ := node_cases hn
      · obtain ⟨f, hf, -⟩ | ⟨o, ho, -⟩ := Forest.grow_eq_error_iff.mp herr
        · exact absurd hf (Node.leaf_ne_function _ f)
        · exact absurd ho (Node.leaf_ne_operator _ o)
      · obtain ⟨_, hf, hfew, rfl⟩ | ⟨_, ho, -⟩ := Forest.grow_eq_error_iff.mp herr
        · cases hf
          exact .function known (by omega)
        · cases ho
      · obtain ⟨_, hf, -⟩ | ⟨_, ho, hfew, rfl⟩ := Forest.grow_eq_error_iff.mp herr
        · cases hf
        · cases ho
          exact .operator o (by omega)
  · intro hm
    cases hm with
    | parenthesis hs =>
      rename_i s
      rcases s with _ | _ | o
      · rfl
      · rfl
      · cases hs
    | function known hfew =>
      rw [grow, node_eq_ok_iff_reads.mpr (.function known)]
      exact Forest.grow_eq_error_iff.mpr (.inl ⟨_, rfl, by omega, rfl⟩)
    | operator o hfew =>
      rw [grow, node_eq_ok_iff_reads.mpr (.operator o)]
      exact Forest.grow_eq_error_iff.mpr (.inr ⟨o, rfl, by omega, rfl⟩)

/-- A run goes on for as long as the tokens fit. -/
theorem fitting_iff : g.Fitting tokens ↔ ∃ trees, tokens.foldlM g.grow [] = .ok trees := by
  constructor
  · intro hfit
    cases h : tokens.foldlM g.grow [] with
    | ok trees => exact ⟨trees, rfl⟩
    | error fault =>
      obtain ⟨before, t, after, trees, rfl, hgrown, hgrow⟩ := foldlM_eq_error_iff.mp h
      exact absurd ((grow_eq_error_iff hgrown).mp hgrow) (hfit before t after rfl fault)
  · rintro ⟨trees, h⟩ before t after rfl fault hm
    rw [List.foldlM_append] at h
    obtain ⟨grown, hgrown, hrest⟩ := bind_eq_ok.mp h
    rw [List.foldlM_cons, (grow_eq_error_iff hgrown).mpr hm] at hrest
    cases hrest

theorem foldlM_grow_eq_error_iff : tokens.foldlM g.grow [] = .error fault ↔
    ∃ before t after, tokens = before ++ t :: after ∧ g.Fitting before ∧
      g.Misfit before t fault := by
  rw [foldlM_eq_error_iff]
  constructor
  · rintro ⟨before, t, after, trees, rfl, hgrown, hgrow⟩
    exact ⟨before, t, after, rfl, fitting_iff.mpr ⟨trees, hgrown⟩,
      (grow_eq_error_iff hgrown).mp hgrow⟩
  · rintro ⟨before, t, after, rfl, hfit, hm⟩
    obtain ⟨trees, hgrown⟩ := fitting_iff.mp hfit
    exact ⟨before, t, after, trees, rfl, hgrown, (grow_eq_error_iff hgrown).mpr hm⟩

/-- At the end there must be one tree. -/
theorem single_of_grown (h : tokens.foldlM g.grow [] = .ok trees) :
    Forest.single trees = .error fault ↔
      (tokens = [] ∧ fault = .emptyExpression ∧ fault.message = "empty expression") ∨
        ∃ n : ℕ, 2 ≤ n ∧ (n : ℤ) = g.surplus tokens ∧ fault = .surplusOperands n ∧
          fault.message = s!"invalid expression: {n} operands left without an operator" := by
  have hlength := length_of_grown h
  constructor
  · intro herr
    obtain ⟨rfl, rfl⟩ | ⟨hmany, rfl⟩ := Forest.fault_of_single herr
    · obtain ⟨nodes, hnodes, hgrown⟩ := foldlM_grow_node.mp h
      obtain rfl := Forest.eq_nil_of_grown hgrown
      exact .inl ⟨mapM_eq_nil hnodes, rfl, rfl⟩
    · exact .inr ⟨trees.length, hmany, hlength, rfl, rfl⟩
  · rintro (⟨rfl, rfl, -⟩ | ⟨n, hn, hsurplus, rfl, -⟩)
    · obtain rfl : [] = trees := Except.ok.inj h
      rfl
    · obtain rfl : n = trees.length := by omega
      match trees, hn with
      | _ :: _ :: trees, _ => rfl

/-- A list of tokens grows a tree exactly if it has no parentheses and reads, token by token, as the
nodes of that tree in postorder. Otherwise the fault is that of the first token that does not fit: a
parenthesis, a function that no tree waits for, or an operator that fewer than two trees wait for. If
they all fit, there are none or they leave more than one tree. -/
theorem build_eq_ok_iff_reads (g : Grammar) (tokens : List Token) :
    (∀ e, g.build tokens = .ok e ↔
      (∀ t ∈ tokens, ¬ isParenthesis t) ∧ List.Forall₂ g.Reads tokens e.postorder) ∧
    ∀ fault, g.build tokens = .error fault ↔
      (∃ before t after, tokens = before ++ t :: after ∧ g.Fitting before ∧
        g.Misfit before t fault) ∨
      g.Fitting tokens ∧
        ((tokens = [] ∧ fault = .emptyExpression ∧ fault.message = "empty expression") ∨
        ∃ n : ℕ, 2 ≤ n ∧ (n : ℤ) = g.surplus tokens ∧ fault = .surplusOperands n ∧
          fault.message = s!"invalid expression: {n} operands left without an operator") := by
  constructor
  · intro e
    rw [build_eq_ok_iff, mapM_node_eq_ok_iff]
    constructor
    · intro h
      exact (List.forall₂_and_left _ _).mp
        (h.imp fun _ _ hr => ⟨not_isParenthesis_of_reads hr, hr⟩)
    · exact And.right
  · intro fault
    change tokens.foldlM g.grow [] >>= Forest.single = .error fault ↔ _
    rw [fitting_iff]
    cases hgrown : tokens.foldlM g.grow [] with
    | error e =>
      rw [← foldlM_grow_eq_error_iff, hgrown]
      simp
    | ok trees =>
      rw [← foldlM_grow_eq_error_iff, hgrown, ok_bind, single_of_grown hgrown]
      simp

end Reckon.Grammar
