import Reckon.Parse
import Reckon.Proofs.Forest
import Reckon.Proofs.Translation
import Reckon.Proofs.Unambiguous

/-!
Parsing by precedence: of the formulas with the tokens of a text, the tree is that of the ordered
one.
-/
namespace Reckon

variable {g : Grammar}

mutual

theorem Operand.node_listing (a : Operand g) :
    a.listing.mapM g.node = .ok a.expr.postorder := by
  cases a with
  | number text => simp [Operand.listing, Operand.expr, Grammar.node, Expr.postorder_leaf]
  | name text free => simp [Operand.listing, Operand.expr, Grammar.node, free, Expr.postorder_leaf]
  | apply f known a =>
    have ha := a.node_listing
    simp [Operand.listing, Operand.expr, Expr.postorder, List.mapM_append, ha, Grammar.node, known]
  | group e => exact e.node_listing

/-- Read as nodes, the listing of a formula is the postorder of its tree. -/
theorem Formula.node_listing (e : Formula g) :
    e.listing.mapM g.node = .ok e.expr.postorder := by
  cases e with
  | operand a => exact a.node_listing
  | binary o l r =>
    have hl := l.node_listing
    have hr := r.node_listing
    simp [Formula.listing, Formula.expr, Expr.postorder, List.mapM_append, hl, hr, Grammar.node]

end

theorem Formula.parseTokens_tokens {e : Formula g} (he : e.Ordered) :
    g.parseTokens e.tokens = .ok e.expr := by
  have hb : g.build e.listing = .ok e.expr := Grammar.build_eq_ok_iff.mpr e.node_listing
  simp [Grammar.parseTokens, Formula.postfixOrder_tokens he, hb]

/-- Whichever formula the text is meant as, exactly one formula of its tokens follows the
precedences; the postfix order of the tokens lists its tree, and parsing returns that tree. -/
theorem Grammar.parse_eq_ordered_formula (e : Formula g) {text : String}
    (h : tokenize text = .ok e.tokens) :
    ∃ t : Formula g,
      (t.tokens = e.tokens ∧ t.Ordered ∧
        ∀ u : Formula g, u.tokens = e.tokens → u.Ordered → u = t) ∧
      g.postfixOrder e.tokens = .ok t.listing ∧
      t.listing.mapM g.node = .ok t.expr.postorder ∧
      g.parse text = .ok t.expr := by
  have ht := e.tokens_arrange
  have ho := e.ordered_arrange
  refine ⟨e.arrange, ⟨ht, ho, ?_⟩, ?_, e.arrange.node_listing, ?_⟩
  · intro u hu huo
    exact Formula.eq_of_tokens_eq huo ho (hu.trans ht.symm)
  · rw [← ht]
    exact Formula.postfixOrder_tokens ho
  · have hp : g.parseTokens e.tokens = .ok e.arrange.expr := by
      rw [← ht]
      exact Formula.parseTokens_tokens ho
    simp [Grammar.parse, h, hp, Except.mapError]

/-- Where sums bind more strongly than products, with a function before a name. -/
theorem Grammar.parse_strong_sum :
    let g := ({} : Grammar).withPrecedence .add 7
    let one : Operand g := .number "1"
    let two : Operand g := .number "2"
    let x : Operand g := .name "x" (by decide)
    let sine : Operand g := .apply .sin (by decide) (.name "y" (by decide))
    let e : Formula g :=
      .binary .mul (.operand one) (.binary .add (.operand x)
        (.binary .mul (.operand two) (.operand sine)))
    let t : Formula g :=
      .binary .mul (.binary .mul (.operand one) (.binary .add (.operand x) (.operand two)))
        (.operand sine)
    tokenize "1 * x + 2 * sin y" = .ok e.tokens ∧
      g.parse "1 * x + 2 * sin y" = .ok t.expr := by
  intro g one two x sine e t
  have h : tokenize "1 * x + 2 * sin y" = .ok e.tokens := by decide +kernel
  obtain ⟨u, ⟨-, -, hu⟩, -, -, hp⟩ := Grammar.parse_eq_ordered_formula e h
  have ho : t.Ordered := by
    simp [t, one, two, x, sine, Formula.Ordered, Operand.Ordered, Formula.root?, g,
      Grammar.withPrecedence, Operator.defaultPrecedence]
  have ht : t = u := hu t rfl ho
  exact ⟨h, ht ▸ hp⟩

end Reckon
