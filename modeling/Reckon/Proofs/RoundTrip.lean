import Reckon.Proofs.Legible
import Reckon.Proofs.Precedence
import Reckon.Proofs.Walk
import Reckon.Proofs.Writing

/-!
Parsing undoes rendering: the text of a parsed tree parses to that tree, unless a constant is
written with an exponent, and then to no tree at all.
-/
namespace Reckon

open Bits Lexer

variable {g : Grammar} {x : Float} {e a l r : Expr} {f : Func} {o : Operator} {name : String}
  {cs ds : List Char} {ts us : List Token}

/-- The numbers that are written without exponent. -/
def Plain (x : Float) : Prop :=
  x == 0 ∨ x.isInf ∨ x.isNaN ∨ 1e-4 ≤ x.abs ∧ x.abs < 1e16

instance : DecidablePred Plain := fun x =>
  inferInstanceAs (Decidable (x == 0 ∨ x.isInf ∨ x.isNaN ∨ 1e-4 ≤ x.abs ∧ x.abs < 1e16))

/-- The numbers on the constant leaves from left to right. -/
def Expr.constants : Expr → List Float
  | const x => [x]
  | var _ => []
  | call _ a => a.constants
  | binary _ l r => l.constants ++ r.constants

theorem plain_iff_isPositional (hu : x.isNaN = false) (hi : x.isInf = false) :
    Plain x ↔ NumberStyle.constant.isPositional x := by
  simp only [Plain, NumberStyle.isPositional, NumberStyle.constant, hu, hi, Bool.or_eq_true,
    Bool.and_eq_true, Bool.false_eq_true, false_or]
  exact or_congr Iff.rfl (and_congr decide_eq_true_iff.symm decide_eq_true_iff.symm)

section Constants

theorem function?_eq_none (hs : name.toList.head? ≠ some 's') (hc : name.toList.head? ≠ some 'c') :
    g.function? name = none := by
  cases hf : g.function? name with
  | none => rfl
  | some f =>
    obtain ⟨rfl, -⟩ := Grammar.function?_eq_some.mp hf
    cases f
    · exact absurd rfl hs
    · exact absurd rfl hs
    · exact absurd rfl hc

theorem exists_operand_word (hw : IsWord cs) (hs : cs.head? ≠ some 's') (hc : cs.head? ≠ some 'c')
    (hread : Numeral.read? (String.ofList cs) = some x) :
    ∃ a : Operand g, a.Ordered ∧ a.expr = .const x ∧ Spells cs a.tokens := by
  have hf : g.function? (String.ofList cs) = none :=
    function?_eq_none (by simpa using hs) (by simpa using hc)
  refine ⟨.name (String.ofList cs) hf, trivial, ?_, spells_word hw⟩
  rw [Operand.expr, Expr.leaf, hread]
  rfl

theorem exists_operand_number (hn : IsNumber cs)
    (hread : Numeral.read? (String.ofList cs) = some x) :
    ∃ a : Operand g, a.Ordered ∧ a.expr = .const x ∧ Spells cs a.tokens := by
  refine ⟨.number (String.ofList cs), trivial, ?_, spells_number hn⟩
  rw [Operand.expr, Expr.leaf, hread]
  rfl

/-- Without an exponent, a constant is written as one token that reads back. -/
theorem exists_operand_const (hx : Unsigned x) (hp : Plain x) :
    ∃ a : Operand g, a.Ordered ∧ a.expr = .const x ∧
      Spells (Node.const x).text.toList a.tokens := by
  rcases hx.cases with rfl | rfl | rfl | ⟨m, e, hc, hu⟩
  · have htext : (Node.const (0 / 0)).text.toList = ['N', 'a', 'N'] := by decide +kernel
    rw [htext]
    exact exists_operand_word (by decide) (by decide) (by decide) (by decide +kernel)
  · have htext : (Node.const (1 / 0)).text.toList = ['i', 'n', 'f'] := by decide +kernel
    rw [htext]
    exact exists_operand_word (by decide) (by decide) (by decide) (by decide +kernel)
  · have htext : (Node.const 0).text.toList = ['0'] ++ '.' :: ['0'] := by decide +kernel
    rw [htext]
    exact exists_operand_number (.point (by simp) (by simp) (by simp)) (by decide +kernel)
  · have hpos : NumberStyle.constant.isPositional x :=
      (plain_iff_isPositional (isNaN_of_finite hu) (isInf_of_finite hu)).mp hp
    obtain ⟨hn, hread⟩ := NumberStyle.read?_write (s := .constant) rfl hx hc hu hpos
    apply exists_operand_number hn
    rw [String.ofList_toList]
    exact hread

theorem weight_exponent (g : Grammar) (cs : List Char) :
    g.weight (.word (String.ofList ('e' :: cs))) = 1 := by
  have hf : g.function? (String.ofList ('e' :: cs)) = none :=
    function?_eq_none (by simp) (by simp)
  rw [Grammar.weight, Grammar.isFunction, hf]
  rfl

/-- An exponent is cut into a name, and if it is negative into an operator and a number too. -/
theorem exists_tokens_exponent {sign : List Char} (hs : sign = [] ∨ sign = ['-'])
    (hd : ∀ c ∈ ds, c.isDigit) (hne : ds ≠ []) :
    ∃ ts, Spells ('e' :: (sign ++ ds)) ts ∧ (ts.map g.weight).sum = 1 := by
  rcases hs with rfl | rfl
  · have hword : IsWord ('e' :: ds) := by
      refine ⟨rfl, ?_⟩
      intro c hc
      simp [isWordPart, Char.isAlphanum, hd c hc]
    refine ⟨_, spells_word hword, ?_⟩
    simp only [List.map_cons, List.map_nil, List.sum_cons, List.sum_nil, weight_exponent]
    rfl
  · have hword : Spells ['e'] [.word (String.ofList ['e'])] := spells_word (by decide)
    have hminus : Spells ('-' :: ds) [.symbol (.operator .sub), .number (String.ofList ds)] :=
      (spells_number (.whole hd hne)).symbol (.operator .sub)
    refine ⟨_, hword.append hminus (by simp) (ends_cons rfl), ?_⟩
    simp only [List.cons_append, List.nil_append, List.map_cons, List.map_nil, List.sum_cons,
      List.sum_nil, weight_exponent]
    rfl

/-- With an exponent, a number is cut into one operand too many. -/
theorem exists_tokens_scientific (hd : ∀ c ∈ ds, c.isDigit) (hne : ds ≠ []) (k : ℤ) :
    ∃ ts, Spells (NumberStyle.constant.scientific ds k) ts ∧ (ts.map g.weight).sum = 2 := by
  have hmantissa : IsNumber (ds.take 1 ++ if ds.length ≤ 1 then [] else '.' :: ds.drop 1) := by
    obtain ⟨d, ds, rfl⟩ := List.exists_cons_of_ne_nil hne
    have hfirst : ∀ c ∈ [d], c.isDigit := by simpa using hd d (by simp)
    split
    · exact .whole hfirst (by simp)
    · refine .point hfirst ?_ (by simp)
      intro c hc
      exact hd c (List.mem_cons_of_mem d hc)
  simp only [NumberStyle.scientific]
  generalize ds.take 1 ++ (if ds.length ≤ 1 then [] else '.' :: ds.drop 1) = mantissa at hmantissa ⊢
  generalize k + ds.length - 1 = n
  have hsign : (if 0 ≤ n then NumberStyle.constant.exponentPlus else ['-']) = [] ∨
      (if 0 ≤ n then NumberStyle.constant.exponentPlus else ['-']) = ['-'] := by
    split
    · exact .inl rfl
    · exact .inr rfl
  obtain ⟨ts, hts, hsum⟩ := exists_tokens_exponent (g := g) hsign
    (fun _ => isDigit_of_mem_toDigits) (Nat.toDigits_ne_nil (n := n.natAbs))
  refine ⟨.number (String.ofList mantissa) :: ts, ?_, ?_⟩
  · rw [List.append_assoc]
    exact hts.number hmantissa (by simp) (ends_cons rfl)
  · rw [List.map_cons, List.sum_cons, hsum]
    rfl

theorem exists_tokens_const (hx : Unsigned x) (hp : ¬ Plain x) :
    ∃ ts, Spells (Node.const x).text.toList ts ∧ (ts.map g.weight).sum = 2 := by
  rcases hx.cases with rfl | rfl | rfl | ⟨m, e, hc, hu⟩
  · exact absurd (by decide +kernel) hp
  · exact absurd (by decide +kernel) hp
  · exact absurd (by decide +kernel) hp
  · have hpos : ¬ NumberStyle.constant.isPositional x := by
      rwa [← plain_iff_isPositional (isNaN_of_finite hu) (isInf_of_finite hu)]
    rw [Node.text, NumberStyle.write_finite hx hu, if_neg hpos, String.toList_ofList]
    exact exists_tokens_scientific (fun _ => Decimal.isDigit_of_mem_digits)
      (Decimal.digits_ne_nil _) _

end Constants

namespace Expr

theorem text_call (f : Func) (a : Expr) :
    (call f a).text.toList = f.name.toList ++ '(' :: (a.text.toList ++ [')']) := by
  simp [text]

theorem text_binary (o : Operator) (l r : Expr) :
    (binary o l r).text.toList =
      '(' :: (l.text.toList ++ ' ' :: o.symbol :: ' ' :: r.text.toList ++ [')']) := by
  simp [text]

/-- Every operation is in parentheses, so the text is that of an operand, whatever binds how. -/
theorem exists_operand (he : e.Legible g) (hp : ∀ x ∈ e.constants, Plain x) :
    ∃ a : Operand g, a.Ordered ∧ a.expr = e ∧ Spells e.text.toList a.tokens := by
  induction e with
  | const x =>
    have hx : Unsigned x := he (.const x) (List.mem_singleton.mpr rfl)
    exact exists_operand_const hx (hp x (by simp [constants]))
  | var name =>
    obtain ⟨hw, hf, hread⟩ := he _ (List.mem_singleton.mpr rfl)
    refine ⟨.name name hf, trivial, ?_, ?_⟩
    · rw [Operand.expr, leaf, hread]
      rfl
    · simpa [text, Operand.tokens] using spells_word hw
  | call f a ih =>
    obtain ⟨ha, hf⟩ := legible_call.mp he
    obtain ⟨b, hb, rfl, hspells⟩ := ih ha hp
    refine ⟨.apply f hf (.group (.operand b)), hb, rfl, ?_⟩
    rw [text_call]
    exact spells_call f hspells
  | binary o l r ihl ihr =>
    obtain ⟨hl, hr⟩ := legible_binary.mp he
    have hpl : ∀ x ∈ l.constants, Plain x := by
      intro x hx
      exact hp x (List.mem_append_left _ hx)
    have hpr : ∀ x ∈ r.constants, Plain x := by
      intro x hx
      exact hp x (List.mem_append_right _ hx)
    obtain ⟨b, hb, rfl, hbs⟩ := ihl hl hpl
    obtain ⟨c, hc, rfl, hcs⟩ := ihr hr hpr
    refine ⟨.group (.binary o (.operand b) (.operand c)), ?_, rfl, ?_⟩
    · exact ⟨hb, hc, by simp [Formula.root?], by simp [Formula.root?]⟩
    · rw [text_binary]
      simpa [Operand.tokens, Formula.tokens] using spells_group (spells_operation o hbs hcs)

/-- Each constant with an exponent leaves an operand over. -/
theorem exists_tokens (he : e.Legible g) :
    ∃ ts, Spells e.text.toList ts ∧
      (ts.map g.weight).sum = 1 + e.constants.countP fun x => ¬ Plain x := by
  induction e with
  | const x =>
    have hx : Unsigned x := he (.const x) (List.mem_singleton.mpr rfl)
    by_cases hp : Plain x
    · obtain ⟨a, ho, ha, hspells⟩ := exists_operand_const (g := g) hx hp
      refine ⟨a.tokens, hspells, ?_⟩
      have hparse : g.parseTokens (Formula.operand a).tokens = .ok a.expr :=
        Formula.parseTokens_tokens ho
      have hsum := Grammar.sum_weight_of_parseTokens hparse
      rw [Formula.tokens] at hsum
      simp [hsum, constants, hp]
    · obtain ⟨ts, hspells, hsum⟩ := exists_tokens_const (g := g) hx hp
      refine ⟨ts, hspells, ?_⟩
      rw [hsum]
      simp [constants, hp]
  | var name =>
    obtain ⟨hw, hf, hread⟩ := he _ (List.mem_singleton.mpr rfl)
    refine ⟨[.word name], by simpa [text] using spells_word hw, ?_⟩
    simp [constants, Grammar.weight, Grammar.isFunction, hf]
  | call f a ih =>
    obtain ⟨ha, hf⟩ := legible_call.mp he
    obtain ⟨ts, hspells, hsum⟩ := ih ha
    refine ⟨_, by rw [text_call]; exact spells_call f hspells, ?_⟩
    simp [Grammar.weight, Grammar.isFunction, hf, hsum, constants]
  | binary o l r ihl ihr =>
    obtain ⟨hl, hr⟩ := legible_binary.mp he
    obtain ⟨ts, hts, htsum⟩ := ihl hl
    obtain ⟨us, hus, husum⟩ := ihr hr
    refine ⟨_, by rw [text_binary]; exact spells_group (spells_operation o hts hus), ?_⟩
    simp [Grammar.weight, htsum, husum, constants]
    ring

end Expr

/-- The text of a tree that parsing returned parses to that very tree, whatever the precedences, if
no constant in it is written with an exponent. Else it is malformed, so it is no other tree. -/
theorem Grammar.parse_render {text : String} (h : g.parse text = .ok e) :
    ((∀ x ∈ e.constants, Plain x) → g.parse e.render = .ok e) ∧
    ((∃ x ∈ e.constants, ¬ Plain x) → ∃ fault, g.parse e.render = .error (.malformed fault)) := by
  have he := Expr.legible_of_parse h
  rw [Expr.render_eq_text]
  constructor
  · intro hp
    obtain ⟨a, ho, ha, hspells⟩ := Expr.exists_operand he hp
    have hparse : g.parseTokens (Formula.operand a).tokens = .ok a.expr :=
      Formula.parseTokens_tokens ho
    rw [Formula.tokens, ha] at hparse
    simp [parse, tokenize_of_spells hspells, hparse, Except.mapError]
  · rintro ⟨x, hx, hp⟩
    obtain ⟨ts, hspells, hsum⟩ := Expr.exists_tokens he
    have hcount : 0 < e.constants.countP fun x => ¬ Plain x :=
      List.countP_pos_iff.mpr ⟨x, hx, by simpa using hp⟩
    cases hparse : g.parseTokens ts with
    | error fault =>
      exact ⟨fault, by simp [parse, tokenize_of_spells hspells, hparse, Except.mapError]⟩
    | ok e' =>
      have hone := sum_weight_of_parseTokens hparse
      omega

/-- A difference that binds more strongly than a product, and the least of the large numbers that
are written with an exponent. -/
theorem Grammar.parse_render_tenth :
    let g := ({} : Grammar).withPrecedence .sub 9
    g.parse "0.1 * sqrt x - 20" =
        .ok (.binary .mul (.const 0.1) (.binary .sub (.call .sqrt (.var "x")) (.const 20))) ∧
      g.parse "(0.1 * (sqrt(x) - 20.0))" =
        .ok (.binary .mul (.const 0.1) (.binary .sub (.call .sqrt (.var "x")) (.const 20))) ∧
      g.parse "y / 10000000000000000" = .ok (.binary .div (.var "y") (.const 1e16)) ∧
      ∃ fault, g.parse "(y / 1e16)" = .error (.malformed fault) := by
  intro g
  have h : g.parse "0.1 * sqrt x - 20" =
      .ok (.binary .mul (.const 0.1) (.binary .sub (.call .sqrt (.var "x")) (.const 20))) := by
    decide +kernel
  have h' : g.parse "y / 10000000000000000" = .ok (.binary .div (.var "y") (.const 1e16)) := by
    decide +kernel
  refine ⟨h, ?_, h', ?_⟩
  · have hp := (Grammar.parse_render h).1 (by decide +kernel)
    have htext : Expr.render (.binary .mul (.const 0.1)
        (.binary .sub (.call .sqrt (.var "x")) (.const 20))) = "(0.1 * (sqrt(x) - 20.0))" := by
      decide +kernel
    rwa [htext] at hp
  · have hf := (Grammar.parse_render h').2 ⟨1e16, by simp [Expr.constants], by decide +kernel⟩
    have htext : Expr.render (.binary .div (.var "y") (.const 1e16)) = "(y / 1e16)" := by
      decide +kernel
    rwa [htext] at hf

end Reckon
