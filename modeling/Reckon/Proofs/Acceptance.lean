import Reckon.Proofs.Balance
import Reckon.Proofs.Legible
import Reckon.Proofs.Parentheses
import Reckon.Proofs.Precedence

/-!
Which token sequences are parsed. The postfix order shows no more of the tokens than how many trees
each of them finds, so an operator may come after both of its operands, as in `1 2 +`. Where no
operand stands directly after another, counting is enough: what is parsed is a formula.
-/
namespace Reckon

variable {g : Grammar} {after : Bool} {n : Nat} {t : Token} {ts tokens listing : List Token}
  {text : String} {e : Expr}

/-- Whether an operand may begin with the token. -/
def Token.begins : Token → Bool
  | .number _ | .word _ | .symbol .opening => true
  | _ => false

namespace Grammar

/-- Whether an operand may end with the token. -/
def ends (g : Grammar) : Token → Bool
  | .number _ | .symbol .closing => true
  | .word text => !g.isFunction text
  | _ => false

/-- No operand stands directly after another. -/
def Apart (g : Grammar) (tokens : List Token) : Prop :=
  tokens.IsChain fun s t => ¬ (g.ends s ∧ t.begins)

instance : Decidable (g.Apart tokens) :=
  inferInstanceAs (Decidable (tokens.IsChain _))

/-- Operands and operators come in turn, and an operand last; `after` says whether an operand has
ended right before the tokens. -/
def InTurn (g : Grammar) : Bool → List Token → Prop
  | after, [] => after
  | after, t :: ts => t.begins = !after ∧ g.InTurn (g.ends t) ts

theorem InTurn.apart (h : g.InTurn after ts) : g.Apart ts := by
  induction ts generalizing after with
  | nil => exact .nil
  | cons t ts ih =>
    refine List.isChain_cons.mpr ⟨?_, ih h.2⟩
    rintro u hu ⟨hends, hbegins⟩
    cases ts with
    | nil => cases hu
    | cons v ts =>
      obtain rfl : v = u := Option.some.inj hu
      have hv := h.2.1
      rw [hends, hbegins] at hv
      cases hv

/-- A token that may stand here changes the count of open operands by its weight at most, and by
less if it is out of turn. -/
theorem weight_le (h : after → ¬ t.begins) :
    after.toNat + g.weight t ≤ (g.ends t).toNat ∧
      (after.toNat + g.weight t = (g.ends t).toNat → t.begins = !after) := by
  cases t with
  | number text => cases after <;> simp_all [Token.begins, ends, weight]
  | word text =>
    cases hf : g.isFunction text <;> cases after <;> simp_all [Token.begins, ends, weight]
  | symbol s => rcases s with _ | _ | o <;> cases after <;> simp_all [Token.begins, ends, weight]

/-- Tokens that keep operands apart have at most one operand more than operators, and exactly one
only if they are in turn. -/
theorem sum_weight_le (after : Bool) (h : g.Apart ts)
    (hhead : after → ∀ t ∈ ts.head?, ¬ t.begins) :
    after.toNat + (ts.map g.weight).sum ≤ 1 ∧
      (after.toNat + (ts.map g.weight).sum = 1 → g.InTurn after ts) := by
  induction ts generalizing after with
  | nil => cases after <;> simp [InTurn]
  | cons t ts ih =>
    obtain ⟨hnext, hrest⟩ := List.isChain_cons.mp h
    obtain ⟨hle, hturn⟩ := weight_le (g := g) fun ha => hhead ha t rfl
    obtain ⟨hle', hturn'⟩ := ih (g.ends t) hrest fun he u hu hb => hnext u hu ⟨he, hb⟩
    rw [List.map_cons, List.sum_cons]
    constructor
    · omega
    · intro hsum
      exact ⟨hturn (by omega), hturn' (by omega)⟩

end Grammar

open Grammar Postfix

mutual

theorem Operand.inTurn_append (a : Operand g) {ts : List Token} (h : g.InTurn true ts) :
    g.InTurn false (a.tokens ++ ts) := by
  cases a with
  | number text => exact ⟨rfl, h⟩
  | name text free => exact ⟨rfl, by simpa [ends, isFunction, free] using h⟩
  | apply f known a => exact ⟨rfl, by simpa [ends, isFunction, known] using a.inTurn_append h⟩
  | group e =>
    have hclose : g.InTurn true (.symbol .closing :: ts) := ⟨rfl, h⟩
    have he := e.inTurn_append hclose
    simpa [Operand.tokens, InTurn, Token.begins, ends] using he

theorem Formula.inTurn_append (e : Formula g) {ts : List Token} (h : g.InTurn true ts) :
    g.InTurn false (e.tokens ++ ts) := by
  cases e with
  | operand a => exact a.inTurn_append h
  | binary o l r =>
    have hr : g.InTurn true (.symbol (.operator o) :: (r.tokens ++ ts)) :=
      ⟨rfl, r.inTurn_append h⟩
    simpa [Formula.tokens] using l.inTurn_append hr

end

theorem Formula.apart_tokens (e : Formula g) : g.Apart e.tokens := by
  have he : g.InTurn false (e.tokens ++ []) := e.inTurn_append rfl
  rw [List.append_nil] at he
  exact he.apart

mutual

/-- Tokens in turn whose parentheses match begin with an operand. -/
theorem Operand.exists_of_inTurn {n : Nat} (ts : List Token) (ht : g.InTurn false ts)
    (hn : Matched n ts) : ∃ (a : Operand g) (rest : List Token),
      ts = a.tokens ++ rest ∧ g.InTurn true rest ∧ Matched n rest := by
  cases ts with
  | nil => cases ht
  | cons t ts =>
    obtain ⟨hbegins, ht⟩ := ht
    obtain ⟨m, hnest, hn⟩ := matched_cons.mp hn
    cases t with
    | number text =>
      obtain rfl : n = m := Option.some.inj hnest
      exact ⟨.number text, ts, rfl, ht, hn⟩
    | word text =>
      obtain rfl : n = m := Option.some.inj hnest
      cases hf : g.function? text with
      | none =>
        have ht : g.InTurn true ts := by simpa [ends, isFunction, hf] using ht
        exact ⟨.name text hf, ts, rfl, ht, hn⟩
      | some f =>
        have ht : g.InTurn false ts := by simpa [ends, isFunction, hf] using ht
        obtain ⟨a, rest, rfl, hrest, hm⟩ := Operand.exists_of_inTurn ts ht hn
        obtain ⟨rfl, -⟩ := function?_eq_some.mp hf
        exact ⟨.apply f hf a, rest, rfl, hrest, hm⟩
    | symbol s =>
      rcases s with _ | _ | o
      · obtain rfl : n + 1 = m := Option.some.inj hnest
        obtain ⟨e, rest, rfl, hrest, hm, hstop⟩ := Formula.exists_of_inTurn ts ht hn
        cases rest with
        | nil => simp at hm
        | cons u rest =>
          obtain rfl : u = .symbol .closing := hstop u rfl
          obtain ⟨k, hk, hm⟩ := matched_cons.mp hm
          obtain rfl : n = k := Option.some.inj hk
          exact ⟨.group e, rest, by simp [Operand.tokens], hrest.2, hm⟩
      · cases hbegins
      · cases hbegins
termination_by (ts.length, 0)

/-- Tokens in turn whose parentheses match begin with a formula that goes on until a parenthesis
closes or no token is left. -/
theorem Formula.exists_of_inTurn {n : Nat} (ts : List Token) (ht : g.InTurn false ts)
    (hn : Matched n ts) : ∃ (e : Formula g) (rest : List Token),
      ts = e.tokens ++ rest ∧ g.InTurn true rest ∧ Matched n rest ∧
        ∀ u ∈ rest.head?, u = .symbol .closing := by
  obtain ⟨a, rest, rfl, hrest, hm⟩ := Operand.exists_of_inTurn ts ht hn
  cases rest with
  | nil => exact ⟨.operand a, [], rfl, hrest, hm, by simp⟩
  | cons u rest =>
    cases u with
    | number text => cases hrest.1
    | word text => cases hrest.1
    | symbol s =>
      rcases s with _ | _ | o
      · cases hrest.1
      · exact ⟨.operand a, _, rfl, hrest, hm, by simp⟩
      · obtain ⟨k, hk, hm⟩ := matched_cons.mp hm
        obtain rfl : n = k := Option.some.inj hk
        obtain ⟨e, rest', rfl, hrest', hm', hstop⟩ := Formula.exists_of_inTurn rest hrest.2 hm
        exact ⟨.binary o (.operand a) e, rest', by simp [Formula.tokens], hrest', hm', hstop⟩
termination_by (ts.length, 1)

end

theorem Formula.exists_of_apart (hm : Matched 0 tokens) (ha : g.Apart tokens)
    (hs : (tokens.map g.weight).sum = 1) : ∃ e : Formula g, e.tokens = tokens := by
  have hturn : g.InTurn false tokens :=
    (sum_weight_le false ha (by simp)).2 (by simpa using hs)
  obtain ⟨e, rest, rfl, -, hm, hstop⟩ := Formula.exists_of_inTurn tokens hturn hm
  cases rest with
  | nil => exact ⟨e, by simp⟩
  | cons u rest =>
    -- A closing parenthesis here would have no partner.
    obtain rfl : u = .symbol .closing := hstop u rfl
    obtain ⟨k, hk, -⟩ := matched_cons.mp hm
    cases hk

theorem Node.leaf_ne_function (text : String) (f : Func) : Node.leaf text ≠ .function f := by
  rcases Node.leaf_cases text with ⟨x, hx⟩ | hx <;> simp [hx]

theorem Node.leaf_ne_operator (text : String) (o : Operator) : Node.leaf text ≠ .operator o := by
  rcases Node.leaf_cases text with ⟨x, hx⟩ | hx <;> simp [hx]

namespace Grammar

theorem exists_operand_of_isOperand (h : g.isOperand t) : ∃ a : Operand g, a.listing = [t] := by
  cases t with
  | number text => exact ⟨.number text, rfl⟩
  | word text => exact ⟨.name text (isOperand_word.mp h), rfl⟩
  | symbol s => cases h

/-- What builds a tree is the listing of an operand. -/
theorem exists_operand_of_listing (h : listing.mapM g.node = .ok e.postorder) :
    ∃ a : Operand g, a.listing = listing := by
  induction e generalizing listing with
  | const x =>
    obtain ⟨t, ts, rfl, ht, hts⟩ := mapM_eq_cons h
    rw [mapM_eq_nil hts]
    obtain ⟨ha, -⟩ | ⟨f, -, -, hm⟩ | ⟨o, -, hm⟩ := node_cases ht
    · exact exists_operand_of_isOperand ha
    · cases hm
    · cases hm
  | var name =>
    obtain ⟨t, ts, rfl, ht, hts⟩ := mapM_eq_cons h
    rw [mapM_eq_nil hts]
    obtain ⟨ha, -⟩ | ⟨f, -, -, hm⟩ | ⟨o, -, hm⟩ := node_cases ht
    · exact exists_operand_of_isOperand ha
    · cases hm
    · cases hm
  | call f e ih =>
    obtain ⟨ts, us, rfl, hts, hus⟩ := mapM_eq_append h
    obtain ⟨t, vs, rfl, ht, hvs⟩ := mapM_eq_cons hus
    obtain ⟨a, rfl⟩ := ih hts
    rw [mapM_eq_nil hvs]
    obtain ⟨-, hm⟩ | ⟨f', rfl, known, hm⟩ | ⟨o, -, hm⟩ := node_cases ht
    · exact absurd hm.symm (Node.leaf_ne_function _ f)
    · obtain rfl : f = f' := Node.function.inj hm
      exact ⟨.apply f known a, rfl⟩
    · cases hm
  | binary o l r ihl ihr =>
    obtain ⟨ts, us, rfl, hts, hus⟩ := mapM_eq_append h
    obtain ⟨ls, rs, rfl, hls, hrs⟩ := mapM_eq_append hts
    obtain ⟨t, vs, rfl, ht, hvs⟩ := mapM_eq_cons hus
    obtain ⟨a, rfl⟩ := ihl hls
    obtain ⟨b, rfl⟩ := ihr hrs
    rw [mapM_eq_nil hvs]
    obtain ⟨-, hm⟩ | ⟨f, -, -, hm⟩ | ⟨o', rfl, hm⟩ := node_cases ht
    · exact absurd hm.symm (Node.leaf_ne_operator _ o)
    · cases hm
    · obtain rfl : o = o' := Node.operator.inj hm
      exact ⟨.group (.binary o (.operand a) (.operand b)), rfl⟩

theorem build_eq_ok_iff_formula :
    g.build listing = .ok e ↔ ∃ f : Formula g, f.listing = listing ∧ f.expr = e := by
  constructor
  · intro h
    obtain ⟨a, rfl⟩ := exists_operand_of_listing (build_eq_ok_iff.mp h)
    have ha : g.build a.listing = .ok a.expr := build_eq_ok_iff.mpr a.node_listing
    rw [h] at ha
    exact ⟨.operand a, rfl, (Except.ok.inj ha).symm⟩
  · rintro ⟨f, rfl, rfl⟩
    exact build_eq_ok_iff.mpr f.node_listing

theorem matched_of_parseTokens (h : g.parseTokens tokens = .ok e) : Matched 0 tokens := by
  obtain ⟨listing, ho, -⟩ := parseTokens_eq_ok h
  exact isSome_order? (g := g) |>.mp (by simp [ho])

theorem parse_of_tokenize (h : tokenize text = .ok tokens) :
    g.parse text = (g.parseTokens tokens).mapError .malformed := by
  simp [parse, h]

theorem parse_eq_ok_iff (h : tokenize text = .ok tokens) :
    g.parse text = .ok e ↔ g.parseTokens tokens = .ok e := by
  rw [parse_of_tokenize h]
  cases g.parseTokens tokens <;> simp [Except.mapError]

theorem malformed_of_parse {err : Error} (ht : tokenize text = .ok tokens)
    (h : g.parse text = .error err) : ∃ fault, err = .malformed fault := by
  rw [parse_of_tokenize ht] at h
  cases hp : g.parseTokens tokens with
  | error fault =>
    rw [hp] at h
    exact ⟨fault, (Except.error.inj h).symm⟩
  | ok e =>
    rw [hp] at h
    cases h

/-- What is parsed are the tokens whose postfix order is the listing of a formula, and the tree is
that formula's. Those that are the tokens of a formula as they stand are the ones among them that
keep operands apart. All other tokens are malformed. -/
theorem parse_eq_ok_iff_listing (h : tokenize text = .ok tokens) :
    (∀ e, g.parse text = .ok e ↔
      ∃ f : Formula g, g.postfixOrder tokens = .ok f.listing ∧ f.expr = e) ∧
    ((∃ f : Formula g, f.tokens = tokens) ↔ g.Apart tokens ∧ ∃ e, g.parse text = .ok e) ∧
    ((∃ e, g.parse text = .ok e) ∨ ∃ fault, g.parse text = .error (.malformed fault)) := by
  refine ⟨?_, ⟨?_, ?_⟩, ?_⟩
  · intro e
    rw [parse_eq_ok_iff h, parseTokens, bind_eq_ok]
    simp only [build_eq_ok_iff_formula]
    constructor
    · rintro ⟨listing, ho, f, rfl, rfl⟩
      exact ⟨f, ho, rfl⟩
    · rintro ⟨f, ho, rfl⟩
      exact ⟨f.listing, ho, f, rfl, rfl⟩
  · rintro ⟨f, rfl⟩
    have hp := Formula.parseTokens_tokens f.ordered_arrange
    rw [f.tokens_arrange] at hp
    exact ⟨f.apart_tokens, f.arrange.expr, (parse_eq_ok_iff h).mpr hp⟩
  · rintro ⟨ha, e, he⟩
    have hp := (parse_eq_ok_iff h).mp he
    exact Formula.exists_of_apart (matched_of_parseTokens hp) ha (sum_weight_of_parseTokens hp)
  · rw [parse_of_tokenize h]
    cases g.parseTokens tokens with
    | error fault => exact .inr ⟨fault, rfl⟩
    | ok e => exact .inl ⟨e, rfl⟩

/-- An operator in a group that lacks its right operand, and the same with the operand there. -/
theorem parse_lone_operand :
    let tokens : List Token := [.number "2", .symbol (.operator .mul), .symbol .opening, .word "x",
      .symbol (.operator .add), .symbol .closing]
    let tokens' : List Token := [.number "2", .symbol (.operator .mul), .symbol .opening, .word "x",
      .symbol (.operator .add), .word "sin", .word "y", .symbol .closing]
    tokenize "2 * (x +)" = .ok tokens ∧ tokenize "2 * (x + sin y)" = .ok tokens' ∧
      (¬ ∃ f : Formula {}, f.tokens = tokens) ∧ ∃ f : Formula {}, f.tokens = tokens' := by
  intro tokens tokens'
  have h : tokenize "2 * (x +)" = .ok tokens := by decide +kernel
  have h' : tokenize "2 * (x + sin y)" = .ok tokens' := by decide +kernel
  have hfault : ({} : Grammar).parse "2 * (x +)" = .error (.malformed (.missingOperands .mul)) := by
    decide +kernel
  have hparse : ({} : Grammar).parse "2 * (x + sin y)" = .ok (.binary .mul (.const 2)
      (.binary .add (.var "x") (.call .sin (.var "y")))) := by
    decide +kernel
  refine ⟨h, h', ?_, (parse_eq_ok_iff_listing h').2.1.mpr ⟨by decide, _, hparse⟩⟩
  intro hf
  obtain ⟨-, e, he⟩ := (parse_eq_ok_iff_listing h).2.1.mp hf
  rw [hfault] at he
  cases he

/-- An operator after both of its operands is parsed, though no formula has these tokens. -/
theorem parse_operator_last :
    ({} : Grammar).parse "1 2 +" = .ok (.binary .add (.const 1) (.const 2)) ∧
      ¬ ∃ f : Formula {}, tokenize "1 2 +" = .ok f.tokens := by
  have h : tokenize "1 2 +" = .ok [.number "1", .number "2", .symbol (.operator .add)] := by
    decide +kernel
  refine ⟨by decide +kernel, ?_⟩
  rintro ⟨f, hf⟩
  have hapart := f.apart_tokens
  rw [← Except.ok.inj (h.symm.trans hf)] at hapart
  exact absurd hapart (by decide)

end Grammar

end Reckon
