import Reckon.Proofs.Inversion
import Reckon.Proofs.Recognition

/-!
# What is read is derivable

The parsers of the grammar derive what they read on all tokens, also where a number
further behind cannot be read.  A reply is followed back through the combinators to the
tokens that were taken, with the fuel in view: the expression in parentheses has one unit
less than the factor around it.
-/

namespace Reckon
namespace Grammar

open Reckon.Parser

variable {bound : DigitBound} {fuel : Nat} {tokens : List Token}

/-!
# Factors
-/

def Reads (bound : DigitBound) (fuel : Nat) (level : Level)
    (p : Parser ReferenceType Expr) : Prop :=
  forall (tokens rest : List Token) (e : Expr),
    RepliesIn (rules bound) fuel p tokens (.ok rest e) ->
    exists front : List Token, tokens = front ++ rest ∧ Derives (Number bound) level front e

theorem reads_literal : Reads bound fuel .factor (Grammar.literal bound) := by
  intro tokens rest e h
  rcases h.bind_ok with ⟨middle, t, htoken, hread⟩
  rcases eq_cons_of_token htoken with ⟨rfl, ht⟩
  have hreply : ((Numeral.read bound t.text).map fun value => Expr.literal .num value t.text).map
      (Reply.ok middle) = .ok (.ok rest e) := hread.prim
  cases hvalue : Numeral.read bound t.text with
  | error e =>
      rw [hvalue] at hreply
      cases hreply
  | ok value =>
      rw [hvalue] at hreply
      cases hreply
      exact ⟨[t], rfl, Derives.operand (Number.mk ht hvalue)⟩

theorem Reads.parens (hnested : Reads bound fuel .expr nested) :
    Reads bound fuel .factor parens := by
  intro tokens rest e h
  rcases h.bind_ok with ⟨behind, e', hinner, hclose⟩
  rcases hinner.bind_ok with ⟨inside, opening, hopening, hexpr⟩
  rcases hclose.bind_ok with ⟨rest', closing, hclosing, hpure⟩
  cases hpure.prim
  rcases eq_cons_of_token hopening with ⟨rfl, hopens⟩
  rcases eq_cons_of_token hclosing with ⟨rfl, hcloses⟩
  rcases hnested inside _ _ hexpr with ⟨front, rfl, hderives⟩
  exact ⟨opening :: front ++ [closing], by simp, Derives.parens hopens hcloses hderives⟩

theorem Reads.factor (hnested : Reads bound fuel .expr nested) :
    Reads bound fuel .factor (Grammar.factor bound nested) := by
  intro tokens rest e h
  rcases h.orElse_ok with hliteral | hparens
  · exact reads_literal tokens rest e hliteral
  · exact hnested.parens tokens rest e hparens

/-!
# Chains
-/

theorem eq_cons_of_operator {j k op : Kind} {rest : List Token}
    (h : RepliesIn (rules bound) fuel (operator j k) tokens (.ok rest op)) :
    exists t : Token, tokens = t :: rest ∧ (t.kind = j ∨ t.kind = k) ∧ op = t.kind := by
  rcases h.bind_ok with ⟨middle, t, hchoice, hpure⟩
  cases hpure.prim
  rcases hchoice.orElse_ok with hfirst | hsecond
  · rcases eq_cons_of_token hfirst with ⟨htokens, ht⟩
    exact ⟨t, htokens, Or.inl ht, rfl⟩
  · rcases eq_cons_of_token hsecond with ⟨htokens, ht⟩
    exact ⟨t, htokens, Or.inr ht, rfl⟩

theorem Reads.link {operand : Level} {p : Parser ReferenceType Expr}
    (hp : Reads bound fuel operand p)
    {j k : Kind} {rest : List Token} {link : Kind × Expr}
    (h : RepliesIn (rules bound) fuel ((operator j k).pair p) tokens (.ok rest link)) :
    exists op : Token, exists back : List Token, tokens = op :: back ++ rest ∧
      (op.kind = j ∨ op.kind = k) ∧ link.1 = op.kind ∧
        Derives (Number bound) operand back link.2 := by
  rcases h.bind_ok with ⟨behind, k', hoperator, hmap⟩
  rcases hmap.bind_ok with ⟨rest', e, hoperand, hpure⟩
  cases hpure.prim
  rcases eq_cons_of_operator hoperator with ⟨op, rfl, hop, rfl⟩
  rcases hp behind _ e hoperand with ⟨back, rfl, hderives⟩
  exact ⟨op, back, rfl, hop, rfl, hderives⟩

theorem Reads.links {operand chain : Level} {j k : Kind} (hchains : Chains bound operand chain j k)
    {p : Parser ReferenceType Expr} (hp : Reads bound fuel operand p) {rest : List Token}
    {more : List (Kind × Expr)}
    (h : RepliesIn (rules bound) fuel (Grammar.links p j k) tokens (.ok rest more)) :
    exists back : List Token, tokens = back ++ rest ∧
      forall (front : List Token) (left : Expr), Derives (Number bound) chain front left ->
        Derives (Number bound) chain (front ++ back) (Expr.chain left more) := by
  rcases RepliesIn.many h with ⟨_, _, heq, hrepeats⟩
  cases heq
  clear h
  induction hrepeats with
  | fails | idles =>
      refine ⟨[], rfl, fun front left hleft => ?_⟩
      rw [List.append_nil, Expr.chain_nil]
      exact hleft
  | @reads tokens middle rest link more hlink _ _ ih =>
      rcases hp.link hlink with ⟨op, first, rfl, hop, hkind, hfirst⟩
      rcases ih with ⟨back, rfl, hextends⟩
      refine ⟨op :: first ++ back, by simp, fun front left hleft => ?_⟩
      have hall := hextends _ _ (hchains.link hop hleft hfirst)
      rw [List.append_assoc, <- hkind] at hall
      rw [Expr.chain_cons]
      exact hall

theorem Reads.leftChain {operand chain : Level} {j k : Kind}
    (hchains : Chains bound operand chain j k)
    {p : Parser ReferenceType Expr} (hp : Reads bound fuel operand p) :
    Reads bound fuel chain (Grammar.leftChain p j k) := by
  intro tokens rest e h
  rcases h.bind_ok with ⟨behind, first, hfirst, hmap⟩
  rcases hmap.bind_ok with ⟨rest', more, hmore, hpure⟩
  cases hpure.prim
  rcases hp tokens behind first hfirst with ⟨front, rfl, hderives⟩
  rcases hp.links hchains hmore with ⟨back, rfl, hextends⟩
  exact ⟨front ++ back, by simp, hextends front first (hchains.lift hderives)⟩

/-!
# The levels of the grammar
-/

theorem Reads.term (hnested : Reads bound fuel .expr nested) :
    Reads bound fuel .term (Grammar.term bound nested) :=
  hnested.factor.leftChain chains_term

theorem Reads.expr (hnested : Reads bound fuel .expr nested) :
    Reads bound fuel .expr (Grammar.expr bound nested) :=
  hnested.term.leftChain chains_expr

theorem reads_nested (fuel : Nat) : Reads bound fuel .expr nested := by
  induction fuel with
  | zero =>
      intro tokens rest e h
      cases h
  | succ fuel ih =>
      intro tokens rest e h
      rcases RepliesIn.rule h with ⟨less, hless, hexpr⟩
      obtain rfl := Nat.succ.inj hless
      exact ih.expr tokens rest e hexpr

theorem derives_of_replies_program {rest : List Token} {root : Expr}
    (h : Replies (rules bound) (program bound nested) tokens (.ok rest root)) :
    Derives (Number bound) .expr tokens root := by
  rcases replies_iff_result.mp h with ⟨fuel, hfuel⟩
  rcases RepliesIn.bind_ok hfuel with ⟨behind, e, hexpr, hend⟩
  rcases (reads_nested fuel).expr tokens behind e hexpr with ⟨front, rfl, hderives⟩
  rcases hend.bind_ok with ⟨_, _, heof, hpure⟩
  cases hpure.prim
  cases behind with
  | nil =>
      rw [List.append_nil]
      exact hderives
  | cons t behind => cases heof.prim

theorem derives_of_parse {root : Expr} (h : parse bound tokens = .done (.ok root)) :
    Derives (Number bound) .expr tokens root := by
  unfold parse at h
  cases hreply : reply bound (program bound nested) tokens with
  | done r =>
      rw [hreply] at h
      cases r with
      | ok rest root' =>
          cases h
          exact derives_of_replies_program ⟨_, hreply⟩
      | fail failure => cases h
  | raised fault =>
      rw [hreply] at h
      cases h
  | unfinished =>
      rw [hreply] at h
      cases h

theorem parse_eq_ok_iff_derives {root : Expr} :
    parse bound tokens = .done (.ok root) <-> Derives (Number bound) .expr tokens root := by
  constructor
  · intro h
    exact derives_of_parse h
  · intro h
    exact parse_of_replies (replies_before h.replies replies_eof)

end Grammar
end Reckon
