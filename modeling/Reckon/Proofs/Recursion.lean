import Reckon.Proofs.Calls
import Reckon.Proofs.Consumption

/-!
# Recursion makes progress

The grammar refers to itself in a factor only, behind an opening parenthesis, so what a
factor hands over to the rule of expressions is a shorter suffix of its own tokens, whatever
the rule does with them.  In the chains around it the tokens become fewer from operand to
operand, so that all calls of an expression are on shorter suffixes as well.
-/

namespace Reckon
namespace Grammar

open Reckon.Parser

variable {bound : DigitBound} {state : Type 1}

/-!
# Calls of the grammar
-/

section Calls

variable {call : (i : Reference) -> List Token -> Action Reference state (Reply (ReferenceType i))}
variable {limit : Nat} {P : Call Reference -> Prop} {tokens : List Token}

theorem makes_literal : Makes P call limit (Grammar.literal bound) tokens :=
  makes_bind (makes_token .num) fun _ _ _ => callsOnly_ofOutcome _

theorem makes_operator (j k : Kind) : Makes P call limit (operator j k) tokens :=
  makes_map (makes_orElse (makes_token j) (makes_token k)) Token.kind

theorem makes_factor : Makes (Shorter tokens) call limit (factor bound nested) tokens := by
  refine makes_orElse makes_literal (makes_bind ?_ fun _ _ _ => makes_map (makes_token _) _)
  refine makes_bind (makes_token .openParen) fun rest t hopening => makes_rule ?_
  rw [succeeds_token hopening]
  exact ⟨List.suffix_cons t rest, Nat.lt_succ_self _⟩

theorem eval_literal_fail {t : Token} (h : t.kind ≠ .num) :
    eval call limit (Grammar.literal bound) (t :: tokens) = pure (.fail ⟨t :: tokens, none⟩) := by
  rw [Grammar.literal, mapExcept, eval_bind, eval_token, pure_bind, tokenReply, if_neg h]

theorem state_closing (e : Expr) (s : state) :
    (eval call limit ((Parser.token .closeParen).map fun _ => e) tokens s).state = s := by
  rw [map, eval_bind, eval_token, pure_bind]
  cases tokenReply .closeParen tokens <;> rfl

theorem calls_factor_parens {opening : Token} (h : opening.kind = .openParen) (s : state) :
    calls call limit (factor bound nested) (opening :: tokens) s = [⟨.expr, tokens⟩] := by
  have hnum : opening.kind ≠ .num := by
    rw [h]
    decide
  have hopening : eval (noting call) limit
      ((Parser.token .openParen).andThen nested) (opening :: tokens) =
        noting call .expr tokens := by
    rw [andThen, eval_bind, eval_token, pure_bind, tokenReply, if_pos h]
    rfl
  have hparens (s : Noted Reference state) :
      (eval (noting call) limit (Parser.between (.token .openParen) (.token .closeParen) nested)
        (opening :: tokens) s).state = (noting call .expr tokens s).state := by
    rw [between, before, eval_bind, hopening]
    refine state_bind_of_quiet (fun reply after => ?_) s
    cases reply with
    | fail failure => rfl
    | ok us e => exact state_closing e after
  unfold calls factor
  rw [eval, eval_literal_fail hnum, pure_bind]
  show ((eval (noting call) limit (Parser.between _ _ nested) _ >>= _) _).state.calls = _
  rw [state_bind_of_quiet (by intro reply after; cases reply <;> rfl), hparens]
  rfl

end Calls

section Chains

variable {fuel : Nat}

theorem makes_leftChain {operand : Parser ReferenceType Expr} (hcomposed : Composed operand)
    (hoperand : forall us : List Token,
      Makes (Shorter us) (callAfresh (rules bound) fuel) (fuel + 1) operand us)
    (j k : Kind) (tokens : List Token) :
    Makes (Shorter tokens) (callAfresh (rules bound) fuel) (fuel + 1)
      (leftChain operand j k) tokens := by
  have hlater (us : List Token) (hus : us <:+ tokens) :
      Makes (Shorter tokens) (callAfresh (rules bound) fuel) (fuel + 1) operand us :=
    CallsOnly.mono (hoperand us) fun c hc => hc.mono hus
  have hlink : Composed ((operator j k).pair operand) := (composed_operator j k).pair hcomposed
  refine makes_bind (hlater tokens List.suffix_rfl) fun middle first hfirst => makes_map ?_ _
  have hmiddle := suffix_of_succeeds composed_rules hcomposed hfirst
  refine makes_many (fun us hus => ?_) fun us rest link => suffix_of_succeeds composed_rules hlink
  refine makes_bind (makes_operator j k) fun rest op hop => makes_map (hlater rest ?_) _
  exact (suffix_of_succeeds composed_rules (composed_operator j k) hop).trans (hus.trans hmiddle)

end Chains

theorem Level.makes (level : Level) (fuel : Nat) (tokens : List Token) :
    Makes (Shorter tokens) (callAfresh (rules bound) fuel) (fuel + 1)
      (level.parser bound) tokens := by
  have hterm (us : List Token) :
      Makes (Shorter us) (callAfresh (rules bound) fuel) (fuel + 1)
        (Grammar.term bound nested) us :=
    makes_leftChain (Level.composed .factor) (fun _ => makes_factor) .star .slash us
  cases level with
  | factor => exact makes_factor
  | term => exact hterm tokens
  | expr => exact makes_leftChain (Level.composed .term) hterm .plus .minus tokens

def Reenters (bound : DigitBound) (us tokens : List Token) : Prop :=
  exists fuel : Nat,
    ⟨.expr, us⟩ ∈ calls (callAfresh (rules bound) fuel) (fuel + 1) (rules bound .expr) tokens ⟨⟩

theorem wellFounded_reenters : WellFounded (Reenters bound) := by
  refine Subrelation.wf ?_ (measure List.length).wf
  rintro us tokens ⟨fuel, hcall⟩
  exact ((Level.makes .expr fuel tokens).calls hcall).length_lt

theorem level_returns (level : Level) {tokens : List Token} (hreadable : Readable bound tokens) :
    exists r : Reply Expr, reply bound (level.parser bound) tokens = .done r := by
  rcases answers hreadable level with ⟨failure, hfail⟩ | ⟨front, rest, e, _, hok, _⟩
  · exact ⟨_, (reply_eq_done_iff (settlesOn_level level tokens)).mpr hfail⟩
  · exact ⟨_, (reply_eq_done_iff (settlesOn_level level tokens)).mpr hok⟩

/-- On tokens whose numbers can be read, a factor, a term and an expression come to an end,
whatever has been built before.  A factor calls the rule of expressions on a shorter suffix of
its tokens only, whatever the rule does, and behind an opening parenthesis it does call it, so
that reading expressions inside of expressions is well founded.  All three leave a shorter suffix
wherever they succeed.  One more round of a chain consumes at least two tokens, and its repetition
is the same without the test for progress. -/
theorem recursion_makes_progress {tokens : List Token} (hreadable : Readable bound tokens) :
    (forall level : Level, exists r : Reply Expr,
      reply bound (level.parser bound) tokens = .done r ∧
      forall cache : Cache ReferenceType, cache.Keeps (rules bound) ->
        (runCached (rules bound) (fuel tokens) (level.parser bound) tokens cache).outcome =
          .done r) ∧
    (forall {state : Type 1}
      (call : (i : Reference) -> List Token -> Action Reference state (Reply (ReferenceType i)))
      (limit : Nat) (us : List Token) (s : state),
        (forall c : Call Reference, c ∈ calls call limit (factor bound nested) us s ->
          c.tokens <:+ us ∧ c.tokens.length < us.length) ∧
        forall (opening : Token) (rest : List Token), us = opening :: rest ->
          opening.kind = .openParen ->
            calls call limit (factor bound nested) us s = [⟨.expr, rest⟩]) ∧
    WellFounded (Reenters bound) ∧
    (forall (level : Level) (us rest : List Token) (e : Expr),
      Replies (rules bound) (level.parser bound) us (.ok rest e) ->
        rest <:+ us ∧ rest.length < us.length) ∧
    forall (level : Level) (j k : Kind),
      (forall (us rest : List Token) (link : Kind × Expr),
        Replies (rules bound) ((operator j k).pair (level.parser bound)) us (.ok rest link) ->
          rest <:+ us ∧ rest.length + 2 ≤ us.length) ∧
      forall (enough : Nat) (us : List Token),
        evalWith (rules bound) enough (.many ((operator j k).pair (level.parser bound))) us =
          unguarded (evalWith (rules bound) enough ((operator j k).pair (level.parser bound)))
            (enough + 1) us := by
  refine ⟨fun level => ?returns, fun call limit us s => ⟨fun c hcall => ?shorter, ?entered⟩,
    wellFounded_reenters, fun level us rest e hreply => ?consumes,
    fun level j k => ⟨?link, ?repetition⟩⟩
  case returns =>
      rcases level_returns level hreadable with ⟨r, hr⟩
      exact ⟨r, hr, fun cache hcache => (outcome_runCached hcache _ _ _).trans hr⟩
  case shorter =>
      rcases makes_factor.calls hcall with ⟨hsuffix, hlength⟩
      exact ⟨hsuffix, hlength⟩
  case entered =>
      rintro opening rest rfl hopening
      exact calls_factor_parens hopening s
  case consumes => exact level.consumes us rest e hreply
  case link => exact level.consumes_link j k
  case repetition => exact fun enough us => (level.consumes_link j k).eval_many enough us

theorem recursion_makes_progress_unclosed :
    Readable .standard [⟨.openParen, "("⟩, ⟨.num, "1"⟩] ∧
      (exists r : Reply Expr,
        reply .standard (Level.factor.parser .standard)
          [⟨.openParen, "("⟩, ⟨.num, "1"⟩] = .done r) ∧
      calls (callAfresh (rules .standard) 3) 4 (factor .standard nested)
        [⟨.openParen, "("⟩, ⟨.num, "1"⟩] ⟨⟩ =
        [⟨.expr, [⟨.num, "1"⟩]⟩] ∧
      Replies (rules .standard) (Level.expr.parser .standard) [⟨.num, "1"⟩]
        (.ok [] (.literal .num 1 "1")) ∧
      ([] : List Token).length < [(⟨.num, "1"⟩ : Token)].length := by
  have hreadable : Readable .standard [⟨.openParen, "("⟩, ⟨.num, "1"⟩] := by
    intro t ht hnum
    rcases List.mem_cons.mp ht with rfl | ht
    · cases hnum
    · rw [List.mem_singleton.mp ht]
      exact ⟨1, rfl⟩
  have hnumber : Derives (Number .standard) .factor [⟨.num, "1"⟩] (.literal .num 1 "1") :=
    Derives.operand (Number.mk rfl rfl)
  have hone : Replies (rules .standard) (Level.expr.parser .standard) [⟨.num, "1"⟩]
      (.ok [] (.literal .num 1 "1")) :=
    (Derives.term (Derives.factor hnumber)).replies
  rcases recursion_makes_progress hreadable with ⟨hreturns, hcalls, _, hconsumes, _⟩
  rcases hreturns .factor with ⟨r, hr, _⟩
  exact ⟨hreadable, ⟨r, hr⟩, (hcalls _ _ _ _).right _ _ rfl rfl, hone,
    (hconsumes .expr _ _ _ hone).right⟩

end Grammar
end Reckon
