import Reckon.Proofs.Suffixes

/-!
# How much is consumed

A parser consumes at least as many tokens as its parts do together, or as the alternative
that consumes fewer.  In the grammar every operand consumes a token, so a chain goes on by
two tokens at a time, an operator and an operand, and its repetition never has to ask
whether a round consumed something.
-/

namespace Reckon
namespace Parser

variable {ι : Type} {τ : ι -> Type} {state : Type 1} {a b : Type}
variable {rules : (i : ι) -> Parser τ (τ i)}

open Reckon.Action

/-!
# Consumed tokens
-/

/-- A parser leaves suffixes, and consumes some tokens at least wherever it succeeds. -/
def Consumes (rules : (i : ι) -> Parser τ (τ i)) (n : Nat) (p : Parser τ a) : Prop :=
  forall (tokens rest : List Token) (value : a), Replies rules p tokens (.ok rest value) ->
    rest <:+ tokens ∧ rest.length + n ≤ tokens.length

theorem Composed.consumes (hrules : forall i : ι, Composed (rules i)) {p : Parser τ a}
    (h : Composed p) : Consumes rules 0 p := by
  intro tokens rest value hreply
  have hsuffix := (h.disciplined hrules tokens _ hreply).suffix
  exact ⟨hsuffix, hsuffix.length_le⟩

theorem Consumes.mono {m n : Nat} {p : Parser τ a} (h : Consumes rules n p) (hle : m ≤ n) :
    Consumes rules m p := by
  intro tokens rest value hreply
  rcases h tokens rest value hreply with ⟨hsuffix, hlength⟩
  exact ⟨hsuffix, by omega⟩

theorem consumes_token (k : Kind) : Consumes rules 1 (.token k) := by
  intro tokens rest t hreply
  rcases replies_iff_result.mp hreply with ⟨fuel, hfuel⟩
  rw [(eq_cons_of_token hfuel).left]
  exact ⟨List.suffix_cons t rest, Nat.le_refl _⟩

theorem Consumes.bind {m n : Nat} {p : Parser τ a} {next : a -> Parser τ b}
    (hp : Consumes rules m p) (hnext : forall value : a, Consumes rules n (next value)) :
    Consumes rules (m + n) (.bind p next) := by
  intro tokens rest value hreply
  rcases replies_iff_result.mp hreply with ⟨fuel, hfuel⟩
  rcases RepliesIn.bind_ok hfuel with ⟨middle, first, hfirst, hsecond⟩
  rcases hp tokens middle first hfirst.replies with ⟨hmiddle, hm⟩
  rcases hnext first middle rest value hsecond.replies with ⟨hrest, hn⟩
  exact ⟨hrest.trans hmiddle, by omega⟩

theorem consumes_result (x : Except NotInteger a) :
    Consumes rules 0 (.prim fun tokens => x.map fun value => .ok tokens value) := by
  intro tokens rest value hreply
  rcases replies_iff_result.mp hreply with ⟨fuel, hfuel⟩
  have hsuffix := (withinFor_result fuel x tokens _ hfuel).suffix
  exact ⟨hsuffix, hsuffix.length_le⟩

theorem Consumes.map {n : Nat} {p : Parser τ a} (h : Consumes rules n p) (f : a -> b) :
    Consumes rules n (p.map f) :=
  h.bind fun value => consumes_result (.ok (f value))

theorem Consumes.pair {m n : Nat} {p : Parser τ a} {q : Parser τ b} (hp : Consumes rules m p)
    (hq : Consumes rules n q) : Consumes rules (m + n) (p.pair q) :=
  hp.bind fun x => hq.map fun y => (x, y)

theorem Consumes.orElse {n : Nat} {p q : Parser τ a} (hp : Consumes rules n p)
    (hq : Consumes rules n q) : Consumes rules n (.orElse p q) := by
  intro tokens rest value hreply
  rcases replies_iff_result.mp hreply with ⟨fuel, hfuel⟩
  rcases RepliesIn.orElse_ok hfuel with hfirst | hsecond
  · exact hp tokens rest value hfirst.replies
  · exact hq tokens rest value hsecond.replies

/-!
# Repetition without a test
-/

def unguarded (step : List Token -> Action ι state (Reply a)) :
    Nat -> List Token -> Action ι state (Reply (List a))
  | 0, _ => Action.unfinished
  | limit + 1, tokens => do
      match <- step tokens with
      | .fail _ => return .ok tokens []
      | .ok rest value =>
          let reply <- unguarded step limit rest
          return reply.map fun values => value :: values

theorem bind_congr_of_outcome {x : Action ι state a} {f g : a -> Action ι state b}
    (h : forall (s : state) (value : a), (x s).outcome = .done value -> f value = g value) :
    x >>= f = x >>= g := by
  funext s
  rcases hx : x s with ⟨outcome, events, after⟩
  cases outcome with
  | done value => rw [bind_of_done f hx, bind_of_done g hx, h s value (by rw [hx])]
  | raised fault => rw [bind_of_raised f hx, bind_of_raised g hx]
  | unfinished => rw [bind_of_unfinished f hx, bind_of_unfinished g hx]

theorem repeated_eq_unguarded {step : List Token -> Action ι state (Reply a)}
    (hstep : forall (us rest : List Token) (value : a) (s : state),
      (step us s).outcome = .done (.ok rest value) -> rest.length ≠ us.length)
    (limit : Nat) (tokens : List Token) :
    repeated step limit tokens = unguarded step limit tokens := by
  induction limit generalizing tokens with
  | zero => rfl
  | succ limit ih =>
      refine bind_congr_of_outcome fun s reply hreply => ?_
      cases reply with
      | fail failure => rfl
      | ok rest value =>
          dsimp only
          rw [if_neg (hstep tokens rest value s hreply), ih rest]

theorem Consumes.eval_many {n : Nat} {p : Parser τ a} (h : Consumes rules (n + 1) p) (fuel : Nat)
    (tokens : List Token) :
    evalWith rules fuel (.many p) tokens =
      unguarded (evalWith rules fuel p) (fuel + 1) tokens := by
  refine repeated_eq_unguarded (fun us rest value s hreply => ?_) (fuel + 1) tokens
  have hconsumed := (h us rest value ⟨fuel, hreply⟩).right
  omega

end Parser

namespace Grammar

open Reckon.Parser

variable {bound : DigitBound}

/-!
# Consumption in the grammar
-/

theorem consumes_factor : Consumes (rules bound) 1 (factor bound nested) := by
  have hnested : Consumes (rules bound) 0 nested :=
    (Composed.rule Reference.expr).consumes composed_rules
  have hliteral : Consumes (rules bound) 1 (Grammar.literal bound) :=
    (consumes_token .num).bind fun t => consumes_result _
  have hparens : Consumes (rules bound) (1 + 0 + 1) parens :=
    ((consumes_token .openParen).bind fun _ => hnested).bind fun e =>
      (consumes_token .closeParen).map fun _ => e
  exact hliteral.orElse (hparens.mono (by omega))

theorem consumes_operator (j k : Kind) : Consumes (rules bound) 1 (operator j k) :=
  ((consumes_token j).orElse (consumes_token k)).map Token.kind

theorem consumes_leftChain {operand : Parser ReferenceType Expr} (hcomposed : Composed operand)
    (h : Consumes (rules bound) 1 operand) (j k : Kind) :
      Consumes (rules bound) 1 (leftChain operand j k) := by
  have hlinks : Consumes (rules bound) 0 (.many ((operator j k).pair operand)) :=
    ((composed_operator j k).pair hcomposed).many.consumes composed_rules
  exact h.bind fun first => hlinks.map (Expr.chain first)

theorem Level.composed (level : Level) : Composed (level.parser bound) := by
  have hfactor : Composed (Grammar.factor bound nested) :=
    composed_factor (Composed.rule Reference.expr)
  cases level with
  | factor => exact hfactor
  | term => exact composed_leftChain hfactor .star .slash
  | expr => exact composed_rules .expr

theorem Level.consumes (level : Level) : Consumes (rules bound) 1 (level.parser bound) := by
  have hterm : Consumes (rules bound) 1 (Grammar.term bound nested) :=
    consumes_leftChain (Level.composed .factor) consumes_factor .star .slash
  cases level with
  | factor => exact consumes_factor
  | term => exact hterm
  | expr => exact consumes_leftChain (Level.composed .term) hterm .plus .minus

theorem Level.consumes_link (level : Level) (j k : Kind) :
    Consumes (rules bound) 2 ((operator j k).pair (level.parser bound)) :=
  (consumes_operator j k).pair level.consumes

end Grammar
end Reckon
