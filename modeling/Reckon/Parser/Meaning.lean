import Reckon.Parser.Evaluation

/-!
# What parsers reply

Statements about parsers speak of the reply that a parser gives once it has
enough fuel.  Two replies have the same result if they succeed alike or report
their failure at the same place; this is all that a report shows of them.
-/

namespace Reckon

namespace Reply

/-- Equal successes, or failures that are reported at the same place. -/
inductive SameResult {a : Type} : Reply a -> Reply a -> Prop where
  | ok (rest : List Token) (value : a) : SameResult (ok rest value) (ok rest value)
  | fail {first second : Failure} :
      first.deepest = second.deepest -> SameResult (fail first) (fail second)

theorem SameResult.refl {a : Type} (r : Reply a) : SameResult r r := by
  cases r with
  | ok rest value => exact SameResult.ok rest value
  | fail failure => exact SameResult.fail (Eq.refl _)

theorem SameResult.symm {a : Type} {r s : Reply a} (h : SameResult r s) : SameResult s r := by
  cases h with
  | ok rest value => exact SameResult.ok rest value
  | fail hdeepest => exact SameResult.fail hdeepest.symm

theorem SameResult.report_eq {a : Type} {r s : Reply a} (h : SameResult r s) :
    r.report = s.report := by
  cases h with
  | ok rest value => rfl
  | fail hdeepest => simp only [report, hdeepest]

/-- The suffix discipline: whatever a reply leaves is a suffix of the tokens, and
a failure's alternatives got stuck no earlier than the failure itself. -/
inductive Within {a : Type} (tokens : List Token) : Reply a -> Prop where
  | ok {rest : List Token} {value : a} : rest <:+ tokens -> Within tokens (ok rest value)
  | fail {failure : Failure} :
      failure.rest <:+ tokens -> failure.deepest <:+ failure.rest ->
      Within tokens (fail failure)

theorem Within.mono {a : Type} {tokens more : List Token} {r : Reply a}
    (h : Within tokens r) (hsuffix : tokens <:+ more) : Within more r := by
  cases h with
  | ok hrest => exact Within.ok (hrest.trans hsuffix)
  | fail hrest hdeepest => exact Within.fail (hrest.trans hsuffix) hdeepest

end Reply

namespace Parser

variable {ι : Type} {τ : ι -> Type} {a : Type}

/-- A parser replies to some tokens, if it is given enough fuel. -/
def Replies (rules : (i : ι) -> Parser τ (τ i)) (p : Parser τ a) (tokens : List Token)
    (r : Reply a) : Prop :=
  exists fuel : Nat, (p.runAfresh rules fuel tokens).outcome = .done r

def Returns (rules : (i : ι) -> Parser τ (τ i)) (p : Parser τ a) (tokens : List Token) : Prop :=
  exists r : Reply a, Replies rules p tokens r

def Disciplined (rules : (i : ι) -> Parser τ (τ i)) (p : Parser τ a) : Prop :=
  forall tokens : List Token, forall r : Reply a, Replies rules p tokens r -> r.Within tokens

end Parser
end Reckon
