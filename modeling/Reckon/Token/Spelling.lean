import Reckon.Language
import Reckon.Text.Numeral
import Reckon.Token

/-!
# Spellings

How tokens are written in a language, said without any automaton.  An operator is
written as its symbol, and a number as plain digits none of which is a blank.
A text spells a list of tokens if it consists of their writings with blanks before,
between and behind them, where two numbers have at least one blank between them.
-/

namespace Reckon
namespace Token

inductive Written (lang : Language) : Token -> Prop where
  | operator {c : Char} {k : Kind} :
      lang.isOperator c = true -> Kind.ofChar? c = some k ->
      Written lang ⟨k, String.singleton c⟩
  | number {text : String} :
      Numeral.IsPlain text.toList -> (forall c : Char, c ∈ text.toList -> lang.isBlank c = false) ->
      Written lang ⟨.num, text⟩

def IsGap (lang : Language) (gap : List Char) : Prop :=
  forall c : Char, c ∈ gap -> lang.isBlank c = true

/-- Two tokens that run together unless something separates them. -/
def RunTogether (t : Token) : List Token -> Prop
  | [] => False
  | u :: _ => t.kind = .num ∧ u.kind = .num

/-- Characters that consist of the writings of some tokens and of blanks. -/
inductive Spells (lang : Language) : List Char -> List Token -> Prop where
  | done {gap : List Char} : IsGap lang gap -> Spells lang gap []
  | token {gap more : List Char} {t : Token} {rest : List Token} :
      IsGap lang gap -> Written lang t -> Spells lang more rest ->
      (RunTogether t rest -> exists c : Char, more.head? = some c ∧ lang.isBlank c = true) ->
      Spells lang (gap ++ t.text.toList ++ more) (t :: rest)

end Token
end Reckon
