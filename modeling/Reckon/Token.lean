import Reckon.Kind
import Reckon.Text.Quoted

/-!
# Tokens

A token is a kind together with the text that it was read from.  Nothing ties
the two together: the lexer produces tokens whose text fits their kind, while a
parser accepts any.
-/

namespace Reckon

structure Token where
  kind : Kind
  text : String
deriving DecidableEq

namespace Token

def describe (t : Token) : String :=
  "Token(" ++ t.kind.name ++ ", " ++ Text.quoted t.text ++ ")"

def texts (tokens : List Token) : String :=
  String.join (tokens.map Token.text)

theorem toList_texts (tokens : List Token) :
    (texts tokens).toList = tokens.flatMap fun t => t.text.toList := by
  simp [texts, String.toList_join, List.flatMap_map]

end Token
end Reckon
