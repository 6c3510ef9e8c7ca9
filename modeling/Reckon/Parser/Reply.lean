import Reckon.Token

/-!
# Replies of parsers

A parser either hands back the tokens that it left together with a value, or it
fails.  A failure keeps the tokens that could not be consumed and, after an
abandoned choice, the tokens where the deepest of the abandoned alternatives got
stuck.  The latter only serves the error report.
-/

namespace Reckon

structure Failure where
  rest : List Token
  farthest : Option (List Token) := none
deriving DecidableEq

def Failure.deepest (f : Failure) : List Token :=
  f.farthest.getD f.rest

inductive Reply (result : Type) where
  | ok (rest : List Token) (value : result)
  | fail (failure : Failure)

namespace Reply

def map {a b : Type} (f : a -> b) : Reply a -> Reply b
  | ok rest value => ok rest (f value)
  | fail failure => fail failure

end Reply

/-!
# Reports
-/

structure ParseError where
  rest : List Token
  message : String
deriving DecidableEq

namespace ParseError

def standardMessage (rest : List Token) : String :=
  if rest = [] then "unexpected end of input"
  else "unexpected `" ++ Token.texts rest ++ "`"

def make (rest : List Token) (message : String) : ParseError where
  rest := rest
  message := if message = "" then standardMessage rest else message

def describe (e : ParseError) : String :=
  "Parse error: " ++ e.message

end ParseError

def Reply.report {result : Type} : Reply result -> Except ParseError result
  | ok _ value => .ok value
  | fail failure => .error (ParseError.make failure.deepest "")

end Reckon
