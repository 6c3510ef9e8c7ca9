import Reckon.Token.Lexer

/-!
# Lexers in use

A caller takes one step after the other with a lexer.  Each time the tokens are asked
for, the caller is handed a list of their own, and may empty this list at any later
time.
-/

namespace Reckon
namespace Lexer

def Answer.handed : Answer -> List (List Token)
  | .tokens ts => [ts]
  | _ => []

/-- A lexer, and the lists handed out by it so far, the oldest first. -/
structure Session where
  lexer : Lexer
  handed : List (List Token) := []

/-- What a caller does next: a step with the lexer, or emptying a list they were handed. -/
inductive Move where
  | perform (step : Step)
  | empty (i : Nat)

namespace Move

def code? : Move -> Option String
  | perform (.setCode code) => some code
  | _ => none

def lang? : Move -> Option Language
  | perform (.setLang lang) => some lang
  | _ => none

end Move

namespace Session

def play (s : Session) : Move -> Session
  | .perform step =>
      let performed := s.lexer.perform step
      { lexer := performed.1, handed := s.handed ++ performed.2.handed }
  | .empty i => { s with handed := s.handed.set i [] }

def after (s : Session) (moves : List Move) : Session :=
  moves.foldl play s

def lastCode (s : Session) (moves : List Move) : String :=
  (moves.filterMap Move.code?).getLast?.getD s.lexer.code

def lastLang (s : Session) (moves : List Move) : Language :=
  (moves.filterMap Move.lang?).getLast?.getD s.lexer.lang

end Session
end Lexer
end Reckon
