import Reckon.Language

/-!
# The automaton behind the lexer

Five states say what the characters read since the last separator can still
become.  Operators and blanks lead to the same state from everywhere, a digit
extends a number or starts one, and after a leading zero no digit may follow.
-/

namespace Reckon
namespace Automaton

inductive State where
  | error
  | start
  | operator
  | zero
  | number
deriving DecidableEq

namespace State

def accepting : State -> Bool
  | operator | zero | number => true
  | error | start => false

def next : State -> Language.CharClass -> State
  | error, _ => error
  | _, .operator => operator
  | _, .blank => start
  | zero, .zero => error
  | zero, .nonzero => error
  | number, .zero => number
  | number, .nonzero => number
  | _, .zero => zero
  | _, .nonzero => number
  | _, .other => error

end State

def transition (lang : Language) (q : State) (chunk : String) : State :=
  q.next (lang.chunkClass chunk)

@[simp] theorem transition_singleton (lang : Language) (q : State) (c : Char) :
    transition lang q (String.singleton c) = q.next (lang.classOf c) := by
  rw [transition, Language.chunkClass_singleton]

end Automaton
end Reckon
