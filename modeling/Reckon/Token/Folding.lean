import Reckon.Token

/-!
# Folding signs in a list of tokens

A sign directly before a number belongs to the number if nothing stands in front
of it, or a token after which an operand has to come.  The rule looks at
neighbours in the given list only, so all signs can be folded at once.
-/

namespace Reckon
namespace Token

def signed (sign number : Token) : Token where
  kind := .num
  text := if sign.kind = .minus then "-" ++ number.text else number.text

/-- Whether a sign behind a token of the given kind, or behind nothing, belongs
to a number. -/
def atOperand (before : Option Kind) : Bool :=
  before.all Kind.opensOperand

def foldSignsAfter (before : Option Kind) : List Token -> List Token
  | sign :: number :: rest =>
      if sign.kind.isSign && decide (number.kind = .num) && atOperand before then
        signed sign number :: foldSignsAfter (some .num) rest
      else
        sign :: foldSignsAfter (some sign.kind) (number :: rest)
  | tokens => tokens

def foldSigns (tokens : List Token) : List Token :=
  foldSignsAfter none tokens

/-!
# The rule at a position

What becomes of a token can be said of its position alone, by looking at the tokens
next to it, with no token treated before another one.
-/

/-- Whether an operand is due at a position: nothing stands in front of it, or a
token after which an operand has to come. -/
def operandAt (raw : List Token) : Nat -> Bool
  | 0 => true
  | i + 1 => raw[i]?.any fun t => t.kind.opensOperand

def foldsAt (raw : List Token) (i : Nat) : Bool :=
  raw[i]?.any (fun t => t.kind.isSign) && raw[i + 1]?.any (fun t => decide (t.kind = .num)) &&
    operandAt raw i

def takenAt (raw : List Token) : Nat -> Bool
  | 0 => false
  | i + 1 => foldsAt raw i

/-- What becomes of the token at a position.  A sign that is folded gives way to the
signed number, and the number leaves its own place. -/
def foldedAt (raw : List Token) (i : Nat) : Option Token :=
  if foldsAt raw i then
    raw[i]?.bind fun sign => raw[i + 1]?.map fun number => signed sign number
  else if takenAt raw i then none
  else raw[i]?

def foldAtOnce (raw : List Token) : List Token :=
  (List.range raw.length).filterMap (foldedAt raw)

end Token
end Reckon
