import Reckon.Parser.Action
import Reckon.Parser.Composed

/-!
# Parsers with traced parts

Tracing is put into a parser by wrapping some of its parts, however deep they lie and
however many they are, also parts of what was wrapped already.  The relation below goes
along the ways in which a parser is composed, so that the parts of a composed parser
are those that its combinators were given.
-/

namespace Reckon
namespace Parser

variable {ι : Type} {τ : ι -> Type}

/-- A composed parser, and the same parser with tracing put around some of its parts. -/
inductive Instrumented : {a : Type} -> Parser τ a -> Parser τ a -> Prop where
  | around {a : Type} {p p' : Parser τ a} (label : String) :
      Instrumented p p' -> Instrumented p (traced label p')
  | pure {a : Type} (value : a) : Instrumented (Parser.pure value) (Parser.pure value)
  | fail {a : Type} : Instrumented (Parser.fail : Parser τ a) Parser.fail
  | atom : Instrumented Parser.atom Parser.atom
  | eof : Instrumented Parser.eof Parser.eof
  | trace (label : String) : Instrumented (.trace label) (.trace label)
  | judge {a : Type} {p p' : Parser τ a} (accept : a -> Except NotInteger Bool) :
      Instrumented p p' -> Instrumented (.judge p accept) (.judge p' accept)
  | many {a : Type} {p p' : Parser τ a} : Instrumented p p' -> Instrumented (.many p) (.many p')
  | mapExcept {a b : Type} {p p' : Parser τ a} (f : a -> Except NotInteger b) :
      Instrumented p p' -> Instrumented (p.mapExcept f) (p'.mapExcept f)
  | bind {a b : Type} {p p' : Parser τ a} {next next' : a -> Parser τ b} :
      Instrumented p p' -> (forall value : a, Instrumented (next value) (next' value)) ->
      Instrumented (.bind p next) (.bind p' next')
  | orElse {a : Type} {p p' q q' : Parser τ a} :
      Instrumented p p' -> Instrumented q q' -> Instrumented (.orElse p q) (.orElse p' q')
  | rule (i : ι) : Instrumented (.rule i) (.rule i)

def backtrackedLine (label : String) (tokens : List Token) {a : Type} : Reply a -> List (Event ι)
  | .ok _ _ => []
  | .fail _ => [.printed (traceLine (label ++ " backtracked") tokens)]

namespace Instrumented

variable {a b : Type} {p p' : Parser τ a} {q q' : Parser τ b}

theorem composed (h : Instrumented p p') : Composed p := by
  induction h with
  | around _ _ ih => exact ih
  | pure value => exact Composed.pure value
  | fail => exact Composed.fail
  | atom => exact Composed.atom
  | eof => exact Composed.eof
  | trace label => exact Composed.trace label
  | judge accept _ ih => exact ih.judge accept
  | many _ ih => exact ih.many
  | mapExcept f _ ih => exact ih.mapExcept f
  | bind _ _ ih ihnext => exact ih.bind ihnext
  | orElse _ _ ihp ihq => exact ihp.orElse ihq
  | rule i => exact Composed.rule i

theorem refl (h : Composed p) : Instrumented p p := by
  induction h with
  | pure value => exact pure value
  | fail => exact fail
  | atom => exact atom
  | eof => exact eof
  | trace label => exact trace label
  | judge accept _ ih => exact judge accept ih
  | many _ ih => exact many ih
  | mapExcept f _ ih => exact mapExcept f ih
  | bind _ _ ih ihnext => exact bind ih ihnext
  | orElse _ _ ihp ihq => exact orElse ihp ihq
  | rule i => exact rule i

/-!
# Derived combinators
-/

theorem map (hp : Instrumented p p') (f : a -> b) : Instrumented (p.map f) (p'.map f) :=
  bind hp fun x => pure (f x)

theorem pair (hp : Instrumented p p') (hq : Instrumented q q') :
    Instrumented (p.pair q) (p'.pair q') :=
  bind hp fun x => hq.map fun y => (x, y)

theorem before (hp : Instrumented p p') (hq : Instrumented q q') :
    Instrumented (p.before q) (p'.before q') :=
  bind hp fun x => hq.map fun _ => x

end Instrumented
end Parser
end Reckon
