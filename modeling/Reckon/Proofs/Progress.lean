import Reckon.Grammar
import Reckon.Proofs.Replies

/-!
# The grammar needs no more fuel than tokens

A parser settles on some tokens if it comes to an end there and gives back no
more than it was given.  Settling passes from the parts of a parser to the whole,
where the parts that follow need to settle only on what is left for them.  In the
grammar every reference to the expression stands behind a parenthesis, so one
unit of fuel for each token is enough, whatever the texts of the tokens are.
-/

namespace Reckon
namespace Parser

variable {ι : Type} {τ : ι -> Type} {a b : Type}
variable {call : (i : ι) -> List Token -> Action ι PUnit (Reply (τ i))} {limit : Nat}

open Reckon.Action

/-!
# Settled outcomes
-/

def Settles (x : Outcome (Reply a)) (length : Nat) : Prop :=
  x ≠ .unfinished ∧ forall rest : List Token, forall value : a,
    x = .done (.ok rest value) -> rest.length ≤ length

theorem settles_raised (fault : NotInteger) (length : Nat) :
    Settles (.raised fault : Outcome (Reply a)) length := by
  constructor
  · intro h
    cases h
  · intro rest value h
    cases h

theorem settles_fail (failure : Failure) (length : Nat) :
    Settles (.done (.fail failure) : Outcome (Reply a)) length := by
  constructor
  · intro h
    cases h
  · intro rest value h
    cases h

theorem settles_ok {rest : List Token} {length : Nat} (h : rest.length ≤ length) (value : a) :
    Settles (.done (.ok rest value)) length := by
  constructor
  · intro hunfinished
    cases hunfinished
  · intro rest' value' hdone
    cases hdone
    exact h

theorem Settles.bind {x : Outcome (Reply a)} {next : Reply a -> Outcome (Reply b)}
    {length length' : Nat} (h : Settles x length)
    (hfail : forall failure : Failure, Settles (next (.fail failure)) length')
    (hok : forall rest : List Token, forall value : a, x = .done (.ok rest value) ->
      rest.length ≤ length -> Settles (next (.ok rest value)) length') :
    Settles (x.bind next) length' := by
  cases x with
  | done reply =>
      cases reply with
      | fail failure => exact hfail failure
      | ok rest value => exact hok rest value rfl (h.right rest value rfl)
  | raised fault => exact settles_raised fault length'
  | unfinished => exact absurd rfl h.left

theorem Settles.mono {x : Outcome (Reply a)} {length length' : Nat} (h : Settles x length)
    (hle : length ≤ length') : Settles x length' := by
  constructor
  · exact h.left
  · intro rest value hdone
    exact Nat.le_trans (h.right rest value hdone) hle

/-!
# Settling of composed parsers
-/

def SettlesOn (call : (i : ι) -> List Token -> Action ι PUnit (Reply (τ i))) (limit : Nat)
    (p : Parser τ a) (tokens : List Token) : Prop :=
  Settles (eval call limit p tokens).result tokens.length

theorem settlesOn_pure (value : a) (tokens : List Token) :
    SettlesOn call limit (Parser.pure value) tokens :=
  settles_ok (Nat.le_refl _) value

theorem settlesOn_judge {p : Parser τ a} {accept : a -> Except NotInteger Bool}
    {tokens : List Token} (h : SettlesOn call limit p tokens) :
    SettlesOn call limit (.judge p accept) tokens := by
  rw [SettlesOn, result_judge]
  refine Settles.bind h (fun _ => settles_fail _ _) fun rest value _ hle => ?_
  dsimp only
  cases accept value with
  | error fault => exact settles_raised fault _
  | ok accepted =>
      cases accepted with
      | false => exact settles_fail _ _
      | true => exact settles_ok hle value

theorem settlesOn_bind {p : Parser τ a} {next : a -> Parser τ b} {tokens : List Token}
    (h : SettlesOn call limit p tokens)
    (hnext : forall rest : List Token, forall value : a,
      (eval call limit p tokens).result = .done (.ok rest value) ->
        SettlesOn call limit (next value) rest) :
    SettlesOn call limit (.bind p next) tokens := by
  rw [SettlesOn, result_eval_bind]
  refine Settles.bind h (fun failure => settles_fail failure _) fun rest value hresult hle => ?_
  exact Settles.mono (hnext rest value hresult) hle

theorem settlesOn_orElse {p q : Parser τ a} {tokens : List Token}
    (hp : SettlesOn call limit p tokens) (hq : SettlesOn call limit q tokens) :
    SettlesOn call limit (.orElse p q) tokens := by
  rw [SettlesOn, result_orElse]
  refine Settles.bind hp (fun first => ?_) fun rest value _ hle => settles_ok hle value
  exact Settles.bind hq (fun second => settles_fail _ _) fun rest value _ hle =>
    settles_ok hle value

theorem repeated_settles {step : List Token -> Action ι PUnit (Reply a)} {tokens : List Token}
    (hlimit : tokens.length < limit)
    (hstep : forall us : List Token, us.length ≤ tokens.length ->
      Settles (step us).result us.length) :
    Settles (repeated step limit tokens).result tokens.length := by
  induction limit generalizing tokens with
  | zero => omega
  | succ limit ih =>
      rw [result_repeated]
      refine Settles.bind (hstep tokens (Nat.le_refl _)) ?_ ?_
      · intro failure
        exact settles_ok (Nat.le_refl _) []
      · intro rest value _ hle
        dsimp only
        by_cases hsame : rest.length = tokens.length
        · rw [if_pos hsame]
          exact settles_ok (Nat.le_refl _) []
        · rw [if_neg hsame]
          have hmore : Settles (repeated step limit rest).result rest.length :=
            ih (by omega) fun us hus => hstep us (Nat.le_trans hus hle)
          refine Settles.bind (hmore.mono hle) (fun failure => settles_fail failure _) ?_
          intro rest' values _ hle'
          exact settles_ok hle' (value :: values)

theorem settlesOn_many {p : Parser τ a} {tokens : List Token} (hlimit : tokens.length < limit)
    (hp : forall us : List Token, us.length ≤ tokens.length -> SettlesOn call limit p us) :
    SettlesOn call limit (.many p) tokens := by
  rw [SettlesOn, eval_many]
  exact repeated_settles hlimit hp

theorem settlesOn_map {p : Parser τ a} (f : a -> b) {tokens : List Token}
    (h : SettlesOn call limit p tokens) : SettlesOn call limit (p.map f) tokens :=
  settlesOn_bind h fun rest value _ => settlesOn_pure (f value) rest

theorem settlesOn_mapExcept {p : Parser τ a} (f : a -> Except NotInteger b)
    {tokens : List Token} (h : SettlesOn call limit p tokens) :
    SettlesOn call limit (p.mapExcept f) tokens := by
  refine settlesOn_bind h fun rest value _ => ?_
  rw [SettlesOn, eval_prim, result_ofOutcome]
  cases f value with
  | error fault => exact settles_raised fault _
  | ok value' => exact settles_ok (Nat.le_refl _) value'

/-!
# Settling of single tokens
-/

theorem settlesOn_atom (tokens : List Token) : SettlesOn call limit .atom tokens := by
  cases tokens with
  | nil => exact settles_fail _ _
  | cons t rest => exact settles_ok (Nat.le_succ _) t

theorem settlesOn_eof (tokens : List Token) : SettlesOn call limit .eof tokens := by
  cases tokens with
  | nil => exact settles_ok (Nat.le_refl _) ()
  | cons t rest => exact settles_fail _ _

theorem settlesOn_token (k : Kind) (tokens : List Token) :
    SettlesOn call limit (.token k) tokens :=
  settlesOn_judge (settlesOn_atom tokens)

theorem eq_cons_of_token {k : Kind} {tokens rest : List Token} {t : Token}
    (h : (eval call limit (.token k) tokens).result = .done (.ok rest t)) :
    tokens = t :: rest ∧ t.kind = k := by
  rw [eval_token] at h
  exact tokenReply_eq_ok (Outcome.done.inj h)

end Parser

namespace Grammar

open Reckon.Parser Reckon.Action

variable {bound : DigitBound} {ι : Type} {τ : ι -> Type}
variable {call : (i : ι) -> List Token -> Action ι PUnit (Reply (τ i))} {limit : Nat}

/-!
# Settling of the grammar
-/

theorem settlesOn_literal (tokens : List Token) :
    SettlesOn call limit (literal bound : Parser τ Expr) tokens :=
  settlesOn_mapExcept _ (settlesOn_token .num tokens)

theorem settlesOn_factor {nested : Parser τ Expr} {tokens : List Token}
    (hnested : forall us : List Token, us.length < tokens.length ->
      SettlesOn call limit nested us) :
    SettlesOn call limit (factor bound nested) tokens := by
  refine settlesOn_orElse (settlesOn_literal tokens) ?_
  refine settlesOn_bind ?_ fun rest _ _ => settlesOn_map _ (settlesOn_token .closeParen rest)
  refine settlesOn_bind (settlesOn_token .openParen tokens) fun us t hopen => ?_
  rw [(eq_cons_of_token hopen).left] at hnested
  exact hnested us (Nat.lt_succ_self _)

theorem settlesOn_leftChain {operand : Parser τ Expr} {tokens : List Token}
    (hlimit : tokens.length < limit) (j k : Kind)
    (hoperand : forall us : List Token, us.length ≤ tokens.length ->
      SettlesOn call limit operand us) :
    SettlesOn call limit (leftChain operand j k) tokens := by
  have hlink (us : List Token) (hus : us.length ≤ tokens.length) :
      SettlesOn call limit ((operator j k).pair operand) us := by
    have hoperator : SettlesOn call limit (operator j k : Parser τ Kind) us :=
      settlesOn_map _ (settlesOn_orElse (settlesOn_token j us) (settlesOn_token k us))
    refine settlesOn_bind hoperator fun vs op hop => ?_
    exact settlesOn_map _ (hoperand vs (Nat.le_trans (hoperator.right vs op hop) hus))
  have hfirst := hoperand tokens (Nat.le_refl _)
  refine settlesOn_bind hfirst fun us first hresult => ?_
  have hle := hfirst.right us first hresult
  refine settlesOn_map _ (settlesOn_many (Nat.lt_of_le_of_lt hle hlimit) fun vs hvs => ?_)
  exact hlink vs (Nat.le_trans hvs hle)

theorem settlesOn_expr {nested : Parser τ Expr} {tokens : List Token}
    (hlimit : tokens.length < limit)
    (hnested : forall us : List Token, us.length < tokens.length ->
      SettlesOn call limit nested us) :
    SettlesOn call limit (expr bound nested) tokens := by
  refine settlesOn_leftChain hlimit .plus .minus fun us hus => ?_
  refine settlesOn_leftChain (Nat.lt_of_le_of_lt hus hlimit) .star .slash fun vs hvs => ?_
  refine settlesOn_factor fun ws hws => hnested ws ?_
  exact Nat.lt_of_lt_of_le hws (Nat.le_trans hvs hus)

theorem settlesOn_nested {fuel limit : Nat} (tokens : List Token) (hfuel : tokens.length < fuel) :
    SettlesOn (callAfresh (rules bound) fuel) limit nested tokens := by
  induction fuel generalizing limit tokens with
  | zero => omega
  | succ fuel ih =>
      have hexpr : SettlesOn (callAfresh (rules bound) fuel) (fuel + 1)
          (expr bound nested) tokens :=
        settlesOn_expr hfuel fun us hus => ih us (by omega)
      rw [SettlesOn, nested, result_rule]
      exact hexpr

end Grammar
end Reckon
