import Reckon.Parser.Composed
import Reckon.Parser.Meaning
import Reckon.Proofs.Caching
import Reckon.Proofs.ErrorPosition
import Reckon.Proofs.Inversion

/-!
# Replies leave suffixes

No composed parser loses, invents or reorders tokens: what it leaves is a suffix of
what it was given, and a failure is reported inside the tokens that it leaves.  For
each combinator the suffixes of its parts are put together; for rules, which may call
themselves, the induction is on the fuel, and for everything else on how the parser is
composed.
-/

namespace Reckon

namespace Reply

variable {a : Type} {tokens : List Token}

theorem within_fail_here : (fail ⟨tokens, none⟩ : Reply a).Within tokens :=
  Within.fail List.suffix_rfl List.suffix_rfl

theorem Within.suffix {rest : List Token} {value : a} (h : (Reply.ok rest value).Within tokens) :
    rest <:+ tokens := by
  cases h with
  | ok hrest => exact hrest

theorem Within.deepest_suffix {failure : Failure}
    (h : (Reply.fail failure : Reply a).Within tokens) : failure.deepest <:+ tokens := by
  cases h with
  | fail hrest hdeepest => exact hdeepest.trans hrest

theorem Within.failed {b : Type} {failure : Failure}
    (h : (Reply.fail failure : Reply a).Within tokens) :
    (Reply.fail failure : Reply b).Within tokens := by
  cases h with
  | fail hrest hdeepest => exact Within.fail hrest hdeepest

end Reply

namespace Parser

variable {ι : Type} {τ : ι -> Type} {a b : Type} {rules : (i : ι) -> Parser τ (τ i)}

open Reply

theorem shorter_suffix {xs ys tokens : List Token} (hxs : xs <:+ tokens) (hys : ys <:+ tokens) :
    shorter xs ys <:+ tokens := by
  unfold shorter
  split
  · exact hys
  · exact hxs

theorem Repeats.suffix {step : List Token -> Reply a -> Prop}
    (hstep : forall us : List Token, forall r : Reply a, step us r -> r.Within us)
    {tokens rest : List Token} {values : List a} (h : Repeats step tokens rest values) :
    rest <:+ tokens := by
  induction h with
  | fails => exact List.suffix_rfl
  | idles => exact List.suffix_rfl
  | reads hread _ _ ih => exact ih.trans (hstep _ _ hread).suffix

def WithinFor (rules : (i : ι) -> Parser τ (τ i)) (fuel : Nat) (p : Parser τ a) : Prop :=
  forall tokens : List Token, forall r : Reply a,
    RepliesIn rules fuel p tokens r -> r.Within tokens

/-!
# Primitives
-/

theorem withinFor_result (fuel : Nat) (x : Except NotInteger a) :
    WithinFor rules fuel (.prim fun tokens => x.map fun value => .ok tokens value) := by
  intro tokens r h
  have hreply := h.prim
  cases x with
  | error fault => cases hreply
  | ok value =>
      cases hreply
      exact Within.ok List.suffix_rfl

theorem withinFor_fail (fuel : Nat) : WithinFor rules fuel (Parser.fail : Parser τ a) := by
  intro tokens r h
  cases h.prim
  exact within_fail_here

theorem withinFor_atom (fuel : Nat) : WithinFor rules fuel .atom := by
  intro tokens r h
  cases tokens with
  | nil =>
      cases h.prim
      exact within_fail_here
  | cons t tokens =>
      cases h.prim
      exact Within.ok (List.suffix_cons t tokens)

theorem withinFor_eof (fuel : Nat) : WithinFor rules fuel .eof := by
  intro tokens r h
  cases tokens with
  | nil =>
      cases h.prim
      exact Within.ok List.suffix_rfl
  | cons t tokens =>
      cases h.prim
      exact within_fail_here

theorem withinFor_trace (fuel : Nat) (label : String) :
    WithinFor rules fuel (.trace label) := by
  intro tokens r h
  rw [h.trace]
  exact Within.ok List.suffix_rfl

/-!
# Combinators
-/

theorem WithinFor.judge {fuel : Nat} {p : Parser τ a} (hp : WithinFor rules fuel p)
    (accept : a -> Except NotInteger Bool) : WithinFor rules fuel (.judge p accept) := by
  intro tokens r h
  rcases h.judge with ⟨failure, _, rfl⟩ | ⟨rest, value, accepted, hok, _, rfl⟩
  · exact within_fail_here
  · cases accepted with
    | false => exact within_fail_here
    | true => exact hp tokens _ hok

theorem WithinFor.many {fuel : Nat} {p : Parser τ a} (hp : WithinFor rules fuel p) :
    WithinFor rules fuel (.many p) := by
  intro tokens r h
  rcases h.many with ⟨rest, values, rfl, hrepeats⟩
  exact Within.ok (hrepeats.suffix hp)

theorem WithinFor.bind {fuel : Nat} {p : Parser τ a} {next : a -> Parser τ b}
    (hp : WithinFor rules fuel p) (hnext : forall value : a, WithinFor rules fuel (next value)) :
    WithinFor rules fuel (.bind p next) := by
  intro tokens r h
  rcases h.bind with ⟨failure, hfail, rfl⟩ | ⟨rest, value, hok, hr⟩
  · exact (hp tokens _ hfail).failed
  · exact (hnext value rest r hr).mono (hp tokens _ hok).suffix

theorem WithinFor.orElse {fuel : Nat} {p q : Parser τ a} (hp : WithinFor rules fuel p)
    (hq : WithinFor rules fuel q) : WithinFor rules fuel (.orElse p q) := by
  intro tokens r h
  rcases h.orElse with ⟨rest, value, hok, rfl⟩ | ⟨first, hfirst, hsecond⟩
  · exact hp tokens _ hok
  · rcases hsecond with ⟨rest, value, hok, rfl⟩ | ⟨second, hsecond, rfl⟩
    · exact hq tokens _ hok
    · exact Within.fail List.suffix_rfl (shorter_suffix (hp tokens _ hfirst).deepest_suffix
        (hq tokens _ hsecond).deepest_suffix)

theorem withinFor_rule {fuel : Nat}
    (hrules : forall less : Nat, less < fuel -> forall i : ι, WithinFor rules less (rules i))
    (i : ι) : WithinFor rules fuel (.rule i) := by
  intro tokens r h
  rcases h.rule with ⟨less, rfl, hless⟩
  exact hrules less (Nat.lt_succ_self less) i tokens r hless

/-!
# Composed parsers
-/

theorem Composed.withinFor {fuel : Nat}
    (hrules : forall less : Nat, less < fuel -> forall i : ι, WithinFor rules less (rules i))
    {p : Parser τ a} (hp : Composed p) : WithinFor rules fuel p := by
  induction hp with
  | pure value => exact withinFor_result fuel (.ok value)
  | fail => exact withinFor_fail fuel
  | atom => exact withinFor_atom fuel
  | eof => exact withinFor_eof fuel
  | trace label => exact withinFor_trace fuel label
  | judge accept _ ih => exact ih.judge accept
  | many _ ih => exact ih.many
  | mapExcept f _ ih => exact ih.bind fun value => withinFor_result fuel (f value)
  | bind _ _ ih ihnext => exact ih.bind ihnext
  | orElse _ _ ihp ihq => exact ihp.orElse ihq
  | rule i => exact withinFor_rule hrules i

theorem withinFor_rules (hrules : forall i : ι, Composed (rules i)) (fuel : Nat) (i : ι) :
    WithinFor rules fuel (rules i) := by
  induction fuel using Nat.strongRecOn generalizing i with
  | ind fuel ih => exact (hrules i).withinFor ih

theorem Composed.disciplined (hrules : forall i : ι, Composed (rules i)) {p : Parser τ a}
    (hp : Composed p) : Disciplined rules p := by
  intro tokens r h
  rcases replies_iff_result.mp h with ⟨fuel, hfuel⟩
  exact hp.withinFor (fun less _ i => withinFor_rules hrules less i) tokens r hfuel

/-- Whatever a composed parser leaves is a suffix of the tokens, whether its rules were in
a cache or not.  A failure's alternatives got stuck in a suffix of what the failure leaves, so
that it is reported no earlier than there. -/
theorem runCached_leaves_suffix [DecidableEq ι] (hrules : forall i : ι, Composed (rules i))
    {p : Parser τ a} (hp : Composed p) {cache : Cache τ} (hcache : cache.Keeps rules)
    (fuel : Nat) (tokens : List Token) :
    (forall rest : List Token, forall value : a,
      (runCached rules fuel p tokens cache).outcome = .done (.ok rest value) ->
        rest <:+ tokens) ∧
    forall failure : Failure,
      (runCached rules fuel p tokens cache).outcome = .done (.fail failure) ->
        failure.rest <:+ tokens ∧
        (forall farthest : List Token, failure.farthest = some farthest ->
          farthest <:+ failure.rest) ∧
        failure.deepest.length ≤ failure.rest.length ∧
        failure.rest.length ≤ tokens.length := by
  have hwithin (r : Reply a)
      (h : (runCached rules fuel p tokens cache).outcome = .done r) : r.Within tokens := by
    rw [outcome_runCached hcache] at h
    exact hp.disciplined hrules tokens r ⟨fuel, h⟩
  constructor
  · intro rest value h
    exact (hwithin _ h).suffix
  · intro failure h
    cases hwithin _ h with
    | fail hrest hdeepest =>
        refine ⟨hrest, ?_, hdeepest.length_le, hrest.length_le⟩
        intro farthest hfarthest
        rw [Failure.deepest, hfarthest] at hdeepest
        exact hdeepest

end Parser

namespace Grammar

open Reckon.Parser

variable {bound : DigitBound} {ι : Type} {τ : ι -> Type}

/-!
# The parsers of the grammar
-/

theorem composed_literal : Composed (literal bound : Parser τ Expr) :=
  (Composed.token .num).mapExcept _

theorem composed_factor {nested : Parser τ Expr} (h : Composed nested) :
    Composed (factor bound nested) :=
  composed_literal.orElse ((Composed.token .openParen).between (Composed.token .closeParen) h)

theorem composed_operator (j k : Kind) : Composed (operator j k : Parser τ Kind) :=
  ((Composed.token j).orElse (Composed.token k)).map Token.kind

theorem composed_leftChain {operand : Parser τ Expr} (h : Composed operand) (j k : Kind) :
    Composed (leftChain operand j k) :=
  h.bind fun first => ((composed_operator j k).pair h).many.map (Expr.chain first)

theorem composed_expr {nested : Parser τ Expr} (h : Composed nested) :
    Composed (expr bound nested) :=
  composed_leftChain (composed_leftChain (composed_factor h) .star .slash) .plus .minus

theorem composed_program : Composed (program bound nested) :=
  (composed_expr (Composed.rule Reference.expr)).before Composed.eof

theorem composed_rules (i : Reference) : Composed (rules bound i) := by
  cases i with
  | expr => exact composed_expr (Composed.rule Reference.expr)

/-- An expression that is not closed, tried in a choice that is traced, leaves all tokens and
is reported at their end. -/
theorem runCached_leaves_suffix_unclosed :
    (forall i : Reference, Composed (rules .standard i)) ∧
      Composed (traced "sum" (choice [program .standard nested, Parser.fail])) ∧
      Cache.empty.Keeps (rules .standard) ∧
      exists fuel : Nat, exists failure : Failure,
        (runCached (rules .standard) fuel
          (traced "sum" (choice [program .standard nested, Parser.fail]))
          [⟨.openParen, "("⟩, ⟨.num, "1"⟩] Cache.empty).outcome = .done (.fail failure) ∧
        failure.farthest = some [] ∧ failure.rest <:+ [⟨.openParen, "("⟩, ⟨.num, "1"⟩] ∧
        [] <:+ failure.rest := by
  have hone : Derives (Number .standard) .factor [⟨.num, "1"⟩] (.literal .num 1 "1") :=
    Derives.operand (Number.mk rfl rfl)
  have hinner : Replies (rules .standard) (expr .standard nested) [⟨.num, "1"⟩]
      (.ok [] (.literal .num 1 "1")) :=
    (Derives.term (Derives.factor hone)).replies
  rcases replies_factor_fail (t := ⟨.openParen, "("⟩) rfl hinner (by simp [Reply.stop]) (by simp)
    with ⟨first, hfactor, hdeepest⟩
  have hprogram : Replies (rules .standard) (program .standard nested)
      [⟨.openParen, "("⟩, ⟨.num, "1"⟩] (.fail first) :=
    replies_bind_fail (replies_expr_fail hfactor)
  have hchoice : Replies (rules .standard) (choice [program .standard nested, Parser.fail])
      [⟨.openParen, "("⟩, ⟨.num, "1"⟩]
      (.fail ⟨[⟨.openParen, "("⟩, ⟨.num, "1"⟩], some []⟩) := by
    have hboth := replies_orElse_fail hprogram (replies_fail [⟨.openParen, "("⟩, ⟨.num, "1"⟩])
    rw [hdeepest] at hboth
    exact hboth
  have htraced : Replies (rules .standard)
      (traced "sum" (choice [program .standard nested, Parser.fail]))
      [⟨.openParen, "("⟩, ⟨.num, "1"⟩]
      (.fail ⟨[⟨.openParen, "("⟩, ⟨.num, "1"⟩], some []⟩) := replies_traced_fail "sum" hchoice
  have hparser : Composed (traced "sum" (choice [program .standard nested, Parser.fail])) := by
    refine (Composed.choice ?_).traced "sum"
    intro p hp
    simp only [List.mem_cons, List.not_mem_nil, or_false] at hp
    rcases hp with rfl | rfl
    · exact composed_program
    · exact Composed.fail
  have hempty : Cache.empty.Keeps (rules .standard) := Cache.keeps_empty
  rcases replies_iff_result.mp htraced with ⟨fuel, hfuel⟩
  have houtcome := (outcome_runCached hempty fuel _ _).trans hfuel
  have hsuffixes := (runCached_leaves_suffix composed_rules hparser hempty fuel
    [⟨.openParen, "("⟩, ⟨.num, "1"⟩]).right _ houtcome
  exact ⟨composed_rules, hparser, hempty, fuel, _, houtcome, rfl, hsuffixes.left,
    hsuffixes.right.left [] rfl⟩

end Grammar
end Reckon
