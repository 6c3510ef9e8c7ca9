import Reckon.Parser.Replacement
import Reckon.Proofs.Caching
import Reckon.Proofs.Inversion
import Reckon.Proofs.Suffixes

/-!
# Equivalent parsers may replace each other

What a failure leaves is never looked at: every combinator asks of a failing part only
that it failed and where that is to be reported.  A parser in which equivalent parsers
replace each other therefore comes to the same result wherever it comes to one at all.
For each combinator the results of the parts are put together; the induction is on the
fuel of the original run, since the rules change along with the parsers.
-/

namespace Reckon
namespace Parser

variable {ι : Type} {τ : ι -> Type} {a b : Type} {rules rules' : (i : ι) -> Parser τ (τ i)}

open Reply

theorem Equivalent.follows {p p' : Parser τ a} (h : Equivalent rules rules' p p') :
    Follows rules rules' p p' := by
  intro tokens r hr
  rcases h tokens with ⟨s, s', hs, hs', hsame⟩
  obtain rfl := hr.unique hs
  exact ⟨s', hs', hsame⟩

/-- With some fuel, wherever the first parser replies, the second one replies with the same
result. -/
def FollowsIn (rules rules' : (i : ι) -> Parser τ (τ i)) (fuel : Nat) (p p' : Parser τ a) :
    Prop :=
  forall tokens : List Token, forall r : Reply a, RepliesIn rules fuel p tokens r ->
    exists r' : Reply a, Replies rules' p' tokens r' ∧ r.SameResult r'

theorem FollowsIn.ok {fuel : Nat} {p p' : Parser τ a} (h : FollowsIn rules rules' fuel p p')
    {tokens rest : List Token} {value : a}
    (hr : RepliesIn rules fuel p tokens (.ok rest value)) :
    Replies rules' p' tokens (.ok rest value) := by
  rcases h tokens _ hr with ⟨r', hr', hsame⟩
  cases hsame with
  | ok => exact hr'

theorem FollowsIn.fail {fuel : Nat} {p p' : Parser τ a} (h : FollowsIn rules rules' fuel p p')
    {tokens : List Token} {failure : Failure}
    (hr : RepliesIn rules fuel p tokens (.fail failure)) :
    exists failure' : Failure, Replies rules' p' tokens (.fail failure') ∧
      failure.deepest = failure'.deepest := by
  rcases h tokens _ hr with ⟨r', hr', hsame⟩
  cases hsame with
  | fail hdeepest => exact ⟨_, hr', hdeepest⟩

/-!
# Combinators
-/

theorem followsIn_prim {fuel : Nat} (reply : List Token -> Except NotInteger (Reply a)) :
    FollowsIn rules rules' fuel (.prim reply) (.prim reply) :=
  fun _ r hr => ⟨r, replies_prim hr.prim, SameResult.refl r⟩

theorem followsIn_trace {fuel : Nat} (label : String) :
    FollowsIn rules rules' fuel (.trace label) (.trace label) := by
  intro tokens r hr
  rw [hr.trace]
  exact ⟨_, replies_trace label tokens, SameResult.refl _⟩

theorem FollowsIn.judge {fuel : Nat} {p p' : Parser τ a} (h : FollowsIn rules rules' fuel p p')
    (accept : a -> Except NotInteger Bool) :
    FollowsIn rules rules' fuel (.judge p accept) (.judge p' accept) := by
  intro tokens r hr
  rcases hr.judge with ⟨failure, hfail, rfl⟩ | ⟨rest, value, accepted, hok, haccept, rfl⟩
  · rcases h.fail hfail with ⟨failure', hfail', _⟩
    exact ⟨_, replies_judge_fail hfail', SameResult.refl _⟩
  · exact ⟨_, replies_judge (h.ok hok) haccept, SameResult.refl _⟩

theorem FollowsIn.repeats {fuel : Nat} {p p' : Parser τ a} (h : FollowsIn rules rules' fuel p p')
    {tokens rest : List Token} {values : List a}
    (hrepeats : Repeats (RepliesIn rules fuel p) tokens rest values) :
    Repeats (Replies rules' p') tokens rest values := by
  induction hrepeats with
  | fails hfail =>
      rcases h.fail hfail with ⟨failure', hfail', _⟩
      exact Repeats.fails hfail'
  | idles hok hlength => exact Repeats.idles (h.ok hok) hlength
  | reads hok hlength _ ih => exact Repeats.reads (h.ok hok) hlength ih

theorem FollowsIn.many {fuel : Nat} {p p' : Parser τ a} (h : FollowsIn rules rules' fuel p p') :
    FollowsIn rules rules' fuel (.many p) (.many p') := by
  intro tokens r hr
  rcases hr.many with ⟨rest, values, rfl, hrepeats⟩
  exact ⟨_, (h.repeats hrepeats).replies, SameResult.refl _⟩

theorem FollowsIn.bind {fuel : Nat} {p p' : Parser τ a} {next next' : a -> Parser τ b}
    (h : FollowsIn rules rules' fuel p p')
    (hnext : forall value : a, FollowsIn rules rules' fuel (next value) (next' value)) :
    FollowsIn rules rules' fuel (.bind p next) (.bind p' next') := by
  intro tokens r hr
  rcases hr.bind with ⟨failure, hfail, rfl⟩ | ⟨rest, value, hok, hr⟩
  · rcases h.fail hfail with ⟨failure', hfail', hdeepest⟩
    exact ⟨_, replies_bind_fail hfail', SameResult.fail hdeepest⟩
  · rcases hnext value rest r hr with ⟨r', hr', hsame⟩
    exact ⟨r', replies_bind (h.ok hok) hr', hsame⟩

theorem FollowsIn.orElse {fuel : Nat} {p p' q q' : Parser τ a}
    (hp : FollowsIn rules rules' fuel p p') (hq : FollowsIn rules rules' fuel q q') :
    FollowsIn rules rules' fuel (.orElse p q) (.orElse p' q') := by
  intro tokens r hr
  rcases hr.orElse with ⟨rest, value, hok, rfl⟩ | ⟨first, hfirst, hr⟩
  · exact ⟨_, replies_orElse_left (hp.ok hok), SameResult.refl _⟩
  · rcases hp.fail hfirst with ⟨first', hfirst', hdeepest⟩
    rcases hr with ⟨rest, value, hok, rfl⟩ | ⟨second, hsecond, rfl⟩
    · exact ⟨_, replies_orElse_right hfirst' (hq.ok hok), SameResult.refl _⟩
    · rcases hq.fail hsecond with ⟨second', hsecond', hdeepest'⟩
      refine ⟨_, replies_orElse_fail hfirst' hsecond', ?_⟩
      rw [hdeepest, hdeepest']
      exact SameResult.refl _

def FollowedBelow (rules rules' : (i : ι) -> Parser τ (τ i)) (fuel : Nat) : Prop :=
  forall less : Nat, less < fuel -> forall i : ι, FollowsIn rules rules' less (rules i) (rules' i)

theorem followsIn_rule {fuel : Nat} (hrules : FollowedBelow rules rules' fuel) (i : ι) :
    FollowsIn rules rules' fuel (.rule i) (.rule i) := by
  intro tokens r hr
  rcases hr.rule with ⟨less, rfl, hless⟩
  rcases hrules less (Nat.lt_succ_self less) i tokens r hless with ⟨r', hr', hsame⟩
  exact ⟨r', replies_rule hr', hsame⟩

theorem follows_of_followsIn
    (hrules : forall fuel : Nat, FollowedBelow rules rules' fuel ->
      forall i : ι, FollowsIn rules rules' fuel (rules i) (rules' i))
    {p p' : Parser τ a}
    (h : forall fuel : Nat, FollowedBelow rules rules' fuel ->
      FollowsIn rules rules' fuel p p') :
    Follows rules rules' p p' := by
  have hin (fuel : Nat) (i : ι) : FollowsIn rules rules' fuel (rules i) (rules' i) := by
    induction fuel using Nat.strongRecOn generalizing i with
    | ind fuel ih => exact hrules fuel ih i
  intro tokens r hr
  rcases replies_iff_result.mp hr with ⟨fuel, hfuel⟩
  exact h fuel (fun less _ i => hin less i) tokens r hfuel

/-!
# Contexts
-/

variable {swap : {a : Type} -> Parser τ a -> Parser τ a -> Prop}

theorem Replaced.followsIn
    (hswap : forall {a : Type} {p p' : Parser τ a}, swap p p' -> Follows rules rules' p p')
    {fuel : Nat} (hrules : FollowedBelow rules rules' fuel) {p p' : Parser τ a}
    (h : Replaced swap p p') : FollowsIn rules rules' fuel p p' := by
  induction h with
  | swap h => exact fun tokens r hr => hswap h tokens r hr.replies
  | prim reply => exact followsIn_prim reply
  | trace label => exact followsIn_trace label
  | judge accept _ ih => exact ih.judge accept
  | many _ ih => exact ih.many
  | bind _ _ ih ihnext => exact ih.bind ihnext
  | orElse _ _ ihp ihq => exact ihp.orElse ihq
  | rule i => exact followsIn_rule hrules i

theorem Replaced.follows
    (hswap : forall {a : Type} {p p' : Parser τ a}, swap p p' -> Follows rules rules' p p')
    (hrules : forall i : ι, Replaced swap (rules i) (rules' i)) {p p' : Parser τ a}
    (h : Replaced swap p p') : Follows rules rules' p p' :=
  follows_of_followsIn (fun _ hbelow i => (hrules i).followsIn hswap hbelow)
    fun _ hbelow => h.followsIn hswap hbelow

/-- A parser in which, and in whose rules, equivalent parsers replace each other comes to a
reply wherever the original does, with the same result, and both are reported alike. -/
theorem runCached_replaced [DecidableEq ι]
    (hrules : forall i : ι, Replaced (Equivalent rules rules') (rules i) (rules' i))
    {p p' : Parser τ a} (h : Replaced (Equivalent rules rules') p p')
    {cache cache' : Cache τ} (hcache : cache.Keeps rules) (hcache' : cache'.Keeps rules')
    {fuel : Nat} {tokens : List Token} {r : Reply a}
    (hr : (runCached rules fuel p tokens cache).outcome = .done r) :
    exists fuel' : Nat, exists r' : Reply a,
      (runCached rules' fuel' p' tokens cache').outcome = .done r' ∧
        r.SameResult r' ∧ r.report = r'.report := by
  rw [outcome_runCached hcache] at hr
  rcases h.follows Equivalent.follows hrules tokens r ⟨fuel, hr⟩ with ⟨r', ⟨fuel', hr'⟩, hsame⟩
  exact ⟨fuel', r', (outcome_runCached hcache' fuel' p' tokens).trans hr', hsame,
    hsame.report_eq⟩

/-!
# A traced part

A parser that is traced fails before its first token, also where the parser itself
fails behind it.
-/

theorem replies_traced {p : Parser τ a} (label : String) {tokens : List Token} {r : Reply a}
    (h : Replies rules p tokens r) (hwithin : r.Within tokens) :
    exists r' : Reply a, Replies rules (traced label p) tokens r' ∧ r.SameResult r' := by
  cases r with
  | ok rest value =>
      exact ⟨_, replies_bind (replies_trace label tokens) (replies_orElse_left h),
        SameResult.refl _⟩
  | fail failure =>
      refine ⟨_, replies_traced_fail label h, SameResult.fail ?_⟩
      exact (shorter_of_length_le hwithin.deepest_suffix.length_le).symm

theorem replies_token_total (k : Kind) (tokens : List Token) :
    exists r : Reply Token, r.Within tokens ∧
      forall rules : (i : ι) -> Parser τ (τ i), Replies rules (.token k) tokens r := by
  cases tokens with
  | nil => exact ⟨_, within_fail_here, fun _ => replies_token_fail (by simp)⟩
  | cons t rest =>
      by_cases ht : t.kind = k
      · exact ⟨_, Within.ok (List.suffix_cons t rest), fun _ => replies_token ht rest⟩
      · exact ⟨_, within_fail_here, fun _ => replies_token_fail (by simpa using ht)⟩

def negated : Parser τ Token :=
  (Parser.token .minus).andThen (.token .num)

theorem replies_negated_total (tokens : List Token) :
    exists r : Reply Token, r.Within tokens ∧
      forall rules : (i : ι) -> Parser τ (τ i), Replies rules negated tokens r := by
  rcases replies_token_total .minus tokens with ⟨r, hwithin, hminus⟩
  cases r with
  | fail failure => exact ⟨_, hwithin, fun rules => replies_bind_fail (hminus rules)⟩
  | ok rest value =>
      rcases replies_token_total .num rest with ⟨r, hnum, hreplies⟩
      exact ⟨r, hnum.mono hwithin.suffix,
        fun rules => replies_bind (hminus rules) (hreplies rules)⟩

theorem equivalent_traced_negated (label : String) :
    Equivalent rules rules' negated (traced label negated) := by
  intro tokens
  rcases replies_negated_total tokens with ⟨r, hwithin, hreplies⟩
  rcases replies_traced label (hreplies rules') hwithin with ⟨r', hr', hsame⟩
  exact ⟨r, r', hreplies rules, hr', hsame⟩

def enclosed (p : Parser (fun _ : Unit => Token) Token) (_ : Unit) :
    Parser (fun _ : Unit => Token) Token :=
  choice [p, between (token .openParen) (token .closeParen) (rule ())]

theorem replaced_enclosed {rules rules' : (i : Unit) -> Parser (fun _ : Unit => Token) Token}
    {p p' : Parser (fun _ : Unit => Token) Token} (h : Equivalent rules rules' p p') (i : Unit) :
    Replaced (Equivalent rules rules') (enclosed p i) (enclosed p' i) := by
  have hparens : Replaced (Equivalent rules rules')
      (between (token .openParen) (token .closeParen) (rule ()))
      (between (token .openParen) (token .closeParen) (rule ())) :=
    Replaced.between (Replaced.refl _) (Replaced.refl _) (Replaced.rule ())
  exact Replaced.choice (List.Forall₂.cons (Replaced.swap h)
    (List.Forall₂.cons hparens List.Forall₂.nil))

/-- The sign is traced in the rule and behind it.  The failure at the last minus leaves that
minus then, but is reported at the end as before. -/
theorem runCached_replaced_traced :
    (forall i : Unit, Replaced (Equivalent (enclosed negated) (enclosed (traced "sign" negated)))
      (enclosed negated i) (enclosed (traced "sign" negated) i)) ∧
    Replaced (Equivalent (enclosed negated) (enclosed (traced "sign" negated)))
      ((Parser.rule ()).pair negated) ((Parser.rule ()).pair (traced "sign" negated)) ∧
    Cache.empty.Keeps (enclosed negated) ∧
    Cache.empty.Keeps (enclosed (traced "sign" negated)) ∧
    exists fuel : Nat,
      (runCached (enclosed negated) fuel ((Parser.rule ()).pair negated)
        [⟨.openParen, "("⟩, ⟨.minus, "-"⟩, ⟨.num, "1"⟩, ⟨.closeParen, ")"⟩, ⟨.minus, "-"⟩]
        Cache.empty).outcome = .done (.fail ⟨[], none⟩) ∧
      exists fuel' : Nat, exists r' : Reply (Token × Token),
        (runCached (enclosed (traced "sign" negated)) fuel'
          ((Parser.rule ()).pair (traced "sign" negated))
          [⟨.openParen, "("⟩, ⟨.minus, "-"⟩, ⟨.num, "1"⟩, ⟨.closeParen, ")"⟩, ⟨.minus, "-"⟩]
          Cache.empty).outcome = .done r' ∧
        r'.report = .error ⟨[], "unexpected end of input"⟩ := by
  have hswap : Equivalent (enclosed negated) (enclosed (traced "sign" negated))
      negated (traced "sign" negated) := equivalent_traced_negated "sign"
  have hrules (i : Unit) := replaced_enclosed hswap i
  have hpair : Replaced (Equivalent (enclosed negated) (enclosed (traced "sign" negated)))
      ((Parser.rule ()).pair negated) ((Parser.rule ()).pair (traced "sign" negated)) :=
    (Replaced.rule ()).pair (Replaced.swap hswap)
  have hnegated : Replies (enclosed negated) negated
      [⟨.minus, "-"⟩, ⟨.num, "1"⟩, ⟨.closeParen, ")"⟩, ⟨.minus, "-"⟩]
      (.ok [⟨.closeParen, ")"⟩, ⟨.minus, "-"⟩] ⟨.num, "1"⟩) :=
    replies_bind (replies_token (t := ⟨.minus, "-"⟩) rfl _)
      (replies_token (t := ⟨.num, "1"⟩) rfl _)
  have hopening : Replies (enclosed negated) negated
      [⟨.openParen, "("⟩, ⟨.minus, "-"⟩, ⟨.num, "1"⟩, ⟨.closeParen, ")"⟩, ⟨.minus, "-"⟩]
      (.fail _) := replies_bind_fail (replies_token_fail (by simp))
  have hrule : Replies (enclosed negated) (Parser.rule ())
      [⟨.openParen, "("⟩, ⟨.minus, "-"⟩, ⟨.num, "1"⟩, ⟨.closeParen, ")"⟩, ⟨.minus, "-"⟩]
      (.ok [⟨.minus, "-"⟩] ⟨.num, "1"⟩) :=
    replies_rule (replies_orElse_right hopening (replies_before
      (replies_bind (replies_token (t := ⟨.openParen, "("⟩) rfl _)
        (replies_rule (replies_orElse_left hnegated)))
      (replies_token (t := ⟨.closeParen, ")"⟩) rfl _)))
  have hstuck : Replies (enclosed negated) negated [⟨.minus, "-"⟩] (.fail ⟨[], none⟩) :=
    replies_bind (replies_token (t := ⟨.minus, "-"⟩) rfl _) (replies_token_fail (by simp))
  rcases replies_iff_result.mp (replies_pair_fail hrule hstuck) with ⟨fuel, hfuel⟩
  have hempty : Cache.empty.Keeps (enclosed negated) := Cache.keeps_empty
  have houtcome := (outcome_runCached hempty fuel _ _).trans hfuel
  rcases runCached_replaced hrules hpair hempty Cache.keeps_empty houtcome with
    ⟨fuel', r', hr', _, hreport⟩
  exact ⟨hrules, hpair, hempty, Cache.keeps_empty, fuel, houtcome, fuel', r', hr', hreport.symm⟩

end Parser
end Reckon
