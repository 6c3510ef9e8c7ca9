import Reckon.Parser.Tracing
import Reckon.Proofs.Congruence

/-!
# Tracing shows in no result

Wherever tracing is put into a composed parser and into its rules, the results stay as
they are.  A traced parser fails in its place and forgets what the parser inside left,
but the place of the report lies in the tokens that it was given, so that it is still
the shorter one of the two and is kept.

What is printed is followed apart from the results: a traced parser is a line, the
parser inside, and a second line if that parser failed.
-/

namespace Reckon
namespace Parser

variable {ι : Type} {τ : ι -> Type} {a b : Type} {rules rules' : (i : ι) -> Parser τ (τ i)}

open Reply Reckon.Action

/-!
# Results
-/

theorem FollowsIn.traced {fuel : Nat} {p p' : Parser τ a} (h : FollowsIn rules rules' fuel p p')
    (hp : WithinFor rules fuel p) (label : String) :
    FollowsIn rules rules' fuel p (Parser.traced label p') := by
  intro tokens r hr
  cases r with
  | ok rest value =>
      exact ⟨_, replies_bind (replies_trace label tokens) (replies_orElse_left (h.ok hr)),
        SameResult.refl _⟩
  | fail failure =>
      rcases h.fail hr with ⟨failure', hfail', hdeepest⟩
      have hle : failure'.deepest.length ≤ tokens.length := by
        rw [<- hdeepest]
        exact (hp tokens _ hr).deepest_suffix.length_le
      refine ⟨_, replies_traced_fail label hfail', SameResult.fail ?_⟩
      exact hdeepest.trans (shorter_of_length_le hle).symm

theorem Instrumented.followsIn {fuel : Nat} (hcomposed : forall i : ι, Composed (rules i))
    (hrules : FollowedBelow rules rules' fuel) {p p' : Parser τ a} (h : Instrumented p p') :
    FollowsIn rules rules' fuel p p' := by
  induction h with
  | around label h ih =>
      have hwithin : WithinFor rules fuel _ :=
        h.composed.withinFor fun less _ i => withinFor_rules hcomposed less i
      exact ih.traced hwithin label
  | pure value => exact followsIn_prim _
  | fail => exact followsIn_prim _
  | atom => exact followsIn_prim _
  | eof => exact followsIn_prim _
  | trace label => exact followsIn_trace label
  | judge accept _ ih => exact ih.judge accept
  | many _ ih => exact ih.many
  | mapExcept f _ ih => exact ih.bind fun _ => followsIn_prim _
  | bind _ _ ih ihnext => exact ih.bind ihnext
  | orElse _ _ ihp ihq => exact ihp.orElse ihq
  | rule i => exact followsIn_rule hrules i

theorem Instrumented.follows (hrules : forall i : ι, Instrumented (rules i) (rules' i))
    {p p' : Parser τ a} (h : Instrumented p p') : Follows rules rules' p p' := by
  have hcomposed (i : ι) : Composed (rules i) := (hrules i).composed
  exact follows_of_followsIn (fun _ hbelow i => (hrules i).followsIn hcomposed hbelow)
    fun _ hbelow => h.followsIn hcomposed hbelow

/-!
# Printed lines
-/

section Lines

variable {state : Type 1} (call : (i : ι) -> List Token -> Action ι state (Reply (τ i)))
variable (limit : Nat)

theorem eval_trace_andThen (label : String) (p : Parser τ a) (tokens : List Token) :
    eval call limit ((trace label).andThen p) tokens =
      record (.printed (traceLine label tokens)) >>= fun _ => eval call limit p tokens := by
  rw [andThen, eval_bind, eval_trace, bind_assoc]
  rfl

theorem eval_traced (label : String) (p : Parser τ a) (tokens : List Token) :
    eval call limit (traced label p) tokens =
      record (.printed (traceLine label tokens)) >>= fun _ =>
        eval call limit p tokens >>= fun reply =>
          match reply with
          | .ok rest value => pure (.ok rest value)
          | .fail first =>
              record (.printed (traceLine (label ++ " backtracked") tokens)) >>= fun _ =>
                pure (.fail ⟨tokens, some (shorter first.deepest tokens)⟩) := by
  rw [traced, eval_trace_andThen]
  congr 1
  funext _
  rw [eval]
  congr 1
  funext reply
  cases reply with
  | ok rest value => rfl
  | fail first =>
      dsimp only
      rw [eval_trace_andThen, bind_assoc]
      rfl

end Lines

variable {state : Type 1} {call : (i : ι) -> List Token -> Action ι state (Reply (τ i))}
variable {limit : Nat}

/-- If a traced parser comes to a reply, then the parser inside does, and the two lines stand
before and behind everything else that happens. -/
theorem events_traced {label : String} {p : Parser τ a} {tokens : List Token} {s : state}
    {r : Reply a} (h : (eval call limit (traced label p) tokens s).outcome = .done r) :
    exists inner : Reply a, (eval call limit p tokens s).outcome = .done inner ∧
      (eval call limit (traced label p) tokens s).events =
        .printed (traceLine label tokens) :: (eval call limit p tokens s).events ++
          backtrackedLine label tokens inner ∧
      (eval call limit (traced label p) tokens s).state = (eval call limit p tokens s).state := by
  rw [eval_traced, bind_of_done _ (record_apply _ s)] at h ⊢
  rcases hp : eval call limit p tokens s with ⟨outcome, events, after⟩
  cases outcome with
  | raised fault =>
      rw [bind_of_raised _ hp] at h
      cases h
  | unfinished =>
      rw [bind_of_unfinished _ hp] at h
      cases h
  | done inner =>
      refine ⟨inner, rfl, ?_⟩
      rw [bind_of_done _ hp]
      cases inner with
      | ok rest value => exact ⟨rfl, rfl⟩
      | fail failure => exact ⟨rfl, rfl⟩

/-!
# Traced parsers
-/

/-- A composed parser with tracing around any of its parts, also in its rules, comes to a
reply wherever the original does, and both are reported alike.  Each run of a traced parser
that comes to a reply prints its label first and whatever the parser inside prints next, and
then that it backtracked exactly if the parser inside failed; nothing else happens in it. -/
theorem runCached_instrumented [DecidableEq ι]
    (hrules : forall i : ι, Instrumented (rules i) (rules' i)) {p p' : Parser τ a}
    (h : Instrumented p p') {cache cache' : Cache τ} (hcache : cache.Keeps rules)
    (hcache' : cache'.Keeps rules') :
    (forall (fuel : Nat) (tokens : List Token) (r : Reply a),
      (runCached rules fuel p tokens cache).outcome = .done r ->
        exists fuel' : Nat, exists r' : Reply a,
          (runCached rules' fuel' p' tokens cache').outcome = .done r' ∧ r'.report = r.report) ∧
    forall {b : Type} (label : String) (q : Parser τ b) (fuel : Nat) (tokens : List Token)
      (any : Cache τ) (r : Reply b),
      (runCached rules' fuel (traced label q) tokens any).outcome = .done r ->
        exists inner : Reply b, (runCached rules' fuel q tokens any).outcome = .done inner ∧
          (runCached rules' fuel (traced label q) tokens any).events =
            .printed (traceLine label tokens) :: (runCached rules' fuel q tokens any).events ++
              backtrackedLine label tokens inner ∧
          (runCached rules' fuel (traced label q) tokens any).state =
            (runCached rules' fuel q tokens any).state := by
  constructor
  · intro fuel tokens r hr
    rw [outcome_runCached hcache] at hr
    rcases h.follows hrules tokens r ⟨fuel, hr⟩ with ⟨r', ⟨fuel', hr'⟩, hsame⟩
    exact ⟨fuel', r', (outcome_runCached hcache' fuel' p' tokens).trans hr', hsame.symm.report_eq⟩
  · intro b label q fuel tokens any r hr
    exact events_traced hr

end Parser

namespace Grammar

open Reckon.Parser

variable {bound : DigitBound}

/-!
# The grammar with traced rules
-/

def tracedRules (bound : DigitBound) (i : Reference) : Parser ReferenceType (ReferenceType i) :=
  traced "expr" (leftChain (traced "term" (term bound nested)) .plus .minus)

theorem instrumented_leftChain {ι : Type} {τ : ι -> Type} {operand operand' : Parser τ Expr}
    (h : Instrumented operand operand') (j k : Kind) :
    Instrumented (leftChain operand j k) (leftChain operand' j k) := by
  have hoperator : Instrumented (operator j k : Parser τ Kind) (operator j k) :=
    Instrumented.refl (composed_operator j k)
  exact h.bind fun first => (hoperator.pair h).many.map (Expr.chain first)

theorem instrumented_rules (i : Reference) :
    Instrumented (rules bound i) (tracedRules bound i) := by
  cases i with
  | expr =>
      have hfactor : Composed (factor bound nested) :=
        composed_factor (Composed.rule Reference.expr)
      have hterm : Instrumented (term bound nested) (term bound nested) :=
        Instrumented.refl (composed_leftChain hfactor .star .slash)
      exact (instrumented_leftChain (hterm.around "term") .plus .minus).around "expr"

/-- Behind a whole expression, a second number is refused.  Traced, the program leaves all
tokens, but is still refused at the second number, and says that it backtracked. -/
theorem runCached_instrumented_two_numbers :
    (forall i : Reference, Instrumented (rules .standard i) (tracedRules .standard i)) ∧
      Instrumented (program .standard nested)
        (traced "program" ((tracedRules .standard .expr).before .eof)) ∧
      Cache.empty.Keeps (rules .standard) ∧ Cache.empty.Keeps (tracedRules .standard) ∧
      exists fuel : Nat,
        (runCached (rules .standard) fuel (program .standard nested) [⟨.num, "2"⟩, ⟨.num, "3"⟩]
          Cache.empty).outcome =
          .done (.fail ⟨[⟨.num, "3"⟩], none⟩) ∧
        exists fuel' : Nat, exists r' : Reply Expr, exists between : List (Event Reference),
          (runCached (tracedRules .standard) fuel'
            (traced "program" ((tracedRules .standard .expr).before .eof))
            [⟨.num, "2"⟩, ⟨.num, "3"⟩] Cache.empty).outcome = .done r' ∧
          r'.report = .error ⟨[⟨.num, "3"⟩], "unexpected `3`"⟩ ∧
          (runCached (tracedRules .standard) fuel'
            (traced "program" ((tracedRules .standard .expr).before .eof))
            [⟨.num, "2"⟩, ⟨.num, "3"⟩] Cache.empty).events =
              .printed "program: \"23\"" :: between ++
                [.printed "program backtracked: \"23\""] := by
  have hinside : Instrumented (program .standard nested)
      ((tracedRules .standard .expr).before .eof) :=
    (instrumented_rules .expr).before (Instrumented.refl Composed.eof)
  have hempty : Cache.empty.Keeps (rules .standard) := Cache.keeps_empty
  have hempty' : Cache.empty.Keeps (tracedRules .standard) := Cache.keeps_empty
  have htwo : Derives (Number .standard) .expr [⟨.num, "2"⟩] (.literal .num 2 "2") :=
    Derives.term (Derives.factor (Derives.operand (Number.mk rfl rfl)))
  have hexpr : Replies (rules .standard) (expr .standard nested) [⟨.num, "2"⟩, ⟨.num, "3"⟩]
      (.ok [⟨.num, "3"⟩] (.literal .num 2 "2")) :=
    Level.Promises.expr_alone htwo.promises (endsTerm_cons (by simp) []) (by simp)
  have hprogram : Replies (rules .standard) (program .standard nested) [⟨.num, "2"⟩, ⟨.num, "3"⟩]
      (.fail ⟨[⟨.num, "3"⟩], none⟩) := replies_before_fail hexpr (replies_eof_fail _ _)
  rcases replies_iff_result.mp hprogram with ⟨fuel, hfuel⟩
  have houtcome := (outcome_runCached hempty fuel _ _).trans hfuel
  obtain ⟨hresults, hlines⟩ :=
    runCached_instrumented instrumented_rules (hinside.around "program") hempty hempty'
  rcases hresults fuel _ _ houtcome with ⟨fuel', r', hr', hreport⟩
  rcases hlines "program" _ fuel' _ Cache.empty r' hr' with ⟨inner, hinner, hevents, _⟩
  -- the program inside fails as well, since it follows the one without tracing
  rcases hinside.follows instrumented_rules _ _ hprogram with ⟨r, hr, hsame⟩
  obtain rfl := hr.unique ⟨fuel', (outcome_runCached hempty' fuel' _ _).symm.trans hinner⟩
  cases hsame with
  | fail _ =>
      exact ⟨instrumented_rules, hinside.around "program", hempty, hempty', fuel, houtcome, fuel',
        r', _, hr', hreport, hevents⟩

end Grammar
end Reckon
