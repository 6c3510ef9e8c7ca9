import Reckon.Proofs.Congruence

/-!
# Laws of choice and sequence

Of a reply, a report shows the tokens left and the value, or the place of the failure.
What is shown of a choice can be told from what is shown of its two parts, and what is
shown of a sequence from what is shown of its stages; so the laws are laws of these two
operations on what is shown.  The first of the shortest places is reported.  Where one
of the places compared is the start itself, or where two of them are exchanged, this is
settled by parsers stopping inside the tokens that they are given: there, places of one
length are the same.
-/

namespace Reckon

namespace Reply

/-- What a report shows of a reply: the tokens left and the value, or the place of the
failure. -/
def shown {a : Type} : Reply a -> Except (List Token) (List Token × a)
  | ok rest value => .ok (rest, value)
  | fail failure => .error failure.deepest

theorem shown_eq_iff {a : Type} {r s : Reply a} : r.shown = s.shown <-> r.SameResult s := by
  constructor
  · intro h
    cases r with
    | ok rest value =>
        cases s with
        | ok rest' value' =>
            cases h
            exact SameResult.ok rest value
        | fail failure => cases h
    | fail failure =>
        cases s with
        | ok rest value => cases h
        | fail failure' => exact SameResult.fail (Except.error.inj h)
  · intro h
    cases h with
    | ok rest value => rfl
    | fail hdeepest => exact congrArg Except.error hdeepest

end Reply

namespace Parser

/-!
# The shorter of two places
-/

theorem shorter_assoc (xs ys zs : List Token) :
    shorter xs (shorter ys zs) = shorter (shorter xs ys) zs := by
  grind [shorter]

theorem shorter_comm {xs ys tokens : List Token} (hxs : xs <:+ tokens) (hys : ys <:+ tokens) :
    shorter xs ys = shorter ys xs := by
  rcases Nat.lt_trichotomy xs.length ys.length with hlt | heq | hgt
  · rw [shorter_of_length_le (Nat.le_of_lt hlt), shorter_of_length_lt hlt]
  · obtain rfl := (List.suffix_of_suffix_length_le hxs hys (Nat.le_of_eq heq)).eq_of_length heq
    rfl
  · rw [shorter_of_length_lt hgt, shorter_of_length_le (Nat.le_of_lt hgt)]

theorem shorter_start {xs tokens : List Token} (hxs : xs <:+ tokens) :
    shorter tokens xs = xs := by
  rw [shorter_comm List.suffix_rfl hxs, shorter_of_length_le hxs.length_le]

end Parser

namespace Outcome

open Reckon.Parser

variable {a b : Type}

/-!
# What is shown of a choice
-/

/-- The first outcome if it is a success, otherwise the second; if both are failures, the
first of the shortest places. -/
def or (x y : Outcome (Except (List Token) a)) : Outcome (Except (List Token) a) :=
  x.bind fun first =>
    match first with
    | .ok value => .done (.ok value)
    | .error place => y.map fun second =>
        match second with
        | .ok value => .ok value
        | .error place' => .error (shorter place place')

theorem or_assoc (x y z : Outcome (Except (List Token) a)) : x.or (y.or z) = (x.or y).or z := by
  rcases x with (place | value) | fault | _ <;> try rfl
  rcases y with (place' | value) | fault | _ <;> try rfl
  rcases z with (place'' | value) | fault | _ <;> try rfl
  exact congrArg (fun place => done (Except.error place)) (shorter_assoc place place' place'')

instance : Std.Associative (or : Outcome (Except (List Token) a) -> _ -> _) where
  assoc x y z := (or_assoc x y z).symm

theorem or_self (x : Outcome (Except (List Token) a)) : x.or x = x := by
  rcases x with (place | value) | fault | _ <;> try rfl
  exact congrArg (fun place => done (Except.error place)) (shorter_self place)

theorem error_or {x : Outcome (Except (List Token) a)} {tokens : List Token}
    (hx : forall place : List Token, x = done (.error place) -> place <:+ tokens) :
    (done (.error tokens)).or x = x := by
  rcases x with (place | value) | fault | _ <;> try rfl
  exact congrArg (fun place => done (Except.error place)) (shorter_start (hx place rfl))

theorem or_error {x : Outcome (Except (List Token) a)} {tokens : List Token}
    (hx : forall place : List Token, x = done (.error place) -> place <:+ tokens) :
    x.or (done (.error tokens)) = x := by
  rcases x with (place | value) | fault | _ <;> try rfl
  exact congrArg (fun place => done (Except.error place))
    (shorter_of_length_le (hx place rfl).length_le)

theorem or_comm {first second : Except (List Token) a} {tokens : List Token}
    (hnotBoth : (forall value : a, first ≠ .ok value) ∨ forall value : a, second ≠ .ok value)
    (hfirst : forall place : List Token, first = .error place -> place <:+ tokens)
    (hsecond : forall place : List Token, second = .error place -> place <:+ tokens) :
    (done first).or (done second) = (done second).or (done first) := by
  cases first with
  | ok value =>
      cases second with
      | ok value' =>
          rcases hnotBoth with hnot | hnot
          · exact absurd rfl (hnot value)
          · exact absurd rfl (hnot value')
      | error place => rfl
  | error place =>
      cases second with
      | ok value => rfl
      | error place' =>
          exact congrArg (fun place => done (Except.error place))
            (shorter_comm (hfirst place rfl) (hsecond place' rfl))

/-!
# What is shown of a sequence
-/

def next (x : Outcome (Except (List Token) (List Token × a)))
    (f : a -> List Token -> Outcome (Except (List Token) (List Token × b))) :
    Outcome (Except (List Token) (List Token × b)) :=
  x.bind fun first =>
    match first with
    | .ok (rest, value) => f value rest
    | .error place => .done (.error place)

theorem next_or (x : Outcome (Except (List Token) (List Token × a)))
    (f g : a -> List Token -> Outcome (Except (List Token) (List Token × b))) :
    (x.next fun value rest => (f value rest).or (g value rest)) = (x.next f).or (x.next g) := by
  rcases x with (place | ⟨rest, value⟩) | fault | _ <;> try rfl
  exact (or_self (done (.error place))).symm

end Outcome

namespace Parser

variable {ι : Type} {τ : ι -> Type} {a b c : Type} {rules : (i : ι) -> Parser τ (τ i)}

open Reckon.Action

/-!
# Parsers that end alike
-/

/-- With the same fuel, two parsers end alike on some tokens, whatever the caches hold of
the rules: they succeed alike, fail at the same place, raise the same fault, or do not end. -/
def EndAlike [DecidableEq ι] (rules : (i : ι) -> Parser τ (τ i)) (p q : Parser τ a)
    (fuel : Nat) (tokens : List Token) : Prop :=
  forall cache cache' : Cache τ, cache.Keeps rules -> cache'.Keeps rules ->
    (runCached rules fuel p tokens cache).outcome.map Reply.shown =
      (runCached rules fuel q tokens cache').outcome.map Reply.shown

def Interchangeable [DecidableEq ι] (rules : (i : ι) -> Parser τ (τ i)) (p q : Parser τ a) :
    Prop :=
  forall (fuel : Nat) (tokens : List Token), EndAlike rules p q fuel tokens

/-- A parser leaves a suffix of its tokens when it succeeds, and its failures are reported
at one. -/
def StopsInside (rules : (i : ι) -> Parser τ (τ i)) (p : Parser τ a) : Prop :=
  forall (tokens : List Token) (r : Reply a), Replies rules p tokens r -> r.stop <:+ tokens

def shownIn (rules : (i : ι) -> Parser τ (τ i)) (fuel : Nat) (p : Parser τ a)
    (tokens : List Token) : Outcome (Except (List Token) (List Token × a)) :=
  (evalWith rules fuel p tokens).result.map Reply.shown

theorem endAlike_of_shownIn [DecidableEq ι] {p q : Parser τ a} {fuel : Nat}
    {tokens : List Token} (h : shownIn rules fuel p tokens = shownIn rules fuel q tokens) :
    EndAlike rules p q fuel tokens := by
  intro cache cache' hcache hcache'
  rw [outcome_runCached hcache, outcome_runCached hcache']
  exact h

theorem Interchangeable.equivalent [DecidableEq ι] {p q : Parser τ a}
    (h : Interchangeable rules p q)
    (hreturns : forall tokens : List Token, Returns rules p tokens) :
    Equivalent rules rules p q := by
  intro tokens
  rcases hreturns tokens with ⟨r, fuel, hr⟩
  have hsame := h fuel tokens Cache.empty Cache.empty Cache.keeps_empty Cache.keeps_empty
  rw [outcome_runCached Cache.keeps_empty, outcome_runCached Cache.keeps_empty, hr] at hsame
  cases hq : (runAfresh rules fuel q tokens).outcome with
  | done s =>
      rw [hq] at hsame
      exact ⟨r, s, ⟨fuel, hr⟩, ⟨fuel, hq⟩, Reply.shown_eq_iff.mp (Outcome.done.inj hsame)⟩
  | raised fault =>
      rw [hq] at hsame
      cases hsame
  | unfinished =>
      rw [hq] at hsame
      cases hsame

theorem Disciplined.stopsInside {p : Parser τ a} (h : Disciplined rules p) :
    StopsInside rules p := by
  intro tokens r hr
  cases h tokens r hr with
  | ok hrest => exact hrest
  | fail hrest hdeepest => exact hdeepest.trans hrest

theorem StopsInside.place {p : Parser τ a} (h : StopsInside rules p) {fuel : Nat}
    {tokens place : List Token} (hp : shownIn rules fuel p tokens = .done (.error place)) :
    place <:+ tokens := by
  unfold shownIn at hp
  cases hresult : (evalWith rules fuel p tokens).result with
  | done r =>
      rw [hresult] at hp
      cases r with
      | ok rest value => cases hp
      | fail failure =>
          cases hp
          exact h tokens _ (replies_iff_result.mpr ⟨fuel, hresult⟩)
  | raised fault =>
      rw [hresult] at hp
      cases hp
  | unfinished =>
      rw [hresult] at hp
      cases hp

/-!
# What is shown of choices and sequences
-/

section Shown

variable (fuel : Nat) (tokens : List Token)

theorem shownIn_fail :
    shownIn rules fuel (Parser.fail : Parser τ a) tokens = .done (.error tokens) :=
  rfl

@[simp] theorem shownIn_orElse (p q : Parser τ a) :
    shownIn rules fuel (.orElse p q) tokens =
      (shownIn rules fuel p tokens).or (shownIn rules fuel q tokens) := by
  rw [shownIn, evalWith, result_orElse, shownIn, shownIn]
  cases (evalWith rules fuel p tokens).result with
  | raised fault => rfl
  | unfinished => rfl
  | done reply =>
      cases reply with
      | ok rest value => rfl
      | fail first =>
          cases (evalWith rules fuel q tokens).result with
          | raised fault => rfl
          | unfinished => rfl
          | done reply' => cases reply' <;> rfl

@[simp] theorem shownIn_bind (p : Parser τ a) (next : a -> Parser τ b) :
    shownIn rules fuel (.bind p next) tokens =
      (shownIn rules fuel p tokens).next fun value rest =>
        shownIn rules fuel (next value) rest := by
  rw [shownIn, evalWith, result_eval_bind, shownIn]
  cases (evalWith rules fuel p tokens).result with
  | raised fault => rfl
  | unfinished => rfl
  | done reply => cases reply <;> rfl

theorem shownIn_foldl_orElse (ps : List (Parser τ a)) (p : Parser τ a) :
    shownIn rules fuel (ps.foldl .orElse p) tokens =
      (ps.map fun q => shownIn rules fuel q tokens).foldl Outcome.or
        (shownIn rules fuel p tokens) := by
  induction ps generalizing p with
  | nil => rfl
  | cons q ps ih => rw [List.foldl_cons, ih, shownIn_orElse, List.map_cons, List.foldl_cons]

end Shown

theorem shownIn_or_comm {p q : Parser τ a} (hp : StopsInside rules p) (hq : StopsInside rules q)
    {fuel : Nat} {tokens : List Token} {r s : Reply a} (hr : RepliesIn rules fuel p tokens r)
    (hs : RepliesIn rules fuel q tokens s)
    (hnotBoth : (forall (rest : List Token) (value : a), r ≠ .ok rest value) ∨
      forall (rest : List Token) (value : a), s ≠ .ok rest value) :
    (shownIn rules fuel p tokens).or (shownIn rules fuel q tokens) =
      (shownIn rules fuel q tokens).or (shownIn rules fuel p tokens) := by
  have hfirst : shownIn rules fuel p tokens = .done r.shown := congrArg _ hr
  have hsecond : shownIn rules fuel q tokens = .done s.shown := congrArg _ hs
  rw [hfirst, hsecond]
  have hnot {t : Reply a} (h : forall (rest : List Token) (value : a), t ≠ .ok rest value)
      (value : List Token × a) : t.shown ≠ .ok value := by
    cases t with
    | ok rest value' => exact absurd rfl (h rest value')
    | fail failure => exact fun hshown => by cases hshown
  have hinside (place : List Token) (hplace : r.shown = .error place) : place <:+ tokens :=
    hp.place (hfirst.trans (congrArg _ hplace))
  have hinside' (place : List Token) (hplace : s.shown = .error place) : place <:+ tokens :=
    hq.place (hsecond.trans (congrArg _ hplace))
  exact Outcome.or_comm (hnotBoth.imp hnot hnot) hinside hinside'

/-!
# Choices of many parsers
-/

theorem StopsInside.orElse {p q : Parser τ a} (hp : StopsInside rules p)
    (hq : StopsInside rules q) : StopsInside rules (.orElse p q) := by
  intro tokens r hr
  rcases replies_iff_result.mp hr with ⟨fuel, hfuel⟩
  rcases RepliesIn.orElse hfuel with ⟨rest, value, hok, rfl⟩ | ⟨first, hfirst, hsecond⟩
  · exact hp tokens _ hok.replies
  · rcases hsecond with ⟨rest, value, hok, rfl⟩ | ⟨second, hsecond, rfl⟩
    · exact hq tokens _ hok.replies
    · exact shorter_suffix (hp tokens _ hfirst.replies) (hq tokens _ hsecond.replies)

theorem StopsInside.foldl_orElse {ps : List (Parser τ a)}
    (hps : forall q : Parser τ a, q ∈ ps -> StopsInside rules q) {p : Parser τ a}
    (hp : StopsInside rules p) : StopsInside rules (ps.foldl .orElse p) := by
  induction ps generalizing p with
  | nil => exact hp
  | cons q ps ih =>
      rcases List.forall_mem_cons.mp hps with ⟨hq, hps⟩
      exact ih hps (hp.orElse hq)

theorem StopsInside.choice {ps : List (Parser τ a)}
    (hps : forall q : Parser τ a, q ∈ ps -> StopsInside rules q) :
    StopsInside rules (Parser.choice ps) := by
  cases ps with
  | nil =>
      intro tokens r hr
      obtain rfl := hr.unique (replies_fail tokens)
      exact List.suffix_rfl
  | cons p ps =>
      rcases List.forall_mem_cons.mp hps with ⟨hp, hps⟩
      exact foldl_orElse hps hp

theorem shownIn_choice_append {ps qs : List (Parser τ a)}
    (hps : forall p : Parser τ a, p ∈ ps -> StopsInside rules p)
    (hqs : forall q : Parser τ a, q ∈ qs -> StopsInside rules q) (fuel : Nat)
    (tokens : List Token) :
    shownIn rules fuel (choice (ps ++ qs)) tokens =
      shownIn rules fuel (.orElse (choice ps) (choice qs)) tokens := by
  rw [shownIn_orElse]
  cases ps with
  | nil => exact (Outcome.error_or fun _ hplace => (StopsInside.choice hqs).place hplace).symm
  | cons p ps =>
      cases qs with
      | nil =>
          rw [List.append_nil]
          exact (Outcome.or_error fun _ hplace => (StopsInside.choice hps).place hplace).symm
      | cons q qs =>
          simp only [choice, List.cons_append, List.foldl_append, List.foldl_cons]
          rw [shownIn_foldl_orElse, shownIn_orElse, List.foldl_assoc,
            shownIn_foldl_orElse fuel tokens qs q]

/-!
# The monad laws
-/

section MonadLaws

variable {state : Type 1} (call : (i : ι) -> List Token -> Action ι state (Reply (τ i)))
variable (limit : Nat)

theorem eval_pure_bind (value : a) (f : a -> Parser τ b) :
    eval call limit (.bind (Parser.pure value) f) = eval call limit (f value) := by
  funext tokens
  rw [eval_bind]
  rfl

theorem eval_bind_pure (p : Parser τ a) :
    eval call limit (.bind p Parser.pure) = eval call limit p := by
  funext tokens
  rw [eval_bind]
  refine Eq.trans ?_ (bind_pure (eval call limit p tokens))
  congr 1
  funext reply
  cases reply <;> rfl

theorem eval_bind_assoc (p : Parser τ a) (f : a -> Parser τ b) (g : b -> Parser τ c) :
    eval call limit (.bind (.bind p f) g) = eval call limit (.bind p fun x => .bind (f x) g) := by
  funext tokens
  rw [eval_bind, eval_bind, eval_bind, bind_assoc]
  congr 1
  funext reply
  cases reply with
  | ok rest value => exact (eval_bind call limit (f value) g rest).symm
  | fail failure => rfl

end MonadLaws

/-- The laws of choice and of sequence.  Those that compare places with the start, or exchange
two places, ask of the parsers that they stop inside their tokens, and exchanging two parsers
asks in addition that they come to replies and do not both succeed.  The monad laws are
equalities of whole runs. -/
theorem choice_sequence_laws [DecidableEq ι] {p q : Parser τ a} (hp : StopsInside rules p)
    (hq : StopsInside rules q) {ps qs : List (Parser τ a)}
    (hps : forall p : Parser τ a, p ∈ ps -> StopsInside rules p)
    (hqs : forall q : Parser τ a, q ∈ qs -> StopsInside rules q) :
    Interchangeable rules (.orElse Parser.fail p) p ∧
    Interchangeable rules p (.orElse p Parser.fail) ∧
    (forall r : Parser τ a,
      Interchangeable rules (.orElse p (.orElse q r)) (.orElse (.orElse p q) r)) ∧
    Interchangeable rules (.orElse p p) p ∧
    Interchangeable rules (choice (ps ++ qs)) (.orElse (choice ps) (choice qs)) ∧
    (forall (fuel : Nat) (tokens : List Token) (r s : Reply a),
      RepliesIn rules fuel p tokens r -> RepliesIn rules fuel q tokens s ->
        ((forall (rest : List Token) (value : a), r ≠ .ok rest value) ∨
          forall (rest : List Token) (value : a), s ≠ .ok rest value) ->
        EndAlike rules (.orElse p q) (.orElse q p) fuel tokens) ∧
    (forall {b : Type} (o : Parser τ b) (f g : b -> Parser τ a),
      Interchangeable rules (.bind o fun x => .orElse (f x) (g x))
        (.orElse (.bind o f) (.bind o g))) ∧
    forall {b c d : Type} (o : Parser τ b) (f : b -> Parser τ c) (g : c -> Parser τ d)
      (fuel : Nat) (tokens : List Token),
      (forall x : b, runCached rules fuel (.bind (Parser.pure x) f) tokens =
        runCached rules fuel (f x) tokens) ∧
      runCached rules fuel (.bind o Parser.pure) tokens = runCached rules fuel o tokens ∧
      runCached rules fuel (.bind (.bind o f) g) tokens =
        runCached rules fuel (.bind o fun x => .bind (f x) g) tokens := by
  refine ⟨?failLeft, ?failRight, ?assoc, ?twice, ?append, ?exchange, ?factor, ?monad⟩
  case failLeft =>
      refine fun fuel tokens => endAlike_of_shownIn ?_
      rw [shownIn_orElse, shownIn_fail]
      exact Outcome.error_or fun _ hplace => hp.place hplace
  case failRight =>
      refine fun fuel tokens => endAlike_of_shownIn ?_
      rw [shownIn_orElse, shownIn_fail]
      exact (Outcome.or_error fun _ hplace => hp.place hplace).symm
  case assoc =>
      refine fun r fuel tokens => endAlike_of_shownIn ?_
      rw [shownIn_orElse, shownIn_orElse, shownIn_orElse, shownIn_orElse]
      exact Outcome.or_assoc _ _ _
  case twice =>
      refine fun fuel tokens => endAlike_of_shownIn ?_
      rw [shownIn_orElse]
      exact Outcome.or_self _
  case append =>
      exact fun fuel tokens => endAlike_of_shownIn (shownIn_choice_append hps hqs fuel tokens)
  case exchange =>
      intro fuel tokens r s hr hs hnotBoth
      apply endAlike_of_shownIn
      rw [shownIn_orElse, shownIn_orElse]
      exact shownIn_or_comm hp hq hr hs hnotBoth
  case factor =>
      refine fun o f g fuel tokens => endAlike_of_shownIn ?_
      rw [shownIn_bind, shownIn_orElse, shownIn_bind, shownIn_bind, <- Outcome.next_or]
      congr 1
      funext x rest
      exact shownIn_orElse fuel rest (f x) (g x)
  case monad =>
      intro b c d o f g fuel tokens
      refine ⟨fun x => ?_, ?_, ?_⟩
      · exact congrFun (eval_pure_bind _ _ x f) tokens
      · exact congrFun (eval_bind_pure _ _ o) tokens
      · exact congrFun (eval_bind_assoc _ _ o f g) tokens

end Parser

namespace Grammar

open Reckon.Parser

variable {bound : DigitBound}

/-- A number behind a minus, or a number: exchanged, the choice is still refused behind a minus
that stands alone. -/
theorem choice_sequence_laws_signed_number :
    StopsInside (rules .standard) negated ∧ StopsInside (rules .standard) (.token .num) ∧
      (forall p : Parser ReferenceType Token, p ∈ [negated] -> StopsInside (rules .standard) p) ∧
      (forall q : Parser ReferenceType Token, q ∈ [] -> StopsInside (rules .standard) q) ∧
      Equivalent (rules .standard) (rules .standard) negated (.orElse negated Parser.fail) ∧
      exists fuel : Nat,
        RepliesIn (rules .standard) fuel negated [⟨.minus, "-"⟩] (.fail ⟨[], none⟩) ∧
        RepliesIn (rules .standard) fuel (.token .num) [⟨.minus, "-"⟩]
          (.fail ⟨[⟨.minus, "-"⟩], none⟩) ∧
        EndAlike (rules .standard) (.orElse negated (.token .num))
          (.orElse (.token .num) negated) fuel
          [⟨.minus, "-"⟩] := by
  have hnegated : StopsInside (rules .standard) negated :=
    (((Composed.token .minus).andThen (Composed.token .num)).disciplined composed_rules).stopsInside
  have hnum : StopsInside (rules .standard) (.token .num) :=
    ((Composed.token .num).disciplined composed_rules).stopsInside
  have hps : forall p : Parser ReferenceType Token, p ∈ [negated] ->
      StopsInside (rules .standard) p := by
    intro p hp
    rw [List.mem_singleton.mp hp]
    exact hnegated
  have hqs : forall q : Parser ReferenceType Token, q ∈ [] ->
      StopsInside (rules .standard) q := by simp
  obtain ⟨_, hfail, _, _, _, hexchange, _, _⟩ := choice_sequence_laws hnegated hnum hps hqs
  have hreturns (tokens : List Token) : Returns (rules .standard) negated tokens := by
    rcases replies_negated_total tokens with ⟨r, _, hr⟩
    exact ⟨r, hr (rules .standard)⟩
  have hstuck : Replies (rules .standard) negated [⟨.minus, "-"⟩] (.fail ⟨[], none⟩) :=
    replies_bind (replies_token (t := ⟨.minus, "-"⟩) rfl []) (replies_token_fail (by simp))
  have hrefused : Replies (rules .standard) (.token .num) [⟨.minus, "-"⟩]
      (.fail ⟨[⟨.minus, "-"⟩], none⟩) :=
    replies_token_fail (by simp)
  rcases hstuck.both hrefused with ⟨fuel, hfirst, hsecond⟩
  exact ⟨hnegated, hnum, hps, hqs, hfail.equivalent hreturns, fuel, hfirst, hsecond,
    hexchange fuel _ _ _ hfirst hsecond (Or.inl fun _ _ hok => by cases hok)⟩

end Grammar

end Reckon
