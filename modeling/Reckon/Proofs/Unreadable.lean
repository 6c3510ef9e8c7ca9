import Reckon.Proofs.Nesting
import Reckon.Proofs.Raising
import Reckon.Proofs.Reading

/-!
# Numbers that cannot be read

A number is read as soon as a parser meets it, while alternatives and repetitions around
it are still open, and a number whose text is no numeral, or too long, then ends the whole run.  The
main statement says when this happens: exactly if the tokens up to the first number of
this kind can be completed to an expression.

In one direction the refusal of a text is followed back to its number.  Whatever was read
on the way is derivable, and so the tokens in front of the number lead to where an operand
is due.  In the other direction these tokens consist of begun chains, which are broken off
by parentheses; every parser that is still open there lets the refusal through.
-/

namespace Reckon

namespace Grammar

open Reckon.Parser

variable {bound : DigitBound} {fuel : Nat} {tokens : List Token} {fault : NotInteger}

/-!
# Viable tokens
-/

theorem oneNumber_numberKind : OneNumber NumberKind := by
  intro ts e h
  cases h with
  | mk ht => exact ⟨_, rfl, ht⟩

theorem walk_closings (depth : Nat) :
    Walk ⟨.operator, depth⟩ (List.replicate depth ⟨.closeParen, ")"⟩) ⟨.operator, 0⟩ := by
  induction depth with
  | zero => exact Walk.nil _
  | succ depth ih => exact Walk.cons (Leads.closing depth) ih

/-- Some tokens and a number behind them are begun by kinds exactly if an operand is due where
the number stands. -/
theorem viable_concat_iff {front : List Token} {t : Token} (ht : t.kind = .num) :
    Viable (front ++ [t]) <->
      exists depth : Nat, Walk ⟨.operand, 0⟩ front ⟨.operand, depth⟩ := by
  constructor
  · rintro ⟨more, e, hderives⟩
    have hwalk := hderives.walk oneNumber_numberKind 0
    rw [List.append_assoc] at hwalk
    rcases hwalk.split with ⟨q, hfront, hbehind⟩
    cases hbehind with
    | cons hlead _ =>
        rw [ht] at hlead
        cases hlead with
        | number depth => exact ⟨depth, hfront⟩
        | operator _ hop => cases hop
  · rintro ⟨depth, hfront⟩
    have hall := (hfront.append (walk_single ht (Leads.number depth))).append (walk_closings depth)
    rcases exists_derives_of_walk hall fun u _ hu => ⟨_, NumberKind.mk hu⟩ with ⟨e, hderives⟩
    exact ⟨_, e, hderives⟩

/-!
# Where refusals come from
-/

/-- Readable tokens lead from some place to where an operand is due, at any depth, and there
stands a number that cannot be read. -/
inductive Stumbles (bound : DigitBound) (due : Due) : List Token -> NotInteger -> Prop where
  | mk {front back : List Token} {t : Token} {fault : NotInteger} :
      Readable bound front ->
      (forall depth : Nat, exists depth' : Nat,
        Walk ⟨due, depth⟩ front ⟨.operand, depth'⟩) ->
      t.kind = .num -> Numeral.read bound t.text = .error fault ->
      Stumbles bound due (front ++ t :: back) fault

theorem Stumbles.behind {due due' : Due} {us : List Token} (hreadable : Readable bound us)
    (hwalk : forall depth : Nat, exists depth' : Nat, Walk ⟨due, depth⟩ us ⟨due', depth'⟩)
    (h : Stumbles bound due' tokens fault) : Stumbles bound due (us ++ tokens) fault := by
  cases h with
  | @mk front back t _ hfront hfrontWalk ht hread =>
      rw [<- List.append_assoc]
      refine Stumbles.mk (readable_append_iff.mpr ⟨hreadable, hfront⟩) (fun depth => ?_) ht hread
      rcases hwalk depth with ⟨middle, hus⟩
      rcases hfrontWalk middle with ⟨depth', hfront⟩
      exact ⟨depth', hus.append hfront⟩

theorem Stumbles.behind_token {due due' : Due} {u : Token} (hu : u.kind ≠ .num)
    (hlead : forall depth : Nat, exists depth' : Nat,
      Leads ⟨due, depth⟩ u.kind ⟨due', depth'⟩)
    (h : Stumbles bound due' tokens fault) : Stumbles bound due (u :: tokens) fault := by
  refine Stumbles.behind (readable_nil.behind hu) (fun depth => ?_) h
  rcases hlead depth with ⟨depth', hlead⟩
  exact ⟨depth', walk_single rfl hlead⟩

theorem Stumbles.behind_derived {level : Level} {us : List Token} {e : Expr}
    (hderives : Derives (Number bound) level us e) (h : Stumbles bound .operator tokens fault) :
    Stumbles bound .operand (us ++ tokens) fault :=
  h.behind hderives.readable fun depth => ⟨depth, hderives.walk oneNumber_number depth⟩

def Trips (bound : DigitBound) (fuel : Nat) (p : Parser ReferenceType Expr) : Prop :=
  forall (tokens : List Token) (fault : NotInteger),
    RaisesIn (rules bound) fuel p tokens fault -> Stumbles bound .operand tokens fault

theorem trips_literal : Trips bound fuel (Grammar.literal bound) := by
  intro tokens fault h
  rcases raisesIn_bind_iff.mp h with htoken | ⟨behind, t, htoken, hread⟩
  · exact absurd htoken not_raisesIn_token
  · rcases eq_cons_of_token htoken with ⟨rfl, ht⟩
    have hreply : ((Numeral.read bound t.text).map fun value =>
        Expr.literal .num value t.text).map (Reply.ok behind) = .error fault :=
      raisesIn_prim_iff.mp hread
    cases hvalue : Numeral.read bound t.text with
    | error fault' =>
        rw [hvalue] at hreply
        cases hreply
        exact Stumbles.mk readable_nil (fun depth => ⟨depth, Walk.nil _⟩) ht hvalue
    | ok value =>
        rw [hvalue] at hreply
        cases hreply

theorem Trips.factor (hnested : Trips bound fuel nested) :
    Trips bound fuel (Grammar.factor bound nested) := by
  intro tokens fault h
  rcases raisesIn_orElse_iff.mp h with hliteral | ⟨_, _, hparens⟩
  · exact trips_literal tokens fault hliteral
  · rcases raisesIn_bind_iff.mp hparens with hinner | ⟨behind, e, _, hclose⟩
    · rcases raisesIn_bind_iff.mp hinner with hopening | ⟨inside, opening, hopening, hexpr⟩
      · exact absurd hopening not_raisesIn_token
      · rcases eq_cons_of_token hopening with ⟨rfl, hopens⟩
        refine (hnested inside fault hexpr).behind_token (by simp [hopens]) fun depth => ?_
        rw [hopens]
        exact ⟨depth + 1, Leads.opening depth⟩
    · rcases raisesIn_bind_iff.mp hclose with hclosing | ⟨_, _, _, hpure⟩
      · exact absurd hclosing not_raisesIn_token
      · cases raisesIn_prim_iff.mp hpure

theorem not_raisesIn_operator {j k : Kind} :
    ¬ RaisesIn (rules bound) fuel (operator j k) tokens fault := by
  intro h
  rcases raisesIn_bind_iff.mp h with hchoice | ⟨_, _, _, hpure⟩
  · rcases raisesIn_orElse_iff.mp hchoice with hfirst | ⟨_, _, hsecond⟩
    · exact not_raisesIn_token hfirst
    · exact not_raisesIn_token hsecond
  · cases raisesIn_prim_iff.mp hpure

theorem Trips.link {j k : Kind} (harithmetic : forall op : Kind, op = j ∨ op = k ->
      op.isArithmetic = true) {p : Parser ReferenceType Expr} (hp : Trips bound fuel p)
    (h : RaisesIn (rules bound) fuel ((operator j k).pair p) tokens fault) :
    Stumbles bound .operator tokens fault := by
  rcases raisesIn_bind_iff.mp h with hoperator | ⟨behind, k', hoperator, hmap⟩
  · exact absurd hoperator not_raisesIn_operator
  · rcases raisesIn_bind_iff.mp hmap with hoperand | ⟨_, _, _, hpure⟩
    · rcases eq_cons_of_operator hoperator with ⟨op, rfl, hop, _⟩
      have hop := harithmetic op.kind hop
      exact (hp behind fault hoperand).behind_token (Kind.ne_of_isArithmetic hop rfl)
        fun depth => ⟨depth, Leads.operator depth hop⟩
    · cases raisesIn_prim_iff.mp hpure

theorem Trips.links {operand : Level} {j k : Kind} (harithmetic : forall op : Kind,
      op = j ∨ op = k -> op.isArithmetic = true) {p : Parser ReferenceType Expr}
    (hp : Trips bound fuel p) (hreads : Reads bound fuel operand p)
    (h : RaisesIn (rules bound) fuel (Grammar.links p j k) tokens fault) :
    Stumbles bound .operator tokens fault := by
  have hafter := RaisesIn.many h
  clear h
  induction hafter with
  | here hlink => exact hp.link harithmetic hlink
  | reads hlink _ ih =>
      rcases hreads.link hlink with ⟨op, back, rfl, hop, _, hderives⟩
      have hop := harithmetic op.kind hop
      rw [List.cons_append]
      exact (Stumbles.behind_derived hderives ih).behind_token (Kind.ne_of_isArithmetic hop rfl)
        fun depth => ⟨depth, Leads.operator depth hop⟩

theorem Trips.leftChain {operand : Level} {j k : Kind} (harithmetic : forall op : Kind,
      op = j ∨ op = k -> op.isArithmetic = true) {p : Parser ReferenceType Expr}
    (hp : Trips bound fuel p) (hreads : Reads bound fuel operand p) :
    Trips bound fuel (Grammar.leftChain p j k) := by
  intro tokens fault h
  rcases raisesIn_bind_iff.mp h with hfirst | ⟨behind, first, hfirst, hmap⟩
  · exact hp tokens fault hfirst
  · rcases raisesIn_bind_iff.mp hmap with hmore | ⟨_, _, _, hpure⟩
    · rcases hreads tokens behind first hfirst with ⟨front, rfl, hderives⟩
      exact Stumbles.behind_derived hderives (hp.links harithmetic hreads hmore)
    · cases raisesIn_prim_iff.mp hpure

theorem Trips.expr (hnested : Trips bound fuel nested) :
    Trips bound fuel (Grammar.expr bound nested) := by
  have hreads : Reads bound fuel .expr nested := reads_nested fuel
  have hterm : Trips bound fuel (Grammar.term bound nested) :=
    hnested.factor.leftChain (fun _ hop => Kind.isArithmetic_of_operator (Or.inl hop)) hreads.factor
  exact hterm.leftChain (fun _ hop => Kind.isArithmetic_of_operator (Or.inr hop)) hreads.term

theorem trips_nested (fuel : Nat) : Trips bound fuel nested := by
  induction fuel with
  | zero =>
      intro tokens fault h
      cases h
  | succ fuel ih =>
      intro tokens fault h
      rcases RaisesIn.rule h with ⟨less, hless, hexpr⟩
      obtain rfl := Nat.succ.inj hless
      exact ih.expr tokens fault hexpr

theorem trips_program (fuel : Nat) (tokens : List Token) (fault : NotInteger)
    (h : RaisesIn (rules bound) fuel (program bound nested) tokens fault) :
      Stumbles bound .operand tokens fault := by
  rcases raisesIn_bind_iff.mp h with hexpr | ⟨behind, e, _, hend⟩
  · exact (trips_nested fuel).expr tokens fault hexpr
  · rcases raisesIn_bind_iff.mp hend with heof | ⟨_, _, _, hpure⟩
    · cases behind with
      | nil => cases raisesIn_prim_iff.mp heof
      | cons t rest => cases raisesIn_prim_iff.mp heof
    · cases raisesIn_prim_iff.mp hpure

/-!
# Numbers that are met
-/

theorem raises_literal {t : Token} (ht : t.kind = .num)
    (hread : Numeral.read bound t.text = .error fault)
    (rest : List Token) : Raises (rules bound) (Grammar.literal bound) (t :: rest) fault := by
  refine raises_bind (replies_token ht rest) (raises_prim ?_)
  show ((Numeral.read bound t.text).map _).map _ = _
  rw [hread]
  rfl

theorem raises_factor_parens {opening : Token} (hopening : opening.kind = .openParen)
    (h : Raises (rules bound) (Grammar.expr bound nested) tokens fault) :
    Raises (rules bound) (Grammar.factor bound nested) (opening :: tokens) fault := by
  have hliteral : Replies (rules bound) (Grammar.literal bound) (opening :: tokens)
      (.fail ⟨opening :: tokens, none⟩) := by
    refine replies_literal_fail fun t ht => ?_
    obtain rfl : opening = t := by simpa using ht
    simp [hopening]
  exact raises_orElse_right hliteral (raises_bind_first (raises_bind
    (replies_token hopening tokens) (raises_rule (i := Reference.expr) h)))

theorem raises_links {p : Parser ReferenceType Expr} {j k : Kind} {op : Token}
    (hop : op.kind = j ∨ op.kind = k) (h : Raises (rules bound) p tokens fault) :
    Raises (rules bound) (Grammar.links p j k) (op :: tokens) fault :=
  raises_many_first (raises_bind (replies_operator hop tokens) (raises_bind_first h))

theorem raises_links_behind {p : Parser ReferenceType Expr} {j k : Kind} {op : Token}
    {back rest : List Token} {e : Expr} (hop : op.kind = j ∨ op.kind = k)
    (hp : Replies (rules bound) p (back ++ rest) (.ok rest e))
    (h : Raises (rules bound) (Grammar.links p j k) rest fault) :
    Raises (rules bound) (Grammar.links p j k) (op :: (back ++ rest)) fault := by
  refine raises_many_step (replies_pair (replies_operator hop _) hp) ?_ h
  rw [List.length_cons, List.length_append]
  omega

theorem raises_leftChain {p : Parser ReferenceType Expr} {j k : Kind} {rest : List Token}
    {e : Expr} (hp : Replies (rules bound) p tokens (.ok rest e))
    (h : Raises (rules bound) (Grammar.links p j k) rest fault) :
    Raises (rules bound) (Grammar.leftChain p j k) tokens fault :=
  raises_bind hp (raises_bind_first h)

def Level.Exposes (bound : DigitBound) : Level -> List Token -> Prop
  | factor, _ => True
  | term, tokens =>
      forall (rest : List Token) (fault : NotInteger),
        Raises (rules bound) (Grammar.links (Grammar.factor bound nested) .star .slash) rest
          fault ->
          Raises (rules bound) (Grammar.term bound nested) (tokens ++ rest) fault
  | expr, tokens =>
      forall (rest : List Token) (fault : NotInteger), EndsTerm rest ->
        Raises (rules bound) (Grammar.links (Grammar.term bound nested) .plus .minus) rest fault ->
          Raises (rules bound) (Grammar.expr bound nested) (tokens ++ rest) fault

theorem Derives.exposes {level : Level} {ts : List Token} {e : Expr}
    (h : Derives (Number bound) level ts e) : level.Exposes bound ts := by
  induction h with
  | operand => trivial
  | parens => trivial
  | factor hfactor =>
      intro rest fault hmore
      exact raises_leftChain (hfactor.promises rest) hmore
  | @multiply front back op left right hop _ hback ihfront _ =>
      intro rest fault hmore
      have hall := ihfront _ fault (raises_links_behind hop (hback.promises rest) hmore)
      rw [List.append_assoc, List.cons_append]
      exact hall
  | term hterm _ =>
      intro rest fault hends hmore
      exact raises_leftChain (hterm.promises.term_alone hends) hmore
  | @add front back op left right hop _ hback ihfront _ =>
      intro rest fault hends hmore
      have hfront : EndsTerm (op :: (back ++ rest)) :=
        endsTerm_cons (by rcases hop with hop | hop <;> simp [hop]) _
      have hall := ihfront _ fault hfront
        (raises_links_behind hop (hback.promises.term_alone hends) hmore)
      rw [List.append_assoc, List.cons_append]
      exact hall

theorem ChainBegun.raises {begun : List Token} (h : ChainBegun (Number bound) begun)
    (hfactor : Raises (rules bound) (Grammar.factor bound nested) tokens fault) :
    Raises (rules bound) (Grammar.expr bound nested) (begun ++ tokens) fault := by
  cases h with
  | nil => exact raises_bind_first (raises_bind_first hfactor)
  | @link ts e op hts hop =>
      rw [List.append_assoc]
      rcases Kind.priority_of_isArithmetic hop with ⟨_, hkind⟩ | ⟨_, hkind⟩
      · have hends : EndsTerm (op :: tokens) :=
          endsTerm_cons (by rcases hkind with hkind | hkind <;> simp [hkind]) _
        exact hts.exposes _ fault hends (raises_links hkind (raises_bind_first hfactor))
      · -- the last term of the expression is still open
        have hlinks := raises_links hkind hfactor
        cases hts with
        | term hterm => exact raises_bind_first (hterm.exposes _ fault hlinks)
        | @add first last plus _ _ hplus hfirst hlast =>
            have hends : EndsTerm (plus :: (last ++ op :: tokens)) :=
              endsTerm_cons (by rcases hplus with hplus | hplus <;> simp [hplus]) _
            have hall := hfirst.exposes _ fault hends
              (raises_links hplus (hlast.exposes _ fault hlinks))
            rw [List.append_assoc]
            exact hall

theorem Opened.raises {depth : Nat} {before : List Token} (h : Opened (Number bound) depth before)
    (hexpr : Raises (rules bound) (Grammar.expr bound nested) tokens fault) :
    Raises (rules bound) (Grammar.expr bound nested) (before ++ tokens) fault := by
  induction h generalizing tokens with
  | none => exact hexpr
  | more _ hbegun hopening ih =>
      rw [List.append_assoc, List.append_assoc]
      exact ih (hbegun.raises (raises_factor_parens hopening hexpr))

theorem LeadsTo.raises {depth : Nat} {read : List Token}
    (h : LeadsTo (Number bound) ⟨.operand, depth⟩ read)
    (hfactor : Raises (rules bound) (Grammar.factor bound nested) tokens fault) :
    Raises (rules bound) (Grammar.expr bound nested) (read ++ tokens) fault := by
  cases h with
  | operand hbefore hbegun =>
      rw [List.append_assoc]
      exact hbefore.raises (hbegun.raises hfactor)

/-!
# Runs of the whole grammar
-/

theorem reply_eq_raised_iff {a : Type} {p : Parser ReferenceType a}
    (h : SettlesOn (callAfresh (rules bound) (Grammar.fuel tokens))
      (Grammar.fuel tokens + 1) p tokens) :
    reply bound p tokens = .raised fault <-> Raises (rules bound) p tokens fault := by
  constructor
  · intro hreply
    exact ⟨Grammar.fuel tokens, hreply⟩
  · rintro ⟨enough, hraises⟩
    have hmore := hraises.of_le (Nat.le_max_right (Grammar.fuel tokens) enough)
    have hrefines : Action.Refines (evalWith (rules bound) (Grammar.fuel tokens) p tokens)
        (evalWith (rules bound) (max (Grammar.fuel tokens) enough) p tokens) :=
      evalWith_refines (Nat.le_max_left (Grammar.fuel tokens) enough) p tokens
    rcases hrefines ⟨⟩ with hunfinished | hsame
    · exact absurd hunfinished h.left
    · rw [RaisesIn, Action.result, hsame] at hmore
      exact hmore

theorem parse_eq_raised_iff :
    parse bound tokens = .raised fault <->
      Raises (rules bound) (program bound nested) tokens fault := by
  rw [<- reply_eq_raised_iff (settlesOn_program tokens), parse]
  cases reply bound (program bound nested) tokens <;> simp [Outcome.map]

theorem parse_ne_unfinished : parse bound tokens ≠ .unfinished := by
  have hreply : reply bound (program bound nested) tokens ≠ .unfinished :=
    (settlesOn_program tokens).left
  rw [parse]
  cases h : reply bound (program bound nested) tokens with
  | done r => simp [Outcome.map]
  | raised fault => simp [Outcome.map]
  | unfinished => exact absurd h hreply

theorem Readable.append_cons_inj {front front' back back' : List Token} {t t' : Token}
    {fault fault' : NotInteger} (hfront : Readable bound front) (hfront' : Readable bound front')
    (ht : t.kind = .num ∧ Numeral.read bound t.text = .error fault)
    (ht' : t'.kind = .num ∧ Numeral.read bound t'.text = .error fault')
    (heq : front ++ t :: back = front' ++ t' :: back') : front = front' := by
  have hnot {us more : List Token} {u : Token} {refusal : NotInteger}
      (hus : Readable bound (us ++ u :: more))
      (hunread : u.kind = .num ∧ Numeral.read bound u.text = .error refusal) : False := by
    rcases (readable_cons_iff.mp (readable_append_iff.mp hus).right).left hunread.left with
      ⟨value, hvalue⟩
    rw [hunread.right] at hvalue
    cases hvalue
  rcases List.append_eq_append_iff.mp heq with ⟨more, rfl, hmore⟩ | ⟨more, rfl, hmore⟩
  · cases more with
    | nil => rw [List.append_nil]
    | cons u more =>
        obtain rfl : t = u := (List.cons.inj hmore).left
        exact (hnot hfront' ht).elim
  · cases more with
    | nil => rw [List.append_nil]
    | cons u more =>
        obtain rfl : t' = u := (List.cons.inj hmore).left
        exact (hnot hfront ht').elim

theorem Stumbles.viable {front back : List Token} {t : Token} {fault' : NotInteger}
    (h : Stumbles bound .operand (front ++ t :: back) fault) (hfront : Readable bound front)
    (ht : t.kind = .num) (hunread : Numeral.read bound t.text = .error fault') :
    Viable (front ++ [t]) := by
  generalize htokens : front ++ t :: back = tokens at h
  cases h with
  | @mk front' back' t' _ hfront' hwalk ht' hread =>
      obtain rfl := hfront.append_cons_inj hfront' ⟨ht, hunread⟩ ⟨ht', hread⟩ htokens
      exact (viable_concat_iff ht).mpr (hwalk 0)

theorem parse_of_readable (h : Readable bound tokens) :
    exists parsed : Except ParseError Expr, parse bound tokens = .done parsed := by
  rcases replies_program h with ⟨root, hok, _⟩ | ⟨failure, hfail⟩
  · exact ⟨_, parse_of_replies hok⟩
  · exact ⟨_, parse_of_replies hfail⟩

section

variable {front back : List Token} {t : Token} (hfront : Readable bound front)
  (ht : t.kind = .num) (hread : Numeral.read bound t.text = .error fault)

include hfront ht hread

theorem parse_of_viable (hviable : Viable (front ++ [t])) :
    parse bound (front ++ t :: back) = .raised fault := by
  rcases (viable_concat_iff ht).mp hviable with ⟨depth, hwalk⟩
  have hleads : LeadsTo (Number bound) ⟨.operand, depth⟩ ([] ++ front) := by
    refine leadsTo_start.walk hwalk fun u hu hnum => ?_
    rcases hfront u hu hnum with ⟨value, hvalue⟩
    exact ⟨_, Number.mk hnum hvalue⟩
  have hraises := hleads.raises (raises_orElse_left (raises_literal ht hread back))
  exact parse_eq_raised_iff.mpr (raises_bind_first hraises)

theorem parse_of_not_viable (hnot : ¬ Viable (front ++ [t])) :
    exists e : ParseError, parse bound (front ++ t :: back) = .done (.error e) := by
  cases hparse : parse bound (front ++ t :: back) with
  | done parsed =>
      cases parsed with
      | error e => exact ⟨e, rfl⟩
      | ok root =>
          rcases (derives_of_parse hparse).readable t (by simp) ht with ⟨value, hvalue⟩
          rw [hread] at hvalue
          cases hvalue
  | raised fault' =>
      rcases parse_eq_raised_iff.mp hparse with ⟨enough, hraises⟩
      have hstumbles := trips_program enough _ fault' hraises
      exact absurd (hstumbles.viable hfront ht hread) hnot
  | unfinished => exact absurd hparse parse_ne_unfinished

end

/-- Tokens whose numbers can all be read are parsed without any refusal of a text.  If some
number cannot be read, the first one of this kind is refused if it and the tokens in front of
it can be completed to an expression; otherwise the tokens are not an expression, and no text
is refused. -/
theorem parse_raises_where_viable (tokens : List Token) :
    (Readable bound tokens ->
      exists parsed : Except ParseError Expr, parse bound tokens = .done parsed) ∧
    forall (front back : List Token) (t : Token) (fault : NotInteger),
      tokens = front ++ t :: back -> Readable bound front -> t.kind = .num ->
        Numeral.read bound t.text = .error fault ->
          (Viable (front ++ [t]) -> parse bound tokens = .raised fault) ∧
          (¬ Viable (front ++ [t]) ->
            exists e : ParseError, parse bound tokens = .done (.error e)) := by
  refine ⟨parse_of_readable, fun front back t fault htokens hfront ht hread => ?_⟩
  rw [htokens]
  exact ⟨parse_of_viable hfront ht hread, parse_of_not_viable hfront ht hread⟩

/-- Behind an opening parenthesis a number that cannot be read is refused.  Behind `1` no
operand is due, and the same number is only an unexpected token. -/
theorem parse_raises_where_viable_operand_due :
    parse .standard [⟨.openParen, "("⟩, ⟨.num, "x"⟩] = .raised (.invalid "x") ∧
      exists e : ParseError, parse .standard [⟨.num, "1"⟩, ⟨.num, "x"⟩] = .done (.error e) := by
  have hread : Numeral.read .standard "x" = .error (.invalid "x") := rfl
  constructor
  · have hopening : Readable .standard [⟨.openParen, "("⟩] := readable_nil.behind (by simp)
    have hwalk : Walk ⟨.operand, 0⟩ [⟨.openParen, "("⟩] ⟨.operand, 1⟩ :=
      walk_single rfl (Leads.opening 0)
    exact ((parse_raises_where_viable _).right _ [] _ _ rfl hopening rfl hread).left
      ((viable_concat_iff rfl).mpr ⟨1, hwalk⟩)
  · have hone : Readable .standard [⟨.num, "1"⟩] := by
      intro t ht _
      rw [List.mem_singleton.mp ht]
      exact ⟨1, rfl⟩
    refine ((parse_raises_where_viable _).right _ [] _ _ rfl hone rfl hread).right fun hviable => ?_
    rcases (viable_concat_iff rfl).mp hviable with ⟨depth, hwalk⟩
    cases hwalk with
    | cons hfirst hrest =>
        cases hfirst with
        | number => cases hrest

end Grammar
end Reckon
