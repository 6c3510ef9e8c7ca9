import Reckon.Proofs.Recognition

/-!
# Where a refusal is reported

A refusal of some tokens is reported behind the longest expression begun in front:
some opened parentheses and, behind them, nothing or one whole expression.  The
parser of expressions stops there on all tokens, whether it succeeds or fails.  The
statement about successes is what the opening parentheses in front of an abandoned
expression are counted against.
-/

namespace Reckon

/-- Where a parser stopped: behind what it has read, or where its failure is reported. -/
def Reply.stop {result : Type} : Reply result -> List Token
  | ok rest _ => rest
  | fail failure => failure.deepest

namespace Parser

theorem shorter_of_length_le {xs ys : List Token} (h : xs.length ≤ ys.length) :
    shorter xs ys = xs := by
  simp [shorter, Nat.not_lt.mpr h]

theorem shorter_self (tokens : List Token) : shorter tokens tokens = tokens :=
  shorter_of_length_le (Nat.le_refl tokens.length)

theorem shorter_of_length_lt {xs ys : List Token} (h : ys.length < xs.length) :
    shorter xs ys = ys := by
  simp [shorter, h]

end Parser

namespace Grammar

open Reckon.Parser

variable {bound : DigitBound}

/-!
# Expressions begun
-/

theorem begun_nil : Begun bound [] :=
  ⟨[], [], rfl, by simp, Or.inl rfl⟩

theorem Derives.begun {tokens : List Token} {e : Expr} (h : Derives (Number bound) .expr tokens e) :
    Begun bound tokens :=
  ⟨[], tokens, rfl, by simp, Or.inr ⟨e, h⟩⟩

theorem begun_cons {t : Token} {tokens : List Token} :
    Begun bound (t :: tokens) <->
      (exists e : Expr, Derives (Number bound) .expr (t :: tokens) e) ∨
        t.kind = .openParen ∧ Begun bound tokens := by
  constructor
  · rintro ⟨opening, inner, htokens, hopening, hinner⟩
    cases opening with
    | nil =>
        rw [List.nil_append] at htokens
        rw [<- htokens] at hinner
        exact Or.inl (hinner.resolve_left (List.cons_ne_nil t tokens))
    | cons u opening =>
        cases htokens
        rcases List.forall_mem_cons.mp hopening with ⟨ht, hopening⟩
        exact Or.inr ⟨ht, opening, inner, rfl, hopening, hinner⟩
  · rintro (⟨e, h⟩ | ⟨ht, opening, inner, rfl, hopening, hinner⟩)
    · exact h.begun
    · exact ⟨t :: opening, inner, rfl, List.forall_mem_cons.mpr ⟨ht, hopening⟩, hinner⟩

def LeftBehindBegun (bound : DigitBound) (tokens rest : List Token) : Prop :=
  exists front : List Token, tokens = front ++ rest ∧ Begun bound front ∧
    forall front' : List Token, front' <+: tokens -> Begun bound front' ->
      front'.length ≤ front.length

theorem LeftBehindBegun.length_le {tokens rest : List Token}
    (h : LeftBehindBegun bound tokens rest) :
    rest.length ≤ tokens.length := by
  rcases h with ⟨front, rfl, _, _⟩
  simp

theorem LeftBehindBegun.cons {t : Token} {tokens rest : List Token}
    (h : LeftBehindBegun bound tokens rest) (ht : t.kind = .openParen)
    (hnone : forall front : List Token, forall e : Expr, front <+: t :: tokens ->
      ¬ Derives (Number bound) .expr front e) :
    LeftBehindBegun bound (t :: tokens) rest := by
  rcases h with ⟨front, rfl, hbegun, hlongest⟩
  refine ⟨t :: front, rfl, begun_cons.mpr (Or.inr ⟨ht, hbegun⟩), fun front' hinit hbegun' => ?_⟩
  cases front' with
  | nil => exact Nat.zero_le _
  | cons u front' =>
      rcases List.cons_prefix_cons.mp hinit with ⟨rfl, hinit'⟩
      rcases begun_cons.mp hbegun' with ⟨e, hderives⟩ | ⟨_, hbegun'⟩
      · exact absurd hderives (hnone _ e hinit)
      · exact Nat.succ_le_succ (hlongest front' hinit' hbegun')

theorem leftBehindBegun_self {tokens : List Token}
    (hopen : forall t : Token, tokens.head? = some t -> t.kind ≠ .openParen)
    (hnone : forall front : List Token, forall e : Expr, front <+: tokens ->
      ¬ Derives (Number bound) .expr front e) :
    LeftBehindBegun bound tokens tokens := by
  refine ⟨[], rfl, begun_nil, fun front hinit hbegun => ?_⟩
  cases front with
  | nil => exact Nat.le_refl _
  | cons t front =>
      rcases hinit with ⟨rest, rfl⟩
      rcases begun_cons.mp hbegun with ⟨e, hderives⟩ | ⟨ht, _⟩
      · exact absurd hderives (hnone _ e (List.prefix_append _ rest))
      · exact absurd ht (hopen t rfl)

/-!
# Where the parser of expressions succeeds
-/

/-- Tokens that start with an expression in parentheses, of which `t` is the opening one. -/
def StartsWithParens (bound : DigitBound) (t : Token) (tokens : List Token) : Prop :=
  exists inner : List Token, exists closing : Token, exists behind : List Token, exists e : Expr,
    tokens = t :: inner ++ closing :: behind ∧ closing.kind = .closeParen ∧
      Derives (Number bound) .expr inner e

theorem StartsWithParens.append {t : Token} {tokens : List Token}
    (h : StartsWithParens bound t tokens)
    (more : List Token) : StartsWithParens bound t (tokens ++ more) := by
  rcases h with ⟨inner, closing, behind, e, rfl, hclosing, hinner⟩
  exact ⟨inner, closing, behind ++ more, e, by simp, hclosing, hinner⟩

theorem Derives.head?_of_append {level : Level} {front more : List Token} {e : Expr} {t : Token}
    (h : Derives (Number bound) level front e) (hhead : (front ++ more).head? = some t) :
    front.head? = some t := by
  cases front with
  | nil => exact absurd rfl h.number_ne_nil
  | cons u front => exact hhead

theorem Derives.startsWithParens {level : Level} {tokens : List Token} {e : Expr}
    (h : Derives (Number bound) level tokens e) {t : Token} (hhead : tokens.head? = some t)
    (ht : t.kind = .openParen) : StartsWithParens bound t tokens := by
  induction h with
  | operand hoperand =>
      cases hoperand with
      | mk hnum _ =>
          obtain rfl := Option.some.inj hhead
          simp [hnum] at ht
  | @parens opening closing inner e _ hclosing hinner _ =>
      obtain rfl := Option.some.inj hhead
      exact ⟨inner, closing, [], e, rfl, hclosing, hinner⟩
  | factor _ ih => exact ih hhead
  | term _ ih => exact ih hhead
  | multiply _ hfront _ ih _ => exact (ih (hfront.head?_of_append hhead)).append _
  | add _ hfront _ ih _ => exact (ih (hfront.head?_of_append hhead)).append _

theorem Derives.replies_inside {inner behind : List Token} {closing : Token} {e : Expr}
    (h : Derives (Number bound) .expr inner e) (hclosing : closing.kind = .closeParen) :
    Replies (rules bound) (Grammar.expr bound nested) (inner ++ closing :: behind)
      (.ok (closing :: behind) e) := by
  refine h.promises.expr_alone (endsTerm_cons (by simp [hclosing]) behind) fun t ht => ?_
  obtain rfl : closing = t := by simpa using ht
  simp [hclosing]

theorem length_le_of_replies {front rest front' : List Token} {e e' : Expr}
    (hreadable : Readable bound (front ++ rest))
    (h : Replies (rules bound) (Grammar.expr bound nested) (front ++ rest) (.ok rest e))
    (h' : Derives (Number bound) .expr front' e') (hinit : front' <+: front ++ rest) :
    front'.length ≤ front.length := by
  have hreply := (reply_eq_done_iff (settlesOn_level .expr (front ++ rest))).mpr h
  rcases (reply_eq_ok_iff hreadable).mp hreply with ⟨longest, htokens, _, hlongest⟩
  rw [List.append_cancel_right htokens]
  exact hlongest front' e' hinit h'

/-- Behind a parenthesis that an expression closes again, nothing is begun that goes on
beyond the closing one. -/
theorem Begun.length_le {front' : List Token} (h : Begun bound front') {front rest : List Token}
    {e : Expr} (hreadable : Readable bound (front ++ rest))
    (hfront : Derives (Number bound) .expr front e)
    (hreply : Replies (rules bound) (Grammar.expr bound nested) (front ++ rest) (.ok rest e))
    (hinit : front' <+: front ++ rest) : front'.length ≤ front.length := by
  induction front' generalizing front rest e with
  | nil => exact Nat.zero_le _
  | cons t front' ih =>
      rcases begun_cons.mp h with ⟨e', hderives⟩ | ⟨ht, hbegun⟩
      · exact length_le_of_replies hreadable hreply hderives hinit
      · have hhead : front.head? = some t := by
          cases front with
          | nil => exact absurd rfl hfront.number_ne_nil
          | cons u front => rw [(List.cons_prefix_cons.mp hinit).left, List.head?_cons]
        rcases hfront.startsWithParens hhead ht with
          ⟨inner, closing, behind, e', rfl, hclosing, hinner⟩
        have hsplit : t :: inner ++ closing :: behind ++ rest =
            t :: (inner ++ closing :: (behind ++ rest)) := by simp
        rw [hsplit] at hinit hreadable
        have hinside := ih hbegun (hreadable.suffix (List.suffix_cons t _)) hinner
          (hinner.replies_inside hclosing) (List.cons_prefix_cons.mp hinit).right
        simp only [List.cons_append, List.length_cons, List.length_append]
        omega

theorem leftBehindBegun_of_ok {tokens rest : List Token} {e : Expr}
    (hreadable : Readable bound tokens)
    (h : Replies (rules bound) (Grammar.expr bound nested) tokens (.ok rest e)) :
    LeftBehindBegun bound tokens rest := by
  rcases answers hreadable .expr with ⟨failure, hfail⟩ | ⟨front, rest', e', rfl, hok, hderives⟩
  · cases h.unique hfail
  · cases h.unique hok
    exact ⟨front, rfl, hderives.begun,
      fun front' hinit hbegun => hbegun.length_le hreadable hderives h hinit⟩

/-!
# Where the parser of expressions stops
-/

theorem replies_expr_fail {tokens : List Token} {failure : Failure}
    (h : Replies (rules bound) (factor bound nested) tokens (.fail failure)) :
    Replies (rules bound) (Grammar.expr bound nested) tokens (.fail failure) :=
  replies_bind_fail (replies_bind_fail h)

theorem not_derives_of_fail {tokens : List Token} (hreadable : Readable bound tokens)
    {failure : Failure}
    (h : Replies (rules bound) (Grammar.expr bound nested) tokens (.fail failure))
    (front : List Token) (e : Expr) (hinit : front <+: tokens) :
    ¬ Derives (Number bound) .expr front e := by
  rcases hinit with ⟨rest, rfl⟩
  intro hderives
  rcases hderives.replies_expr (hreadable.suffix (List.suffix_append front rest)) with
    ⟨rest', e', hok, _⟩
  cases h.unique hok

theorem not_num_of_fail {t : Token} {tokens : List Token} (hreadable : Readable bound (t :: tokens))
    {failure : Failure}
    (h : Replies (rules bound) (Grammar.expr bound nested) (t :: tokens) (.fail failure)) :
      t.kind ≠ .num := by
  intro ht
  rcases hreadable t List.mem_cons_self ht with ⟨value, hvalue⟩
  have hnumber : Derives (Number bound) .expr [t] (.literal .num value t.text) :=
    Derives.term (Derives.factor (Derives.operand (Number.mk ht hvalue)))
  exact not_derives_of_fail hreadable h [t] _ (List.prefix_append [t] tokens) hnumber

theorem not_closed_of_fail {t : Token} {tokens : List Token}
    (hreadable : Readable bound (t :: tokens))
    (ht : t.kind = .openParen) {failure : Failure}
    (h : Replies (rules bound) (Grammar.expr bound nested) (t :: tokens) (.fail failure))
    {r : Reply Expr}
    (hr : Replies (rules bound) (Grammar.expr bound nested) tokens r) (rest : List Token) (e : Expr)
    (hok : r = .ok rest e) (u : Token) (hu : rest.head? = some u) : u.kind ≠ .closeParen := by
  intro hkind
  subst hok
  rcases answers (hreadable.suffix (List.suffix_cons t tokens)) .expr with
    ⟨failure', hfail⟩ | ⟨front, rest', e', rfl, hok, hderives⟩
  · cases hr.unique hfail
  · cases hr.unique hok
    rcases List.head?_eq_some_iff.mp hu with ⟨behind, rfl⟩
    have hparens : Derives (Number bound) .expr (t :: front ++ [u]) e :=
      Derives.term (Derives.factor (Derives.parens ht hkind hderives))
    refine not_derives_of_fail hreadable h _ e ⟨behind, ?_⟩ hparens
    simp

theorem replies_factor_fail {t : Token} {tokens : List Token} (ht : t.kind = .openParen)
    {r : Reply Expr} (hr : Replies (rules bound) (Grammar.expr bound nested) tokens r)
    (hstop : r.stop.length ≤ tokens.length)
    (hunclosed : forall rest : List Token, forall e : Expr, r = .ok rest e ->
      forall u : Token, rest.head? = some u -> u.kind ≠ .closeParen) :
    exists failure : Failure,
      Replies (rules bound) (factor bound nested) (t :: tokens) (.fail failure) ∧
      failure.deepest = r.stop := by
  have hliteral : Replies (rules bound) (Grammar.literal bound) (t :: tokens)
      (.fail ⟨t :: tokens, none⟩) := by
    refine replies_literal_fail fun u hu => ?_
    obtain rfl : t = u := by simpa using hu
    simp [ht]
  have hparens : exists failure : Failure,
      Replies (rules bound) parens (t :: tokens) (.fail failure) ∧ failure.deepest = r.stop := by
    have hopening : Replies (rules bound) (.token .openParen) (t :: tokens) (.ok tokens t) :=
      replies_token ht tokens
    cases r with
    | fail failure =>
        exact ⟨failure, replies_bind_fail (replies_bind hopening (replies_rule hr)), rfl⟩
    | ok rest e =>
        exact ⟨⟨rest, none⟩, replies_before_fail (replies_bind hopening (replies_rule hr))
          (replies_token_fail (hunclosed rest e rfl)), rfl⟩
  rcases hparens with ⟨failure, hfail, hdeepest⟩
  refine ⟨_, replies_orElse_fail hliteral hfail, ?_⟩
  rw [<- hdeepest] at hstop ⊢
  exact shorter_of_length_lt (Nat.lt_succ_of_le hstop)

theorem replies_factor_fail_at (tokens : List Token)
    (h : forall t : Token, tokens.head? = some t -> t.kind ≠ .num ∧ t.kind ≠ .openParen) :
    exists failure : Failure, Replies (rules bound) (factor bound nested) tokens (.fail failure) ∧
      failure.deepest = tokens := by
  have hopening : Replies (rules bound) (.token .openParen) tokens (.fail ⟨tokens, none⟩) :=
    replies_token_fail fun t ht => (h t ht).right
  have hliteral : Replies (rules bound) (Grammar.literal bound) tokens (.fail ⟨tokens, none⟩) :=
    replies_literal_fail fun t ht => (h t ht).left
  exact ⟨_, replies_orElse_fail hliteral (replies_bind_fail (replies_bind_fail hopening)),
    shorter_self tokens⟩

theorem replies_expr_stop {tokens : List Token} (hreadable : Readable bound tokens) :
    exists r : Reply Expr,
      Replies (rules bound) (Grammar.expr bound nested) tokens r ∧
        LeftBehindBegun bound tokens r.stop := by
  induction tokens with
  | nil =>
      rcases replies_factor_fail_at [] (by simp) with ⟨failure, hfail, hdeepest⟩
      have hexpr := replies_expr_fail hfail
      refine ⟨_, hexpr, ?_⟩
      rw [Reply.stop, hdeepest]
      exact leftBehindBegun_self (by simp) (not_derives_of_fail hreadable hexpr)
  | cons t tokens ih =>
      rcases answers hreadable .expr with ⟨failure, hfail⟩ | ⟨front, rest, e, _, hok, _⟩
      · have hnone := not_derives_of_fail hreadable hfail
        by_cases ht : t.kind = .openParen
        · rcases ih (hreadable.suffix (List.suffix_cons t tokens)) with ⟨r, hr, hstop⟩
          have hclosing := not_closed_of_fail hreadable ht hfail hr
          rcases replies_factor_fail ht hr hstop.length_le hclosing with
            ⟨failure, hfactor, hdeepest⟩
          refine ⟨_, replies_expr_fail hfactor, ?_⟩
          rw [Reply.stop, hdeepest]
          exact hstop.cons ht hnone
        · have hhead : forall u : Token, (t :: tokens).head? = some u ->
              u.kind ≠ .num ∧ u.kind ≠ .openParen := by
            intro u hu
            obtain rfl := Option.some.inj hu
            exact ⟨not_num_of_fail hreadable hfail, ht⟩
          rcases replies_factor_fail_at _ hhead with ⟨failure, hfactor, hdeepest⟩
          refine ⟨_, replies_expr_fail hfactor, ?_⟩
          rw [Reply.stop, hdeepest]
          exact leftBehindBegun_self (fun u hu => (hhead u hu).right) hnone
      · exact ⟨_, hok, leftBehindBegun_of_ok hreadable hok⟩

/-!
# Reports
-/

/-- A refusal is reported at the tokens that are left behind the longest expression begun. -/
theorem parse_error_rest {tokens : List Token} (hreadable : Readable bound tokens) {e : ParseError}
    (h : parse bound tokens = .done (.error e)) :
    exists front : List Token, tokens = front ++ e.rest ∧ Begun bound front ∧
      forall front' : List Token, front' <+: tokens -> Begun bound front' ->
        front'.length ≤ front.length := by
  rcases replies_expr_stop hreadable with ⟨r, hr, hstop⟩
  cases r with
  | fail failure =>
      have hprogram : Replies (rules bound) (program bound nested) tokens (.fail failure) :=
        replies_bind_fail hr
      rw [parse_of_replies hprogram] at h
      cases h
      exact hstop
  | ok rest root =>
      cases rest with
      | nil =>
          rw [parse_of_replies (replies_before hr replies_eof)] at h
          cases h
      | cons t rest =>
          rw [parse_of_replies (replies_before_fail hr (replies_eof_fail t rest))] at h
          cases h
          exact hstop

/-- A factor that is missing behind `*` is reported at the `*`, which the repetition gives
back, and not at either of the parentheses that are still open. -/
theorem parse_error_rest_missing_factor :
    Readable .standard [⟨.openParen, "("⟩, ⟨.openParen, "("⟩, ⟨.num, "1"⟩, ⟨.star, "*"⟩,
      ⟨.closeParen, ")"⟩] ∧
      exists e : ParseError,
        parse .standard
            [⟨.openParen, "("⟩, ⟨.openParen, "("⟩, ⟨.num, "1"⟩, ⟨.star, "*"⟩, ⟨.closeParen, ")"⟩] =
          .done (.error e) ∧ e.rest = [⟨.star, "*"⟩, ⟨.closeParen, ")"⟩] ∧
        LeftBehindBegun .standard
          [⟨.openParen, "("⟩, ⟨.openParen, "("⟩, ⟨.num, "1"⟩, ⟨.star, "*"⟩, ⟨.closeParen, ")"⟩]
          e.rest := by
  have hone : Numeral.read .standard "1" = .ok 1 := rfl
  have hreadable : Readable .standard
      [⟨.openParen, "("⟩, ⟨.openParen, "("⟩, ⟨.num, "1"⟩, ⟨.star, "*"⟩, ⟨.closeParen, ")"⟩] := by
    intro t ht hnum
    simp only [List.mem_cons, List.not_mem_nil, or_false] at ht
    rcases ht with rfl | rfl | rfl | rfl | rfl
    · cases hnum
    · cases hnum
    · exact ⟨1, hone⟩
    · cases hnum
    · cases hnum
  have hnumber : Derives (Number .standard) .term [⟨.num, "1"⟩] (.literal .num 1 "1") :=
    Derives.factor (Derives.operand (Number.mk rfl hone))
  rcases replies_factor_fail_at [⟨.closeParen, ")"⟩] (by simp) with
    ⟨missing, hmissing, _⟩
  have hfactors : Replies (rules .standard) (links (factor .standard nested) .star .slash)
      [⟨.star, "*"⟩, ⟨.closeParen, ")"⟩] (.ok [⟨.star, "*"⟩, ⟨.closeParen, ")"⟩] []) := by
    have hop : (⟨.star, "*"⟩ : Token).kind = .star ∨ (⟨.star, "*"⟩ : Token).kind = .slash :=
      Or.inl rfl
    exact replies_many_fail (replies_pair_fail (replies_operator hop _) hmissing)
  have hexpr : Replies (rules .standard) (Grammar.expr .standard nested)
      [⟨.num, "1"⟩, ⟨.star, "*"⟩, ⟨.closeParen, ")"⟩]
      (.ok [⟨.star, "*"⟩, ⟨.closeParen, ")"⟩] (.literal .num 1 "1")) :=
    replies_leftChain (hnumber.promises _ _ [] hfactors) (replies_links_nil (by simp))
  rcases replies_factor_fail (t := ⟨.openParen, "("⟩) rfl hexpr (by simp [Reply.stop])
    (by simp) with ⟨inner, hinner, hstop⟩
  rcases replies_factor_fail (t := ⟨.openParen, "("⟩) rfl (replies_expr_fail hinner)
    (by simp [Reply.stop, hstop]) (by simp) with ⟨failure, hfail, hdeepest⟩
  have hparse := parse_of_replies (replies_bind_fail (replies_expr_fail hfail))
  have hrest : failure.deepest = [⟨.star, "*"⟩, ⟨.closeParen, ")"⟩] := hdeepest.trans hstop
  exact ⟨hreadable, _, hparse, hrest, parse_error_rest hreadable hparse⟩

end Grammar
end Reckon
