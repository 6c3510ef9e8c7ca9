import Reckon.Grammar.Derivation
import Reckon.Proofs.Progress

/-!
# The parsers recognize the grammar

The parsers of factors, terms and expressions are compared with derivations.  A
derivation of some tokens says what the parser replies to these tokens with
anything behind them: a factor is read as it is, and a chain is read up to where
its derivation ends and then goes on like the repetition of further operands.
Since a reply is unique, this settles at once that a tree is unique, that the
greedy reading is the longest one, and that a failure leaves nothing derivable.

In the other direction the parsers always reply to tokens whose numbers can be
read, and what they read is derivable.
-/

namespace Reckon
namespace Grammar

open Reckon.Parser

variable {bound : DigitBound}

def Level.parser (bound : DigitBound) : Level -> Parser ReferenceType Expr
  | factor => Grammar.factor bound nested
  | term => Grammar.term bound nested
  | expr => Grammar.expr bound nested

def Readable (bound : DigitBound) (tokens : List Token) : Prop :=
  forall t : Token, t ∈ tokens -> t.kind = .num -> exists value : Int,
    Numeral.read bound t.text = .ok value

theorem Readable.suffix {tokens rest : List Token} (h : Readable bound tokens)
    (hsuffix : rest <:+ tokens) : Readable bound rest :=
  fun t ht => h t (hsuffix.mem ht)

theorem readable_append_iff {front back : List Token} :
    Readable bound (front ++ back) <-> Readable bound front ∧ Readable bound back :=
  List.forall_mem_append

theorem readable_cons_iff {t : Token} {tokens : List Token} :
    Readable bound (t :: tokens) <->
      (t.kind = .num -> exists value : Int, Numeral.read bound t.text = .ok value) ∧
        Readable bound tokens :=
  List.forall_mem_cons

theorem Readable.behind {t : Token} {tokens : List Token} (ht : t.kind ≠ .num)
    (h : Readable bound tokens) :
    Readable bound (t :: tokens) :=
  readable_cons_iff.mpr ⟨fun hnum => absurd hnum ht, h⟩

@[simp] theorem readable_nil : Readable bound [] := by
  simp [Readable]

/-!
# Single parsers
-/

theorem replies_literal {t : Token} {value : Int} (ht : t.kind = .num)
    (hvalue : Numeral.read bound t.text = .ok value) (rest : List Token) :
    Replies (rules bound) (Grammar.literal bound) (t :: rest)
      (.ok rest (.literal .num value t.text)) := by
  refine replies_mapExcept (replies_token ht rest) ?_
  rw [hvalue]
  rfl

theorem replies_literal_fail {tokens : List Token}
    (h : forall t : Token, tokens.head? = some t -> t.kind ≠ .num) :
    Replies (rules bound) (Grammar.literal bound) tokens (.fail ⟨tokens, none⟩) :=
  replies_bind_fail (replies_token_fail h)

def parens : Parser ReferenceType Expr :=
  Parser.between (.token .openParen) (.token .closeParen) nested

theorem replies_parens {opening closing : Token} {tokens rest : List Token} {e : Expr}
    (hopening : opening.kind = .openParen) (hclosing : closing.kind = .closeParen)
    (h : Replies (rules bound) nested tokens (.ok (closing :: rest) e)) :
    Replies (rules bound) parens (opening :: tokens) (.ok rest e) :=
  replies_before (replies_bind (replies_token hopening tokens) h) (replies_token hclosing rest)

theorem replies_factor_parens {opening closing : Token} {tokens rest : List Token} {e : Expr}
    (hopening : opening.kind = .openParen) (hclosing : closing.kind = .closeParen)
    (h : Replies (rules bound) nested tokens (.ok (closing :: rest) e)) :
    Replies (rules bound) (factor bound nested) (opening :: tokens) (.ok rest e) := by
  refine replies_orElse_right (replies_literal_fail fun t ht => ?_)
    (replies_parens hopening hclosing h)
  obtain rfl : opening = t := by simpa using ht
  simp [hopening]

theorem replies_operator {j k : Kind} {t : Token} (ht : t.kind = j ∨ t.kind = k)
    (rest : List Token) : Replies (rules bound) (operator j k) (t :: rest) (.ok rest t.kind) := by
  refine replies_map Token.kind ?_
  by_cases hj : t.kind = j
  · exact replies_orElse_left (replies_token hj rest)
  · refine replies_orElse_right (replies_token_fail fun u hu => ?_)
      (replies_token (ht.resolve_left hj) rest)
    obtain rfl : t = u := by simpa using hu
    exact hj

theorem replies_operator_fail {j k : Kind} {tokens : List Token}
    (h : forall t : Token, tokens.head? = some t -> ¬ (t.kind = j ∨ t.kind = k)) :
    exists failure : Failure, Replies (rules bound) (operator j k) tokens (.fail failure) := by
  have hj : Replies (rules bound) (.token j) tokens (.fail ⟨tokens, none⟩) :=
    replies_token_fail fun t ht hkind => h t ht (Or.inl hkind)
  have hk : Replies (rules bound) (.token k) tokens (.fail ⟨tokens, none⟩) :=
    replies_token_fail fun t ht hkind => h t ht (Or.inr hkind)
  exact ⟨_, replies_map_fail Token.kind (replies_orElse_fail hj hk)⟩

def links (operand : Parser ReferenceType Expr) (j k : Kind) :
    Parser ReferenceType (List (Kind × Expr)) :=
  .many ((operator j k).pair operand)

theorem replies_links_nil {operand : Parser ReferenceType Expr} {j k : Kind}
    {tokens : List Token}
    (h : forall t : Token, tokens.head? = some t -> ¬ (t.kind = j ∨ t.kind = k)) :
    Replies (rules bound) (links operand j k) tokens (.ok tokens []) := by
  rcases replies_operator_fail h with ⟨failure, hfail⟩
  exact replies_many_fail (replies_bind_fail hfail)

theorem replies_links_cons {operand : Parser ReferenceType Expr} {j k : Kind} {op : Token}
    {tokens rest rest' : List Token} {right : Expr} {more : List (Kind × Expr)}
    (hop : op.kind = j ∨ op.kind = k) (hlength : rest.length ≤ tokens.length)
    (hoperand : Replies (rules bound) operand tokens (.ok rest right))
    (hmore : Replies (rules bound) (links operand j k) rest (.ok rest' more)) :
    Replies (rules bound) (links operand j k) (op :: tokens)
      (.ok rest' ((op.kind, right) :: more)) := by
  refine replies_many_step (replies_pair (replies_operator hop tokens) hoperand) ?_ hmore
  rw [List.length_cons]
  omega

theorem replies_leftChain {operand : Parser ReferenceType Expr} {j k : Kind}
    {tokens rest rest' : List Token} {first : Expr} {more : List (Kind × Expr)}
    (hfirst : Replies (rules bound) operand tokens (.ok rest first))
    (hmore : Replies (rules bound) (links operand j k) rest (.ok rest' more)) :
    Replies (rules bound) (leftChain operand j k) tokens (.ok rest' (Expr.chain first more)) :=
  replies_bind hfirst (replies_map (Expr.chain first) hmore)

/-!
# Derivable tokens are read
-/

/-- Tokens that do not go on with a further factor. -/
def EndsTerm (rest : List Token) : Prop :=
  forall t : Token, rest.head? = some t -> ¬ (t.kind = .star ∨ t.kind = .slash)

def Level.Promises (bound : DigitBound) : Level -> List Token -> Expr -> Prop
  | factor, tokens, e =>
      forall rest : List Token,
        Replies (rules bound) (Grammar.factor bound nested) (tokens ++ rest) (.ok rest e)
  | term, tokens, e =>
      forall rest rest' : List Token, forall more : List (Kind × Expr),
        Replies (rules bound) (links (Grammar.factor bound nested) .star .slash) rest
          (.ok rest' more) ->
          Replies (rules bound) (Grammar.term bound nested) (tokens ++ rest)
            (.ok rest' (Expr.chain e more))
  | expr, tokens, e =>
      forall rest rest' : List Token, forall more : List (Kind × Expr), EndsTerm rest ->
        Replies (rules bound) (links (Grammar.term bound nested) .plus .minus) rest
          (.ok rest' more) ->
          Replies (rules bound) (Grammar.expr bound nested) (tokens ++ rest)
            (.ok rest' (Expr.chain e more))

theorem Level.Promises.term_alone {tokens : List Token} {e : Expr}
    (h : Level.term.Promises bound tokens e) {rest : List Token} (hrest : EndsTerm rest) :
    Replies (rules bound) (Grammar.term bound nested) (tokens ++ rest) (.ok rest e) :=
  h rest rest [] (replies_links_nil hrest)

theorem Level.Promises.expr_alone {tokens : List Token} {e : Expr}
    (h : Level.expr.Promises bound tokens e) {rest : List Token} (hrest : EndsTerm rest)
    (hsum : forall t : Token, rest.head? = some t -> ¬ (t.kind = .plus ∨ t.kind = .minus)) :
    Replies (rules bound) (Grammar.expr bound nested) (tokens ++ rest) (.ok rest e) :=
  h rest rest [] hrest (replies_links_nil hsum)

theorem endsTerm_cons {t : Token} (h : t.kind ≠ .star ∧ t.kind ≠ .slash) (rest : List Token) :
    EndsTerm (t :: rest) := by
  intro u hu
  obtain rfl : t = u := by simpa using hu
  simp [h.left, h.right]

theorem endsTerm_nil : EndsTerm [] := by
  intro t ht
  cases ht

theorem Derives.promises {level : Level} {tokens : List Token} {e : Expr}
    (h : Derives (Number bound) level tokens e) : level.Promises bound tokens e := by
  induction h with
  | operand hoperand =>
      cases hoperand with
      | mk ht hvalue =>
          intro rest
          exact replies_orElse_left (replies_literal ht hvalue rest)
  | @parens opening closing tokens e hopening hclosing _ ih =>
      intro rest
      have hends : EndsTerm (closing :: rest) := endsTerm_cons (by simp [hclosing]) rest
      have hinner : Replies (rules bound) nested (tokens ++ closing :: rest)
          (.ok (closing :: rest) e) := by
        refine replies_rule (Level.Promises.expr_alone ih hends fun t ht => ?_)
        obtain rfl : closing = t := by simpa using ht
        simp [hclosing]
      simpa using replies_factor_parens hopening hclosing hinner
  | factor _ ih =>
      intro rest rest' more hmore
      exact replies_leftChain (ih rest) hmore
  | @multiply front back op left right hop _ _ ihfront ihback =>
      intro rest rest' more hmore
      have hlinks := replies_links_cons hop (by simp) (ihback rest) hmore
      simpa using ihfront (op :: back ++ rest) rest' _ hlinks
  | term _ ih =>
      intro rest rest' more hends hmore
      exact replies_leftChain (Level.Promises.term_alone ih hends) hmore
  | @add front back op left right hop _ _ ihfront ihback =>
      intro rest rest' more hends hmore
      have hright := Level.Promises.term_alone ihback hends
      have hlinks := replies_links_cons hop (by simp) hright hmore
      have hfront : EndsTerm (op :: back ++ rest) :=
        endsTerm_cons (by rcases hop with hop | hop <;> simp [hop]) _
      simpa using ihfront (op :: back ++ rest) rest' _ hfront hlinks

theorem Derives.replies {level : Level} {tokens : List Token} {e : Expr}
    (h : Derives (Number bound) level tokens e) :
      Replies (rules bound) (level.parser bound) tokens (.ok [] e) := by
  have hpromises := h.promises
  cases level with
  | factor => simpa [Level.parser] using hpromises []
  | term => simpa [Level.parser] using Level.Promises.term_alone hpromises endsTerm_nil
  | expr =>
      have hsum : forall t : Token, ([] : List Token).head? = some t ->
          ¬ (t.kind = .plus ∨ t.kind = .minus) := by
        intro t ht
        cases ht
      simpa [Level.parser] using Level.Promises.expr_alone hpromises endsTerm_nil hsum

theorem Derives.unique {level : Level} {tokens : List Token} {e e' : Expr}
    (h : Derives (Number bound) level tokens e)
    (h' : Derives (Number bound) level tokens e') : e = e' := by
  have hreply := h.replies.unique h'.replies
  cases hreply
  rfl

/-!
# What is read is derivable
-/

def Answers (bound : DigitBound) (level : Level) (p : Parser ReferenceType Expr)
    (tokens : List Token) : Prop :=
  (exists failure : Failure, Replies (rules bound) p tokens (.fail failure)) ∨
    exists front : List Token, exists rest : List Token, exists e : Expr,
      tokens = front ++ rest ∧ Replies (rules bound) p tokens (.ok rest e) ∧
        Derives (Number bound) level front e

theorem answers_factor {tokens : List Token} (hreadable : Readable bound tokens)
    (hnested : forall us : List Token, us <:+ tokens -> us.length < tokens.length ->
      Answers bound .expr nested us) :
    Answers bound .factor (factor bound nested) tokens := by
  by_cases hnum : exists t : Token, tokens.head? = some t ∧ t.kind = .num
  · rcases hnum with ⟨t, hhead, ht⟩
    rcases List.head?_eq_some_iff.mp hhead with ⟨rest, rfl⟩
    rcases hreadable t List.mem_cons_self ht with ⟨value, hvalue⟩
    exact Or.inr ⟨[t], rest, _, rfl, replies_orElse_left (replies_literal ht hvalue rest),
      Derives.operand (Number.mk ht hvalue)⟩
  · have hliteral : Replies (rules bound) (Grammar.literal bound) tokens (.fail ⟨tokens, none⟩) :=
      replies_literal_fail fun t ht hkind => hnum ⟨t, ht, hkind⟩
    by_cases hopen : exists t : Token, tokens.head? = some t ∧ t.kind = .openParen
    · rcases hopen with ⟨t, hhead, ht⟩
      rcases List.head?_eq_some_iff.mp hhead with ⟨rest, rfl⟩
      have hopening : Replies (rules bound) (.token .openParen) (t :: rest) (.ok rest t) :=
        replies_token ht rest
      rcases hnested rest (List.suffix_cons t rest) (Nat.lt_succ_self _) with
        ⟨failure, hfail⟩ | ⟨front, behind, e, rfl, hok, hderives⟩
      · exact Or.inl ⟨_, replies_orElse_fail hliteral
          (replies_bind_fail (replies_bind hopening hfail))⟩
      · by_cases hclose : exists u : Token, behind.head? = some u ∧ u.kind = .closeParen
        · rcases hclose with ⟨u, hhead', hu⟩
          rcases List.head?_eq_some_iff.mp hhead' with ⟨rest, rfl⟩
          exact Or.inr ⟨t :: front ++ [u], rest, e, by simp, replies_factor_parens ht hu hok,
            Derives.parens ht hu hderives⟩
        · have hclosing : Replies (rules bound) (.token .closeParen) behind
            (.fail ⟨behind, none⟩) :=
            replies_token_fail fun u hu hkind => hclose ⟨u, hu, hkind⟩
          exact Or.inl ⟨_, replies_orElse_fail hliteral
            (replies_before_fail (replies_bind hopening hok) hclosing)⟩
    · have hopening : Replies (rules bound) (.token .openParen) tokens (.fail ⟨tokens, none⟩) :=
        replies_token_fail fun t ht hkind => hopen ⟨t, ht, hkind⟩
      exact Or.inl ⟨_, replies_orElse_fail hliteral
        (replies_bind_fail (replies_bind_fail hopening))⟩

structure Chains (bound : DigitBound) (operand chain : Level) (j k : Kind) : Prop where
  lift : forall {tokens : List Token} {e : Expr},
    Derives (Number bound) operand tokens e -> Derives (Number bound) chain tokens e
  link : forall {front back : List Token} {op : Token} {left right : Expr},
    op.kind = j ∨ op.kind = k -> Derives (Number bound) chain front left ->
    Derives (Number bound) operand back right ->
    Derives (Number bound) chain (front ++ op :: back) (.join left op.kind right)

theorem chains_term : Chains bound .factor .term .star .slash :=
  ⟨Derives.factor, Derives.multiply⟩

theorem chains_expr : Chains bound .term .expr .plus .minus :=
  ⟨Derives.term, Derives.add⟩

theorem answers_links {operand chain : Level} {j k : Kind}
    (hchains : Chains bound operand chain j k)
    {p : Parser ReferenceType Expr} {tokens : List Token}
    (hp : forall us : List Token, us <:+ tokens -> Answers bound operand p us) :
    exists back : List Token, exists rest : List Token, exists more : List (Kind × Expr),
      tokens = back ++ rest ∧ Replies (rules bound) (links p j k) tokens (.ok rest more) ∧
        forall front : List Token, forall left : Expr, Derives (Number bound) chain front left ->
          Derives (Number bound) chain (front ++ back) (Expr.chain left more) := by
  induction hn : tokens.length using Nat.strongRecOn generalizing tokens with
  | ind n ih =>
      by_cases hop : exists op : Token, tokens.head? = some op ∧ (op.kind = j ∨ op.kind = k)
      · rcases hop with ⟨op, hhead, hkind⟩
        rcases List.head?_eq_some_iff.mp hhead with ⟨behind, rfl⟩
        have hsuffix : behind <:+ op :: behind := List.suffix_cons op behind
        rcases hp behind hsuffix with ⟨failure, hfail⟩ | ⟨middle, last, e, rfl, hok, hderives⟩
        · refine ⟨[], op :: behind, [], rfl, ?_, ?_⟩
          · exact replies_many_fail (replies_pair_fail (replies_operator hkind behind) hfail)
          · intro front left hleft
            simpa using hleft
        · have hlast : last <:+ op :: (middle ++ last) :=
            (List.suffix_append middle last).trans hsuffix
          have hshorter : last.length < n := by
            rw [<- hn, List.length_cons, List.length_append]
            omega
          obtain ⟨back, rest, more, rfl, hmore, hextends⟩ :=
            ih last.length hshorter (fun us hus => hp us (hus.trans hlast)) rfl
          refine ⟨op :: middle ++ back, rest, (op.kind, e) :: more, by simp, ?_, ?_⟩
          · exact replies_links_cons hkind (by simp) hok hmore
          · intro front left hleft
            simpa using hextends _ _ (hchains.link hkind hleft hderives)
      · refine ⟨[], tokens, [], rfl, replies_links_nil fun t ht hkind => hop ⟨t, ht, hkind⟩, ?_⟩
        intro front left hleft
        simpa using hleft

theorem answers_leftChain {operand chain : Level} {j k : Kind}
    (hchains : Chains bound operand chain j k) {p : Parser ReferenceType Expr} {tokens : List Token}
    (hp : forall us : List Token, us <:+ tokens -> Answers bound operand p us) :
    Answers bound chain (leftChain p j k) tokens := by
  rcases hp tokens List.suffix_rfl with
    ⟨failure, hfail⟩ | ⟨front, behind, first, rfl, hok, hderives⟩
  · exact Or.inl ⟨failure, replies_bind_fail hfail⟩
  · obtain ⟨back, rest, more, rfl, hmore, hextends⟩ :=
      answers_links hchains fun us hus => hp us (hus.trans (List.suffix_append front behind))
    exact Or.inr ⟨front ++ back, rest, _, by simp, replies_leftChain hok hmore,
      hextends front first (hchains.lift hderives)⟩

theorem answers {tokens : List Token} (hreadable : Readable bound tokens) (level : Level) :
    Answers bound level (level.parser bound) tokens := by
  induction hn : tokens.length using Nat.strongRecOn generalizing tokens level with
  | ind n ih =>
      have hnested (us : List Token) (hus : us <:+ tokens) (hlength : us.length < tokens.length) :
          Answers bound .expr nested us := by
        have hexpr := ih us.length (hn ▸ hlength) (hreadable.suffix hus) .expr rfl
        rcases hexpr with ⟨failure, hfail⟩ | ⟨front, rest, e, hus, hok, hderives⟩
        · exact Or.inl ⟨failure, replies_rule hfail⟩
        · exact Or.inr ⟨front, rest, e, hus, replies_rule hok, hderives⟩
      have hfactor (us : List Token) (hus : us <:+ tokens) :
          Answers bound .factor (factor bound nested) us :=
        answers_factor (hreadable.suffix hus) fun vs hvs hlength =>
          hnested vs (hvs.trans hus) (Nat.lt_of_lt_of_le hlength hus.length_le)
      have hterm (us : List Token) (hus : us <:+ tokens) :
          Answers bound .term (term bound nested) us :=
        answers_leftChain chains_term fun vs hvs => hfactor vs (hvs.trans hus)
      cases level with
      | factor => exact hfactor tokens List.suffix_rfl
      | term => exact hterm tokens List.suffix_rfl
      | expr => exact answers_leftChain chains_expr hterm

/-!
# The longest derivable tokens
-/

theorem replies_links {operand chain : Level} {j k : Kind}
    (hchains : Chains bound operand chain j k)
    {tokens : List Token} (hreadable : Readable bound tokens) :
    exists rest : List Token, exists more : List (Kind × Expr),
      Replies (rules bound) (links (operand.parser bound) j k) tokens (.ok rest more) ∧
        rest <:+ tokens := by
  obtain ⟨back, rest, more, rfl, hmore, _⟩ :=
    answers_links hchains fun us hus => answers (hreadable.suffix hus) operand
  exact ⟨rest, more, hmore, List.suffix_append back rest⟩

theorem Derives.replies_term {tokens rest : List Token} {e : Expr}
    (h : Derives (Number bound) .term tokens e) (hreadable : Readable bound rest) :
    exists rest' : List Token, exists e' : Expr,
      Replies (rules bound) (Grammar.term bound nested) (tokens ++ rest) (.ok rest' e') ∧
        rest' <:+ rest := by
  rcases replies_links chains_term hreadable with ⟨rest', more, hmore, hsuffix⟩
  exact ⟨rest', _, h.promises rest rest' more hmore, hsuffix⟩

theorem Derives.replies_expr {tokens rest : List Token} {e : Expr}
    (h : Derives (Number bound) .expr tokens e) (hreadable : Readable bound rest) :
    exists rest' : List Token, exists e' : Expr,
      Replies (rules bound) (Grammar.expr bound nested) (tokens ++ rest) (.ok rest' e') ∧
        rest' <:+ rest := by
  cases h with
  | term hterm =>
      rcases hterm.replies_term hreadable with ⟨middle, first, hfirst, hmiddle⟩
      obtain ⟨rest', more, hmore, hsuffix⟩ :=
        replies_links chains_expr (hreadable.suffix hmiddle)
      exact ⟨rest', _, replies_leftChain hfirst hmore, hsuffix.trans hmiddle⟩
  | @add front back op left right hop hfront hback =>
      rcases hback.replies_term hreadable with ⟨middle, last, hlast, hmiddle⟩
      obtain ⟨rest', more, hmore, hsuffix⟩ :=
        replies_links chains_expr (hreadable.suffix hmiddle)
      have hlength : middle.length ≤ (back ++ rest).length :=
        (hmiddle.trans (List.suffix_append back rest)).length_le
      have hlinks := replies_links_cons hop hlength hlast hmore
      have hends : EndsTerm (op :: (back ++ rest)) :=
        endsTerm_cons (by rcases hop with hop | hop <;> simp [hop]) _
      have hreply := hfront.promises (op :: (back ++ rest)) rest' _ hends hlinks
      exact ⟨rest', _, by simpa using hreply, hsuffix.trans hmiddle⟩

theorem Derives.replies_longest {level : Level} {tokens rest : List Token} {e : Expr}
    (h : Derives (Number bound) level tokens e) (hreadable : Readable bound rest) :
    exists rest' : List Token, exists e' : Expr,
      Replies (rules bound) (level.parser bound) (tokens ++ rest) (.ok rest' e') ∧
        rest' <:+ rest := by
  cases level with
  | factor => exact ⟨rest, e, h.promises rest, List.suffix_rfl⟩
  | term => exact h.replies_term hreadable
  | expr => exact h.replies_expr hreadable

/-!
# Runs with the fuel of the grammar
-/

theorem settlesOn_level (level : Level) (tokens : List Token) :
    SettlesOn (callAfresh (rules bound) (fuel tokens)) (fuel tokens + 1)
      (level.parser bound) tokens := by
  have hnested (us : List Token) (hus : us.length < tokens.length) :
      SettlesOn (callAfresh (rules bound) (fuel tokens)) (fuel tokens + 1) nested us :=
    settlesOn_nested us (by unfold fuel; omega)
  have hlimit : tokens.length < fuel tokens + 1 := by
    unfold fuel
    omega
  cases level with
  | factor => exact settlesOn_factor hnested
  | term =>
      exact settlesOn_leftChain hlimit .star .slash fun us hus =>
        settlesOn_factor fun vs hvs => hnested vs (Nat.lt_of_lt_of_le hvs hus)
  | expr => exact settlesOn_expr hlimit hnested

theorem settlesOn_program (tokens : List Token) :
    SettlesOn (callAfresh (rules bound) (fuel tokens)) (fuel tokens + 1)
      (program bound nested) tokens :=
  settlesOn_bind (settlesOn_level .expr tokens) fun rest _ _ =>
    settlesOn_map _ (settlesOn_eof rest)

theorem reply_eq_done_iff {a : Type} {p : Parser ReferenceType a} {tokens : List Token}
    (h : SettlesOn (callAfresh (rules bound) (fuel tokens)) (fuel tokens + 1) p tokens)
    {r : Reply a} :
    reply bound p tokens = .done r <-> Replies (rules bound) p tokens r := by
  constructor
  · intro hreply
    exact ⟨fuel tokens, hreply⟩
  · intro hreplies
    rcases replies_iff_result.mp hreplies with ⟨enough, hdone⟩
    have hmore := result_of_le (Nat.le_max_right (fuel tokens) enough) hdone
    have hrefines : Action.Refines (evalWith (rules bound) (fuel tokens) p tokens)
        (evalWith (rules bound) (max (fuel tokens) enough) p tokens) :=
      evalWith_refines (Nat.le_max_left (fuel tokens) enough) p tokens
    rcases hrefines ⟨⟩ with hunfinished | hsame
    · exact absurd hunfinished h.left
    · rw [Action.result, hsame] at hmore
      exact hmore

/-!
# The grammar is recognized
-/

theorem reply_eq_ok_iff {level : Level} {tokens : List Token} (hreadable : Readable bound tokens)
    {rest : List Token} {e : Expr} :
    reply bound (level.parser bound) tokens = .done (.ok rest e) <->
      exists front : List Token, tokens = front ++ rest ∧ Derives (Number bound) level front e ∧
        forall front' : List Token, forall e' : Expr, front' <+: tokens ->
          Derives (Number bound) level front' e' -> front'.length ≤ front.length := by
  rw [reply_eq_done_iff (settlesOn_level level tokens)]
  constructor
  · intro hreply
    rcases answers hreadable level with ⟨failure, hfail⟩ | ⟨front, behind, e', htokens, hok, h⟩
    · cases hreply.unique hfail
    · cases hreply.unique hok
      refine ⟨front, htokens, h, fun front' e' hprefix h' => ?_⟩
      rcases hprefix with ⟨rest', rfl⟩
      obtain ⟨last, e'', hlongest, hsuffix⟩ :=
        h'.replies_longest (hreadable.suffix (List.suffix_append front' rest'))
      cases hok.unique hlongest
      have hlength := congrArg List.length htokens
      have hle := hsuffix.length_le
      simp only [List.length_append] at hlength
      omega
  · rintro ⟨front, rfl, h, hlongest⟩
    rcases answers hreadable level with ⟨failure, hfail⟩ | ⟨front', rest', e', htokens, hok, h'⟩
    · obtain ⟨last, e'', hok, _⟩ :=
        h.replies_longest (hreadable.suffix (List.suffix_append front rest))
      cases hfail.unique hok
    · obtain ⟨last, e'', hreply, hsuffix⟩ :=
        h.replies_longest (hreadable.suffix (List.suffix_append front rest))
      cases hok.unique hreply
      have hle := hlongest front' e' ⟨_, htokens.symm⟩ h'
      have hlength := congrArg List.length htokens
      have hle' := hsuffix.length_le
      simp only [List.length_append] at hlength
      rcases List.append_inj htokens (by omega) with ⟨rfl, rfl⟩
      rw [h.unique h']
      exact hok

theorem reply_eq_fail_iff {level : Level} {tokens : List Token}
    (hreadable : Readable bound tokens) :
    (exists failure : Failure, reply bound (level.parser bound) tokens = .done (.fail failure)) <->
      forall front : List Token, forall e : Expr, front <+: tokens ->
        ¬ Derives (Number bound) level front e := by
  simp only [reply_eq_done_iff (settlesOn_level level tokens)]
  constructor
  · rintro ⟨failure, hfail⟩ front e ⟨rest, rfl⟩ h
    obtain ⟨last, e', hok, _⟩ :=
      h.replies_longest (hreadable.suffix (List.suffix_append front rest))
    cases hfail.unique hok
  · intro hnone
    rcases answers hreadable level with hfail | ⟨front, rest, e, rfl, _, h⟩
    · exact hfail
    · exact absurd h (hnone front e (List.prefix_append front rest))

theorem parse_of_replies {tokens : List Token} {r : Reply Expr}
    (h : Replies (rules bound) (program bound nested) tokens r) :
      parse bound tokens = .done r.report := by
  rw [parse, (reply_eq_done_iff (settlesOn_program tokens)).mpr h]
  rfl

theorem replies_program {tokens : List Token} (hreadable : Readable bound tokens) :
    (exists root : Expr,
      Replies (rules bound) (program bound nested) tokens (.ok [] root) ∧
        Derives (Number bound) .expr tokens root) ∨
    exists failure : Failure,
      Replies (rules bound) (program bound nested) tokens (.fail failure) := by
  rcases answers hreadable .expr with ⟨failure, hfail⟩ | ⟨front, rest, e, rfl, hok, h⟩
  · exact Or.inr ⟨failure, replies_bind_fail hfail⟩
  · cases rest with
    | nil => exact Or.inl ⟨e, replies_before hok replies_eof, by simpa using h⟩
    | cons t rest => exact Or.inr ⟨_, replies_before_fail hok (replies_eof_fail t rest)⟩

theorem parse_eq_ok_iff {tokens : List Token} (hreadable : Readable bound tokens) {root : Expr} :
    parse bound tokens = .done (.ok root) <-> Derives (Number bound) .expr tokens root := by
  constructor
  · intro hparse
    rcases replies_program hreadable with ⟨e, hok, h⟩ | ⟨failure, hfail⟩
    · rw [parse_of_replies hok] at hparse
      cases hparse
      exact h
    · rw [parse_of_replies hfail] at hparse
      cases hparse
  · intro h
    exact parse_of_replies (replies_before h.replies replies_eof)

theorem parse_eq_error {tokens : List Token} (hreadable : Readable bound tokens)
    (hnone : forall root : Expr, ¬ Derives (Number bound) .expr tokens root) :
    exists e : ParseError, parse bound tokens = .done (.error e) := by
  rcases replies_program hreadable with ⟨root, _, h⟩ | ⟨failure, hfail⟩
  · exact absurd h (hnone root)
  · exact ⟨_, parse_of_replies hfail⟩

/-- For tokens whose numbers can be read, the parser of every level reads the longest
tokens in front that are derivable at this level and fails exactly if there are none,
every derivable list of tokens has one tree, and the whole of some tokens is parsed
exactly if it derives an expression. -/
theorem parsers_recognize_grammar {tokens : List Token} (hreadable : Readable bound tokens) :
    (forall level : Level,
      (forall rest : List Token, forall e : Expr,
        reply bound (level.parser bound) tokens = .done (.ok rest e) <->
          exists front : List Token, tokens = front ++ rest ∧ Derives (Number bound) level front e ∧
            forall front' : List Token, forall e' : Expr, front' <+: tokens ->
              Derives (Number bound) level front' e' -> front'.length ≤ front.length) ∧
      ((exists failure : Failure,
          reply bound (level.parser bound) tokens = .done (.fail failure)) <->
        forall front : List Token, forall e : Expr, front <+: tokens ->
          ¬ Derives (Number bound) level front e)) ∧
    (forall level : Level, forall e e' : Expr,
      Derives (Number bound) level tokens e -> Derives (Number bound) level tokens e' -> e = e') ∧
    (forall root : Expr,
      parse bound tokens = .done (.ok root) <-> Derives (Number bound) .expr tokens root) ∧
    ((forall root : Expr, ¬ Derives (Number bound) .expr tokens root) ->
      exists e : ParseError, parse bound tokens = .done (.error e)) := by
  refine ⟨fun level => ⟨fun rest e => ?_, ?_⟩, fun level e e' h h' => ?_, fun root => ?_, ?_⟩
  · exact reply_eq_ok_iff hreadable
  · exact reply_eq_fail_iff hreadable
  · exact h.unique h'
  · exact parse_eq_ok_iff hreadable
  · exact parse_eq_error hreadable

theorem parse_difference_with_underscore :
    Readable .standard [⟨.num, "7"⟩, ⟨.minus, "-"⟩, ⟨.num, "1_0"⟩] ∧
      parse .standard [⟨.num, "7"⟩, ⟨.minus, "-"⟩, ⟨.num, "1_0"⟩] =
        .done (.ok (.join (.literal .num 7 "7") .minus (.literal .num 10 "1_0"))) := by
  have hseven : Numeral.read .standard "7" = .ok 7 := rfl
  have hten : Numeral.read .standard "1_0" = .ok 10 := rfl
  have hreadable : Readable .standard [⟨.num, "7"⟩, ⟨.minus, "-"⟩, ⟨.num, "1_0"⟩] := by
    intro t ht hnum
    simp only [List.mem_cons, List.not_mem_nil, or_false] at ht
    rcases ht with rfl | rfl | rfl
    · exact ⟨7, hseven⟩
    · cases hnum
    · exact ⟨10, hten⟩
  have hderives : Derives (Number .standard) .expr
      ([⟨.num, "7"⟩] ++ ⟨.minus, "-"⟩ :: [⟨.num, "1_0"⟩])
      (.join (.literal .num 7 "7") .minus (.literal .num 10 "1_0")) :=
    Derives.add (Or.inr rfl)
      (Derives.term (Derives.factor (Derives.operand (Number.mk rfl hseven))))
      (Derives.factor (Derives.operand (Number.mk rfl hten)))
  exact ⟨hreadable, ((parsers_recognize_grammar hreadable).right.right.left _).mpr hderives⟩

end Grammar
end Reckon
