import Reckon.Grammar.Nesting
import Reckon.Proofs.Printing

/-!
# Expressions are told by their kinds

The tokens of an expression lead from where an operand is due to where an operator is
due, with as many parentheses open as before.  In the other direction, what was read on
the way to some place consists of one begun chain for every open parenthesis and of a
last chain, which is complete if an operator is due; every token that leads on from there
keeps this up.

Tokens with matching parentheses lead to the same places at every depth.  A pair of
parentheses can therefore be taken away, and what is left is an expression again.
-/

namespace Reckon

namespace Token

theorem Balanced.append {ts us : List Token} (h : Balanced ts) (h' : Balanced us) :
    Balanced (ts ++ us) := by
  induction h with
  | nil => exact h'
  | plain hopening hclosing _ ih => exact Balanced.plain hopening hclosing ih
  | @nested opening closing inner rest hopening hclosing hinner _ _ ih =>
      have hall := Balanced.nested hopening hclosing hinner ih
      simpa using hall

end Token

namespace Grammar

open Token

variable {bound : DigitBound}

/-!
# Walks
-/

theorem Walk.append {p q r : Place} {ts us : List Token} (h : Walk p ts q) (h' : Walk q us r) :
    Walk p (ts ++ us) r := by
  induction h with
  | nil _ => exact h'
  | cons hlead _ ih => exact Walk.cons hlead (ih h')

theorem Walk.split {p r : Place} {ts us : List Token} (h : Walk p (ts ++ us) r) :
    exists q : Place, Walk p ts q ∧ Walk q us r := by
  induction ts generalizing p with
  | nil => exact ⟨p, Walk.nil p, h⟩
  | cons t ts ih =>
      cases h with
      | cons hlead hrest =>
          rcases ih hrest with ⟨q, hts, hus⟩
          exact ⟨q, Walk.cons hlead hts, hus⟩

theorem walk_single {p q : Place} {t : Token} {k : Kind} (ht : t.kind = k)
    (h : Leads p k q) : Walk p [t] q := by
  rw [<- ht] at h
  exact Walk.cons h (Walk.nil q)

/-!
# Expressions as walks
-/

variable {operand : List Token -> Expr -> Prop}

def OneNumber (operand : List Token -> Expr -> Prop) : Prop :=
  forall (ts : List Token) (e : Expr), operand ts e -> exists t : Token, ts = [t] ∧ t.kind = .num

theorem oneNumber_number : OneNumber (Number bound) := by
  intro ts e h
  cases h with
  | mk ht _ => exact ⟨_, rfl, ht⟩

theorem Derives.walk (hoperand : OneNumber operand) {level : Level} {ts : List Token} {e : Expr}
    (h : Derives operand level ts e) :
    forall depth : Nat, Walk ⟨.operand, depth⟩ ts ⟨.operator, depth⟩ := by
  refine h.inductionOn ?single ?parens ?join
  case single =>
      intro ts e hsingle depth
      rcases hoperand ts e hsingle with ⟨t, rfl, ht⟩
      exact walk_single ht (Leads.number depth)
  case parens =>
      intro opening closing ts e hopening hclosing _ ih depth
      have hfront := (walk_single hopening (Leads.opening depth)).append (ih (depth + 1))
      exact hfront.append (walk_single hclosing (Leads.closing depth))
  case join =>
      intro op front back left right level hop _ ihfront ihback depth
      have hmiddle := walk_single rfl (Leads.operator depth hop)
      exact (ihfront depth).append (hmiddle.append (ihback depth))

/-!
# Walks as expressions
-/

theorem Derives.continued {front back : List Token} {op : Token} {left right : Expr}
    (hop : op.kind.isArithmetic = true) (hfront : Derives operand .expr front left)
    (hback : Derives operand .factor back right) :
    exists e : Expr, Derives operand .expr (front ++ op :: back) e := by
  rcases Kind.priority_of_isArithmetic hop with ⟨_, hkind⟩ | ⟨_, hkind⟩
  · exact ⟨_, Derives.add hkind hfront (Derives.factor hback)⟩
  · -- the factor joins the last term of the expression
    cases hfront with
    | term hterm => exact ⟨_, Derives.term (Derives.multiply hkind hterm hback)⟩
    | @add first last plus _ _ hplus hfirst hlast =>
        have hall := Derives.add hplus hfirst (Derives.multiply hkind hlast hback)
        rw [<- List.cons_append, <- List.append_assoc] at hall
        exact ⟨_, hall⟩

/-- Nothing, or an expression and an operator: what a further operand can stand behind. -/
inductive ChainBegun (operand : List Token -> Expr -> Prop) : List Token -> Prop where
  | nil : ChainBegun operand []
  | link {ts : List Token} {e : Expr} {op : Token} :
      Derives operand .expr ts e -> op.kind.isArithmetic = true ->
      ChainBegun operand (ts ++ [op])

theorem ChainBegun.completed {begun ts : List Token} {e : Expr} (h : ChainBegun operand begun)
    (hts : Derives operand .factor ts e) :
    exists e' : Expr, Derives operand .expr (begun ++ ts) e' := by
  cases h with
  | nil => exact ⟨e, hts.of_factor .expr⟩
  | @link front _ op hfront hop =>
      rw [List.append_assoc]
      exact hfront.continued hop hts

inductive Opened (operand : List Token -> Expr -> Prop) : Nat -> List Token -> Prop where
  | none : Opened operand 0 []
  | more {depth : Nat} {before begun : List Token} {opening : Token} :
      Opened operand depth before -> ChainBegun operand begun -> opening.kind = .openParen ->
      Opened operand (depth + 1) (before ++ begun ++ [opening])

inductive LeadsTo (operand : List Token -> Expr -> Prop) : Place -> List Token -> Prop where
  | operand {depth : Nat} {before begun : List Token} :
      Opened operand depth before -> ChainBegun operand begun ->
      LeadsTo operand ⟨.operand, depth⟩ (before ++ begun)
  | operator {depth : Nat} {before ts : List Token} {e : Expr} :
      Opened operand depth before -> Derives operand .expr ts e ->
      LeadsTo operand ⟨.operator, depth⟩ (before ++ ts)

theorem leadsTo_start : LeadsTo operand ⟨.operand, 0⟩ [] :=
  LeadsTo.operand Opened.none ChainBegun.nil

theorem LeadsTo.next {p q : Place} {read : List Token} {t : Token} (h : LeadsTo operand p read)
    (hlead : Leads p t.kind q) (ht : t.kind = .num -> exists e : Expr, operand [t] e) :
    LeadsTo operand q (read ++ [t]) := by
  generalize hkind : t.kind = k at hlead
  cases hlead with
  | number depth =>
      cases h with
      | operand hbefore hbegun =>
          rcases ht hkind with ⟨e, he⟩
          rcases hbegun.completed (Derives.operand he) with ⟨e', hderives⟩
          rw [List.append_assoc]
          exact LeadsTo.operator hbefore hderives
  | opening depth =>
      cases h with
      | operand hbefore hbegun =>
          have hmore := LeadsTo.operand (Opened.more hbefore hbegun hkind) ChainBegun.nil
          rw [List.append_nil] at hmore
          exact hmore
  | closing depth =>
      cases h with
      | @operator _ _ ts e hbefore hts =>
          cases hbefore with
          | @more _ before begun opening hbefore hbegun hopening =>
              rcases hbegun.completed (Derives.parens hopening hkind hts) with ⟨e', hderives⟩
              have hall := LeadsTo.operator hbefore hderives
              simpa using hall
  | operator depth hop =>
      cases h with
      | operator hbefore hts =>
          rw [List.append_assoc]
          exact LeadsTo.operand hbefore (ChainBegun.link hts (hkind ▸ hop))

theorem LeadsTo.walk {p q : Place} {read ts : List Token} (h : LeadsTo operand p read)
    (hwalk : Walk p ts q)
    (hts : forall t : Token, t ∈ ts -> t.kind = .num -> exists e : Expr, operand [t] e) :
    LeadsTo operand q (read ++ ts) := by
  induction hwalk generalizing read with
  | nil =>
      rw [List.append_nil]
      exact h
  | cons hlead _ ih =>
      rcases List.forall_mem_cons.mp hts with ⟨ht, hrest⟩
      have hall := ih (h.next hlead ht) hrest
      rw [List.append_assoc] at hall
      exact hall

theorem exists_derives_of_walk {ts : List Token} (h : Walk ⟨.operand, 0⟩ ts ⟨.operator, 0⟩)
    (hts : forall t : Token, t ∈ ts -> t.kind = .num -> exists e : Expr, operand [t] e) :
    exists e : Expr, Derives operand .expr ts e := by
  have hall := leadsTo_start.walk h hts
  rw [List.nil_append] at hall
  generalize hp : (⟨.operator, 0⟩ : Place) = p at hall
  cases hall with
  | operand => cases hp
  | operator hbefore hderives =>
      cases hp
      cases hbefore
      exact ⟨_, hderives⟩

/-!
# Matching parentheses
-/

theorem Derives.balanced (hoperand : OneNumber operand) {level : Level} {ts : List Token}
    {e : Expr} (h : Derives operand level ts e) : Balanced ts := by
  refine h.inductionOn ?single ?parens ?join
  case single =>
      intro ts e hsingle
      rcases hoperand ts e hsingle with ⟨t, rfl, ht⟩
      exact Balanced.plain (by simp [ht]) (by simp [ht]) Balanced.nil
  case parens =>
      intro opening closing ts e hopening hclosing _ ih
      exact Balanced.nested hopening hclosing ih Balanced.nil
  case join =>
      intro op front back left right level hop _ ihfront ihback
      exact ihfront.append (Balanced.plain (Kind.ne_of_isArithmetic hop rfl)
        (Kind.ne_of_isArithmetic hop rfl) ihback)

theorem Leads.at_depth {p q : Place} {k : Kind} (h : Leads p k q) (hopening : k ≠ .openParen)
    (hclosing : k ≠ .closeParen) :
    q.depth = p.depth ∧ forall depth : Nat, Leads ⟨p.due, depth⟩ k ⟨q.due, depth⟩ := by
  cases h with
  | number => exact ⟨rfl, Leads.number⟩
  | opening => exact absurd rfl hopening
  | closing => exact absurd rfl hclosing
  | operator _ hop => exact ⟨rfl, fun depth => Leads.operator depth hop⟩

theorem leads_opening {p q : Place} (h : Leads p .openParen q) :
    p.due = .operand ∧ q = ⟨.operand, p.depth + 1⟩ := by
  generalize hk : Kind.openParen = k at h
  cases h with
  | number | closing => cases hk
  | opening => exact ⟨rfl, rfl⟩
  | operator _ hop =>
      rw [<- hk] at hop
      cases hop

theorem leads_closing {p q : Place} (h : Leads p .closeParen q) :
    p = ⟨.operator, q.depth + 1⟩ ∧ q.due = .operator := by
  generalize hk : Kind.closeParen = k at h
  cases h with
  | number | opening => cases hk
  | closing => exact ⟨rfl, rfl⟩
  | operator _ hop =>
      rw [<- hk] at hop
      cases hop

theorem Walk.inside {p r : Place} {opening closing : Token} {inner back : List Token}
    (hopening : opening.kind = .openParen) (hclosing : closing.kind = .closeParen)
    (h : Walk p (opening :: inner ++ closing :: back) r) :
    p.due = .operand ∧
      exists depth : Nat, Walk ⟨.operand, p.depth + 1⟩ inner ⟨.operator, depth + 1⟩ ∧
        Walk ⟨.operator, depth⟩ back r := by
  rw [List.cons_append] at h
  cases h with
  | cons hlead hrest =>
      rw [hopening] at hlead
      rcases leads_opening hlead with ⟨hdue, rfl⟩
      rcases hrest.split with ⟨q, hinner, hbehind⟩
      cases hbehind with
      | @cons _ q' _ _ _ hlead' hback =>
          rw [hclosing] at hlead'
          rcases leads_closing hlead' with ⟨rfl, hdue'⟩
          rw [<- hdue'] at hinner ⊢
          exact ⟨hdue, q'.depth, hdue' ▸ hinner, hback⟩

theorem Walk.at_depth {ts : List Token} (hts : Balanced ts) {p q : Place} (h : Walk p ts q) :
    q.depth = p.depth ∧ forall depth : Nat, Walk ⟨p.due, depth⟩ ts ⟨q.due, depth⟩ := by
  induction hts generalizing p q with
  | nil =>
      cases h
      exact ⟨rfl, fun depth => Walk.nil _⟩
  | plain hopening hclosing _ ih =>
      cases h with
      | cons hlead hrest =>
          rcases hlead.at_depth hopening hclosing with ⟨hsame, hleads⟩
          rcases ih hrest with ⟨hsame', hwalks⟩
          exact ⟨hsame'.trans hsame, fun depth => Walk.cons (hleads depth) (hwalks depth)⟩
  | @nested opening closing inner rest hopening hclosing _ _ ihinner ihrest =>
      rcases h.inside hopening hclosing with ⟨hdue, depth', hinner, hrest⟩
      rcases ihinner hinner with ⟨hsame, hinside⟩
      rcases ihrest hrest with ⟨hsame', hbehind⟩
      obtain rfl : depth' = p.depth := Nat.succ.inj hsame
      refine ⟨hsame', fun depth => ?_⟩
      rw [hdue]
      have hfront := (walk_single hopening (Leads.opening depth)).append (hinside (depth + 1))
      have hback := (walk_single hclosing (Leads.closing depth)).append (hbehind depth)
      exact hfront.append hback

theorem Walk.without_pair {front inner back ts : List Token} (hpair : HasPair front inner back ts)
    {p r : Place} (h : Walk p ts r) : Walk p (front ++ inner ++ back) r := by
  cases hpair with
  | mk hopening hclosing hinner =>
      rcases h.split with ⟨q, hfront, hbehind⟩
      rcases hbehind.inside hopening hclosing with ⟨hdue, depth, hinside, hback⟩
      rcases hinside.at_depth hinner with ⟨hsame, hwalks⟩
      obtain rfl : depth = q.depth := Nat.succ.inj hsame
      have hmiddle := hwalks q.depth
      rw [<- hdue] at hmiddle
      exact (hfront.append hmiddle).append hback

theorem readable_without_pair {front inner back ts : List Token}
    (hpair : HasPair front inner back ts) (h : Readable bound ts) :
    Readable bound (front ++ inner ++ back) := by
  cases hpair with
  | mk _ _ _ =>
      refine fun t ht => h t ?_
      rcases List.mem_append.mp ht with ht | ht
      · rcases List.mem_append.mp ht with ht | ht
        · simp [ht]
        · simp [ht]
      · simp [ht]

theorem Derives.without_pair {front inner back ts : List Token} {e : Expr}
    (hpair : HasPair front inner back ts) (h : Derives (Number bound) .expr ts e)
    (hreadable : Readable bound ts) :
    exists e' : Expr, Derives (Number bound) .expr (front ++ inner ++ back) e' := by
  have hwalk := (h.walk oneNumber_number 0).without_pair hpair
  refine exists_derives_of_walk hwalk fun t ht hnum => ?_
  rcases readable_without_pair hpair hreadable t ht hnum with ⟨value, hvalue⟩
  exact ⟨_, Number.mk hnum hvalue⟩

end Grammar
end Reckon
