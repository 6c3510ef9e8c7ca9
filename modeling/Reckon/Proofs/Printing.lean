import Reckon.Expr.WellFormed
import Reckon.Proofs.Regrouping
import Reckon.Proofs.UnarySigns

/-!
# The tokens of a printed tree

The text of a tree is followed through the lexer and the grammar.  `printed` lists
the tokens that the text consists of, parentheses included, and these tokens
derive the regrouped tree.

A chain that is printed behind an operator of the same strength goes on with the
chain in front of it.  The induction therefore says two things of a tree: what
its tokens derive alone, and what they derive behind an operator.
-/

namespace Reckon

namespace Token

def enclosed (wrapped : Bool) (tokens : List Token) : List Token :=
  if wrapped then ⟨.openParen, "("⟩ :: tokens ++ [⟨.closeParen, ")"⟩] else tokens

end Token

def Expr.printed : Expr -> List Token
  | literal _ _ raw => [⟨.num, raw⟩]
  | binary _ left op right =>
      Token.enclosed (wrapsLeft op left) left.printed ++
        ⟨op, op.text⟩ :: Token.enclosed (wraps op right) right.printed
  | stray => []

namespace Grammar

open Token

variable {bound : DigitBound}

/-!
# Chains and operands
-/

def chainLevel (op : Kind) : Level :=
  if op.priority = 1 then .expr else .term

def operandLevel (op : Kind) : Level :=
  if op.priority = 1 then .term else .factor

variable {operand : List Token -> Expr -> Prop}

theorem Derives.of_factor {ts : List Token} {e : Expr} (h : Derives operand .factor ts e)
    (level : Level) : Derives operand level ts e := by
  cases level with
  | factor => exact h
  | term => exact Derives.factor h
  | expr => exact Derives.term (Derives.factor h)

theorem derives_number {text : String} {value : Int} (h : Numeral.read bound text = .ok value)
    (level : Level) : Derives (Number bound) level [⟨.num, text⟩] (.literal .num value text) := by
  have hnumber : Number bound [⟨.num, text⟩] (.literal .num value text) := Number.mk rfl h
  exact (Derives.operand hnumber).of_factor level

theorem Derives.of_operandLevel {op : Kind} {ts : List Token} {e : Expr}
    (h : Derives operand (operandLevel op) ts e) : Derives operand (chainLevel op) ts e := by
  by_cases hop : op.priority = 1
  · rw [operandLevel, if_pos hop] at h
    rw [chainLevel, if_pos hop]
    exact Derives.term h
  · rw [operandLevel, if_neg hop] at h
    rw [chainLevel, if_neg hop]
    exact Derives.factor h

theorem Derives.link {op : Token} (hop : op.kind.isArithmetic = true) {front back : List Token}
    {left right : Expr} (hfront : Derives operand (chainLevel op.kind) front left)
    (hback : Derives operand (operandLevel op.kind) back right) :
    Derives operand (chainLevel op.kind) (front ++ op :: back) (.join left op.kind right) := by
  unfold chainLevel at hfront ⊢
  unfold operandLevel at hback
  rcases Kind.priority_of_isArithmetic hop with ⟨hpriority, hkind⟩ | ⟨hpriority, hkind⟩
  · rw [hpriority] at hfront hback ⊢
    exact Derives.add hkind hfront hback
  · rw [hpriority] at hfront hback ⊢
    exact Derives.multiply hkind hfront hback

theorem Derives.enclosed {ts : List Token} {e : Expr} (h : Derives operand .expr ts e) :
    Derives operand .factor (Token.enclosed true ts) e :=
  Derives.parens rfl rfl h

/-!
# Printed tokens alone and behind an operator
-/

/-- Tokens that derive a tree as a chain of an operator's strength, and that derive its
graft when they stand behind this operator. -/
structure Continues (bound : DigitBound) (op : Token) (ts : List Token) (e : Expr) : Prop where
  alone : Derives (Number bound) (chainLevel op.kind) ts e
  behind : forall {front : List Token} {left : Expr},
    Derives (Number bound) (chainLevel op.kind) front left ->
      Derives (Number bound) (chainLevel op.kind) (front ++ op :: ts) (.graft op.kind left e)

/-- An operand that binds tighter than an operator, or weaker and stands in parentheses,
becomes the right operand of the operator. -/
theorem continues_of_operand {op : Token} {ts : List Token} {e : Expr}
    (hop : op.kind.isArithmetic = true) (hpriority : e.priority? ≠ some op.kind.priority)
    (h : Derives (Number bound) (operandLevel op.kind) ts e) : Continues bound op ts e where
  alone := h.of_operandLevel
  behind := by
    intro front left hfront
    rw [Expr.graft_of_priority_ne hpriority]
    exact Derives.link hop hfront h

@[simp] theorem priority?_regrouped (e : Expr) : e.regrouped.priority? = e.priority? :=
  (Expr.alike_regrouped e).priority

theorem continues_left (op : Token) (hop : op.kind.isArithmetic = true) {e : Expr}
    (hexpr : Derives (Number bound) .expr e.printed e.regrouped)
    (h : Expr.wrapsLeft op.kind e = false -> Continues bound op e.printed e.regrouped) :
    Continues bound op (enclosed (Expr.wrapsLeft op.kind e) e.printed) e.regrouped := by
  cases hwraps : Expr.wrapsLeft op.kind e with
  | false => exact h hwraps
  | true =>
      refine continues_of_operand hop ?_ (hexpr.enclosed.of_factor _)
      intro hpriority
      rw [priority?_regrouped] at hpriority
      rw [Expr.wrapsLeft_eq, hpriority] at hwraps
      simp at hwraps

def extended (op : Kind) (right left : Expr) : Expr :=
  if Expr.wraps op right then .join left op right.regrouped else .graft op left right.regrouped

theorem extend_right (op : Token) (hop : op.kind.isArithmetic = true) {e : Expr}
    (hexpr : Derives (Number bound) .expr e.printed e.regrouped)
    (h : Expr.wrapsLeft op.kind e = false -> Continues bound op e.printed e.regrouped)
    {front : List Token} {left : Expr}
    (hfront : Derives (Number bound) (chainLevel op.kind) front left) :
    Derives (Number bound) (chainLevel op.kind)
      (front ++ op :: enclosed (Expr.wraps op.kind e) e.printed) (extended op.kind e left) := by
  cases hwraps : Expr.wraps op.kind e with
  | false =>
      have hright := Expr.wrapsRight_eq_false_iff.mp (Bool.or_eq_false_iff.mp hwraps).left
      rw [extended, if_neg (by rw [hwraps]; exact Bool.false_ne_true)]
      exact (h hright.left).behind hfront
  | true =>
      rw [extended, if_pos hwraps]
      exact Derives.link hop hfront (hexpr.enclosed.of_factor _)

theorem graft_extended {op o : Kind} (hsame : o.priority = op.priority) (right left middle : Expr) :
    Expr.graft op left (extended o right middle) = extended o right (.graft op left middle) := by
  unfold extended
  split
  · exact Expr.graft_binary hsame _ left middle _
  · exact Expr.graft_graft hsame left middle _

theorem wrapsLeft_plus {e : Expr} (h : Expr.WellFormed bound e) :
    Expr.wrapsLeft .plus e = false := by
  cases h with
  | literal => rfl
  | @join left right op hop _ _ =>
      cases op <;> rfl

/-- The printed tokens of a tree derive the regrouped tree wherever no parentheses are
needed around them. -/
def Prints (bound : DigitBound) (e : Expr) : Prop :=
  forall op : Token, op.kind.isArithmetic = true -> Expr.wrapsLeft op.kind e = false ->
    Continues bound op e.printed e.regrouped

theorem Prints.expr {e : Expr} (h : Prints bound e) (hwell : Expr.WellFormed bound e) :
    Derives (Number bound) .expr e.printed e.regrouped :=
  -- no tree binds weaker than `+`
  (h ⟨.plus, "+"⟩ rfl (wrapsLeft_plus hwell)).alone

theorem prints_literal {value : Int} {raw : String} (hvalue : Numeral.read bound raw = .ok value) :
    Prints bound (.literal .num value raw) := by
  intro op hop _
  refine continues_of_operand hop ?_ (derives_number hvalue _)
  rw [priority?_regrouped]
  intro hpriority
  cases hpriority

theorem chainLevel_eq_operandLevel {op o : Kind} (hop : op.isArithmetic = true)
    (ho : o.isArithmetic = true) (hdifferent : o.priority ≠ op.priority)
    (hlow : ¬ o.priority < op.priority) : chainLevel o = operandLevel op := by
  rcases Kind.priority_of_isArithmetic hop with ⟨hpriority, _⟩ | ⟨hpriority, _⟩
  · rcases Kind.priority_of_isArithmetic ho with ⟨hpriority', _⟩ | ⟨hpriority', _⟩
    · exact absurd (hpriority'.trans hpriority.symm) hdifferent
    · simp [chainLevel, operandLevel, hpriority, hpriority']
  · rcases Kind.priority_of_isArithmetic ho with ⟨hpriority', _⟩ | ⟨hpriority', _⟩
    · simp [hpriority, hpriority'] at hlow
    · exact absurd (hpriority'.trans hpriority.symm) hdifferent

theorem prints_join {left right : Expr} {o : Kind} (ho : o.isArithmetic = true)
    (hleft : Derives (Number bound) .expr left.printed left.regrouped) (ihleft : Prints bound left)
    (hright : Derives (Number bound) .expr right.printed right.regrouped)
    (ihright : Prints bound right) :
    Prints bound (.join left o right) := by
  have hextend : forall {front : List Token} {first : Expr},
      Derives (Number bound) (chainLevel o) front first ->
        Derives (Number bound) (chainLevel o)
          (front ++ ⟨o, o.text⟩ :: enclosed (Expr.wraps o right) right.printed)
          (extended o right first) := by
    intro front first hfirst
    exact extend_right ⟨o, o.text⟩ ho hright (ihright _ ho) hfirst
  have hfirst := continues_left ⟨o, o.text⟩ ho hleft (ihleft _ ho)
  have halone := hextend hfirst.alone
  intro op hop hlow
  by_cases hsame : o.priority = op.kind.priority
  · have hlevel : chainLevel op.kind = chainLevel o := by
      rw [chainLevel, chainLevel, hsame]
    have hwraps : Expr.wrapsLeft o left = Expr.wrapsLeft op.kind left := by
      rw [Expr.wrapsLeft_eq, Expr.wrapsLeft_eq, hsame]
    have hfirst' := continues_left op hop hleft (ihleft _ hop)
    constructor
    · rw [hlevel]
      exact halone
    · intro front first hfront
      have hbehind := hfirst'.behind hfront
      rw [hlevel, <- hwraps] at hbehind
      have hall := hextend hbehind
      rw [<- graft_extended hsame, List.append_assoc, List.cons_append] at hall
      rw [hlevel]
      exact hall
  · have hlevel : chainLevel o = operandLevel op.kind :=
      chainLevel_eq_operandLevel hop ho hsame (by simpa [Expr.join, Expr.wrapsLeft] using hlow)
    rw [hlevel] at halone
    refine continues_of_operand hop ?_ halone
    rw [priority?_regrouped]
    exact fun hpriority => hsame (Option.some.inj hpriority)

theorem prints {e : Expr} (h : Expr.WellFormed bound e) : Prints bound e := by
  induction h with
  | literal _ hvalue => exact prints_literal hvalue
  | join hop hleft hright ihleft ihright =>
      exact prints_join hop (ihleft.expr hleft) ihleft (ihright.expr hright) ihright

theorem derives_printed {e : Expr} (h : Expr.WellFormed bound e) :
    Derives (Number bound) .expr e.printed e.regrouped :=
  (prints h).expr h

end Grammar

/-!
# The spelling of a printed tree
-/

/-- Languages in which the layout of printed trees can be read: the space separates
tokens, and parentheses are operators. -/
structure Language.HasLayout (lang : Language) : Prop where
  space : lang.isBlank ' ' = true
  opening : lang.isOperator '(' = true
  closing : lang.isOperator ')' = true

theorem Language.arith_hasLayout : Language.arith.HasLayout where
  space := by decide
  opening := by decide
  closing := by decide

namespace Token

variable {lang : Language}

def SpellsFolded (lang : Language) (cs : List Char) (ts : List Token) : Prop :=
  exists raw : List Token, Spells lang cs raw ∧ FoldsTo lang.foldSigns raw ts

theorem spellsFolded_nil : SpellsFolded lang [] [] :=
  ⟨[], spells_nil.mpr rfl, FoldsTo.nil⟩

theorem SpellsFolded.operator {cs gap gap' more : List Char} {ts us : List Token} {t : Token}
    (h : SpellsFolded lang cs ts) (hgap : IsGap lang gap) (ht : Written lang t)
    (hkind : t.kind ≠ .num) (hgap' : IsGap lang gap') (hmore : SpellsFolded lang more us) :
    SpellsFolded lang (cs ++ (gap ++ (t.text.toList ++ (gap' ++ more)))) (ts ++ t :: us) := by
  rcases h with ⟨raw, hraw, hfolds⟩
  rcases hmore with ⟨rawMore, hrawMore, hfoldsMore⟩
  refine ⟨raw ++ t :: rawMore, ?_, hfolds.append (FoldsTo.keep hfoldsMore)⟩
  have hkept : Kept lang t rawMore (gap' ++ more) := by
    intro hrun
    cases rawMore with
    | nil => cases hrun
    | cons u rest => exact absurd hrun.left hkind
  have hback : Spells lang (gap ++ (t.text.toList ++ (gap' ++ more))) (t :: rawMore) :=
    (spells_gap hgap).mpr (Spells.cons ht ((spells_gap hgap').mpr hrawMore) hkept)
  refine hraw.append hback ?_
  intro u hu
  obtain rfl : t = u := by simpa using hu
  exact hkind

theorem spellsFolded_number {text : String} (h : Emitted lang ⟨.num, text⟩) :
    SpellsFolded lang text.toList [⟨.num, text⟩] := by
  have hlast : forall {t : Token}, Written lang t -> Spells lang t.text.toList [t] := by
    intro t ht
    have hspells := Spells.cons ht (spells_nil.mpr rfl) fun hrun => absurd hrun id
    rw [List.append_nil] at hspells
    exact hspells
  generalize ht : (⟨.num, text⟩ : Token) = t at h
  cases h with
  | written hwritten =>
      rw [<- ht] at hwritten ⊢
      exact ⟨_, hlast hwritten, FoldsTo.refl _ _⟩
  | @negative digits hfold hminus hwritten =>
      rw [Token.mk.injEq] at ht
      rw [ht.right]
      refine ⟨[⟨.minus, "-"⟩, ⟨.num, digits⟩], ?_, FoldsTo.sign hfold rfl rfl FoldsTo.nil⟩
      rw [Numeral.toList_minus]
      exact (spells_operator hminus rfl).mpr ⟨_, rfl, hlast hwritten⟩

theorem SpellsFolded.enclosed (hopening : lang.isOperator '(' = true)
    (hclosing : lang.isOperator ')' = true) {text : String} {ts : List Token}
    (h : SpellsFolded lang text.toList ts) (wrapped : Bool) :
    SpellsFolded lang (Expr.parenthesized wrapped text).toList (Token.enclosed wrapped ts) := by
  cases wrapped with
  | false => exact h
  | true =>
      have hnone : IsGap lang [] := by simp [IsGap]
      have hbefore : Written lang ⟨.openParen, "("⟩ := Written.operator hopening rfl
      have hbehind : Written lang ⟨.closeParen, ")"⟩ := Written.operator hclosing rfl
      have hinside := h.operator hnone hbehind (by simp) hnone spellsFolded_nil
      have hall := spellsFolded_nil.operator hnone hbefore (by simp) hnone hinside
      simpa [Expr.parenthesized, Token.enclosed] using hall

theorem spellsFolded_printed (hlayout : lang.HasLayout) {e : Expr} (h : Expr.WellFormed bound e)
    (hemitted : forall t : Token, t ∈ e.tokens -> Emitted lang t) :
    exists text : String,
      e.format = .ok text ∧ SpellsFolded lang text.toList e.printed := by
  induction h with
  | @literal value raw _ _ =>
      exact ⟨raw, rfl, spellsFolded_number (hemitted _ List.mem_cons_self)⟩
  | @join left right op hop _ _ ihleft ihright =>
      rw [Expr.tokens_join] at hemitted
      rcases ihleft fun t ht => hemitted t (by simp [ht]) with ⟨lhs, hlhs, hleft⟩
      rcases ihright fun t ht => hemitted t (by simp [ht]) with ⟨rhs, hrhs, hright⟩
      refine ⟨_, Expr.format_of_operands hlhs hrhs, ?_⟩
      have hspace : IsGap lang [' '] := by simpa [IsGap] using hlayout.space
      have hkind : op ≠ .num := Kind.ne_of_isArithmetic hop rfl
      have hwritten : Written lang ⟨op, op.text⟩ :=
        (hemitted ⟨op, op.text⟩ (by simp)).written_of_ne_num hkind
      have hfirst := hleft.enclosed hlayout.opening hlayout.closing (Expr.wrapsLeft op left)
      have hsecond := hright.enclosed hlayout.opening hlayout.closing (Expr.wraps op right)
      have hall := hfirst.operator hspace hwritten hkind hspace hsecond
      simpa [Expr.printed, Expr.join] using hall

end Token

/-!
# Reading a spelling
-/

namespace Grammar

open Token

variable {lang : Language}

theorem lex_eq_ok_of_spellsFolded {level : Level} {text : String} {ts : List Token} {e : Expr}
    (hspells : SpellsFolded lang text.toList ts) (hderives : Derives (Number bound) level ts e) :
    Lexer.lex lang text = .ok ts := by
  rcases hspells with ⟨raw, hraw, hfolds⟩
  refine Lexer.lex_eq_ok_iff_spells.mpr ⟨?_, raw, hraw, hderives.resolve_eq hfolds⟩
  intro hempty
  rw [hempty] at hraw
  rw [spells_nil.mp hraw] at hfolds
  cases hfolds
  exact hderives.number_ne_nil rfl

theorem build_eq_ok_iff_spellsFolded {text : String} {root : Expr} :
    build bound lang text = .done (.ok root) <->
      exists ts : List Token,
        SpellsFolded lang text.toList ts ∧ Derives (Number bound) .expr ts root := by
  constructor
  · intro h
    rcases build_eq_ok_iff.mp h with ⟨ts, hlex, hderives⟩
    rcases Lexer.lex_eq_ok_iff_spells.mp hlex with ⟨_, raw, hraw, rfl⟩
    exact ⟨_, ⟨raw, hraw, foldsTo_resolve lang raw⟩, hderives⟩
  · rintro ⟨ts, hspells, hderives⟩
    exact build_eq_ok_iff.mpr ⟨ts, lex_eq_ok_of_spellsFolded hspells hderives, hderives⟩

end Grammar
end Reckon
