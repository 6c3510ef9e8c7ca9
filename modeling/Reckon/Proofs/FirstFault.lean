import Mathlib.Data.Int.Order.Lemmas
import Reckon.Expr.Faults
import Reckon.Proofs.Numerals

/-!
# Which fault stops an evaluation

A tree without faulty nodes has a value.  Otherwise evaluation stops at the faulty node
that comes first when operands are listed before their nodes: the operands of this node
are free of faults, so that it has whatever values its own fault speaks of.

A quotient is computed from magnitudes and signs.  That it is rounded toward zero is
shown by way of what is left over.
-/

namespace Reckon
namespace Expr

/-!
# Quotients
-/

theorem quotient_eq_tdiv (x y : Int) : quotient x y = x.tdiv y := by
  have hnat : forall m : Nat, ¬ Int.ofNat m < 0 := fun m => Int.not_lt.mpr (Int.natCast_nonneg m)
  rw [quotient]
  cases x with
  | ofNat m =>
      cases y with
      | ofNat n => exact if_pos (iff_of_false (hnat m) (hnat n))
      | negSucc n => exact if_neg fun h => hnat m (h.mpr (Int.negSucc_lt_zero n))
  | negSucc m =>
      cases y with
      | ofNat n => exact if_neg fun h => hnat n (h.mp (Int.negSucc_lt_zero m))
      | negSucc n => exact if_pos (iff_of_true (Int.negSucc_lt_zero m) (Int.negSucc_lt_zero n))

theorem isQuotient_quotient (x : Int) {y : Int} (hy : y ≠ 0) : IsQuotient x y (quotient x y) := by
  rw [quotient_eq_tdiv]
  refine ⟨x.tmod y, (Int.tdiv_mul_add_tmod x y).symm, ?_, ?_⟩
  · rw [Int.abs_eq_natAbs, Int.abs_eq_natAbs, Int.natAbs_tmod, Int.ofNat_lt]
    exact Nat.mod_lt _ (Int.natAbs_pos.mpr hy)
  · rw [Int.sign_tmod]
    by_cases hdvd : y ∣ x
    · exact Or.inl (Int.tmod_eq_zero_of_dvd hdvd)
    · exact Or.inr (if_neg hdvd)

theorem IsQuotient.eq_quotient {x y q : Int} (h : IsQuotient x y q) (hy : y ≠ 0) :
    q = quotient x y := by
  rcases h with ⟨r, hx, hsmall, hsign⟩
  rw [quotient_eq_tdiv]
  have hsum : r + y * q = x := by rw [hx, Int.mul_comm, Int.add_comm]
  rw [Int.abs_eq_natAbs y, abs_lt] at hsmall
  -- the sign of the dividend decides on which side of zero the remainder lies
  rcases Int.le_total 0 x with hpos | hneg
  · have hr : 0 ≤ r := by
      rcases hsign with rfl | hsign
      · exact Int.le_refl 0
      · rw [<- Int.sign_nonneg_iff, hsign]
        exact Int.sign_nonneg_iff.mpr hpos
    exact ((Int.tdiv_tmod_unique hpos hy).mpr ⟨hsum, hr, hsmall.right⟩).left.symm
  · have hr : r ≤ 0 := by
      rcases hsign with rfl | hsign
      · exact Int.le_refl 0
      · rw [<- Int.sign_nonpos_iff, hsign]
        exact Int.sign_nonpos_iff.mpr hneg
    exact ((Int.tdiv_tmod_unique' hneg hy).mpr ⟨hsum, hsmall.left, hr⟩).left.symm

/-!
# Values
-/

variable {bound : DigitBound}

theorem computes_iff_apply {op : Kind} {x y z : Int} :
    Computes op x y z <-> apply bound op x y = .ok z := by
  constructor
  · intro h
    cases h with
    | plus | minus | star => rfl
    | slash hy hz => rw [apply, divide, if_neg hy, hz.eq_quotient hy]
  · intro h
    cases op with
    | plus =>
        cases h
        exact Computes.plus x y
    | minus =>
        cases h
        exact Computes.minus x y
    | star =>
        cases h
        exact Computes.star x y
    | slash =>
        rw [apply, divide] at h
        by_cases hy : y = 0
        · rw [if_pos hy] at h
          cases h
        · rw [if_neg hy] at h
          cases h
          exact Computes.slash hy (isQuotient_quotient x hy)
    | _ => cases h

theorem evaluates_iff_eval {e : Expr} {z : Int} : Evaluates e z <-> e.eval bound = .ok z := by
  induction e generalizing z with
  | literal kind value raw =>
      constructor
      · intro h
        cases h
        rfl
      · intro h
        cases h
        exact Evaluates.literal kind value raw
  | binary kind left op right ihleft ihright =>
      rw [eval_binary]
      constructor
      · intro h
        cases h with
        | binary hleft hright hz =>
            rw [ihleft.mp hleft, ihright.mp hright]
            exact computes_iff_apply.mp hz
      · intro h
        cases hx : left.eval bound with
        | error fault => simp [hx, Except.bind] at h
        | ok x =>
            cases hy : right.eval bound with
            | error fault => simp [hx, hy, Except.bind] at h
            | ok y =>
                rw [hx, hy] at h
                exact Evaluates.binary (ihleft.mpr hx) (ihright.mpr hy) (computes_iff_apply.mpr h)
  | stray =>
      constructor
      · intro h
        cases h
      · intro h
        cases h

@[simp] theorem eval_unlabelled (e : Expr) : e.unlabelled.eval bound = e.eval bound := by
  induction e with
  | literal => rfl
  | binary kind left op right ihleft ihright =>
      rw [unlabelled, eval_binary, eval_binary, ihleft, ihright]
  | stray => rfl

/-!
# One node
-/

theorem not_faulty_literal (kind : Kind) (value : Int) (raw : String) :
    ¬ Faulty (literal kind value raw) := by
  intro h
  cases h

theorem Evaluates.unique {e : Expr} {x y : Int} (h : Evaluates e x) (h' : Evaluates e y) :
    x = y := by
  have hx : e.eval .standard = .ok x := evaluates_iff_eval.mp h
  have hy : e.eval .standard = .ok y := evaluates_iff_eval.mp h'
  rw [hx] at hy
  exact Except.ok.inj hy

theorem Raises.of_division {kind : Kind} {left right : Expr} {x : Int} (hx : Evaluates left x)
    (hzero : Evaluates right 0) :
    Raises bound (binary kind left .slash right) (.ofDivision bound x) := by
  unfold Fault.ofDivision
  cases hwrite : Numeral.write bound x with
  | ok text => exact Raises.division hx hzero hwrite
  | error e => exact Raises.unwritable hx hzero hwrite

theorem Raises.eq_ofDivision {kind : Kind} {left right : Expr} {x : Int} {fault : Fault}
    (hx : Evaluates left x) (h : Raises bound (binary kind left .slash right) fault) :
    fault = .ofDivision bound x := by
  cases h with
  | operator hop => cases hop
  | division hx' _ hwrite =>
      rw [hx.unique hx', Fault.ofDivision, hwrite]
  | unwritable hx' _ hwrite =>
      rw [hx.unique hx', Fault.ofDivision, hwrite]

theorem Raises.unique {e : Expr} {fault fault' : Fault} (h : Raises bound e fault)
    (h' : Raises bound e fault') : fault = fault' := by
  cases h with
  | stray =>
      cases h'
      rfl
  | operator hop =>
      cases h' with
      | operator => rfl
      | division | unwritable => cases hop
  | division hx _ hwrite => rw [h'.eq_ofDivision hx, Fault.ofDivision, hwrite]
  | unwritable hx _ hwrite => rw [h'.eq_ofDivision hx, Fault.ofDivision, hwrite]

/-!
# Messages
-/

theorem names_append (front part back : String) : Names (front ++ part ++ back) part :=
  ⟨front, back, rfl⟩

theorem names_end (front part : String) : Names (front ++ part) part :=
  ⟨front, "", by rw [String.append_empty]⟩

theorem blames_ofDivision (x : Int) :
    Blames bound .slash x 0 (Fault.ofDivision bound x).errorClass
      (Fault.ofDivision bound x).message := by
  unfold Fault.ofDivision
  cases hwrite : Numeral.write bound x with
  | ok text =>
      refine Blames.division hwrite ?_
      rw [(Numeral.write_eq_ok_iff.mp hwrite).right]
      exact names_append "division by zero in `" _ " / 0`"
  | error e => exact Blames.unwritable hwrite

theorem blames_of_apply {op : Kind} {x y : Int} {fault : Fault}
    (h : apply bound op x y = .error fault) :
    Blames bound op x y fault.errorClass fault.message := by
  cases op with
  | plus | minus | star => cases h
  | slash =>
      rw [apply, divide] at h
      by_cases hy : y = 0
      · rw [if_pos hy] at h
        cases h
        rw [hy]
        exact blames_ofDivision x
      · rw [if_neg hy] at h
        cases h
  | _ =>
      cases h
      exact Blames.operator rfl (names_end "unexpected operator: " _)

/-!
# Operands that have values
-/

section

variable {kind op : Kind} {left right : Expr} {x y : Int}

theorem eval_of_operands (hx : left.eval bound = .ok x) (hy : right.eval bound = .ok y) :
    (binary kind left op right).eval bound = apply bound op x y := by
  rw [eval_binary, hx, hy]
  rfl

theorem faulty_iff_of_operands (hy : right.eval bound = .ok y) :
    Faulty (binary kind left op right) <-> op.isArithmetic = false ∨ op = .slash ∧ y = 0 := by
  constructor
  · intro h
    cases h with
    | operator hop => exact Or.inl hop
    | division hzero =>
        rw [evaluates_iff_eval, hy] at hzero
        exact Or.inr ⟨rfl, Except.ok.inj hzero⟩
  · intro h
    rcases h with hop | ⟨rfl, rfl⟩
    · exact Faulty.operator hop
    · exact Faulty.division (evaluates_iff_eval.mpr hy)

theorem eval_of_not_faulty (hx : left.eval bound = .ok x) (hy : right.eval bound = .ok y)
    (h : ¬ Faulty (binary kind left op right)) :
    exists z : Int, (binary kind left op right).eval bound = .ok z := by
  rw [faulty_iff_of_operands hy] at h
  rw [eval_of_operands hx hy]
  cases op with
  | plus => exact ⟨x + y, rfl⟩
  | minus => exact ⟨x - y, rfl⟩
  | star => exact ⟨x * y, rfl⟩
  | slash =>
      have hzero : y ≠ 0 := fun hzero => h (Or.inr ⟨rfl, hzero⟩)
      exact ⟨quotient x y, if_neg hzero⟩
  | _ => exact absurd (Or.inl rfl) h

theorem eval_of_faulty (hx : left.eval bound = .ok x) (hy : right.eval bound = .ok y)
    (h : Faulty (binary kind left op right)) :
    exists fault : Fault, (binary kind left op right).eval bound = .error fault ∧
      Raises bound (binary kind left op right) fault ∧
      Reported bound (binary kind left op right) fault.errorClass fault.message := by
  have hleft := evaluates_iff_eval.mpr hx
  have hright := evaluates_iff_eval.mpr hy
  have hraises : exists fault : Fault, apply bound op x y = .error fault ∧
      Raises bound (binary kind left op right) fault := by
    rcases (faulty_iff_of_operands hy).mp h with hop | ⟨rfl, rfl⟩
    · refine ⟨.unexpectedOperator op, ?_, Raises.operator hop⟩
      cases op with
      | plus | minus | star | slash => cases hop
      | _ => rfl
    · exact ⟨.ofDivision bound x, rfl, Raises.of_division hleft hright⟩
  rcases hraises with ⟨fault, hfault, hraises⟩
  exact ⟨fault, by rw [eval_of_operands hx hy, hfault], hraises,
    Reported.binary hleft hright (blames_of_apply hfault)⟩

end

/-!
# All nodes in their order
-/

theorem FirstFaulty.of_append {nodes more : List Expr} {node : Expr}
    (h : FirstFaulty (nodes ++ more) node) :
    FirstFaulty nodes node ∨
      (forall n : Expr, n ∈ nodes -> ¬ Faulty n) ∧ FirstFaulty more node := by
  rcases h with ⟨front, back, hnodes, hfront, hnode⟩
  rcases List.append_eq_append_iff.mp hnodes with ⟨front', rfl, hmore⟩ | ⟨rest, rfl, hrest⟩
  · rw [List.forall_mem_append] at hfront
    exact Or.inr ⟨hfront.left, front', back, hmore, hfront.right, hnode⟩
  · rcases List.append_eq_cons_iff.mp hrest.symm with ⟨rfl, hmore⟩ | ⟨back', rfl, _⟩
    · rw [List.append_nil]
      exact Or.inr ⟨hfront, [], back, hmore, by simp, hnode⟩
    · exact Or.inl ⟨front, back', rfl, hfront, hnode⟩

theorem exists_firstFaulty {nodes : List Expr} (h : exists n : Expr, n ∈ nodes ∧ Faulty n) :
    exists node : Expr, FirstFaulty nodes node := by
  induction nodes with
  | nil =>
      rcases h with ⟨n, hn, _⟩
      cases hn
  | cons m nodes ih =>
      by_cases hm : Faulty m
      · exact ⟨m, [], nodes, rfl, by simp, hm⟩
      · have hrest : exists n : Expr, n ∈ nodes ∧ Faulty n := by
          rcases h with ⟨n, hn, hfaulty⟩
          rcases List.mem_cons.mp hn with rfl | hn
          · exact absurd hfaulty hm
          · exact ⟨n, hn, hfaulty⟩
        rcases ih hrest with ⟨node, front, back, rfl, hfront, hnode⟩
        exact ⟨node, m :: front, back, rfl, List.forall_mem_cons.mpr ⟨hm, hfront⟩, hnode⟩

theorem eval_of_none_faulty {e : Expr} (h : forall n : Expr, n ∈ e.postorder -> ¬ Faulty n) :
    exists z : Int, e.eval bound = .ok z := by
  induction e with
  | literal kind value raw => exact ⟨value, rfl⟩
  | binary kind left op right ihleft ihright =>
      rw [postorder, List.forall_mem_append, List.forall_mem_append] at h
      rcases ihleft h.left.left with ⟨x, hx⟩
      rcases ihright h.left.right with ⟨y, hy⟩
      exact eval_of_not_faulty hx hy (h.right _ List.mem_cons_self)
  | stray => exact absurd Faulty.stray (h stray List.mem_cons_self)

theorem FirstFaulty.eq_of_singleton {e node : Expr} (h : FirstFaulty [e] node) :
    node = e ∧ Faulty e := by
  rcases h with ⟨front, back, hnodes, _, hnode⟩
  rcases List.append_eq_cons_iff.mp hnodes.symm with ⟨rfl, hnode'⟩ | ⟨front', rfl, hnone⟩
  · cases hnode'
    exact ⟨rfl, hnode⟩
  · simp at hnone

theorem eval_of_firstFaulty {e node : Expr} (h : FirstFaulty e.postorder node) :
    exists fault : Fault, e.eval bound = .error fault ∧ Raises bound node fault ∧
      Reported bound node fault.errorClass fault.message := by
  induction e with
  | literal kind value raw =>
      exact absurd h.eq_of_singleton.right (not_faulty_literal kind value raw)
  | binary kind left op right ihleft ihright =>
      rw [postorder] at h
      rcases h.of_append with h | ⟨hnone, h⟩
      · rcases h.of_append with h | ⟨hnone, h⟩
        · rcases ihleft h with ⟨fault, hleft, hfault⟩
          exact ⟨fault, by rw [eval_binary, hleft]; rfl, hfault⟩
        · rcases eval_of_none_faulty hnone with ⟨x, hx⟩
          rcases ihright h with ⟨fault, hright, hfault⟩
          exact ⟨fault, by rw [eval_binary, hx, hright]; rfl, hfault⟩
      · rw [List.forall_mem_append] at hnone
        rcases eval_of_none_faulty hnone.left with ⟨x, hx⟩
        rcases eval_of_none_faulty hnone.right with ⟨y, hy⟩
        rcases h.eq_of_singleton with ⟨rfl, hfaulty⟩
        exact eval_of_faulty hx hy hfaulty
  | stray =>
      rcases h.eq_of_singleton with ⟨rfl, _⟩
      exact ⟨.strayNode, rfl, Raises.stray, Reported.stray (names_end "cannot visit " "Node")⟩

/-- A tree without faulty nodes has the one value that its parts give it, any other tree
the fault of its first faulty node, which is reported by the class and the message that
this node calls for; quotients are what truncating division makes them, and neither the
kinds of nodes and literals nor the texts of literals matter. -/
theorem eval_first_fault (bound : DigitBound) (e : Expr) :
    ((forall n : Expr, n ∈ e.postorder -> ¬ Faulty n) ->
      exists z : Int, e.eval bound = .ok z ∧ forall w : Int, Evaluates e w <-> w = z) ∧
    ((exists n : Expr, n ∈ e.postorder ∧ Faulty n) ->
      exists node : Expr, FirstFaulty e.postorder node) ∧
    (forall node : Expr, FirstFaulty e.postorder node ->
      exists fault : Fault, e.eval bound = .error fault ∧
        Reported bound node fault.errorClass fault.message ∧
        forall fault' : Fault, Raises bound node fault' <-> fault' = fault) ∧
    (forall x y : Int, y ≠ 0 -> exists q : Int, forall p : Int, IsQuotient x y p <-> p = q) ∧
    (forall e' : Expr, e'.unlabelled = e.unlabelled -> e'.eval bound = e.eval bound) := by
  refine ⟨?value, exists_firstFaulty, ?fault, ?quotient, ?labels⟩
  case value =>
      intro hnone
      rcases eval_of_none_faulty hnone with ⟨z, hz⟩
      refine ⟨z, hz, fun w => ?_⟩
      rw [evaluates_iff_eval, hz, Except.ok.injEq]
      exact eq_comm
  case fault =>
      intro node hfirst
      rcases eval_of_firstFaulty hfirst with ⟨fault, heval, hraises, hreported⟩
      refine ⟨fault, heval, hreported, fun fault' => ?_⟩
      constructor
      · intro h
        exact h.unique hraises
      · intro hsame
        rw [hsame]
        exact hraises
  case quotient =>
      intro x y hy
      refine ⟨quotient x y, fun p => ?_⟩
      constructor
      · intro h
        exact h.eq_quotient hy
      · intro hsame
        rw [hsame]
        exact isQuotient_quotient x hy
  case labels =>
      intro e' h
      rw [<- eval_unlabelled e', h, eval_unlabelled]

theorem eval_first_fault_of_three :
    exists fault : Fault,
      (binary .unknown (binary .mulExpr (literal .num (-7) "seven") .slash (literal .num 0 ""))
        .openParen stray).eval .standard = .error fault ∧
      fault = .divisionByZero (-7) ∧ fault.errorClass = .zeroDivision ∧
      fault.message = "division by zero in `-7 / 0`" := by
  have hzero : Evaluates (literal .num 0 "") 0 := Evaluates.literal .num 0 ""
  have hfirst : FirstFaulty
      (binary .unknown (binary .mulExpr (literal .num (-7) "seven") .slash (literal .num 0 ""))
        .openParen stray).postorder
      (binary .mulExpr (literal .num (-7) "seven") .slash (literal .num 0 "")) := by
    refine ⟨[literal .num (-7) "seven", literal .num 0 ""], _, rfl, ?_, Faulty.division hzero⟩
    simp [not_faulty_literal]
  rcases (eval_first_fault .standard _).right.right.left _ hfirst with
    ⟨fault, heval, _, hraises⟩
  have hfault : fault = .divisionByZero (-7) :=
    ((hraises _).mp (Raises.division (Evaluates.literal .num (-7) "seven") hzero rfl)).symm
  exact ⟨fault, heval, hfault, by rw [hfault]; rfl, by rw [hfault]; rfl⟩

def overZero (x : Int) : Expr :=
  binary .divExpr (literal .num x "") .slash (literal .num 0 "0")

theorem firstFaulty_overZero (x : Int) : FirstFaulty (overZero x).postorder (overZero x) := by
  refine ⟨[literal .num x "", literal .num 0 "0"], [], rfl, ?_, ?_⟩
  · simp [not_faulty_literal]
  · exact Faulty.division (Evaluates.literal .num 0 "0")

theorem ofDivision_pow (allowed : Nat) (generous : 640 ≤ allowed) :
    Fault.ofDivision (.most allowed generous) (10 ^ allowed) = .unwritable ⟨allowed⟩ := by
  rw [Fault.ofDivision, Numeral.write_pow]

theorem eval_overZero (x : Int) : (overZero x).eval bound = .error (.ofDivision bound x) :=
  rfl

/-- A dividend of one digit more than can be written is not named, and what is reported is
no division by zero. -/
theorem eval_first_fault_unwritable :
    FirstFaulty (overZero (10 ^ 4300)).postorder (overZero (10 ^ 4300)) ∧
    exists fault : Fault, (overZero (10 ^ 4300)).eval .standard = .error fault ∧
      fault.errorClass = .value ∧
      fault.message = "Exceeds the limit (4300 digits) for integer string conversion" ++
        "; use sys.set_int_max_str_digits() to increase the limit" := by
  refine ⟨firstFaulty_overZero _, .unwritable ⟨4300⟩, ?_, rfl, rfl⟩
  exact (eval_overZero _).trans (congrArg Except.error (ofDivision_pow 4300 (by decide)))

end Expr
end Reckon
