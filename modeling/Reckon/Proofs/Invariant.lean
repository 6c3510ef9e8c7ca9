import Reckon.Proofs.Refusals

/-!
# What holds after every character

The automaton's state and the pending text go together: each of the four shapes that the
pending text can have belongs to exactly one state.  A text is pushed where the state says
that a token ends, and because of its shape it is never empty.

While signs are not folded, nothing that was read is lost or moved either.  The texts of the
tokens found so far and the pending text are the characters read so far without the blanks.
-/

namespace Reckon

theorem Language.not_ascii_digit_of_isOperator {lang : Language} {c : Char}
    (h : lang.isOperator c = true) : ¬ ('0' ≤ c ∧ c ≤ '9') := by
  rcases ofChar?_of_isOperator h with ⟨k, hk⟩
  exact Kind.not_digit_of_ofChar? hk

namespace Lexer

open Automaton Token

variable {lang : Language} {s t : Scan} {front : List Char} {c : Char}

/-!
# One shape for each state
-/

theorem Pending.empty_iff {q : State} {w : List Char} (h : Pending lang q w) :
    w = [] <-> q = .start := by
  cases h <;> simp

theorem Pending.operator_iff {q : State} {w : List Char} (h : Pending lang q w) :
    (exists o : Char, w = [o] ∧ lang.isOperator o = true) <-> q = .operator := by
  cases h with
  | start => simp
  | operator hoperator => simpa using hoperator
  | zero =>
      refine iff_of_false ?_ (by simp)
      rintro ⟨o, ho, hoperator⟩
      cases ho
      exact Language.not_ascii_digit_of_isOperator hoperator (by decide)
  | number hfirst =>
      refine iff_of_false ?_ (by simp)
      rintro ⟨o, ho, hoperator⟩
      cases ho
      exact Language.not_ascii_digit_of_isOperator hoperator (Numeral.digit_of_nonzero hfirst)

theorem Pending.zero_iff {q : State} {w : List Char} (h : Pending lang q w) :
    w = ['0'] <-> q = .zero := by
  cases h with
  | start => simp
  | operator hoperator =>
      refine iff_of_false ?_ (by simp)
      intro ho
      cases ho
      exact Language.not_ascii_digit_of_isOperator hoperator (by decide)
  | zero => simp
  | number hfirst =>
      refine iff_of_false ?_ (by simp)
      intro hd
      cases hd
      exact absurd hfirst (by decide)

theorem Pending.number_iff {q : State} {w : List Char} (h : Pending lang q w) :
    (exists d : Char, exists rest : List Char, w = d :: rest ∧ ('1' ≤ d ∧ d ≤ '9') ∧
      forall e : Char, e ∈ rest -> '0' ≤ e ∧ e ≤ '9') <-> q = .number := by
  cases h with
  | start => simp
  | operator hoperator =>
      refine iff_of_false ?_ (by simp)
      rintro ⟨d, rest, hd, hfirst, _⟩
      cases hd
      exact Language.not_ascii_digit_of_isOperator hoperator (Numeral.digit_of_nonzero hfirst)
  | zero =>
      refine iff_of_false ?_ (by simp)
      rintro ⟨d, rest, hd, hfirst, _⟩
      cases hd
      exact absurd hfirst (by decide)
  | @number d rest hfirst hdigits =>
      refine iff_of_true ⟨d, rest, rfl, hfirst, fun e he => ?_⟩ rfl
      exact (Language.isDigit_iff.mp (hdigits e (List.mem_cons_of_mem d he))).left

/-!
# What has been read so far
-/

def Scan.written (s : Scan) : String :=
  texts s.found.reverse ++ s.cache

def nonblank (lang : Language) (cs : List Char) : List Char :=
  cs.filter fun c => !lang.isBlank c

theorem Scan.written_flush (hfold : lang.foldSigns = false) (s : Scan) (r : State) :
    (s.flush lang r).written = s.written := by
  unfold Scan.flush
  split
  · rcases push_unfolded hfold s.found s.cache with ⟨k, hpush⟩
    simp [Scan.written, hpush, texts, String.join_append]
  · rfl

theorem Scan.step_eq_flush (h : s.step lang c = .ok t) :
    t.found = (s.flush lang t.state).found ∧
      t.cache = if lang.isBlank c then (s.flush lang t.state).cache
        else (s.flush lang t.state).cache.push c := by
  by_cases hrefused : s.state.next (lang.classOf c) = .error
  · simp [Scan.step_eq, hrefused] at h
  · simp only [Scan.step_eq, hrefused, if_false] at h
    obtain rfl := Except.ok.inj h
    exact ⟨rfl, rfl⟩

theorem Scan.written_step (hfold : lang.foldSigns = false) (h : s.step lang c = .ok t) :
    t.written = s.written ++ String.ofList (nonblank lang [c]) := by
  rcases Scan.step_eq_flush h with ⟨hfound, hcache⟩
  rw [<- Scan.written_flush hfold s t.state, Scan.written, hfound, hcache, Scan.written]
  cases hblank : lang.isBlank c with
  | true => simp [nonblank, hblank]
  | false => simp [nonblank, hblank, <- String.toList_inj]

/-!
# The invariant
-/

/-- What holds of a scan that has read some characters.  Each state has its own shape of the
pending text, and unless signs are folded, everything but blanks is written down in order. -/
structure Scan.Invariant (lang : Language) (front : List Char) (s : Scan) : Prop where
  start : s.cache = "" <-> s.state = .start
  operator :
    (exists o : Char, s.cache = String.singleton o ∧ lang.isOperator o = true) <->
      s.state = .operator
  zero : s.cache = "0" <-> s.state = .zero
  number :
    (exists d : Char, exists rest : List Char, s.cache.toList = d :: rest ∧
      ('1' ≤ d ∧ d ≤ '9') ∧ forall e : Char, e ∈ rest -> '0' ≤ e ∧ e ≤ '9') <->
      s.state = .number
  written : lang.foldSigns = false -> s.written = String.ofList (nonblank lang front)

/-- Tokens that were there before, or those after the pending text has been pushed, which was
not empty then. -/
def Scan.Flushes (lang : Language) (s : Scan) (found : List Token) : Prop :=
  found = s.found ∨ s.cache ≠ "" ∧ found = push lang s.found s.cache

theorem Scan.written_steps (hfold : lang.foldSigns = false)
    (h : Scan.start.steps lang front = .ok t) :
    t.written = String.ofList (nonblank lang front) := by
  induction front using List.reverseRecOn generalizing t with
  | nil =>
      cases h
      rfl
  | append_singleton front c ih =>
      rcases Scan.steps_concat h with ⟨s, hfront, hstep⟩
      rw [Scan.written_step hfold hstep, ih hfront, nonblank, nonblank, nonblank,
        List.filter_append, String.ofList_append]

theorem Scan.invariant_of_steps (h : Scan.start.steps lang front = .ok t) :
    t.Invariant lang front := by
  have hpending := (Scan.behind_of_steps h).pending
  constructor
  case start =>
      rw [<- hpending.empty_iff, String.toList_eq_nil_iff]
  case operator =>
      rw [<- hpending.operator_iff]
      simp [<- String.toList_inj]
  case zero =>
      rw [<- hpending.zero_iff, <- String.toList_inj]
      exact Iff.rfl
  case number => exact hpending.number_iff
  case written => exact fun hfold => Scan.written_steps hfold h

theorem Scan.flushes_step (h : Pending lang s.state s.cache.toList)
    (hstep : s.step lang c = .ok t) : s.Flushes lang t.found := by
  rw [(Scan.step_eq_flush hstep).left]
  cases hcompletes : completes s.state t.state with
  | false => exact Or.inl (by simp [Scan.flush, hcompletes])
  | true =>
      -- a text is only pushed out of an accepting state, where something is pending
      have haccepting : s.state.accepting = true := (Bool.and_eq_true_iff.mp hcompletes).left
      have hcache : s.cache ≠ "" := by simpa using h.ne_nil haccepting
      exact Or.inr ⟨hcache, by simp [Scan.flush, hcompletes]⟩

theorem Scan.flushes_finish (lang : Language) (s : Scan) : s.Flushes lang (s.finish lang) := by
  unfold Scan.Flushes Scan.finish
  split
  · exact Or.inl rfl
  · exact Or.inr ⟨by assumption, rfl⟩

/-- After every character of a text that is not refused, the invariant holds.  Neither this
character nor the end of the text, if it ended here, makes a token of an empty text. -/
theorem scan_keeps_invariant {text : String} {n : Nat} (hc : text.toList[n]? = some c)
    (hfront : Scan.start.steps lang (text.toList.take n) = .ok s)
    (hstep : s.step lang c = .ok t) :
    t.Invariant lang (text.toList.take (n + 1)) ∧ s.Flushes lang t.found ∧
      t.Flushes lang (t.finish lang) := by
  have hsteps : Scan.start.steps lang (text.toList.take (n + 1)) = .ok t := by
    rw [List.take_add_one, hc, Option.toList_some, Scan.steps_append, hfront]
    show s.steps lang [c] = .ok t
    simp only [Scan.steps, hstep]
  exact ⟨Scan.invariant_of_steps hsteps,
    Scan.flushes_step (Scan.behind_of_steps hfront).pending hstep, Scan.flushes_finish lang t⟩

theorem scan_keeps_invariant_behind_minus :
    exists s t : Scan, "10 -2".toList[4]? = some '2' ∧
      Scan.start.steps Language.unfolded ("10 -2".toList.take 4) = .ok s ∧
        s.step Language.unfolded '2' = .ok t ∧ t.state = .number ∧ t.written = "10-2" ∧
          s.cache ≠ "" ∧ t.found = push Language.unfolded s.found s.cache := by
  have hc : "10 -2".toList[4]? = some '2' := rfl
  have hfront : Scan.start.steps Language.unfolded ("10 -2".toList.take 4) =
      .ok ⟨4, .operator, "-", [⟨.num, "10"⟩]⟩ := rfl
  have hstep : Scan.step Language.unfolded ⟨4, .operator, "-", [⟨.num, "10"⟩]⟩ '2' =
      .ok ⟨5, .number, "2", [⟨.minus, "-"⟩, ⟨.num, "10"⟩]⟩ := rfl
  rcases scan_keeps_invariant hc hfront hstep with ⟨hinvariant, hkept | ⟨hcache, hpushed⟩, _⟩
  · cases hkept
  · exact ⟨_, _, hc, hfront, hstep, rfl, hinvariant.written rfl, hcache, hpushed⟩

end Lexer
end Reckon
