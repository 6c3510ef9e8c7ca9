import Mathlib.Data.List.Induction
import Reckon.Proofs.UnarySigns

/-!
# Where a text is refused

A scan stops at the first character that leads the automaton into its error state.  It
gets there by itself on the characters in front, so what is refused, where, and with
which text pending depends on nothing behind this character.

The pending text is a matter of the state: behind a blank the automaton is at its start
and nothing is pending, behind any other character it stands at the end of a whole token.
At the end of a text this token would be the last one, and a language that keeps its
signs shows it as it is.
-/

namespace Reckon

theorem Automaton.State.accepting_next {q : State} {cls : Language.CharClass}
    (h : q.next cls ≠ .error) : (q.next cls).accepting = true <-> cls ≠ .blank := by
  cases q <;> cases cls <;> simp_all [accepting, next]

theorem Language.classOf_eq_blank_iff {lang : Language} {c : Char} :
    lang.classOf c = .blank <-> lang.isBlank c = true := by
  have hclassed := lang.classed c
  constructor
  · intro hclass
    rw [hclass] at hclassed
    cases hclassed with
    | blank hblank => exact hblank
  · intro hblank
    have hoperator : lang.isOperator c = false := by
      cases hoperator : lang.isOperator c with
      | false => rfl
      | true =>
          rw [Language.not_isBlank_of_isOperator hoperator] at hblank
          cases hblank
    simp [Language.classOf, hoperator, hblank]

namespace Lexer

open Automaton Token

variable {lang : Language} {s t : Scan} {front back : List Char} {c : Char} {e : LexError}

/-!
# Scans of parts
-/

theorem Scan.step_eq_ok (h : s.step lang c = .ok t) :
    t.pos = s.pos + 1 ∧ t.state = s.state.next (lang.classOf c) ∧ t.state ≠ .error := by
  by_cases herror : s.state.next (lang.classOf c) = .error
  · simp [Scan.step_eq, herror] at h
  · simp only [Scan.step_eq, herror, if_false] at h
    obtain rfl := Except.ok.inj h
    exact ⟨rfl, rfl, herror⟩

theorem Scan.step_eq_error (h : s.step lang c = .error e) :
    s.state.next (lang.classOf c) = .error ∧ e = LexError.unexpected s.pos c s.cache := by
  by_cases herror : s.state.next (lang.classOf c) = .error
  · simp only [Scan.step_eq, herror, if_true] at h
    exact ⟨herror, (Except.error.inj h).symm⟩
  · simp [Scan.step_eq, herror] at h

@[simp] theorem Scan.steps_append (s : Scan) (front back : List Char) :
    s.steps lang (front ++ back) = (s.steps lang front).bind fun t => t.steps lang back := by
  induction front generalizing s with
  | nil => rfl
  | cons c rest ih =>
      simp only [List.cons_append, Scan.steps]
      cases s.step lang c with
      | ok t => exact ih t
      | error e => rfl

theorem Scan.steps_of_prefix {init : List Char} (h : s.steps lang front = .ok t)
    (hinit : init <+: front) : exists t' : Scan, s.steps lang init = .ok t' := by
  rcases hinit with ⟨more, rfl⟩
  rw [Scan.steps_append] at h
  cases hsteps : s.steps lang init with
  | ok t' => exact ⟨t', rfl⟩
  | error e =>
      rw [hsteps] at h
      cases h

theorem Scan.steps_concat (h : s.steps lang (front ++ [c]) = .ok t) :
    exists t' : Scan, s.steps lang front = .ok t' ∧ t'.step lang c = .ok t := by
  rcases Scan.steps_of_prefix h (List.prefix_append front [c]) with ⟨t', ht'⟩
  rw [Scan.steps_append, ht'] at h
  refine ⟨t', ht', ?_⟩
  have hlast : t'.steps lang [c] = .ok t := h
  simp only [Scan.steps] at hlast
  cases hstep : t'.step lang c with
  | ok t'' =>
      rw [hstep] at hlast
      exact hlast
  | error e =>
      rw [hstep] at hlast
      cases hlast

theorem Scan.steps_eq_error {cs : List Char} (h : s.steps lang cs = .error e) :
    exists front back : List Char, exists c : Char, exists t : Scan,
      cs = front ++ c :: back ∧ s.steps lang front = .ok t ∧ t.step lang c = .error e := by
  induction cs generalizing s with
  | nil => cases h
  | cons c rest ih =>
      simp only [Scan.steps] at h
      cases hstep : s.step lang c with
      | error e' =>
          rw [hstep] at h
          cases h
          exact ⟨[], rest, c, s, rfl, rfl, hstep⟩
      | ok s' =>
          rw [hstep] at h
          rcases ih h with ⟨front, back, d, t, rfl, hfront, hd⟩
          refine ⟨c :: front, back, d, t, rfl, ?_, hd⟩
          simp only [Scan.steps, hstep]
          exact hfront

/-- What holds of a scan between two characters: how far it has come, and that something is
pending exactly if the last character was no blank. -/
structure Scan.Behind (lang : Language) (front : List Char) (t : Scan) : Prop where
  pos : t.pos = front.length
  pending : Pending lang t.state t.cache.toList
  accepting : t.state.accepting = true <->
    exists b : Char, front.getLast? = some b ∧ lang.isBlank b = false

theorem Scan.behind_of_steps (h : Scan.start.steps lang front = .ok t) :
    t.Behind lang front := by
  induction front using List.reverseRecOn generalizing t with
  | nil =>
      cases h
      exact ⟨rfl, Pending.start, by simp [Scan.start, State.accepting]⟩
  | append_singleton front b ih =>
      rcases Scan.steps_concat h with ⟨s, hfront, hstep⟩
      rcases Scan.step_eq_ok hstep with ⟨hpos, hstate, herror⟩
      refine ⟨?_, (Scan.step_ok (ih hfront).pending hstep).left, ?_⟩
      · rw [hpos, (ih hfront).pos, List.length_append, List.length_singleton]
      · rw [hstate] at herror ⊢
        simp [State.accepting_next herror, Language.classOf_eq_blank_iff]

theorem Scan.Behind.cache_eq_empty (h : t.Behind lang front)
    (hfront : forall b : Char, front.getLast? = some b -> lang.isBlank b = true) :
    t.cache = "" := by
  have hrests : t.state.accepting = false := by
    rw [Bool.eq_false_iff, ne_eq, h.accepting]
    rintro ⟨b, hb, hblank⟩
    rw [hfront b hb] at hblank
    cases hblank
  simpa using (h.pending.eq_start hrests).right

theorem Scan.Behind.cache_ne_empty (h : t.Behind lang front) {b : Char}
    (hb : front.getLast? = some b) (hblank : lang.isBlank b = false) : t.cache ≠ "" := by
  simpa using h.pending.ne_nil (h.accepting.mpr ⟨b, hb, hblank⟩)

/-!
# Refused characters
-/

theorem lex_eq_error_iff {text : String} (htext : text ≠ "") :
    lex lang text = .error e <-> Scan.start.steps lang text.toList = .error e := by
  rw [lex_eq, if_neg htext]
  cases Scan.start.steps lang text.toList <;> simp [Except.map]

theorem lex_ofList_eq (hfront : front ≠ []) (h : Scan.start.steps lang front = .ok t) :
    lex lang (String.ofList front) = .ok (t.finish lang).reverse := by
  have htext : String.ofList front ≠ "" := by simpa using hfront
  rw [lex_eq, if_neg htext, String.toList_ofList, h]
  rfl

theorem push_unfolded (hfold : lang.foldSigns = false) (found : List Token) (text : String) :
    exists k : Kind, push lang found text = ⟨k, text⟩ :: found := by
  cases hkind : Kind.ofText? text with
  | some k => exact ⟨k, push_operator (t := ⟨k, text⟩) hkind rfl⟩
  | none =>
      have hkept : foldSign lang found text = (text, found) := by
        unfold foldSign
        split <;> simp [hfold]
      exact ⟨.num, by rw [push_number hkind, hkept]⟩

theorem Scan.last_token (hsteps : Scan.start.steps lang front = .ok t) {b : Char}
    (hb : front.getLast? = some b) (hblank : lang.isBlank b = false) :
    exists tokens : List Token, exists last : Token,
      lex (lang.withFoldSigns false) (String.ofList front) = .ok (tokens ++ [last]) ∧
        last.text = t.cache := by
  have hstart : Scan.start.Abreast Scan.start := ⟨rfl, rfl, rfl⟩
  rcases hstart.steps lang false front with ⟨e, he, _⟩ | ⟨s, s', hs, hs', habreast⟩
  · rw [hsteps] at he
    cases he
  · rw [hsteps] at hs
    obtain rfl := Except.ok.inj hs
    have hfront : front ≠ [] := by
      rintro rfl
      cases hb
    have hcache : s'.cache ≠ "" := by
      rw [<- habreast.cache]
      exact (Scan.behind_of_steps hsteps).cache_ne_empty hb hblank
    have hfold : (lang.withFoldSigns false).foldSigns = false := rfl
    rcases push_unfolded hfold s'.found s'.cache with ⟨k, hpush⟩
    refine ⟨s'.found.reverse, ⟨k, s'.cache⟩, ?_, habreast.cache.symm⟩
    rw [lex_ofList_eq hfront hs', Scan.finish, if_neg hcache, hpush, List.reverse_cons]

/-- The character that a scan refuses cannot be a part of any token, or it is a digit behind
a zero that has begun a number. -/
theorem Scan.Behind.refused (h : t.Behind lang front) (hstep : t.step lang c = .error e) :
    (lang.isOperator c = false ∧ lang.isBlank c = false ∧ ¬ ('0' ≤ c ∧ c ≤ '9')) ∨
      (('0' ≤ c ∧ c ≤ '9') ∧ lang.isBlank c = false ∧ e.cache = "0") := by
  rcases Scan.step_eq_error hstep with ⟨herror, rfl⟩
  have hclassed := lang.classed c
  rcases h.pending.next_eq_error hclassed herror with hother | ⟨hcache, _, hdigit⟩
  · rw [hother] at hclassed
    cases hclassed with
    | other hoperator hblank hdigit =>
        refine Or.inl ⟨hoperator, hblank, fun hascii => ?_⟩
        rw [Language.isDigit_iff.mpr ⟨hascii, hblank⟩] at hdigit
        cases hdigit
  · rcases Language.isDigit_iff.mp hdigit with ⟨hascii, hblank⟩
    refine Or.inr ⟨hascii, hblank, ?_⟩
    show t.cache = "0"
    rw [<- String.toList_inj, hcache]
    rfl

/-- A text that is not empty is refused at one of its characters.  Up to there it has tokens,
and whatever stands behind makes no difference.  Nothing is pending at the start or behind a
blank; elsewhere the last token of what was read is, as a language without folded signs shows
it. -/
theorem lex_refuses_first_unexpected {text : String} (htext : text ≠ "")
    (h : lex lang text = .error e) :
    exists front back : List Char, exists c : Char,
      text.toList = front ++ c :: back ∧ e.pos = front.length ∧
      (forall init : String, init ≠ "" -> init.toList <+: front ->
        exists tokens : List Token, lex lang init = .ok tokens) ∧
      (forall other : String, front ++ [c] <+: other.toList -> lex lang other = .error e) ∧
      ((forall b : Char, front.getLast? = some b -> lang.isBlank b = true) -> e.cache = "") ∧
      (forall b : Char, front.getLast? = some b -> lang.isBlank b = false ->
        exists plain : Language, lang.change { foldSigns := some false } = .ok plain ∧
          exists tokens : List Token, exists last : Token,
            lex plain (String.ofList front) = .ok (tokens ++ [last]) ∧ last.text = e.cache) ∧
      ((lang.isOperator c = false ∧ lang.isBlank c = false ∧ ¬ ('0' ≤ c ∧ c ≤ '9')) ∨
        (('0' ≤ c ∧ c ≤ '9') ∧ lang.isBlank c = false ∧ e.cache = "0")) := by
  rcases Scan.steps_eq_error ((lex_eq_error_iff htext).mp h) with
    ⟨front, back, c, t, hsplit, hfront, hstep⟩
  have hbehind := Scan.behind_of_steps hfront
  obtain rfl := (Scan.step_eq_error hstep).right
  refine ⟨front, back, c, hsplit, ?position, ?prefixes, ?others, hbehind.cache_eq_empty, ?last,
    hbehind.refused hstep⟩
  case position => exact congrArg Int.ofNat hbehind.pos
  case prefixes =>
      intro init hinit hprefix
      rcases Scan.steps_of_prefix hfront hprefix with ⟨t', ht'⟩
      have hnil : init.toList ≠ [] := by simpa using hinit
      exact ⟨_, by rw [<- lex_ofList_eq hnil ht', String.ofList_toList]⟩
  case others =>
      rintro other ⟨behind, hother⟩
      have hnonempty : other ≠ "" := by
        rintro rfl
        simp at hother
      rw [lex_eq_error_iff hnonempty, <- hother, List.append_assoc, Scan.steps_append, hfront]
      show t.steps lang (c :: behind) = _
      simp only [Scan.steps, hstep]
  case last =>
      intro b hb hblank
      exact ⟨_, Language.change_foldSigns lang false, Scan.last_token hfront hb hblank⟩

theorem lex_refuses_first_unexpected_leading_zero :
    lex Language.arith "2*-07" = .error (LexError.unexpected 4 '7' "0") ∧
      forall behind : String,
        lex Language.arith ("2*-07" ++ behind) = .error (LexError.unexpected 4 '7' "0") := by
  have hrefused : lex Language.arith "2*-07" = .error (LexError.unexpected 4 '7' "0") := rfl
  refine ⟨hrefused, fun behind => ?_⟩
  rcases lex_refuses_first_unexpected (by decide) hrefused with
    ⟨front, back, c, hsplit, hpos, _, hothers, _⟩
  have hlength : front.length = 4 := (Int.ofNat.inj hpos).symm
  have hback : back = [] := by
    have hall : (5 : Nat) = front.length + (back.length + 1) := by
      simpa using congrArg List.length hsplit
    exact List.length_eq_zero_iff.mp (by omega)
  refine hothers _ ⟨behind.toList, ?_⟩
  rw [String.toList_append, hsplit, hback]

end Lexer
end Reckon
