import Reckon.Proofs.Spelling
import Reckon.Token.Lexer

/-!
# The lexer reads what is spelled

Between two characters the automaton's state determines the shape of the pending
text.  This invariant carries the main statement: a scan ends in some tokens
exactly if the pending text and the remaining characters together spell tokens
that lead to them.  Whether signs are folded only matters for what pushing a
token does, so the statement holds of both kinds of languages.
-/

namespace Reckon
namespace Lexer

open Automaton Token

variable {lang : Language}

/-!
# The invariant
-/

inductive Pending (lang : Language) : State -> List Char -> Prop where
  | start : Pending lang .start []
  | operator {c : Char} : lang.isOperator c = true -> Pending lang .operator [c]
  | zero : lang.isDigit '0' = true -> Pending lang .zero ['0']
  | number {c : Char} {rest : List Char} :
      '1' ≤ c ∧ c ≤ '9' -> Digits lang (c :: rest) -> Pending lang .number (c :: rest)

def emit (lang : Language) (found ts : List Token) : List Token :=
  ts.foldl (fun tokens t => push lang tokens t.text) found

@[simp] theorem emit_cons (found : List Token) (t : Token) (ts : List Token) :
    emit lang found (t :: ts) = emit lang (push lang found t.text) ts :=
  rfl

def Scan.Reads (lang : Language) (s : Scan) (cs : List Char) (found : List Token) : Prop :=
  exists ts : List Token, Spells lang (s.cache.toList ++ cs) ts ∧ emit lang s.found ts = found

def Scan.settled (lang : Language) (s : Scan) : Scan :=
  { s with state := .start, cache := "", found := push lang s.found s.cache }

theorem Pending.spells {q : State} {w cs : List Char} (h : Pending lang q w)
    (hq : q.accepting = true) (hstops : q = .operator ∨ Stops lang cs) :
    exists t : Token, t.text = String.ofList w ∧ forall ts : List Token,
      Spells lang (w ++ cs) ts <->
        exists rest : List Token, ts = t :: rest ∧ Spells lang cs rest := by
  cases h with
  | start => cases hq
  | @operator c hc =>
      rcases Language.ofChar?_of_isOperator hc with ⟨k, hk⟩
      exact ⟨⟨k, String.singleton c⟩, by simp, fun ts => spells_operator hc hk⟩
  | zero hdigit =>
      have hstops := hstops.resolve_left (by simp)
      exact ⟨⟨.num, String.ofList ['0']⟩, rfl,
        fun ts => spells_number (Or.inl rfl) (by simpa [Digits] using hdigit) hstops⟩
  | @number c rest hc hdigits =>
      have hstops := hstops.resolve_left (by simp)
      have hplain : Numeral.IsPlain (c :: rest) :=
        Or.inr ⟨c, rest, rfl, hc, fun d hd =>
          (Language.isDigit_iff.mp (hdigits d (List.mem_cons_of_mem c hd))).left⟩
      exact ⟨⟨.num, String.ofList (c :: rest)⟩, rfl,
        fun ts => spells_number hplain hdigits hstops⟩

theorem Pending.ne_nil {q : State} {w : List Char} (h : Pending lang q w)
    (hq : q.accepting = true) : w ≠ [] := by
  cases h with
  | start => cases hq
  | _ => simp

theorem Pending.eq_start {q : State} {w : List Char} (h : Pending lang q w)
    (hq : q.accepting = false) : q = .start ∧ w = [] := by
  cases h with
  | start => exact ⟨rfl, rfl⟩
  | _ => cases hq

/-!
# One character
-/

/-- Once the pending text has become a token, the automaton goes on as from the start. -/
theorem next_eq_of_completes {q : State} {cls : Language.CharClass}
    (h : completes q (q.next cls) = true) (herror : q.next cls ≠ .error) :
    q.next cls = State.start.next cls ∧
      (q = .operator ∨ cls = .operator ∨ cls = .blank) := by
  cases q <;> cases cls <;> simp_all [completes, State.accepting, State.next]

theorem stops_of_classed {c : Char} {cls : Language.CharClass} (h : lang.Classed c cls)
    (hcls : cls = .operator ∨ cls = .blank) (cs : List Char) : Stops lang (c :: cs) := by
  intro d hd
  obtain rfl : c = d := by simpa using hd
  rcases hcls with rfl | rfl
  · cases h with
    | operator hoperator => exact Language.not_isDigit_of_isOperator hoperator
  · cases h with
    | blank hblank => simp [Language.isDigit, hblank]

theorem Scan.reads_flush {s : Scan} {c : Char} (h : Pending lang s.state s.cache.toList)
    (hcompletes : completes s.state (s.state.next (lang.classOf c)) = true)
    (herror : s.state.next (lang.classOf c) ≠ .error) (cs : List Char) (found : List Token) :
    s.Reads lang (c :: cs) found <-> (s.settled lang).Reads lang (c :: cs) found := by
  have haccepting : s.state.accepting = true := by
    simp only [completes, Bool.and_eq_true] at hcompletes
    exact hcompletes.left
  have hstops : s.state = .operator ∨ Stops lang (c :: cs) := by
    rcases (next_eq_of_completes hcompletes herror).right with hq | hcls
    · exact Or.inl hq
    · exact Or.inr (stops_of_classed (lang.classed c) hcls cs)
  rcases h.spells haccepting hstops with ⟨t, htext, hspells⟩
  rw [String.ofList_toList] at htext
  constructor
  · rintro ⟨ts, hts, hfound⟩
    rcases (hspells ts).mp hts with ⟨rest, rfl, hrest⟩
    refine ⟨rest, by simpa [Scan.settled] using hrest, ?_⟩
    rw [Scan.settled, <- htext]
    exact hfound
  · rintro ⟨rest, hrest, hfound⟩
    refine ⟨t :: rest, (hspells _).mpr ⟨rest, rfl, by simpa [Scan.settled] using hrest⟩, ?_⟩
    rw [Scan.settled, <- htext] at hfound
    exact hfound

theorem Scan.step_of_not_completes {s : Scan} {c : Char}
    (h : completes s.state (s.state.next (lang.classOf c)) = false)
    (herror : s.state.next (lang.classOf c) ≠ .error) :
    s.step lang c = .ok {
      pos := s.pos + 1
      state := s.state.next (lang.classOf c)
      cache := if lang.isBlank c then s.cache else s.cache.push c
      found := s.found
    } := by
  simp only [Scan.step_eq, herror, if_false, Scan.flush, h, Bool.false_eq_true]

theorem Scan.step_of_completes {s : Scan} {c : Char}
    (h : completes s.state (s.state.next (lang.classOf c)) = true)
    (herror : s.state.next (lang.classOf c) ≠ .error) :
    s.step lang c = (s.settled lang).step lang c := by
  have hnext := (next_eq_of_completes h herror).left
  have herror' : State.start.next (lang.classOf c) ≠ .error := by
    rw [<- hnext]
    exact herror
  rw [Scan.step_of_not_completes (s := s.settled lang) rfl herror']
  simp only [Scan.step_eq, herror, if_false, Scan.flush, h, if_true]
  rw [hnext]
  rfl

theorem Pending.digit {w : List Char} {c : Char} (h : Pending lang .number w)
    (hdigit : lang.isDigit c = true) : Pending lang .number (w ++ [c]) := by
  cases h with
  | @number first rest hfirst hdigits =>
      refine Pending.number hfirst ?_
      intro d hd
      change d ∈ (first :: rest) ++ [c] at hd
      rcases List.mem_append.mp hd with hold | hnew
      · exact hdigits d hold
      · rw [List.mem_singleton.mp hnew]
        exact hdigit

theorem Pending.extend {q : State} {w : List Char} {c : Char} {cls : Language.CharClass}
    (h : Pending lang q w) (hc : lang.Classed c cls)
    (hcompletes : completes q (q.next cls) = false) (herror : q.next cls ≠ .error) :
    Pending lang (q.next cls) (if lang.isBlank c then w else w ++ [c]) ∧
      (lang.isBlank c = true -> w = []) := by
  have hdigitBlank (hdigit : lang.isDigit c = true) : lang.isBlank c = false :=
    (Language.isDigit_iff.mp hdigit).right
  cases h with
  | start =>
      cases hc with
      | operator hoperator =>
          rw [Language.not_isBlank_of_isOperator hoperator]
          exact ⟨Pending.operator hoperator, fun _ => rfl⟩
      | blank hblank =>
          rw [hblank]
          exact ⟨Pending.start, fun _ => rfl⟩
      | zero hdigit hzero =>
          rw [hdigitBlank hdigit, hzero]
          exact ⟨Pending.zero (by rw [<- hzero]; exact hdigit), fun _ => rfl⟩
      | nonzero hdigit hnonzero =>
          rw [hdigitBlank hdigit]
          exact ⟨Pending.number hnonzero (by simpa [Digits] using hdigit), fun _ => rfl⟩
      | other => exact absurd rfl herror
  | operator => simp [completes, State.accepting] at hcompletes
  | zero =>
      cases hc with
      | operator => cases hcompletes
      | blank => cases hcompletes
      | _ => exact absurd rfl herror
  | number hfirst hdigits =>
      have hpending := Pending.number hfirst hdigits
      cases hc with
      | operator => cases hcompletes
      | blank => cases hcompletes
      | zero hdigit _ =>
          rw [hdigitBlank hdigit]
          exact ⟨hpending.digit hdigit, by simp⟩
      | nonzero hdigit _ =>
          rw [hdigitBlank hdigit]
          exact ⟨hpending.digit hdigit, by simp⟩
      | other => exact absurd rfl herror

theorem Scan.step_within {s t : Scan} {c : Char} (h : Pending lang s.state s.cache.toList)
    (hcompletes : completes s.state (s.state.next (lang.classOf c)) = false)
    (herror : s.state.next (lang.classOf c) ≠ .error) (hstep : s.step lang c = .ok t) :
    Pending lang t.state t.cache.toList ∧
      forall cs : List Char, forall found : List Token,
        s.Reads lang (c :: cs) found <-> t.Reads lang cs found := by
  rcases h.extend (lang.classed c) hcompletes herror with ⟨hpending, hnil⟩
  rw [Scan.step_of_not_completes hcompletes herror] at hstep
  obtain rfl := Except.ok.inj hstep
  cases hblank : lang.isBlank c with
  | true =>
      simp only [hblank, if_true] at hpending ⊢
      refine ⟨hpending, fun cs found => ?_⟩
      simp only [Scan.Reads, hnil hblank, List.nil_append, spells_blank hblank]
  | false =>
      simp only [hblank, Bool.false_eq_true, if_false] at hpending ⊢
      refine ⟨by simpa using hpending, fun cs found => ?_⟩
      simp only [Scan.Reads, String.toList_push, List.append_assoc, List.singleton_append]

theorem Scan.step_ok {s t : Scan} {c : Char} (h : Pending lang s.state s.cache.toList)
    (hstep : s.step lang c = .ok t) :
    Pending lang t.state t.cache.toList ∧
      forall cs : List Char, forall found : List Token,
        s.Reads lang (c :: cs) found <-> t.Reads lang cs found := by
  have herror : s.state.next (lang.classOf c) ≠ .error := by
    intro herror
    simp [Scan.step_eq, herror] at hstep
  cases hcompletes : completes s.state (s.state.next (lang.classOf c)) with
  | false => exact Scan.step_within h hcompletes herror hstep
  | true =>
      have herror' := herror
      rw [(next_eq_of_completes hcompletes herror).left] at herror'
      rw [Scan.step_of_completes hcompletes herror] at hstep
      obtain ⟨hpending, hreads⟩ :=
        Scan.step_within (s := s.settled lang) (by simpa [Scan.settled] using Pending.start) rfl
          herror' hstep
      refine ⟨hpending, fun cs found => ?_⟩
      exact (Scan.reads_flush h hcompletes herror cs found).trans (hreads cs found)

theorem Pending.next_eq_error {q : State} {w : List Char} {c : Char}
    {cls : Language.CharClass} (h : Pending lang q w) (hc : lang.Classed c cls)
    (herror : q.next cls = .error) :
    cls = .other ∨ (w = ['0'] ∧ lang.isDigit '0' = true ∧ lang.isDigit c = true) := by
  cases hc with
  | other => exact Or.inl rfl
  | zero hdigit _ =>
      cases h with
      | zero hzero => exact Or.inr ⟨rfl, hzero, hdigit⟩
      | _ => cases herror
  | nonzero hdigit _ =>
      cases h with
      | zero hzero => exact Or.inr ⟨rfl, hzero, hdigit⟩
      | _ => cases herror
  | operator => cases h <;> cases herror
  | blank => cases h <;> cases herror

theorem Scan.step_error {s : Scan} {c : Char} {e : LexError}
    (h : Pending lang s.state s.cache.toList) (hstep : s.step lang c = .error e)
    (cs : List Char) (found : List Token) : ¬ s.Reads lang (c :: cs) found := by
  have herror : s.state.next (lang.classOf c) = .error := by
    cases hcase : decide (s.state.next (lang.classOf c) = .error) with
    | true => exact of_decide_eq_true hcase
    | false => simp [Scan.step_eq, of_decide_eq_false hcase] at hstep
  rintro ⟨ts, hts, _⟩
  have hclassed := lang.classed c
  rcases h.next_eq_error hclassed herror with hother | ⟨hcache, hzero, hdigit⟩
  · rw [hother] at hclassed
    cases hclassed with
    | other hoperator hblank hdigit =>
        have hclasses := hts.classes c (by simp)
        simp [hoperator, hblank, hdigit] at hclasses
  · rw [hcache] at hts
    exact not_spells_zero_digit hzero hdigit cs ts hts

/-!
# Whole texts
-/

theorem Scan.reads_nil {s : Scan} (h : Pending lang s.state s.cache.toList)
    (found : List Token) : s.Reads lang [] found <-> s.finish lang = found := by
  cases haccepting : s.state.accepting with
  | false =>
      have hcache := (h.eq_start haccepting).right
      have hempty : s.cache = "" := by simpa using hcache
      simp only [Scan.Reads, hcache, List.nil_append, spells_nil, exists_eq_left]
      simp only [Scan.finish, hempty, if_true]
      exact Iff.rfl
  | true =>
      have hstops : Stops lang [] := by simp [Stops]
      rcases h.spells haccepting (Or.inr hstops) with ⟨t, htext, hspells⟩
      rw [String.ofList_toList] at htext
      have hcache : s.cache ≠ "" := by simpa using h.ne_nil haccepting
      simp only [Scan.Reads, Scan.finish, hcache, if_false, hspells, spells_nil]
      constructor
      · rintro ⟨ts, ⟨rest, rfl, rfl⟩, hfound⟩
        rw [<- htext]
        exact hfound
      · intro hfound
        rw [<- htext] at hfound
        exact ⟨[t], ⟨[], rfl, rfl⟩, hfound⟩

theorem Scan.steps_iff {s : Scan} (h : Pending lang s.state s.cache.toList) (cs : List Char)
    (found : List Token) :
    (exists t : Scan, s.steps lang cs = .ok t ∧ t.finish lang = found) <->
      s.Reads lang cs found := by
  induction cs generalizing s with
  | nil => simp [Scan.steps, Scan.reads_nil h]
  | cons c rest ih =>
      cases hstep : s.step lang c with
      | ok t =>
          rcases Scan.step_ok h hstep with ⟨hpending, hreads⟩
          simp only [Scan.steps, hstep]
          exact (ih hpending).trans (hreads rest found).symm
      | error e =>
          simp only [Scan.steps, hstep]
          constructor
          · rintro ⟨t, hok, _⟩
            cases hok
          · intro hreads
            exact absurd hreads (Scan.step_error h hstep rest found)

theorem lex_eq_ok_iff {text : String} {tokens : List Token} :
    lex lang text = .ok tokens <->
      text ≠ "" ∧ exists raw : List Token,
        Spells lang text.toList raw ∧ (emit lang [] raw).reverse = tokens := by
  have hstart : Pending lang Scan.start.state Scan.start.cache.toList := Pending.start
  have hsteps := Scan.steps_iff hstart text.toList tokens.reverse
  rw [lex_eq]
  by_cases hempty : text = ""
  · simp [hempty]
  · simp only [hempty, if_false, not_false_eq_true, true_and, ne_eq]
    constructor
    · intro h
      cases hscan : Scan.start.steps lang text.toList with
      | error e => simp [hscan, Except.map] at h
      | ok s =>
          rw [hscan] at h
          have hfinish : (s.finish lang).reverse = tokens := Except.ok.inj h
          obtain ⟨raw, hraw, hemit⟩ :=
            hsteps.mp ⟨s, hscan, by rw [<- hfinish, List.reverse_reverse]⟩
          exact ⟨raw, hraw, by rw [show [] = Scan.start.found from rfl, hemit,
            List.reverse_reverse]⟩
    · rintro ⟨raw, hraw, hemit⟩
      obtain ⟨s, hscan, hfinish⟩ :=
        hsteps.mpr ⟨raw, hraw, by rw [<- hemit, List.reverse_reverse]; rfl⟩
      rw [hscan]
      refine congrArg Except.ok ?_
      show (s.finish lang).reverse = tokens
      rw [hfinish, List.reverse_reverse]

/-!
# Scans side by side
-/

/-- Scans that have come equally far with the same text pending, whatever they have
found so far. -/
structure Scan.Abreast (s s' : Scan) : Prop where
  pos : s.pos = s'.pos
  state : s.state = s'.state
  cache : s.cache = s'.cache

theorem Scan.Abreast.flush {s s' : Scan} (h : s.Abreast s') (lang : Language) (fold : Bool)
    (r : State) :
    (s.flush lang r).Abreast (s'.flush (lang.withFoldSigns fold) r) := by
  unfold Scan.flush
  rw [h.state]
  split
  · exact ⟨h.pos, rfl, rfl⟩
  · exact h

theorem Scan.Abreast.step {s s' : Scan} (h : s.Abreast s') (lang : Language) (fold : Bool)
    (c : Char) :
    (exists e : LexError,
      s.step lang c = .error e ∧ s'.step (lang.withFoldSigns fold) c = .error e) ∨
    exists t t' : Scan,
      s.step lang c = .ok t ∧ s'.step (lang.withFoldSigns fold) c = .ok t' ∧ t.Abreast t' := by
  have hclass : (lang.withFoldSigns fold).classOf c = lang.classOf c := rfl
  have hblank : (lang.withFoldSigns fold).isBlank c = lang.isBlank c := rfl
  have hflush := h.flush lang fold (s'.state.next (lang.classOf c))
  simp only [Scan.step_eq, hclass, hblank, h.pos, h.state, h.cache]
  split
  · exact Or.inl ⟨_, rfl, rfl⟩
  · exact Or.inr ⟨_, _, rfl, rfl, rfl, rfl, by rw [hflush.cache]⟩

theorem Scan.Abreast.steps {s s' : Scan} (h : s.Abreast s') (lang : Language) (fold : Bool)
    (cs : List Char) :
    (exists e : LexError,
      s.steps lang cs = .error e ∧ s'.steps (lang.withFoldSigns fold) cs = .error e) ∨
    exists t t' : Scan,
      s.steps lang cs = .ok t ∧ s'.steps (lang.withFoldSigns fold) cs = .ok t' ∧
        t.Abreast t' := by
  induction cs generalizing s s' with
  | nil => exact Or.inr ⟨s, s', rfl, rfl, h⟩
  | cons c rest ih =>
      simp only [Scan.steps]
      rcases h.step lang fold c with ⟨e, he, he'⟩ | ⟨t, t', ht, ht', hnext⟩
      · rw [he, he']
        exact Or.inl ⟨e, rfl, rfl⟩
      · rw [ht, ht']
        exact ih hnext

theorem lex_withFoldSigns_error {text : String} {e : LexError} (fold : Bool)
    (h : lex lang text = .error e) : lex (lang.withFoldSigns fold) text = .error e := by
  rw [lex_eq] at h ⊢
  by_cases hempty : text = ""
  · rw [if_pos hempty] at h ⊢
    exact h
  · rw [if_neg hempty] at h ⊢
    have hstart : Scan.start.Abreast Scan.start := ⟨rfl, rfl, rfl⟩
    rcases hstart.steps lang fold text.toList with ⟨e', he, he'⟩ | ⟨t, t', ht, _, _⟩
    · rw [he] at h
      rw [he']
      exact h
    · rw [ht] at h
      cases h

end Lexer
end Reckon
