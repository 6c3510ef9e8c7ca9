import Reckon.Proofs.Folding
import Reckon.Token.Segmentation

/-!
# Texts are cut in one way

A text spells some tokens exactly if it has a segmentation into them, and it has
at most one segmentation: gaps end where a token starts, an operator is a single
character, and a number ends where the digits end.

The main statement brings this together with the lexer.  Where signs are not
folded, the tokens of a text are those of its only segmentation.
-/

namespace Reckon
namespace Token

variable {lang : Language}

/-!
# One list of tokens
-/

theorem Spells.unique {cs : List Char} {ts ts' : List Token} (h : Spells lang cs ts)
    (h' : Spells lang cs ts') : ts = ts' := by
  induction h generalizing ts' with
  | @done gap hgap =>
      rw [<- List.append_nil gap] at h'
      exact (spells_nil.mp ((spells_gap hgap).mp h')).symm
  | @token gap more t rest hgap ht hmore hkept ih =>
      rw [List.append_assoc] at h'
      have hfirst := (spells_gap hgap).mp h'
      cases ht with
      | @operator c k hc hk =>
          rw [String.toList_singleton] at hfirst
          rcases (spells_operator hc hk).mp hfirst with ⟨rest', rfl, hrest⟩
          rw [ih hrest]
      | @number text hplain hblank =>
          have hstops := Kept.stops (t := ⟨.num, text⟩) rfl hkept hmore
          rcases (spells_number hplain (digits_of_isPlain hplain hblank) hstops).mp hfirst with
            ⟨rest', rfl, hrest⟩
          rw [ih hrest, String.ofList_toList]

namespace Segmentation

/-!
# Segmentations spell
-/

theorem Fits.not_isBlank_head {lead : List Char} {ps : List Piece} (h : Fits lang ⟨lead, ps⟩) :
    forall c : Char, (ps.flatMap Piece.characters).head? = some c -> lang.isBlank c = false := by
  intro c hc
  cases ps with
  | nil => cases hc
  | cons p ps =>
      rcases (h.written p List.mem_cons_self).first with ⟨d, rest, htext, hblank, _⟩
      simp only [List.flatMap_cons, Piece.characters, htext, List.cons_append,
        List.head?_cons, Option.some.injEq] at hc
      rw [<- hc]
      exact hblank

theorem Fits.kept {lead : List Char} {p : Piece} {ps : List Piece}
    (h : Fits lang ⟨lead, p :: ps⟩) :
    Kept lang p.token (tokens ⟨p.gap, ps⟩) (characters ⟨p.gap, ps⟩) := by
  intro hrun
  cases ps with
  | nil => cases hrun
  | cons q qs =>
      cases hgap : p.gap with
      | nil => exact absurd hgap (h.apart [] qs p q rfl hrun.left hrun.right)
      | cons c rest =>
          have hblank := h.gaps p List.mem_cons_self c (by rw [hgap]; exact List.mem_cons_self)
          exact ⟨c, rfl, hblank⟩

theorem Fits.spells {d : Segmentation} (h : d.Fits lang) : Spells lang d.characters d.tokens := by
  rcases d with ⟨lead, pieces⟩
  induction pieces generalizing lead with
  | nil => exact Spells.done (by simpa [characters] using h.lead)
  | cons p ps ih =>
      rw [characters_cons]
      exact Spells.token h.lead (h.written p List.mem_cons_self) (ih p.gap h.tail) h.kept

theorem exists_fits_of_spells {cs : List Char} {ts : List Token} (h : Spells lang cs ts) :
    exists d : Segmentation, d.Fits lang ∧ d.characters = cs ∧ d.tokens = ts := by
  induction h with
  | @done gap hgap =>
      refine ⟨⟨gap, []⟩, ⟨hgap, by simp, by simp, ?_⟩, by simp [characters], rfl⟩
      intro front back p q hps
      simp at hps
  | @token gap more t rest hgap ht _ hkept ih =>
      rcases ih with ⟨⟨lead, ps⟩, hfits, rfl, rfl⟩
      refine ⟨⟨gap, ⟨t, lead⟩ :: ps⟩, ?_, characters_cons gap ⟨t, lead⟩ ps, rfl⟩
      constructor
      case lead => exact hgap
      case written => exact List.forall_mem_cons.mpr ⟨ht, hfits.written⟩
      case gaps => exact List.forall_mem_cons.mpr ⟨hfits.lead, hfits.gaps⟩
      case apart =>
          intro front back p q hps hp hq
          cases front with
          | cons first front => exact hfits.apart front back p q (List.cons.inj hps).right hp hq
          | nil =>
              rcases List.cons.inj hps with ⟨rfl, rfl⟩
              intro hlead
              obtain rfl : lead = [] := hlead
              -- the blank between two numbers would have to be the first digit of the second
              rcases hkept ⟨hp, hq⟩ with ⟨b, hb, hblank⟩
              rw [hfits.not_isBlank_head b hb] at hblank
              cases hblank

/-!
# One segmentation
-/

theorem Fits.lead_eq {lead lead' : List Char} {ps ps' : List Piece}
    (h : Fits lang ⟨lead, ps⟩) (h' : Fits lang ⟨lead', ps'⟩)
    (heq : characters ⟨lead, ps⟩ = characters ⟨lead', ps'⟩) : lead = lead' :=
  (append_inj_of_class h.lead h'.lead h.not_isBlank_head h'.not_isBlank_head heq).left

theorem Fits.unique {d d' : Segmentation} (h : d.Fits lang) (h' : d'.Fits lang)
    (heq : d.characters = d'.characters) : d = d' := by
  have htokens : d.tokens = d'.tokens := h.spells.unique (by rw [heq]; exact h'.spells)
  rcases d with ⟨lead, ps⟩
  rcases d' with ⟨lead', ps'⟩
  obtain rfl : lead = lead' := h.lead_eq h' heq
  induction ps generalizing lead ps' with
  | nil =>
      obtain rfl : ps' = [] := List.map_eq_nil_iff.mp htokens.symm
      rfl
  | cons p ps ih =>
      cases ps' with
      | nil => cases htokens
      | cons p' ps' =>
          rcases p with ⟨t, gap⟩
          rcases p' with ⟨t', gap'⟩
          rcases List.cons.inj htokens with ⟨ht, hrest⟩
          obtain rfl : t = t' := ht
          rw [characters_cons, characters_cons] at heq
          have hbehind := List.append_cancel_left heq
          obtain rfl : gap = gap' := h.tail.lead_eq h'.tail hbehind
          cases ih gap h.tail ps' h'.tail hbehind hrest
          rfl

theorem Fits.stops {lead : List Char} {front back : List Piece} {p : Piece}
    (h : Fits lang ⟨lead, front ++ p :: back⟩) (hp : p.token.kind = .num) :
    Stops lang (characters ⟨p.gap, back⟩) := by
  induction front generalizing lead with
  | nil => exact h.kept.stops hp h.tail.spells
  | cons q front ih => exact ih h.tail

end Segmentation
end Token

/-!
# The tokens of a text
-/

namespace Lexer

open Token

/-- Where signs are not folded, a text has some tokens exactly if it is not empty and
can be cut into them.  It can be cut in one way only, with numbers as long as possible. -/
theorem lex_eq_ok_iff_segmentation {lang : Language} (hfold : lang.foldSigns = false)
    (text : String) :
    (forall tokens : List Token,
      lex lang text = .ok tokens <->
        text ≠ "" ∧ exists d : Segmentation,
          d.Fits lang ∧ d.characters = text.toList ∧ d.tokens = tokens) ∧
    (forall d d' : Segmentation, d.Fits lang -> d'.Fits lang ->
      d.characters = text.toList -> d'.characters = text.toList -> d = d') ∧
    (forall (d : Segmentation) (front back : List Piece) (p : Piece), d.Fits lang ->
      d.pieces = front ++ p :: back -> p.token.kind = .num ->
        Stops lang (Segmentation.characters ⟨p.gap, back⟩)) := by
  refine ⟨fun tokens => ?_, fun d d' h h' hd hd' => h.unique h' (hd.trans hd'.symm), ?_⟩
  · have hresolve : forall raw : List Token, lang.resolve raw = raw := by
      intro raw
      rw [Language.resolve, hfold]
      rfl
    simp only [lex_eq_ok_iff_spells, hresolve, exists_eq_right]
    constructor
    · rintro ⟨htext, hspells⟩
      exact ⟨htext, Segmentation.exists_fits_of_spells hspells⟩
    · rintro ⟨htext, d, hfits, hd, rfl⟩
      rw [<- hd]
      exact ⟨htext, hfits.spells⟩
  · rintro ⟨lead, pieces⟩ front back p hfits rfl hp
    exact hfits.stops hp

theorem segmentation_where_zero_is_blank :
    exists lang : Language,
      Language.define "+-" " 0" false = .ok lang ∧ lang.foldSigns = false ∧
        exists d : Segmentation, d.Fits lang ∧ d.characters = "102+ -3".toList ∧
          d.tokens =
            [⟨.num, "1"⟩, ⟨.num, "2"⟩, ⟨.plus, "+"⟩, ⟨.minus, "-"⟩, ⟨.num, "3"⟩] := by
  refine ⟨{
    operators := "+-"
    whitespace := " 0"
    foldSigns := false
    operators_known := by simp [Kind.ofChar?]
    operators_apart := by simp
  }, rfl, rfl, ?_⟩
  refine (((lex_eq_ok_iff_segmentation ?unfolded "102+ -3").left _).mp ?tokens).right
  case unfolded => rfl
  case tokens => rfl

end Lexer
end Reckon
