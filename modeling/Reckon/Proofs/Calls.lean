import Reckon.Parser.Calls
import Reckon.Proofs.Suffixes

/-!
# Which calls a parser makes

The calls of a run come from the notes that it takes, and taking notes changes nothing
else.  All calls of a parser are of a kind if those of its parts are, where a part that
stands behind another one matters only for the tokens that the other one can leave.
-/

namespace Reckon
namespace Parser

variable {ι : Type} {τ : ι -> Type} {state : Type 1} {a b : Type}
variable {rules : (i : ι) -> Parser τ (τ i)}

open Reckon.Action

/-!
# Runs with notes
-/

def Notes (x : Action ι (Noted ι state) a) (y : Action ι state a) : Prop :=
  forall s : Noted ι state,
    (x s).outcome = (y s.state).outcome ∧ (x s).events = (y s.state).events ∧
      (x s).state.state = (y s.state).state

theorem Notes.bind {x : Action ι (Noted ι state) a} {y : Action ι state a}
    {f : a -> Action ι (Noted ι state) b} {g : a -> Action ι state b} (hxy : Notes x y)
    (hfg : forall value : a, Notes (f value) (g value)) : Notes (x >>= f) (y >>= g) := by
  intro s
  rcases hxy s with ⟨houtcome, hevents, hstate⟩
  rcases hx : x s with ⟨outcome, events, after⟩
  rcases hy : y s.state with ⟨outcome', events', after'⟩
  rw [hx, hy] at houtcome hevents hstate
  obtain rfl : outcome = outcome' := houtcome
  obtain rfl : events = events' := hevents
  obtain rfl : after.state = after' := hstate
  cases outcome with
  | done value =>
      rw [bind_of_done f hx, bind_of_done g hy]
      rcases hfg value after with ⟨houtcome, hmore, hstate⟩
      exact ⟨houtcome, congrArg (List.append events) hmore, hstate⟩
  | raised fault =>
      rw [bind_of_raised f hx, bind_of_raised g hy]
      exact ⟨rfl, rfl, rfl⟩
  | unfinished =>
      rw [bind_of_unfinished f hx, bind_of_unfinished g hy]
      exact ⟨rfl, rfl, rfl⟩

theorem compatible_notes :
    Compatible (fun {_} (x : Action ι (Noted ι state) _) (y : Action ι state _) => Notes x y) where
  ofOutcome _ _ := ⟨rfl, rfl, rfl⟩
  printed _ _ := ⟨rfl, rfl, rfl⟩
  bind := Notes.bind

theorem eval_noting (call : (i : ι) -> List Token -> Action ι state (Reply (τ i))) (limit : Nat)
    (p : Parser τ a) (tokens : List Token) :
    Notes (eval (noting call) limit p tokens) (eval call limit p tokens) :=
  compatible_notes.eval (fun _ _ _ => ⟨rfl, rfl, rfl⟩) limit p tokens

theorem state_bind (x : Action ι state a) (f : a -> Action ι state b) (s : state) :
    ((x >>= f) s).state = (x s).state ∨
      exists value : a, (x s).outcome = .done value ∧
        ((x >>= f) s).state = (f value (x s).state).state := by
  rcases hx : x s with ⟨outcome, events, after⟩
  cases outcome with
  | done value => exact Or.inr ⟨value, rfl, by rw [bind_of_done f hx]⟩
  | raised fault => exact Or.inl (by rw [bind_of_raised f hx])
  | unfinished => exact Or.inl (by rw [bind_of_unfinished f hx])

theorem state_bind_of_quiet {x : Action ι state a} {f : a -> Action ι state b}
    (hf : forall (value : a) (s : state), (f value s).state = s) (s : state) :
    ((x >>= f) s).state = (x s).state := by
  rcases state_bind x f s with hsame | ⟨value, _, hstate⟩
  · exact hsame
  · rw [hstate, hf]

/-!
# Calls of one kind
-/

def CallsOnly (P : Call ι -> Prop) (x : Action ι (Noted ι state) a) : Prop :=
  forall (s : Noted ι state) (c : Call ι), c ∈ (x s).state.calls -> c ∈ s.calls ∨ P c

section CallsOnly

variable {P Q : Call ι -> Prop}

theorem callsOnly_ofOutcome (x : Outcome a) :
    CallsOnly P (ofOutcome x : Action ι (Noted ι state) a) :=
  fun _ _ hc => Or.inl hc

theorem callsOnly_pure (value : a) :
    CallsOnly P (Pure.pure value : Action ι (Noted ι state) a) :=
  callsOnly_ofOutcome (.done value)

theorem CallsOnly.mono {x : Action ι (Noted ι state) a} (h : CallsOnly P x)
    (hPQ : forall c : Call ι, P c -> Q c) : CallsOnly Q x :=
  fun s c hc => (h s c hc).imp_right (hPQ c)

theorem CallsOnly.bind {x : Action ι (Noted ι state) a} {f : a -> Action ι (Noted ι state) b}
    (hx : CallsOnly P x)
    (hf : forall (s : Noted ι state) (value : a), (x s).outcome = .done value ->
      CallsOnly P (f value)) : CallsOnly P (x >>= f) := by
  intro s c hc
  rcases state_bind x f s with hsame | ⟨value, hvalue, hstate⟩
  · rw [hsame] at hc
    exact hx s c hc
  · rw [hstate] at hc
    rcases hf s value hvalue _ c hc with hbefore | hkind
    · exact hx s c hbefore
    · exact Or.inr hkind

variable {call : (i : ι) -> List Token -> Action ι state (Reply (τ i))} {limit : Nat}
variable {tokens : List Token}

def Succeeds (call : (i : ι) -> List Token -> Action ι state (Reply (τ i))) (limit : Nat)
    (p : Parser τ a) (tokens rest : List Token) (value : a) : Prop :=
  exists s : state, (eval call limit p tokens s).outcome = .done (.ok rest value)

def Makes (P : Call ι -> Prop) (call : (i : ι) -> List Token -> Action ι state (Reply (τ i)))
    (limit : Nat) (p : Parser τ a) (tokens : List Token) : Prop :=
  CallsOnly P (eval (noting call) limit p tokens)

theorem Makes.calls {p : Parser τ a} (h : Makes P call limit p tokens) {s : state} {c : Call ι}
    (hc : c ∈ calls call limit p tokens s) : P c := by
  rcases h ⟨s, []⟩ c hc with hnone | hkind
  · cases hnone
  · exact hkind

theorem makes_rule {i : ι} (h : P ⟨i, tokens⟩) : Makes P call limit (.rule i) tokens := by
  intro s c hc
  rcases List.mem_append.mp hc with hbefore | hcall
  · exact Or.inl hbefore
  · rw [List.mem_singleton.mp hcall]
    exact Or.inr h

theorem makes_token (k : Kind) : Makes P call limit (.token k) tokens := by
  rw [Makes, eval_token]
  exact callsOnly_pure _

theorem makes_bind {p : Parser τ a} {next : a -> Parser τ b} (hp : Makes P call limit p tokens)
    (hnext : forall (rest : List Token) (value : a), Succeeds call limit p tokens rest value ->
      Makes P call limit (next value) rest) : Makes P call limit (.bind p next) tokens := by
  rw [Makes, eval_bind]
  refine CallsOnly.bind hp fun s reply hreply => ?_
  rw [(eval_noting call limit p tokens s).left] at hreply
  cases reply with
  | fail failure => exact callsOnly_pure _
  | ok rest value => exact hnext rest value ⟨s.state, hreply⟩

theorem makes_map {p : Parser τ a} (h : Makes P call limit p tokens) (f : a -> b) :
    Makes P call limit (p.map f) tokens :=
  makes_bind h fun _ _ _ => callsOnly_ofOutcome _

theorem makes_orElse {p q : Parser τ a} (hp : Makes P call limit p tokens)
    (hq : Makes P call limit q tokens) : Makes P call limit (.orElse p q) tokens := by
  refine CallsOnly.bind hp fun _ reply _ => ?_
  cases reply with
  | ok rest value => exact callsOnly_pure _
  | fail first =>
      refine CallsOnly.bind hq fun _ reply' _ => ?_
      cases reply' <;> exact callsOnly_pure _

theorem makes_many {p : Parser τ a} (hp : forall us : List Token, us <:+ tokens ->
      Makes P call limit p us)
    (hsuffix : forall (us rest : List Token) (value : a), Succeeds call limit p us rest value ->
      rest <:+ us) : Makes P call limit (.many p) tokens := by
  have hrounds (rounds : Nat) (us : List Token) (hus : us <:+ tokens) :
      CallsOnly P (repeated (eval (noting call) limit p) rounds us) := by
    induction rounds generalizing us with
    | zero => exact callsOnly_ofOutcome _
    | succ rounds ih =>
        refine CallsOnly.bind (hp us hus) fun s reply hreply => ?_
        rw [(eval_noting call limit p us s).left] at hreply
        cases reply with
        | fail failure => exact callsOnly_pure _
        | ok rest value =>
            have hrest := (hsuffix us rest value ⟨s.state, hreply⟩).trans hus
            dsimp only
            split
            · exact callsOnly_pure _
            · exact CallsOnly.bind (ih rest hrest) fun _ _ _ => callsOnly_pure _
  exact hrounds limit tokens List.suffix_rfl

theorem succeeds_token {k : Kind} {rest : List Token} {t : Token}
    (h : Succeeds call limit (.token k) tokens rest t) : tokens = t :: rest := by
  rcases h with ⟨s, hs⟩
  rw [eval_token] at hs
  exact (tokenReply_eq_ok (Outcome.done.inj hs)).left

theorem suffix_of_succeeds {fuel : Nat} (hrules : forall i : ι, Composed (rules i))
    {p : Parser τ a} (hp : Composed p) {rest : List Token} {value : a}
    (h : Succeeds (callAfresh rules fuel) (fuel + 1) p tokens rest value) : rest <:+ tokens := by
  rcases h with ⟨s, hs⟩
  exact (hp.disciplined hrules tokens _ ⟨fuel, hs⟩).suffix

end CallsOnly

/-!
# Shorter suffixes
-/

structure Shorter (tokens : List Token) (c : Call ι) : Prop where
  suffix : c.tokens <:+ tokens
  length_lt : c.tokens.length < tokens.length

theorem Shorter.mono {c : Call ι} {us tokens : List Token} (h : Shorter us c)
    (hus : us <:+ tokens) : Shorter tokens c :=
  ⟨h.suffix.trans hus, Nat.lt_of_lt_of_le h.length_lt hus.length_le⟩

end Parser
end Reckon
