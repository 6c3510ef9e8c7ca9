import Reckon.Text.Numeral

/-!
# Actions

Running a parser can print lines, build the parsers of rules and change a state,
and it need not end in a value: a text that is no numeral can be met, and a run
can use up its fuel.  What has happened until then is kept in every case.  An
action is a run that still waits for its state.
-/

namespace Reckon

inductive Outcome (result : Type) where
  | done (value : result)
  | raised (fault : NotInteger)
  | unfinished

namespace Outcome

def map {a b : Type} (f : a -> b) : Outcome a -> Outcome b
  | done value => done (f value)
  | raised fault => raised fault
  | unfinished => unfinished

def bind {a b : Type} (x : Outcome a) (f : a -> Outcome b) : Outcome b :=
  match x with
  | done value => f value
  | raised fault => raised fault
  | unfinished => unfinished

def ofExcept {a : Type} : Except NotInteger a -> Outcome a
  | .ok value => done value
  | .error fault => raised fault

end Outcome

inductive Event (rules : Type) where
  | printed (line : String)
  | built (rule : rules)
deriving DecidableEq

namespace Event

def rule? {rules : Type} : Event rules -> Option rules
  | printed _ => none
  | built rule => some rule

end Event

structure Run (rules : Type) (state : Type 1) (result : Type) where
  outcome : Outcome result
  events : List (Event rules)
  state : state

def Action (rules : Type) (state : Type 1) (result : Type) : Type 1 :=
  state -> Run rules state result

namespace Action

variable {rules : Type} {state : Type 1} {a b : Type}

protected def pure (value : a) : Action rules state a :=
  fun s => ⟨.done value, [], s⟩

protected def bind (x : Action rules state a) (f : a -> Action rules state b) :
    Action rules state b :=
  fun s =>
    let first := x s
    match first.outcome with
    | .done value =>
        let second := f value first.state
        ⟨second.outcome, first.events ++ second.events, second.state⟩
    | .raised fault => ⟨.raised fault, first.events, first.state⟩
    | .unfinished => ⟨.unfinished, first.events, first.state⟩

instance : Monad (Action rules state) where
  pure := Action.pure
  bind := Action.bind

def ofOutcome (x : Outcome a) : Action rules state a :=
  fun s => ⟨x, [], s⟩

def unfinished : Action rules state a :=
  ofOutcome .unfinished

def record (e : Event rules) : Action rules state Unit :=
  fun s => ⟨.done (), [e], s⟩

@[simp] theorem pure_apply (value : a) (s : state) :
    (pure value : Action rules state a) s = ⟨.done value, [], s⟩ :=
  rfl

@[simp] theorem record_apply (e : Event rules) (s : state) :
    record e s = ⟨.done (), [e], s⟩ :=
  rfl

/-!
# One action after another
-/

theorem bind_of_done {x : Action rules state a} {s after : state} {value : a}
    {events : List (Event rules)} (f : a -> Action rules state b)
    (h : x s = ⟨.done value, events, after⟩) :
    (x >>= f) s =
      ⟨(f value after).outcome, events ++ (f value after).events, (f value after).state⟩ := by
  show Action.bind x f s = _
  simp only [Action.bind, h]

theorem bind_of_raised {x : Action rules state a} {s after : state} {fault : NotInteger}
    {events : List (Event rules)} (f : a -> Action rules state b)
    (h : x s = ⟨.raised fault, events, after⟩) :
    (x >>= f) s = ⟨.raised fault, events, after⟩ := by
  show Action.bind x f s = _
  simp only [Action.bind, h]

theorem bind_of_unfinished {x : Action rules state a} {s after : state}
    {events : List (Event rules)} (f : a -> Action rules state b)
    (h : x s = ⟨.unfinished, events, after⟩) :
    (x >>= f) s = ⟨.unfinished, events, after⟩ := by
  show Action.bind x f s = _
  simp only [Action.bind, h]

instance : LawfulMonad (Action rules state) :=
  LawfulMonad.mk'
    (Action rules state)
    (by
      intro c x
      funext s
      rcases hx : x s with ⟨outcome, events, after⟩
      show (x >>= pure) s = _
      cases outcome with
      | done value =>
          rw [bind_of_done pure hx, pure_apply, List.append_nil]
      | raised fault => exact bind_of_raised pure hx
      | unfinished => exact bind_of_unfinished pure hx)
    (by
      intro c d value f
      rfl)
    (by
      intro c d e x f g
      funext s
      rcases hx : x s with ⟨outcome, events, after⟩
      cases outcome with
      | raised fault =>
          rw [bind_of_raised g (bind_of_raised f hx), bind_of_raised _ hx]
      | unfinished =>
          rw [bind_of_unfinished g (bind_of_unfinished f hx), bind_of_unfinished _ hx]
      | done value =>
          have hfirst := bind_of_done f hx
          rw [bind_of_done _ hx]
          rcases hf : f value after with ⟨next, more, final⟩
          rw [hf] at hfirst
          cases next with
          | raised fault => rw [bind_of_raised g hfirst, bind_of_raised g hf]
          | unfinished => rw [bind_of_unfinished g hfirst, bind_of_unfinished g hf]
          | done value' =>
              rw [bind_of_done g hfirst, bind_of_done g hf, List.append_assoc])

end Action
end Reckon
