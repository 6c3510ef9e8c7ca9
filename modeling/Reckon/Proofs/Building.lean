import Reckon.Grammar
import Reckon.Proofs.Caching

/-!
# Rules are built at their first use

A run that builds its rules at every use shows in its events where each rule is used.
The same run with a cache does the same things, except that it leaves out the building
of rules that were built before, in this run or in an earlier one.  One relation between
the runs says so of whatever the cache holds, and it passes from parts to whole parsers;
running over some streams in turn, what is built before a stream is what all the earlier
ones use.

There may be as many rules as one likes, and the parser of a rule may refer to rules that
nothing else refers to, like rules that come into being when it is built.
-/

namespace Reckon

namespace Event

variable {ι : Type}

theorem mem_filterMap_rule?_iff {events : List (Event ι)} {i : ι} :
    i ∈ events.filterMap rule? <-> .built i ∈ events := by
  rw [List.mem_filterMap]
  constructor
  · rintro ⟨e, he, hrule⟩
    cases e with
    | printed line => cases hrule
    | built j =>
        cases hrule
        exact he
  · exact fun h => ⟨_, h, rfl⟩

variable [DecidableEq ι]

def builtBy (built : ι -> Bool) : List (Event ι) -> ι -> Bool
  | [] => built
  | .printed _ :: more => builtBy built more
  | .built i :: more => builtBy (fun j => built j || decide (j = i)) more

/-- The events that remain if no rule is built again. -/
def firstBuilds (built : ι -> Bool) : List (Event ι) -> List (Event ι)
  | [] => []
  | .printed line :: more => .printed line :: firstBuilds built more
  | .built i :: more =>
      if built i then firstBuilds built more
      else .built i :: firstBuilds (fun j => built j || decide (j = i)) more

def firstBuildsEach (built : ι -> Bool) : List (List (Event ι)) -> List (List (Event ι))
  | [] => []
  | events :: more => firstBuilds built events :: firstBuildsEach (builtBy built events) more

/-!
# Events in a row
-/

theorem built_or_self {built : ι -> Bool} {i : ι} (h : built i = true) :
    (fun j => built j || decide (j = i)) = built := by
  funext j
  by_cases hj : j = i
  · simp [hj, h]
  · simp [hj]

@[simp] theorem builtBy_append (built : ι -> Bool) (xs ys : List (Event ι)) :
    builtBy built (xs ++ ys) = builtBy (builtBy built xs) ys := by
  fun_induction builtBy built xs with
  | case1 => rfl
  | case2 built line more ih => exact ih
  | case3 built i more ih => exact ih

@[simp] theorem firstBuilds_append (built : ι -> Bool) (xs ys : List (Event ι)) :
    firstBuilds built (xs ++ ys) = firstBuilds built xs ++ firstBuilds (builtBy built xs) ys := by
  induction xs generalizing built with
  | nil => rfl
  | cons e xs ih =>
      cases e with
      | printed line => exact congrArg (List.cons _) (ih built)
      | built i =>
          rw [List.cons_append, firstBuilds, firstBuilds, builtBy]
          cases hi : built i with
          | true => simpa [built_or_self hi] using ih built
          | false => simpa using ih _

theorem flatten_firstBuildsEach (built : ι -> Bool) (runs : List (List (Event ι))) :
    (firstBuildsEach built runs).flatten = firstBuilds built runs.flatten := by
  induction runs generalizing built with
  | nil => rfl
  | cons events more ih =>
      rw [firstBuildsEach, List.flatten_cons, ih, List.flatten_cons, firstBuilds_append]

/-!
# What is built
-/

theorem mem_firstBuilds_iff {built : ι -> Bool} {events : List (Event ι)} {i : ι} :
    .built i ∈ firstBuilds built events <-> built i = false ∧ .built i ∈ events := by
  induction events generalizing built with
  | nil => simp [firstBuilds]
  | cons e events ih =>
      cases e with
      | printed line => simp [firstBuilds, ih]
      | built j =>
          by_cases hij : i = j
          · subst hij
            cases hi : built i <;> simp [firstBuilds, hi, ih]
          · cases hj : built j <;> simp [firstBuilds, hj, ih, hij]

theorem nodup_firstBuilds (built : ι -> Bool) (events : List (Event ι)) :
    ((firstBuilds built events).filterMap rule?).Nodup := by
  induction events generalizing built with
  | nil => exact List.nodup_nil
  | cons e events ih =>
      cases e with
      | printed line => exact ih built
      | built i =>
          rw [firstBuilds]
          cases built i with
          | true => exact ih built
          | false =>
              refine List.nodup_cons.mpr ⟨fun hmem => ?_, ih _⟩
              have hnew := (mem_firstBuilds_iff.mp (mem_filterMap_rule?_iff.mp hmem)).left
              simp at hnew

end Event

namespace Parser

variable {ι : Type} {τ : ι -> Type} {a b : Type} {rules : (i : ι) -> Parser τ (τ i)}

open Reckon.Action Event

/-!
# Actions that build once
-/

def Cache.holds (cache : Cache τ) (i : ι) : Bool :=
  (cache i).isSome

variable [DecidableEq ι]

@[simp] theorem Cache.holds_insert (cache : Cache τ) (i : ι) (p : Parser τ (τ i)) :
    (cache.insert i p).holds = fun j => cache.holds j || decide (j = i) := by
  funext j
  by_cases hij : i = j
  · subst hij
    simp [Cache.holds]
  · simp [Cache.holds, Cache.insert_other cache p hij, Ne.symm hij]

/-- From every cache of the rules, the first action does what the second one does, except
that it builds no rule that the cache holds, and builds each of the others once. -/
def BuildsOnce (rules : (i : ι) -> Parser τ (τ i)) (x : Action ι (Cache τ) a)
    (y : Action ι PUnit a) : Prop :=
  forall cache : Cache τ, cache.Keeps rules ->
    (x cache).events = firstBuilds cache.holds (y ⟨⟩).events ∧
      (x cache).state.holds = builtBy cache.holds (y ⟨⟩).events

theorem buildsOnce_ofOutcome (x : Outcome a) :
    BuildsOnce rules (ofOutcome x) (ofOutcome x) :=
  fun _ _ => ⟨rfl, rfl⟩

theorem buildsOnce_printed (line : String) :
    BuildsOnce rules (record (.printed line)) (record (.printed line)) :=
  fun _ _ => ⟨rfl, rfl⟩

theorem BuildsOnce.bind {x : Action ι (Cache τ) a} {y : Action ι PUnit a}
    {f : a -> Action ι (Cache τ) b} {g : a -> Action ι PUnit b} (hmirrors : Mirrors rules x y)
    (hxy : BuildsOnce rules x y) (hfg : forall value : a, BuildsOnce rules (f value) (g value)) :
    BuildsOnce rules (x >>= f) (y >>= g) := by
  intro cache hcache
  rcases hmirrors cache hcache with ⟨houtcome, hkeeps⟩
  rcases hxy cache hcache with ⟨hevents, hholds⟩
  rcases hx : x cache with ⟨outcome, events, after⟩
  rcases hy : y ⟨⟩ with ⟨outcome', events', ⟨⟩⟩
  rw [hx, Action.result, hy] at houtcome
  obtain rfl : outcome = outcome' := houtcome
  rw [hx] at hkeeps
  rw [hx, hy] at hevents hholds
  cases outcome with
  | done value =>
      rw [bind_of_done f hx, bind_of_done g hy]
      rcases hfg value after hkeeps with ⟨hmore, hafter⟩
      rw [hholds] at hmore hafter
      constructor
      · rw [firstBuilds_append, <- hevents, <- hmore]
      · rw [builtBy_append]
        exact hafter
  | raised fault =>
      rw [bind_of_raised f hx, bind_of_raised g hy]
      exact ⟨hevents, hholds⟩
  | unfinished =>
      rw [bind_of_unfinished f hx, bind_of_unfinished g hy]
      exact ⟨hevents, hholds⟩

theorem compatible_buildsOnce (rules : (i : ι) -> Parser τ (τ i)) :
    Compatible (fun {_} x y => Mirrors rules x y ∧ BuildsOnce rules x y) where
  ofOutcome x := ⟨mirrors_ofOutcome x, buildsOnce_ofOutcome x⟩
  printed line := ⟨mirrors_record _, buildsOnce_printed line⟩
  bind hxy hfg := ⟨hxy.left.bind fun value => (hfg value).left,
    BuildsOnce.bind hxy.left hxy.right fun value => (hfg value).right⟩

/-!
# Runs that build once
-/

theorem callCached_buildsOnce (fuel : Nat) (i : ι) (tokens : List Token) :
    BuildsOnce rules (callCached rules fuel i tokens) (callAfresh rules fuel i tokens) := by
  induction fuel generalizing i tokens with
  | zero => exact buildsOnce_ofOutcome .unfinished
  | succ fuel ih =>
      have hrule : BuildsOnce rules (eval (callCached rules fuel) (fuel + 1) (rules i) tokens)
          (eval (callAfresh rules fuel) (fuel + 1) (rules i) tokens) :=
        ((compatible_buildsOnce rules).eval
          (fun j us => ⟨callCached_mirrors fuel j us, ih j us⟩) (fuel + 1) (rules i) tokens).right
      intro cache hcache
      have hafresh : (callAfresh rules (fuel + 1) i tokens ⟨⟩).events =
          .built i :: (eval (callAfresh rules fuel) (fuel + 1) (rules i) tokens ⟨⟩).events := by
        rw [callAfresh, bind_of_done _ (record_apply _ _)]
        rfl
      rw [hafresh, firstBuilds, builtBy]
      cases hfound : cache i with
      | some p =>
          obtain rfl := hcache i p hfound
          have hholds : cache.holds i = true := by rw [Cache.holds, hfound]; rfl
          rw [built_or_self hholds, if_pos hholds]
          simp only [callCached, hfound]
          exact hrule cache hcache
      | none =>
          have hholds : cache.holds i = false := by rw [Cache.holds, hfound]; rfl
          rw [if_neg (by simp [hholds]), <- Cache.holds_insert cache i (rules i)]
          simp only [callCached, hfound]
          rw [bind_of_done _ (record_apply _ _)]
          rcases hrule _ (hcache.insert i) with ⟨hevents, hafter⟩
          exact ⟨congrArg (List.cons _) hevents, hafter⟩

theorem runCached_buildsOnce {cache : Cache τ} (hcache : cache.Keeps rules) (fuel : Nat)
    (p : Parser τ a) (tokens : List Token) :
    (runCached rules fuel p tokens cache).events =
        firstBuilds cache.holds (runAfresh rules fuel p tokens).events ∧
      (runCached rules fuel p tokens cache).state.holds =
        builtBy cache.holds (runAfresh rules fuel p tokens).events :=
  ((compatible_buildsOnce rules).eval
    (fun i us => ⟨callCached_mirrors fuel i us, callCached_buildsOnce fuel i us⟩)
    (fuel + 1) p tokens).right cache hcache

theorem runEach_of_keeps {cache : Cache τ} (hcache : cache.Keeps rules)
    (fuel : List Token -> Nat) (p : Parser τ a) (streams : List (List Token)) :
    (runEach rules fuel p cache streams).map Run.outcome =
        streams.map (fun tokens => (runAfresh rules (fuel tokens) p tokens).outcome) ∧
      (runEach rules fuel p cache streams).map Run.events =
        firstBuildsEach cache.holds
          (streams.map fun tokens => (runAfresh rules (fuel tokens) p tokens).events) := by
  induction streams generalizing cache with
  | nil => exact ⟨rfl, rfl⟩
  | cons tokens more ih =>
      rcases runCached_buildsOnce hcache (fuel tokens) p tokens with ⟨hevents, hholds⟩
      rcases ih (keeps_runCached hcache (fuel tokens) p tokens) with ⟨houtcomes, hmore⟩
      rw [hholds] at hmore
      constructor
      · rw [runEach, List.map_cons, outcome_runCached hcache, houtcomes, List.map_cons]
      · rw [runEach, List.map_cons, hevents, hmore, List.map_cons, firstBuildsEach]

/-- Running a parser on some streams in turn, with a cache that is empty at first, every run
ends like the run on its stream alone that builds a rule at every use.  The events are those
of these runs as well, except that over all streams every rule is built at its first use only:
none is built twice, and just those are built that are used. -/
theorem runEach_builds_once (rules : (i : ι) -> Parser τ (τ i)) (fuel : List Token -> Nat)
    (p : Parser τ a) (streams : List (List Token)) :
    (runEach rules fuel p Cache.empty streams).map Run.outcome =
      streams.map (fun tokens => (runAfresh rules (fuel tokens) p tokens).outcome) ∧
    (runEach rules fuel p Cache.empty streams).map Run.events =
      firstBuildsEach (fun _ => false)
        (streams.map fun tokens => (runAfresh rules (fuel tokens) p tokens).events) ∧
    (((runEach rules fuel p Cache.empty streams).flatMap Run.events).filterMap rule?).Nodup ∧
    forall i : ι, .built i ∈ (runEach rules fuel p Cache.empty streams).flatMap Run.events <->
      .built i ∈ streams.flatMap fun tokens => (runAfresh rules (fuel tokens) p tokens).events := by
  have hempty : Cache.empty.Keeps rules := Cache.keeps_empty
  rcases runEach_of_keeps hempty fuel p streams with ⟨houtcomes, hevents⟩
  have hall : (runEach rules fuel p Cache.empty streams).flatMap Run.events =
      firstBuilds (fun _ => false)
        (streams.flatMap fun tokens => (runAfresh rules (fuel tokens) p tokens).events) := by
    rw [List.flatMap_def, hevents, flatten_firstBuildsEach, List.flatMap_def]
    rfl
  refine ⟨houtcomes, hevents, ?_, fun i => ?_⟩
  · rw [hall]
    exact nodup_firstBuilds _ _
  · rw [hall, mem_firstBuilds_iff]
    exact and_iff_right rfl

end Parser

namespace Grammar

open Reckon.Parser

/-- A number does without the rule of the grammar.  The second stream builds it, and the third
one, which uses it twice, finds it built. -/
theorem runEach_builds_once_nested :
    exists streams : List (List Token),
      streams.map (fun tokens =>
          (runAfresh (rules .standard) (fuel tokens) (program .standard nested) tokens).events) =
        [[], [.built .expr], [.built .expr, .built .expr]] ∧
      (runEach (rules .standard) fuel (program .standard nested) Cache.empty streams).map
          Run.events =
        [[], [.built .expr], []] := by
  have hafresh : [[⟨.num, "1"⟩], [⟨.openParen, "("⟩, ⟨.num, "2"⟩, ⟨.closeParen, ")"⟩],
      [⟨.openParen, "("⟩, ⟨.openParen, "("⟩, ⟨.num, "3"⟩, ⟨.closeParen, ")"⟩,
        ⟨.closeParen, ")"⟩]].map (fun tokens =>
          (runAfresh (rules .standard) (fuel tokens) (program .standard nested) tokens).events) =
        [[], [.built .expr], [.built .expr, .built .expr]] := by
    decide +kernel
  refine ⟨_, hafresh, ?_⟩
  rw [(runEach_builds_once _ _ _ _).right.left, hafresh]
  rfl

end Grammar
end Reckon
