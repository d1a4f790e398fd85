import Mathlib.Data.List.Basic
import Mathlib.Data.List.Induction
import Mathlib.Data.List.Infix

/-!
# Runs of a deterministic step function

Events are consumed one at a time, each from the state the earlier ones left.
A property of a whole run is reduced once, here, to what a single step
preserves; nothing in this module mentions a particular machine.
-/

namespace LumenOS.StepRuns

set_option autoImplicit false

variable {State Event : Type*}

def run (step : State → Event → State) (start : State) (events : List Event) : State :=
  events.foldl step start

@[simp] theorem run_nil (step : State → Event → State) (start : State) :
    run step start [] = start := rfl

@[simp] theorem run_cons (step : State → Event → State) (start : State)
    (event : Event) (events : List Event) :
    run step start (event :: events) = run step (step start event) events := rfl

theorem run_append (step : State → Event → State) (start : State)
    (before after : List Event) :
    run step start (before ++ after) = run step (run step start before) after :=
  List.foldl_append

/-- Every event of the run, together with the state it is taken in, meets
the given relation. -/
def EachStep (step : State → Event → State) (good : State → Event → Prop) :
    State → List Event → Prop
  | _, [] => True
  | state, event :: events => good state event ∧ EachStep step good (step state event) events

@[simp] theorem each_step_nil (step : State → Event → State) (good : State → Event → Prop)
    (start : State) : EachStep step good start [] := trivial

@[simp] theorem each_step_cons (step : State → Event → State) (good : State → Event → Prop)
    (start : State) (event : Event) (events : List Event) :
    EachStep step good start (event :: events) ↔
      good start event ∧ EachStep step good (step start event) events := Iff.rfl

theorem each_step_of_all (step : State → Event → State) {good : Event → Prop} (start : State)
    {events : List Event} (all : ∀ event ∈ events, good event) :
    EachStep step (fun _ event => good event) start events := by
  induction events generalizing start with
  | nil => trivial
  | cons event events ih =>
      obtain ⟨first, later⟩ := List.forall_mem_cons.mp all
      exact ⟨first, ih (step start event) later⟩

/-- What every step keeps, whatever the event, holds after every run. -/
theorem run_invariant_always {step : State → Event → State} (inv : State → Prop)
    (keeps : ∀ state event, inv state → inv (step state event))
    (start : State) (initial : inv start) (events : List Event) :
    inv (run step start events) := by
  induction events generalizing start with
  | nil => exact initial
  | cons event events ih => exact ih (step start event) (keeps start event initial)

section Invariants

variable {step : State → Event → State} {guard : State → Event → Prop} {inv : State → Prop}
  (keeps : ∀ state event, inv state → guard state event → inv (step state event))

include keeps

/-- The invariant rule: what every guarded step keeps holds in every state
that a guarded run reaches, not only in the last one. -/
theorem reached_invariant (start : State) (initial : inv start) (events : List Event)
    (guarded : EachStep step guard start events) :
    ∀ before, before <+: events → inv (run step start before) := by
  induction events generalizing start with
  | nil =>
      intro before leading
      rw [List.prefix_nil.mp leading]
      exact initial
  | cons event events ih =>
      intro before leading
      cases before with
      | nil => exact initial
      | cons first rest =>
          obtain ⟨rfl, within⟩ := List.cons_prefix_cons.mp leading
          exact ih (step start first) (keeps start first initial guarded.1) guarded.2 rest within

theorem run_invariant (start : State) (initial : inv start) (events : List Event)
    (guarded : EachStep step guard start events) : inv (run step start events) :=
  reached_invariant keeps start initial events guarded events (List.prefix_refl events)

/-- Where the guard decides exactly whether a step taken under the invariant
is a good one, a run is good throughout if and only if it is guarded throughout. -/
theorem each_step_exact {good : State → Event → Prop}
    (exact_step : ∀ state event, inv state → (good state event ↔ guard state event))
    (start : State) (initial : inv start) (events : List Event) :
    EachStep step good start events ↔ EachStep step guard start events := by
  induction events generalizing start with
  | nil => simp
  | cons event events ih =>
      rw [each_step_cons, each_step_cons, exact_step start event initial]
      constructor
      · rintro ⟨head, tail⟩
        exact ⟨head, (ih _ (keeps start event initial head)).mp tail⟩
      · rintro ⟨head, tail⟩
        exact ⟨head, (ih _ (keeps start event initial head)).mpr tail⟩

end Invariants

/-- The simulation rule: a view that commutes with every guarded step commutes
with every guarded run. -/
theorem run_simulation {Abstract : Type*} {step : State → Event → State}
    {guard : State → Event → Prop} (view : State → Abstract)
    (abstractStep : Abstract → Event → Abstract)
    (square : ∀ state event, guard state event →
      view (step state event) = abstractStep (view state) event)
    (start : State) (events : List Event) (guarded : EachStep step guard start events) :
    view (run step start events) = run abstractStep (view start) events := by
  induction events generalizing start with
  | nil => rfl
  | cons event events ih =>
      rw [run_cons, run_cons, ← square start event guarded.1]
      exact ih (step start event) guarded.2

/-- The rule for a relation between two machines on the same events: what every
guarded step keeps relates all the states they reach. -/
theorem reached_related {Abstract : Type*} {step : State → Event → State}
    {abstractStep : Abstract → Event → Abstract} {guard : State → Event → Prop}
    {related : State → Abstract → Prop}
    (keeps : ∀ state abstract event, related state abstract → guard state event →
      related (step state event) (abstractStep abstract event))
    (start : State) (abstractStart : Abstract) (initial : related start abstractStart)
    (events : List Event) (guarded : EachStep step guard start events) :
    ∀ before, before <+: events →
      related (run step start before) (run abstractStep abstractStart before) := by
  induction events generalizing start abstractStart with
  | nil =>
      intro before leading
      rw [List.prefix_nil.mp leading]
      exact initial
  | cons event events ih =>
      intro before leading
      cases before with
      | nil => exact initial
      | cons first rest =>
          obtain ⟨rfl, within⟩ := List.cons_prefix_cons.mp leading
          exact ih (step start first) (abstractStep abstractStart first)
            (keeps start abstractStart first initial guarded.1) guarded.2 rest within

/-- What every step keeps, whatever the event, relates the ends of all runs. -/
theorem run_related {Abstract : Type*} {step : State → Event → State}
    {abstractStep : Abstract → Event → Abstract} {related : State → Abstract → Prop}
    (keeps : ∀ state abstract event, related state abstract →
      related (step state event) (abstractStep abstract event))
    (start : State) (abstractStart : Abstract) (initial : related start abstractStart)
    (events : List Event) :
    related (run step start events) (run abstractStep abstractStart events) :=
  reached_related (fun state abstract event together _ => keeps state abstract event together) start
    abstractStart initial events (each_step_of_all step start fun _ _ => trivial) events
    List.prefix_rfl

theorem each_step_iff_reached {step : State → Event → State} (good : State → Prop)
    (start : State) (initial : good start) (events : List Event) :
    EachStep step (fun state event => good (step state event)) start events ↔
      ∀ before, before <+: events → good (run step start before) := by
  induction events generalizing start with
  | nil =>
      constructor
      · intro _ before leading
        rw [List.prefix_nil.mp leading]
        exact initial
      · intro _
        trivial
  | cons event events ih =>
      constructor
      · intro each before leading
        cases before with
        | nil => exact initial
        | cons first rest =>
            obtain ⟨rfl, within⟩ := List.cons_prefix_cons.mp leading
            exact (ih (step start first) each.1).mp each.2 rest within
      · intro reached
        have next : good (step start event) :=
          reached [event] (List.cons_prefix_cons.mpr ⟨rfl, List.nil_prefix⟩)
        refine ⟨next, (ih (step start event) next).mpr ?_⟩
        intro before within
        exact reached (event :: before) (List.cons_prefix_cons.mpr ⟨rfl, within⟩)

section Histories

variable {Item : Type*} (good : List Item → Prop)

/-- A growing record of what happened has the property at every moment. -/
def AtEveryPoint (history : List Item) : Prop :=
  ∀ point, point <+: history → good point

theorem at_every_point_nil (initial : good []) : AtEveryPoint good [] := by
  intro point leading
  rw [List.prefix_nil.mp leading]
  exact initial

theorem at_every_point_concat (history : List Item) (item : Item) :
    AtEveryPoint good (history ++ [item]) ↔
      AtEveryPoint good history ∧ good (history ++ [item]) := by
  constructor
  · intro always
    refine ⟨?_, always _ List.prefix_rfl⟩
    intro point leading
    exact always point (leading.trans (List.prefix_append _ _))
  · rintro ⟨earlier, last⟩ point leading
    rcases List.prefix_concat_iff.mp leading with rfl | within
    · exact last
    · exact earlier point within

variable {good}

theorem at_every_point_shorter {shorter longer : List Item} (leading : shorter <+: longer)
    (always : AtEveryPoint good longer) : AtEveryPoint good shorter := by
  intro point within
  exact always point (within.trans leading)

end Histories

section LastWhere

variable {Item : Type*}

def lastWhere (test : Item → Bool) (history : List Item) : Option Item :=
  (history.filter test).getLast?

theorem last_where_concat (test : Item → Bool) (history : List Item) (item : Item) :
    lastWhere test (history ++ [item]) =
      if test item then some item else lastWhere test history := by
  unfold lastWhere
  rw [List.filter_append, List.getLast?_append]
  cases passes : test item
  · simp [passes]
  · simp [passes]

/-- A last item that also passes a narrower test is the last to do so. -/
theorem last_where_narrow {wide narrow : Item → Bool}
    (within : ∀ item, narrow item = true → wide item = true) (history : List Item) (last : Item)
    (found : lastWhere wide history = some last) (passes : narrow last = true) :
    lastWhere narrow history = some last := by
  induction history using List.reverseRecOn with
  | nil => exact absurd found (by simp [lastWhere])
  | append_singleton history item ih =>
      rw [last_where_concat] at found ⊢
      cases here : wide item with
      | true =>
          rw [if_pos here] at found
          obtain rfl := Option.some.inj found
          exact if_pos passes
      | false =>
          rw [if_neg (by simp [here])] at found
          have misses : ¬ narrow item = true := fun passed => by
            simp [within item passed] at here
          rw [if_neg misses]
          exact ih found

theorem last_where_none {wide narrow : Item → Bool}
    (within : ∀ item, narrow item = true → wide item = true) (history : List Item)
    (absent : lastWhere wide history = none) : lastWhere narrow history = none := by
  unfold lastWhere at absent ⊢
  rw [List.getLast?_eq_none_iff, List.filter_eq_nil_iff] at absent ⊢
  intro item member passed
  exact absent item member (within item passed)

end LastWhere

section Depth

variable {α β : Type*}

/-- What the first computation gives, the second gives as well: the second may
only go deeper. -/
def Extends (first second : Option α) : Prop :=
  ∀ given, first = some given → second = some given

theorem extends_refl (first : Option α) : Extends first first := fun _ same => same

theorem extends_bind {first second : Option α} {next further : α → Option β}
    (begins : Extends first second) (goes : ∀ given, Extends (next given) (further given)) :
    Extends (first.bind next) (second.bind further) := by
  intro final ran
  obtain ⟨middle, started, ended⟩ := Option.bind_eq_some_iff.mp ran
  apply Option.bind_eq_some_iff.mpr
  exact ⟨middle, begins middle started, goes middle final ended⟩

theorem extends_fold {shallow deep : State → Event → Option State}
    (goes : ∀ state event, Extends (shallow state event) (deep state event))
    (events : List Event) (start : State) :
    Extends (events.foldlM shallow start) (events.foldlM deep start) := by
  induction events generalizing start with
  | nil => apply extends_refl
  | cons event events ih =>
      rw [List.foldlM_cons, List.foldlM_cons]
      exact extends_bind (goes start event) ih

/-- Steps that settle once they may go deep enough make a run that settles, and
what they keep relates its end to the end of the other run. -/
theorem run_settles {Abstract : Type*} {step : Nat → State → Event → Option State}
    {abstractStep : Abstract → Event → Abstract} {guard : Event → Prop}
    {related : State → Abstract → Prop}
    (settles : ∀ state abstract event, related state abstract → guard event →
      ∃ needed next, (∀ depth, needed ≤ depth → step depth state event = some next) ∧
        related next (abstractStep abstract event))
    (start : State) (abstractStart : Abstract) (initial : related start abstractStart)
    (events : List Event) (guarded : ∀ event ∈ events, guard event) :
    ∃ needed final, (∀ depth, needed ≤ depth → events.foldlM (step depth) start = some final) ∧
      related final (run abstractStep abstractStart events) := by
  induction events generalizing start abstractStart with
  | nil => exact ⟨0, start, fun _ _ => rfl, initial⟩
  | cons event events ih =>
      obtain ⟨first, next, stepped, together⟩ :=
        settles start abstractStart event initial (guarded event List.mem_cons_self)
      obtain ⟨rest, final, ran, ended⟩ := ih next (abstractStep abstractStart event) together
        fun other member => guarded other (List.mem_cons_of_mem event member)
      refine ⟨first + rest, final, ?_, ended⟩
      intro depth enough
      rw [List.foldlM_cons, stepped depth (by omega)]
      exact ran depth (by omega)

end Depth

end LumenOS.StepRuns
