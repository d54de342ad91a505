import Mathlib.Logic.Function.Iterate
import BitcoinNodeTests.Foundation.Polling

/-!
# What goes on while operations last

A system that changes by events, and a client whose operations each let some of them happen and
some time pass.  Which events happen during which operation is given by number, so that every
interleaving is one such course.
-/

set_option autoImplicit false

namespace BitcoinNodeTests.Foundation

/-- A system's state, the time in milliseconds and the number of operations begun. -/
structure World (γ : Type) where
  state : γ
  now : Int
  turn : Nat

structure Course (γ ε : Type) where
  apply : ε → γ → γ
  during : Nat → List ε × Nat

namespace Course

variable {γ ε : Type} (course : Course γ ε)

def applyAll (events : List ε) (state : γ) : γ :=
  events.foldl (fun reached event => course.apply event reached) state

def pass (world : World γ) : World γ :=
  let during := course.during world.turn
  ⟨course.applyAll during.1 world.state, world.now + during.2, world.turn + 1⟩

def sleep (millis : Nat) (world : World γ) : World γ :=
  let passed := course.pass world
  { passed with now := passed.now + millis }

def ticker : Ticker (World γ) where
  now := World.now
  tick := course.pass
  sleep := course.sleep

def Quick (delay : Nat) : Prop := ∀ turn, (course.during turn).2 ≤ delay

/-- The world `count` operations later, each of which took no longer than a sleep and `delay`. -/
structure After (delay : Nat) (start : World γ) (count : Nat) (world : World γ) : Prop where
  turn : world.turn = start.turn + count
  state : world.state = (course.pass^[count] start).state
  now : world.now ≤ start.now + count * (100 + delay)

variable {course} {delay count : Nat} {start world : World γ}

theorem ticker_laws : TickerLaws course.ticker := by
  constructor
  · intro world
    show world.now ≤ world.now + ((course.during world.turn).2 : Int)
    omega
  · intro millis world
    show world.now + millis ≤ world.now + ((course.during world.turn).2 : Int) + millis
    omega

theorem pass_now (quick : course.Quick delay) (world : World γ) :
    (course.pass world).now ≤ world.now + delay := by
  have bound := quick world.turn
  show world.now + ((course.during world.turn).2 : Int) ≤ _
  omega

theorem iterate_turn (count : Nat) (start : World γ) :
    (course.pass^[count] start).turn = start.turn + count := by
  induction count with
  | zero => rfl
  | succ count ih =>
      rw [Function.iterate_succ_apply']
      exact (congrArg (· + 1) ih).trans (Nat.add_assoc _ _ _)

theorem After.none (delay : Nat) (start : World γ) : course.After delay start 0 start :=
  ⟨rfl, rfl, by omega⟩

theorem After.pass (quick : course.Quick delay) (after : course.After delay start count world) :
    course.After delay start (count + 1) (course.pass world) := by
  constructor
  · exact (congrArg (· + 1) after.turn).trans (Nat.add_assoc _ _ _)
  · rw [Function.iterate_succ_apply']
    show course.applyAll (course.during world.turn).1 world.state =
      course.applyAll (course.during (course.pass^[count] start).turn).1
        (course.pass^[count] start).state
    rw [after.state, after.turn, iterate_turn]
  · have bound := pass_now quick world
    have now := after.now
    push_cast
    rw [Int.add_mul]
    omega

theorem After.sleep (quick : course.Quick delay) (after : course.After delay start count world) :
    course.After delay start (count + 1) (course.sleep 100 world) := by
  obtain ⟨turn, state, -⟩ := after.pass quick
  refine ⟨turn, state, ?_⟩
  have bound := pass_now quick world
  have now := after.now
  show (course.pass world).now + (100 : Nat) ≤ _
  push_cast
  rw [Int.add_mul]
  omega

theorem After.iterate (quick : course.Quick delay) (after : course.After delay start count world)
    (more : Nat) : course.After delay start (count + more) (course.pass^[more] world) := by
  induction more with
  | zero => exact after
  | succ more ih =>
      rw [Function.iterate_succ_apply']
      exact ih.pass quick

theorem iterate_goesOn (count : Nat) (world : World γ) :
    world.now ≤ (course.pass^[count] world).now := by
  induction count with
  | zero => exact Int.le_refl _
  | succ count ih =>
      rw [Function.iterate_succ_apply']
      exact Int.le_trans ih (ticker_laws.tick _)

theorem iterate_now (quick : course.Quick delay) (count : Nat) (world : World γ) :
    (course.pass^[count] world).now ≤ world.now + count * (100 + delay) := by
  have now := ((After.none delay world).iterate quick count).now
  rwa [Nat.zero_add] at now

theorem settles_of_answer {ζ α : Type} {round : Action (World γ) ζ (Option α)} {asks upAt : Nat}
    (quick : course.Quick delay)
    (answers : ∀ count world, course.After delay start count world → ∃ found,
      round world = (.ok found, course.pass^[asks] world) ∧ (upAt ≤ count → found.isSome = true)) :
    Settles course.ticker round (fun world => ∃ count, course.After delay start count world)
      (start.now + upAt * (100 + delay)) ((asks + 2) * (100 + delay)) := by
  constructor
  · rintro world ⟨count, after⟩
    have ticked := after.pass quick
    obtain ⟨found, run, finds⟩ := answers _ _ ticked
    have asked := ticked.iterate quick asks
    have one := pass_now quick world
    have others := iterate_now quick asks (course.pass world)
    have last := pass_now quick (course.pass^[asks] (course.pass world))
    refine ⟨found, _, run, ⟨_, asked.sleep quick⟩, ⟨_, asked⟩, ?_, ?_, ?_⟩
    · show (course.pass^[asks] (course.pass world)).now ≤ world.now + _
      rw [Int.add_mul]
      omega
    · show (course.pass (course.pass^[asks] (course.pass world))).now + (100 : Nat) ≤ world.now + _
      rw [Int.add_mul]
      omega
    · intro settled
      apply finds
      have now := after.now
      by_contra fewer
      have less : (count : Int) + 1 ≤ upAt := by omega
      have scaled := Int.mul_le_mul_of_nonneg_right less (show (0 : Int) ≤ 100 + delay by omega)
      rw [Int.add_mul] at scaled
      have settled : start.now + upAt * (100 + delay) ≤ world.now := settled
      omega
  · intro world
    have one := pass_now quick world
    show (course.pass world).now ≤ world.now + _
    have nonneg : (0 : Int) ≤ asks * (100 + delay) := Int.mul_nonneg (by omega) (by omega)
    rw [Int.add_mul]
    omega

/-! ## What the events keep -/

/-- Across operations from the turn `first` on, the states are related so. -/
structure Since (first : Nat) (relation : γ → γ → Prop) (before after : World γ) : Prop where
  turn : before.turn ≤ after.turn
  now : before.now ≤ after.now
  moved : first ≤ before.turn → relation before.state after.state

section Since

variable {relation : γ → γ → Prop} [IsPreorder γ relation] {first : Nat}

instance : IsPreorder (World γ) (Since first relation) where
  refl world := ⟨Nat.le_refl _, Int.le_refl _, fun _ => Std.Refl.refl world.state⟩
  trans _ _ _ one other := ⟨Nat.le_trans one.turn other.turn, Int.le_trans one.now other.now,
    fun late => IsTrans.trans _ _ _ (one.moved late) (other.moved (Nat.le_trans late one.turn))⟩

theorem applyAll_moves {events : List ε}
    (each : ∀ event ∈ events, ∀ state, relation state (course.apply event state)) (state : γ) :
    relation state (course.applyAll events state) := by
  induction events generalizing state with
  | nil => exact Std.Refl.refl state
  | cons event rest ih =>
      exact IsTrans.trans _ _ _ (each event List.mem_cons_self state)
        (ih (fun later member => each later (List.mem_cons_of_mem event member)) _)

theorem pass_since (each : ∀ turn, first ≤ turn → ∀ event ∈ (course.during turn).1, ∀ state,
      relation state (course.apply event state)) (world : World γ) :
    Since first relation world (course.pass world) :=
  ⟨Nat.le_succ _, ticker_laws.tick world, fun late =>
    applyAll_moves (each world.turn late) world.state⟩

theorem sleep_since (each : ∀ turn, first ≤ turn → ∀ event ∈ (course.during turn).1, ∀ state,
      relation state (course.apply event state)) (millis : Nat) (world : World γ) :
    Since first relation world (course.sleep millis world) := by
  refine ⟨Nat.le_succ _, ?_, fun late => applyAll_moves (each world.turn late) world.state⟩
  have slept : world.now + millis ≤ (course.sleep millis world).now :=
    ticker_laws.sleep millis world
  omega

end Since

end Course

end BitcoinNodeTests.Foundation
