import BitcoinNodeTests.Node.Ports
import BitcoinNodeTests.Node.Reported

/-!
# The nodes of a cluster

A `_cluster` fixture starts nodes while a test runs, as many and as often as the test asks, and
stops those it started once the test is over.  Each adapter has the processes it spawned, and
all run in one world; while an operation on one lasts, processes of the others may exit.
Whatever raised, and when, no node outlives its test.
-/

set_option autoImplicit false

namespace BitcoinNodeTests

open Foundation Teardown

/-- An adapter of the cluster, with the processes it spawned and the one it holds. -/
structure Seat where
  adapter : NodeAdapter
  running : Option Running
  processes : List Process

structure Site (ω : Type) where
  seats : List Seat
  started : List Nat
  cursor : PortCursor
  now : Int
  world : ω

/-- What the nodes run on: the host of each adapter, the adapter `make_adapter` gives over
the ports drawn, and the code with which a process of an adapter has exited in a world. -/
structure Venue (ω : Type) where
  host : Nat → Host ω
  makeAdapter : Nat → List Nat → NodeAdapter
  fate : ω → Nat → Nat → Option Int

namespace Site

variable {ω : Type}

def machine (number : Nat) (site : Site ω) : Machine ω :=
  match site.seats[number]? with
  | some seat => ⟨seat.running, seat.processes, site.now, site.world⟩
  | none => ⟨none, [], site.now, site.world⟩

def keep (venue : Venue ω) (number : Nat) (machine : Machine ω) (site : Site ω) : Site ω :=
  { site with
    seats := site.seats.mapIdx fun other seat =>
      if other = number then
        { seat with running := machine.running, processes := machine.processes }
      else
        { seat with
          processes := seat.processes.mapIdx fun process spawned =>
            spawned.after (venue.fate machine.world other process) }
    now := machine.now
    world := machine.world }

def addSeat (venue : Venue ω) (ports : List Nat) (site : Site ω) : Site ω :=
  { site with
    seats := site.seats ++ [⟨venue.makeAdapter site.seats.length ports, none, []⟩] }

end Site

section Cluster

variable {ω : Type} (venue : Venue ω)

abbrev SiteAction (ω α : Type) : Type := Action (Site ω) NodeRaised α

def onNode {α : Type} (number : Nat) (action : NodeAction ω α) : SiteAction ω α := fun site =>
  let (result, machine) := action (site.machine number)
  (result, site.keep venue number machine)

def freePorts (count : Int) (binds : Nat → Bool) : SiteAction ω (List Nat) := fun site =>
  let (taken, cursor) := site.cursor.take count binds
  match taken.result with
  | .ok ports => (.ok ports, { site with cursor := cursor })
  | .error text => (.error (.runtimeError text none), { site with cursor := cursor })

def makeAdapter (ports : List Nat) : SiteAction ω Nat := fun site =>
  (.ok site.seats.length, site.addSeat venue ports)

def startOne (binds : Nat → Bool) : SiteAction ω Unit := do
  let ports ← freePorts 2 binds
  let number ← makeAdapter venue ports
  onNode venue number (start (venue.host number) (venue.makeAdapter number ports))
  Action.update fun site => { site with started := site.started ++ [number] }

def startNodes (binds : Nat → Nat → Bool) : Nat → SiteAction ω Unit
  | 0 => pure ()
  | count + 1 => do
      startOne venue (binds count)
      startNodes binds count

def startedAt (number : Nat) : Started (Site ω) ω where
  host := venue.host number
  machine := Site.machine number
  keep := Site.keep venue number

/-- What a test over a cluster may have come to: it starts nodes, calls the ones it was given
and lets time pass, and an exception it does not catch ends it anywhere. -/
inductive ClusterRun : Site ω → Prop where
  | opened (cursor : PortCursor) (now : Int) (world : ω) : ClusterRun ⟨[], [], cursor, now, world⟩
  | startNodes {site : Site ω} (binds : Nat → Nat → Bool) (count : Nat) (run : ClusterRun site) :
      ClusterRun (startNodes venue binds count site).2
  | called {site : Site ω} {number : Nat} {seat : Seat} (call : NodeCall)
      (among : number ∈ site.started) (seated : site.seats[number]? = some seat)
      (run : ClusterRun site) :
      ClusterRun (onNode venue number (call.perform (venue.host number) seat.adapter) site).2
  | elapsed {site later : Site ω} (started : later.started = site.started)
      (seats : later.seats.map Seat.adapter = site.seats.map Seat.adapter)
      (elapses : ∀ number, Elapses (site.machine number) (later.machine number))
      (run : ClusterRun site) : ClusterRun later

def closeCluster (site : Site ω) (handled : Traceback NodeRaised) :
    Except (Traceback NodeRaised) Unit × (Site ω × List (Started (Site ω) ω)) :=
  stopAll (site.started.map (startedAt venue)) handled (site, [])

end Cluster

/-! ## What an operation leaves of the others -/

section Kept

variable {ω : Type} {venue : Venue ω}

theorem Site.machine_of_seat {site : Site ω} {number : Nat} {seat : Seat}
    (seated : site.seats[number]? = some seat) :
    site.machine number = ⟨seat.running, seat.processes, site.now, site.world⟩ := by
  rw [Site.machine, seated]

theorem Site.machine_of_none {site : Site ω} {number : Nat} (vacant : site.seats[number]? = none) :
    site.machine number = ⟨none, [], site.now, site.world⟩ := by
  rw [Site.machine, vacant]

theorem Site.keep_own {site : Site ω} {number : Nat} (seated : number < site.seats.length)
    (machine : Machine ω) : (site.keep venue number machine).machine number = machine := by
  have found : (site.keep venue number machine).seats[number]? = some
      { site.seats[number] with running := machine.running, processes := machine.processes } := by
    rw [Site.keep, List.getElem?_mapIdx, List.getElem?_eq_getElem seated, Option.map_some,
      if_pos rfl]
  rw [Site.machine_of_seat found]
  rfl

/-- What is held is the same, and no process came back to life. -/
structure Fewer (before after : Machine ω) : Prop where
  running : after.running = before.running
  alive : ∀ process, after.Alive process → before.Alive process

theorem Fewer.holdsLive {before after : Machine ω} (fewer : Fewer before after)
    (holds : before.HoldsLive) : after.HoldsLive := by
  intro process alive
  rw [fewer.running]
  exact holds process (fewer.alive process alive)

theorem Fewer.noneAlive {before after : Machine ω} (fewer : Fewer before after)
    (noneAlive : before.NoneAlive) : after.NoneAlive :=
  fun process alive => noneAlive process (fewer.alive process alive)

theorem Site.keep_other (site : Site ω) {number other : Nat} (apart : other ≠ number)
    (machine : Machine ω) :
    Fewer (site.machine other) ((site.keep venue number machine).machine other) := by
  cases seated : site.seats[other]? with
  | none =>
      have vacant : (site.keep venue number machine).seats[other]? = none := by
        rw [Site.keep, List.getElem?_mapIdx, seated, Option.map_none]
      rw [Site.machine_of_none seated, Site.machine_of_none vacant]
      exact ⟨rfl, fun _ alive => alive⟩
  | some seat =>
      have found : (site.keep venue number machine).seats[other]? = some
          { seat with
            processes := seat.processes.mapIdx fun process spawned =>
              spawned.after (venue.fate machine.world other process) } := by
        rw [Site.keep, List.getElem?_mapIdx, seated, Option.map_some, if_neg apart]
      rw [Site.machine_of_seat seated, Site.machine_of_seat found]
      refine ⟨rfl, ?_⟩
      rintro process ⟨spawned, exists', alive⟩
      rw [List.getElem?_mapIdx, Option.map_eq_some_iff] at exists'
      obtain ⟨earlier, was, rfl⟩ := exists'
      exact ⟨earlier, was, Process.exitCode_of_after alive⟩

end Kept

/-! ## What a run keeps -/

section Runs

variable {ω : Type} {venue : Venue ω}

/-- A process alive is the one its adapter holds, and an adapter not started has none. -/
structure Site.Settled (site : Site ω) : Prop where
  seated : ∀ number ∈ site.started, number < site.seats.length
  holds : ∀ number, (site.machine number).HoldsLive
  others : ∀ number, number ∉ site.started → (site.machine number).NoneAlive

theorem Site.keep_length (site : Site ω) (number : Nat) (machine : Machine ω) :
    (site.keep venue number machine).seats.length = site.seats.length :=
  List.length_mapIdx

theorem Site.Settled.keep {site : Site ω} (settled : site.Settled) {number : Nat}
    (seated : number < site.seats.length) {machine : Machine ω} (holds : machine.HoldsLive)
    (other : number ∉ site.started → machine.NoneAlive) :
    (site.keep venue number machine).Settled where
  seated third among := by
    rw [Site.keep_length]
    exact settled.seated third among
  holds third := by
    by_cases same : third = number
    · rw [same, Site.keep_own seated]
      exact holds
    · exact (site.keep_other same machine).holdsLive (settled.holds third)
  others third absent := by
    by_cases same : third = number
    · rw [same, Site.keep_own seated]
      exact other (same ▸ absent)
    · exact (site.keep_other same machine).noneAlive (settled.others third absent)

theorem Site.addSeat_length (site : Site ω) (ports : List Nat) :
    (site.addSeat venue ports).seats.length = site.seats.length + 1 :=
  List.length_append

theorem Site.addSeat_new (site : Site ω) (ports : List Nat) :
    (site.addSeat venue ports).machine site.seats.length = ⟨none, [], site.now, site.world⟩ := by
  have found : (site.addSeat venue ports).seats[site.seats.length]? =
      some ⟨venue.makeAdapter site.seats.length ports, none, []⟩ := List.getElem?_concat_length
  rw [Site.machine_of_seat found]
  rfl

theorem Site.addSeat_other (site : Site ω) (ports : List Nat) {number : Nat}
    (old : number ≠ site.seats.length) :
    (site.addSeat venue ports).machine number = site.machine number := by
  have found : (site.addSeat venue ports).seats[number]? = site.seats[number]? := by
    show (site.seats ++ [_])[number]? = _
    rcases Nat.lt_or_gt_of_ne old with before | after
    · exact List.getElem?_append_left before
    · rw [List.getElem?_eq_none (by simp; omega), List.getElem?_eq_none (by omega)]
  rw [Site.machine, Site.machine, found]
  rfl

theorem noneAlive_of_empty {machine : Machine ω} (empty : machine.processes = []) :
    machine.NoneAlive := by
  rintro process ⟨spawned, found, -⟩
  rw [empty] at found
  cases found

theorem Site.Settled.addSeat {site : Site ω} (settled : site.Settled) (ports : List Nat) :
    (site.addSeat venue ports).Settled := by
  have fresh : ((site.addSeat venue ports).machine site.seats.length).NoneAlive :=
    noneAlive_of_empty (by rw [Site.addSeat_new])
  constructor
  · intro number among
    have before := settled.seated number among
    rw [Site.addSeat_length]
    omega
  · intro number
    by_cases new : number = site.seats.length
    · exact new ▸ fresh.holdsLive
    · rw [Site.addSeat_other site ports new]
      exact settled.holds number
  · intro number absent
    by_cases new : number = site.seats.length
    · exact new ▸ fresh
    · rw [Site.addSeat_other site ports new]
      exact settled.others number absent

theorem Site.Settled.enlist {site : Site ω} (settled : site.Settled) {number : Nat}
    (seated : number < site.seats.length) :
    ({ site with started := site.started ++ [number] } : Site ω).Settled where
  seated third among := by
    rcases List.mem_append.mp among with before | new
    · exact settled.seated third before
    · exact List.mem_singleton.mp new ▸ seated
  holds := settled.holds
  others third absent := settled.others third fun among => absent (List.mem_append_left _ among)

theorem Site.Settled.recast {site : Site ω} (settled : site.Settled) (cursor : PortCursor) :
    ({ site with cursor := cursor } : Site ω).Settled :=
  ⟨settled.seated, settled.holds, settled.others⟩

theorem freePorts_leaves (count : Int) (binds : Nat → Bool) (site : Site ω) :
    (freePorts count binds site).2 = { site with cursor := (site.cursor.take count binds).2 } := by
  rw [freePorts]
  cases drawn : (site.cursor.take count binds).1.result with
  | ok ports => simp only [drawn]
  | error text => simp only [drawn]

variable (killEnds : ∀ number, KillEnds (venue.host number))
include killEnds

/-- A start that raises leaves its adapter with no process, and one that returns enlists it. -/
theorem started_settled (ports : List Nat) {site : Site ω} (settled : site.Settled) :
    ((onNode venue site.seats.length
        (start (venue.host site.seats.length) (venue.makeAdapter site.seats.length ports)) >>=
      fun _ => Action.update fun reached : Site ω =>
        { reached with started := reached.started ++ [site.seats.length] })
      (site.addSeat venue ports)).2.Settled := by
  have seats := @Site.Settled.addSeat ω venue site settled ports
  have length : site.seats.length < (site.addSeat venue ports).seats.length := by
    rw [Site.addSeat_length]
    exact Nat.lt_succ_self _
  have unheld : NodeCall.refusal (venue.makeAdapter site.seats.length ports) .start
      ((site.addSeat venue ports).machine site.seats.length) = none := by
    rw [Site.addSeat_new]
    rfl
  rw [Action.bind_apply, onNode]
  rcases run : start (venue.host site.seats.length) (venue.makeAdapter site.seats.length ports)
      ((site.addSeat venue ports).machine site.seats.length) with ⟨error | ⟨⟩, machine⟩
  · have leaves := perform_leaves (killEnds _) .start (seats.holds _) run
    have none := (leaves.raised rfl unheld (by simp)).2
    exact seats.keep length none.holdsLive fun _ => none
  · have leaves := perform_leaves (killEnds _) .start (seats.holds _) run
    exact (seats.enlist length).keep length leaves.holds fun absent =>
      absurd (List.mem_append_right _ List.mem_cons_self) absent

theorem startOne_settled (binds : Nat → Bool) {site : Site ω} (settled : site.Settled) :
    (startOne venue binds site).2.Settled := by
  have leaves := freePorts_leaves 2 binds site
  rw [startOne, Action.bind_apply]
  rcases drawn : freePorts 2 binds site with ⟨error | ports, after⟩
  · rw [drawn] at leaves
    exact leaves ▸ settled.recast _
  · rw [drawn] at leaves
    have same : after = { site with cursor := (site.cursor.take 2 binds).2 } := leaves
    have recast : after.Settled := same ▸ settled.recast _
    exact started_settled killEnds ports recast

theorem startNodes_settled (binds : Nat → Nat → Bool) (count : Nat) :
    ∀ site : Site ω, site.Settled → (startNodes venue binds count site).2.Settled := by
  induction count with
  | zero => exact fun _ settled => settled
  | succ count ih =>
      intro site settled
      have one := startOne_settled killEnds (binds count) settled
      rw [startNodes, Action.bind_apply]
      rcases run : startOne venue (binds count) site with ⟨error | ⟨⟩, reached⟩
      · rw [run] at one
        exact one
      · rw [run] at one
        exact ih reached one

theorem ClusterRun.settled {site : Site ω} (run : ClusterRun venue site) : site.Settled := by
  induction run with
  | opened cursor now world =>
      have vacant (number : Nat) : (Site.machine number ⟨[], [], cursor, now, world⟩).NoneAlive :=
        noneAlive_of_empty (by rw [Site.machine_of_none rfl])
      exact ⟨fun _ among => absurd among List.not_mem_nil, fun number => (vacant number).holdsLive,
        fun number _ => vacant number⟩
  | startNodes binds count run ih => exact startNodes_settled killEnds binds count _ ih
  | @called site number seat call among seated run ih =>
      rcases ran : call.perform (venue.host number) seat.adapter (site.machine number) with
        ⟨result, machine⟩
      have leaves := perform_leaves (killEnds _) call (ih.holds _) ran
      rw [onNode, ran]
      exact ih.keep (ih.seated _ among) leaves.holds fun absent => absurd among absent
  | @elapsed site later started seats elapses run ih =>
      have length : later.seats.length = site.seats.length := by
        simpa using congrArg List.length seats
      constructor
      · intro number among
        rw [length]
        exact ih.seated number (started ▸ among)
      · exact fun number => (ih.holds number).elapses (elapses number)
      · exact fun number absent => (ih.others number (started ▸ absent)).elapses (elapses number)

end Runs

/-! ## What the teardown leaves -/

section Closed

variable {σ ω : Type}

def stopsLeave (adapters : List (Started σ ω)) (state : σ) : σ :=
  adapters.foldl
    (fun reached adapter =>
      adapter.keep (BitcoinNodeTests.stop adapter.host (adapter.machine reached)).2 reached)
    state

theorem ensuring_leaves (body after : Handling (σ × List (Started σ ω)) NodeRaised Unit)
    (handled : Traceback NodeRaised) (state : σ × List (Started σ ω)) :
    ∃ meanwhile, (Handling.ensuring body after handled state).2 =
      (after meanwhile (body handled state).2).2 := by
  rcases run : body handled state with ⟨error | ⟨⟩, reached⟩
  · refine ⟨error, ?_⟩
    rw [Handling.ensuring_of_error _ run]
    rcases ends : after error reached with ⟨later | ⟨⟩, final⟩
    · rw [Handling.bind_of_error _ ends]
    · rw [Handling.bind_of_ok _ ends]
      rfl
  · refine ⟨handled, ?_⟩
    rw [Handling.ensuring_of_ok _ run]
    rcases ends : after handled reached with ⟨later | ⟨⟩, final⟩
    · rw [Handling.bind_of_error _ ends]
    · rw [Handling.bind_of_ok _ ends]
      rfl

theorem stopEach_leaves (adapters : List (Started σ ω)) : ∀ handled state calls,
    (stopEach adapters handled (state, calls)).2 =
      (stopsLeave adapters state, calls ++ adapters) := by
  induction adapters with
  | nil => exact fun _ _ calls => by rw [List.append_nil]; rfl
  | cons last earlier ih =>
      intro handled state calls
      have stopped : (last.stop handled (state, calls)).2 =
          (last.keep (BitcoinNodeTests.stop last.host (last.machine state)).2 state,
            calls ++ [last]) := by
        rcases run : BitcoinNodeTests.stop last.host (last.machine state) with
          ⟨error | ⟨⟩, machine⟩
        · obtain ⟨traceback, stopped, -⟩ := last.stop_of_error run handled calls
          rw [stopped]
        · rw [last.stop_of_ok run handled calls]
      obtain ⟨meanwhile, leaves⟩ :=
        ensuring_leaves last.stop (stopEach earlier) handled (state, calls)
      rw [stopEach, leaves, stopped, ih, List.append_assoc]
      rfl

end Closed

section Cluster

variable {ω : Type} {venue : Venue ω}

/-- Stopping adapters leaves none of their processes alive, and brings none back. -/
theorem stopsLeave_settled (killEnds : ∀ number, KillEnds (venue.host number))
    (numbers : List Nat) : ∀ site : Site ω, site.Settled → (∀ number ∈ numbers,
      number < site.seats.length) →
    let final := stopsLeave (numbers.map (startedAt venue)) site
    final.Settled ∧ ∀ number, (number ∈ numbers ∨ (site.machine number).NoneAlive) →
      (final.machine number).NoneAlive := by
  induction numbers with
  | nil => exact fun site settled _ => ⟨settled, fun number either => either.resolve_left
      List.not_mem_nil⟩
  | cons first rest ih =>
      intro site settled seated
      obtain ⟨unheld, -, noneAlive⟩ := stop_leaves (killEnds first) (settled.holds first)
      have here := seated first List.mem_cons_self
      have kept := @Site.Settled.keep ω venue site settled first here _
        (@Machine.NoneAlive.holdsLive ω _ noneAlive) fun _ => noneAlive
      obtain ⟨later, leaves⟩ := ih _ kept fun number among => by
        rw [Site.keep_length]
        exact seated number (List.mem_cons_of_mem first among)
      refine ⟨later, fun number either => leaves number ?_⟩
      by_cases same : number = first
      · rw [same, Site.keep_own here]
        exact .inr noneAlive
      · rcases either with among | none
        · exact .inl ((List.mem_cons.mp among).resolve_left same)
        · exact .inr ((site.keep_other same _).noneAlive none)

/-- Whatever a test made of its cluster, and whatever was raised in it and in its teardown,
the teardown calls the stop of every node started, the last first, and leaves no process of
any node alive. -/
theorem cluster_closed (killEnds : ∀ number, KillEnds (venue.host number)) {site : Site ω}
    (run : ClusterRun venue site) (handled : Traceback NodeRaised) :
    let closed := (closeCluster venue site handled).2
    closed.2 = (site.started.map (startedAt venue)).reverse ∧
      ∀ number, (closed.1.machine number).NoneAlive := by
  have settled := run.settled killEnds
  have leaves := stopEach_leaves (site.started.map (startedAt venue)).reverse handled site []
  rw [closeCluster, stopAll, leaves]
  refine ⟨List.nil_append _, fun number => ?_⟩
  rw [← List.map_reverse]
  obtain ⟨-, stopped⟩ := stopsLeave_settled killEnds site.started.reverse site settled
    fun number among => settled.seated number (List.mem_reverse.mp among)
  apply stopped
  by_cases among : number ∈ site.started
  · exact .inl (List.mem_reverse.mpr among)
  · exact .inr (settled.others number among)

end Cluster

def stubbornVenue : Venue (List Nat) where
  host _ := stubborn
  makeAdapter _ _ := regtestAdapter
  fate _ _ _ := none

def twoStarted : Site (List Nat) :=
  (startNodes stubbornVenue (fun _ _ => true) 2 ⟨[], [], ⟨PORTS, 0, by decide⟩, 0, []⟩).2

theorem cluster_closed_stubborn :
    let closed := (closeCluster stubbornVenue twoStarted .empty).2
    closed.2 = (twoStarted.started.map (startedAt stubbornVenue)).reverse ∧
      ∀ number, (closed.1.machine number).NoneAlive := by
  have run : ClusterRun stubbornVenue twoStarted := .startNodes _ 2 (.opened _ 0 [])
  exact cluster_closed (fun _ => stubborn_killEnds) run .empty

example : twoStarted.started = [0, 1] := by decide +kernel

end BitcoinNodeTests
