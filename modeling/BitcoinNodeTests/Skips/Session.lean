import Mathlib.Algebra.Ring.Nat
import Mathlib.Data.List.Sort
import BitcoinNodeTests.Foundation.Action
import BitcoinNodeTests.Foundation.Dict

/-!
# The skips of a session

A test that asks a node for a capability it lacks is counted in the process it runs in.  A
worker stashes its tally as it finishes, the controller adds the stash of each worker that goes
down, and prints the total once all have: every skip of a worker that finished is in it, once.
-/

set_option autoImplicit false

namespace BitcoinNodeTests.Skips

open Foundation

/-- An `Enum`: the values of its members, and the member of a value. -/
structure Enumeration (κ : Type) where
  value : κ → String
  member : String → Option κ
  member_value : ∀ key, member (value key) = some key

theorem Enumeration.value_injective {κ : Type} (enumeration : Enumeration κ) :
    Function.Injective enumeration.value := by
  intro first second same
  have both := enumeration.member_value first
  rw [same, enumeration.member_value] at both
  exact (Option.some.inj both).symm

abbrev SkipCounts (κ : Type) [DecidableEq κ] : Type := Dict κ Nat

section Counts

variable {κ : Type} [DecidableEq κ] (capabilities : Enumeration κ)

namespace SkipCounts

def count (capability : κ) (counts : SkipCounts κ) : Nat := (counts.get capability).getD 0

def add (capability : κ) (count : Nat) (counts : SkipCounts κ) : SkipCounts κ :=
  counts.set capability (counts.count capability + count)

def record (capability : κ) (counts : SkipCounts κ) : SkipCounts κ := counts.add capability 1

def sorted (counts : SkipCounts κ) : List (κ × Nat) :=
  counts.entries.insertionSort fun first second =>
    capabilities.value first.1 ≤ capabilities.value second.1

def report (counts : SkipCounts κ) : String :=
  let lines := (counts.sorted capabilities).map fun (capability, count) =>
    s!"{capabilities.value capability}: {count}"
  if lines = [] then "skips per capability: no test asked for one this run"
  else "skips per capability:\n" ++ "\n".intercalate lines

def asMapping (counts : SkipCounts κ) : Dict String Nat :=
  (counts.sorted capabilities).foldl
    (fun mapping entry => mapping.set (capabilities.value entry.1) entry.2) .empty

/-- The body of `add_mapping`, the text of the `ValueError` of a value that is no member's -/
def addValue (counts : SkipCounts κ) (entry : String × Nat) : Except String (SkipCounts κ) :=
  match capabilities.member entry.1 with
  | none => .error s!"'{entry.1}' is not a valid Capability"
  | some capability => .ok (counts.add capability entry.2)

def addMapping (mapping : Dict String Nat) (counts : SkipCounts κ) :
    Except String (SkipCounts κ) :=
  mapping.entries.foldlM (addValue capabilities) counts

end SkipCounts

def require (capability : κ) (declared : List κ) : Action (SkipCounts κ) String Unit :=
  if capability ∉ declared then do
    Action.update (SkipCounts.record capability)
    Action.raise s!"node does not declare {capabilities.value capability}"
  else pure ()

/-- An xdist worker: what it counted, and what it stashed in its `workeroutput`. -/
structure Worker (κ : Type) [DecidableEq κ] where
  counts : SkipCounts κ
  stash : Option (Dict String Nat)
  isDown : Bool

structure Session (κ : Type) [DecidableEq κ] where
  controller : SkipCounts κ
  workers : List (Worker κ)
  printed : List String

def foldWorkerTally (stash : Option (Dict String Nat)) (counts : SkipCounts κ) :
    Except String (SkipCounts κ) :=
  match stash with
  | none => .ok counts
  | some mapping => counts.addMapping capabilities mapping

/-- What happens in a session: a worker starts, a test asks in a worker or in the controller,
a worker's session finishes, a worker goes down, and the controller's session finishes. -/
inductive SessionEvent (κ : Type) where
  | spawned
  | asked (worker : Option Nat) (capability : κ) (declared : List κ)
  | finished (worker : Nat)
  | down (worker : Nat)
  | reported
  deriving DecidableEq

namespace Session

def onWorker (number : Nat) (change : Worker κ → Worker κ) (session : Session κ) : Session κ :=
  { session with workers := session.workers.modify number change }

/-- The hooks: `pytest_sessionfinish` of a worker and of the controller, by `stash_or_report`,
and `pytest_testnodedown`. -/
def step (session : Session κ) : SessionEvent κ → Except String (Session κ)
  | .spawned => .ok { session with workers := session.workers ++ [⟨.empty, none, false⟩] }
  | .asked none capability declared =>
      .ok { session with
        controller := (require capabilities capability declared session.controller).2 }
  | .asked (some number) capability declared =>
      .ok (session.onWorker number fun worker =>
        { worker with counts := (require capabilities capability declared worker.counts).2 })
  | .finished number =>
      .ok (session.onWorker number fun worker =>
        { worker with stash := some (worker.counts.asMapping capabilities) })
  | .down number => do
      let stash := (session.workers[number]?).bind Worker.stash
      let controller ← foldWorkerTally capabilities stash session.controller
      .ok ({ session with controller := controller }.onWorker number fun worker =>
        { worker with isDown := true })
  | .reported =>
      .ok { session with printed := session.printed ++ [session.controller.report capabilities] }

/-- A worker that runs: it has neither finished nor gone down. -/
def Runs (number : Nat) (session : Session κ) : Prop :=
  ∃ worker, session.workers[number]? = some worker ∧ worker.stash = none ∧ worker.isDown = false

/-- What xdist lets happen: a test runs in a worker that runs, a worker goes down once, and
the controller's session finishes last. -/
def Allows (session : Session κ) : SessionEvent κ → Prop
  | .spawned => session.printed = []
  | .asked none _ _ => session.printed = []
  | .asked (some number) _ _ => session.printed = [] ∧ session.Runs number
  | .finished number => session.printed = [] ∧ session.Runs number
  | .down number => session.printed = [] ∧
      ∃ worker, session.workers[number]? = some worker ∧ worker.isDown = false
  | .reported => session.printed = [] ∧ ∀ worker ∈ session.workers, worker.isDown = true

end Session

inductive SessionRun : List (SessionEvent κ) → Session κ → Prop where
  | began : SessionRun [] ⟨.empty, [], []⟩
  | step {events : List (SessionEvent κ)} {session next : Session κ} {event : SessionEvent κ}
      (run : SessionRun events session) (allowed : session.Allows event)
      (steps : session.step capabilities event = .ok next) : SessionRun (events ++ [event]) next

end Counts

/-! ## Adding a stash -/

section Added

variable {κ : Type} [DecidableEq κ] {capabilities : Enumeration κ}

namespace SkipCounts

def total (capability : κ) (entries : List (κ × Nat)) : Nat :=
  ((entries.filter fun entry => entry.1 = capability).map Prod.snd).sum

theorem total_cons (capability other : κ) (count : Nat) (rest : List (κ × Nat)) :
    total capability ((other, count) :: rest) =
      (if capability = other then count else 0) + total capability rest := by
  rw [total, List.filter_cons]
  by_cases same : other = capability
  · rw [if_pos (by simp [same]), if_pos same.symm, List.map_cons, List.sum_cons]
    rfl
  · rw [if_neg (by simp [same]), if_neg (Ne.symm same), Nat.zero_add]
    rfl

theorem total_of_absent {capability : κ} {entries : List (κ × Nat)}
    (absent : capability ∉ entries.map Prod.fst) : total capability entries = 0 := by
  induction entries with
  | nil => rfl
  | cons first rest ih =>
      rw [List.map_cons, List.mem_cons, not_or] at absent
      rw [total_cons, if_neg absent.1, Nat.zero_add]
      exact ih absent.2

theorem total_entries (counts : SkipCounts κ) (capability : κ) :
    total capability counts.entries = counts.count capability := by
  obtain ⟨entries, distinct⟩ := counts
  show total capability entries = (Dict.valueIn capability entries).getD 0
  induction entries with
  | nil => rfl
  | cons first rest ih =>
      obtain ⟨other, count⟩ := first
      obtain ⟨new, later⟩ := List.nodup_cons.mp distinct
      rw [total_cons, Dict.valueIn]
      by_cases same : other = capability
      · subst same
        rw [if_pos rfl, if_pos rfl, total_of_absent new]
        rfl
      · rw [if_neg (Ne.symm same), if_neg same, Nat.zero_add]
        exact ih later

theorem total_sorted (counts : SkipCounts κ) (capability : κ) :
    total capability (counts.sorted capabilities) = counts.count capability := by
  rw [← total_entries]
  exact (((List.perm_insertionSort _ counts.entries).filter _).map _).sum_nat

@[simp] theorem count_add (capability other : κ) (count : Nat) (counts : SkipCounts κ) :
    (counts.add capability count).count other =
      counts.count other + if other = capability then count else 0 := by
  rw [SkipCounts.count, add, Dict.get_set]
  by_cases same : other = capability
  · rw [if_pos same, if_pos same, same]
    rfl
  · rw [if_neg same, if_neg same]
    rfl

def Positive (counts : SkipCounts κ) : Prop :=
  ∀ capability count, counts.get capability = some count → 0 < count

theorem Positive.add {counts : SkipCounts κ} (positive : counts.Positive) (capability : κ)
    {count : Nat} (one : 0 < count) : (counts.add capability count).Positive := by
  intro other held found
  rw [SkipCounts.add, Dict.get_set] at found
  by_cases same : other = capability
  · rw [if_pos same] at found
    cases found
    omega
  · rw [if_neg same] at found
    exact positive other held found

theorem Positive.empty : Positive (Dict.empty : SkipCounts κ) := fun _ _ found => by cases found

theorem mem_sorted {counts : SkipCounts κ} {capability : κ} {count : Nat} :
    (capability, count) ∈ counts.sorted capabilities ↔ counts.get capability = some count := by
  rw [sorted, List.mem_insertionSort]
  exact (Dict.valueIn_eq_some counts.distinct).symm

/-- The mapping has the tally's entries, by the values of their capabilities. -/
theorem asMapping_entries (counts : SkipCounts κ) :
    (counts.asMapping capabilities).entries =
      (counts.sorted capabilities).map fun entry => (capabilities.value entry.1, entry.2) := by
  have appended : ∀ (entries : List (κ × Nat)) (mapping : Dict String Nat),
      (entries.map Prod.fst).Nodup →
      (∀ entry ∈ entries, mapping.get (capabilities.value entry.1) = none) →
      (entries.foldl (fun mapping entry => mapping.set (capabilities.value entry.1) entry.2)
        mapping).entries =
        mapping.entries ++ entries.map fun entry => (capabilities.value entry.1, entry.2) := by
    intro entries
    induction entries with
    | nil => exact fun mapping _ _ => (List.append_nil _).symm
    | cons first rest ih =>
        intro mapping distinct new
        obtain ⟨capability, count⟩ := first
        obtain ⟨apart, later⟩ := List.nodup_cons.mp distinct
        have fresh : mapping.get (capabilities.value capability) = none :=
          new (capability, count) List.mem_cons_self
        rw [List.foldl_cons, ih _ later, Dict.entries_set_of_new fresh, List.append_assoc]
        · rfl
        · intro entry member
          have other : capabilities.value entry.1 ≠ capabilities.value capability := by
            intro same
            apply apart
            show capability ∈ rest.map Prod.fst
            rw [← capabilities.value_injective same]
            exact List.mem_map_of_mem member
          rw [Dict.get_set, if_neg other]
          exact new entry (List.mem_cons_of_mem _ member)
  have distinct : ((counts.sorted capabilities).map Prod.fst).Nodup :=
    ((List.perm_insertionSort _ counts.entries).map Prod.fst).nodup_iff.mpr counts.distinct
  rw [asMapping, appended _ _ distinct fun _ _ => rfl]
  rfl

/-- `add_mapping` of `as_mapping` raises nothing, and adds each count once. -/
theorem addMapping_asMapping (stashed counts : SkipCounts κ) (positive : counts.Positive)
    (stashedPositive : stashed.Positive) :
    ∃ added, counts.addMapping capabilities (stashed.asMapping capabilities) = .ok added ∧
      added.Positive ∧
      ∀ capability,
        added.count capability = counts.count capability + stashed.count capability := by
  have adds : ∀ (entries : List (κ × Nat)) (counts : SkipCounts κ), counts.Positive →
      (∀ entry ∈ entries, 0 < entry.2) →
      ∃ added, (entries.map fun entry => (capabilities.value entry.1, entry.2)).foldlM
          (addValue capabilities) counts = .ok added ∧
        added.Positive ∧
        ∀ capability,
          added.count capability = counts.count capability + total capability entries := by
    intro entries
    induction entries with
    | nil => exact fun counts positive _ => ⟨counts, rfl, positive, fun _ => rfl⟩
    | cons first rest ih =>
        intro counts positive ones
        obtain ⟨capability, count⟩ := first
        obtain ⟨added, run, addedPositive, totals⟩ := ih (counts.add capability count)
          (positive.add capability (ones _ List.mem_cons_self))
          fun entry member => ones entry (List.mem_cons_of_mem _ member)
        refine ⟨added, ?_, addedPositive, fun other => ?_⟩
        · have one : addValue capabilities counts (capabilities.value capability, count) =
              .ok (counts.add capability count) := by
            rw [addValue, capabilities.member_value]
          rw [List.map_cons, List.foldlM_cons, one]
          exact run
        · rw [totals, count_add, total_cons, Nat.add_assoc]
  obtain ⟨added, run, addedPositive, totals⟩ := adds (stashed.sorted capabilities) counts positive
    fun entry member => stashedPositive entry.1 entry.2 (mem_sorted.mp member)
  refine ⟨added, ?_, addedPositive, fun capability => ?_⟩
  · rw [addMapping, asMapping_entries]
    exact run
  · rw [totals, total_sorted]

end SkipCounts

end Added

/-! ## What a run counts -/

section Runs

variable {κ : Type} [DecidableEq κ] {capabilities : Enumeration κ}

/-- A test asked in vain for the capability, in a process that counts. -/
def isSkip (capability : κ) (counts : Option Nat → Bool) : SessionEvent κ → Bool
  | .asked worker other declared =>
      decide (other = capability) && decide (other ∉ declared) && counts worker
  | _ => false

def skips (capability : κ) (counts : Option Nat → Bool) (events : List (SessionEvent κ)) : Nat :=
  events.countP (isSkip capability counts)

theorem skips_append (capability : κ) (counts : Option Nat → Bool)
    (events : List (SessionEvent κ)) (event : SessionEvent κ) :
    skips capability counts (events ++ [event]) =
      skips capability counts events + if isSkip capability counts event then 1 else 0 := by
  rw [skips, List.countP_append, List.countP_singleton]
  rfl

theorem skips_of_either (capability : κ) {counts other both : Option Nat → Bool}
    (apart : ∀ process, counts process = true → other process = false)
    (either : ∀ process, both process = (counts process || other process))
    (events : List (SessionEvent κ)) :
    skips capability both events =
      skips capability counts events + skips capability other events := by
  induction events with
  | nil => rfl
  | cons event rest ih =>
      have split : (if isSkip capability both event then 1 else 0) =
          (if isSkip capability counts event then 1 else 0) +
            if isSkip capability other event then 1 else 0 := by
        cases event with
        | asked worker asked declared =>
            rw [isSkip, isSkip, isSkip, either]
            cases decide (asked = capability) && decide (asked ∉ declared) with
            | false => rfl
            | true =>
                cases first : counts worker with
                | false => simp
                | true => simp [apart worker first]
        | spawned => rfl
        | finished _ => rfl
        | down _ => rfl
        | reported => rfl
      rw [skips, skips, skips, List.countP_cons, List.countP_cons, List.countP_cons, split]
      rw [skips, skips, skips] at ih
      rw [ih]
      omega

theorem count_require (capability other : κ) (declared : List κ) (counts : SkipCounts κ) :
    (require capabilities capability declared counts).2.count other = counts.count other +
      if decide (capability = other) && decide (capability ∉ declared) then 1 else 0 := by
  rw [require]
  by_cases lacks : capability ∉ declared
  · rw [if_pos lacks]
    show (counts.record capability).count other = _
    rw [SkipCounts.record, SkipCounts.count_add]
    by_cases same : capability = other
    · rw [if_pos same.symm, decide_eq_true same, decide_eq_true lacks]
      rfl
    · rw [if_neg (Ne.symm same), decide_eq_false same]
      rfl
  · rw [if_neg lacks, decide_eq_false lacks, Bool.and_false]
    rfl

theorem positive_require {counts : SkipCounts κ} (positive : counts.Positive) (capability : κ)
    (declared : List κ) :
    SkipCounts.Positive (require capabilities capability declared counts).2 := by
  rw [require]
  by_cases lacks : capability ∉ declared
  · rw [if_pos lacks]
    exact positive.add capability Nat.one_pos
  · rw [if_neg lacks]
    exact positive

/-- A worker counts its own skips, and its stash is what it had counted when it finished. -/
structure Worker.Tallied (capabilities : Enumeration κ) (events : List (SessionEvent κ))
    (number : Nat) (worker : Worker κ) : Prop where
  counts : ∀ capability,
    worker.counts.count capability = skips capability (· == some number) events
  positive : worker.counts.Positive
  stashed : ∀ mapping, worker.stash = some mapping →
    mapping = worker.counts.asMapping capabilities
  finished : worker.stash.isSome = true ↔ .finished number ∈ events

/-- The processes whose skips the controller has: itself and the workers that finished and are
down. -/
def Session.settled (session : Session κ) : Option Nat → Bool
  | none => true
  | some number =>
      (session.workers[number]?).any fun worker => worker.isDown && worker.stash.isSome

structure Session.Tallied (capabilities : Enumeration κ) (events : List (SessionEvent κ))
    (session : Session κ) : Prop where
  workers : ∀ number (worker : Worker κ), session.workers[number]? = some worker →
    worker.Tallied capabilities events number
  fresh : ∀ number, session.workers.length ≤ number →
    (∀ capability, skips capability (· == some number) events = 0) ∧ .finished number ∉ events
  controller : ∀ capability,
    session.controller.count capability = skips capability session.settled events
  positive : session.controller.Positive
  printed : session.printed ≠ [] →
    session.printed = [session.controller.report capabilities] ∧
      ∀ worker ∈ session.workers, worker.isDown = true

theorem Worker.Tallied.later {events : List (SessionEvent κ)} {number : Nat} {worker : Worker κ}
    (tallied : worker.Tallied capabilities events number) {event : SessionEvent κ}
    (elsewhere : ∀ capability, isSkip capability (· == some number) event = false)
    (other : event ≠ .finished number) :
    worker.Tallied capabilities (events ++ [event]) number where
  counts capability := by
    rw [skips_append, elsewhere capability]
    exact tallied.counts capability
  positive := tallied.positive
  stashed := tallied.stashed
  finished := by
    rw [tallied.finished, List.mem_append, List.mem_singleton]
    exact ⟨.inl, fun either => either.resolve_right fun same => other same.symm⟩

section Steps

variable {events : List (SessionEvent κ)} {session : Session κ}

theorem Session.Tallied.fresh_later (tallied : session.Tallied capabilities events)
    (event : SessionEvent κ) {number : Nat} (fresh : session.workers.length ≤ number)
    (elsewhere : ∀ capability, isSkip capability (· == some number) event = false)
    (other : event ≠ .finished number) :
    (∀ capability, skips capability (· == some number) (events ++ [event]) = 0) ∧
      .finished number ∉ events ++ [event] := by
  obtain ⟨none, unfinished⟩ := tallied.fresh number fresh
  refine ⟨fun capability => by rw [skips_append, elsewhere capability, none]; rfl, ?_⟩
  rw [List.mem_append, List.mem_singleton]
  exact not_or.mpr ⟨unfinished, fun same => other same.symm⟩

theorem settled_onWorker (session : Session κ) {number : Nat} {change : Worker κ → Worker κ}
    (keeps : ∀ worker, session.workers[number]? = some worker →
      ((change worker).isDown && (change worker).stash.isSome) =
        (worker.isDown && worker.stash.isSome)) :
    (session.onWorker number change).settled = session.settled := by
  funext process
  cases process with
  | none => rfl
  | some other =>
      show ((session.workers.modify number change)[other]?).any _ = (session.workers[other]?).any _
      rw [List.getElem?_modify]
      cases held : session.workers[other]? with
      | none => rfl
      | some worker =>
          by_cases same : number = other
          · subst same
            rw [Option.map_eq_map, Option.map_some, if_pos rfl]
            exact keeps worker held
          · rw [Option.map_eq_map, Option.map_some, if_neg same]

theorem onWorker_get {number other : Nat} {change : Worker κ → Worker κ} {worker : Worker κ}
    (found : (session.onWorker number change).workers[other]? = some worker) :
    (other = number ∧ ∃ before, session.workers[number]? = some before ∧ worker = change before) ∨
      (other ≠ number ∧ session.workers[other]? = some worker) := by
  rw [Session.onWorker, List.getElem?_modify, Option.map_eq_map,
    Option.map_eq_some_iff] at found
  obtain ⟨before, held, changed⟩ := found
  by_cases same : number = other
  · subst same
    rw [if_pos rfl] at changed
    exact .inl ⟨rfl, before, held, changed.symm⟩
  · rw [if_neg same] at changed
    exact .inr ⟨Ne.symm same, changed ▸ held⟩

theorem spawned_tallied (tallied : session.Tallied capabilities events)
    (unprinted : session.printed = []) :
    ({ session with workers := session.workers ++ [⟨.empty, none, false⟩] } :
      Session κ).Tallied capabilities (events ++ [.spawned]) where
  workers number worker found := by
    rcases Nat.lt_or_ge number session.workers.length with old | new
    · rw [List.getElem?_append_left old] at found
      exact (tallied.workers number worker found).later (fun _ => rfl) (by simp)
    · rw [List.getElem?_append_right new, List.getElem?_singleton] at found
      obtain ⟨none, unfinished⟩ := tallied.fresh_later .spawned new (fun _ => rfl) (by simp)
      split at found
      · cases found
        exact ⟨fun capability => (none capability).symm, .empty, fun _ stashed => (nomatch stashed),
          ⟨fun yes => absurd yes Bool.false_ne_true, fun member => absurd member unfinished⟩⟩
      · cases found
  fresh number beyond := by
    rw [List.length_append] at beyond
    exact tallied.fresh_later .spawned (Nat.le_of_add_right_le beyond) (fun _ => rfl) (by simp)
  controller capability := by
    have same : ({ session with workers := session.workers ++ [⟨.empty, none, false⟩] } :
        Session κ).settled = session.settled := by
      funext process
      cases process with
      | none => rfl
      | some number =>
          show ((session.workers ++ [_])[number]?).any _ = (session.workers[number]?).any _
          rcases Nat.lt_or_ge number session.workers.length with old | new
          · rw [List.getElem?_append_left old]
          · rw [List.getElem?_append_right new, List.getElem?_eq_none new, List.getElem?_singleton]
            split
            · rfl
            · rfl
    rw [same, skips_append]
    exact tallied.controller capability
  positive := tallied.positive
  printed some := absurd unprinted some

theorem isSkip_asked (worker : Option Nat) (asked : κ) (declared : List κ) (capability : κ)
    (counts : Option Nat → Bool) :
    isSkip capability counts (.asked worker asked declared) =
      (decide (asked = capability) && decide (asked ∉ declared) && counts worker) := rfl

theorem asked_here_tallied (tallied : session.Tallied capabilities events)
    (unprinted : session.printed = []) (asked : κ) (declared : List κ) :
    ({ session with controller := (require capabilities asked declared session.controller).2 } :
      Session κ).Tallied capabilities (events ++ [.asked none asked declared]) where
  workers number worker found :=
    (tallied.workers number worker found).later
      (fun _ => by rw [isSkip_asked, Bool.and_eq_false_iff]; exact .inr rfl) (by simp)
  fresh number beyond := tallied.fresh_later _ beyond
    (fun _ => by rw [isSkip_asked, Bool.and_eq_false_iff]; exact .inr rfl) (by simp)
  controller capability := by
    rw [skips_append, isSkip_asked, count_require, tallied.controller]
    have counted : session.settled none = true := rfl
    rw [show Session.settled { session with
      controller := (require capabilities asked declared session.controller).2 } =
        session.settled from rfl, counted, Bool.and_true]
  positive := positive_require tallied.positive asked declared
  printed some := absurd unprinted some

/-- What a worker that runs does changes nothing of the controller's. -/
theorem onWorker_tallied (tallied : session.Tallied capabilities events)
    (unprinted : session.printed = []) {number : Nat} (running : session.Runs number)
    {change : Worker κ → Worker κ} {event : SessionEvent κ}
    (keeps : ∀ worker, (change worker).isDown = worker.isDown)
    (own : ∀ worker, session.workers[number]? = some worker → worker.stash = none →
      worker.Tallied capabilities events number →
      (change worker).Tallied capabilities (events ++ [event]) number)
    (elsewhere : ∀ capability other, other ≠ some number →
      isSkip capability (· == other) event = false)
    (uncounted : ∀ capability, isSkip capability session.settled event = false)
    (others : ∀ other, other ≠ number → event ≠ .finished other) :
    (session.onWorker number change).Tallied capabilities (events ++ [event]) := by
  obtain ⟨runner, seated, unstashed, up⟩ := running
  have settled : (session.onWorker number change).settled = session.settled := by
    apply settled_onWorker
    intro worker held
    rw [seated] at held
    cases held
    rw [keeps, up]
    rfl
  have length : (session.onWorker number change).workers.length = session.workers.length :=
    List.length_modify ..
  constructor
  · intro other worker found
    rcases onWorker_get found with ⟨rfl, before, held, rfl⟩ | ⟨apart, held⟩
    · rw [seated] at held
      cases held
      exact own runner seated unstashed (tallied.workers _ _ seated)
    · exact (tallied.workers other worker held).later
        (fun capability => elsewhere capability _ (by simpa using apart)) (others other apart)
  · intro other beyond
    rw [length] at beyond
    have apart : other ≠ number := by
      rintro rfl
      have within := (List.getElem?_eq_some_iff.mp seated).1
      omega
    exact tallied.fresh_later event beyond
      (fun capability => elsewhere capability _ (by simpa using apart)) (others other apart)
  · intro capability
    rw [settled, skips_append, uncounted capability]
    exact tallied.controller capability
  · exact tallied.positive
  · exact fun some => absurd unprinted some

theorem asked_there_tallied (tallied : session.Tallied capabilities events)
    (unprinted : session.printed = []) {number : Nat} (running : session.Runs number) (asked : κ)
    (declared : List κ) :
    (session.onWorker number fun worker =>
      { worker with counts := (require capabilities asked declared worker.counts).2 }).Tallied
        capabilities (events ++ [.asked (some number) asked declared]) := by
  apply onWorker_tallied tallied unprinted running
  · exact fun _ => rfl
  · intro worker _ unstashed own
    constructor
    · intro capability
      rw [skips_append, isSkip_asked, beq_self_eq_true, Bool.and_true, ← own.counts]
      exact count_require asked capability declared worker.counts
    · exact positive_require own.positive asked declared
    · intro mapping stashed
      rw [unstashed] at stashed
      cases stashed
    · rw [own.finished, List.mem_append]
      exact ⟨.inl, fun either => either.resolve_right (by simp)⟩
  · intro capability other apart
    rw [isSkip_asked, Bool.and_eq_false_iff]
    exact .inr (beq_eq_false_iff_ne.mpr (Ne.symm apart))
  · obtain ⟨runner, seated, -, up⟩ := running
    intro capability
    have unsettled : session.settled (some number) = false := by
      show (session.workers[number]?).any _ = false
      rw [seated, Option.any_some, up]
      rfl
    rw [isSkip_asked, unsettled, Bool.and_false]
  · exact fun _ _ => by simp

theorem finished_tallied (tallied : session.Tallied capabilities events)
    (unprinted : session.printed = []) {number : Nat} (running : session.Runs number) :
    (session.onWorker number fun worker =>
      { worker with stash := some (worker.counts.asMapping capabilities) }).Tallied
        capabilities (events ++ [.finished number]) := by
  apply onWorker_tallied tallied unprinted running
  · exact fun _ => rfl
  · intro worker _ _ own
    constructor
    · intro capability
      rw [skips_append]
      exact own.counts capability
    · exact own.positive
    · exact fun mapping stashed => (Option.some.inj stashed).symm
    · exact ⟨fun _ => List.mem_append_right _ List.mem_cons_self, fun _ => rfl⟩
  · exact fun _ _ _ => rfl
  · exact fun _ => rfl
  · intro other apart same
    cases same
    exact apart rfl

/-- The stash of a worker that goes down is counted with what the controller has. -/
theorem fold_counts (tallied : session.Tallied capabilities events) {number : Nat}
    {worker : Worker κ} (seated : session.workers[number]? = some worker) :
    ∃ controller, foldWorkerTally capabilities worker.stash session.controller = .ok controller ∧
      controller.Positive ∧ ∀ capability, controller.count capability =
        skips capability session.settled events +
          if worker.stash.isSome then skips capability (· == some number) events else 0 := by
  have own := tallied.workers number worker seated
  cases stash : worker.stash with
  | none =>
      refine ⟨session.controller, rfl, tallied.positive, fun capability => ?_⟩
      rw [tallied.controller]
      rfl
  | some mapping =>
      have stashed := own.stashed mapping stash
      subst stashed
      obtain ⟨added, run, positive, counts⟩ :=
        worker.counts.addMapping_asMapping session.controller tallied.positive own.positive
      refine ⟨added, run, positive, fun capability => ?_⟩
      rw [counts, tallied.controller, own.counts]
      rfl

theorem settled_down {number : Nat} {worker : Worker κ}
    (seated : session.workers[number]? = some worker) (up : worker.isDown = false)
    (controller : SkipCounts κ) (process : Option Nat) :
    (({ session with controller := controller } : Session κ).onWorker number fun worker =>
      { worker with isDown := true }).settled process =
        (session.settled process || (worker.stash.isSome && process == some number)) := by
  cases process with
  | none =>
      show true = (true || _)
      rw [Bool.true_or]
  | some other =>
      show ((session.workers.modify number _)[other]?).any _ =
        ((session.workers[other]?).any _ || _)
      rw [List.getElem?_modify, Option.map_eq_map]
      by_cases same : number = other
      · subst same
        rw [seated, Option.map_some, if_pos rfl, Option.any_some, Option.any_some, up,
          beq_self_eq_true, Bool.and_true]
        rfl
      · have apart : (some other == some number) = false :=
          beq_eq_false_iff_ne.mpr fun eq => same (Option.some.inj eq).symm
        rw [apart, Bool.and_false, Bool.or_false]
        cases session.workers[other]? with
        | none => rfl
        | some held => rw [Option.map_some, if_neg same]

theorem down_tallied (tallied : session.Tallied capabilities events)
    (unprinted : session.printed = []) {number : Nat} {worker : Worker κ}
    (seated : session.workers[number]? = some worker) (up : worker.isDown = false) :
    ∃ controller, foldWorkerTally capabilities worker.stash session.controller = .ok controller ∧
      (({ session with controller := controller } : Session κ).onWorker number fun worker =>
        { worker with isDown := true }).Tallied capabilities (events ++ [.down number]) := by
  obtain ⟨controller, fold, positive, counts⟩ := fold_counts tallied seated
  refine ⟨controller, fold, ?_, ?_, ?_, positive, fun some => absurd unprinted some⟩
  · intro other held found
    rcases onWorker_get found with ⟨rfl, before, seated', rfl⟩ | ⟨-, held'⟩
    · have own : before.Tallied capabilities (events ++ [.down other]) other :=
        (tallied.workers other before seated').later (fun _ => rfl) (by simp)
      exact ⟨own.counts, own.positive, own.stashed, own.finished⟩
    · exact (tallied.workers other held held').later (fun _ => rfl) (by simp)
  · intro other beyond
    have length : session.workers.length ≤ other := (List.length_modify .. ▸ beyond :)
    exact tallied.fresh_later _ length (fun _ => rfl) (by simp)
  · intro capability
    rw [skips_append]
    show controller.count capability = _
    rw [counts]
    have unsettled : session.settled (some number) = false := by
      show (session.workers[number]?).any _ = false
      rw [seated, Option.any_some, up]
      rfl
    cases stashed : worker.stash.isSome with
    | true =>
        symm
        apply skips_of_either
        · intro process counted
          refine beq_eq_false_iff_ne.mpr fun same => ?_
          rw [same, unsettled] at counted
          cases counted
        · intro process
          rw [settled_down seated up, stashed, Bool.true_and]
    | false =>
        have same : (({ session with controller := controller } : Session κ).onWorker number
            fun worker => { worker with isDown := true }).settled = session.settled := by
          funext process
          rw [settled_down seated up, stashed, Bool.false_and, Bool.or_false]
        rw [same]
        rfl

theorem reported_tallied (tallied : session.Tallied capabilities events)
    (unprinted : session.printed = [])
    (allDown : ∀ worker ∈ session.workers, worker.isDown = true) :
    ({ session with printed := session.printed ++ [session.controller.report capabilities] } :
      Session κ).Tallied capabilities (events ++ [.reported]) where
  workers number worker found :=
    (tallied.workers number worker found).later (fun _ => rfl) (by simp)
  fresh number beyond := tallied.fresh_later _ beyond (fun _ => rfl) (by simp)
  controller capability := by
    rw [skips_append]
    exact tallied.controller capability
  positive := tallied.positive
  printed _ := ⟨by rw [unprinted]; rfl, allDown⟩

/-- No hook raises, and each keeps the tallies true. -/
theorem step_tallied (tallied : session.Tallied capabilities events) {event : SessionEvent κ}
    (allowed : session.Allows event) :
    ∃ next, session.step capabilities event = .ok next ∧
      next.Tallied capabilities (events ++ [event]) := by
  cases event with
  | spawned => exact ⟨_, rfl, spawned_tallied tallied allowed⟩
  | asked worker asked declared =>
      cases worker with
      | none => exact ⟨_, rfl, asked_here_tallied tallied allowed asked declared⟩
      | some number =>
          exact ⟨_, rfl, asked_there_tallied tallied allowed.1 allowed.2 asked declared⟩
  | finished number => exact ⟨_, rfl, finished_tallied tallied allowed.1 allowed.2⟩
  | down number =>
      obtain ⟨unprinted, worker, seated, up⟩ := allowed
      obtain ⟨controller, fold, next⟩ := down_tallied tallied unprinted seated up
      refine ⟨_, ?_, next⟩
      rw [Session.step, seated]
      show (foldWorkerTally capabilities worker.stash session.controller >>= _) = _
      rw [fold]
      rfl
  | reported => exact ⟨_, rfl, reported_tallied tallied allowed.1 allowed.2⟩

end Steps

theorem SessionRun.tallied {events : List (SessionEvent κ)} {session : Session κ}
    (run : SessionRun capabilities events session) : session.Tallied capabilities events := by
  induction run with
  | began =>
      constructor
      · exact fun _ _ found => by cases found
      · exact fun _ _ => ⟨fun _ => rfl, List.not_mem_nil⟩
      · exact fun _ => rfl
      · exact .empty
      · exact fun some => absurd rfl some
  | step run allowed steps ih =>
      obtain ⟨next, ran, tallied⟩ := step_tallied ih allowed
      rw [steps] at ran
      cases ran
      exact tallied

/-- A test asked in a process that reports what it counted: the controller, or a worker that
finished. -/
def reports (events : List (SessionEvent κ)) : Option Nat → Bool
  | none => true
  | some number => decide (.finished number ∈ events)

end Runs

inductive Wanted where
  | mine
  | connect
  deriving DecidableEq

def wanted : Enumeration Wanted where
  value
    | .mine => "mine"
    | .connect => "connect"
  member value := if value = "mine" then some .mine else if value = "connect" then some .connect
    else none
  member_value key := by cases key <;> simp

/-- Two workers skip a test each, and the second crashes before it finishes. -/
def oneCrash : List (SessionEvent Wanted) :=
  [.spawned, .spawned, .asked (some 0) .mine [.connect], .asked (some 1) .mine [], .finished 0,
    .down 1, .down 0, .reported]

end BitcoinNodeTests.Skips
