import BitcoinNodeTests.Node.Teardown

/-!
# What the error of `stop_all` reports

Every adapter is stopped once, the last started first, whatever their stops raise.  The
error of an adapter that was killed is raised from none, so it hides what was raised
before it: all the errors are reported exactly where none but the first raised is one.
-/

set_option autoImplicit false

namespace BitcoinNodeTests.Teardown

open Foundation Handling

section Reported

variable {σ ω : Type}

/-- What the stops of the adapters raise when they are called one after another. -/
def stopErrors : List (Started σ ω) → σ → List NodeRaised
  | [], _ => []
  | adapter :: others, state =>
      match BitcoinNodeTests.stop adapter.host (adapter.machine state) with
      | (.ok _, machine) => stopErrors others (adapter.keep machine state)
      | (.error error, machine) => error :: stopErrors others (adapter.keep machine state)

/-- `stop_all`, called while `handled` is, stops every adapter once, the last started first,
raises where a stop does, and raises an error that reports all those raised, the last first. -/
structure StopsAll (adapters : List (Started σ ω)) (handled : Traceback NodeRaised) (state : σ) :
    Prop where
  once : (stopAll adapters handled (state, [])).2.2 = adapters.reverse
  raises : (∃ traceback, (stopAll adapters handled (state, [])).1 = .error traceback) ↔
    stopErrors adapters.reverse state ≠ []
  reports : ∀ traceback, (stopAll adapters handled (state, [])).1 = .error traceback →
    (stopErrors adapters.reverse state).reverse.Sublist traceback.reported

/-! ## Errors reported one after another -/

theorem foldl_reportedAfter {errors : List NodeRaised}
    (unhidden : ∀ error ∈ errors, wasKilled error = false) (before : List NodeRaised) :
    errors.foldl reportedAfter before = errors.reverse ++ before := by
  induction errors generalizing before with
  | nil => rfl
  | cons error rest ih =>
      obtain ⟨first, others⟩ := List.forall_mem_cons.mp unhidden
      rw [List.foldl_cons, ih others, reportedAfter, if_neg (by simp [first])]
      simp

theorem length_foldl_reportedAfter (errors before : List NodeRaised) :
    (errors.foldl reportedAfter before).length ≤ errors.length + before.length := by
  induction errors generalizing before with
  | nil => simp
  | cons error rest ih =>
      have later := ih (reportedAfter before error)
      have one : (reportedAfter before error).length ≤ before.length + 1 := by
        unfold reportedAfter
        split
        · simp
        · simp
      rw [List.foldl_cons, List.length_cons]
      omega

theorem length_of_wasKilled {errors : List NodeRaised} {error : NodeRaised}
    (member : error ∈ errors) (killed : wasKilled error = true) (before : List NodeRaised) :
    (errors.foldl reportedAfter before).length ≤ errors.length := by
  induction errors generalizing before with
  | nil => cases member
  | cons first rest ih =>
      rw [List.foldl_cons, List.length_cons]
      rcases List.mem_cons.mp member with rfl | later
      · have only : reportedAfter before error = [error] := if_pos killed
        rw [only]
        exact length_foldl_reportedAfter rest [error]
      · exact Nat.le_succ_of_le (ih later _)

/-- All the errors are reported exactly where no killed process but the first hides one. -/
theorem reverse_sublist_iff (errors before : List NodeRaised) :
    errors.reverse.Sublist (errors.foldl reportedAfter before) ↔
      ∀ error ∈ errors.tail, wasKilled error = false := by
  cases errors with
  | nil => simp
  | cons first rest =>
      rw [List.foldl_cons, List.reverse_cons, List.tail_cons]
      constructor
      · intro reported error member
        by_contra killed
        have few := length_of_wasKilled member (Bool.not_eq_false _ ▸ killed)
          (reportedAfter before first)
        have all := reported.length_le
        simp only [List.length_append, List.length_reverse, List.length_singleton] at all
        omega
      · intro unhidden
        rw [foldl_reportedAfter unhidden]
        refine List.Sublist.append (List.Sublist.refl _) (List.singleton_sublist.mpr ?_)
        unfold reportedAfter
        split
        · simp
        · simp

/-! ## The run of `stop_all` -/

theorem Started.stop_of_ok {adapter : Started σ ω} {state : σ} {machine : Machine ω}
    (run : BitcoinNodeTests.stop adapter.host (adapter.machine state) = (.ok (), machine))
    (handled : Traceback NodeRaised) (calls : List (Started σ ω)) :
    adapter.stop handled (state, calls) =
      (.ok (), adapter.keep machine state, calls ++ [adapter]) := by
  have stopped := (stop_records handled (adapter.machine state)).1 () machine run
  rw [Started.stop, within, stopped]

theorem Started.stop_of_error {adapter : Started σ ω} {state : σ} {machine : Machine ω}
    {error : NodeRaised}
    (run : BitcoinNodeTests.stop adapter.host (adapter.machine state) = (.error error, machine))
    (handled : Traceback NodeRaised) (calls : List (Started σ ω)) :
    ∃ traceback, adapter.stop handled (state, calls) =
        (.error traceback, adapter.keep machine state, calls ++ [adapter]) ∧
      StopRecords handled error traceback := by
  obtain ⟨traceback, stopped, recorded⟩ :=
    (stop_records handled (adapter.machine state)).2 error machine run
  refine ⟨traceback, ?_, recorded⟩
  rw [Started.stop, within, stopped]

theorem stopErrors_of_error {last : Started σ ω} {earlier : List (Started σ ω)} {state : σ}
    {machine : Machine ω} {error : NodeRaised}
    (run : BitcoinNodeTests.stop last.host (last.machine state) = (.error error, machine)) :
    stopErrors (last :: earlier) state =
      error :: stopErrors earlier (last.keep machine state) := by
  rw [stopErrors, run]

theorem stopErrors_of_ok {last : Started σ ω} {earlier : List (Started σ ω)} {state : σ}
    {machine : Machine ω}
    (run : BitcoinNodeTests.stop last.host (last.machine state) = (.ok (), machine)) :
    stopErrors (last :: earlier) state = stopErrors earlier (last.keep machine state) := by
  rw [stopErrors, run]

/-- How `stop_all` ends where its stops raise `errors`. -/
def Ends (errors before : List NodeRaised) : Except (Traceback NodeRaised) Unit → Prop
  | .ok _ => errors = []
  | .error traceback => errors ≠ [] ∧ traceback.reported = errors.foldl reportedAfter before

theorem stopEach_run (adapters : List (Started σ ω)) (handled : Traceback NodeRaised) (state : σ)
    (calls : List (Started σ ω))
    (ofStops : ∀ error ∈ stopErrors adapters state, wasKilled error ∨ exitedBadly error) :
    ∃ result reached,
      stopEach adapters handled (state, calls) = (result, reached, calls ++ adapters) ∧
        Ends (stopErrors adapters state) handled.reported result := by
  induction adapters generalizing handled state calls with
  | nil => exact ⟨.ok (), state, by rw [List.append_nil]; rfl, rfl⟩
  | cons last earlier ih =>
      rw [stopEach]
      rcases run : BitcoinNodeTests.stop last.host (last.machine state) with
        ⟨error | ⟨⟩, machine⟩
      · rw [stopErrors_of_error run] at ofStops ⊢
        obtain ⟨ofStop, others⟩ := List.forall_mem_cons.mp ofStops
        obtain ⟨traceback, stopped, recorded⟩ := last.stop_of_error run handled calls
        obtain ⟨result, reached, rest, ends⟩ :=
          ih traceback (last.keep machine state) (calls ++ [last]) others
        rw [List.append_assoc] at rest
        rw [ensuring_of_error _ stopped]
        rw [recorded ofStop] at ends
        cases result with
        | ok value =>
            refine ⟨.error traceback, reached, bind_of_ok _ rest, by simp, ?_⟩
            have none : stopErrors earlier (last.keep machine state) = [] := ends
            rw [none, recorded ofStop]
            rfl
        | error later =>
            exact ⟨.error later, reached, bind_of_error _ rest, by simp, ends.2⟩
      · rw [stopErrors_of_ok run] at ofStops ⊢
        have stopped := last.stop_of_ok run handled calls
        obtain ⟨result, reached, rest, ends⟩ :=
          ih handled (last.keep machine state) (calls ++ [last]) ofStops
        rw [List.append_assoc] at rest
        rw [ensuring_of_ok _ stopped]
        cases result with
        | ok value => exact ⟨.ok (), reached, bind_of_ok _ rest, ends⟩
        | error later => exact ⟨.error later, reached, bind_of_error _ rest, ends⟩

theorem StopsAll.unhidden {adapters : List (Started σ ω)} {handled : Traceback NodeRaised}
    {state : σ} (stops : StopsAll adapters handled state)
    (ofStops : ∀ error ∈ stopErrors adapters.reverse state, wasKilled error ∨ exitedBadly error) :
    ∀ error ∈ (stopErrors adapters.reverse state).tail, wasKilled error = false := by
  obtain ⟨result, reached, run, ends⟩ := stopEach_run adapters.reverse handled state [] ofStops
  cases result with
  | ok value =>
      have none : stopErrors adapters.reverse state = [] := ends
      simp [none]
  | error traceback =>
      have reported := stops.reports traceback (congrArg Prod.fst run)
      rw [ends.2] at reported
      exact (reverse_sublist_iff _ _).mp reported

theorem stopsAll_of_unhidden {adapters : List (Started σ ω)} {state : σ}
    (ofStops : ∀ error ∈ stopErrors adapters.reverse state, wasKilled error ∨ exitedBadly error)
    (unhidden : ∀ error ∈ (stopErrors adapters.reverse state).tail, wasKilled error = false)
    (handled : Traceback NodeRaised) : StopsAll adapters handled state := by
  obtain ⟨result, reached, run, ends⟩ := stopEach_run adapters.reverse handled state [] ofStops
  constructor
  · exact congrArg (fun final => final.2.2) run
  · rw [stopAll, run]
    cases result with
    | ok value =>
        have none : stopErrors adapters.reverse state = [] := ends
        simp [none]
    | error traceback => simpa using ends.1
  · intro traceback raised
    rw [stopAll, run] at raised
    cases raised
    rw [ends.2]
    exact (reverse_sublist_iff _ _).mpr unhidden

/-- Of the ways a stop raises, the error of `stop_all` reports every one exactly where none
of the adapters stopped after the first that raised was killed. -/
theorem stopAll_reports_iff (adapters : List (Started σ ω)) (handled : Traceback NodeRaised)
    (state : σ)
    (ofStops : ∀ error ∈ stopErrors adapters.reverse state, wasKilled error ∨ exitedBadly error) :
    StopsAll adapters handled state ↔
      ∀ error ∈ (stopErrors adapters.reverse state).tail, wasKilled error = false :=
  ⟨fun stops => stops.unhidden ofStops,
    fun unhidden => stopsAll_of_unhidden ofStops unhidden handled⟩

end Reported

/-! ## Two nodes of which one is killed -/

def crashed : Machine (List Nat) := ⟨some ⟨0, "stderr"⟩, [⟨["node"], some 1⟩], 0, []⟩

def deaf : Machine (List Nat) := ⟨some ⟨0, "stderr"⟩, [⟨["node"], none⟩], 0, []⟩

def firstStarted : Started (Machine (List Nat) × Machine (List Nat)) (List Nat) where
  host := stubborn
  machine := Prod.fst
  keep machine state := (machine, state.2)

def lastStarted : Started (Machine (List Nat) × Machine (List Nat)) (List Nat) where
  host := stubborn
  machine := Prod.snd
  keep machine state := (state.1, machine)

theorem stopAll_reports_iff_crashed :
    StopsAll [firstStarted, lastStarted] .empty (crashed, deaf) :=
  (stopAll_reports_iff _ _ _ (by decide)).mpr (by decide)

/-- The crash of the node stopped first is hidden by the kill of the other. -/
theorem crash_hidden_by_kill :
    (∀ error ∈ stopErrors [lastStarted, firstStarted] (deaf, crashed),
      wasKilled error ∨ exitedBadly error) ∧
    ¬ StopsAll [firstStarted, lastStarted] .empty (deaf, crashed) := by
  have ofStops : ∀ error ∈ stopErrors [lastStarted, firstStarted] (deaf, crashed),
      wasKilled error ∨ exitedBadly error := by decide
  refine ⟨ofStops, fun stops => ?_⟩
  exact absurd (stops.unhidden ofStops) (by decide)

end BitcoinNodeTests.Teardown
