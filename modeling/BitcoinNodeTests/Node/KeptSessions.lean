import Mathlib.Data.List.Nodup
import BitcoinNodeTests.Node.Sessions

/-!
# What the threads keep of their transports

Each thread is at a stage of its transport's life, which says where the transport is kept
and who is to close it.  A step moves one thread to its next stage and leaves the others
where they are, since a transport is one thread's alone.
-/

set_option autoImplicit false

namespace BitcoinNodeTests.ThreadSessions

open Foundation

def Shut (log : List SessionEvent) (session : Nat) : Prop :=
  ∃ before after, log = before ++ .closed session :: after ∧
    ∀ thread, .called thread session ∉ after

def BuiltIn (state : ThreadSessions) (session thread : Nat) : Prop :=
  state.built[session]? = some thread

inductive Stage (state : ThreadSessions) (thread : Nat) : Prop where
  | fresh (place : state.threads thread = .outside ∨ state.threads thread = .ended)
      (own : state.own thread = none) (unbuilt : ∀ session, ¬ state.BuiltIn session thread)
  | building (session : Nat) (place : state.threads thread = .registering session)
      (own : state.own thread = some session) (built : state.BuiltIn session thread)
      (absent : session ∉ state.sessions)
  | calling (session : Nat) (place : state.threads thread = .calling session)
      (own : state.own thread = some session) (built : state.BuiltIn session thread)
      (present : session ∈ state.sessions)
  | resting (session : Nat) (place : state.threads thread = .outside)
      (own : state.own thread = some session) (built : state.BuiltIn session thread)
      (present : session ∈ state.sessions) (called : .called thread session ∈ state.log)
  | retiring (session : Nat) (place : state.threads thread = .retiring session)
      (own : state.own thread = none) (built : state.BuiltIn session thread)
      (present : session ∈ state.sessions)
  | closing (session : Nat) (place : state.threads thread = .closing session)
      (own : state.own thread = none) (built : state.BuiltIn session thread)
      (absent : session ∉ state.sessions)
  | gone (session : Nat) (place : state.threads thread = .ended)
      (own : state.own thread = none) (built : state.BuiltIn session thread)
      (absent : session ∉ state.sessions) (shut : Shut state.log session)

structure Kept (state : ThreadSessions) : Prop where
  threads : state.built.Nodup
  sessions : state.sessions.Nodup
  known : ∀ session ∈ state.sessions, session < state.built.length
  called : ∀ thread session, .called thread session ∈ state.log →
    state.BuiltIn session thread
  stage : ∀ thread, state.Stage thread

theorem kept_constructed : Kept constructed where
  threads := List.nodup_nil
  sessions := List.nodup_nil
  known := nofun
  called := nofun
  stage := fun _ => .fresh (.inl rfl) rfl nofun

section Frame

variable {state reached : ThreadSessions} {thread other session : Nat}

theorem Shut.append {log : List SessionEvent} (shut : Shut log session) {event : SessionEvent}
    (quiet : ∀ thread, event ≠ .called thread session) : Shut (log ++ [event]) session := by
  obtain ⟨before, after, rfl, silent⟩ := shut
  refine ⟨before, after ++ [event], by simp, fun thread member => ?_⟩
  rcases List.mem_append.mp member with inAfter | last
  · exact silent thread inAfter
  · exact quiet thread (List.mem_singleton.mp last).symm

theorem Stage.frame (stage : Stage state thread)
    (place : reached.threads thread = state.threads thread)
    (own : reached.own thread = state.own thread)
    (built : ∀ session, reached.BuiltIn session thread ↔
      state.BuiltIn session thread)
    (sessions : ∀ session, state.BuiltIn session thread →
      (session ∈ reached.sessions ↔ session ∈ state.sessions))
    (called : ∀ session, .called thread session ∈ state.log → .called thread session ∈ reached.log)
    (shut : ∀ session, state.BuiltIn session thread → Shut state.log session →
      Shut reached.log session) : Stage reached thread := by
  cases stage with
  | fresh here owned unbuilt =>
      exact .fresh (place ▸ here) (own ▸ owned) fun session same => unbuilt session ((built _).mp same)
  | building session here owned isBuilt absent =>
      exact .building session (place ▸ here) (own ▸ owned) ((built _).mpr isBuilt)
        (fun member => absent ((sessions _ isBuilt).mp member))
  | calling session here owned isBuilt present =>
      exact .calling session (place ▸ here) (own ▸ owned) ((built _).mpr isBuilt)
        ((sessions _ isBuilt).mpr present)
  | resting session here owned isBuilt present wasCalled =>
      exact .resting session (place ▸ here) (own ▸ owned) ((built _).mpr isBuilt)
        ((sessions _ isBuilt).mpr present) (called _ wasCalled)
  | retiring session here owned isBuilt present =>
      exact .retiring session (place ▸ here) (own ▸ owned) ((built _).mpr isBuilt)
        ((sessions _ isBuilt).mpr present)
  | closing session here owned isBuilt absent =>
      exact .closing session (place ▸ here) (own ▸ owned) ((built _).mpr isBuilt)
        (fun member => absent ((sessions _ isBuilt).mp member))
  | gone session here owned isBuilt absent isShut =>
      exact .gone session (place ▸ here) (own ▸ owned) ((built _).mpr isBuilt)
        (fun member => absent ((sessions _ isBuilt).mp member)) (shut _ isBuilt isShut)

/-! A thread's place tells its stage. -/

theorem Stage.of_registering (stage : Stage state thread)
    (place : state.threads thread = .registering session) :
    state.own thread = some session ∧ state.BuiltIn session thread ∧ session ∉ state.sessions := by
  cases stage <;> simp_all

theorem Stage.of_calling (stage : Stage state thread)
    (place : state.threads thread = .calling session) :
    state.own thread = some session ∧ state.BuiltIn session thread ∧ session ∈ state.sessions := by
  cases stage <;> simp_all

theorem Stage.of_retiring (stage : Stage state thread)
    (place : state.threads thread = .retiring session) :
    state.own thread = none ∧ state.BuiltIn session thread ∧ session ∈ state.sessions := by
  cases stage <;> simp_all

theorem Stage.of_closing (stage : Stage state thread)
    (place : state.threads thread = .closing session) :
    state.own thread = none ∧ state.BuiltIn session thread ∧ session ∉ state.sessions := by
  cases stage <;> simp_all

theorem Stage.of_outside (stage : Stage state thread) (place : state.threads thread = .outside) :
    (state.own thread = none ∧ ∀ session, ¬ state.BuiltIn session thread) ∨
      ∃ session, state.own thread = some session ∧ state.BuiltIn session thread ∧
        session ∈ state.sessions ∧ .called thread session ∈ state.log := by
  cases stage <;> simp_all

theorem built_unique (mine : state.BuiltIn session thread)
    (theirs : state.BuiltIn session other) : thread = other :=
  Option.some.inj (mine.symm.trans theirs)

end Frame

/-! ## Steps -/

section Steps

variable {state reached : ThreadSessions} {thread session : Nat}

/-- What one thread does with its own transport leaves every other thread where it is. -/
theorem Kept.advance (kept : Kept state) (built : reached.built = state.built)
    (places : ∀ other, other ≠ thread →
      reached.threads other = state.threads other ∧ reached.own other = state.own other)
    (distinct : reached.sessions.Nodup)
    (sessions : ∀ kept, ¬ state.BuiltIn kept thread →
      (kept ∈ reached.sessions ↔ kept ∈ state.sessions))
    (mine : state.BuiltIn session thread)
    (log : reached.log = state.log ∨ reached.log = state.log ++ [.called thread session] ∨
      reached.log = state.log ++ [.closed session])
    (stage : Stage reached thread) : Kept reached := by
  have same (other session : Nat) : reached.BuiltIn session other ↔ state.BuiltIn session other := by
    unfold BuiltIn
    rw [built]
  have longer : ∀ event ∈ state.log, event ∈ reached.log := by
    intro event member
    rcases log with unchanged | called | closed
    · rw [unchanged]
      exact member
    · rw [called]
      exact List.mem_append_left _ member
    · rw [closed]
      exact List.mem_append_left _ member
  refine ⟨built ▸ kept.threads, distinct, ?_, ?_, ?_⟩
  · intro kept' member
    rw [built]
    by_cases isMine : state.BuiltIn kept' thread
    · exact (List.getElem?_eq_some_iff.mp isMine).1
    · exact kept.known kept' ((sessions kept' isMine).mp member)
  · intro caller used member
    refine (same caller used).mpr ?_
    rcases log with unchanged | called | closed
    · rw [unchanged] at member
      exact kept.called caller used member
    · rw [called] at member
      rcases List.mem_append.mp member with earlier | last
      · exact kept.called caller used earlier
      · cases List.mem_singleton.mp last
        exact mine
    · rw [closed] at member
      rcases List.mem_append.mp member with earlier | last
      · exact kept.called caller used earlier
      · cases List.mem_singleton.mp last
  · intro other
    by_cases isThread : other = thread
    · exact isThread ▸ stage
    · obtain ⟨place, own⟩ := places other isThread
      have notMine (session : Nat) (theirs : state.BuiltIn session other) :
          ¬ state.BuiltIn session thread := fun mine => isThread (built_unique theirs mine)
      refine (kept.stage other).frame place own (same other)
        (fun session theirs => sessions session (notMine session theirs))
        (fun session => longer _) (fun kept' theirs isShut => ?_)
      rcases log with unchanged | called | closed
      · exact unchanged ▸ isShut
      · rw [called]
        refine isShut.append fun caller equal => ?_
        cases equal
        exact notMine _ theirs mine
      · exact closed ▸ isShut.append nofun

/-- A `close` of a copy's transport, whoever's it is, moves no thread. -/
theorem Kept.record_closed (kept : Kept state) (session : Nat) :
    Kept (state.record (.closed session)) := by
  refine ⟨kept.threads, kept.sessions, kept.known, ?_, ?_⟩
  · intro thread used member
    rcases List.mem_append.mp member with earlier | last
    · exact kept.called thread used earlier
    · cases List.mem_singleton.mp last
  · intro thread
    exact (kept.stage thread).frame rfl rfl (fun _ => Iff.rfl) (fun _ _ => Iff.rfl)
      (fun _ => List.mem_append_left _) (fun _ _ isShut => isShut.append nofun)

theorem Kept.setCloser (kept : Kept state) (caller : Nat) (place : CloseAll) :
    Kept (state.setCloser caller place) := by
  refine ⟨kept.threads, kept.sessions, kept.known, kept.called, fun thread => ?_⟩
  exact (kept.stage thread).frame rfl rfl (fun _ => Iff.rfl) (fun _ _ => Iff.rfl) (fun _ => id)
    (fun _ _ => id)

theorem Kept.close (kept : Kept state) {caller : Nat}
    (moved : state.close caller = some reached) : Kept reached := by
  unfold ThreadSessions.close at moved
  split at moved
  · cases moved
    exact kept.setCloser caller _
  · cases moved
    exact (kept.record_closed _).setCloser caller _
  · cases moved
    exact kept.setCloser caller _
  · cases moved

theorem setPlace_other (place : Place) {other : Nat} (apart : other ≠ thread) :
    (state.setPlace thread place).threads other = state.threads other :=
  Function.update_of_ne apart _ _

theorem setPlace_self (place : Place) : (state.setPlace thread place).threads thread = place :=
  Function.update_self _ _ _

theorem nodup_snoc {kept : List Nat} {last : Nat} (distinct : kept.Nodup) (new : last ∉ kept) :
    (kept ++ [last]).Nodup := by
  rw [List.nodup_append]
  refine ⟨distinct, List.pairwise_singleton _ _, fun first member other isLast same => ?_⟩
  rw [List.mem_singleton.mp isLast] at same
  exact new (same ▸ member)

theorem built_snoc {other : Nat} (apart : other ≠ thread) (session : Nat) :
    (state.built ++ [thread])[session]? = some other ↔ state.BuiltIn session other := by
  unfold BuiltIn
  by_cases older : session < state.built.length
  · rw [List.getElem?_append_left older]
  · have beyond : state.built[session]? = none := List.getElem?_eq_none (by omega)
    rw [List.getElem?_append_right (by omega), beyond]
    simp only [reduceCtorEq, iff_false]
    intro isThread
    have member := List.mem_of_getElem? isThread
    exact apart (List.mem_singleton.mp member)

/-- A thread that has no transport builds one, which nobody else has. -/
theorem Kept.call_builds (kept : Kept state) (unbuilt : ∀ session, ¬ state.BuiltIn session thread) :
    Kept (({ state with built := state.built ++ [thread] }.setOwn thread
      (some state.built.length)).setPlace thread (.registering state.built.length)) := by
  have fresh : thread ∉ state.built := by
    intro member
    obtain ⟨session, isBuilt⟩ := List.getElem?_of_mem member
    exact unbuilt session isBuilt
  have newest : (state.built ++ [thread])[state.built.length]? = some thread :=
    List.getElem?_concat_length
  refine ⟨nodup_snoc kept.threads fresh, kept.sessions, ?_, ?_, ?_⟩
  · intro session member
    have known := kept.known session member
    simp only [setPlace, setOwn, List.length_append, List.length_singleton]
    omega
  · intro caller session member
    have earlier := kept.called caller session member
    have apart : caller ≠ thread := fun same => unbuilt session (same ▸ earlier)
    exact (built_snoc apart session).mpr earlier
  · intro other
    by_cases isThread : other = thread
    · subst isThread
      refine .building state.built.length (setPlace_self _) (Function.update_self _ _ _) newest ?_
      exact fun member => Nat.lt_irrefl _ (kept.known _ member)
    · exact (kept.stage other).frame (setPlace_other _ isThread) (Function.update_of_ne isThread _ _)
        (built_snoc isThread) (fun _ _ => Iff.rfl) (fun _ => id) (fun _ _ => id)

theorem Kept.call (kept : Kept state) {builds : Bool}
    (moved : state.call thread builds = some reached) : Kept reached := by
  unfold ThreadSessions.call at moved
  split at moved
  · rename_i session place own
    cases moved
    rcases (kept.stage thread).of_outside place with ⟨none, -⟩ | ⟨kept', same, mine, present, -⟩
    · rw [none] at own
      cases own
    · rw [same] at own
      cases own
      exact kept.advance rfl (fun other apart => ⟨setPlace_other _ apart, rfl⟩) kept.sessions
        (fun _ _ => Iff.rfl) mine (.inl rfl) (.calling _ (setPlace_self _) same mine present)
  · rename_i place own
    rcases (kept.stage thread).of_outside place with ⟨-, unbuilt⟩ | ⟨_, same, -⟩
    · split at moved
      · cases moved
        exact kept.call_builds unbuilt
      · cases moved
        exact kept
    · rw [same] at own
      cases own
  · cases moved

theorem Kept.proceed (kept : Kept state) (moved : state.proceed thread = some reached) :
    Kept reached := by
  unfold ThreadSessions.proceed at moved
  split at moved
  · rename_i session place
    cases moved
    obtain ⟨own, mine, absent⟩ := (kept.stage thread).of_registering place
    refine kept.advance rfl (fun other apart => ⟨setPlace_other _ apart, rfl⟩) ?_ ?_ mine (.inl rfl)
      (.calling session (setPlace_self _) own mine (List.mem_append_right _ (List.mem_singleton_self _)))
    · exact nodup_snoc kept.sessions absent
    · intro kept' notMine
      have apart : kept' ≠ session := fun same => notMine (same ▸ mine)
      simp [setPlace, apart]
  · rename_i session place
    cases moved
    obtain ⟨own, mine, present⟩ := (kept.stage thread).of_calling place
    exact kept.advance rfl (fun other apart => ⟨setPlace_other _ apart, rfl⟩) kept.sessions
      (fun _ _ => Iff.rfl) mine (.inr (.inl rfl)) (.resting session (setPlace_self _) own mine present
        (List.mem_append_right _ (List.mem_singleton_self _)))
  · rename_i session place
    obtain ⟨own, mine, present⟩ := (kept.stage thread).of_retiring place
    rw [if_pos present] at moved
    cases moved
    refine kept.advance rfl (fun other apart => ⟨setPlace_other _ apart, rfl⟩)
      (kept.sessions.erase session) ?_ mine (.inl rfl) (.closing session (setPlace_self _) own mine ?_)
    · intro kept' notMine
      have apart : kept' ≠ session := fun same => notMine (same ▸ mine)
      exact List.mem_erase_of_ne apart
    · exact kept.sessions.not_mem_erase
  · rename_i session place
    cases moved
    obtain ⟨own, mine, absent⟩ := (kept.stage thread).of_closing place
    exact kept.advance rfl (fun other apart => ⟨setPlace_other _ apart, rfl⟩) kept.sessions
      (fun _ _ => Iff.rfl) mine (.inr (.inr rfl)) (.gone session (setPlace_self _) own mine absent
        ⟨state.log, [], rfl, nofun⟩)
  · cases moved
  · cases moved
  · cases moved

theorem Kept.finish (kept : Kept state) (moved : state.finish thread = some reached) :
    Kept reached := by
  unfold ThreadSessions.finish at moved
  split at moved
  · rename_i session place own
    cases moved
    rcases (kept.stage thread).of_outside place with ⟨none, -⟩ | ⟨kept', same, mine, present, -⟩
    · rw [none] at own
      cases own
    · rw [same] at own
      cases own
      exact kept.advance rfl
        (fun other apart => ⟨setPlace_other _ apart, Function.update_of_ne apart _ _⟩) kept.sessions
        (fun _ _ => Iff.rfl) mine (.inl rfl)
        (.retiring _ (setPlace_self _) (Function.update_self _ _ _) mine present)
  · rename_i place own
    cases moved
    refine ⟨kept.threads, kept.sessions, kept.known, kept.called, fun other => ?_⟩
    by_cases isThread : other = thread
    · subst isThread
      rcases (kept.stage other).of_outside place with ⟨none, unbuilt⟩ | ⟨_, same, -⟩
      · exact .fresh (.inr (setPlace_self _)) none unbuilt
      · rw [same] at own
        cases own
    · exact (kept.stage other).frame (setPlace_other _ isThread) rfl (fun _ => Iff.rfl)
        (fun _ _ => Iff.rfl) (fun _ => id) (fun _ _ => id)
  · cases moved

theorem Kept.step {move : Move} (kept : Kept state)
    (moved : ThreadSessions.step move state = some reached) : Kept reached := by
  cases move with
  | call thread builds => exact Kept.call kept moved
  | proceed thread => exact Kept.proceed kept moved
  | finish thread => exact Kept.finish kept moved
  | close caller => exact Kept.close kept moved

end Steps

/-! ## Whole runs -/

def Rests (state : ThreadSessions) : Prop :=
  ∀ thread, state.threads thread = .outside ∨ state.threads thread = .ended

/-- What the transports are to each other and to the list of them. -/
structure OnePerThread (state : ThreadSessions) : Prop where
  apart : ∀ thread other session session', .called thread session ∈ state.log →
    .called other session' ∈ state.log → (thread = other ↔ session = session')
  once : state.sessions.Nodup
  held : state.Rests → ∀ session, session ∈ state.sessions ↔
    ∃ thread, state.threads thread = .outside ∧ .called thread session ∈ state.log
  found : ∀ thread, state.threads thread ≠ .failed
  shut : ∀ thread session, state.threads thread = .ended → .called thread session ∈ state.log →
    Shut state.log session
  again : ∀ thread session, state.threads thread = .outside → .called thread session ∈ state.log →
    ∃ next, steps step [.call thread true, .proceed thread] state = some next ∧
      next.log = state.log ++ [.called thread session]

theorem calls_again {state : ThreadSessions} {thread session : Nat}
    (outside : state.threads thread = .outside) (own : state.own thread = some session) :
    ∃ next, steps step [.call thread true, .proceed thread] state = some next ∧
      next.log = state.log ++ [.called thread session] := by
  have first : step (.call thread true) state =
      some (state.setPlace thread (.calling session)) := by
    dsimp only [step, call]
    rw [outside, own]
  have second : step (.proceed thread) (state.setPlace thread (.calling session)) =
      some (((state.setPlace thread (.calling session)).record
        (.called thread session)).setPlace thread .outside) := by
    dsimp only [step, proceed]
    rw [setPlace_self]
  refine ⟨((state.setPlace thread (.calling session)).record
    (.called thread session)).setPlace thread .outside, ?_, rfl⟩
  rw [steps, first, Option.bind_some, steps, second]
  rfl

theorem built_inj {state : ThreadSessions} (kept : Kept state) {thread first second : Nat}
    (isFirst : state.BuiltIn first thread) (isSecond : state.BuiltIn second thread) :
    first = second := by
  obtain ⟨inFirst, atFirst⟩ := List.getElem?_eq_some_iff.mp isFirst
  obtain ⟨inSecond, atSecond⟩ := List.getElem?_eq_some_iff.mp isSecond
  exact (List.Nodup.getElem_inj_iff kept.threads).mp (atFirst.trans atSecond.symm)

theorem Stage.of_ended {state : ThreadSessions} {thread : Nat} (stage : Stage state thread)
    (place : state.threads thread = .ended) (session : Nat) (mine : state.BuiltIn session thread)
    (kept : Kept state) : session ∉ state.sessions ∧ Shut state.log session := by
  cases stage with
  | gone own _ _ isBuilt absent isShut =>
      have same := built_inj kept mine isBuilt
      exact ⟨same ▸ absent, same ▸ isShut⟩
  | fresh _ _ unbuilt => exact absurd mine (unbuilt session)
  | _ => simp_all

theorem Kept.onePerThread {state : ThreadSessions} (kept : Kept state) : OnePerThread state where
  apart := by
    intro thread other session session' mine theirs
    have builtMine := kept.called thread session mine
    have builtTheirs := kept.called other session' theirs
    constructor
    · rintro rfl
      exact built_inj kept builtMine builtTheirs
    · rintro rfl
      exact built_unique builtMine builtTheirs
  once := kept.sessions
  held := by
    intro rests session
    constructor
    · intro member
      obtain ⟨thread, isBuilt⟩ : ∃ thread, state.BuiltIn session thread :=
        ⟨_, List.getElem?_eq_getElem (kept.known session member)⟩
      refine ⟨thread, ?_⟩
      rcases rests thread with outside | ended
      · rcases (kept.stage thread).of_outside outside with ⟨-, unbuilt⟩ | ⟨other, -, theirs, -, called⟩
        · exact absurd isBuilt (unbuilt session)
        · exact ⟨outside, built_inj kept isBuilt theirs ▸ called⟩
      · obtain ⟨absent, -⟩ := (kept.stage thread).of_ended ended session isBuilt kept
        exact absurd member absent
    · rintro ⟨thread, outside, called⟩
      have isBuilt := kept.called thread session called
      rcases (kept.stage thread).of_outside outside with ⟨-, unbuilt⟩ | ⟨other, -, theirs, present, -⟩
      · exact absurd isBuilt (unbuilt session)
      · exact built_inj kept isBuilt theirs ▸ present
  found := by
    intro thread failed
    cases kept.stage thread <;> simp_all
  shut := by
    intro thread session ended called
    exact ((kept.stage thread).of_ended ended session (kept.called thread session called) kept).2

  again := by
    intro thread session outside called
    have isBuilt := kept.called thread session called
    rcases (kept.stage thread).of_outside outside with ⟨-, unbuilt⟩ | ⟨other, own, theirs, -⟩
    · exact absurd isBuilt (unbuilt session)
    · obtain rfl := built_inj kept isBuilt theirs
      exact calls_again outside own

/-- What a call of `close` copied under the lock, it has closed since or is to close. -/
def Closes (caller : Nat) (held : List Nat) (since : List SessionEvent) (state : ThreadSessions) :
    Prop :=
  ∃ later, state.log = since ++ later ∧
    ((∃ left, state.closers caller = .closing left ∧
      ∀ session ∈ held, session ∈ left ∨ .closed session ∈ later) ∨
    state.closers caller = .returned ∧ ∀ session ∈ held, .closed session ∈ later)

section Closes

variable {state reached : ThreadSessions} {caller : Nat} {held : List Nat}
  {since : List SessionEvent}

/-- Whatever is done meanwhile, the log only grows, and nobody else moves the caller. -/
theorem Closes.later (closes : Closes caller held since state)
    (same : reached.closers caller = state.closers caller)
    (log : ∃ more, reached.log = state.log ++ more) : Closes caller held since reached := by
  obtain ⟨later, isLater, place⟩ := closes
  obtain ⟨more, isMore⟩ := log
  refine ⟨later ++ more, by rw [isMore, isLater, List.append_assoc], ?_⟩
  rw [same]
  rcases place with ⟨left, closing, each⟩ | ⟨returned, each⟩
  · refine .inl ⟨left, closing, fun session member => ?_⟩
    exact (each session member).imp_right (List.mem_append_left _)
  · exact .inr ⟨returned, fun session member => List.mem_append_left _ (each session member)⟩

theorem setCloser_other {other : Nat} (place : CloseAll) (apart : caller ≠ other) :
    (state.setCloser other place).closers caller = state.closers caller :=
  Function.update_of_ne apart _ _

theorem setCloser_self (place : CloseAll) : (state.setCloser caller place).closers caller = place :=
  Function.update_self _ _ _

/-- The caller's own steps close what is left, one after another. -/
theorem Closes.own (closes : Closes caller held since state)
    (moved : state.close caller = some reached) : Closes caller held since reached := by
  obtain ⟨later, isLater, ⟨left, closing, each⟩ | ⟨returned, -⟩⟩ := closes
  · unfold ThreadSessions.close at moved
    rw [closing] at moved
    cases left with
    | nil =>
        cases moved
        refine ⟨later, isLater, .inr ⟨setCloser_self _, fun session member => ?_⟩⟩
        exact (each session member).resolve_left nofun
    | cons session rest =>
        cases moved
        refine ⟨later ++ [.closed session], ?_, .inl ⟨rest, setCloser_self _, fun other member => ?_⟩⟩
        · rw [← List.append_assoc, ← isLater]
          rfl
        · rcases each other member with inLeft | done
          · rcases List.mem_cons.mp inLeft with rfl | later
            · exact .inr (List.mem_append_right _ (List.mem_singleton_self _))
            · exact .inl later
          · exact .inr (List.mem_append_left _ done)
  · unfold ThreadSessions.close at moved
    rw [returned] at moved
    cases moved

theorem Closes.close {other : Nat} (closes : Closes caller held since state)
    (moved : state.close other = some reached) : Closes caller held since reached := by
  by_cases same : caller = other
  · subst same
    exact closes.own moved
  · unfold ThreadSessions.close at moved
    split at moved
    · cases moved
      exact closes.later (setCloser_other _ same) ⟨[], (List.append_nil _).symm⟩
    · cases moved
      exact closes.later (setCloser_other _ same) ⟨_, rfl⟩
    · cases moved
      exact closes.later (setCloser_other _ same) ⟨[], (List.append_nil _).symm⟩
    · cases moved

theorem step_thread {move : Move} (moved : ThreadSessions.step move state = some reached)
    (threads : ∀ other, move ≠ .close other) :
    reached.closers = state.closers ∧ ∃ more, reached.log = state.log ++ more := by
  have unchanged : ∃ more, state.log = state.log ++ more := ⟨[], (List.append_nil _).symm⟩
  cases move with
  | call thread builds =>
      simp only [ThreadSessions.step, ThreadSessions.call] at moved
      split at moved
      · cases moved
        exact ⟨rfl, unchanged⟩
      · split at moved
        · cases moved
          exact ⟨rfl, unchanged⟩
        · cases moved
          exact ⟨rfl, unchanged⟩
      · cases moved
  | proceed thread =>
      simp only [ThreadSessions.step, ThreadSessions.proceed] at moved
      split at moved
      · cases moved
        exact ⟨rfl, unchanged⟩
      · cases moved
        exact ⟨rfl, _, rfl⟩
      · split at moved
        · cases moved
          exact ⟨rfl, unchanged⟩
        · cases moved
          exact ⟨rfl, unchanged⟩
      · cases moved
        exact ⟨rfl, _, rfl⟩
      · cases moved
      · cases moved
      · cases moved
  | finish thread =>
      simp only [ThreadSessions.step, ThreadSessions.finish] at moved
      split at moved
      · cases moved
        exact ⟨rfl, unchanged⟩
      · cases moved
        exact ⟨rfl, unchanged⟩
      · cases moved
  | close other => exact absurd rfl (threads other)

theorem Closes.step {move : Move} (closes : Closes caller held since state)
    (moved : ThreadSessions.step move state = some reached) : Closes caller held since reached := by
  by_cases closer : ∃ other, move = .close other
  · obtain ⟨other, rfl⟩ := closer
    exact closes.close moved
  · obtain ⟨same, log⟩ := step_thread moved fun other isClose => closer ⟨other, isClose⟩
    exact closes.later (congrFun same caller) log

end Closes

/-- Whatever the threads and the calls of `close` do in whatever order, each thread's calls
go through one transport of its own, which is in the list until the thread ends and closed
from then on; and a call of `close` that has returned has closed each transport it found. -/
theorem sessions_one_per_thread (moves : List Move) (reached : ThreadSessions)
    (ran : steps step moves constructed = some reached) :
    OnePerThread reached ∧
      ∀ caller entered, reached.closers caller = .entering →
        close caller reached = some entered →
        ∀ more final, steps step more entered = some final → final.closers caller = .returned →
          OnePerThread final ∧ ∀ session ∈ reached.sessions, ∃ later,
            final.log = reached.log ++ later ∧ .closed session ∈ later := by
  have kept : Kept reached := steps_keep (fun kept moved => Kept.step kept moved) kept_constructed ran
  refine ⟨kept.onePerThread, fun caller entered enters moved more final ranMore returned => ?_⟩
  have start : Closes caller reached.sessions reached.log entered := by
    unfold close at moved
    rw [enters] at moved
    cases moved
    exact ⟨[], (List.append_nil _).symm, .inl ⟨_, Function.update_self _ _ _, fun _ => .inl⟩⟩
  obtain ⟨later, isLater, ⟨left, closing, -⟩ | ⟨-, each⟩⟩ :=
    steps_keep (fun closes moved => Closes.step closes moved) start ranMore
  · rw [returned] at closing
    cases closing
  · refine ⟨?_, fun session member => ⟨later, isLater, each session member⟩⟩
    have keptEntered : Kept entered := Kept.close kept moved
    exact (steps_keep (fun kept moved => Kept.step kept moved) keptEntered ranMore).onePerThread

/-- Two threads call; one of them ends while `close` goes through its copy. -/
def twoThreads : List Move :=
  [.call 0 true, .proceed 0, .proceed 0, .call 1 false, .call 1 true, .proceed 1, .proceed 1]

def endingOne : List Move :=
  [.finish 1, .close 0, .proceed 1, .proceed 1, .close 0, .close 0, .call 0 true, .proceed 0]

theorem sessions_one_per_thread_ending : ∃ reached entered final,
    steps step twoThreads constructed = some reached ∧ close 0 reached = some entered ∧
      steps step endingOne entered = some final ∧ ∀ session ∈ [0, 1],
        ∃ later, final.log = reached.log ++ later ∧ .closed session ∈ later :=
  ⟨_, _, _, rfl, rfl, rfl, ((sessions_one_per_thread twoThreads _ rfl).2 0 _ rfl rfl endingOne _ rfl
    rfl).2⟩

end BitcoinNodeTests.ThreadSessions
