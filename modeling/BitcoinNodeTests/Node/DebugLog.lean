import Mathlib.Data.List.Infix
import BitcoinNodeTests.Foundation.Course
import BitcoinNodeTests.Foundation.Octets
import BitcoinNodeTests.Foundation.Text

/-!
# What a debug log gained

`assert_debug_log` reads what a log gained since a block was entered, once the block is left
and again for as long as the timeout lasts, while the node goes on appending to it.  However it
ends, it tells what the log had gained when it was last read, and nothing that was logged in
time is missed.
-/

set_option autoImplicit false

namespace BitcoinNodeTests

open Foundation

inductive LogEvent where
  | opened
  | appended (octets : List Octet)

/-- A log that is appended to alone, and how it is read: `decode` is of UTF-8, what is no
UTF-8 replaced. -/
structure DebugLog where
  during : Nat → List LogEvent × Nat
  decode : List Octet → Text
  scaled : Int → Int

/-- The log's octets, or `none` before the node opens it. -/
abbrev LogWorld : Type := World (Option (List Octet))

inductive DebugLogRaised (ε : Type) where
  | block (error : ε)
  | fileNotFound
  | unexpectedFound (unexpected appended : Text)
  | notFound (remaining : List Text) (appended : Text)
  deriving DecidableEq, Repr

abbrev LogAction (ε α : Type) : Type := Action LogWorld (DebugLogRaised ε) α

/-- The message of each `AssertionError`, with `repr` of a text. -/
def DebugLogRaised.message {ε : Type} (repr : Text → String) : DebugLogRaised ε → Option String
  | .unexpectedFound unexpected appended =>
      some (repr unexpected ++ " found in the log appended since entry:\n" ++
        String.ofList appended)
  | .notFound remaining appended =>
      some ("[" ++ ", ".intercalate (remaining.map repr) ++
        "] not found in the log appended since entry:\n" ++ String.ofList appended)
  | _ => none

namespace DebugLog

variable {ε α : Type} (log : DebugLog)

def course : Course (Option (List Octet)) LogEvent where
  apply event file := match event with
    | .opened => some (file.getD [])
    | .appended octets => some (file.getD [] ++ octets)
  during := log.during

/-- An operation on the log, which answers what it finds as it ends. -/
def look (view : Option (List Octet) → α) : LogAction ε α := fun world =>
  (.ok (view (log.course.pass world).state), log.course.pass world)

/-- `log_path.stat().st_size if log_path.exists() else 0` -/
def startSize : LogAction ε Nat := do
  let found ← log.look Option.isSome
  if found then log.look fun file => (file.getD []).length else pure 0

def readAppended (start : Nat) : LogAction ε Text := do
  let file ← log.look id
  match file with
  | none => Action.raise .fileNotFound
  | some octets => pure (log.decode (octets.drop start))

def judge (expected unexpected : List Text) (appended : Text) : LogAction ε (List Text) :=
  match unexpected.find? fun text => decide (text <:+: appended) with
  | some text => Action.raise (.unexpectedFound text appended)
  | none => pure (expected.filter fun text => !decide (text <:+: appended))

def poll (expected unexpected : List Text) (start : Nat) (deadline : Int) : Nat → LogAction ε Unit
  | 0 => Action.raise (.notFound expected [])
  | turns + 1 => do
      let appended ← log.readAppended start
      let remaining ← judge expected unexpected appended
      if remaining = [] then pure ()
      else do
        let now ← log.course.ticker.monotonic
        if deadline ≤ now then Action.raise (.notFound remaining appended)
        else do
          Action.update (log.course.sleep 100)
          poll expected unexpected start deadline turns

def pollBefore (expected unexpected : List Text) (start : Nat) (deadline : Int) :
    LogAction ε Unit := fun world =>
  log.poll expected unexpected start deadline (log.course.ticker.turnsBefore deadline world) world

def enter (block : Action LogWorld ε Unit) : LogAction ε Unit := fun world =>
  match block world with
  | (.ok (), left) => (.ok (), left)
  | (.error error, left) => (.error (.block error), left)

def assertDebugLog (expected unexpected : List Text) (timeout : Int)
    (block : Action LogWorld ε Unit) : LogAction ε Unit := do
  let start ← log.startSize
  enter block
  let now ← log.course.ticker.monotonic
  log.pollBefore expected unexpected start (now + log.scaled timeout)

/-! ## What a read finds -/

/-- Nothing is taken from the log. -/
def Grown (file later : Option (List Octet)) : Prop :=
  ∀ octets, file = some octets → ∃ more, later = some (octets ++ more)

instance : IsPreorder (Option (List Octet)) Grown where
  refl _ octets same := ⟨[], by rw [same, List.append_nil]⟩
  trans _ _ _ first second octets same := by
    obtain ⟨more, grown⟩ := first octets same
    obtain ⟨rest, later⟩ := second _ grown
    exact ⟨more ++ rest, by rw [later, List.append_assoc]⟩

abbrev Later : LogWorld → LogWorld → Prop := Course.Since 0 Grown

variable {log} {expected unexpected : List Text} {start : Nat} {deadline : Int}

theorem apply_grown (event : LogEvent) (file : Option (List Octet)) :
    Grown file (log.course.apply event file) := by
  intro octets same
  subst same
  cases event with
  | opened => exact ⟨[], by rw [List.append_nil]; rfl⟩
  | appended more => exact ⟨more, rfl⟩

theorem pass_later (world : LogWorld) : Later world (log.course.pass world) :=
  Course.pass_since (fun _ _ event _ file => apply_grown event file) world

theorem sleep_later (world : LogWorld) : Later world (log.course.sleep 100 world) :=
  Course.sleep_since (fun _ _ event _ file => apply_grown event file) 100 world

theorem monotonic_run (world : LogWorld) :
    (log.course.ticker.monotonic : LogAction ε Int) world =
      (.ok (log.course.pass world).now, log.course.pass world) := rfl

/-- What the log gained on the octets it had. -/
def Gained (log : DebugLog) (before : List Octet) (world : LogWorld) (appended : Text) : Prop :=
  ∃ more, world.state = some (before ++ more) ∧ appended = log.decode more

theorem gained_of_later {entered world : LogWorld} {octets : List Octet}
    (later : Later entered world) (file : world.state = some octets) :
    log.Gained (entered.state.getD []) world
      (log.decode (octets.drop (entered.state.getD []).length)) := by
  have grown := later.moved (Nat.zero_le _)
  rcases had : entered.state with _ | before
  · exact ⟨octets, file, rfl⟩
  · obtain ⟨more, now⟩ := grown before had
    rw [file] at now
    cases now
    exact ⟨more, file, by rw [Option.getD_some, List.drop_left]⟩

theorem judge_unclean {appended : Text} (unclean : ¬ ∀ text ∈ unexpected, ¬ text <:+: appended) :
    ∃ text ∈ unexpected, text <:+: appended ∧ ∀ world : LogWorld,
      (judge expected unexpected appended : LogAction ε (List Text)) world =
        (.error (.unexpectedFound text appended), world) := by
  rcases finds : unexpected.find? (fun text => decide (text <:+: appended)) with _ | text
  · refine absurd (fun text member => ?_) unclean
    simpa using List.find?_eq_none.mp finds text member
  · have found := List.find?_some finds
    refine ⟨text, List.mem_of_find?_eq_some finds, by simpa using found, fun world => ?_⟩
    rw [judge, finds]
    rfl

theorem judge_clean {appended : Text} (clean : ∀ text ∈ unexpected, ¬ text <:+: appended)
    (world : LogWorld) :
    (judge expected unexpected appended : LogAction ε (List Text)) world =
      (.ok (expected.filter fun text => !decide (text <:+: appended)), world) := by
  have finds : unexpected.find? (fun text => decide (text <:+: appended)) = none := by
    rw [List.find?_eq_none]
    intro text member
    simpa using clean text member
  rw [judge, finds]
  rfl

theorem nothing_remains_iff {appended : Text} :
    (expected.filter fun text => !decide (text <:+: appended)) = [] ↔
      ∀ text ∈ expected, text <:+: appended := by
  simp [List.filter_eq_nil_iff]

theorem readAppended_absent {world : LogWorld}
    (absent : (log.course.pass world).state = none) :
    (log.readAppended start : LogAction ε Text) world =
      (.error .fileNotFound, log.course.pass world) := by
  rw [readAppended, Action.bind_of_ok _ (show log.look id world = _ from rfl), absent]
  rfl

theorem readAppended_present {world : LogWorld} {octets : List Octet}
    (present : (log.course.pass world).state = some octets) :
    (log.readAppended start : LogAction ε Text) world =
      (.ok (log.decode (octets.drop start)), log.course.pass world) := by
  rw [readAppended, Action.bind_of_ok _ (show log.look id world = _ from rfl), present]
  rfl

theorem poll_clean {world : LogWorld} {octets : List Octet} {turns : Nat}
    (present : (log.course.pass world).state = some octets)
    (clean : ∀ text ∈ unexpected, ¬ text <:+: log.decode (octets.drop start)) :
    (log.poll expected unexpected start deadline (turns + 1) : LogAction ε Unit) world =
      if ∀ text ∈ expected, text <:+: log.decode (octets.drop start) then
        (.ok (), log.course.pass world)
      else if deadline ≤ (log.course.pass (log.course.pass world)).now then
        (.error (.notFound (expected.filter fun text =>
          !decide (text <:+: log.decode (octets.drop start))) (log.decode (octets.drop start))),
          log.course.pass (log.course.pass world))
      else log.poll expected unexpected start deadline turns
        (log.course.sleep 100 (log.course.pass (log.course.pass world))) := by
  rw [poll, Action.bind_of_ok _ (readAppended_present present),
    Action.bind_of_ok _ (judge_clean clean _)]
  by_cases all : ∀ text ∈ expected, text <:+: log.decode (octets.drop start)
  · rw [if_pos all, if_pos (nothing_remains_iff.mpr all)]
    rfl
  · rw [if_neg all, if_neg (nothing_remains_iff.not.mpr all),
      Action.bind_of_ok _ (monotonic_run _)]
    split_ifs <;> rfl

/-! ## How the wait ends -/

/-- How the wait ends from a world, by what the log had gained when it was last read. -/
inductive Ended (log : DebugLog) (expected unexpected : List Text) (before : List Octet)
    (deadline : Int) (world : LogWorld) : Except (DebugLogRaised ε) Unit → LogWorld → Prop
  | found {final : LogWorld} {appended : Text} (later : Later world final)
      (gained : log.Gained before final appended) (all : ∀ text ∈ expected, text <:+: appended)
      (clean : ∀ text ∈ unexpected, ¬ text <:+: appended) :
      Ended log expected unexpected before deadline world (.ok ()) final
  | unexpectedFound {final : LogWorld} {text appended : Text} (later : Later world final)
      (gained : log.Gained before final appended) (unwanted : text ∈ unexpected)
      (logged : text <:+: appended) :
      Ended log expected unexpected before deadline world
        (.error (.unexpectedFound text appended)) final
  | notFound {read : LogWorld} {appended : Text} (later : Later world read)
      (gained : log.Gained before read appended)
      (clean : ∀ text ∈ unexpected, ¬ text <:+: appended)
      (missing : ∃ text ∈ expected, ¬ text <:+: appended)
      (late : deadline ≤ (log.course.pass read).now) :
      Ended log expected unexpected before deadline world
        (.error (.notFound (expected.filter fun text => !decide (text <:+: appended)) appended))
        (log.course.pass read)
  | absent {final : LogWorld} (later : Later world final) (absent : final.state = none) :
      Ended log expected unexpected before deadline world (.error .fileNotFound) final

theorem Ended.from_earlier {before : List Octet} {world earlier final : LogWorld}
    {result : Except (DebugLogRaised ε) Unit} (moved : Later earlier world)
    (ended : Ended log expected unexpected before deadline world result final) :
    Ended log expected unexpected before deadline earlier result final := by
  cases ended with
  | found later gained all clean => exact .found (IsTrans.trans _ _ _ moved later) gained all clean
  | unexpectedFound later gained unwanted logged =>
      exact .unexpectedFound (IsTrans.trans _ _ _ moved later) gained unwanted logged
  | notFound later gained clean missing late =>
      exact .notFound (IsTrans.trans _ _ _ moved later) gained clean missing late
  | absent later absent => exact .absent (IsTrans.trans _ _ _ moved later) absent

/-- A turn ends the wait, or the clock was before the deadline once the log was read. -/
theorem poll_turn {entered world final : LogWorld} {result : Except (DebugLogRaised ε) Unit}
    {turns : Nat} (since : Later entered world)
    (run : log.poll expected unexpected (entered.state.getD []).length deadline (turns + 1) world =
      (result, final)) :
    Ended log expected unexpected (entered.state.getD []) deadline world result final ∨
      (log.course.pass (log.course.pass world)).now < deadline ∧
        log.poll expected unexpected (entered.state.getD []).length deadline turns
          (log.course.sleep 100 (log.course.pass (log.course.pass world))) = (result, final) := by
  have passed : Later world (log.course.pass world) := pass_later world
  rcases present : (log.course.pass world).state with _ | octets
  · rw [poll, Action.bind_of_error _ (readAppended_absent present)] at run
    cases run
    exact .inl (.absent passed present)
  · have gained := @gained_of_later log _ _ _ (IsTrans.trans _ _ _ since passed) present
    by_cases clean : ∀ text ∈ unexpected,
        ¬ text <:+: log.decode (octets.drop (entered.state.getD []).length)
    · rw [poll_clean present clean] at run
      split_ifs at run with all late
      · cases run
        exact .inl (.found passed gained all clean)
      · cases run
        push Not at all
        exact .inl (.notFound passed gained clean all late)
      · exact .inr ⟨Int.not_le.mp late, run⟩
    · obtain ⟨text, unwanted, logged, raises⟩ := @judge_unclean ε expected _ _ clean
      rw [poll, Action.bind_of_ok _ (readAppended_present present),
        Action.bind_of_error _ (raises _)] at run
      cases run
      exact .inl (.unexpectedFound passed gained unwanted logged)

theorem poll_ended {entered : LogWorld} (turns : Nat) :
    ∀ {world final : LogWorld} {result : Except (DebugLogRaised ε) Unit},
      Later entered world → deadline ≤ world.now + 100 * turns →
      log.poll expected unexpected (entered.state.getD []).length deadline (turns + 1) world =
        (result, final) →
      Ended log expected unexpected (entered.state.getD []) deadline world result final := by
  induction turns with
  | zero =>
      intro world final result since enough run
      rcases poll_turn since run with ended | ⟨early, -⟩
      · exact ended
      · have first : world.now ≤ (log.course.pass world).now := (pass_later world).now
        have second := (@pass_later log (log.course.pass world)).now
        push_cast at enough
        omega
  | succ turns ih =>
      intro world final result since enough run
      rcases poll_turn since run with ended | ⟨-, rest⟩
      · exact ended
      · have asked : Later world (log.course.pass (log.course.pass world)) :=
          IsTrans.trans _ _ _ (pass_later world) (pass_later _)
        have slept : Later (log.course.pass (log.course.pass world))
            (log.course.sleep 100 (log.course.pass (log.course.pass world))) := sleep_later _
        have longer : (log.course.pass (log.course.pass world)).now + 100 ≤
            (log.course.sleep 100 (log.course.pass (log.course.pass world))).now :=
          Course.ticker_laws.sleep 100 _
        have moved := IsTrans.trans _ _ _ asked slept
        have now := asked.now
        have ended := ih (IsTrans.trans _ _ _ since moved) (by push_cast at enough; omega) rest
        exact ended.from_earlier moved

/-- The turns it is given reach the deadline with their sleeps alone. -/
theorem pollBefore_eq (world : LogWorld) : ∃ turns : Nat, deadline ≤ world.now + 100 * turns ∧
    (log.pollBefore expected unexpected start deadline : LogAction ε Unit) world =
      log.poll expected unexpected start deadline (turns + 1) world := by
  refine ⟨((deadline - world.now) / 100).toNat + 1, ?_, rfl⟩
  push_cast
  omega

theorem pollBefore_ended {entered world final : LogWorld} {result : Except (DebugLogRaised ε) Unit}
    (since : Later entered world)
    (run : log.pollBefore expected unexpected (entered.state.getD []).length deadline world =
      (result, final)) :
    Ended log expected unexpected (entered.state.getD []) deadline world result final := by
  obtain ⟨turns, enough, same⟩ := @pollBefore_eq ε log expected unexpected
    (entered.state.getD []).length deadline world
  rw [same] at run
  exact poll_ended turns since enough run

theorem startSize_ok {world : LogWorld} :
    ∃ entered, (log.startSize : LogAction ε Nat) world =
        (.ok (entered.state.getD []).length, entered) ∧ Later world entered := by
  rw [startSize, Action.bind_of_ok _ (show log.look Option.isSome world = _ from rfl)]
  rcases had : (log.course.pass world).state with _ | octets
  · refine ⟨log.course.pass world, ?_, pass_later world⟩
    rw [had]
    rfl
  · exact ⟨log.course.pass (log.course.pass world), rfl,
      IsTrans.trans _ _ _ (pass_later world) (pass_later _)⟩

/-- However it ends, it tells what the log gained between a moment before the block and the last
read, which is no earlier than the deadline where a text is missed. -/
theorem assertDebugLog_ends {timeout : Int} {block : Action LogWorld ε Unit}
    (leaves : Action.Moves Later block) {world final : LogWorld}
    {result : Except (DebugLogRaised ε) Unit}
    (run : log.assertDebugLog expected unexpected timeout block world = (result, final)) :
    ∃ entered, Later world entered ∧
      ((∃ error, block entered = (.error error, final) ∧ result = .error (.block error)) ∨
        ∃ left, block entered = (.ok (), left) ∧
          Ended log expected unexpected (entered.state.getD [])
            ((log.course.pass left).now + log.scaled timeout) left result final) := by
  obtain ⟨entered, starts, later⟩ := @startSize_ok ε log world
  refine ⟨entered, later, ?_⟩
  rw [assertDebugLog, Action.bind_of_ok _ starts, Action.bind_apply, enter] at run
  rcases ran : block entered with ⟨error | ⟨⟩, left⟩
  · simp only [ran] at run
    cases run
    exact .inl ⟨error, rfl, rfl⟩
  · simp only [ran] at run
    rw [Action.bind_of_ok _ (monotonic_run _)] at run
    have moved : Later entered left := leaves.of_run ran
    refine .inr ⟨left, rfl, ?_⟩
    exact (pollBefore_ended (IsTrans.trans _ _ _ moved (pass_later left)) run).from_earlier
      (pass_later left)

/-! ## A log that gains what is expected in time -/

/-- What is logged is still found once more is: the end of what was read may have been a part of
a character, which a replacement character stands for. -/
def Decodes (log : DebugLog) : Prop :=
  ∀ text octets more, '\uFFFD' ∉ text → text <:+: log.decode octets →
    text <:+: log.decode (octets ++ more)

/-- The world so many operations after the block of a wait that goes on: the clock is read, and in
turns the log and the clock are, and a sleep follows. -/
def waited (log : DebugLog) (left : LogWorld) : Nat → LogWorld
  | 0 => left
  | count + 1 =>
      if 0 < count ∧ count % 3 = 0 then log.course.sleep 100 (waited log left count)
      else log.course.pass (waited log left count)

/-- The log is there when it is first read, has gained what is expected after `count` operations,
the last of which ends before the deadline unless the first read is still to come, and no read up
to the one after them finds what is not. -/
structure Logs (log : DebugLog) (expected unexpected : List Text) (entered left : LogWorld)
    (timeout : Int) (count : Nat) : Prop where
  there : (log.waited left 2).state.isSome
  expected : ∃ appended, log.Gained (entered.state.getD []) (log.waited left count) appended ∧
    ∀ text ∈ expected, text <:+: appended
  inTime : 2 < count →
    (log.waited left count).now < (log.waited left 1).now + log.scaled timeout
  clean : ∀ rounds, 3 * rounds ≤ count → ∀ appended,
    log.Gained (entered.state.getD []) (log.waited left (3 * rounds + 2)) appended →
      ∀ text ∈ unexpected, ¬ text <:+: appended

theorem waited_pass (left : LogWorld) {count : Nat} (awake : count = 0 ∨ count % 3 ≠ 0) :
    log.waited left (count + 1) = log.course.pass (log.waited left count) := by
  rw [waited, if_neg (by omega)]

theorem waited_sleep (left : LogWorld) (rounds : Nat) :
    log.waited left (3 * rounds + 4) =
      log.course.sleep 100 (log.waited left (3 * rounds + 3)) := by
  rw [waited, if_pos (by omega)]

theorem waited_step (left : LogWorld) (count : Nat) :
    Later (log.waited left count) (log.waited left (count + 1)) := by
  rw [waited]
  split
  · exact sleep_later _
  · exact pass_later _

theorem waited_later (left : LogWorld) {first second : Nat} (before : first ≤ second) :
    Later (log.waited left first) (log.waited left second) := by
  induction before with
  | refl => exact Std.Refl.refl _
  | step _ ih => exact IsTrans.trans _ _ _ ih (waited_step left _)

section Logs

variable {entered left : LogWorld} {timeout : Int} {count : Nat}

theorem Logs.read (logs : log.Logs expected unexpected entered left timeout count)
    (decodes : log.Decodes) (whole : ∀ text ∈ expected, '\uFFFD' ∉ text)
    (since : Later entered left) {rounds : Nat} (fits : 3 * rounds ≤ count) :
    ∃ octets, (log.waited left (3 * rounds + 2)).state = some octets ∧
      (∀ text ∈ unexpected,
        ¬ text <:+: log.decode (octets.drop (entered.state.getD []).length)) ∧
      (count ≤ 3 * rounds + 2 → ∀ text ∈ expected,
        text <:+: log.decode (octets.drop (entered.state.getD []).length)) := by
  obtain ⟨first, there⟩ := Option.isSome_iff_exists.mp logs.there
  have second : 2 ≤ 3 * rounds + 2 := by omega
  obtain ⟨more, file⟩ := (waited_later left second).moved (Nat.zero_le _) first there
  have later : Later entered (log.waited left (3 * rounds + 2)) :=
    IsTrans.trans _ _ _ since (waited_later left (Nat.zero_le _))
  have gained := @gained_of_later log _ _ _ later file
  refine ⟨first ++ more, file, logs.clean rounds fits _ gained, fun late text member => ?_⟩
  obtain ⟨appended, ⟨had, state, rfl⟩, all⟩ := logs.expected
  obtain ⟨rest, grown⟩ := (waited_later left late).moved (Nat.zero_le _) _ state
  rw [file] at grown
  rw [Option.some.inj grown, List.append_assoc, List.drop_left]
  exact decodes text had rest (whole text member) (all text member)

theorem poll_round (logs : log.Logs expected unexpected entered left timeout count)
    (decodes : log.Decodes) (whole : ∀ text ∈ expected, '\uFFFD' ∉ text)
    (since : Later entered left) {rounds : Nat} (fits : 3 * rounds ≤ count) (turns : Nat) :
    (log.poll expected unexpected (entered.state.getD []).length
        ((log.waited left 1).now + log.scaled timeout) (turns + 1) : LogAction ε Unit)
        (log.waited left (3 * rounds + 1)) = (.ok (), log.waited left (3 * rounds + 2)) ∨
      3 * rounds + 3 ≤ count ∧
        (log.poll expected unexpected (entered.state.getD []).length
          ((log.waited left 1).now + log.scaled timeout) (turns + 1) : LogAction ε Unit)
          (log.waited left (3 * rounds + 1)) =
        log.poll expected unexpected (entered.state.getD []).length
          ((log.waited left 1).now + log.scaled timeout) turns
          (log.waited left (3 * rounds + 4)) := by
  have read : log.waited left (3 * rounds + 2) =
      log.course.pass (log.waited left (3 * rounds + 1)) := waited_pass left (by omega)
  have asked : log.waited left (3 * rounds + 3) =
      log.course.pass (log.waited left (3 * rounds + 2)) := waited_pass left (by omega)
  obtain ⟨octets, file, clean, finds⟩ := logs.read decodes whole since fits
  rw [read] at file
  by_cases all : ∀ text ∈ expected,
      text <:+: log.decode (octets.drop (entered.state.getD []).length)
  · left
    rw [poll_clean file clean, if_pos all, read]
  · right
    have more : 3 * rounds + 3 ≤ count := by
      by_contra fewer
      exact all (finds (by omega))
    have early := (@waited_later log left _ _ more).now
    have inTime := logs.inTime (by omega)
    refine ⟨more, ?_⟩
    rw [poll_clean file clean, if_neg all, ← read, ← asked, if_neg (by omega), waited_sleep]

theorem poll_found (logs : log.Logs expected unexpected entered left timeout count)
    (decodes : log.Decodes) (whole : ∀ text ∈ expected, '\uFFFD' ∉ text)
    (since : Later entered left) (turns : Nat) : ∀ rounds : Nat, 3 * rounds ≤ count →
      (log.waited left 1).now + log.scaled timeout ≤
        (log.waited left (3 * rounds + 1)).now + 100 * turns →
      ∃ last ≤ count + 2,
        (log.poll expected unexpected (entered.state.getD []).length
          ((log.waited left 1).now + log.scaled timeout) (turns + 1) : LogAction ε Unit)
          (log.waited left (3 * rounds + 1)) = (.ok (), log.waited left last) := by
  induction turns with
  | zero =>
      intro rounds fits enough
      rcases poll_round logs decodes whole since fits 0 with found | ⟨more, -⟩
      · exact ⟨_, by omega, found⟩
      · have inTime := logs.inTime (by omega)
        have passed := (@waited_later log left _ _ (show 3 * rounds + 1 ≤ count by omega)).now
        push_cast at enough
        omega
  | succ turns ih =>
      intro rounds fits enough
      rcases poll_round logs decodes whole since fits (turns + 1) with found | ⟨more, goesOn⟩
      · exact ⟨_, by omega, found⟩
      · have asked := (@waited_later log left _ _
          (show 3 * rounds + 1 ≤ 3 * rounds + 3 by omega)).now
        have slept : (log.waited left (3 * rounds + 3)).now + (100 : Nat) ≤
            (log.waited left (3 * rounds + 4)).now := by
          rw [waited_sleep]
          exact Course.ticker_laws.sleep 100 _
        rw [goesOn]
        refine ih (rounds + 1) more ?_
        show _ ≤ (log.waited left (3 * rounds + 4)).now + 100 * turns
        push_cast at enough slept
        omega

/-- Where what is expected is logged in time and nothing else is found, it returns, with the read
after at most one operation more. -/
theorem assertDebugLog_returns {block : Action LogWorld ε Unit}
    (leaves : Action.Moves Later block) {world : LogWorld}
    (enters : (log.startSize : LogAction ε Nat) world =
      (.ok (entered.state.getD []).length, entered))
    (runs : block entered = (.ok (), left))
    (logs : log.Logs expected unexpected entered left timeout count) (decodes : log.Decodes)
    (whole : ∀ text ∈ expected, '\uFFFD' ∉ text) :
    ∃ last ≤ count + 2, log.assertDebugLog expected unexpected timeout block world =
      (.ok (), log.waited left last) := by
  have since : Later entered left := leaves.of_run runs
  have within : enter block entered = (.ok (), left) := by rw [enter, runs]
  obtain ⟨turns, enough, same⟩ := @pollBefore_eq ε log expected unexpected
    (entered.state.getD []).length ((log.waited left 1).now + log.scaled timeout)
    (log.waited left 1)
  rw [assertDebugLog, Action.bind_of_ok _ enters, Action.bind_of_ok _ within,
    Action.bind_of_ok _ (monotonic_run _)]
  obtain ⟨last, bound, found⟩ :=
    poll_found (ε := ε) logs decodes whole since turns 0 (Nat.zero_le _) enough
  exact ⟨last, bound, same.trans found⟩

end Logs

end DebugLog

/-- A log of ASCII that says of a peer what it said before, a little after it was first read. -/
def peerLog : DebugLog where
  during turn := (if turn = 5 then [.appended "peer 1\n".toUTF8.toList] else [], 10)
  decode octets := octets.map fun octet => Char.ofNat octet.toNat
  scaled := id

def peerLogged : LogWorld := ⟨some "peer 1\n".toUTF8.toList, 0, 0⟩

theorem assertDebugLog_ends_peer : ∃ final before more,
    peerLog.assertDebugLog ["peer 1".toList] ["peer 2".toList] 1000
      (pure () : Action LogWorld String Unit) peerLogged = (.ok (), final) ∧
    final.state = some (before ++ more) ∧ "peer 1".toList <:+: peerLog.decode more := by
  have returns : (peerLog.assertDebugLog ["peer 1".toList] ["peer 2".toList] 1000
      (pure () : Action LogWorld String Unit) peerLogged).1 = .ok () := by decide +kernel
  obtain ⟨final, run⟩ := Action.run_of_result returns
  obtain ⟨entered, -, ⟨_, -, raised⟩ | ⟨left, -, ended⟩⟩ :=
    DebugLog.assertDebugLog_ends (Action.Moves.unchanged fun _ => rfl) run
  · cases raised
  · cases ended with
    | found _ gained all _ =>
        obtain ⟨more, file, rfl⟩ := gained
        exact ⟨final, _, more, run, file, all _ List.mem_cons_self⟩

theorem peerLog_decodes : peerLog.Decodes := by
  intro text octets more _ found
  have kept : peerLog.decode (octets ++ more) = peerLog.decode octets ++ peerLog.decode more :=
    List.map_append
  rw [kept]
  exact found.trans (List.prefix_append _ _).isInfix

def peerEntered : LogWorld := peerLog.course.pass (peerLog.course.pass peerLogged)

theorem peerLog_logs :
    peerLog.Logs ["peer 1".toList] ["peer 2".toList] peerEntered peerEntered 400 4 := by
  have clean : ∀ rounds < 2, ¬ "peer 2".toList <:+: peerLog.decode
      (((peerLog.waited peerEntered (3 * rounds + 2)).state.getD []).drop
        (peerEntered.state.getD []).length) := by decide +kernel
  refine ⟨by decide +kernel, ⟨_, ⟨"peer 1\n".toUTF8.toList, by decide +kernel, rfl⟩, ?_⟩,
    fun _ => by decide +kernel, ?_⟩
  · decide +kernel
  · rintro rounds bound _ ⟨more, file, rfl⟩ text member
    rw [List.mem_singleton] at member
    subst member
    have absent := clean rounds (by omega)
    rwa [file, Option.getD_some, List.drop_left] at absent

theorem assertDebugLog_returns_peer : ∃ last ≤ 6,
    peerLog.assertDebugLog ["peer 1".toList] ["peer 2".toList] 400
      (pure () : Action LogWorld String Unit) peerLogged =
        (.ok (), peerLog.waited peerEntered last) := by
  have whole : ∀ text ∈ ["peer 1".toList], '\uFFFD' ∉ text := by decide +kernel
  exact DebugLog.assertDebugLog_returns (Action.Moves.unchanged fun _ => rfl)
    (show peerLog.startSize peerLogged = (.ok (peerEntered.state.getD []).length, peerEntered)
      from rfl)
    rfl peerLog_logs peerLog_decodes whole

end BitcoinNodeTests
