import Mathlib.Data.List.Nodup
import BitcoinNodeTests.Foundation.Action
import BitcoinNodeTests.Census.Pins

/-!
# The tracking issues

`_track` opens, edits or closes the one issue of a title, found by a search and told by the
whole of its title.  Any of its calls may fail, with what it asked for done or not, and others
open and close issues between two runs.  Whatever they do to theirs, each title has one open
issue at most, which says what the last report said.
-/

set_option autoImplicit false

namespace BitcoinNodeTests.Census

open Foundation

structure TrackedIssue where
  number : Nat
  title : String
  body : String
  isOpen : Bool
  comments : List String
  deriving DecidableEq, Repr

/-- The issues of a repository, and the number the next one gets. -/
structure Tracker where
  issues : List TrackedIssue
  next : Nat
  deriving DecidableEq, Repr

/-- What becomes of a call of `gh`: done, not done, or done without an answer. -/
inductive GhOutcome where
  | done
  | failed (stderr : Text)
  | lost (stderr : Text)
  deriving DecidableEq, Repr

structure GhWorld where
  tracker : Tracker
  turn : Nat
  slept : List Nat
  printed : List String
  deriving DecidableEq, Repr

/-- What ends a script: a `subprocess.CalledProcessError` with its stderr where this was
captured, the `RuntimeError` of a tree that was cut, a `ValueError` of the ledger's table, an
`IndexError`, or an `OSError` of a file. -/
inductive ScriptError where
  | calledProcess (stderr : Option Text)
  | truncated (sha : Text)
  | ledger (error : PinError)
  | index
  | noFile (path : String)
  deriving DecidableEq, Repr

def ScriptError.stderr : ScriptError → Option Text
  | .calledProcess stderr => stderr
  | _ => none

/-- GitHub behind `gh`: what becomes of each call, and what a search for a title in the titles
of the open issues finds. -/
structure Gh where
  outcome : Nat → GhOutcome
  search : String → List TrackedIssue → List TrackedIssue
  isDigit : Char → Bool

abbrev GhAction (α : Type) : Type := Action GhWorld ScriptError α

def ATTEMPTS : Nat := 3

/-- `_TRANSIENT.search`: `HTTP 5` and two digits. -/
def isTransient (isDigit : Char → Bool) (stderr : Text) : Bool :=
  stderr.tails.any fun rest =>
    "HTTP 5".toList.isPrefixOf rest &&
      match rest.drop 6 with
      | first :: second :: _ => isDigit first && isDigit second
      | _ => false

section Calls

variable (gh : Gh)

/-- A call with an effect: `subprocess.run(…, check=True)`. -/
def runGh (change : Tracker → Tracker) : GhAction Unit := fun world =>
  match gh.outcome world.turn with
  | .done => (.ok (), { world with tracker := change world.tracker, turn := world.turn + 1 })
  | .failed _ => (.error (.calledProcess none), { world with turn := world.turn + 1 })
  | .lost _ =>
      (.error (.calledProcess none),
        { world with tracker := change world.tracker, turn := world.turn + 1 })

def askGh {α : Type} (read : GhWorld → α) : GhAction α := fun world =>
  match gh.outcome world.turn with
  | .done => (.ok (read world), { world with turn := world.turn + 1 })
  | .failed stderr => (.error (.calledProcess stderr), { world with turn := world.turn + 1 })
  | .lost stderr => (.error (.calledProcess stderr), { world with turn := world.turn + 1 })

/-- `_gh_output`, of a call that reads, from an attempt on and with so many left after it. -/
def ghOutput {α : Type} (read : GhWorld → α) (attempt : Nat) : Nat → GhAction α
  | 0 => askGh gh read
  | left + 1 => Action.rescue (askGh gh read) fun error =>
      if error.stderr.any (isTransient gh.isDigit) then do
        Action.update fun world => { world with slept := world.slept ++ [5 * attempt] }
        ghOutput read (attempt + 1) left
      else Action.raise error

def openIssueNumber (title : String) : GhAction (Option Nat) := do
  let issues ← ghOutput gh (fun world => gh.search title world.tracker.issues) 1 (ATTEMPTS - 1)
  pure ((issues.filter fun issue => issue.title = title).head?.map TrackedIssue.number)

end Calls

namespace Tracker

def modify (number : Nat) (change : TrackedIssue → TrackedIssue) (tracker : Tracker) : Tracker :=
  { tracker with
    issues := tracker.issues.map fun issue =>
      if issue.number = number then change issue else issue }

def close (number : Nat) (comment : String) : Tracker → Tracker :=
  modify number fun issue =>
    { issue with isOpen := false, comments := issue.comments ++ [comment] }

def edit (number : Nat) (body : String) : Tracker → Tracker :=
  modify number fun issue => { issue with body := body }

def create (title body : String) (tracker : Tracker) : Tracker :=
  ⟨tracker.issues ++ [⟨tracker.next, title, body, true, []⟩], tracker.next + 1⟩

end Tracker

/-- What is done with the number found: the issue is opened, edited or closed. -/
def act (gh : Gh) (title : String) (body : Option String) (allClear : String) :
    Option Nat → GhAction Unit
  | none =>
      match body with
      | none => pure ()
      | some body => runGh gh (Tracker.create title body)
  | some number =>
      match body with
      | none => runGh gh (Tracker.close number allClear)
      | some body => runGh gh (Tracker.edit number body)

def track (gh : Gh) (title : String) (body : Option String) (allClear : String) :
    GhAction Unit := do
  let number ← openIssueNumber gh title
  act gh title body allClear number

/-! ## What a call leaves -/

def openTitled (title : String) (tracker : Tracker) : List TrackedIssue :=
  tracker.issues.filter fun issue => issue.isOpen && issue.title = title

structure Tracker.WellFormed (tracker : Tracker) : Prop where
  numbers : (tracker.issues.map TrackedIssue.number).Nodup
  given : ∀ issue ∈ tracker.issues, issue.number < tracker.next

/-- A search for a title finds every open issue of that very title, and open issues alone. -/
structure SearchLaws (gh : Gh) : Prop where
  finds : ∀ {title issues} {issue : TrackedIssue}, issue ∈ issues → issue.isOpen = true →
    issue.title = title → issue ∈ gh.search title issues
  only : ∀ {title issues issue}, issue ∈ gh.search title issues →
    issue ∈ issues ∧ issue.isOpen = true

theorem mem_openTitled {title : String} {tracker : Tracker} {issue : TrackedIssue} :
    issue ∈ openTitled title tracker ↔
      issue ∈ tracker.issues ∧ issue.isOpen = true ∧ issue.title = title := by
  rw [openTitled, List.mem_filter, Bool.and_eq_true, decide_eq_true_iff]

section Reads

variable {gh : Gh} {α : Type} {read : GhWorld → α}

/-- The issues are as they were, and no call is undone. -/
def Kept (first second : GhWorld) : Prop :=
  second.tracker = first.tracker ∧ first.turn ≤ second.turn

instance : IsPreorder GhWorld Kept where
  refl _ := ⟨rfl, Nat.le_refl _⟩
  trans _ _ _ early late := ⟨late.1.trans early.1, early.2.trans late.2⟩

theorem askGh_reads (world : GhWorld) :
    Kept world (askGh gh read world).2 ∧ world.turn < (askGh gh read world).2.turn ∧
      ∀ value, (askGh gh read world).1 = .ok value → value = read world := by
  rw [askGh]
  cases gh.outcome world.turn with
  | done =>
      exact ⟨⟨rfl, Nat.le_succ _⟩, Nat.lt_succ_self _,
        fun value answered => (Except.ok.inj answered).symm⟩
  | failed stderr =>
      exact ⟨⟨rfl, Nat.le_succ _⟩, Nat.lt_succ_self _, fun value answered => by cases answered⟩
  | lost stderr =>
      exact ⟨⟨rfl, Nat.le_succ _⟩, Nat.lt_succ_self _, fun value answered => by cases answered⟩

/-- A call that reads leaves the issues as they are, and answers what is there at one of its
attempts. -/
theorem ghOutput_reads (left : Nat) : ∀ attempt world,
    Kept world (ghOutput gh read attempt left world).2 ∧
      ∀ value, (ghOutput gh read attempt left world).1 = .ok value →
        ∃ asked, Kept world asked ∧ asked.turn < (ghOutput gh read attempt left world).2.turn ∧
          value = read asked := by
  induction left with
  | zero =>
      intro _ world
      obtain ⟨kept, later, answers⟩ := @askGh_reads gh α read world
      exact ⟨kept, fun value answered => ⟨world, refl _, later, answers value answered⟩⟩
  | succ left ih =>
      intro attempt world
      obtain ⟨kept, later, answers⟩ := @askGh_reads gh α read world
      rw [ghOutput, Action.rescue_apply]
      rcases asked : askGh gh read world with ⟨error | value, reached⟩
      · rw [asked] at kept
        by_cases transient : error.stderr.any (isTransient gh.isDigit) = true
        · obtain ⟨same, given⟩ := ih (attempt + 1)
            { reached with slept := reached.slept ++ [5 * attempt] }
          simp only [if_pos transient]
          refine ⟨IsTrans.trans _ _ _ kept same, fun value answered => ?_⟩
          obtain ⟨held, since, before, found⟩ := given value answered
          exact ⟨held, IsTrans.trans _ _ _ kept since, before, found⟩
        · simp only [if_neg transient]
          exact ⟨kept, fun value answered => by cases answered⟩
      · rw [asked] at kept later answers
        exact ⟨kept, fun value answered => ⟨world, refl _, later, answers value answered⟩⟩

/-- The number found is that of an open issue of the title, where there is one. -/
theorem openIssueNumber_ok (laws : SearchLaws gh) {title : String} {world reached : GhWorld}
    {number : Option Nat} (run : openIssueNumber gh title world = (.ok number, reached)) :
    reached.tracker = world.tracker ∧
      (number = none ∧ openTitled title world.tracker = [] ∨
        ∃ issue ∈ openTitled title world.tracker, number = some issue.number) := by
  obtain ⟨issues, asked, asks, returns⟩ := Action.bind_ok_iff.mp run
  cases returns
  obtain ⟨kept, answers⟩ := @ghOutput_reads gh _
    (fun world => gh.search title world.tracker.issues) (ATTEMPTS - 1) 1 world
  rw [asks] at kept answers
  obtain ⟨held, same, -, found⟩ := answers issues rfl
  rw [same.1] at found
  refine ⟨kept.1, ?_⟩
  subst found
  rcases shown : (gh.search title world.tracker.issues).filter
      (fun issue => issue.title = title) with - | ⟨issue, others⟩
  · refine .inl ⟨by rw [shown]; rfl, List.filter_eq_nil_iff.mpr fun issue member => ?_⟩
    intro both
    rw [Bool.and_eq_true, decide_eq_true_iff] at both
    exact List.filter_eq_nil_iff.mp shown issue (laws.finds member both.1 both.2)
      (decide_eq_true both.2)
  · have member : issue ∈ (gh.search title world.tracker.issues).filter
        (fun issue => issue.title = title) := shown ▸ List.mem_cons_self
    obtain ⟨searched, titled⟩ := List.mem_filter.mp member
    obtain ⟨among, isOpen⟩ := laws.only searched
    exact .inr ⟨issue, mem_openTitled.mpr ⟨among, isOpen, of_decide_eq_true titled⟩,
      by rw [shown]; rfl⟩

end Reads

/-! ## What an effect does to the issues of a title -/

section Effects

variable {tracker : Tracker} {issue : TrackedIssue} {change : TrackedIssue → TrackedIssue}

theorem Tracker.WellFormed.same (wellFormed : tracker.WellFormed) {other : TrackedIssue}
    (member : issue ∈ tracker.issues) (member' : other ∈ tracker.issues)
    (number : issue.number = other.number) : issue = other :=
  List.inj_on_of_nodup_map wellFormed.numbers member member' number

theorem modify_wellFormed (change : TrackedIssue → TrackedIssue)
    (keeps : ∀ issue, (change issue).number = issue.number) (wellFormed : tracker.WellFormed)
    (number : Nat) :
    (tracker.modify number change).WellFormed := by
  have numbers : (tracker.modify number change).issues.map TrackedIssue.number =
      tracker.issues.map TrackedIssue.number := by
    rw [Tracker.modify, List.map_map]
    apply List.map_congr_left
    intro issue _
    show (if issue.number = number then change issue else issue).number = issue.number
    by_cases here : issue.number = number
    · rw [if_pos here, keeps]
    · rw [if_neg here]
  constructor
  · rw [numbers]
    exact wellFormed.numbers
  · intro issue member
    have among := numbers ▸ List.mem_map_of_mem member
    obtain ⟨before, was, same⟩ := List.mem_map.mp among
    rw [← same]
    exact wellFormed.given before was

theorem openTitled_modify_other {title : String} (wellFormed : tracker.WellFormed)
    (member : issue ∈ tracker.issues) (other : issue.title ≠ title)
    (keeps : ∀ issue, (change issue).title = issue.title) :
    openTitled title (tracker.modify issue.number change) = openTitled title tracker := by
  rw [openTitled, openTitled, Tracker.modify, List.filter_map]
  have rest : tracker.issues.filter ((fun issue => issue.isOpen && issue.title = title) ∘
      fun held => if held.number = issue.number then change held else held) =
      tracker.issues.filter fun issue => issue.isOpen && issue.title = title := by
    apply List.filter_congr
    intro held among
    show ((if held.number = issue.number then change held else held).isOpen &&
      decide ((if held.number = issue.number then change held else held).title = title)) = _
    by_cases here : held.number = issue.number
    · rw [wellFormed.same among member here, if_pos rfl, keeps, decide_eq_false other,
        Bool.and_false, Bool.and_false]
    · rw [if_neg here]
  rw [rest]
  conv_rhs => rw [← List.map_id (tracker.issues.filter _)]
  apply List.map_congr_left
  intro held among
  obtain ⟨held', -, titled⟩ := mem_openTitled.mp (show held ∈ openTitled title tracker from among)
  have elsewhere : held.number ≠ issue.number := by
    intro here
    exact other (wellFormed.same held' member here ▸ titled)
  exact if_neg elsewhere

theorem openTitled_modify {title : String} (one : openTitled title tracker = [issue])
    (keeps : ∀ issue, (change issue).title = issue.title)
    (opens : ∀ issue, (change issue).isOpen = true → issue.isOpen = true) :
    openTitled title (tracker.modify issue.number change) =
      [change issue].filter fun issue => issue.isOpen := by
  have kept : ∀ issues : List TrackedIssue,
      (issues.map fun held => if held.number = issue.number then change held else held).filter
        (fun issue => issue.isOpen && issue.title = title) =
      ((issues.filter fun issue => issue.isOpen && issue.title = title).map fun held =>
        if held.number = issue.number then change held else held).filter
          fun issue => issue.isOpen := by
    intro issues
    induction issues with
    | nil => rfl
    | cons held rest ih =>
        have same : ((if held.number = issue.number then change held else held).isOpen &&
            decide ((if held.number = issue.number then change held else held).title = title)) =
            ((held.isOpen && decide (held.title = title)) &&
              (if held.number = issue.number then change held else held).isOpen) := by
          by_cases here : held.number = issue.number
          · rw [if_pos here, keeps]
            cases changed : (change held).isOpen with
            | false => rw [Bool.false_and, Bool.and_false]
            | true => rw [opens held changed, Bool.true_and, Bool.and_true]
          · rw [if_neg here]
            cases held.isOpen <;> simp
        rw [List.map_cons, List.filter_cons, List.filter_cons, same]
        cases titled : (held.isOpen && decide (held.title = title)) with
        | false => rw [Bool.false_and, if_neg Bool.false_ne_true, if_neg Bool.false_ne_true, ih]
        | true =>
            rw [Bool.true_and, if_pos rfl, List.map_cons, List.filter_cons, ih]
  rw [openTitled, Tracker.modify, kept]
  have one' : tracker.issues.filter (fun issue => issue.isOpen && issue.title = title) = [issue] :=
    one
  rw [one', List.map_cons, if_pos rfl, List.map_nil]

theorem create_wellFormed (wellFormed : tracker.WellFormed) (title body : String) :
    (tracker.create title body).WellFormed := by
  constructor
  · rw [Tracker.create, List.map_append, List.nodup_append]
    refine ⟨wellFormed.numbers, by simp, ?_⟩
    intro number among other new
    obtain ⟨issue, member, rfl⟩ := List.mem_map.mp among
    have bound := wellFormed.given issue member
    simp only [List.map_cons, List.map_nil, List.mem_singleton] at new
    omega
  · intro issue member
    rcases List.mem_append.mp member with before | new
    · exact Nat.lt_succ_of_lt (wellFormed.given issue before)
    · rw [List.mem_singleton.mp new]
      exact Nat.lt_succ_self _

theorem openTitled_create (tracker : Tracker) (title body other : String) :
    openTitled other (tracker.create title body) =
      openTitled other tracker ++
        if title = other then [⟨tracker.next, title, body, true, []⟩] else [] := by
  rw [openTitled, Tracker.create, List.filter_append]
  by_cases same : title = other
  · rw [if_pos same, List.filter_cons, if_pos (by simp [same])]
    rfl
  · rw [if_neg same, List.filter_cons, if_neg (by simp [same])]
    rfl

end Effects

/-! ## One report -/

/-- What `_track` leaves, and whether it returned: nothing done, or the issue of the title
opened, edited or closed. -/
inductive Tracked (title : String) (body : Option String) (allClear : String) (before : Tracker) :
    Bool → Tracker → Prop where
  | kept : Tracked title body allClear before false before
  | clear (nothing : body = none) (none : openTitled title before = []) :
      Tracked title body allClear before true before
  | closed {issue : TrackedIssue} {ok : Bool} (nothing : body = none)
      (member : issue ∈ openTitled title before) :
      Tracked title body allClear before ok (before.close issue.number allClear)
  | created {text : String} {ok : Bool} (something : body = some text)
      (none : openTitled title before = []) :
      Tracked title body allClear before ok (before.create title text)
  | edited {issue : TrackedIssue} {text : String} {ok : Bool} (something : body = some text)
      (member : issue ∈ openTitled title before) :
      Tracked title body allClear before ok (before.edit issue.number text)

theorem runGh_cases (gh : Gh) (change : Tracker → Tracker) (world : GhWorld) :
    (runGh gh change world).2.tracker = change world.tracker ∨
      (runGh gh change world).2.tracker = world.tracker ∧
        (runGh gh change world).1.isOk = false := by
  rw [runGh]
  cases gh.outcome world.turn with
  | done => exact .inl rfl
  | failed stderr => exact .inr ⟨rfl, rfl⟩
  | lost stderr => exact .inl rfl

theorem act_tracked (gh : Gh) {title : String} (body : Option String) (allClear : String)
    {world : GhWorld} {number : Option Nat}
    (found : number = none ∧ openTitled title world.tracker = [] ∨
      ∃ issue ∈ openTitled title world.tracker, number = some issue.number) :
    Tracked title body allClear world.tracker (act gh title body allClear number world).1.isOk
      (act gh title body allClear number world).2.tracker := by
  have acted : ∀ change : Tracker → Tracker,
      (∀ ok, Tracked title body allClear world.tracker ok (change world.tracker)) →
      Tracked title body allClear world.tracker (runGh gh change world).1.isOk
        (runGh gh change world).2.tracker := by
    intro change changed
    rcases runGh_cases gh change world with done | ⟨undone, raised⟩
    · rw [done]
      exact changed _
    · rw [undone, raised]
      exact .kept
  rcases found with ⟨rfl, none⟩ | ⟨issue, member, rfl⟩
  · cases body with
    | none => exact .clear rfl none
    | some text => exact acted _ fun _ => .created rfl none
  · cases body with
    | none => exact acted _ fun _ => .closed rfl member
    | some text => exact acted _ fun _ => .edited rfl member

theorem track_tracked {gh : Gh} (laws : SearchLaws gh) (title : String) (body : Option String)
    (allClear : String) (world : GhWorld) :
    Tracked title body allClear world.tracker (track gh title body allClear world).1.isOk
      (track gh title body allClear world).2.tracker := by
  rw [track, Action.bind_apply]
  rcases asked : openIssueNumber gh title world with ⟨error | number, reached⟩
  · have same : reached.tracker = world.tracker := by
      rcases Action.bind_error_iff.mp asked with failed | ⟨_, _, _, returns⟩
      · have kept := (@ghOutput_reads gh _
          (fun world => gh.search title world.tracker.issues) (ATTEMPTS - 1) 1 world).1
        rw [failed] at kept
        exact kept.1
      · cases returns
    show Tracked title body allClear world.tracker false reached.tracker
    rw [same]
    exact .kept
  · obtain ⟨same, found⟩ := openIssueNumber_ok laws asked
    rw [← same] at found ⊢
    exact act_tracked gh body allClear found

theorem eq_singleton {title : String} {tracker : Tracker} {issue : TrackedIssue}
    (one : (openTitled title tracker).length ≤ 1) (member : issue ∈ openTitled title tracker) :
    openTitled title tracker = [issue] := by
  rcases shown : openTitled title tracker with - | ⟨first, rest⟩
  · rw [shown] at member
    cases member
  · rw [shown, List.length_cons] at one
    have alone : rest = [] := List.eq_nil_of_length_eq_zero (by omega)
    rw [shown, alone] at member
    rw [alone, List.mem_singleton.mp member]

theorem Tracked.other {title other allClear : String} {body : Option String}
    {before after : Tracker} {ok : Bool} (tracked : Tracked title body allClear before ok after)
    (wellFormed : before.WellFormed) (differ : title ≠ other) :
    openTitled other after = openTitled other before := by
  cases tracked with
  | kept => rfl
  | clear _ _ => rfl
  | closed _ member =>
      obtain ⟨among, -, titled⟩ := mem_openTitled.mp member
      exact openTitled_modify_other wellFormed among (titled ▸ differ) fun _ => rfl
  | created _ _ => rw [openTitled_create, if_neg differ, List.append_nil]
  | edited _ member =>
      obtain ⟨among, -, titled⟩ := mem_openTitled.mp member
      exact openTitled_modify_other wellFormed among (titled ▸ differ) fun _ => rfl

theorem Tracked.wellFormed {title allClear : String} {body : Option String}
    {before after : Tracker} {ok : Bool} (tracked : Tracked title body allClear before ok after)
    (wellFormed : before.WellFormed) : after.WellFormed := by
  cases tracked with
  | kept => exact wellFormed
  | clear _ _ => exact wellFormed
  | closed _ _ =>
      exact modify_wellFormed (fun issue =>
        { issue with isOpen := false, comments := issue.comments ++ [allClear] })
        (fun _ => rfl) wellFormed _
  | created _ _ => exact create_wellFormed wellFormed _ _
  | @edited _ text _ _ _ =>
      exact modify_wellFormed (fun issue => { issue with body := text }) (fun _ => rfl) wellFormed _

/-- The title has one open issue at most, and says the body where the report returned. -/
theorem Tracked.own {title allClear : String} {body : Option String} {before after : Tracker}
    {ok : Bool} (tracked : Tracked title body allClear before ok after)
    (one : (openTitled title before).length ≤ 1) :
    (openTitled title after).length ≤ 1 ∧
      (ok = true → (openTitled title after).map TrackedIssue.body = body.toList) := by
  cases tracked with
  | kept => exact ⟨one, fun ok => by cases ok⟩
  | clear nothing none =>
      subst nothing
      rw [none]
      exact ⟨Nat.zero_le 1, fun _ => rfl⟩
  | closed nothing member =>
      subst nothing
      have shown : openTitled title (before.close _ allClear) = [] :=
        openTitled_modify (eq_singleton one member) (fun _ => rfl) fun _ closed => by cases closed
      rw [shown]
      exact ⟨Nat.zero_le 1, fun _ => rfl⟩
  | created something none =>
      subst something
      rw [openTitled_create, none, if_pos rfl]
      exact ⟨Nat.le_refl 1, fun _ => rfl⟩
  | @edited issue text _ something member =>
      subst something
      obtain ⟨-, isOpen, -⟩ := mem_openTitled.mp member
      have shown : openTitled title (before.edit issue.number text) =
          [({ issue with body := text } : TrackedIssue)].filter fun issue => issue.isOpen :=
        openTitled_modify (eq_singleton one member) (fun _ => rfl) fun _ isOpen => isOpen
      rw [shown, List.filter_cons, if_pos isOpen]
      exact ⟨Nat.le_refl 1, fun _ => rfl⟩

/-! ## Runs -/

/-- A run of one of the scripts that reports under a title, or what others did between two: the
titles of which they closed the issue. -/
inductive TrackerEvent where
  | reported (title : String) (body : Option String) (returned : Bool)
  | elsewhere (closed : List String)
  deriving DecidableEq, Repr

/-- Others do as they like with their own issues, and may close these. -/
structure Elsewhere (titles closed : List String) (before after : Tracker) : Prop where
  wellFormed : before.WellFormed → after.WellFormed
  titled : ∀ title ∈ titles,
    openTitled title after = if title ∈ closed then [] else openTitled title before

inductive TrackerRun (gh : Gh) (titles : List String) :
    GhWorld → List TrackerEvent → GhWorld → Prop where
  | ended (world : GhWorld) : TrackerRun gh titles world [] world
  | reported {world final : GhWorld} {title : String} {body : Option String} {allClear : String}
      {events : List TrackerEvent} (known : title ∈ titles)
      (rest : TrackerRun gh titles (track gh title body allClear world).2 events final) :
      TrackerRun gh titles world
        (.reported title body (track gh title body allClear world).1.isOk :: events) final
  | elsewhere {world next final : GhWorld} {closed : List String} {events : List TrackerEvent}
      (others : Elsewhere titles closed world.tracker next.tracker)
      (rest : TrackerRun gh titles next events final) :
      TrackerRun gh titles world (.elsewhere closed :: events) final

/-- What an issue of the title says after an event, where that is known: a report that raised may
have been made or not. -/
def saidAfter (title : String) (said : Option (Option String)) :
    TrackerEvent → Option (Option String)
  | .reported other body returned =>
      if other = title then (if returned then some body else none) else said
  | .elsewhere closed => if title ∈ closed then some none else said

/-- However the calls of `gh` end and whatever others do between the runs, each title has one
open issue at most, and where the last report under it returned the open issue says its body, or
there is none where it had nothing to say. -/
theorem trackerRun_reported {gh : Gh} (laws : SearchLaws gh) {titles : List String}
    {world final : GhWorld} {events : List TrackerEvent}
    (wellFormed : world.tracker.WellFormed)
    (ones : ∀ title ∈ titles, (openTitled title world.tracker).length ≤ 1)
    (run : TrackerRun gh titles world events final) :
    ∀ title ∈ titles, (openTitled title final.tracker).length ≤ 1 ∧
      ∀ body, events.foldl (saidAfter title) none = some body →
        (openTitled title final.tracker).map TrackedIssue.body = body.toList := by
  intro title known
  -- said of the titles so far, whatever was said before the run
  have kept : ∀ said : Option (Option String),
      (∀ body, said = some body →
        (openTitled title world.tracker).map TrackedIssue.body = body.toList) →
      (openTitled title final.tracker).length ≤ 1 ∧
        ∀ body, events.foldl (saidAfter title) said = some body →
          (openTitled title final.tracker).map TrackedIssue.body = body.toList := by
    induction run with
    | ended world => exact fun said true => ⟨ones title known, true⟩
    | @reported world final other body allClear events among rest ih =>
        intro said true
        have tracked := track_tracked laws other body allClear world
        have formed := tracked.wellFormed wellFormed
        have own := tracked.own (ones other among)
        apply ih formed
        · intro third member
          by_cases same : other = third
          · exact same ▸ own.1
          · rw [tracked.other wellFormed same]
            exact ones third member
        · intro text told
          rw [saidAfter] at told
          by_cases same : other = title
          · rw [if_pos same] at told
            subst same
            cases returned : (track gh other body allClear world).1.isOk with
            | false =>
                rw [returned] at told
                cases told
            | true =>
                rw [returned] at told
                cases told
                exact own.2 returned
          · rw [if_neg same] at told
            rw [tracked.other wellFormed same]
            exact true text told
    | @elsewhere world next final closed events others rest ih =>
        intro said true
        apply ih (others.wellFormed wellFormed)
        · intro third member
          rw [others.titled third member]
          split
          · exact Nat.zero_le 1
          · exact ones third member
        · intro text told
          rw [others.titled title known]
          rw [saidAfter] at told
          by_cases shut : title ∈ closed
          · rw [if_pos shut] at told ⊢
            cases told
            rfl
          · rw [if_neg shut] at told ⊢
            exact true text told
  exact kept none fun body nothing => by cases nothing

def flakyGh : Gh where
  outcome turn := if turn = 0 then .failed "gh: HTTP 502".toList else .done
  search _ issues := issues.filter TrackedIssue.isOpen
  isDigit := Char.isDigit

theorem flakyGh_laws : SearchLaws flakyGh where
  finds member isOpen _ := List.mem_filter.mpr ⟨member, isOpen⟩
  only member := List.mem_filter.mp member

def noIssues : GhWorld := ⟨⟨[], 1⟩, 0, [], []⟩

theorem noIssues_wellFormed : noIssues.tracker.WellFormed :=
  ⟨List.nodup_nil, fun _ member => absurd member List.not_mem_nil⟩

def behindReported : GhWorld := (track flakyGh "pins" (some "one is behind") "" noIssues).2

theorem trackerRun_reported_cleared :
    openTitled "pins" (track flakyGh "pins" none "all are at their tips" behindReported).2.tracker =
      [] := by
  have run : TrackerRun flakyGh ["pins", "census"] noIssues
      [.reported "pins" (some "one is behind") true, .reported "pins" none true]
      (track flakyGh "pins" none "all are at their tips" behindReported).2 :=
    .reported (by decide) (.reported (by decide) (.ended _))
  have told := (trackerRun_reported flakyGh_laws noIssues_wellFormed (fun _ _ => Nat.zero_le 1) run
    "pins" (by decide)).2 none rfl
  exact List.map_eq_nil_iff.mp told

end BitcoinNodeTests.Census
