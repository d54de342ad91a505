import Mathlib.Data.List.ReduceOption
import BitcoinNodeTests.Census.Readings
import BitcoinNodeTests.Vendored.Entries

/-!
# The drift of a ledger's pins

`find_drift` asks for the tip of each pinned path, one call after another, and `report` opens,
edits or closes an issue.  The issue is the first that a search for the title finds, whatever
its own title: what is reported is right where that issue has the title, and only there are
the issues of other titles left alone.
-/

set_option autoImplicit false

namespace BitcoinNodeTests.Vendored

open Foundation
open Census (ATTEMPTS Gh GhAction GhWorld Kept Later Says SearchLaws TrackedIssue Tracked Tracker
  act ghOutput inTicks mem_openTitled openTitled print)

structure Drift where
  entry : Entry
  latestCommit : Text
  latestDate : Text
  deriving DecidableEq, Repr

def Drift.hasNoTip (drift : Drift) : Bool := decide (drift.latestCommit = [])

/-- The last commit that touches a path of a repository, from a branch of it on and with its
date, at the time of a call. -/
structure History where
  latest : Nat → Text → Text → Option Text → Option (Text × Text)

/-- `str(Path(text))`: an empty part and a dot go, and of the slashes it opens with one stays, or
two of just two. -/
def pathText (text : Text) : Text :=
  let parts := (Text.split ['/'] text).filter fun part => decide (part ∉ [[], ['.']])
  let root := match text with
    | '/' :: '/' :: '/' :: _ => ['/']
    | '/' :: '/' :: _ => ['/', '/']
    | '/' :: _ => ['/']
    | _ => []
  if root = [] ∧ parts = [] then ['.'] else root ++ ['/'].intercalate parts

section Reading

variable (gh : Gh) (history : History)

def latestCommit (repo path : Text) (ref : Option Text) : GhAction (Option (Text × Text)) := do
  let commit ← ghOutput gh (fun world => history.latest world.turn repo path ref) 1 (ATTEMPTS - 1)
  pure (commit.map fun (sha, date) => (sha, date.take 10))

def driftOf (entry : Entry) : Option (Text × Text) → Option Drift
  | none => some ⟨entry, [], []⟩
  | some latest => if latest.1 ≠ entry.commit then some ⟨entry, latest.1, latest.2⟩ else none

def driftedOf : List Entry → GhAction (List Drift)
  | [] => pure []
  | entry :: rest => do
      let latest ← latestCommit gh history entry.repo entry.path entry.ref
      let drifted ← driftedOf rest
      pure ((driftOf entry latest).toList ++ drifted)

def findDrift (files : Text → Option Text) (ledgerPath : Text) :
    GhAction (List Drift × List Text) :=
  match files ledgerPath with
  | none => Action.raise (.noFile (String.ofList ledgerPath))
  | some ledger =>
      match entriesAtTip ledger with
      | .error _ => Action.raise .index
      | .ok (entries, skipped) => do
          let drifted ← driftedOf gh history entries
          pure (drifted, skipped)

end Reading

def branch (entry : Entry) : String :=
  match entry.ref with
  | none | some [] => "the default branch"
  | some ref => inTicks ref

def Drift.line (drift : Drift) : String :=
  if drift.hasNoTip then
    "- **" ++ String.ofList drift.entry.heading ++ "**: pinned to " ++
      inTicks drift.entry.commit ++ ", and no commit on " ++ branch drift.entry ++ " of " ++
      inTicks drift.entry.repo ++ " touches " ++ inTicks drift.entry.path ++
      " -- a path that branch never held"
  else
    "- **" ++ String.ofList drift.entry.heading ++ "**: pinned to " ++
      inTicks drift.entry.commit ++ ", the latest commit touching " ++ inTicks drift.entry.path ++
      " is now " ++ inTicks drift.latestCommit ++ " (" ++ String.ofList drift.latestDate ++ "), " ++
      inTicks drift.entry.repo ++
      " -- which may have deleted or renamed the file rather than changed it"

def issueBody (ledgerPath : Text) (drifted : List Drift) (skipped : List Text) : String :=
  "\n".intercalate <|
    [inTicks ledgerPath ++ " pins below are no longer at upstream's tip.",
      "Refreshing is a decision, not a chore -- this issue only reports it.",
      ""] ++
    drifted.map Drift.line ++
    if skipped = [] then []
    else "" :: "Not checked by this run, for the reason named:" ::
      skipped.map fun heading => "- " ++ String.ofList heading

def openIssueNumber (gh : Gh) (title : String) : GhAction (Option Nat) := do
  let issues ← ghOutput gh (fun world => gh.search title world.tracker.issues) 1 (ATTEMPTS - 1)
  pure (issues.head?.map TrackedIssue.number)

def bodyOf (ledgerPath : Text) (drifted : List Drift) (skipped : List Text) : Option String :=
  if drifted = [] then none else some (issueBody ledgerPath drifted skipped)

def ALL_CLEAR : String := "Re-checked: every pin with behind: 0 is still at upstream's tip."

def report (gh : Gh) (ledgerPath : Text) (title : String) (drifted : List Drift)
    (skipped : List Text) : GhAction Unit := do
  let number ← openIssueNumber gh title
  act gh title (bodyOf ledgerPath drifted skipped) ALL_CLEAR number

def Drift.printed (drift : Drift) : String :=
  if drift.hasNoTip then
    "NO COMMIT: " ++ String.ofList drift.entry.heading ++ " pinned to " ++
      String.ofList drift.entry.commit ++ ", and no commit on " ++ branch drift.entry ++ " of " ++
      String.ofList drift.entry.repo ++ " touches " ++ String.ofList drift.entry.path
  else
    "BEHIND: " ++ String.ofList drift.entry.heading ++ " pinned to " ++
      String.ofList drift.entry.commit ++ ", latest commit touching it is " ++
      String.ofList drift.latestCommit ++ " (" ++ String.ofList drift.latestDate ++
      "), which may have deleted or renamed it"

def linesOf (drifted : List Drift) (skipped : List Text) : List String :=
  drifted.map Drift.printed ++ skipped.map (fun heading => "SKIPPED: " ++ String.ofList heading) ++
    if drifted = [] then ["Every checked pin is still at upstream's tip."] else []

def main (gh : Gh) (history : History) (files : Text → Option Text) (argv : List String) :
    GhAction Nat :=
  match argv.filter (· ≠ "--dry-run") with
  | [path, title] => do
      let ledgerPath := pathText path.toList
      let (drifted, skipped) ← findDrift gh history files ledgerPath
      print (linesOf drifted skipped)
      if "--dry-run" ∈ argv then pure () else report gh ledgerPath title drifted skipped
      pure 0
  | _ => pure 2

/-! ## What a reading gives -/

def History.driftAt (history : History) (turn : Nat) (entry : Entry) : Option Drift :=
  driftOf entry ((history.latest turn entry.repo entry.path entry.ref).map
    fun (sha, date) => (sha, date.take 10))

/-- One call after another from a turn on, all before another turn. -/
structure InTurn (first last : Nat) (turns : List Nat) : Prop where
  ordered : turns.Pairwise (· < ·)
  since : ∀ turn ∈ turns, first ≤ turn
  before : ∀ turn ∈ turns, turn < last

structure Quiet (first second : GhWorld) : Prop where
  kept : Kept first second
  printed : second.printed = first.printed

instance : IsPreorder GhWorld Quiet where
  refl world := ⟨Std.Refl.refl world, rfl⟩
  trans _ _ _ early late :=
    ⟨IsTrans.trans _ _ _ early.kept late.kept, late.printed.trans early.printed⟩

section Gives

variable {gh : Gh} {history : History} {world reached : GhWorld}

theorem ghOutput_quiet {α : Type} (read : GhWorld → α) (left : Nat) :
    ∀ attempt, Action.Moves Quiet (ghOutput gh read attempt left) := by
  have asks : Action.Moves Quiet (Census.askGh gh read) := by
    intro world
    refine ⟨(Census.askGh_reads world).1, ?_⟩
    rw [Census.askGh]
    cases gh.outcome world.turn with
    | done => rfl
    | failed stderr => rfl
    | lost stderr => rfl
  induction left with
  | zero => exact fun _ => asks
  | succ left ih =>
      intro attempt
      refine asks.rescue fun error => ?_
      split
      · refine Action.Moves.bind (fun world => ⟨⟨rfl, Nat.le_refl _⟩, rfl⟩) fun _ => ?_
        exact ih (attempt + 1)
      · exact Action.Moves.unchanged fun _ => rfl

/-- What was answered was there at a call of its own. -/
theorem ghOutput_ok {α : Type} {read : GhWorld → α} {value : α}
    (run : ghOutput gh read 1 (ATTEMPTS - 1) world = (.ok value, reached)) :
    Quiet world reached ∧
      ∃ held, Kept world held ∧ held.turn < reached.turn ∧ value = read held := by
  obtain ⟨-, answers⟩ := @Census.ghOutput_reads gh α read (ATTEMPTS - 1) 1 world
  rw [run] at answers
  exact ⟨(ghOutput_quiet _ _ _).of_run run, answers value rfl⟩

theorem latestCommit_ok {entry : Entry} {latest : Option (Text × Text)}
    (run : latestCommit gh history entry.repo entry.path entry.ref world = (.ok latest, reached)) :
    Quiet world reached ∧ ∃ turn, world.turn ≤ turn ∧ turn < reached.turn ∧
      driftOf entry latest = history.driftAt turn entry := by
  obtain ⟨commit, asked, asks, returns⟩ := Action.bind_ok_iff.mp run
  cases returns
  obtain ⟨quiet, held, since, before, found⟩ := ghOutput_ok asks
  exact ⟨quiet, held.turn, since.2, before, by rw [found, History.driftAt]⟩

/-- Each entry is held to the tip of its path at a call of its own. -/
theorem driftedOf_ok {entries : List Entry} : ∀ {world reached : GhWorld} {drifted : List Drift},
    driftedOf gh history entries world = (.ok drifted, reached) →
    Quiet world reached ∧ ∃ turns, InTurn world.turn reached.turn turns ∧
      turns.length = entries.length ∧
      drifted = (List.zipWith history.driftAt turns entries).reduceOption := by
  induction entries with
  | nil =>
      intro world reached drifted run
      cases run
      have none : InTurn world.turn world.turn [] :=
        ⟨List.Pairwise.nil, fun _ member => absurd member List.not_mem_nil,
          fun _ member => absurd member List.not_mem_nil⟩
      exact ⟨Std.Refl.refl _, [], none, rfl, rfl⟩
  | cons entry rest ih =>
      intro world reached drifted run
      obtain ⟨latest, asked, asks, run⟩ := Action.bind_ok_iff.mp run
      obtain ⟨later, walked, walks, returns⟩ := Action.bind_ok_iff.mp run
      cases returns
      obtain ⟨quiet, turn, since, before, drift⟩ := latestCommit_ok asks
      obtain ⟨quiet', turns, inTurn, sized, rest'⟩ := ih walks
      have passed : asked.turn ≤ reached.turn := quiet'.kept.2
      refine ⟨IsTrans.trans _ _ _ quiet quiet', turn :: turns, ⟨?_, ?_, ?_⟩, ?_, ?_⟩
      · refine List.pairwise_cons.mpr ⟨fun next member => ?_, inTurn.ordered⟩
        have := inTurn.since next member
        omega
      · refine List.forall_mem_cons.mpr ⟨since, fun next member => ?_⟩
        have := inTurn.since next member
        omega
      · refine List.forall_mem_cons.mpr ⟨?_, inTurn.before⟩
        omega
      · rw [List.length_cons, List.length_cons, sized]
      · rw [drift, rest', List.zipWith_cons_cons]
        cases history.driftAt turn entry with
        | none => rfl
        | some drift => rfl

theorem findDrift_ok {files : Text → Option Text} {ledgerPath : Text} {drifted : List Drift}
    {skipped : List Text}
    (run : findDrift gh history files ledgerPath world = (.ok (drifted, skipped), reached)) :
    ∃ ledger entries, files ledgerPath = some ledger ∧
      entriesAtTip ledger = .ok (entries, skipped) ∧
      driftedOf gh history entries world = (.ok drifted, reached) := by
  rw [findDrift] at run
  cases held : files ledgerPath with
  | none =>
      rw [held] at run
      cases run
  | some ledger =>
      rw [held] at run
      cases read : entriesAtTip ledger with
      | error error =>
          simp only [read] at run
          cases run
      | ok pair =>
          obtain ⟨entries, given⟩ := pair
          simp only [read] at run
          obtain ⟨found, walked, walks, returns⟩ := Action.bind_ok_iff.mp run
          cases returns
          exact ⟨ledger, entries, rfl, read, walks⟩

end Gives

/-! ## What a report does -/

/-- The first issue found for a title, where one is found, has the title. -/
def FindsOwn (gh : Gh) (title : String) (tracker : Tracker) : Prop :=
  ∀ issue ∈ (gh.search title tracker.issues).head?, issue.title = title

section Reports

variable {gh : Gh} {world final : GhWorld}

theorem openIssueNumber_ok {title : String} {number : Option Nat}
    (run : openIssueNumber gh title world = (.ok number, final)) :
    Quiet world final ∧
      number = (gh.search title world.tracker.issues).head?.map TrackedIssue.number := by
  obtain ⟨issues, asked, asks, returns⟩ := Action.bind_ok_iff.mp run
  cases returns
  obtain ⟨quiet, held, since, -, found⟩ := ghOutput_ok asks
  refine ⟨quiet, ?_⟩
  rw [found, since.1]

theorem act_printed (title allClear : String) (body : Option String) (number : Option Nat)
    (world : GhWorld) : (act gh title body allClear number world).2.printed = world.printed := by
  have runs : ∀ change, (Census.runGh gh change world).2.printed = world.printed := by
    intro change
    rw [Census.runGh]
    cases gh.outcome world.turn with
    | done => rfl
    | failed stderr => rfl
    | lost stderr => rfl
  cases number with
  | none =>
      cases body with
      | none => rfl
      | some text => exact runs _
  | some number =>
      cases body with
      | none => exact runs _
      | some text => exact runs _

theorem runGh_ok {change : Tracker → Tracker}
    (run : Census.runGh gh change world = (.ok (), final)) :
    final.tracker = change world.tracker := by
  rcases Census.runGh_cases gh change world with done | ⟨-, raised⟩
  · rw [run] at done
    exact done
  · rw [run] at raised
    cases raised

/-- A report finds one issue, and changes that one or opens another. -/
theorem report_ok {ledgerPath : Text} {title : String} {drifted : List Drift}
    {skipped : List Text}
    (run : report gh ledgerPath title drifted skipped world = (.ok (), final)) :
    ∃ asked : GhWorld, asked.tracker = world.tracker ∧
      act gh title (bodyOf ledgerPath drifted skipped) ALL_CLEAR
        ((gh.search title world.tracker.issues).head?.map TrackedIssue.number) asked =
          (.ok (), final) := by
  obtain ⟨number, asked, asks, acts⟩ := Action.bind_ok_iff.mp run
  obtain ⟨quiet, rfl⟩ := openIssueNumber_ok asks
  exact ⟨asked, quiet.kept.1, acts⟩

/-- A report undoes no call and prints nothing. -/
theorem report_later {ledgerPath : Text} {title : String} {drifted : List Drift}
    {skipped : List Text}
    (run : report gh ledgerPath title drifted skipped world = (.ok (), final)) :
    world.turn ≤ final.turn ∧ final.printed = world.printed := by
  obtain ⟨number, asked, asks, acts⟩ := Action.bind_ok_iff.mp run
  obtain ⟨quiet, -⟩ := openIssueNumber_ok asks
  have asked_le : world.turn ≤ asked.turn := quiet.kept.2
  have later : asked.turn ≤ final.turn := (Census.act_later _ _ _ number).of_run acts
  have printed := @act_printed gh title ALL_CLEAR (bodyOf ledgerPath drifted skipped) number asked
  rw [acts] at printed
  exact ⟨Nat.le_trans asked_le later, printed.trans quiet.printed⟩

/-- Where the first issue found has the title, a report that returned opened, edited or closed
an issue of the title. -/
theorem report_tracked (laws : SearchLaws gh) {ledgerPath : Text} {title : String}
    {drifted : List Drift} {skipped : List Text} (own : FindsOwn gh title world.tracker)
    (run : report gh ledgerPath title drifted skipped world = (.ok (), final)) :
    Tracked title (bodyOf ledgerPath drifted skipped) ALL_CLEAR world.tracker true
      final.tracker := by
  obtain ⟨asked, same, acts⟩ := report_ok run
  have titled : (gh.search title world.tracker.issues).head?.map TrackedIssue.number = none ∧
      openTitled title asked.tracker = [] ∨ ∃ issue ∈ openTitled title asked.tracker,
        (gh.search title world.tracker.issues).head?.map TrackedIssue.number =
          some issue.number := by
    rw [same]
    rcases shown : gh.search title world.tracker.issues with - | ⟨issue, others⟩
    · refine .inl ⟨rfl, List.eq_nil_iff_forall_not_mem.mpr fun issue member => ?_⟩
      obtain ⟨among, isOpen, titled⟩ := mem_openTitled.mp member
      have searched := laws.finds among isOpen titled
      rw [shown] at searched
      cases searched
    · have searched : issue ∈ gh.search title world.tracker.issues := shown ▸ List.mem_cons_self
      obtain ⟨among, isOpen⟩ := laws.only searched
      have titled := own issue (by rw [shown]; rfl)
      exact .inr ⟨issue, mem_openTitled.mpr ⟨among, isOpen, titled⟩, rfl⟩
  have tracked := Census.act_tracked gh (bodyOf ledgerPath drifted skipped) ALL_CLEAR titled
  rw [acts, same] at tracked
  exact tracked

theorem modify_same {tracker : Tracker} {issue : TrackedIssue}
    {change : TrackedIssue → TrackedIssue}
    (wellFormed : tracker.WellFormed) (member : issue ∈ tracker.issues)
    (same : change issue = issue) : tracker.modify issue.number change = tracker := by
  have issues : (tracker.issues.map fun held =>
      if held.number = issue.number then change held else held) = tracker.issues := by
    conv_rhs => rw [← List.map_id tracker.issues]
    apply List.map_congr_left
    intro held among
    by_cases here : held.number = issue.number
    · rw [if_pos here, wellFormed.same among member here, same]
      rfl
    · exact if_neg here
  rw [Tracker.modify, issues]

theorem modify_kept {tracker : Tracker} {issue : TrackedIssue}
    {change : TrackedIssue → TrackedIssue} (wellFormed : tracker.WellFormed)
    (member : issue ∈ tracker.issues) (kept : issue ∈ (tracker.modify issue.number change).issues) :
    change issue = issue := by
  obtain ⟨held, among, changed⟩ := List.mem_map.mp kept
  by_cases here : held.number = issue.number
  · rw [if_pos here] at changed
    rw [wellFormed.same among member here] at changed
    exact changed
  · rw [if_neg here] at changed
    exact absurd (congrArg TrackedIssue.number changed) here

/-- A report that returned left the open issues of other titles alone exactly where the first
issue its search finds has the title, if it finds one, or is edited to what it says already. -/
theorem report_owns_iff (laws : SearchLaws gh) (wellFormed : world.tracker.WellFormed)
    {ledgerPath : Text} {title : String} {drifted : List Drift} {skipped : List Text}
    (run : report gh ledgerPath title drifted skipped world = (.ok (), final)) :
    (∀ other, other ≠ title →
      openTitled other final.tracker = openTitled other world.tracker) ↔
    ∀ issue ∈ (gh.search title world.tracker.issues).head?,
      issue.title = title ∨ bodyOf ledgerPath drifted skipped = some issue.body := by
  constructor
  · intro alone issue first
    by_contra neither
    rw [not_or] at neither
    obtain ⟨differs, unsaid⟩ := neither
    obtain ⟨asked, same, acts⟩ := report_ok run
    rw [Option.mem_def] at first
    rw [first, Option.map_some] at acts
    have searched : issue ∈ gh.search title world.tracker.issues := List.mem_of_head? first
    obtain ⟨among, isOpen⟩ := laws.only searched
    have shown : issue ∈ openTitled issue.title final.tracker := by
      rw [alone issue.title differs]
      exact mem_openTitled.mpr ⟨among, isOpen, rfl⟩
    obtain ⟨kept, -, -⟩ := mem_openTitled.mp shown
    cases body : bodyOf ledgerPath drifted skipped with
    | none =>
        rw [body] at acts
        have closed := runGh_ok acts
        rw [same] at closed
        rw [closed] at kept
        have unchanged := modify_kept wellFormed among kept
        rw [← unchanged] at isOpen
        cases isOpen
    | some text =>
        rw [body] at acts unsaid
        have edited := runGh_ok acts
        rw [same] at edited
        rw [edited] at kept
        have unchanged := modify_kept wellFormed among kept
        exact unsaid (congrArg some (congrArg TrackedIssue.body unchanged))
  · intro own other differs
    rcases found : (gh.search title world.tracker.issues).head? with - | issue
    · have finds : FindsOwn gh title world.tracker := by
        intro issue first
        rw [found] at first
        cases first
      exact (report_tracked laws finds run).other wellFormed (Ne.symm differs)
    rcases own issue found with titled | said
    · have finds : FindsOwn gh title world.tracker := by
        intro third first
        rw [found] at first
        cases first
        exact titled
      exact (report_tracked laws finds run).other wellFormed (Ne.symm differs)
    · obtain ⟨asked, same, acts⟩ := report_ok run
      rw [found, said, Option.map_some] at acts
      have edited := runGh_ok acts
      obtain ⟨among, -⟩ := laws.only (List.mem_of_head? found)
      have unchanged : world.tracker.edit issue.number issue.body = world.tracker :=
        modify_same wellFormed among rfl
      rw [same, unchanged] at edited
      rw [edited]

end Reports

/-- A report that says where nothing has drifted that this is so, under a part of the title of
an issue that is another's. -/
def shortTitle : GhWorld :=
  ⟨⟨[⟨7, "TF2.md pins behind upstream", "one is behind", true, []⟩], 8⟩, 1, [], []⟩

theorem shortTitle_wellFormed : shortTitle.tracker.WellFormed :=
  ⟨by decide, fun issue member => by
    rw [List.mem_singleton.mp member]
    decide⟩

theorem report_owns_iff_short :
    ∃ other, other ≠ "TF2.md pins" ∧
      openTitled other (report Census.flakyGh "TF2.md".toList "TF2.md pins" [] []
        shortTitle).2.tracker ≠ openTitled other shortTitle.tracker := by
  have returns : (report Census.flakyGh "TF2.md".toList "TF2.md pins" [] [] shortTitle).1 =
      .ok () := by decide +kernel
  obtain ⟨final, run⟩ := Action.run_of_result returns
  by_contra none
  push Not at none
  rw [run] at none
  have own := (report_owns_iff Census.flakyGh_laws shortTitle_wellFormed run).mp none
    ⟨7, "TF2.md pins behind upstream", "one is behind", true, []⟩ rfl
  revert own
  decide

/-! ## A run -/

section Runs

variable {gh : Gh} {history : History} {files : Text → Option Text} {argv : List String}
  {world final : GhWorld}

end Runs

def onePin : Text :=
  "### key.py\n```text\nrepo a/b\npath key.py\ncommit abc\nbehind 0\n```\n".toList

def movedOn : History where
  latest _ _ _ _ := some ("def".toList, "2026-10-04T00:00:00Z".toList)

/-- A tracker in which an older report is open, and an issue of a title that has its in it. -/
def pinsOpen : GhWorld :=
  ⟨⟨[⟨7, "pins", "one is behind", true, []⟩, ⟨5, "TF2.md pins", "two are", true, []⟩], 8⟩,
    0, [], []⟩

theorem pinsOpen_wellFormed : pinsOpen.tracker.WellFormed := ⟨by decide, by decide⟩

end BitcoinNodeTests.Vendored
