import Mathlib.Data.Char
import Mathlib.Data.List.Dedup
import Mathlib.Data.List.Lex
import Mathlib.Data.List.Sort
import BitcoinNodeTests.Census.Issues

/-!
# The census of the ledger

`main` reads the files of upstream's `test_framework` and the last commit of each Core test file
at one commit, holds both to the ledger, and reports each reading under a title of its own.
Where it returns, neither title has an open issue that the ledger gives no cause for.
-/

set_option autoImplicit false

namespace BitcoinNodeTests.Census

open Foundation

structure TreeEntry where
  path : Text
  type : Text
  deriving DecidableEq, Repr

structure Tree where
  truncated : Bool
  entries : List TreeEntry
  deriving DecidableEq, Repr

/-- The upstream repository: the commit its default branch is at when a call is made, and what
is read at a commit, which nobody changes. -/
structure Upstream where
  tip : Nat → Text
  tree : Text → Tree
  latest : Text → Text → Option (Text × Text)
  compare : Text → Text → Text

def UPSTREAM_DIR : Text := "test/functional/test_framework".toList

def TESTS_DIR : Text := "test/functional".toList

def IN_PIN_HISTORY : List Text := ["identical".toList, "behind".toList]

structure Drift where
  path : Text
  pin : Pin
  tip : Option (Text × Text)
  deriving DecidableEq, Repr

def HEADING_OPENS : Text := "### `".toList ++ UPSTREAM_DIR ++ ['/']

/-- What `_HEADING` matches at the start of a line, its group, which may break lines. -/
def headingAt (text : Text) : Option Text :=
  if HEADING_OPENS.isPrefixOf text then
    let path := (text.drop HEADING_OPENS.length).takeWhile (· ≠ '`')
    match (text.drop HEADING_OPENS.length).drop path.length with
    | '`' :: rest =>
        if path ≠ [] ∧ (rest = [] ∨ rest.head? = some '\n') then some path else none
    | _ => none
  else none

/-- `_HEADING.findall`: a match that began inside another would have to open with its closing
backtick, so none is passed over. -/
def headingsFrom (lineStart : Bool) : Text → List Text
  | [] => []
  | char :: rest =>
      (if lineStart then (headingAt (char :: rest)).toList else []) ++
        headingsFrom (char = '\n') rest

def ledgerEntries (ledgerText : Text) : List Text := headingsFrom true ledgerText

section Reading

variable (gh : Gh) (upstream : Upstream)

def defaultBranchTip : GhAction Text := do
  let answer ← ghOutput gh (fun world => upstream.tip world.turn) 1 (ATTEMPTS - 1)
  pure (Text.strip Text.isSpace answer)

def sortedPaths (paths : List Text) : List Text := paths.insertionSort (· ≤ ·)

def pythonFiles (directory : Text) (entries : List TreeEntry) : List Text :=
  (entries.filter fun entry =>
    decide (entry.type = "blob".toList) && (directory ++ ['/']).isPrefixOf entry.path &&
      ".py".toList.isSuffixOf entry.path).map fun entry =>
    entry.path.drop (directory ++ ['/']).length

def upstreamPythonFiles (directory sha : Text) : GhAction (List Text) := do
  let tree ← ghOutput gh (fun _ => upstream.tree sha) 1 (ATTEMPTS - 1)
  if tree.truncated then Action.raise (.truncated sha)
  else pure (sortedPaths (pythonFiles directory tree.entries))

def latestCommit (path sha : Text) : GhAction (Option (Text × Text)) := do
  let commit ← ghOutput gh (fun _ => upstream.latest path sha) 1 (ATTEMPTS - 1)
  pure (commit.map fun (commit, date) => (commit, date.take 10))

def inPinHistory (pin commit : Text) : GhAction Bool := do
  let status ← ghOutput gh (fun _ => upstream.compare pin commit) 1 (ATTEMPTS - 1)
  pure (decide (Text.strip Text.isSpace status ∈ IN_PIN_HISTORY))

def isCurrent (pin : Pin) : Option (Text × Text) → GhAction Bool
  | none => pure false
  | some tip =>
      if pin.sha.isPrefixOf tip.1 then pure true else inPinHistory gh upstream pin.sha tip.1

def pinDrift (sha : Text) : List (Text × Pin) → GhAction (List Drift)
  | [] => pure []
  | (path, pin) :: rest => do
      let tip ← latestCommit gh upstream (TESTS_DIR ++ '/' :: path) sha
      let current ← isCurrent gh upstream pin tip
      let drift ← pinDrift sha rest
      pure (if current then drift else ⟨path, pin, tip⟩ :: drift)

end Reading

def sortedPins (pins : Dict Text Pin) : List (Text × Pin) :=
  pins.entries.insertionSort fun first second => first.1 ≤ second.1

/-! ## The reports -/

def inTicks (text : Text) : String := "`" ++ String.ofList text ++ "`"

def short (sha : Text) : Text := sha.take 12

def issueBody (sha : Text) (gained removed : List Text) : String :=
  "\n".intercalate <|
    ["`test/functional/test_framework/` at `bitcoin/bitcoin@" ++ String.ofList (short sha) ++ "`",
      "disagrees with `TF2.md`'s own census. Deciding an entry for a",
      "gained file, or removing one for a file upstream no longer has,",
      "is not this report's to do.",
      ""] ++
    (if gained = [] then []
      else "Gained upstream, no entry in TF2.md:" ::
        gained.map (fun path => "- " ++ inTicks path) ++ [""]) ++
    (if removed = [] then []
      else "An entry in TF2.md, gone from upstream:" ::
        removed.map fun path => "- " ++ inTicks path)

def Drift.line (drift : Drift) : String :=
  let tip := match drift.tip with
    | some tip => inTicks (short tip.1) ++ " (" ++ String.ofList tip.2 ++ ")"
    | none => "no commit"
  inTicks drift.path ++ ": " ++ inTicks drift.pin.sha ++ " -> " ++ tip

def pinsIssueBody (sha : Text) (behind : List Drift) (stale : List Text) : String :=
  "\n".intercalate <|
    ["`TF2.md`'s per-test ledger, read at `bitcoin/bitcoin@" ++ String.ofList (short sha) ++ "`.",
      "Moving a pin means reading its port against the new revision",
      "first, which is not this report's to do.",
      ""] ++
    (if behind = [] then []
      else "Behind the path's last commit upstream:" ::
        behind.map (fun drift => "- " ++ drift.line) ++ [""]) ++
    (if stale = [] then []
      else "Marked `held`, and at the path's last commit upstream:" ::
        stale.map fun path => "- " ++ inTicks path)

def report (gh : Gh) (title : String) (sha : Text) (gained removed : List Text) :
    GhAction Unit :=
  track gh title
    (if gained = [] ∧ removed = [] then none else some (issueBody sha gained removed))
    ("Re-read at " ++ inTicks (short sha) ++ ": TF2.md's census agrees with upstream.")

def reportPins (gh : Gh) (title : String) (sha : Text) (behind : List Drift) (stale : List Text) :
    GhAction Unit :=
  track gh title
    (if behind = [] ∧ stale = [] then none else some (pinsIssueBody sha behind stale))
    ("Re-read at " ++ inTicks (short sha) ++
      ": every per-test pin in TF2.md is at its path's tip or held.")

def print (lines : List String) : GhAction Unit :=
  Action.update fun world => { world with printed := world.printed ++ lines }

/-- The files upstream has and the ledger has no entry for, and the other way. -/
def gainedOf (upstream entries : List Text) : List Text :=
  sortedPaths (upstream.filter (· ∉ entries)).dedup

def removedOf (upstream entries : List Text) : List Text :=
  sortedPaths (entries.filter (· ∉ upstream)).dedup

def behindOf (drift : List Drift) : List Drift :=
  drift.filter fun drift => !drift.pin.held || drift.tip.isNone

def staleOf (pins : List (Text × Pin)) (drift : List Drift) : List Text :=
  (pins.filter fun (path, pin) => pin.held && decide (path ∉ drift.map Drift.path)).map Prod.fst

def readFramework (gh : Gh) (upstream : Upstream) (dryRun : Bool) (title : String)
    (ledgerText sha : Text) : GhAction Unit := do
  let files ← upstreamPythonFiles gh upstream UPSTREAM_DIR sha
  let gained := gainedOf files (ledgerEntries ledgerText)
  let removed := removedOf files (ledgerEntries ledgerText)
  print (gained.map fun path => "GAINED: " ++ String.ofList path)
  print (removed.map fun path => "REMOVED: " ++ String.ofList path)
  print (if gained = [] ∧ removed = [] then
    ["TF2.md's census agrees with upstream at " ++ String.ofList (short sha) ++ "."] else [])
  if dryRun then pure () else report gh title sha gained removed

def readPins (gh : Gh) (upstream : Upstream) (dryRun : Bool) (title : String)
    (pins : Dict Text Pin) (sha : Text) : GhAction Unit := do
  let drift ← pinDrift gh upstream sha (sortedPins pins)
  let behind := behindOf drift
  let stale := staleOf (sortedPins pins) drift
  print (drift.map fun drift => (if drift.pin.held then "HELD" else "BEHIND") ++ ": " ++ drift.line)
  print (stale.map fun path => "HELD AT TIP: " ++ String.ofList path)
  print (if behind = [] ∧ stale = [] then
    ["Every per-test pin in TF2.md is at its tip or held at " ++ String.ofList (short sha) ++ "."]
    else [])
  if dryRun then pure () else reportPins gh title sha behind stale

def main (gh : Gh) (upstream : Upstream) (isWord : Char → Bool) (files : String → Option Text)
    (argv : List String) : GhAction Nat :=
  match argv.filter (· ≠ "--dry-run") with
  | [path, title, pinsTitle] =>
      if title = pinsTitle then pure 2
      else do
        match files path with
        | none => Action.raise (.noFile path)
        | some ledgerText =>
            match perTestPins isWord ledgerText with
            | .error error => Action.raise (.ledger error)
            | .ok pins => do
                let sha ← defaultBranchTip gh upstream
                let dryRun := decide ("--dry-run" ∈ argv)
                readFramework gh upstream dryRun title ledgerText sha
                readPins gh upstream dryRun pinsTitle pins sha
                pure 0
  | _ => pure 2

/-! ## What a reading gives -/

def Upstream.Holds (upstream : Upstream) (sha file : Text) : Prop :=
  ∃ entry ∈ (upstream.tree sha).entries, entry.type = "blob".toList ∧
    entry.path = UPSTREAM_DIR ++ '/' :: file ∧ ".py".toList <:+ entry.path

def Upstream.tipOf (upstream : Upstream) (sha file : Text) : Option (Text × Text) :=
  (upstream.latest (TESTS_DIR ++ '/' :: file) sha).map fun (commit, date) => (commit, date.take 10)

/-- The last commit of a Core test file is its pin, or in the pin's history. -/
def Upstream.AtTip (upstream : Upstream) (sha file : Text) (pin : Pin) : Prop :=
  ∃ commit, upstream.tipOf sha file = some commit ∧ (pin.sha <+: commit.1 ∨
    Text.strip Text.isSpace (upstream.compare pin.sha commit.1) ∈ IN_PIN_HISTORY)

section Gives

variable {gh : Gh} {upstream : Upstream} {sha : Text} {world reached : GhWorld}

theorem ghOutput_kept {α : Type} (read : GhWorld → α) :
    Action.Moves Kept (ghOutput gh read 1 (ATTEMPTS - 1)) := fun world =>
  (ghOutput_reads (ATTEMPTS - 1) 1 world).1

theorem ghOutput_fixed {α : Type} {value answer : α}
    (run : ghOutput gh (fun _ => value) 1 (ATTEMPTS - 1) world = (.ok answer, reached)) :
    answer = value := by
  obtain ⟨-, answers⟩ := @ghOutput_reads gh α (fun _ => value) (ATTEMPTS - 1) 1 world
  rw [run] at answers
  obtain ⟨_, -, -, same⟩ := answers answer rfl
  exact same

theorem defaultBranchTip_ok (run : defaultBranchTip gh upstream world = (.ok sha, reached)) :
    Kept world reached ∧ ∃ turn, world.turn ≤ turn ∧ turn < reached.turn ∧
      sha = Text.strip Text.isSpace (upstream.tip turn) := by
  obtain ⟨answer, asked, asks, returns⟩ := Action.bind_ok_iff.mp run
  cases returns
  obtain ⟨kept, answers⟩ := @ghOutput_reads gh _ (fun world => upstream.tip world.turn)
    (ATTEMPTS - 1) 1 world
  rw [asks] at kept answers
  obtain ⟨held, since, before, found⟩ := answers answer rfl
  exact ⟨kept, held.turn, since.2, before, by rw [found]⟩

theorem mem_pythonFiles {entries : List TreeEntry} {directory file : Text} :
    file ∈ pythonFiles directory entries ↔ ∃ entry ∈ entries, entry.type = "blob".toList ∧
      entry.path = directory ++ '/' :: file ∧ ".py".toList <:+ entry.path := by
  rw [pythonFiles, List.mem_map]
  constructor
  · rintro ⟨entry, member, rfl⟩
    obtain ⟨among, kept⟩ := List.mem_filter.mp member
    rw [Bool.and_eq_true, Bool.and_eq_true, decide_eq_true_iff, List.isPrefixOf_iff_prefix,
      List.isSuffixOf_iff_suffix] at kept
    obtain ⟨⟨blob, rest, split⟩, python⟩ := kept
    refine ⟨entry, among, blob, ?_, python⟩
    rw [← split, List.drop_left, List.append_assoc]
    rfl
  · rintro ⟨entry, among, blob, path, python⟩
    have opens : entry.path = (directory ++ ['/']) ++ file := by
      rw [path, List.append_assoc]
      rfl
    refine ⟨entry, List.mem_filter.mpr ⟨among, ?_⟩, by rw [opens, List.drop_left]⟩
    rw [Bool.and_eq_true, Bool.and_eq_true, decide_eq_true_iff, List.isPrefixOf_iff_prefix,
      List.isSuffixOf_iff_suffix]
    exact ⟨⟨blob, opens ▸ List.prefix_append _ _⟩, python⟩

theorem upstreamPythonFiles_ok {files : List Text}
    (run : upstreamPythonFiles gh upstream UPSTREAM_DIR sha world = (.ok files, reached)) :
    Kept world reached ∧ ∀ file, file ∈ files ↔ upstream.Holds sha file := by
  obtain ⟨tree, asked, asks, returns⟩ := Action.bind_ok_iff.mp run
  have found := ghOutput_fixed asks
  have kept := (@ghOutput_kept gh _ fun _ => upstream.tree sha).of_run asks
  subst found
  by_cases cut : (upstream.tree sha).truncated = true
  · rw [if_pos cut] at returns
    cases returns
  · rw [if_neg cut] at returns
    cases returns
    refine ⟨kept, fun file => ?_⟩
    rw [sortedPaths, List.mem_insertionSort, mem_pythonFiles]
    rfl

theorem latestCommit_ok {file : Text} {tip : Option (Text × Text)}
    (run : latestCommit gh upstream (TESTS_DIR ++ '/' :: file) sha world = (.ok tip, reached)) :
    tip = upstream.tipOf sha file := by
  obtain ⟨commit, asked, asks, returns⟩ := Action.bind_ok_iff.mp run
  have found := ghOutput_fixed asks
  subst found
  cases returns
  rfl

theorem isCurrent_ok {file : Text} {pin : Pin} {current : Bool}
    (run : isCurrent gh upstream pin (upstream.tipOf sha file) world = (.ok current, reached)) :
    current = true ↔ upstream.AtTip sha file pin := by
  rw [Upstream.AtTip]
  cases tip : upstream.tipOf sha file with
  | none =>
      rw [tip] at run
      cases run
      exact ⟨fun yes => absurd yes Bool.false_ne_true, fun ⟨_, given, _⟩ => by cases given⟩
  | some commit =>
      rw [tip] at run
      rw [isCurrent] at run
      have only : (∃ other, some commit = some other ∧ (pin.sha <+: other.1 ∨
          Text.strip Text.isSpace (upstream.compare pin.sha other.1) ∈ IN_PIN_HISTORY)) ↔
          (pin.sha <+: commit.1 ∨
            Text.strip Text.isSpace (upstream.compare pin.sha commit.1) ∈ IN_PIN_HISTORY) := by
        simp only [Option.some.injEq, exists_eq_left']
      rw [only]
      by_cases opens : pin.sha.isPrefixOf commit.1 = true
      · rw [if_pos opens] at run
        cases run
        exact ⟨fun _ => .inl (List.isPrefixOf_iff_prefix.mp opens), fun _ => rfl⟩
      · rw [if_neg opens] at run
        obtain ⟨status, asked, asks, returns⟩ := Action.bind_ok_iff.mp run
        have found := ghOutput_fixed asks
        subst found
        cases returns
        rw [decide_eq_true_iff]
        refine ⟨.inr, fun either => either.resolve_left fun prefixed => ?_⟩
        exact opens (List.isPrefixOf_iff_prefix.mpr prefixed)

theorem isCurrent_kept (pin : Pin) (tip : Option (Text × Text)) :
    Action.Moves Kept (isCurrent gh upstream pin tip) := by
  cases tip with
  | none => exact Action.Moves.unchanged fun _ => rfl
  | some commit =>
      rw [isCurrent]
      split
      · exact Action.Moves.unchanged fun _ => rfl
      · exact (ghOutput_kept _).bind fun _ => Action.Moves.unchanged fun _ => rfl

theorem pinDrift_kept (pins : List (Text × Pin)) :
    Action.Moves Kept (pinDrift gh upstream sha pins) := by
  induction pins with
  | nil => exact Action.Moves.unchanged fun _ => rfl
  | cons first rest ih =>
      refine ((ghOutput_kept _).bind fun _ => Action.Moves.unchanged fun _ => rfl).bind fun _ => ?_
      refine (isCurrent_kept _ _).bind fun _ => ?_
      exact ih.bind fun _ => Action.Moves.unchanged fun _ => rfl

theorem pinDrift_ok {pins : List (Text × Pin)} :
    ∀ {world reached : GhWorld} {drift : List Drift},
      pinDrift gh upstream sha pins world = (.ok drift, reached) → ∀ entry, entry ∈ drift ↔
        (entry.path, entry.pin) ∈ pins ∧ ¬ upstream.AtTip sha entry.path entry.pin ∧
          entry.tip = upstream.tipOf sha entry.path := by
  induction pins with
  | nil =>
      intro world reached drift run entry
      cases run
      exact ⟨fun member => absurd member List.not_mem_nil, fun within => absurd within.1
        List.not_mem_nil⟩
  | cons first rest ih =>
      obtain ⟨path, pin⟩ := first
      intro world reached drift run entry
      obtain ⟨tip, asked, asks, run⟩ := Action.bind_ok_iff.mp run
      have found := latestCommit_ok asks
      subst found
      obtain ⟨current, compared, compares, run⟩ := Action.bind_ok_iff.mp run
      obtain ⟨others, after, run, returns⟩ := Action.bind_ok_iff.mp run
      have atTip := isCurrent_ok compares
      have later := ih run entry
      cases returns
      have here : entry = ⟨path, pin, upstream.tipOf sha path⟩ ↔
          (entry.path, entry.pin) = (path, pin) ∧ entry.tip = upstream.tipOf sha entry.path := by
        obtain ⟨path', pin', tip'⟩ := entry
        simp only [Drift.mk.injEq, Prod.mk.injEq, and_assoc]
        refine and_congr_right fun samePath => and_congr_right fun _ => ?_
        rw [samePath]
      cases current with
      | true =>
          rw [if_pos rfl, later, List.mem_cons, or_and_right]
          refine ⟨.inr, fun either => either.resolve_left fun ⟨same, off, _⟩ => ?_⟩
          cases same
          exact off (atTip.mp rfl)
      | false =>
          have off : ¬ upstream.AtTip sha path pin := fun at' =>
            absurd (atTip.mpr at') Bool.false_ne_true
          rw [if_neg Bool.false_ne_true, List.mem_cons, List.mem_cons, later, or_and_right, here]
          refine or_congr_left
            ⟨fun ⟨same, tip⟩ => ⟨same, ?_, tip⟩, fun ⟨same, _, tip⟩ => ⟨same, tip⟩⟩
          cases same
          exact off

end Gives

/-! ## What a run reports -/

section Runs

variable {gh : Gh} {upstream : Upstream} {sha : Text} {world reached : GhWorld}

theorem mem_sortedPins {pins : Dict Text Pin} {path : Text} {pin : Pin} :
    (path, pin) ∈ sortedPins pins ↔ pins.get path = some pin := by
  rw [sortedPins, List.mem_insertionSort]
  exact (Dict.valueIn_eq_some pins.distinct).symm

theorem mem_gainedOf {files entries : List Text} {file : Text} :
    file ∈ gainedOf files entries ↔ file ∈ files ∧ file ∉ entries := by
  rw [gainedOf, sortedPaths, List.mem_insertionSort, List.mem_dedup, List.mem_filter,
    decide_eq_true_iff]

theorem mem_removedOf {files entries : List Text} {file : Text} :
    file ∈ removedOf files entries ↔ file ∈ entries ∧ file ∉ files := mem_gainedOf

theorem mem_behindOf {drift : List Drift} {entry : Drift} :
    entry ∈ behindOf drift ↔ entry ∈ drift ∧ (entry.pin.held = false ∨ entry.tip = none) := by
  rw [behindOf, List.mem_filter, Bool.or_eq_true, Bool.not_eq_true', Option.isNone_iff_eq_none]

theorem mem_staleOf {pins : Dict Text Pin} {drift : List Drift}
    (drifts : ∀ entry, entry ∈ drift ↔ (entry.path, entry.pin) ∈ sortedPins pins ∧
      ¬ upstream.AtTip sha entry.path entry.pin ∧ entry.tip = upstream.tipOf sha entry.path)
    {path : Text} :
    path ∈ staleOf (sortedPins pins) drift ↔
      ∃ pin, pins.get path = some pin ∧ pin.held = true ∧ upstream.AtTip sha path pin := by
  rw [staleOf, List.mem_map]
  constructor
  · rintro ⟨⟨_, pin⟩, member, rfl⟩
    obtain ⟨among, kept⟩ := List.mem_filter.mp member
    rw [Bool.and_eq_true, decide_eq_true_iff] at kept
    refine ⟨pin, mem_sortedPins.mp among, kept.1, ?_⟩
    by_contra off
    exact kept.2 (List.mem_map_of_mem
      ((drifts ⟨_, pin, upstream.tipOf sha _⟩).mpr ⟨among, off, rfl⟩))
  · rintro ⟨pin, pinned, held, atTip⟩
    refine ⟨(path, pin), List.mem_filter.mpr ⟨mem_sortedPins.mpr pinned, ?_⟩, rfl⟩
    rw [Bool.and_eq_true, decide_eq_true_iff]
    refine ⟨held, fun drifted => ?_⟩
    obtain ⟨entry, member, rfl⟩ := List.mem_map.mp drifted
    obtain ⟨among, off, -⟩ := (drifts entry).mp member
    have same : some entry.pin = some pin := (mem_sortedPins.mp among).symm.trans pinned
    cases same
    exact off atTip

theorem print_kept (lines : List String) : Action.Moves Kept (print lines) :=
  fun _ => ⟨rfl, Nat.le_refl _⟩

/-- A report that returned has been made, on the issues there were. -/
theorem tracked_of_kept (laws : SearchLaws gh) {title allClear : String} {body : Option String}
    {asked : GhWorld} (kept : Kept world asked)
    (run : track gh title body allClear asked = (.ok (), reached)) :
    Tracked title body allClear world.tracker true reached.tracker := by
  have tracked := track_tracked laws title body allClear asked
  rw [run, kept.1] at tracked
  exact tracked

theorem readFramework_ok (laws : SearchLaws gh) {title : String} {ledgerText : Text}
    (run : readFramework gh upstream false title ledgerText sha world = (.ok (), reached)) :
    ∃ gained removed allClear,
      (∀ file, file ∈ gained ↔ upstream.Holds sha file ∧ file ∉ ledgerEntries ledgerText) ∧
      (∀ file, file ∈ removed ↔ file ∈ ledgerEntries ledgerText ∧ ¬ upstream.Holds sha file) ∧
      Tracked title
        (if gained = [] ∧ removed = [] then none else some (issueBody sha gained removed))
        allClear world.tracker true reached.tracker := by
  obtain ⟨files, asked, asks, run⟩ := Action.bind_ok_iff.mp run
  obtain ⟨kept, holds⟩ := upstreamPythonFiles_ok asks
  obtain ⟨_, first, prints, run⟩ := Action.bind_ok_iff.mp run
  have kept := IsTrans.trans _ _ _ kept ((print_kept _).of_run prints)
  obtain ⟨_, second, prints, run⟩ := Action.bind_ok_iff.mp run
  have kept := IsTrans.trans _ _ _ kept ((print_kept _).of_run prints)
  obtain ⟨_, third, prints, run⟩ := Action.bind_ok_iff.mp run
  have kept := IsTrans.trans _ _ _ kept ((print_kept _).of_run prints)
  refine ⟨gainedOf files (ledgerEntries ledgerText), removedOf files (ledgerEntries ledgerText), _,
    fun file => ?_, fun file => ?_, tracked_of_kept laws kept run⟩
  · rw [mem_gainedOf, holds]
  · rw [mem_removedOf, holds]

theorem readPins_ok (laws : SearchLaws gh) {title : String} {pins : Dict Text Pin}
    (run : readPins gh upstream false title pins sha world = (.ok (), reached)) :
    ∃ behind stale allClear,
      (∀ entry, entry ∈ behind ↔ pins.get entry.path = some entry.pin ∧
        ¬ upstream.AtTip sha entry.path entry.pin ∧ entry.tip = upstream.tipOf sha entry.path ∧
        (entry.pin.held = false ∨ entry.tip = none)) ∧
      (∀ path, path ∈ stale ↔
        ∃ pin, pins.get path = some pin ∧ pin.held = true ∧ upstream.AtTip sha path pin) ∧
      Tracked title
        (if behind = [] ∧ stale = [] then none else some (pinsIssueBody sha behind stale))
        allClear world.tracker true reached.tracker := by
  obtain ⟨drift, asked, asks, run⟩ := Action.bind_ok_iff.mp run
  have drifts := pinDrift_ok asks
  have kept := (pinDrift_kept (sortedPins pins)).of_run asks
  obtain ⟨_, first, prints, run⟩ := Action.bind_ok_iff.mp run
  have kept := IsTrans.trans _ _ _ kept ((print_kept _).of_run prints)
  obtain ⟨_, second, prints, run⟩ := Action.bind_ok_iff.mp run
  have kept := IsTrans.trans _ _ _ kept ((print_kept _).of_run prints)
  obtain ⟨_, third, prints, run⟩ := Action.bind_ok_iff.mp run
  have kept := IsTrans.trans _ _ _ kept ((print_kept _).of_run prints)
  refine ⟨behindOf drift, staleOf (sortedPins pins) drift, _, fun entry => ?_,
    fun path => mem_staleOf drifts, tracked_of_kept laws kept run⟩
  rw [mem_behindOf, drifts, mem_sortedPins, and_assoc, and_assoc]

def Later (first second : GhWorld) : Prop := first.turn ≤ second.turn

instance : IsPreorder GhWorld Later where
  refl _ := Nat.le_refl _
  trans _ _ _ := Nat.le_trans

theorem moves_later {α : Type} {action : GhAction α} (kept : Action.Moves Kept action) :
    Action.Moves Later action := fun world => (kept world).2

theorem act_later (title allClear : String) (body : Option String) (number : Option Nat) :
    Action.Moves Later (act gh title body allClear number) := by
  have runs : ∀ change, Action.Moves Later (runGh gh change) := by
    intro change world
    rw [runGh]
    cases gh.outcome world.turn with
    | done => exact Nat.le_succ _
    | failed stderr => exact Nat.le_succ _
    | lost stderr => exact Nat.le_succ _
  cases number with
  | none =>
      cases body with
      | none => exact Action.Moves.unchanged fun _ => rfl
      | some text => exact runs _
  | some number =>
      cases body with
      | none => exact runs _
      | some text => exact runs _

theorem track_later (title allClear : String) (body : Option String) :
    Action.Moves Later (track gh title body allClear) := by
  refine Action.Moves.bind ?_ fun number => act_later _ _ _ _
  exact (moves_later (ghOutput_kept _)).bind fun _ => Action.Moves.unchanged fun _ => rfl

theorem readFramework_later (title : String) (ledgerText : Text) :
    Action.Moves Later (readFramework gh upstream false title ledgerText sha) := by
  refine Action.Moves.bind ?_ fun files => ?_
  · refine (moves_later (ghOutput_kept _)).bind fun tree => ?_
    split
    · exact Action.Moves.unchanged fun _ => rfl
    · exact Action.Moves.unchanged fun _ => rfl
  · refine (moves_later (print_kept _)).bind fun _ => ?_
    refine (moves_later (print_kept _)).bind fun _ => ?_
    refine (moves_later (print_kept _)).bind fun _ => ?_
    exact track_later _ _ _

theorem readPins_later (title : String) (pins : Dict Text Pin) :
    Action.Moves Later (readPins gh upstream false title pins sha) := by
  refine (moves_later (pinDrift_kept _)).bind fun drift => ?_
  refine (moves_later (print_kept _)).bind fun _ => ?_
  refine (moves_later (print_kept _)).bind fun _ => ?_
  refine (moves_later (print_kept _)).bind fun _ => ?_
  exact track_later _ _ _

end Runs

def Says (title : String) (body : Option String) (tracker : Tracker) : Prop :=
  (openTitled title tracker).map TrackedIssue.body = body.toList

/-- A framework of one file, at a commit that is the pin of the one Core test file. -/
def oneFile : Upstream where
  tip _ := "abcdef1234567890".toList
  tree _ := ⟨false, [⟨"test/functional/test_framework/key.py".toList, "blob".toList⟩]⟩
  latest _ _ := some ("abcdef1234567890".toList, "2026-10-04T00:00:00Z".toList)
  compare _ _ := "ahead".toList

def noEntry : Text :=
  SECTION ++ '\n' :: "| `a.py` | `abcdef12` | read | pass | pass |".toList

end BitcoinNodeTests.Census
