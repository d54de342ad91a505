import BitcoinNodeTests.Census.Moves
import BitcoinNodeTests.Vendored.Drift

/-!
# The failures of master alone

`verdicts` holds each test that fails against master alone to the pin of the Core test its
module cites.  That file and the data files it loads are asked for one after another, on a
branch that moves meanwhile, by calls that may fail.  Each such test has one line, which is
right of each path at a moment of the run.
-/

set_option autoImplicit false

namespace BitcoinNodeTests.MasterVerdict

open Foundation
open Census (ATTEMPTS Gh GhAction GhWorld IN_PIN_HISTORY Status Upstream ghOutput ghOutput_fixed
  inPinHistory inTicks ledgerPins print rowFile sortedPaths splitKey)
open Vendored (Quiet ghOutput_ok ghOutput_quiet)

def DATA_FILES : List (Text × List Text) :=
  [("feature_block.py".toList, ["data/invalid_txs.py".toList]),
    ("rpc_createmultisig.py".toList, ["data/rpc_bip67.json".toList]),
    ("rpc_getblockstats.py".toList, ["data/rpc_getblockstats.json".toList])]

def dataFiles (coreFile : Text) : List Text := (DATA_FILES.lookup coreFile).getD []

def CITATION : Text := "Read from Core's `test/functional/".toList

/-- `_CITATION.search`, its group: past what it opens with, it matches what `_ROW_FILE` does. -/
def citation (isWord : Char → Bool) (text : Text) : Option Text :=
  text.tails.findSome? fun rest =>
    if CITATION.isPrefixOf rest then rowFile isWord ('`' :: rest.drop CITATION.length) else none

def masterOnlyFailures (master pinned : Dict Text Status) : List Text :=
  sortedPaths ((master.entries.filter fun entry =>
    decide (entry.2 = .fail ∧ pinned.get entry.1 ≠ some .fail)).map Prod.fst)

structure Change where
  path : Text
  sha : Text
  date : Text
  deriving DecidableEq, Repr

inductive Line where
  | uncited (key : Text)
  | unpinned (key coreFile : Text)
  | gone (key coreFile pin path : Text)
  | stale (key coreFile pin : Text) (changes : List Change)
  | unchanged (key coreFile pin : Text) (commit : Change)
  deriving DecidableEq, Repr

def Change.text (change : Change) : String :=
  inTicks change.path ++ " last changed on master in " ++ inTicks change.sha ++ " (" ++
    String.ofList change.date ++ ")"

def Line.text : Line → String
  | .uncited key => "- " ++ inTicks key ++ ": no Core file citation found in its own module"
  | .unpinned key coreFile =>
      "- " ++ inTicks key ++ " (" ++ inTicks coreFile ++
        "): TF2.md's per-test ledger names no row for it"
  | .gone key coreFile pin path =>
      "- " ++ inTicks key ++ " (" ++ inTicks coreFile ++ ", pinned " ++ inTicks pin ++
        "): `bitcoin/bitcoin` has no commit touching " ++ inTicks path ++ " at all"
  | .stale key coreFile pin changes =>
      "- " ++ inTicks key ++ " (" ++ inTicks coreFile ++ "): **stale port** -- TF2.md pins " ++
        inTicks pin ++ ", and " ++ "; ".intercalate (changes.map Change.text)
  | .unchanged key coreFile pin commit =>
      "- " ++ inTicks key ++ " (" ++ inTicks coreFile ++
        "): **file unchanged since the pin** -- TF2.md pins " ++ inTicks pin ++
        ", its last commit on master is " ++ inTicks commit.sha ++ " (" ++
        String.ofList commit.date ++ ")" ++
        (if dataFiles coreFile = [] then ""
          else ", and no commit since the pin touches " ++
            ", ".intercalate ((dataFiles coreFile).map inTicks) ++ ", which it loads") ++
        ": the cause is not measured, and the port may never have matched the file; " ++
        "check the port against " ++ inTicks coreFile ++ " at " ++ inTicks pin ++ " first"

section Reading

variable (gh : Gh) (upstream : Upstream)

/-- `_latest_commit`, of a path under `test/functional` on the default branch -/
def latestCommit (path : Text) : GhAction (Option (Text × Text)) := do
  let commit ← ghOutput gh (fun world => upstream.latest (Census.TESTS_DIR ++ '/' :: path)
    (Text.strip Text.isSpace (upstream.tip world.turn))) 1 (ATTEMPTS - 1)
  pure (commit.map fun (sha, date) => (sha, date.take 10))

def hasMoved (pin sha : Text) : GhAction Bool :=
  if pin.isPrefixOf sha then pure false
  else do
    let held ← inPinHistory gh upstream pin sha
    pure !held

def latestOf : List Text → GhAction (Except Text (List Change))
  | [] => pure (.ok [])
  | path :: rest => do
      let found ← latestCommit gh upstream path
      match found with
      | none => pure (.error path)
      | some (sha, date) => do
          let others ← latestOf rest
          pure (others.map (⟨path, sha, date⟩ :: ·))

def movedOf (pin : Text) : List Change → GhAction (List Change)
  | [] => pure []
  | change :: rest => do
      let moved ← hasMoved gh upstream pin change.sha
      let others ← movedOf pin rest
      pure (if moved then change :: others else others)

def lineOf (key coreFile pin : Text) : Except Text (List Change) → GhAction Line
  | .error path => pure (.gone key coreFile pin path)
  | .ok latest => do
      let moved ← movedOf gh upstream pin latest
      if moved ≠ [] then pure (.stale key coreFile pin moved)
      else
        -- `latest[core_file]`, the first that was asked for
        match latest.head? with
        | some commit => pure (.unchanged key coreFile pin commit)
        | none => Action.raise .index

/-- The body of the loop of `verdicts`, where `cites` is `core_file_for_test`. -/
def judge (cites : Text → Option Text) (pins : Dict Text Text) (key : Text) : GhAction Line :=
  match cites (splitKey key).1 with
  | none => pure (.uncited key)
  | some coreFile =>
      match pins.get coreFile with
      | none => pure (.unpinned key coreFile)
      | some pin => do
          let latest ← latestOf gh upstream (coreFile :: dataFiles coreFile)
          lineOf gh upstream key coreFile pin latest

def judgeAll (cites : Text → Option Text) (pins : Dict Text Text) : List Text → GhAction (List Line)
  | [] => pure []
  | key :: rest => do
      let line ← judge gh upstream cites pins key
      let lines ← judgeAll cites pins rest
      pure (line :: lines)

def verdicts (isWord : Char → Bool) (cites : Text → Option Text) (ledgerText : Text)
    (master pinned : Dict Text Status) : GhAction (List Line) :=
  match ledgerPins isWord ledgerText with
  | none => Action.raise .index
  | some pins => judgeAll gh upstream cites pins (masterOnlyFailures master pinned)

end Reading

/-- What `main` reads from the disk: the texts of files, those of modules by their classnames,
and the reports. -/
structure Disk where
  files : String → Option Text
  modules : Text → Option Text
  reports : String → Option (Dict Text Status)

def coreFileForTest (isWord : Char → Bool) (disk : Disk) (classname : Text) : Option Text :=
  (disk.modules classname).bind (citation isWord)

def linesOf (lines : List Line) : List String :=
  if lines = [] then
    ["No test fails against Core's master that does not already fail against the pinned release."]
  else
    "Failing only against Core's master, not against the pinned release:" :: "" ::
      lines.map Line.text

def main (gh : Gh) (upstream : Upstream) (isWord : Char → Bool) (disk : Disk)
    (argv : List String) : GhAction Nat :=
  match argv with
  | [ledgerPath, masterPath, pinnedPath] =>
      match disk.reports masterPath, disk.reports pinnedPath, disk.files ledgerPath with
      | none, _, _ => Action.raise (.noFile masterPath)
      | _, none, _ => Action.raise (.noFile pinnedPath)
      | _, _, none => Action.raise (.noFile ledgerPath)
      | some master, some pinned, some ledgerText => do
          let lines ← verdicts gh upstream isWord (coreFileForTest isWord disk) ledgerText master
            pinned
          print (linesOf lines)
          pure 0
  | _ => pure 2

/-! ## What a line says -/

/-- A path's last commit on the default branch, at a call between two turns. -/
def LastAt (upstream : Upstream) (first last : Nat) (path : Text)
    (commit : Option (Text × Text)) : Prop :=
  ∃ turn, first ≤ turn ∧ turn < last ∧
    commit = upstream.tipOf (Text.strip Text.isSpace (upstream.tip turn)) path

def Moved (upstream : Upstream) (pin : Text) (change : Change) : Prop :=
  ¬ pin <+: change.sha ∧
    Text.strip Text.isSpace (upstream.compare pin change.sha) ∉ IN_PIN_HISTORY

instance (upstream : Upstream) (pin : Text) : DecidablePred (Moved upstream pin) := fun change =>
  inferInstanceAs (Decidable (¬ pin <+: change.sha ∧
    Text.strip Text.isSpace (upstream.compare pin change.sha) ∉ IN_PIN_HISTORY))

/-- The last commit of each path, each at a call between two turns. -/
structure Asked (upstream : Upstream) (first last : Nat) (paths : List Text)
    (latest : List Change) : Prop where
  paths : latest.map Change.path = paths
  asked : ∀ change ∈ latest,
    LastAt upstream first last change.path (some (change.sha, change.date))

/-- The line is right of the test: `cites` names the Core test it cites and `pins` its pin, and
each path was asked for between two turns. -/
inductive Judged (upstream : Upstream) (cites : Text → Option Text) (pins : Dict Text Text)
    (first last : Nat) (key : Text) : Line → Prop
  | uncited (absent : cites (splitKey key).1 = none) :
      Judged upstream cites pins first last key (.uncited key)
  | unpinned {coreFile : Text} (cited : cites (splitKey key).1 = some coreFile)
      (absent : pins.get coreFile = none) :
      Judged upstream cites pins first last key (.unpinned key coreFile)
  | gone {coreFile pin path : Text} (cited : cites (splitKey key).1 = some coreFile)
      (pinned : pins.get coreFile = some pin) (loaded : path ∈ coreFile :: dataFiles coreFile)
      (absent : LastAt upstream first last path none) :
      Judged upstream cites pins first last key (.gone key coreFile pin path)
  | stale {coreFile pin : Text} {latest : List Change}
      (cited : cites (splitKey key).1 = some coreFile) (pinned : pins.get coreFile = some pin)
      (asked : Asked upstream first last (coreFile :: dataFiles coreFile) latest)
      (moved : ∃ change ∈ latest, Moved upstream pin change) :
      Judged upstream cites pins first last key
        (.stale key coreFile pin (latest.filter fun change => decide (Moved upstream pin change)))
  | unchanged {coreFile pin : Text} {commit : Change} {others : List Change}
      (cited : cites (splitKey key).1 = some coreFile) (pinned : pins.get coreFile = some pin)
      (asked : Asked upstream first last (coreFile :: dataFiles coreFile) (commit :: others))
      (unmoved : ∀ change ∈ commit :: others, ¬ Moved upstream pin change) :
      Judged upstream cites pins first last key (.unchanged key coreFile pin commit)

section Gives

variable {gh : Gh} {upstream : Upstream} {world reached : GhWorld} {first last : Nat}

theorem LastAt.within {path : Text} {commit : Option (Text × Text)} {earlier later : Nat}
    (asked : LastAt upstream first last path commit) (since : earlier ≤ first)
    (before : last ≤ later) : LastAt upstream earlier later path commit := by
  obtain ⟨turn, started, ended, tip⟩ := asked
  exact ⟨turn, Nat.le_trans since started, Nat.lt_of_lt_of_le ended before, tip⟩

theorem Asked.within {paths : List Text} {latest : List Change} {earlier later : Nat}
    (asked : Asked upstream first last paths latest) (since : earlier ≤ first)
    (before : last ≤ later) : Asked upstream earlier later paths latest :=
  ⟨asked.paths, fun change member => (asked.asked change member).within since before⟩

theorem Judged.within {cites : Text → Option Text} {pins : Dict Text Text} {key : Text}
    {line : Line} {earlier later : Nat} (judged : Judged upstream cites pins first last key line)
    (since : earlier ≤ first) (before : last ≤ later) :
    Judged upstream cites pins earlier later key line := by
  cases judged with
  | uncited absent => exact .uncited absent
  | unpinned cited absent => exact .unpinned cited absent
  | gone cited pinned loaded absent => exact .gone cited pinned loaded (absent.within since before)
  | stale cited pinned asked moved => exact .stale cited pinned (asked.within since before) moved
  | unchanged cited pinned asked unmoved =>
      exact .unchanged cited pinned (asked.within since before) unmoved

theorem latestCommit_ok {path : Text} {commit : Option (Text × Text)}
    (run : latestCommit gh upstream path world = (.ok commit, reached)) :
    Quiet world reached ∧ LastAt upstream world.turn reached.turn path commit := by
  obtain ⟨answer, asked, asks, returns⟩ := Action.bind_ok_iff.mp run
  cases returns
  obtain ⟨quiet, held, since, before, found⟩ := ghOutput_ok asks
  exact ⟨quiet, held.turn, since.2, before, by rw [found]; rfl⟩

theorem hasMoved_ok {pin : Text} {change : Change} {moved : Bool}
    (run : hasMoved gh upstream pin change.sha world = (.ok moved, reached)) :
    Quiet world reached ∧ moved = decide (Moved upstream pin change) := by
  rw [hasMoved] at run
  by_cases opens : pin.isPrefixOf change.sha = true
  · rw [if_pos opens] at run
    cases run
    refine ⟨Std.Refl.refl _, (decide_eq_false fun moved => ?_).symm⟩
    exact moved.1 (List.isPrefixOf_iff_prefix.mp opens)
  · rw [if_neg opens] at run
    obtain ⟨held, compared, compares, returns⟩ := Action.bind_ok_iff.mp run
    obtain ⟨status, asked, asks, answers⟩ := Action.bind_ok_iff.mp compares
    have quiet := (ghOutput_quiet _ _ _).of_run asks
    have found := ghOutput_fixed asks
    subst found
    cases answers
    cases returns
    refine ⟨quiet, ?_⟩
    have notPin : ¬ pin <+: change.sha := fun prefixed =>
      opens (List.isPrefixOf_iff_prefix.mpr prefixed)
    rw [← decide_not]
    exact decide_eq_decide.mpr ⟨fun past => ⟨notPin, past⟩, fun moved => moved.2⟩

theorem movedOf_ok {pin : Text} {latest : List Change} :
    ∀ {world reached : GhWorld} {moved : List Change},
      movedOf gh upstream pin latest world = (.ok moved, reached) →
      Quiet world reached ∧
        moved = latest.filter fun change => decide (Moved upstream pin change) := by
  induction latest with
  | nil =>
      intro world reached moved run
      cases run
      exact ⟨Std.Refl.refl _, rfl⟩
  | cons change rest ih =>
      intro world reached moved run
      obtain ⟨here, compared, compares, run⟩ := Action.bind_ok_iff.mp run
      obtain ⟨others, walked, walks, returns⟩ := Action.bind_ok_iff.mp run
      cases returns
      obtain ⟨quiet, rfl⟩ := hasMoved_ok compares
      obtain ⟨quiet', rfl⟩ := ih walks
      refine ⟨IsTrans.trans _ _ _ quiet quiet', ?_⟩
      rw [List.filter_cons]

/-- The paths asked for have each a last commit, or the first of them without one ends it. -/
theorem latestOf_ok {paths : List Text} :
    ∀ {world reached : GhWorld} {latest : Except Text (List Change)},
      latestOf gh upstream paths world = (.ok latest, reached) →
      Quiet world reached ∧
        ((∃ changes, latest = .ok changes ∧
            Asked upstream world.turn reached.turn paths changes) ∨
          ∃ path ∈ paths, latest = .error path ∧
            LastAt upstream world.turn reached.turn path none) := by
  induction paths with
  | nil =>
      intro world reached latest run
      cases run
      exact ⟨Std.Refl.refl _, .inl ⟨[], rfl, rfl, fun _ member => absurd member List.not_mem_nil⟩⟩
  | cons path rest ih =>
      intro world reached latest run
      obtain ⟨found, asked, asks, run⟩ := Action.bind_ok_iff.mp run
      obtain ⟨quiet, last⟩ := latestCommit_ok asks
      cases found with
      | none =>
          cases run
          exact ⟨quiet, .inr ⟨path, List.mem_cons_self, rfl, last⟩⟩
      | some commit =>
          obtain ⟨others, walked, walks, returns⟩ := Action.bind_ok_iff.mp run
          cases returns
          obtain ⟨quiet', ⟨changes, rfl, later⟩ | ⟨gone, member, rfl, absent⟩⟩ := ih walks
          · refine ⟨IsTrans.trans _ _ _ quiet quiet', .inl ⟨_, rfl, ?_, ?_⟩⟩
            · rw [List.map_cons, later.paths]
            · refine List.forall_mem_cons.mpr ⟨last.within (Nat.le_refl _) quiet'.kept.2, ?_⟩
              exact fun change member =>
                (later.asked change member).within quiet.kept.2 (Nat.le_refl _)
          · refine ⟨IsTrans.trans _ _ _ quiet quiet', .inr ⟨gone, ?_, rfl, ?_⟩⟩
            · exact List.mem_cons_of_mem path member
            · exact absent.within quiet.kept.2 (Nat.le_refl _)

section Lines

variable {cites : Text → Option Text} {pins : Dict Text Text}

theorem judge_ok {key : Text} {line : Line}
    (run : judge gh upstream cites pins key world = (.ok line, reached)) :
    Quiet world reached ∧ Judged upstream cites pins world.turn reached.turn key line := by
  rw [judge] at run
  cases cited : cites (splitKey key).1 with
  | none =>
      simp only [cited] at run
      cases run
      exact ⟨Std.Refl.refl _, .uncited cited⟩
  | some coreFile =>
      simp only [cited] at run
      cases pinned : pins.get coreFile with
      | none =>
          simp only [pinned] at run
          cases run
          exact ⟨Std.Refl.refl _, .unpinned cited pinned⟩
      | some pin =>
          simp only [pinned] at run
          obtain ⟨latest, asked, asks, run⟩ := Action.bind_ok_iff.mp run
          obtain ⟨quiet, ⟨changes, rfl, last⟩ | ⟨path, loaded, rfl, absent⟩⟩ := latestOf_ok asks
          · obtain ⟨moved, compared, compares, returns⟩ := Action.bind_ok_iff.mp run
            obtain ⟨quiet', rfl⟩ := movedOf_ok compares
            by_cases some :
                (changes.filter fun change => decide (Moved upstream pin change)) ≠ []
            · rw [if_pos some] at returns
              cases returns
              obtain ⟨change, member⟩ := List.exists_mem_of_ne_nil _ some
              obtain ⟨among, past⟩ := List.mem_filter.mp member
              exact ⟨IsTrans.trans _ _ _ quiet quiet', .stale cited pinned
                (last.within (Nat.le_refl _) quiet'.kept.2) ⟨change, among, of_decide_eq_true past⟩⟩
            · rw [if_neg some] at returns
              cases changes with
              | nil => cases last.paths
              | cons commit others =>
                  cases returns
                  refine ⟨IsTrans.trans _ _ _ quiet quiet', .unchanged cited pinned
                    (last.within (Nat.le_refl _) quiet'.kept.2) fun change among past => some ?_⟩
                  exact List.ne_nil_of_mem (List.mem_filter.mpr ⟨among, decide_eq_true past⟩)
          · cases run
            exact ⟨quiet, .gone cited pinned loaded absent⟩

theorem judgeAll_ok {keys : List Text} :
    ∀ {world reached : GhWorld} {lines : List Line},
      judgeAll gh upstream cites pins keys world = (.ok lines, reached) →
      Quiet world reached ∧
        List.Forall₂ (Judged upstream cites pins world.turn reached.turn) keys lines := by
  induction keys with
  | nil =>
      intro world reached lines run
      cases run
      exact ⟨Std.Refl.refl _, .nil⟩
  | cons key rest ih =>
      intro world reached lines run
      obtain ⟨line, judged, judges, run⟩ := Action.bind_ok_iff.mp run
      obtain ⟨others, walked, walks, returns⟩ := Action.bind_ok_iff.mp run
      cases returns
      obtain ⟨quiet, right⟩ := judge_ok judges
      obtain ⟨quiet', rights⟩ := ih walks
      refine ⟨IsTrans.trans _ _ _ quiet quiet',
        .cons (right.within (Nat.le_refl _) quiet'.kept.2) ?_⟩
      exact rights.imp fun _ _ later => later.within quiet.kept.2 (Nat.le_refl _)

end Lines

theorem mem_masterOnlyFailures {master pinned : Dict Text Status} {key : Text} :
    key ∈ masterOnlyFailures master pinned ↔
      master.get key = some .fail ∧ pinned.get key ≠ some .fail := by
  have held : ∀ status, (key, status) ∈ master.entries ↔ master.get key = some status :=
    fun status => (Dict.valueIn_eq_some master.distinct).symm
  rw [masterOnlyFailures, sortedPaths, List.mem_insertionSort, List.mem_map]
  constructor
  · rintro ⟨⟨_, status⟩, member, rfl⟩
    obtain ⟨among, failed⟩ := List.mem_filter.mp member
    obtain ⟨rfl, only⟩ := of_decide_eq_true failed
    exact ⟨(held _).mp among, only⟩
  · rintro ⟨failed, only⟩
    exact ⟨(key, .fail), List.mem_filter.mpr ⟨(held _).mpr failed, decide_eq_true ⟨rfl, only⟩⟩, rfl⟩

theorem masterOnlyFailures_nodup (master pinned : Dict Text Status) :
    (masterOnlyFailures master pinned).Nodup := by
  rw [masterOnlyFailures, sortedPaths, (List.perm_insertionSort _ _).nodup_iff]
  exact master.distinct.sublist (List.filter_sublist.map Prod.fst)

theorem masterOnlyFailures_sorted (master pinned : Dict Text Status) :
    (masterOnlyFailures master pinned).Pairwise (· ≤ ·) := by
  rw [masterOnlyFailures, sortedPaths]
  exact List.pairwise_insertionSort _ _

end Gives

/-- Of a Core test and the data file it loads, master has changed the data alone. -/
def dataMoved : Upstream where
  tip _ := "abcdef1234567890\n".toList
  tree _ := ⟨false, []⟩
  latest path _ := some (if path = "test/functional/data/invalid_txs.py".toList
    then ("0123456789abcdef".toList, "2026-10-04T00:00:00Z".toList)
    else ("abcdef1234567890".toList, "2026-09-04T00:00:00Z".toList))
  compare _ _ := "ahead\n".toList

def asciiWord (char : Char) : Bool := char.isAlphanum || char = '_'

def blockTest : Text := "tests.integration.feature_block_bitcoind_test::test_blocks".toList

def blockDisk : Disk where
  files _ := some "| `feature_block.py` | `abcdef12` | read |".toList
  modules _ := some "Read from Core's `test/functional/feature_block.py`, whole.".toList
  reports path := some (if path = "master.xml" then ⟨[(blockTest, .fail)], by decide⟩
    else ⟨[(blockTest, .pass)], by decide⟩)

end BitcoinNodeTests.MasterVerdict
