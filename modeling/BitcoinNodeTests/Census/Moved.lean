import BitcoinNodeTests.Census.Moves

/-!
# A testcase overwritten

`moves` keeps a row's statuses by the testcase's name alone: of two modules' testcases of
one row and one name the later module's stands.  What it says of a row is what the testcases
not overwritten say, and that is what all of them say exactly where none that is overwritten
decides the outcome.
-/

set_option autoImplicit false

namespace BitcoinNodeTests.Census

open Foundation

/-- A testcase of a `*_btclib_node_test.py` module.  A module's stem is an identifier, and a
function's name holds no bracket. -/
structure Testcase where
  stem : Text
  function : Text
  ident : Option Text
  status : Status
  stemPlain : '.' ∉ stem ∧ ':' ∉ stem
  functionPlain : '[' ∉ function
  deriving DecidableEq

def PACKAGE : Text := "tests.integration".toList

theorem colon_free : ':' ∉ PACKAGE ∧ ':' ∉ SUFFIX := by decide +kernel

theorem suffix_dot_free : '.' ∉ SUFFIX := by decide +kernel

namespace Testcase

def classname (testcase : Testcase) : Text :=
  PACKAGE ++ '.' :: (testcase.stem ++ SUFFIX)

/-- The name, a parametrized one carrying its `[id]`. -/
def name (testcase : Testcase) : Text :=
  match testcase.ident with
  | none => testcase.function
  | some ident => testcase.function ++ '[' :: (ident ++ [']'])

def key (testcase : Testcase) : Text := testcase.classname ++ (COLONS ++ testcase.name)

def entry (testcase : Testcase) : Text × Status := (testcase.key, testcase.status)

theorem splitKey_key (testcase : Testcase) :
    splitKey testcase.key = (testcase.classname, testcase.name) := by
  have absent : ':' ∉ testcase.classname := by
    have plain := testcase.stemPlain.2
    simp [classname, colon_free, plain]
  have split := Text.splitOnce_of_not_mem [':'] testcase.name absent
  unfold splitKey key COLONS
  rw [split]
  rfl

theorem locate_key (testcase : Testcase) :
    locate testcase.key = (testcase.stem, testcase.function) := by
  have absent : '.' ∉ testcase.stem ++ SUFFIX := by
    have plain := testcase.stemPlain.1
    simp [suffix_dot_free, plain]
  have function : Text.beforeFirst '[' testcase.name = testcase.function := by
    obtain ⟨whole, cut⟩ := Text.beforeFirst_of_not_mem testcase.functionPlain
    unfold name
    cases testcase.ident with
    | none => exact whole
    | some ident => exact cut _
  unfold locate
  rw [splitKey_key]
  dsimp only
  rw [function, classname, Text.afterLast_of_not_mem _ absent, Text.removeSuffix_append]

def row (rows : Dict Text Text) (testcase : Testcase) : Option Text :=
  rowOf rows testcase.stem testcase.function

end Testcase

structure Report where
  cases : List Testcase
  distinct : (cases.map Testcase.key).Nodup

namespace Report

def results (report : Report) : Dict Text Status where
  entries := report.cases.map Testcase.entry
  distinct := by
    rw [List.map_map]
    exact report.distinct

def sorted (report : Report) : List Testcase :=
  report.cases.insertionSort fun first second => first.key ≤ second.key

theorem sortedItems_results (report : Report) :
    sortedItems report.results = report.sorted.map Testcase.entry := by
  have sameOrder := List.map_insertionSort (fun first second : Testcase => first.key ≤ second.key)
    (fun first second : Text × Status => first.1 ≤ second.1) Testcase.entry report.cases
    fun _ _ _ _ => Iff.rfl
  exact sameOrder.symm

theorem mem_sorted {report : Report} {testcase : Testcase} :
    testcase ∈ report.sorted ↔ testcase ∈ report.cases :=
  (report.cases.perm_insertionSort fun first second => first.key ≤ second.key).mem_iff

end Report

/-! ## What a row expects and when it holds -/

section Reading

variable (isWord : Char → Bool) (rows : Dict Text Text) (cells : Dict Text Text) (build : Build)
  (report : Report)

def Report.ofRow (row : Text) : List Testcase :=
  report.cases.filter fun testcase => testcase.row rows = some row

/-- What a row's cell expects of the build, where it is not **bitcoind only**. -/
def Expects (row : Text) (verdict : Expected) : Prop :=
  ∃ cell, (row, cell) ∈ cells.entries ∧ expected isWord row cell build = .ok (some verdict)

/-- The row has testcases and the worst of all their statuses is the one expected. -/
def RowHolds (row : Text) (verdict : Expected) : Prop :=
  report.ofRow rows row ≠ [] ∧
    outcome ((report.ofRow rows row).map Testcase.status) = verdict.outcome

def CaseHolds (testcase : Testcase) : Prop :=
  testcase.row rows = none → testcase.stem ∈ NO_ROW ∧ testcase.status ≠ .fail

inductive Subject where
  | testcase (key : Text)
  | row (row : Text)
  deriving DecidableEq

def Line.subject : Line → Subject
  | .noRow key => .testcase key
  | .uncovered key => .testcase key
  | .missing row => .row row
  | .moved row _ _ _ => .row row

def Violates : Subject → Prop
  | .testcase key => ∃ testcase ∈ report.cases, testcase.key = key ∧ ¬ CaseHolds rows testcase
  | .row row => ∃ verdict, Expects isWord cells build row verdict ∧ ¬ RowHolds rows report row verdict

/-- The lines are empty exactly where every row and every testcase holds, and there is one
for each that does not. -/
structure Judges (lines : List Line) : Prop where
  empty : lines = [] ↔
    (∀ row verdict, Expects isWord cells build row verdict → RowHolds rows report row verdict) ∧
      ∀ testcase ∈ report.cases, CaseHolds rows testcase
  once : (lines.map Line.subject).Nodup
  each : ∀ subject, subject ∈ lines.map Line.subject ↔
    Violates isWord rows cells build report subject

/-! ## What is overwritten -/

/-- A later testcase has the name. -/
def Overwritten (cases : List Testcase) (testcase : Testcase) : Prop :=
  ∃ other ∈ cases, other.name = testcase.name ∧ testcase.key < other.key

instance (cases : List Testcase) (testcase : Testcase) : Decidable (Overwritten cases testcase) :=
  inferInstanceAs (Decidable (∃ other ∈ cases, _ ∧ _))

/-- No testcase that is overwritten decides whether the row has the outcome: where the
others pass it passes too; where one fails one of the others does; and where none of the
others fails, one of them skips exactly if some testcase skips and none fails. -/
def Undecided (cases : List Testcase) : Status → Prop
  | .pass =>
      (∀ testcase ∈ cases, ¬ Overwritten cases testcase → testcase.status = .pass) →
        ∀ testcase ∈ cases, testcase.status = .pass
  | .fail =>
      (∃ testcase ∈ cases, testcase.status = .fail) →
        ∃ testcase ∈ cases, ¬ Overwritten cases testcase ∧ testcase.status = .fail
  | .skip =>
      (∀ testcase ∈ cases, ¬ Overwritten cases testcase → testcase.status ≠ .fail) →
        ((∃ testcase ∈ cases, ¬ Overwritten cases testcase ∧ testcase.status = .skip) ↔
          (∃ testcase ∈ cases, testcase.status = .skip) ∧
            ∀ testcase ∈ cases, testcase.status ≠ .fail)

end Reading

/-! ## Outcomes -/

section Outcomes

variable {statuses : List Status} {cases : List Testcase}

theorem outcome_eq_fail : outcome statuses = .fail ↔ .fail ∈ statuses := by
  unfold outcome
  split
  · simp [*]
  · split
    · simp [*]
    · simp [*]

theorem outcome_eq_skip : outcome statuses = .skip ↔ .fail ∉ statuses ∧ .skip ∈ statuses := by
  unfold outcome
  split
  · simp [*]
  · split
    · simp [*]
    · simp [*]

theorem outcome_eq_pass : outcome statuses = .pass ↔ ∀ status ∈ statuses, status = .pass := by
  unfold outcome
  constructor
  · intro passes status member
    split at passes
    · cases passes
    · split at passes
      · cases passes
      · cases status with
        | pass => rfl
        | skip => contradiction
        | fail => contradiction
  · intro all
    have none : .fail ∉ statuses := fun member => absurd (all _ member) (by decide)
    have noSkip : .skip ∉ statuses := fun member => absurd (all _ member) (by decide)
    rw [if_neg none, if_neg noSkip]

theorem outcome_congr {other : List Status} (same : ∀ status, status ∈ statuses ↔ status ∈ other) :
    outcome statuses = outcome other := by
  unfold outcome
  simp only [same]

def kept (cases : List Testcase) : List Testcase :=
  cases.filter fun testcase => ¬ Overwritten cases testcase

theorem mem_kept {testcase : Testcase} :
    testcase ∈ kept cases ↔ testcase ∈ cases ∧ ¬ Overwritten cases testcase := by
  simp [kept]

/-- The overwritten decide nothing exactly where the row has the outcome with them as without. -/
theorem undecided_iff (cases : List Testcase) (expected : Status) :
    Undecided cases expected ↔
      (outcome ((kept cases).map Testcase.status) = expected ↔
        outcome (cases.map Testcase.status) = expected) := by
  cases expected with
  | pass =>
      simp only [Undecided, outcome_eq_pass, List.forall_mem_map, mem_kept]
      grind
  | skip =>
      simp only [Undecided, outcome_eq_skip, List.mem_map, mem_kept]
      grind
  | fail =>
      simp only [Undecided, outcome_eq_fail, List.mem_map, mem_kept]
      grind

end Outcomes

/-! ## The testcases grouped -/

section Grouping

variable {rows : Dict Text Text}

def caseLine (rows : Dict Text Text) (testcase : Testcase) : Option Line :=
  match testcase.row rows with
  | some _ => none
  | none =>
      if testcase.stem ∉ NO_ROW then some (.noRow testcase.key)
      else if testcase.status = .fail then some (.uncovered testcase.key)
      else none

def standing (rows : Dict Text Text) (cases : List Testcase) (row name : Text) : Option Status :=
  (cases.filter fun testcase =>
    testcase.row rows = some row ∧ testcase.name = name).getLast?.map Testcase.status

theorem group_of_row {row : Text} {testcase : Testcase} (grouped : Grouped)
    (isRow : testcase.row rows = some row) :
    group rows grouped testcase.entry =
      { grouped with
        byRow := grouped.byRow.set row
          (((grouped.byRow.get row).getD Dict.empty).set testcase.name testcase.status) } := by
  unfold Testcase.row at isRow
  simp only [group, Testcase.entry, testcase.locate_key, testcase.splitKey_key, isRow]

theorem group_of_none {testcase : Testcase} (grouped : Grouped)
    (noRow : testcase.row rows = none) :
    group rows grouped testcase.entry =
      { grouped with lines := grouped.lines ++ (caseLine rows testcase).toList } := by
  have isNone := noRow
  unfold Testcase.row at isNone
  simp only [group, Testcase.entry, testcase.locate_key, isNone, caseLine, noRow]
  by_cases known : testcase.stem ∈ NO_ROW
  · by_cases fails : testcase.status = .fail
    · simp [known, fails]
    · simp [known, fails]
  · simp [known]

theorem group_lines (cases : List Testcase) (grouped : Grouped) :
    ((cases.map Testcase.entry).foldl (group rows) grouped).lines =
      grouped.lines ++ cases.filterMap (caseLine rows) := by
  induction cases generalizing grouped with
  | nil => simp
  | cons testcase rest ih =>
      rw [List.map_cons, List.foldl_cons, ih]
      cases found : testcase.row rows with
      | some row =>
          have none : caseLine rows testcase = none := by simp [caseLine, found]
          rw [group_of_row grouped found, List.filterMap_cons_none none]
      | none =>
          rw [group_of_none grouped found]
          cases line : caseLine rows testcase with
          | none => simp [List.filterMap_cons_none line]
          | some made => simp [List.filterMap_cons_some line]

/-- What is grouped is, for each row that has testcases, the status standing for each name. -/
structure Groups (rows : Dict Text Text) (cases : List Testcase)
    (byRow : Dict Text (Dict Text Status)) : Prop where
  absent : ∀ {row}, byRow.get row = none → ∀ testcase ∈ cases, testcase.row rows ≠ some row
  present : ∀ {row dict}, byRow.get row = some dict →
    ∀ name, dict.get name = standing rows cases row name

theorem standing_append {cases : List Testcase} {testcase : Testcase} {row name : Text} :
    standing rows (cases ++ [testcase]) row name =
      if testcase.row rows = some row ∧ testcase.name = name then some testcase.status
      else standing rows cases row name := by
  unfold standing
  rw [List.filter_append]
  split
  · rename_i named
    simp [named]
  · rename_i other
    simp [other]

theorem groups (cases : List Testcase) :
    Groups rows cases ((cases.map Testcase.entry).foldl (group rows) ⟨.empty, []⟩).byRow := by
  induction cases using List.reverseRecOn with
  | nil => exact ⟨fun _ => nofun, nofun⟩
  | append_singleton cases testcase ih =>
      rw [List.map_append, List.foldl_append, List.map_singleton, List.foldl_cons, List.foldl_nil]
      cases found : testcase.row rows with
      | none =>
          rw [group_of_none _ found]
          refine ⟨fun missing other member => ?_, fun present name => ?_⟩
          · rcases List.mem_append.mp member with earlier | last
            · exact ih.absent missing other earlier
            · rw [List.mem_singleton.mp last, found]
              exact nofun
          · rw [standing_append, if_neg (by simp [found])]
            exact ih.present present name
      | some row =>
          rw [group_of_row _ found]
          refine ⟨fun {other} missing another member => ?_, fun {other dict} present name => ?_⟩
          · rw [Dict.get_set] at missing
            split at missing
            · cases missing
            · rename_i different
              rcases List.mem_append.mp member with earlier | last
              · exact ih.absent missing another earlier
              · rw [List.mem_singleton.mp last, found]
                exact fun same => different (Option.some.inj same).symm
          · rw [Dict.get_set] at present
            rw [standing_append, found]
            split at present
            · rename_i same
              subst same
              cases present
              rw [Dict.get_set]
              by_cases named : name = testcase.name
              · simp [named]
              · simp only [named, if_false, Ne.symm named, and_false]
                cases old : ((cases.map Testcase.entry).foldl (group rows) ⟨.empty, []⟩).byRow.get
                  other with
                | some dict => exact ih.present old name
                | none =>
                    have noneOf : (cases.filter fun testcase =>
                        testcase.row rows = some other ∧ testcase.name = name) = [] := by
                      rw [List.filter_eq_nil_iff]
                      intro another member
                      have otherRow := ih.absent old another member
                      simp [otherRow]
                    rw [standing, noneOf]
                    rfl
            · rename_i different
              rw [if_neg (by simpa using fun same => absurd same.symm different)]
              exact ih.present present name

end Grouping

/-! ## What `moves` says of a row -/

section Judging

variable {isWord : Char → Bool} {rows : Dict Text Text} {build : Build} {report : Report}

theorem getLast?_iff {cases : List Testcase} {testcase : Testcase}
    (ordered : cases.Pairwise fun first second => first.key ≤ second.key)
    (distinct : (cases.map Testcase.key).Nodup) :
    cases.getLast? = some testcase ↔
      testcase ∈ cases ∧ ∀ other ∈ cases, other.key ≤ testcase.key := by
  have greatest {last : Testcase} (isLast : cases.getLast? = some last) :
      ∀ other ∈ cases, other.key ≤ last.key := by
    obtain ⟨before, split⟩ := List.getLast?_eq_some_iff.mp isLast
    rw [split] at ordered ⊢
    intro other member
    rcases List.mem_append.mp member with earlier | same
    · exact (List.pairwise_append.mp ordered).2.2 other earlier last (List.mem_singleton_self _)
    · rw [List.mem_singleton.mp same]
  constructor
  · intro isLast
    exact ⟨List.mem_of_getLast? isLast, greatest isLast⟩
  · rintro ⟨member, most⟩
    cases isLast : cases.getLast? with
    | none =>
        rw [List.getLast?_eq_none_iff.mp isLast] at member
        cases member
    | some last =>
        have lastMember := List.mem_of_getLast? isLast
        have same := le_antisymm (most last lastMember) (greatest isLast testcase member)
        rw [List.inj_on_of_nodup_map distinct lastMember member same]

theorem Report.sorted_pairwise (report : Report) :
    report.sorted.Pairwise fun first second => first.key ≤ second.key := by
  have total : Std.Total fun first second : Testcase => first.key ≤ second.key :=
    ⟨fun first second => le_total first.key second.key⟩
  have trans : IsTrans Testcase fun first second => first.key ≤ second.key :=
    ⟨fun _ _ _ first second => le_trans first second⟩
  exact List.pairwise_insertionSort _ _

theorem Report.sorted_distinct (report : Report) : (report.sorted.map Testcase.key).Nodup := by
  have same := (report.cases.perm_insertionSort fun first second => first.key ≤ second.key).map
    Testcase.key
  exact same.nodup_iff.mpr report.distinct

theorem Report.mem_ofRow {row : Text} {testcase : Testcase} :
    testcase ∈ report.ofRow rows row ↔ testcase ∈ report.cases ∧ testcase.row rows = some row := by
  simp [Report.ofRow]

/-- The testcase that stands for its name in a row is the one no other overwrites. -/
theorem standing_iff {row name : Text} {status : Status} :
    standing rows report.sorted row name = some status ↔
      ∃ testcase ∈ kept (report.ofRow rows row), testcase.name = name ∧
        testcase.status = status := by
  have ordered := report.sorted_pairwise.filter fun testcase =>
    decide (testcase.row rows = some row ∧ testcase.name = name)
  have distinct := report.sorted_distinct.sublist ((List.filter_sublist
    (p := fun testcase => decide (testcase.row rows = some row ∧ testcase.name = name))).map
      Testcase.key)
  simp only [standing, Option.map_eq_some_iff, getLast?_iff ordered distinct, List.mem_filter,
    decide_eq_true_iff, Report.mem_sorted, mem_kept, Report.mem_ofRow, Overwritten]
  constructor
  · rintro ⟨testcase, ⟨⟨member, isRow, named⟩, most⟩, isStatus⟩
    refine ⟨testcase, ⟨⟨member, isRow⟩, ?_⟩, named, isStatus⟩
    rintro ⟨other, ⟨otherMember, otherRow⟩, same, later⟩
    exact absurd (most other ⟨otherMember, otherRow, same.trans named⟩) (not_le.mpr later)
  · rintro ⟨testcase, ⟨⟨member, isRow⟩, stands⟩, named, isStatus⟩
    refine ⟨testcase, ⟨⟨member, isRow, named⟩, ?_⟩, isStatus⟩
    rintro other ⟨otherMember, otherRow, otherNamed⟩
    exact not_lt.mp fun later =>
      stands ⟨other, ⟨otherMember, otherRow⟩, otherNamed.trans named.symm, later⟩

/-- What `moves` has grouped of a report once it is through its testcases. -/
def Report.byRow (rows : Dict Text Text) (report : Report) : Dict Text (Dict Text Status) :=
  ((sortedItems report.results).foldl (group rows) ⟨.empty, []⟩).byRow

theorem Report.byRow_groups (report : Report) :
    Groups rows report.sorted (report.byRow rows) := by
  rw [Report.byRow, Report.sortedItems_results]
  exact groups report.sorted

/-- The statuses grouped for a row are those of its testcases no other overwrites. -/
theorem mem_values_iff {row : Text} {dict : Dict Text Status} {status : Status}
    (isGrouped : (report.byRow rows).get row = some dict) :
    status ∈ dict.values ↔ status ∈ (kept (report.ofRow rows row)).map Testcase.status := by
  simp only [Dict.mem_values, report.byRow_groups.present isGrouped, standing_iff, List.mem_map]
  constructor
  · rintro ⟨name, testcase, member, -, isStatus⟩
    exact ⟨testcase, member, isStatus⟩
  · rintro ⟨testcase, member, isStatus⟩
    exact ⟨testcase.name, testcase, member, rfl, isStatus⟩

theorem entries_eq_nil_iff {row : Text} {dict : Dict Text Status}
    (isGrouped : (report.byRow rows).get row = some dict) :
    dict.entries = [] ↔ report.ofRow rows row = [] := by
  constructor
  · intro empty
    rw [List.eq_nil_iff_forall_not_mem]
    intro testcase member
    obtain ⟨inCases, isRow⟩ := Report.mem_ofRow.mp member
    have among : testcase ∈ report.sorted.filter fun other =>
        other.row rows = some row ∧ other.name = testcase.name := by
      simp [Report.mem_sorted, inCases, isRow]
    obtain ⟨last, isLast⟩ := Option.ne_none_iff_exists'.mp
      (List.getLast?_eq_none_iff.not.mpr (List.ne_nil_of_mem among))
    have stands : dict.get testcase.name = some last.status := by
      rw [report.byRow_groups.present isGrouped, standing, isLast]
      rfl
    rw [Dict.get, empty] at stands
    cases stands
  · intro none
    rw [← List.map_eq_nil_iff (f := Prod.snd), List.eq_nil_iff_forall_not_mem]
    intro status member
    have keptStatus := (mem_values_iff isGrouped).mp member
    rw [none] at keptStatus
    cases keptStatus

theorem judge_subject {row : Text} {verdict : Expected} {cases : Option (Dict Text Status)}
    {line : Line} (judged : judge row verdict cases = some line) : line.subject = .row row := by
  unfold judge at judged
  split at judged
  · cases judged
    rfl
  · split at judged
    · cases judged
      rfl
    · dsimp only at judged
      split at judged
      · cases judged
      · cases judged
        rfl

/-- A row has no line exactly where it has testcases and those not overwritten have the outcome
expected. -/
theorem judge_eq_none {row : Text} {verdict : Expected} :
    judge row verdict ((report.byRow rows).get row) = none ↔
      report.ofRow rows row ≠ [] ∧
        outcome ((kept (report.ofRow rows row)).map Testcase.status) = verdict.outcome := by
  unfold judge
  cases isGrouped : (report.byRow rows).get row with
  | none =>
      have none : report.ofRow rows row = [] := by
        rw [List.eq_nil_iff_forall_not_mem]
        intro testcase member
        obtain ⟨inCases, isRow⟩ := Report.mem_ofRow.mp member
        exact report.byRow_groups.absent isGrouped testcase (Report.mem_sorted.mpr inCases) isRow
      simp [none]
  | some dict =>
      have sameOutcome : outcome dict.values =
          outcome ((kept (report.ofRow rows row)).map Testcase.status) :=
        outcome_congr fun status => mem_values_iff isGrouped
      have sameNone := entries_eq_nil_iff isGrouped
      by_cases none : report.ofRow rows row = []
      · simp [sameNone.mpr none, none]
      · have entries : dict.entries ≠ [] := fun empty => none (sameNone.mp empty)
        by_cases reached : outcome dict.values = verdict.outcome
        · simp [entries, none, reached, ← sameOutcome]
        · simp [entries, none, reached, ← sameOutcome]

/-! ## The lines -/

variable {cells : Dict Text Text} {ledgerText : Text}

structure Reads (isWord : Char → Bool) (ledgerText : Text) (build : Build)
    (cells : Dict Text Text) : Prop where
  rows : ledgerCells ledgerText = .ok cells
  verdicts : ∀ row cell, (row, cell) ∈ cells.entries →
    ∃ verdict, expected isWord row cell build = .ok verdict

def rowLine (isWord : Char → Bool) (build : Build) (byRow : Dict Text (Dict Text Status))
    (entry : Text × Text) : Option Line :=
  match expected isWord entry.1 entry.2 build with
  | .ok (some verdict) => judge entry.1 verdict (byRow.get entry.1)
  | _ => none

theorem foldlM_judgeCell (byRow : Dict Text (Dict Text Status)) (entries : List (Text × Text))
    (reads : ∀ row cell, (row, cell) ∈ entries →
      ∃ verdict, expected isWord row cell build = .ok verdict) (lines : List Line) :
    entries.foldlM (judgeCell isWord build byRow) lines =
      .ok (lines ++ entries.filterMap (rowLine isWord build byRow)) := by
  induction entries generalizing lines with
  | nil => simp [pure, Except.pure]
  | cons entry rest ih =>
      obtain ⟨row, cell⟩ := entry
      obtain ⟨verdict, read⟩ := reads row cell List.mem_cons_self
      have later := ih fun other cell member => reads other cell (List.mem_cons_of_mem _ member)
      have step : judgeCell isWord build byRow lines (row, cell) =
          .ok (lines ++ (rowLine isWord build byRow (row, cell)).toList) := by
        cases verdict with
        | none => simp [judgeCell, rowLine, read, bind, Except.bind]
        | some verdict => simp [judgeCell, rowLine, read, bind, Except.bind]
      rw [List.foldlM_cons, step]
      simp only [bind, Except.bind]
      rw [later]
      cases line : rowLine isWord build byRow (row, cell) with
      | none => simp [List.filterMap_cons_none line]
      | some made => simp [List.filterMap_cons_some line]

/-- The lines of a report: the testcases of no row in the order of their keys, then the rows in
the ledger's order. -/
def linesOf (isWord : Char → Bool) (rows cells : Dict Text Text) (build : Build)
    (report : Report) : List Line :=
  report.sorted.filterMap (caseLine rows) ++
    cells.entries.filterMap (rowLine isWord build (report.byRow rows))

theorem moves_eq (reads : Reads isWord ledgerText build cells) (report : Report) :
    moves isWord rows ledgerText report.results build =
      .ok (linesOf isWord rows cells build report) := by
  have lines : ((sortedItems report.results).foldl (group rows) ⟨.empty, []⟩).lines =
      report.sorted.filterMap (caseLine rows) := by
    rw [Report.sortedItems_results, group_lines, List.nil_append]
  have judged := @foldlM_judgeCell isWord build (report.byRow rows) cells.entries reads.verdicts
    (report.sorted.filterMap (caseLine rows))
  unfold moves
  simp only [bind, Except.bind]
  rw [lines, reads.rows]
  exact judged

theorem filterMap_map_sublist {α β γ : Type} {made : α → Option β} {subject : β → γ}
    {about : α → γ} (named : ∀ {entry line}, made entry = some line → subject line = about entry)
    (entries : List α) :
    ((entries.filterMap made).map subject).Sublist (entries.map about) := by
  induction entries with
  | nil => exact List.Sublist.refl _
  | cons entry rest ih =>
      cases found : made entry with
      | none =>
          rw [List.filterMap_cons_none found, List.map_cons]
          exact ih.cons _
      | some line =>
          rw [List.filterMap_cons_some found, List.map_cons, List.map_cons, named found]
          exact ih.cons_cons _

theorem caseLine_subject {testcase : Testcase} {line : Line}
    (made : caseLine rows testcase = some line) : line.subject = .testcase testcase.key := by
  unfold caseLine at made
  split at made
  · cases made
  · split at made
    · cases made
      rfl
    · split at made
      · cases made
        rfl
      · cases made

theorem caseLine_eq_none {testcase : Testcase} :
    caseLine rows testcase = none ↔ CaseHolds rows testcase := by
  unfold caseLine CaseHolds
  cases testcase.row rows with
  | some row => simp
  | none =>
      by_cases known : testcase.stem ∈ NO_ROW
      · simp [known]
      · simp [known]

theorem rowLine_subject {entry : Text × Text} {byRow : Dict Text (Dict Text Status)} {line : Line}
    (made : rowLine isWord build byRow entry = some line) : line.subject = .row entry.1 := by
  unfold rowLine at made
  split at made
  · exact judge_subject made
  · cases made

/-- A row's line is there exactly where its testcases not overwritten miss what is expected. -/
theorem rowLine_mem {row : Text} :
    (∃ cell line, (row, cell) ∈ cells.entries ∧
        rowLine isWord build (report.byRow rows) (row, cell) = some line) ↔
      ∃ verdict, Expects isWord cells build row verdict ∧
        ¬ (report.ofRow rows row ≠ [] ∧
          outcome ((kept (report.ofRow rows row)).map Testcase.status) = verdict.outcome) := by
  constructor
  · rintro ⟨cell, line, member, made⟩
    unfold rowLine at made
    split at made
    · rename_i verdict read
      refine ⟨verdict, ⟨cell, member, read⟩, fun holds => ?_⟩
      rw [judge_eq_none.mpr holds] at made
      cases made
    · cases made
  · rintro ⟨verdict, ⟨cell, member, read⟩, misses⟩
    obtain ⟨line, judged⟩ := Option.ne_none_iff_exists'.mp (judge_eq_none.not.mpr misses)
    refine ⟨cell, line, member, ?_⟩
    rw [rowLine, read]
    exact judged

theorem row_mem_iff {row : Text} :
    .row row ∈ (linesOf isWord rows cells build report).map Line.subject ↔
      ∃ verdict, Expects isWord cells build row verdict ∧
        ¬ (report.ofRow rows row ≠ [] ∧
          outcome ((kept (report.ofRow rows row)).map Testcase.status) = verdict.outcome) := by
  rw [← rowLine_mem, linesOf, List.map_append, List.mem_append]
  constructor
  · rintro (ofCase | ofRow)
    · obtain ⟨line, member, subject⟩ := List.mem_map.mp ofCase
      obtain ⟨testcase, -, made⟩ := List.mem_filterMap.mp member
      rw [caseLine_subject made] at subject
      cases subject
    · obtain ⟨line, member, subject⟩ := List.mem_map.mp ofRow
      obtain ⟨⟨other, cell⟩, inLedger, made⟩ := List.mem_filterMap.mp member
      rw [rowLine_subject made] at subject
      cases subject
      exact ⟨cell, line, inLedger, made⟩
  · rintro ⟨cell, line, inLedger, made⟩
    refine .inr (List.mem_map.mpr ⟨line, List.mem_filterMap.mpr ⟨_, inLedger, made⟩, ?_⟩)
    exact rowLine_subject made

theorem case_mem_iff {key : Text} :
    .testcase key ∈ (linesOf isWord rows cells build report).map Line.subject ↔
      ∃ testcase ∈ report.cases, testcase.key = key ∧ ¬ CaseHolds rows testcase := by
  rw [linesOf, List.map_append, List.mem_append]
  constructor
  · rintro (ofCase | ofRow)
    · obtain ⟨line, member, subject⟩ := List.mem_map.mp ofCase
      obtain ⟨testcase, inReport, made⟩ := List.mem_filterMap.mp member
      rw [caseLine_subject made] at subject
      cases subject
      refine ⟨testcase, Report.mem_sorted.mp inReport, rfl, fun holds => ?_⟩
      rw [caseLine_eq_none.mpr holds] at made
      cases made
    · obtain ⟨line, member, subject⟩ := List.mem_map.mp ofRow
      obtain ⟨entry, -, made⟩ := List.mem_filterMap.mp member
      rw [rowLine_subject made] at subject
      cases subject
  · rintro ⟨testcase, inReport, rfl, misses⟩
    obtain ⟨line, made⟩ := Option.ne_none_iff_exists'.mp (caseLine_eq_none.not.mpr misses)
    refine .inl (List.mem_map.mpr ⟨line, List.mem_filterMap.mpr ⟨testcase, ?_, made⟩, ?_⟩)
    · exact Report.mem_sorted.mpr inReport
    · exact caseLine_subject made

theorem subjects_nodup : ((linesOf isWord rows cells build report).map Line.subject).Nodup := by
  have cases : ((report.sorted.filterMap (caseLine rows)).map Line.subject).Nodup := by
    refine List.Nodup.sublist (filterMap_map_sublist caseLine_subject _) ?_
    have keys := report.sorted_distinct.map (f := Subject.testcase) fun _ _ same => by
      cases same
      rfl
    rwa [List.map_map] at keys
  have ofRows : ((cells.entries.filterMap
      (rowLine isWord build (report.byRow rows))).map Line.subject).Nodup := by
    refine List.Nodup.sublist (filterMap_map_sublist rowLine_subject _) ?_
    have names := cells.distinct.map (f := Subject.row) fun _ _ same => by
      cases same
      rfl
    rwa [List.map_map] at names
  rw [linesOf, List.map_append]
  refine List.Nodup.append cases ofRows fun subject ofCase ofRow => ?_
  obtain ⟨line, member, isCase⟩ := List.mem_map.mp ofCase
  obtain ⟨testcase, -, made⟩ := List.mem_filterMap.mp member
  obtain ⟨other, otherMember, isRow⟩ := List.mem_map.mp ofRow
  obtain ⟨entry, -, otherMade⟩ := List.mem_filterMap.mp otherMember
  rw [caseLine_subject made] at isCase
  rw [rowLine_subject otherMade, ← isCase] at isRow
  cases isRow

theorem expects_unique {row : Text} {first second : Expected}
    (one : Expects isWord cells build row first) (other : Expects isWord cells build row second) :
    first = second := by
  obtain ⟨cell, member, read⟩ := one
  obtain ⟨again, memberAgain, readAgain⟩ := other
  have sameEntry := List.inj_on_of_nodup_map cells.distinct member memberAgain rfl
  cases sameEntry
  rw [read] at readAgain
  cases readAgain
  rfl

/-- Of a row compared `moves` says what it should exactly where the overwritten decide nothing. -/
theorem row_agrees_iff {row : Text} {verdict : Expected}
    (expects : Expects isWord cells build row verdict) :
    (.row row ∈ (linesOf isWord rows cells build report).map Line.subject ↔
        Violates isWord rows cells build report (.row row)) ↔
      Undecided (report.ofRow rows row) verdict.outcome := by
  have only (holds : Expected → Prop) :
      (∃ other, Expects isWord cells build row other ∧ ¬ holds other) ↔ ¬ holds verdict := by
    constructor
    · rintro ⟨other, alsoExpects, misses⟩
      rwa [expects_unique expects alsoExpects]
    · exact fun misses => ⟨verdict, expects, misses⟩
  rw [row_mem_iff, only, Violates, only, not_iff_not, undecided_iff, RowHolds]
  by_cases none : report.ofRow rows row = []
  · simp [none, kept]
  · simp [none]

/-- `moves` says of the report what all its testcases say, exactly where in each row compared
no testcase that is overwritten decides. -/
theorem moves_judges_iff (reads : Reads isWord ledgerText build cells) :
    (∃ lines, moves isWord rows ledgerText report.results build = .ok lines ∧
        Judges isWord rows cells build report lines) ↔
      ∀ row verdict, Expects isWord cells build row verdict →
        Undecided (report.ofRow rows row) verdict.outcome := by
  rw [moves_eq reads]
  constructor
  · rintro ⟨lines, made, judges⟩ row verdict expects
    cases made
    exact (row_agrees_iff expects).mp (judges.each (.row row))
  · intro undecided
    have each (subject : Subject) :
        subject ∈ (linesOf isWord rows cells build report).map Line.subject ↔
          Violates isWord rows cells build report subject := by
      cases subject with
      | testcase key => exact case_mem_iff
      | row row =>
          by_cases compared : ∃ verdict, Expects isWord cells build row verdict
          · obtain ⟨verdict, expects⟩ := compared
            exact (row_agrees_iff expects).mpr (undecided row verdict expects)
          · rw [row_mem_iff, Violates]
            constructor
            · rintro ⟨verdict, expects, -⟩
              exact absurd ⟨verdict, expects⟩ compared
            · rintro ⟨verdict, expects, -⟩
              exact absurd ⟨verdict, expects⟩ compared
    refine ⟨_, rfl, ?_, subjects_nodup, each⟩
    rw [← List.map_eq_nil_iff (f := Line.subject), List.eq_nil_iff_forall_not_mem]
    constructor
    · intro none
      refine ⟨fun row verdict expects => ?_, fun testcase member => ?_⟩
      · by_contra misses
        exact none _ ((each (.row row)).mpr ⟨verdict, expects, misses⟩)
      · by_contra misses
        exact none _ ((each (.testcase testcase.key)).mpr ⟨testcase, member, rfl, misses⟩)
    · rintro ⟨rowsHold, casesHold⟩ subject member
      cases subject with
      | testcase key =>
          obtain ⟨testcase, inReport, -, misses⟩ := (each _).mp member
          exact misses (casesHold testcase inReport)
      | row row =>
          obtain ⟨verdict, expects, misses⟩ := (each _).mp member
          exact misses (rowsHold row verdict expects)

/-! ## Two modules of one row -/

def sharedRows : Dict Text Text :=
  (Dict.empty.set "a".toList "`a.py`".toList).set "b".toList "`a.py`".toList

def sharedLedger : Text :=
  "## The per-test ledger\n\n| `a.py` | `abcdef12` | read | pass | pass |\n".toList

def testcaseOf (stem : Char) (status : Status) (plain : '.' ≠ stem ∧ ':' ≠ stem) : Testcase where
  stem := [stem]
  function := "test_it".toList
  ident := none
  status := status
  stemPlain := by simpa using plain
  functionPlain := by decide +kernel

/-- The first module's test fails and the second's, of the same name, passes. -/
def sharedReport : Report where
  cases := [testcaseOf 'a' .fail (by decide), testcaseOf 'b' .pass (by decide)]
  distinct := by decide +kernel

def sharedCells : Dict Text Text := Dict.empty.set "`a.py`".toList "pass".toList

theorem shared_reads : Reads Char.isAlphanum sharedLedger .release sharedCells where
  rows := by decide +kernel
  verdicts row cell member := by
    cases List.mem_singleton.mp member
    exact ⟨some ⟨"pass".toList, .pass⟩, by decide +kernel⟩

theorem moves_judges_iff_shared :
    (∃ lines, moves Char.isAlphanum sharedRows sharedLedger sharedReport.results .release =
        .ok lines ∧ Judges Char.isAlphanum sharedRows sharedCells .release sharedReport lines) ↔
      ∀ row verdict, Expects Char.isAlphanum sharedCells .release row verdict →
        Undecided (sharedReport.ofRow sharedRows row) verdict.outcome :=
  moves_judges_iff shared_reads

/-- Nothing is said of the row, though one of its testcases fails. -/
theorem moves_loses_failure :
    Reads Char.isAlphanum sharedLedger .release sharedCells ∧
      moves Char.isAlphanum sharedRows sharedLedger sharedReport.results .release = .ok [] ∧
      ¬ Judges Char.isAlphanum sharedRows sharedCells .release sharedReport [] := by
  refine ⟨shared_reads, by decide +kernel, fun judges => ?_⟩
  have expects : Expects Char.isAlphanum sharedCells .release "`a.py`".toList
      ⟨"pass".toList, .pass⟩ := by
    refine ⟨"pass".toList, by decide +kernel, by decide +kernel⟩
  have holds := (judges.empty.mp rfl).1 _ _ expects
  exact absurd holds.2 (by decide +kernel)

end Judging

end BitcoinNodeTests.Census
