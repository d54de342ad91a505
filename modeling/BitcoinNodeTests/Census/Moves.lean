import Mathlib.Data.Char
import Mathlib.Data.List.Lex
import Mathlib.Data.List.Sort
import BitcoinNodeTests.Census.Cells

/-!
# The rows that moved

`moves` and what it is made of: which row a testcase is, by the table `_ROWS`, and the
outcome of a row.  A line of the report is kept with what it is made of, and `Line.text` is
the line itself.
-/

set_option autoImplicit false

namespace BitcoinNodeTests.Census

open Foundation

def SUFFIX : Text := "_btclib_node_test".toList

def NO_ROW : List Text :=
  ["adapter_lifecycle".toList, "chain_selection".toList, "mempool_fill".toList,
    "mixed_cluster_block_sync".toList, "v2transport_option".toList]

def COLONS : Text := [':', ':']

/-! ## Which row a testcase is -/

def splitKey (key : Text) : Text × Text := (Text.splitOnce COLONS key).getD (key, [])

def locate (key : Text) : Text × Text :=
  let (classname, name) := splitKey key
  (Text.removeSuffix SUFFIX (Text.afterLast '.' classname), Text.beforeFirst '[' name)

def rowOf (rows : Dict Text Text) (stem function : Text) : Option Text :=
  (rows.get (stem ++ COLONS ++ function)).or (rows.get stem)

def outcome (statuses : List Status) : Status :=
  if .fail ∈ statuses then .fail
  else if .skip ∈ statuses then .skip
  else .pass

/-! ## The report's lines -/

/-- `_KIND`; equal outcomes have none. -/
def kind : Status → Status → String
  | .pass, .fail => "regression"
  | .pass, .skip => "skipped"
  | .fail, .pass => "fixed"
  | .fail, .skip => "skipped"
  | .skip, .pass => "ran"
  | .skip, .fail => "ran, and failed"
  | _, _ => ""

def Status.text : Status → String
  | .pass => "pass"
  | .skip => "skip"
  | .fail => "fail"

inductive Line where
  | noRow (key : Text)
  | uncovered (key : Text)
  | missing (row : Text)
  | moved (row : Text) (verdict : Expected) (outcome : Status) (names : List Text)
  deriving DecidableEq, Repr

def quoted (name : Text) : String := "`" ++ String.ofList name ++ "`"

def Line.text : Line → String
  | .noRow key =>
      "- **no row**: " ++ quoted key ++ " is a testcase `_ROWS` names no row for"
  | .uncovered key => "- **no row**: " ++ quoted key ++ " fails, and no ledger row covers it"
  | .missing row =>
      "- **missing**: " ++ String.ofList row ++ " -- no testcase of this report is its"
  | .moved row verdict outcome names =>
      "- **" ++ kind verdict.outcome outcome ++ "**: " ++ String.ofList row ++
        " -- TF2.md reads " ++ String.ofList verdict.text ++ "; this run's outcome is " ++
        outcome.text ++ ": " ++ String.intercalate ", " (names.map quoted)

/-- What the report's testcases say of each row, by name, and the lines so far. -/
structure Grouped where
  byRow : Dict Text (Dict Text Status)
  lines : List Line

def group (rows : Dict Text Text) (grouped : Grouped) (result : Text × Status) : Grouped :=
  let (key, status) := result
  let (stem, function) := locate key
  match rowOf rows stem function with
  | some row =>
      let cases := (grouped.byRow.get row).getD Dict.empty
      { grouped with byRow := grouped.byRow.set row (cases.set (splitKey key).2 status) }
  | none =>
      if stem ∉ NO_ROW then { grouped with lines := grouped.lines ++ [.noRow key] }
      else if status = .fail then { grouped with lines := grouped.lines ++ [.uncovered key] }
      else grouped

def judge (row : Text) (verdict : Expected) (cases : Option (Dict Text Status)) : Option Line :=
  match cases with
  | none => some (.missing row)
  | some cases =>
      if cases.entries = [] then some (.missing row)
      else
        let reached := outcome cases.values
        if reached = verdict.outcome then none
        else
          let names := (cases.entries.filter fun entry => entry.2 = reached).map Prod.fst
          some (.moved row verdict reached names)

def judgeCell (isWord : Char → Bool) (build : Build) (byRow : Dict Text (Dict Text Status))
    (lines : List Line) (entry : Text × Text) : Except LedgerError (List Line) := do
  let (row, cell) := entry
  let verdict ← expected isWord row cell build
  match verdict with
  | none => .ok lines
  | some verdict => .ok (lines ++ (judge row verdict (byRow.get row)).toList)

def sortedItems (results : Dict Text Status) : List (Text × Status) :=
  results.entries.insertionSort fun first second => first.1 ≤ second.1

def moves (isWord : Char → Bool) (rows : Dict Text Text) (ledgerText : Text)
    (results : Dict Text Status) (build : Build) : Except LedgerError (List Line) := do
  let grouped := (sortedItems results).foldl (group rows) ⟨.empty, []⟩
  let cells ← ledgerCells ledgerText
  cells.entries.foldlM (judgeCell isWord build grouped.byRow) grouped.lines

end BitcoinNodeTests.Census
