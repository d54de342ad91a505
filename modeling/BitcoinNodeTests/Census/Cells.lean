import BitcoinNodeTests.Foundation.Dict
import BitcoinNodeTests.Foundation.Text

/-!
# The per-test ledger's cells

`ledger_cells` and `expected`: the rows of the ledger's section, and the verdict a
`btclib-node` cell gives for one build.  Which characters a pattern's `\w` matches comes in
as `isWord`.
-/

set_option autoImplicit false

namespace BitcoinNodeTests.Census

open Foundation

inductive Status where
  | pass
  | skip
  | fail
  deriving DecidableEq, Repr

inductive Build where
  | release
  | main
  deriving DecidableEq, Repr

inductive LedgerError where
  | noSection
  | width (cells : Nat) (line : Text)
  | twoRows (row : Text)
  | noVerdict (row text : Text)
  | noQualifier (row segment : Text)
  | verdicts (row cell : Text) (build : Build) (count : Nat)
  deriving DecidableEq, Repr

structure Expected where
  text : Text
  outcome : Status
  deriving DecidableEq, Repr

/-! ## The section -/

def SECTION : Text := "## The per-test ledger".toList

/-- `"\n## "` after its line feed -/
def HEADING : Text := ['#', '#', ' ']

def sectionBody (after : Text) : Text :=
  match Text.splitOnce ('\n' :: HEADING) after with
  | some (body, _) => body
  | none => after

/-- `ledger_text.split(_SECTION, 1)[1].split("\n## ", 1)[0]` -/
def sectionOf (ledgerText : Text) : Option Text :=
  (Text.splitOnce SECTION ledgerText).map fun (_, after) => sectionBody after

/-- `[cell.strip() for cell in line.strip().strip("|").split("|")]` -/
def cellsOf (line : Text) : List Text :=
  (Text.split ['|'] (Text.strip (· = '|') (Text.strip Text.isSpace line))).map
    (Text.strip Text.isSpace)

def opensRow (line : Text) : Bool := "| `".toList.isPrefixOf line

def addRow (cells : Dict Text Text) (line : Text) : Except LedgerError (Dict Text Text) :=
  if opensRow line then
    match cellsOf line with
    | [first, _, _, _, cell] =>
        if (cells.get first).isSome then .error (.twoRows first) else .ok (cells.set first cell)
    | row => .error (.width row.length line)
  else .ok cells

def ledgerCells (ledgerText : Text) : Except LedgerError (Dict Text Text) :=
  match sectionOf ledgerText with
  | none => .error .noSection
  | some section_ => (Text.splitlines section_).foldlM addRow Dict.empty

/-! ## The verdicts -/

/-- What `_ISS` matches whole: `[ISS ` and some characters that are no `]`, then `](` and some
that are neither `)` nor white space, then `)`. -/
def isIssue (text : Text) : Bool :=
  match Text.splitOnce "[ISS ".toList text with
  | some ([], rest) =>
      let name := rest.takeWhile (· ≠ ']')
      match rest.drop name.length with
      | ']' :: '(' :: link =>
          let target := link.takeWhile fun char => char ≠ ')' && !Text.isSpace char
          name ≠ [] && target ≠ [] && link.drop target.length = [')']
      | _ => false
  | _ => false

/-- `fail \(_ISS\)`, whole -/
def isFailure (text : Text) : Bool :=
  match Text.splitOnce "fail (".toList text with
  | some ([], rest) => rest.getLast? = some ')' && isIssue rest.dropLast
  | _ => false

/-- `skip(?: \(\w+\))?`, whole -/
def isSkip (isWord : Char → Bool) (text : Text) : Bool :=
  text = "skip".toList ||
    match Text.splitOnce "skip (".toList text with
    | some ([], rest) =>
        rest.getLast? = some ')' && rest.dropLast ≠ [] && rest.dropLast.all isWord
    | _ => false

def verdictOf (isWord : Char → Bool) (row text : Text) : Except LedgerError Expected :=
  if text = "pass".toList then .ok ⟨text, .pass⟩
  else if text = "not ported".toList then .ok ⟨text, .fail⟩
  else if isFailure text then .ok ⟨text, .fail⟩
  else if isSkip isWord text then .ok ⟨text, .skip⟩
  else .error (.noVerdict row text)

/-- What a pattern's `.+` matches: some characters, no line feed among them. -/
def isRun (text : Text) : Bool := text ≠ [] && '\n' ∉ text

/-- `_ON_THE_BUILD.fullmatch(segment)["verdict"]` -/
def onTheBuild (segment : Text) : Option Text :=
  match Text.splitLast " on the build".toList (· = []) segment with
  | some (verdict, _) => if isRun verdict then some verdict else none
  | none => none

/-- `_ON_A_BUILD_PAST.fullmatch(segment)["verdict"]` -/
def onABuildPast (segment : Text) : Option Text :=
  match Text.splitLast " on a build past ".toList isIssue segment with
  | some (verdict, _) => if isRun verdict then some verdict else none
  | none => none

def found (row : Text) (build : Build) : List Text → Except LedgerError (List Text)
  | [] => .ok []
  | segment :: rest =>
      match onTheBuild segment with
      | some verdict =>
          (found row build rest).map fun later =>
            if build = .release then verdict :: later else later
      | none =>
          match onABuildPast segment with
          | some verdict =>
              (found row build rest).map fun later =>
                if build = .main then verdict :: later else later
          | none => .error (.noQualifier row segment)

def BITCOIND_ONLY : Text := "bitcoind only".toList

def expected (isWord : Char → Bool) (row cell : Text) (build : Build) :
    Except LedgerError (Option Expected) :=
  if cell = BITCOIND_ONLY then .ok none
  else
    let segments := Text.split "; ".toList cell
    if segments.length = 1 ∧ !Text.contains " on ".toList cell then
      (verdictOf isWord row cell).map some
    else
      match found row build segments with
      | .error error => .error error
      | .ok [verdict] => (verdictOf isWord row verdict).map some
      | .ok verdicts => .error (.verdicts row cell build verdicts.length)

end BitcoinNodeTests.Census
