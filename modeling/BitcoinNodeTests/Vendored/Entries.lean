import BitcoinNodeTests.Foundation.Dict
import BitcoinNodeTests.Foundation.Fences

/-!
# The pins a ledger's blocks give

`_entries_at_tip` of `check_vendored_vectors`: the checkable pins of the fenced blocks, and
the headings it skips.  The blocks are found by one scan, and the headings by another in the
text between two blocks; a third scan looks for headings in the whole ledger.
-/

set_option autoImplicit false

namespace BitcoinNodeTests.Vendored

open Foundation

def HEADING : Text := ['#', '#', '#', ' ']

def OPENING : Text := "```text\n".toList

def CLOSING : Text := "\n```".toList

def headingIn (line : Text) : Option Text :=
  if HEADING.isPrefixOf line ∧ line.drop HEADING.length ≠ [] then some (line.drop HEADING.length)
  else none

def headings (text : Text) : List Text := (Text.split ['\n'] text).filterMap headingIn

/-! ## Fields -/

inductive Field where
  | repo
  | path
  | ref
  | commit
  | blob
  | pulled
  | behind
  deriving DecidableEq, Repr

def Field.name : Field → Text
  | repo => "repo".toList
  | path => "path".toList
  | ref => "ref".toList
  | commit => "commit".toList
  | blob => "blob".toList
  | pulled => "pulled".toList
  | behind => "behind".toList

def FIELDS : List Field := [.repo, .path, .ref, .commit, .blob, .pulled, .behind]

def isBlank (char : Char) : Bool := char = ' ' || char = '\t'

/-- What `_FIELD` matches on a line by one of its keys: a bare key has an empty value. -/
def valueIn (line : Text) (field : Field) : Option (Field × Text) :=
  if field.name.isPrefixOf line then
    match line.drop field.name.length with
    | [] => some (field, [])
    | char :: value => if isBlank char then some (field, value.dropWhile isBlank) else none
  else none

def fieldsOf (body : Text) : Dict Field Text :=
  ((Text.split ['\n'] body).filterMap fun line => FIELDS.findSome? (valueIn line)).foldl
    (fun fields read => fields.set read.1 read.2) Dict.empty

def given (fields : Dict Field Text) (field : Field) : Text := (fields.get field).getD []

/-! ## Blocks -/

inductive IndexError where
  | indexError
  deriving DecidableEq, Repr

structure Entry where
  heading : Text
  repo : Text
  path : Text
  commit : Text
  ref : Option Text
  deriving DecidableEq, Repr

inductive Reason where
  | noCommit
  | severalFiles
  | noBehind
  | emptyBehind
  | behind
  | noBlock
  deriving DecidableEq, Repr

def Reason.text : Reason → Text
  | noCommit => "no commit to check against".toList
  | severalFiles => "one pin serves several files".toList
  | noBehind => "no behind line at all".toList
  | emptyBehind => "behind line present but empty".toList
  | behind => "already documented as behind".toList
  | noBlock => "no fenced block".toList

def skippedLine (heading : Text) (reason : Reason) : Text :=
  heading ++ (" (".toList ++ (reason.text ++ [')']))

def reasonOf (fields : Dict Field Text) : Option Reason :=
  if given fields .repo = [] ∨ given fields .path = [] ∨ given fields .commit = [] then
    some .noCommit
  else if '<' ∈ given fields .path then some .severalFiles
  else
    match fields.get .behind with
    | none => some .noBehind
    | some behind =>
        if Text.strip Text.isSpace behind = [] then some .emptyBehind
        else if ['0'].isPrefixOf behind then none
        else some .behind

def firstWord (text : Text) : Except IndexError Text :=
  match text.dropWhile Text.isSpace with
  | [] => .error .indexError
  | char :: rest => .ok ((char :: rest).takeWhile fun char => !Text.isSpace char)

def entryOf (heading : Text) (fields : Dict Field Text) : Except IndexError Entry :=
  (firstWord (given fields .commit)).map fun commit =>
    { heading
      repo := given fields .repo
      path := Text.strip Text.isSpace (given fields .path)
      commit
      ref :=
        if given fields .ref = [] then none
        else some (Text.strip Text.isSpace (given fields .ref)) }

structure Walk where
  heading : Text
  entries : List Entry
  skipped : List Text
  owned : List Text

def walk (state : Walk) (found : Match) : Except IndexError Walk :=
  let heading := (headings found.before).getLastD state.heading
  let fields := fieldsOf found.group
  let state := { state with heading, owned := heading :: state.owned }
  match reasonOf fields with
  | some reason => .ok { state with skipped := state.skipped ++ [skippedLine heading reason] }
  | none =>
      (entryOf heading fields).map fun entry => { state with entries := state.entries ++ [entry] }

def entriesAtTip (ledger : Text) : Except IndexError (List Entry × List Text) :=
  ((Text.finditer OPENING CLOSING ledger).1.foldlM walk ⟨[], [], [], []⟩).map fun final =>
    let unowned := (headings ledger).filter (· ∉ final.owned)
    (final.entries, (final.skipped ++ unowned.map (skippedLine · .noBlock)).eraseDups)

end BitcoinNodeTests.Vendored
