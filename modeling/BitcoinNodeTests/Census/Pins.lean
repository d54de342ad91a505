import BitcoinNodeTests.Census.Cells

/-!
# The two readers of the ledger's pins

`per_test_pins` reads the table of the ledger's section and refuses what it cannot read;
`ledger_pins` reads every line of the text that opens like a row.  Both find a row's Core
test file by one pattern.
-/

set_option autoImplicit false

namespace BitcoinNodeTests.Census

open Foundation

def isHex (char : Char) : Bool := ('0' ≤ char && char ≤ '9') || ('a' ≤ char && char ≤ 'f')

/-- A character of the class in `_ROW_FILE`: a word's, a dot, a slash or a dash.  The backtick
is no word's. -/
def isFileChar (isWord : Char → Bool) (char : Char) : Bool :=
  char ≠ '`' && (isWord char || char = '.' || char = '/' || char = '-')

/-- What `_ROW_FILE` matches at the start of a cell, its group: the backtick that closes it is
no character of a file, so the file is all of them. -/
def rowFile (isWord : Char → Bool) : Text → Option Text
  | '`' :: rest =>
      let file := rest.takeWhile (isFileChar isWord)
      if (rest.drop file.length).head? = some '`' ∧ 4 ≤ file.length ∧
          ".py".toList.isSuffixOf file then some file
      else none
  | _ => none

/-! ## `per_test_pins` -/

structure Pin where
  sha : Text
  held : Bool
  deriving DecidableEq, Repr

/-- The `ValueError`s of `per_test_pins`, with what their texts quote. -/
inductive PinError where
  | noSection
  | width (cells : Nat) (line : Text)
  | noFile (cell : Text)
  | noPin (row cell : Text)
  | noneAbove (row path : Text)
  | pinnedAbove (row : Text) (pin : Pin) (above : Option Pin)
  | noRow
  deriving DecidableEq, Repr

def PER_TEST_HEADER : List Text :=
  ["Core test".toList, "pin".toList, "read at".toList, "bitcoind".toList, "btclib-node".toList]

def isSeparator (cell : Text) : Bool := 3 ≤ cell.length && cell.all (· = '-')

def inTable (line : Text) : Bool := (Text.strip Text.isSpace line).head? = some '|'

def isHeading (cells : List Text) : Bool := cells = PER_TEST_HEADER || cells.all isSeparator

def tableRows : List Text → Except PinError (List (List Text))
  | [] => .ok []
  | line :: rest =>
      if inTable line && !isHeading (cellsOf line) then
        if (cellsOf line).length ≠ PER_TEST_HEADER.length then
          .error (.width (cellsOf line).length line)
        else (tableRows rest).map fun rows => cellsOf line :: rows
      else tableRows rest

def heldMark (mark : Text) : Option Bool :=
  if mark = [] then some false else if mark = " held".toList then some true else none

def COMMIT_LINK : Text := "](https://github.com/bitcoin/bitcoin/commit".toList

def pinCell : Text → Option Pin
  | '`' :: rest =>
      let sha := rest.takeWhile isHex
      match rest.drop sha.length with
      | '`' :: mark =>
          if 7 ≤ sha.length ∧ sha.length ≤ 40 then (heldMark mark).map (Pin.mk sha) else none
      | _ => none
  | '[' :: '`' :: rest =>
      let sha := rest.takeWhile isHex
      let link := '`' :: (COMMIT_LINK ++ '/' :: (sha ++ [')']))
      if 7 ≤ sha.length ∧ sha.length ≤ 40 ∧ link <+: rest.drop sha.length then
        (heldMark ((rest.drop sha.length).drop link.length)).map (Pin.mk sha)
      else none
  | _ => none

def SAME : Text := "same".toList

def rowPin (isWord : Char → Bool) (first second : Text) :
    Except PinError (Text × Option Pin) :=
  match rowFile isWord first with
  | none => .error (.noFile first)
  | some path =>
      if second = SAME then .ok (path, none)
      else
        match pinCell second with
        | none => .error (.noPin first second)
        | some pin => .ok (path, some pin)

/-- The body of `per_test_pins`' loop over the rows, which are five cells wide. -/
def addPin (isWord : Char → Bool) (pins : Dict Text Pin) (cells : List Text) :
    Except PinError (Dict Text Pin) :=
  let first := cells.headD []
  match rowPin isWord first (cells.getD 1 []) with
  | .error error => .error error
  | .ok (path, none) =>
      if (pins.get path).isNone then .error (.noneAbove first path) else .ok pins
  | .ok (path, some pin) =>
      match pins.get path with
      | none => .ok (pins.set path pin)
      | some above => if above = pin then .ok pins else .error (.pinnedAbove first pin above)

def perTestPins (isWord : Char → Bool) (ledgerText : Text) : Except PinError (Dict Text Pin) :=
  match sectionOf ledgerText with
  | none => .error .noSection
  | some section_ =>
      match tableRows (Text.splitlines section_) with
      | .error error => .error error
      | .ok rows =>
          match rows.foldlM (addPin isWord) Dict.empty with
          | .error error => .error error
          | .ok pins => if pins.entries = [] then .error .noRow else .ok pins

/-! ## `ledger_pins` -/

/-- `_PIN.search`: the first run of eight digits or more, forty of them at most. -/
def searchPin : Text → Option Text
  | [] => none
  | char :: rest =>
      let digits := (char :: rest).takeWhile isHex
      if 8 ≤ digits.length then some (digits.take 40) else searchPin rest

/-- The file a line is a row of, where it opens like one. -/
def fileOf (isWord : Char → Bool) (line : Text) : Option Text :=
  if opensRow line then rowFile isWord ((cellsOf line).headD []) else none

/-- The body of `ledger_pins`' loop; a row of one cell has no `cells[1]`, and raises an
`IndexError`. -/
def addLedgerPin (isWord : Char → Bool) (pins : Dict Text Text) (line : Text) :
    Option (Dict Text Text) :=
  match fileOf isWord line with
  | none => some pins
  | some file =>
      if (pins.get file).isSome then some pins
      else
        match (cellsOf line)[1]? with
        | none => none
        | some cell =>
            match searchPin cell with
            | none => some pins
            | some sha => some (pins.set file sha)

/-- `ledger_pins`, `none` where it raises an `IndexError` -/
def ledgerPins (isWord : Char → Bool) (ledgerText : Text) : Option (Dict Text Text) :=
  (Text.splitlines ledgerText).foldlM (addLedgerPin isWord) Dict.empty

end BitcoinNodeTests.Census
