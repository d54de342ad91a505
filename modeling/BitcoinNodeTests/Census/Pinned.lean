import BitcoinNodeTests.Census.Pins
import Mathlib.Data.List.TakeWhile

/-!
# Where the two readers agree

A text is the lines up to the ledger's heading, the section's own lines and those after it.
`per_test_pins` reads the section alone, `ledger_pins` the first line of a file anywhere that
gives a pin of eight digits: they agree exactly where the lines outside the section do not
disagree and a row of each file opens its line with a pin that long.
-/

set_option autoImplicit false

namespace BitcoinNodeTests.Census

open Foundation

/-! ## The parts of a text -/

def linesBefore (text : Text) : List Text :=
  match Text.splitOnce SECTION text with
  | none => Text.splitlines text
  | some (before, after) =>
      Text.splitlines (before ++ (SECTION ++ (Text.splitlines (sectionBody after)).headD []))

def linesWithin (text : Text) : List Text :=
  match Text.splitOnce SECTION text with
  | none => []
  | some (_, after) => (Text.splitlines (sectionBody after)).tail

def linesAfter (text : Text) : List Text :=
  match Text.splitOnce SECTION text with
  | none => []
  | some (_, after) =>
      match Text.splitOnce ('\n' :: HEADING) after with
      | none => []
      | some (_, rest) => Text.splitlines (HEADING ++ rest)

theorem section_unbroken : ∀ char ∈ SECTION, Text.isLineBreak char = false := by
  have all : (SECTION.all fun char => !Text.isLineBreak char) = true := by decide +kernel
  intro char member
  simpa using List.all_eq_true.mp all char member

theorem section_ne_nil : SECTION ≠ [] := by decide +kernel

theorem splitlines_after (after : Text) :
    ∃ blank, (blank = [] ∨ blank = [[]]) ∧
      (Text.splitlines after).headD [] = (Text.splitlines (sectionBody after)).headD [] ∧
      (Text.splitlines after).tail = (Text.splitlines (sectionBody after)).tail ++ (blank ++
        match Text.splitOnce ('\n' :: HEADING) after with
        | none => []
        | some (_, rest) => Text.splitlines (HEADING ++ rest)) := by
  unfold sectionBody
  cases found : Text.splitOnce ('\n' :: HEADING) after with
  | none => exact ⟨[], .inl rfl, rfl, by simp⟩
  | some parts =>
      obtain ⟨body, rest⟩ := parts
      have whole := Text.splitOnce_eq found
      rw [List.cons_append] at whole
      obtain ⟨blank, either, lines⟩ := Text.linesFrom_lineFeed [] body (HEADING ++ rest)
      rw [whole]
      unfold Text.splitlines
      rw [lines]
      cases opened : Text.linesFrom [] body with
      | cons first others => exact ⟨blank, either, rfl, rfl⟩
      | nil =>
          -- a body of no line is empty, and the line feed is the end of the heading's line
          obtain ⟨-, rfl⟩ := Text.eq_nil_of_lines opened
          have same : [] :: Text.splitlines (HEADING ++ rest) =
              blank ++ Text.splitlines (HEADING ++ rest) := lines
          exact ⟨[], .inl rfl, by rw [List.nil_append, ← same]; rfl, by rw [List.nil_append, ← same]; rfl⟩

/-- The lines of a text are those of its parts, but for an empty one. -/
theorem splitlines_parts (text : Text) :
    ∃ blank, (blank = [] ∨ blank = [[]]) ∧
      Text.splitlines text =
        linesBefore text ++ linesWithin text ++ (blank ++ linesAfter text) := by
  unfold linesBefore linesWithin linesAfter
  cases found : Text.splitOnce SECTION text with
  | none => exact ⟨[], .inl rfl, by simp⟩
  | some parts =>
      obtain ⟨before, after⟩ := parts
      obtain ⟨whole, opened, through⟩ :=
        Text.linesFrom_through section_unbroken section_ne_nil [] before
      have begun : opened ++ SECTION ≠ [] := by simp [section_ne_nil]
      have line (text : Text) : Text.splitlines (before ++ (SECTION ++ text)) =
          whole ++ (opened ++ SECTION ++ (Text.splitlines text).headD []) ::
            (Text.splitlines text).tail := by
        have goesOn := Text.linesFrom_open begun [] text
        rw [List.append_nil] at goesOn
        rw [Text.splitlines, through, goesOn]
        rfl
      obtain ⟨blank, either, head, tail⟩ := splitlines_after after
      refine ⟨blank, either, ?_⟩
      dsimp only
      obtain ⟨sameHead, noTail⟩ := Text.splitlines_unbroken (Text.headD_unbroken (sectionBody after))
      rw [Text.splitOnce_eq found, line after, line, head, tail, sameHead, noTail]
      simp

/-! ## The pin of a cell -/

theorem searchPin_append {char : Char} (noDigit : isHex char = false) (before after : Text) :
    searchPin (before ++ char :: after) = (searchPin before).or (searchPin after) := by
  induction before with
  | nil => simp [searchPin, noDigit]
  | cons first rest ih =>
      have run := Text.takeWhile_stop noDigit (first :: rest) after
      rw [List.cons_append] at run ⊢
      rw [searchPin, run, searchPin, ih]
      split
      · rfl
      · rfl

theorem searchPin_digits {sha : Text} (digits : ∀ char ∈ sha, isHex char = true)
    (most : sha.length ≤ 40) : searchPin sha = if 8 ≤ sha.length then some sha else none := by
  induction sha with
  | nil => rfl
  | cons first rest ih =>
      have whole : (first :: rest).takeWhile isHex = first :: rest := by
        have all := @List.takeWhile_append_of_pos _ isHex (first :: rest) [] digits
        simpa using all
      rw [List.length_cons] at most
      have later := ih (fun char member => digits char (List.mem_cons_of_mem _ member)) (by omega)
      rw [searchPin, whole, later]
      by_cases enough : 8 ≤ (first :: rest).length
      · rw [if_pos enough, if_pos enough, List.take_of_length_le (by simpa using most)]
      · have short : ¬ 8 ≤ rest.length := by
          rw [List.length_cons] at enough
          omega
        rw [if_neg enough, if_neg enough, if_neg short]

theorem searchPin_mark {mark : Text} {held : Bool} (read : heldMark mark = some held) :
    searchPin mark = none := by
  unfold heldMark at read
  split at read
  · rename_i empty
    rw [empty]
    rfl
  · split at read
    · rename_i isHeld
      rw [isHeld]
      decide +kernel
    · cases read

theorem searchPin_link : searchPin COMMIT_LINK = none := by decide +kernel

/-- A search of a pin cell finds its sha where that is long enough. -/
theorem searchPin_of_pinCell {cell : Text} {pin : Pin} (read : pinCell cell = some pin) :
    searchPin cell = if 8 ≤ pin.sha.length then some pin.sha else none := by
  have digits (rest : Text) : ∀ char ∈ rest.takeWhile isHex, isHex char = true :=
    fun char member => List.mem_takeWhile_imp member
  unfold pinCell at read
  split at read
  · rename_i rest
    dsimp only at read
    split at read
    · rename_i mark closes
      split at read
      · rename_i size
        obtain ⟨held, isMark, rfl⟩ := Option.map_eq_some_iff.mp read
        have cell := Text.takeWhile_drop isHex rest
        rw [closes] at cell
        have found := searchPin_digits (digits rest) size.2
        generalize rest.takeWhile isHex = sha at cell found
        have opening := @searchPin_append '`' (by decide) [] rest
        rw [List.nil_append] at opening
        rw [opening, cell, searchPin_append (by decide), searchPin_mark isMark, found]
        simp [searchPin]
      · cases read
    · cases read
  · rename_i rest
    dsimp only at read
    split at read
    · rename_i conditions
      obtain ⟨-, most, later, isLink⟩ := conditions
      obtain ⟨held, isMark, rfl⟩ := Option.map_eq_some_iff.mp read
      have cell := Text.takeWhile_drop isHex rest
      have found := searchPin_digits (digits rest) most
      rw [← isLink, List.drop_left] at isMark
      rw [← isLink] at cell
      generalize rest.takeWhile isHex = sha at cell found
      have opening := @searchPin_append '[' (by decide) [] ('`' :: rest)
      have second := @searchPin_append '`' (by decide) [] rest
      rw [List.nil_append] at opening second
      rw [opening, second, cell, List.cons_append, List.append_assoc, List.cons_append,
        List.append_assoc, List.singleton_append, searchPin_append (by decide),
        searchPin_append (by decide), searchPin_append (by decide), searchPin_mark isMark,
        searchPin_link, found]
      split
      · simp [searchPin]
      · simp [searchPin]
    · cases read
  · cases read

theorem searchPin_same : searchPin SAME = none := by decide +kernel

/-! ## The rows of the table -/

theorem inTable_of_opensRow {line : Text} (opens : opensRow line = true) : inTable line = true := by
  obtain ⟨rest, rfl⟩ := List.isPrefixOf_iff_prefix.mp opens
  obtain ⟨kept, strips⟩ :=
    @Text.strip_cons Text.isSpace '|' (by decide) (' ' :: '`' :: rest)
  have starts : "| `".toList ++ rest = '|' :: ' ' :: '`' :: rest := rfl
  rw [inTable, starts, strips]
  rfl

theorem not_isHeading_backtick (first : Text) (rest : List Text) :
    isHeading (('`' :: first) :: rest) = false := by
  have notSeparator : isSeparator ('`' :: first) = false := by simp [isSeparator]
  simp [isHeading, notSeparator, PER_TEST_HEADER, -String.toList_ofList]

theorem not_isHeading {isWord : Char → Bool} {cells : List Text} {file : Text}
    (named : rowFile isWord (cells.headD []) = some file) : isHeading cells = false := by
  cases cells with
  | nil => cases named
  | cons first rest =>
      cases first with
      | nil => cases named
      | cons char later =>
          have opens : char = '`' := by
            unfold rowFile at named
            split at named
            · rename_i same
              exact (List.cons.inj same).1
            · cases named
          subst opens
          exact not_isHeading_backtick later rest

/-- Each line of a table accepted is a row of five cells, but for headings. -/
theorem tableRows_mem {lines : List Text} {rows : List (List Text)}
    (read : tableRows lines = .ok rows) {line : Text} (member : line ∈ lines)
    (isIn : inTable line = true) (row : isHeading (cellsOf line) = false) :
    cellsOf line ∈ rows ∧ (cellsOf line).length = 5 := by
  induction lines generalizing rows with
  | nil => cases member
  | cons first rest ih =>
      unfold tableRows at read
      split at read
      · split at read
        · cases read
        · rename_i wide
          cases later : tableRows rest with
          | error error =>
              rw [later] at read
              cases read
          | ok others =>
              rw [later] at read
              cases read
              rcases List.mem_cons.mp member with rfl | inRest
              · exact ⟨List.mem_cons_self, by simpa [PER_TEST_HEADER] using wide⟩
              · obtain ⟨inRows, width⟩ := ih later inRest
                exact ⟨List.mem_cons_of_mem _ inRows, width⟩
      · rename_i skipped
        rcases List.mem_cons.mp member with rfl | inRest
        · simp [isIn, row] at skipped
        · exact ih read inRest

theorem addPin_spec {isWord : Char → Bool} {pins next : Dict Text Pin} {cells : List Text}
    (added : addPin isWord pins cells = .ok next) :
    ∃ path given, rowPin isWord (cells.headD []) (cells.getD 1 []) = .ok (path, given) ∧
      (next.get path).isSome ∧ (∀ pin, given = some pin → next.get path = some pin) ∧
      ∀ other, next.get other =
        (pins.get other).or (if other = path then given else none) := by
  unfold addPin at added
  dsimp only at added
  split at added
  · cases added
  · rename_i path read
    split at added
    · cases added
    · rename_i present
      cases added
      refine ⟨path, none, read, ?_, by simp, by simp⟩
      simpa [Option.isSome_iff_ne_none] using present
  · rename_i path pin read
    split at added
    · rename_i absent
      cases added
      refine ⟨path, some pin, read, by simp, by simp, fun other => ?_⟩
      by_cases same : other = path
      · simp [same, absent]
      · simp [same]
    · rename_i above present
      split at added
      · rename_i same
        cases added
        subst same
        refine ⟨path, some above, read, by simp [present], by simp [present], fun other => ?_⟩
        by_cases same : other = path
        · simp [same, present]
        · simp [same]
      · cases added

/-- A table's pins are those its rows give, and each row has one. -/
theorem addPin_run {isWord : Char → Bool} {rows : List (List Text)} {pins final : Dict Text Pin}
    (run : rows.foldlM (addPin isWord) pins = .ok final) :
    (∀ path pin, pins.get path = some pin → final.get path = some pin) ∧
      (∀ cells ∈ rows, ∃ path given,
        rowPin isWord (cells.headD []) (cells.getD 1 []) = .ok (path, given) ∧
          (final.get path).isSome ∧ ∀ pin, given = some pin → final.get path = some pin) ∧
      ∀ path pin, final.get path = some pin → pins.get path = some pin ∨
        ∃ cells ∈ rows, rowPin isWord (cells.headD []) (cells.getD 1 []) =
          .ok (path, some pin) := by
  induction rows generalizing pins with
  | nil =>
      cases run
      exact ⟨fun path pin here => here, by simp, fun path pin here => .inl here⟩
  | cons cells rest ih =>
      rw [List.foldlM_cons] at run
      cases added : addPin isWord pins cells with
      | error error =>
          rw [added] at run
          cases run
      | ok next =>
          rw [added] at run
          obtain ⟨kept, each, only⟩ := ih run
          obtain ⟨path, given, read, present, ofGiven, other⟩ := addPin_spec added
          refine ⟨fun name pin here => kept name pin (by simp [other, here]), ?_, ?_⟩
          · intro row member
            rcases List.mem_cons.mp member with rfl | later
            · refine ⟨path, given, read, ?_, fun pin same => kept path pin (ofGiven pin same)⟩
              obtain ⟨pin, here⟩ := Option.isSome_iff_exists.mp present
              simp [kept path pin here]
            · exact each row later
          · intro name pin here
            rcases only name pin here with inNext | ⟨row, member, gives⟩
            · rw [other, Option.or_eq_some_iff] at inNext
              rcases inNext with before | ⟨-, now⟩
              · exact .inl before
              · split at now
                · rename_i same
                  subst same now
                  exact .inr ⟨cells, List.mem_cons_self, read⟩
                · cases now
            · exact .inr ⟨row, List.mem_cons_of_mem _ member, gives⟩

/-! ## The lines of a file -/

def shaOf (isWord : Char → Bool) (file line : Text) : Option Text :=
  if fileOf isWord line = some file then (cellsOf line)[1]?.bind searchPin else none

def firstSha (isWord : Char → Bool) (file : Text) (lines : List Text) : Option Text :=
  lines.findSome? (shaOf isWord file)

theorem firstSha_cons (isWord : Char → Bool) (file line : Text) (lines : List Text) :
    firstSha isWord file (line :: lines) =
      (shaOf isWord file line).or (firstSha isWord file lines) := by
  rw [firstSha, List.findSome?_cons]
  cases shaOf isWord file line with
  | none => rfl
  | some sha => rfl

theorem firstSha_append (isWord : Char → Bool) (file : Text) (lines more : List Text) :
    firstSha isWord file (lines ++ more) =
      (firstSha isWord file lines).or (firstSha isWord file more) :=
  List.findSome?_append

/-- No line names a file and stops there, before one that gives the file a sha. -/
def Celled (isWord : Char → Bool) (lines : List Text) : Prop :=
  ∀ before line after file, lines = before ++ line :: after → fileOf isWord line = some file →
    firstSha isWord file before = none → (cellsOf line)[1]? ≠ none

theorem addLedgerPin_spec (isWord : Char → Bool) (pins : Dict Text Text) (line : Text) :
    (∃ file, fileOf isWord line = some file ∧ pins.get file = none ∧ (cellsOf line)[1]? = none ∧
        addLedgerPin isWord pins line = none) ∨
      ((∀ file, fileOf isWord line = some file → pins.get file = none →
          (cellsOf line)[1]? ≠ none) ∧
        ∃ next, addLedgerPin isWord pins line = some next ∧
          ∀ file, next.get file = (pins.get file).or (shaOf isWord file line)) := by
  unfold addLedgerPin shaOf
  cases named : fileOf isWord line with
  | none => exact .inr ⟨by simp, pins, rfl, by simp⟩
  | some file =>
      cases above : pins.get file with
      | some sha =>
          refine .inr ⟨?_, pins, by simp [above], fun other => ?_⟩
          · rintro other same absent
            cases same
            rw [above] at absent
            cases absent
          · by_cases same : file = other
            · simp [← same, above]
            · simp [same]
      | none =>
          cases second : (cellsOf line)[1]? with
          | none => exact .inl ⟨file, rfl, above, rfl, by simp [above]⟩
          | some cell =>
              cases pin : searchPin cell with
              | none =>
                  refine .inr ⟨by simp, pins, by simp [above, pin], fun other => ?_⟩
                  simp [pin]
              | some sha =>
                  refine .inr ⟨by simp, pins.set file sha, by simp [above, pin],
                    fun other => ?_⟩
                  by_cases same : other = file
                  · simp [same, above, pin]
                  · simp [same, Ne.symm same]

theorem addLedgerPin_run {isWord : Char → Bool} {lines : List Text} {pins found : Dict Text Text}
    (run : lines.foldlM (addLedgerPin isWord) pins = some found) (file : Text) :
    found.get file = (pins.get file).or (firstSha isWord file lines) := by
  induction lines generalizing pins with
  | nil =>
      cases run
      simp [firstSha]
  | cons line rest ih =>
      rw [List.foldlM_cons] at run
      rcases addLedgerPin_spec isWord pins line with ⟨_, -, -, -, raises⟩ | ⟨-, next, added, spec⟩
      · rw [raises] at run
        cases run
      · rw [added] at run
        rw [ih run, spec, Option.or_assoc, firstSha_cons]

/-- The reader of the lines returns exactly where no row it looks at has one cell. -/
theorem addLedgerPin_returns (isWord : Char → Bool) (lines : List Text) (pins : Dict Text Text) :
    (lines.foldlM (addLedgerPin isWord) pins).isSome ↔
      ∀ before line after file, lines = before ++ line :: after →
        fileOf isWord line = some file →
        (pins.get file).or (firstSha isWord file before) = none → (cellsOf line)[1]? ≠ none := by
  induction lines generalizing pins with
  | nil => simp
  | cons line rest ih =>
      rw [List.foldlM_cons]
      rcases addLedgerPin_spec isWord pins line with
        ⟨file, named, absent, short, raises⟩ | ⟨wide, next, added, spec⟩
      · rw [raises]
        refine ⟨fun returns => (by cases returns), fun celled => ?_⟩
        exact absurd short (celled [] line rest file rfl named (by simp [absent, firstSha]))
      · rw [added]
        refine (ih next).trans ⟨fun later => ?_, fun celled => ?_⟩
        · intro before other after file parts named none
          cases before with
          | nil =>
            cases parts
            exact wide file named (by simpa [firstSha] using none)
          | cons first before =>
            cases parts
            refine later before other after file rfl named ?_
            rwa [spec, Option.or_assoc, ← firstSha_cons]
        · intro before other after file parts named none
          refine celled (line :: before) other after file (by rw [parts]; rfl) named ?_
          rwa [firstSha_cons, ← Option.or_assoc, ← spec]

theorem ledgerPins_spec (isWord : Char → Bool) (text : Text) :
    ((ledgerPins isWord text).isSome ↔ Celled isWord (Text.splitlines text)) ∧
      ∀ found file, ledgerPins isWord text = some found →
        found.get file = firstSha isWord file (Text.splitlines text) := by
  refine ⟨?_, fun found file run => ?_⟩
  · rw [ledgerPins, addLedgerPin_returns]
    simp [Celled]
  · rw [addLedgerPin_run run]
    rfl

/-- An empty line is no row, so a file's sha comes before the section, in it or after it. -/
theorem firstSha_parts (isWord : Char → Bool) (file text : Text) :
    firstSha isWord file (Text.splitlines text) =
      (firstSha isWord file (linesBefore text)).or
        ((firstSha isWord file (linesWithin text)).or (firstSha isWord file (linesAfter text))) := by
  obtain ⟨blank, either, parts⟩ := splitlines_parts text
  have silent : firstSha isWord file blank = none := by
    rcases either with rfl | rfl
    · rfl
    · simp [firstSha, shaOf, fileOf, opensRow]
  rw [parts, firstSha_append, firstSha_append, firstSha_append, silent, Option.none_or,
    Option.or_assoc]

/-! ## The section's rows -/

def Gives (isWord : Char → Bool) (text file : Text) (pin : Pin) : Prop :=
  ∃ section_, sectionOf text = some section_ ∧ ∃ line ∈ Text.splitlines section_, inTable line ∧
    rowPin isWord ((cellsOf line).headD []) ((cellsOf line).getD 1 []) = .ok (file, some pin)

/-- A row of the section opens its line, and has a pin of eight digits or more. -/
def Shown (isWord : Char → Bool) (text file : Text) : Prop :=
  ∃ line ∈ linesWithin text, fileOf isWord line = some file ∧
    ∃ pin, (cellsOf line)[1]?.bind pinCell = some pin ∧ 8 ≤ pin.sha.length

theorem rowPin_named {isWord : Char → Bool} {first second path : Text} {given : Option Pin}
    (read : rowPin isWord first second = .ok (path, given)) :
    rowFile isWord first = some path ∧
      (second = SAME ∧ given = none ∨ second ≠ SAME ∧ ∃ pin, given = some pin ∧
        pinCell second = some pin) := by
  unfold rowPin at read
  split at read
  · cases read
  · rename_i named
    split at read
    · rename_i same
      cases read
      exact ⟨named, .inl ⟨same, rfl⟩⟩
    · rename_i notSame
      split at read
      · cases read
      · rename_i pin isPin
        cases read
        exact ⟨named, .inr ⟨notSame, pin, rfl, isPin⟩⟩

theorem tableRows_row {lines : List Text} {rows : List (List Text)}
    (read : tableRows lines = .ok rows) {cells : List Text} (member : cells ∈ rows) :
    ∃ line ∈ lines, inTable line = true ∧ cellsOf line = cells := by
  induction lines generalizing rows with
  | nil =>
      cases read
      cases member
  | cons first rest ih =>
      unfold tableRows at read
      split at read
      · rename_i isRow
        split at read
        · cases read
        · cases later : tableRows rest with
          | error error =>
              rw [later] at read
              cases read
          | ok others =>
              rw [later] at read
              cases read
              rcases List.mem_cons.mp member with rfl | inOthers
              · exact ⟨first, List.mem_cons_self, ((Bool.and_eq_true _ _).mp isRow).1, rfl⟩
              · obtain ⟨line, inRest, isIn, same⟩ := ih later inOthers
                exact ⟨line, List.mem_cons_of_mem _ inRest, isIn, same⟩
      · obtain ⟨line, inRest, isIn, same⟩ := ih read member
        exact ⟨line, List.mem_cons_of_mem _ inRest, isIn, same⟩

theorem perTestPins_rows {isWord : Char → Bool} {text : Text} {pins : Dict Text Pin}
    (accepted : perTestPins isWord text = .ok pins) :
    ∃ section_ rows, sectionOf text = some section_ ∧
      tableRows (Text.splitlines section_) = .ok rows ∧
      rows.foldlM (addPin isWord) Dict.empty = .ok pins := by
  unfold perTestPins at accepted
  split at accepted
  · cases accepted
  · rename_i section_ found
    split at accepted
    · cases accepted
    · rename_i rows read
      split at accepted
      · cases accepted
      · rename_i final run
        split at accepted
        · cases accepted
        · cases accepted
          exact ⟨section_, rows, found, read, run⟩

theorem perTestPins_get {isWord : Char → Bool} {text : Text} {pins : Dict Text Pin}
    (accepted : perTestPins isWord text = .ok pins) (file : Text) (pin : Pin) :
    pins.get file = some pin ↔ Gives isWord text file pin := by
  obtain ⟨section_, rows, found, read, run⟩ := perTestPins_rows accepted
  obtain ⟨-, each, only⟩ := addPin_run run
  constructor
  · intro here
    rcases only file pin here with before | ⟨cells, member, gives⟩
    · cases before
    · obtain ⟨line, inLines, isIn, rfl⟩ := tableRows_row read member
      exact ⟨section_, found, line, inLines, isIn, gives⟩
  · rintro ⟨other, same, line, inLines, isIn, gives⟩
    rw [found] at same
    cases same
    obtain ⟨named, -⟩ := rowPin_named gives
    obtain ⟨member, -⟩ := tableRows_mem read inLines isIn (not_isHeading named)
    obtain ⟨path, given, reads, -, ofGiven⟩ := each _ member
    rw [gives] at reads
    cases reads
    exact ofGiven pin rfl

/-- What a line of the section gives is its pin cell's sha, and the file's pin is that cell's. -/
theorem shaOf_within {isWord : Char → Bool} {text : Text} {pins : Dict Text Pin}
    (accepted : perTestPins isWord text = .ok pins) {line : Text} (member : line ∈ linesWithin text)
    {file : Text} (named : fileOf isWord line = some file) :
    shaOf isWord file line = none ∧ (cellsOf line)[1]?.bind pinCell = none ∨
      ∃ pin, (cellsOf line)[1]?.bind pinCell = some pin ∧ pins.get file = some pin ∧
        shaOf isWord file line = if 8 ≤ pin.sha.length then some pin.sha else none := by
  obtain ⟨section_, rows, found, read, run⟩ := perTestPins_rows accepted
  obtain ⟨-, each, -⟩ := addPin_run run
  have inLines : line ∈ Text.splitlines section_ := by
    obtain ⟨⟨before, after⟩, split, rfl⟩ := Option.map_eq_some_iff.mp found
    rw [linesWithin, split] at member
    exact List.mem_of_mem_tail member
  have row := named
  unfold fileOf at row
  split at row
  · rename_i opens
    obtain ⟨inRows, width⟩ :=
      tableRows_mem read inLines (inTable_of_opensRow opens) (not_isHeading row)
    obtain ⟨path, given, reads, -, ofGiven⟩ := each _ inRows
    have second : (cellsOf line)[1]? = some ((cellsOf line).getD 1 []) := by
      rw [List.getD_eq_getElem?_getD]
      simp [width]
    obtain ⟨isPath, cell⟩ := rowPin_named reads
    rw [row] at isPath
    cases isPath
    rw [shaOf, if_pos named, second, Option.bind_some, Option.bind_some]
    rcases cell with ⟨same, -⟩ | ⟨-, pin, rfl, isPin⟩
    · rw [same]
      exact .inl ⟨searchPin_same, by decide +kernel⟩
    · exact .inr ⟨pin, isPin, ofGiven pin rfl, searchPin_of_pinCell isPin⟩
  · cases row

theorem firstSha_within {isWord : Char → Bool} {text : Text} {pins : Dict Text Pin}
    (accepted : perTestPins isWord text = .ok pins) (file : Text) :
    (∀ sha, firstSha isWord file (linesWithin text) = some sha →
        (pins.get file).map Pin.sha = some sha) ∧
      (firstSha isWord file (linesWithin text) = none ↔ ¬Shown isWord text file) := by
  have named {line sha : Text} (gives : shaOf isWord file line = some sha) :
      fileOf isWord line = some file := by
    unfold shaOf at gives
    split at gives
    · assumption
    · cases gives
  constructor
  · intro sha first
    obtain ⟨line, member, gives⟩ := List.exists_of_findSome?_eq_some first
    rcases shaOf_within accepted member (named gives) with ⟨none, -⟩ | ⟨pin, -, here, shown⟩
    · rw [gives] at none
      cases none
    · rw [gives] at shown
      split at shown
      · rw [here, shown]
        rfl
      · cases shown
  · rw [firstSha, List.findSome?_eq_none_iff]
    constructor
    · rintro silent ⟨line, member, isRow, pin, isPin, enough⟩
      rcases shaOf_within accepted member isRow with ⟨-, noPin⟩ | ⟨other, isOther, -, shown⟩
      · rw [isPin] at noPin
        cases noPin
      · rw [isPin] at isOther
        cases isOther
        rw [silent line member, if_pos enough] at shown
        cases shown
    · intro notShown line member
      cases gives : shaOf isWord file line with
      | none => rfl
      | some sha =>
          have isRow := named gives
          rcases shaOf_within accepted member isRow with ⟨none, -⟩ | ⟨pin, isPin, -, shown⟩
          · rw [gives] at none
            cases none
          · rw [gives] at shown
            split at shown
            · rename_i enough
              exact absurd ⟨line, member, isRow, pin, isPin, enough⟩ notShown
            · cases shown

/-! ## Where they agree -/

/-- The text has one table of pins, to the reader of its lines: what lines outside the section
give a file is what its table does, and a file they give nothing has a row there that opens
its line and shows eight digits, or is given its pin after it. -/
structure OneTable (isWord : Char → Bool) (text : Text) : Prop where
  before : ∀ file sha, firstSha isWord file (linesBefore text) = some sha →
    ∃ pin, Gives isWord text file pin ∧ pin.sha = sha
  after : ∀ file, firstSha isWord file (linesBefore text) = none → ¬Shown isWord text file →
    ∀ sha, firstSha isWord file (linesAfter text) = some sha ↔
      ∃ pin, Gives isWord text file pin ∧ pin.sha = sha
  celled : Celled isWord (Text.splitlines text)

/-- The readers agree of every text `per_test_pins` accepts that has one table, and of no
other. -/
theorem readers_agree_iff {isWord : Char → Bool} {text : Text} {pins : Dict Text Pin}
    (accepted : perTestPins isWord text = .ok pins) :
    (∃ found, ledgerPins isWord text = some found ∧
        ∀ file, found.get file = (pins.get file).map Pin.sha) ↔ OneTable isWord text := by
  obtain ⟨returns, spec⟩ := ledgerPins_spec isWord text
  have gives (file sha : Text) : (pins.get file).map Pin.sha = some sha ↔
      ∃ pin, Gives isWord text file pin ∧ pin.sha = sha := by
    simp only [Option.map_eq_some_iff, perTestPins_get accepted]
  constructor
  · rintro ⟨found, run, agrees⟩
    have agree (file : Text) := (spec found file run).symm.trans (agrees file)
    refine ⟨fun file sha first => ?_, fun file noneBefore notShown sha => ?_, ?_⟩
    · rw [← gives, ← agree, firstSha_parts, first, Option.some_or]
    · have noneWithin := (firstSha_within accepted file).2.mpr notShown
      rw [← gives, ← agree, firstSha_parts, noneBefore, noneWithin, Option.none_or,
        Option.none_or]
    · exact returns.mp (by simp [run])
  · rintro ⟨before, after, celled⟩
    obtain ⟨found, run⟩ := Option.isSome_iff_exists.mp (returns.mpr celled)
    refine ⟨found, run, fun file => ?_⟩
    obtain ⟨within, shown⟩ := firstSha_within accepted file
    rw [spec found file run, firstSha_parts]
    cases first : firstSha isWord file (linesBefore text) with
    | some sha => exact ((gives file sha).mpr (before file sha first)).symm
    | none =>
        cases second : firstSha isWord file (linesWithin text) with
        | some sha => exact (within sha second).symm
        | none =>
            rw [Option.none_or, Option.none_or]
            refine Option.ext fun sha => ?_
            rw [after file first (shown.mp second) sha, gives]

/-- A table of two files, the row between them repeating the first one's pin. -/
def twoFiles : Text :=
  SECTION ++ ["", "", "| Core test | pin | read at | bitcoind | btclib-node |",
    "| --- | --- | --- | --- | --- |", "| `a.py` | `abcdef12` | read | pass | pass |",
    "| `a.py` (`-x`) | same | same | pass | fail (a) |",
    "| `b.py` | `1234abcd5` held | read | skip | pass |", "", "## Next"].flatMap
      fun line => '\n' :: line.toList

theorem perTestPins_twoFiles : perTestPins Char.isAlphanum twoFiles =
    .ok ((Dict.empty.set "a.py".toList ⟨"abcdef12".toList, false⟩).set "b.py".toList
      ⟨"1234abcd5".toList, true⟩) := by
  decide +kernel

theorem readers_agree_iff_long : OneTable Char.isAlphanum twoFiles := by
  refine (readers_agree_iff perTestPins_twoFiles).mp
    ⟨(Dict.empty.set "a.py".toList "abcdef12".toList).set "b.py".toList "1234abcd5".toList,
      by decide +kernel, fun file => ?_⟩
  simp only [Dict.get_set]
  split
  · rfl
  · split
    · rfl
    · rfl

def oneRow (cell : Text) : Text :=
  SECTION ++ '\n' :: "| `a.py` | ".toList ++ (cell ++ " | read | pass | pass |".toList)

/-- A pin of seven digits is a pin to the one reader, and no pin to the other. -/
theorem short_pin_dropped :
    ¬ ∀ pins, perTestPins Char.isAlphanum (oneRow "`abcdef1`".toList) = .ok pins →
      ∃ found, ledgerPins Char.isAlphanum (oneRow "`abcdef1`".toList) = some found ∧
        ∀ file, found.get file = (pins.get file).map Pin.sha := by
  intro agrees
  have accepted : perTestPins Char.isAlphanum (oneRow "`abcdef1`".toList) =
      .ok (Dict.empty.set "a.py".toList ⟨"abcdef1".toList, false⟩) := by decide +kernel
  have read : ledgerPins Char.isAlphanum (oneRow "`abcdef1`".toList) = some Dict.empty := by
    decide +kernel
  obtain ⟨found, run, agree⟩ := agrees _ accepted
  rw [read] at run
  cases run
  have atFile := agree "a.py".toList
  rw [Dict.get_set, if_pos rfl] at atFile
  cases atFile

end BitcoinNodeTests.Census
