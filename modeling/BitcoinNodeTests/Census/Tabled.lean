import BitcoinNodeTests.Foundation.Loop
import BitcoinNodeTests.Census.Pinned

/-!
# What the table pins

The rows of the per-test table, what a first cell and a pin cell say, and the pin of a row:
its own, or that of the nearest row above it naming its file.  `per_test_pins` returns
exactly these pins, or refuses exactly the texts whose table leaves one open.
-/

set_option autoImplicit false

namespace BitcoinNodeTests.Census

open Foundation

/-! ## The table -/

def isRow (line : Text) : Bool := inTable line && !isHeading (cellsOf line)

def sectionLines (text : Text) : List Text := ((sectionOf text).map Text.splitlines).getD []

def rowsOf (text : Text) : List (List Text) := ((sectionLines text).filter isRow).map cellsOf

def firstCell (row : List Text) : Text := row.headD []

def secondCell (row : List Text) : Text := row.getD 1 []

def NamesFile (isWord : Char → Bool) (cell file : Text) : Prop :=
  ∃ stem rest, stem ≠ [] ∧ file = stem ++ ".py".toList ∧
    (∀ char ∈ file, isFileChar isWord char = true) ∧ cell = '`' :: (file ++ '`' :: rest)

structure IsSha (sha : Text) : Prop where
  digits : ∀ char ∈ sha, isHex char = true
  least : 7 ≤ sha.length
  most : sha.length ≤ 40

def markOf (held : Bool) : Text := if held then " held".toList else []

/-- `_PIN_CELL` matches the cell: a sha, bare or linked to its own commit, and the mark of a
held one. -/
def PinsTo (cell : Text) (pin : Pin) : Prop :=
  IsSha pin.sha ∧
    (cell = '`' :: (pin.sha ++ '`' :: markOf pin.held) ∨
      cell = '[' :: '`' :: (pin.sha ++ '`' :: (COMMIT_LINK ++
        '/' :: (pin.sha ++ ')' :: markOf pin.held))))

/-- The pin of a row below the rows above it, the nearest first. -/
inductive PinOf (isWord : Char → Bool) (file : Text) :
    List (List Text) → List Text → Pin → Prop where
  | own {above : List (List Text)} {row : List Text} {pin : Pin}
      (pins : PinsTo (secondCell row) pin) : PinOf isWord file above row pin
  | same {between earlier : List (List Text)} {row nearest : List Text} {pin : Pin}
      (same : secondCell row = SAME) (names : NamesFile isWord (firstCell nearest) file)
      (others : ∀ other ∈ between, ¬ NamesFile isWord (firstCell other) file)
      (ofNearest : PinOf isWord file earlier nearest pin) :
      PinOf isWord file (between ++ nearest :: earlier) row pin

/-- The pins have the files the rows name as their keys, and each row's own pin. -/
structure Tabled (isWord : Char → Bool) (rows : List (List Text)) (pins : Dict Text Pin) :
    Prop where
  files : ∀ file, (pins.get file).isSome ↔ ∃ row ∈ rows, NamesFile isWord (firstCell row) file
  agrees : ∀ before row after, rows = before ++ row :: after →
    ∃ file pin, NamesFile isWord (firstCell row) file ∧
      PinOf isWord file before.reverse row pin ∧ pins.get file = some pin

inductive Refuses (isWord : Char → Bool) (text : Text) : Prop where
  | noSection (missing : ¬ SECTION <:+: text)
  | noRow (empty : rowsOf text = [])
  | width {row : List Text} (member : row ∈ rowsOf text) (wide : row.length ≠ 5)
  | noFile {row : List Text} (member : row ∈ rowsOf text)
      (unread : ∀ file, ¬ NamesFile isWord (firstCell row) file)
  | noPin {row : List Text} (member : row ∈ rowsOf text) (notSame : secondCell row ≠ SAME)
      (unread : ∀ pin, ¬ PinsTo (secondCell row) pin)
  | noneAbove {before after : List (List Text)} {row : List Text} {file : Text}
      (rows : rowsOf text = before ++ row :: after) (same : secondCell row = SAME)
      (names : NamesFile isWord (firstCell row) file)
      (others : ∀ other ∈ before, ¬ NamesFile isWord (firstCell other) file)
  | twoPins {row other : List Text} {file : Text} {pin otherPin : Pin}
      (member : row ∈ rowsOf text) (otherMember : other ∈ rowsOf text)
      (names : NamesFile isWord (firstCell row) file)
      (otherNames : NamesFile isWord (firstCell other) file)
      (pins : PinsTo (secondCell row) pin) (otherPins : PinsTo (secondCell other) otherPin)
      (differ : pin ≠ otherPin)

/-! ## The two patterns -/

theorem rowFile_eq_some_iff {isWord : Char → Bool} {cell file : Text} :
    rowFile isWord cell = some file ↔ NamesFile isWord cell file := by
  constructor
  · intro read
    unfold rowFile at read
    split at read
    · rename_i rest
      dsimp only at read
      split at read
      · rename_i conditions
        obtain ⟨closes, enough, isPy⟩ := conditions
        cases read
        obtain ⟨stem, isFile⟩ := List.isSuffixOf_iff_suffix.mp isPy
        have whole := Text.takeWhile_drop (isFileChar isWord) rest
        have digits : ∀ char ∈ rest.takeWhile (isFileChar isWord), isFileChar isWord char = true :=
          fun char member => List.mem_takeWhile_imp member
        generalize rest.takeWhile (isFileChar isWord) = file at *
        obtain ⟨after, isRest⟩ := List.head?_eq_some_iff.mp closes
        refine ⟨stem, after, ?_, isFile.symm, digits, by rw [← isRest, ← whole]⟩
        rintro rfl
        rw [← isFile] at enough
        exact absurd enough (by decide)
      · cases read
    · cases read
  · rintro ⟨stem, rest, some, rfl, all, rfl⟩
    have run := Text.takeWhile_whole all (by simp [isFileChar] : isFileChar isWord '`' = false) rest
    have long : 1 ≤ stem.length := List.length_pos_iff.mpr some
    have isPy : (".py".toList).isSuffixOf (stem ++ ".py".toList) = true :=
      List.isSuffixOf_iff_suffix.mpr ⟨stem, rfl⟩
    have size : (stem ++ ".py".toList).length = stem.length + 3 := List.length_append
    rw [rowFile, run, List.drop_left]
    rw [if_pos ⟨rfl, by omega, isPy⟩]

theorem heldMark_eq_some_iff {mark : Text} {held : Bool} :
    heldMark mark = some held ↔ mark = markOf held := by
  unfold heldMark markOf
  by_cases empty : mark = []
  · cases held with
    | false => simp [empty]
    | true => simp [empty]
  · by_cases isHeld : mark = " held".toList
    · cases held with
      | false => simp [isHeld]
      | true => simp [isHeld]
    · rw [if_neg empty, if_neg isHeld]
      cases held with
      | false => simp [empty]
      | true => simpa using isHeld

theorem pinCell_eq_some_iff {cell : Text} {pin : Pin} :
    pinCell cell = some pin ↔ PinsTo cell pin := by
  obtain ⟨sha, held⟩ := pin
  constructor
  · intro read
    have digits (rest : Text) : ∀ char ∈ rest.takeWhile isHex, isHex char = true :=
      fun char member => List.mem_takeWhile_imp member
    unfold pinCell at read
    split at read
    · rename_i rest
      dsimp only at read
      split at read
      · rename_i mark closes
        split at read
        · rename_i size
          obtain ⟨_, isMark, isPin⟩ := Option.map_eq_some_iff.mp read
          cases isPin
          have whole := Text.takeWhile_drop isHex rest
          rw [closes, heldMark_eq_some_iff.mp isMark] at whole
          exact ⟨⟨digits rest, size.1, size.2⟩, .inl (congrArg _ whole)⟩
        · cases read
      · cases read
    · rename_i rest
      dsimp only at read
      split at read
      · rename_i conditions
        obtain ⟨least, most, later, isLink⟩ := conditions
        obtain ⟨_, isMark, isPin⟩ := Option.map_eq_some_iff.mp read
        cases isPin
        have whole := Text.takeWhile_drop isHex rest
        rw [← isLink, List.drop_left, heldMark_eq_some_iff] at isMark
        rw [← isLink, isMark] at whole
        refine ⟨⟨digits rest, least, most⟩, .inr ?_⟩
        generalize rest.takeWhile isHex = sha at *
        simpa using whole
      · cases read
    · cases read
  · rintro ⟨⟨digits, least, most⟩, bare | linked⟩
    · have run := Text.takeWhile_whole digits (by decide : isHex '`' = false) (markOf held)
      have mark := heldMark_eq_some_iff.mpr (rfl : markOf held = markOf held)
      dsimp only at bare run
      rw [bare, pinCell]
      simp only [run, List.drop_left]
      rw [if_pos ⟨least, most⟩, mark]
      rfl
    · have run := Text.takeWhile_whole digits (by decide : isHex '`' = false)
        (COMMIT_LINK ++ '/' :: (sha ++ ')' :: markOf held))
      have mark := heldMark_eq_some_iff.mpr (rfl : markOf held = markOf held)
      have link : '`' :: (COMMIT_LINK ++ '/' :: (sha ++ ')' :: markOf held)) =
          '`' :: (COMMIT_LINK ++ '/' :: (sha ++ [')'])) ++ markOf held := by simp
      dsimp only at linked run
      rw [linked, pinCell]
      simp only [run, List.drop_left]
      rw [link, if_pos ⟨least, most, List.prefix_append _ _⟩, List.drop_left, mark]
      rfl

/-! ## What a row reads -/

theorem rowPin_eq_ok_iff {isWord : Char → Bool} {row : List Text} {file : Text}
    {given : Option Pin} :
    rowPin isWord (firstCell row) (secondCell row) = .ok (file, given) ↔
      NamesFile isWord (firstCell row) file ∧
        (secondCell row = SAME ∧ given = none ∨
          secondCell row ≠ SAME ∧ ∃ pin, given = some pin ∧ PinsTo (secondCell row) pin) := by
  unfold rowPin
  rw [← rowFile_eq_some_iff]
  cases named : rowFile isWord (firstCell row) with
  | none => simp
  | some path =>
      dsimp only
      by_cases same : secondCell row = SAME
      · simp [same, eq_comm]
      · rw [if_neg same]
        cases pinned : pinCell (secondCell row) with
        | none =>
            have unread : ∀ pin, ¬ PinsTo (secondCell row) pin := by
              intro pin pins
              rw [← pinCell_eq_some_iff, pinned] at pins
              cases pins
            simp [unread, same]
        | some pin =>
            have only : ∀ other, PinsTo (secondCell row) other ↔ pin = other := by
              intro other
              rw [← pinCell_eq_some_iff, pinned, Option.some_inj]
            simp [same, only, eq_comm]

theorem rowPin_error {isWord : Char → Bool} {row : List Text} {error : PinError}
    (raises : rowPin isWord (firstCell row) (secondCell row) = .error error) :
    (∀ file, ¬ NamesFile isWord (firstCell row) file) ∨
      secondCell row ≠ SAME ∧ ∀ pin, ¬ PinsTo (secondCell row) pin := by
  unfold rowPin at raises
  split at raises
  · rename_i unread
    refine .inl fun file names => ?_
    rw [← rowFile_eq_some_iff, unread] at names
    cases names
  · split at raises
    · cases raises
    · rename_i notSame
      split at raises
      · rename_i unread
        refine .inr ⟨notSame, fun pin pins => ?_⟩
        rw [← pinCell_eq_some_iff, unread] at pins
        cases pins
      · cases raises

theorem not_pinsTo_same {pin : Pin} : ¬ PinsTo SAME pin := by
  rintro ⟨-, bare | linked⟩
  · exact absurd (List.cons.inj bare).1 (by decide)
  · exact absurd (List.cons.inj linked).1 (by decide)

/-! ## The loop -/

theorem tableRows_of_lines (lines : List Text) :
    (∃ rows, tableRows lines = .ok rows ∧ rows = (lines.filter isRow).map cellsOf ∧
        ∀ row ∈ rows, row.length = 5) ∨
      ∃ error, tableRows lines = .error error ∧
        ∃ row ∈ (lines.filter isRow).map cellsOf, row.length ≠ 5 := by
  induction lines with
  | nil => exact .inl ⟨[], rfl, rfl, by simp⟩
  | cons line rest ih =>
      rw [tableRows, List.filter_cons]
      by_cases row : isRow line = true
      · rw [if_pos row, if_pos (by simpa [isRow] using row), List.map_cons]
        by_cases wide : (cellsOf line).length = 5
        · have fits : ¬ (cellsOf line).length ≠ PER_TEST_HEADER.length := by
            simp [wide, PER_TEST_HEADER]
          rw [if_neg fits]
          rcases ih with ⟨rows, read, rfl, all⟩ | ⟨error, read, other, member, notWide⟩
          · refine .inl ⟨_, by rw [read]; rfl, rfl, ?_⟩
            intro other member
            rcases List.mem_cons.mp member with rfl | later
            · exact wide
            · exact all other later
          · exact .inr ⟨error, by rw [read]; rfl, other, List.mem_cons_of_mem _ member, notWide⟩
        · have unfit : (cellsOf line).length ≠ PER_TEST_HEADER.length := by
            simpa [PER_TEST_HEADER] using wide
          rw [if_pos unfit]
          exact .inr ⟨_, rfl, _, List.mem_cons_self, wide⟩
      · rw [if_neg row, if_neg (by simpa [isRow] using row)]
        exact ih

theorem addPin_error {isWord : Char → Bool} {pins : Dict Text Pin} {row : List Text}
    {error : PinError} (raises : addPin isWord pins row = .error error) :
    (∀ file, ¬ NamesFile isWord (firstCell row) file) ∨
      (secondCell row ≠ SAME ∧ ∀ pin, ¬ PinsTo (secondCell row) pin) ∨
      ∃ file, NamesFile isWord (firstCell row) file ∧
        (secondCell row = SAME ∧ pins.get file = none ∨
          ∃ pin above, PinsTo (secondCell row) pin ∧ pins.get file = some above ∧ pin ≠ above) := by
  unfold addPin at raises
  dsimp only at raises
  split at raises
  · rename_i unread
    exact (rowPin_error unread).elim .inl fun noPin => .inr (.inl noPin)
  · rename_i file read
    obtain ⟨names, ⟨same, -⟩ | ⟨-, _, given, -⟩⟩ := rowPin_eq_ok_iff.mp read
    · split at raises
      · rename_i absent
        exact .inr (.inr ⟨file, names, .inl ⟨same, Option.isNone_iff_eq_none.mp absent⟩⟩)
      · cases raises
    · cases given
  · rename_i file pin read
    obtain ⟨names, ⟨-, given⟩ | ⟨-, _, given, pinned⟩⟩ := rowPin_eq_ok_iff.mp read
    · cases given
    · cases given
      split at raises
      · cases raises
      · rename_i above present
        split at raises
        · cases raises
        · rename_i differ
          exact .inr (.inr ⟨file, names, .inr ⟨pin, above, pinned, present, Ne.symm differ⟩⟩)

/-- A row that pins a file, or repeats one above it, leaves the file its pin. -/
theorem addPin_run_row {isWord : Char → Bool} {rows : List (List Text)} {pins : Dict Text Pin}
    (run : rows.foldlM (addPin isWord) Dict.empty = .ok pins) {row : List Text}
    (member : row ∈ rows) :
    ∃ file, NamesFile isWord (firstCell row) file ∧ (pins.get file).isSome ∧
      (secondCell row = SAME ∨ ∃ pin, PinsTo (secondCell row) pin ∧ pins.get file = some pin) := by
  obtain ⟨-, each, -⟩ := addPin_run run
  obtain ⟨file, given, read, present, ofGiven⟩ := each row member
  obtain ⟨names, ⟨same, -⟩ | ⟨-, pin, rfl, pinned⟩⟩ := rowPin_eq_ok_iff.mp read
  · exact ⟨file, names, present, .inl same⟩
  · exact ⟨file, names, present, .inr ⟨pin, pinned, ofGiven pin rfl⟩⟩

theorem NamesFile.unique {isWord : Char → Bool} {cell file other : Text}
    (names : NamesFile isWord cell file) (otherNames : NamesFile isWord cell other) :
    file = other := by
  rw [← rowFile_eq_some_iff] at names otherNames
  exact Option.some.inj (names.symm.trans otherNames)

theorem PinsTo.unique {cell : Text} {pin other : Pin} (pins : PinsTo cell pin)
    (otherPins : PinsTo cell other) : pin = other := by
  rw [← pinCell_eq_some_iff] at pins otherPins
  exact Option.some.inj (pins.symm.trans otherPins)

theorem addPin_run_only {isWord : Char → Bool} {rows : List (List Text)} {pins : Dict Text Pin}
    (run : rows.foldlM (addPin isWord) Dict.empty = .ok pins) {file : Text} {pin : Pin}
    (here : pins.get file = some pin) :
    ∃ row ∈ rows, NamesFile isWord (firstCell row) file ∧ PinsTo (secondCell row) pin := by
  obtain ⟨-, -, only⟩ := addPin_run run
  rcases only file pin here with before | ⟨row, member, read⟩
  · cases before
  · obtain ⟨names, ⟨-, given⟩ | ⟨-, _, given, pinned⟩⟩ := rowPin_eq_ok_iff.mp read
    · cases given
    · cases given
      exact ⟨row, member, names, pinned⟩

theorem named_above {isWord : Char → Bool} {before after : List (List Text)} {row : List Text}
    {pins : Dict Text Pin}
    (run : (before ++ row :: after).foldlM (addPin isWord) Dict.empty = .ok pins)
    (same : secondCell row = SAME) {file : Text} (names : NamesFile isWord (firstCell row) file) :
    ∃ above ∈ before, NamesFile isWord (firstCell above) file := by
  obtain ⟨reached, next, first, step, -⟩ := Loop.ok_split run
  obtain ⟨path, given, read, present, -, other⟩ := addPin_spec step
  obtain ⟨namesPath, ⟨-, rfl⟩ | ⟨notSame, -⟩⟩ := rowPin_eq_ok_iff.mp read
  · obtain rfl := names.unique namesPath
    rw [other, ite_self, Option.or_none] at present
    obtain ⟨pin, here⟩ := Option.isSome_iff_exists.mp present
    obtain ⟨above, member, namesAbove, -⟩ := addPin_run_only first here
    exact ⟨above, member, namesAbove⟩
  · exact absurd same notSame

/-- Each row's pin, read off the rows above it, is its file's. -/
theorem pinOf_run {isWord : Char → Bool} {rows : List (List Text)} {pins : Dict Text Pin}
    (run : rows.foldlM (addPin isWord) Dict.empty = .ok pins) (above : List (List Text)) :
    ∀ row after, rows = above.reverse ++ row :: after →
      ∃ file pin, NamesFile isWord (firstCell row) file ∧ PinOf isWord file above row pin ∧
        pins.get file = some pin := by
  induction size : above.length using Nat.strong_induction_on generalizing above with
  | _ count ih =>
      subst size
      rintro row after rfl
      have member : row ∈ above.reverse ++ row :: after :=
        List.mem_append_right _ List.mem_cons_self
      obtain ⟨file, names, present, same | ⟨pin, pinned, here⟩⟩ := addPin_run_row run member
      · obtain ⟨_, inBefore, namesAbove⟩ := named_above run same names
        have found : (above.find? fun other => rowFile isWord (firstCell other) = some file).isSome := by
          rw [List.find?_isSome]
          exact ⟨_, List.mem_reverse.mp inBefore, by simpa [rowFile_eq_some_iff] using namesAbove⟩
        obtain ⟨nearest, isNearest⟩ := Option.isSome_iff_exists.mp found
        obtain ⟨namesNearest, between, earlier, rfl, others⟩ :=
          List.find?_eq_some_iff_append.mp isNearest
        simp only [decide_eq_true_eq, rowFile_eq_some_iff] at namesNearest
        have rest : (between ++ nearest :: earlier).reverse ++ row :: after =
            earlier.reverse ++ nearest :: (between.reverse ++ row :: after) := by simp
        obtain ⟨path, pin, namesPath, ofNearest, here⟩ :=
          ih earlier.length (by simp; omega) earlier rfl nearest _ rest
        obtain rfl := namesNearest.unique namesPath
        refine ⟨file, pin, names, .same same namesNearest ?_ ofNearest, here⟩
        intro other inBetween namesOther
        have notFound := others other inBetween
        simp [rowFile_eq_some_iff.mpr namesOther] at notFound
      · exact ⟨file, pin, names, .own pinned, here⟩

/-! ## What is returned and what is refused -/

theorem sectionOf_eq_none_iff (text : Text) : sectionOf text = none ↔ ¬ SECTION <:+: text := by
  rw [sectionOf, Option.map_eq_none_iff, Text.splitOnce_eq_none_iff section_ne_nil]

theorem perTestPins_eq_ok_iff {isWord : Char → Bool} {text : Text} {pins : Dict Text Pin} :
    perTestPins isWord text = .ok pins ↔
      SECTION <:+: text ∧ (∀ row ∈ rowsOf text, row.length = 5) ∧ pins.entries ≠ [] ∧
        (rowsOf text).foldlM (addPin isWord) Dict.empty = .ok pins := by
  unfold perTestPins rowsOf sectionLines
  cases found : sectionOf text with
  | none =>
      have missing := (sectionOf_eq_none_iff text).mp found
      simp [missing]
  | some section_ =>
      have there : SECTION <:+: text := by
        by_contra missing
        rw [(sectionOf_eq_none_iff text).mpr missing] at found
        cases found
      rw [Option.map_some, Option.getD_some]
      dsimp only
      rcases tableRows_of_lines (Text.splitlines section_) with
        ⟨rows, read, rfl, wide⟩ | ⟨error, read, row, member, notWide⟩
      · rw [read]
        dsimp only
        cases run : (((Text.splitlines section_).filter isRow).map cellsOf).foldlM (addPin isWord)
            Dict.empty with
        | error error => simp
        | ok final =>
            dsimp only
            by_cases empty : final.entries = []
            · rw [if_pos empty]
              constructor
              · intro refused
                cases refused
              · rintro ⟨-, -, some, same⟩
                cases same
                exact absurd empty some
            · rw [if_neg empty]
              constructor
              · intro same
                cases same
                exact ⟨there, wide, empty, rfl⟩
              · rintro ⟨-, -, -, same⟩
                exact same
      · rw [read]
        constructor
        · intro refused
          cases refused
        · rintro ⟨-, wide, -⟩
          exact absurd (wide row member) notWide

theorem Refuses.raises {isWord : Char → Bool} {text : Text} (refuses : Refuses isWord text)
    (pins : Dict Text Pin) : perTestPins isWord text ≠ .ok pins := by
  intro accepted
  obtain ⟨there, wide, some, run⟩ := perTestPins_eq_ok_iff.mp accepted
  cases refuses with
  | noSection missing => exact missing there
  | noRow empty =>
      rw [empty] at run
      cases run
      exact some rfl
  | width member notWide => exact notWide (wide _ member)
  | noFile member unread =>
      obtain ⟨file, names, -⟩ := addPin_run_row run member
      exact unread file names
  | noPin member notSame unread =>
      obtain ⟨_, -, -, same | ⟨pin, pinned, -⟩⟩ := addPin_run_row run member
      · exact notSame same
      · exact unread pin pinned
  | noneAbove rows same names others =>
      rw [rows] at run
      obtain ⟨above, member, namesAbove⟩ := named_above run same names
      exact others above member namesAbove
  | twoPins member otherMember names otherNames pinned otherPinned differ =>
      obtain ⟨_, sameNames, -, same | ⟨_, samePins, here⟩⟩ := addPin_run_row run member
      · exact not_pinsTo_same (same ▸ pinned)
      obtain ⟨_, sameOther, -, same | ⟨_, otherPins, there⟩⟩ := addPin_run_row run otherMember
      · exact not_pinsTo_same (same ▸ otherPinned)
      obtain rfl := names.unique sameNames
      obtain rfl := otherNames.unique sameOther
      obtain rfl := pinned.unique samePins
      obtain rfl := otherPinned.unique otherPins
      exact differ (Option.some.inj (here.symm.trans there))

theorem Refuses.of_row {isWord : Char → Bool} {text : Text} {before after : List (List Text)}
    {row : List Text} {reached : Dict Text Pin} {error : PinError}
    (rows : rowsOf text = before ++ row :: after)
    (first : before.foldlM (addPin isWord) Dict.empty = .ok reached)
    (raises : addPin isWord reached row = .error error) : Refuses isWord text := by
  have member : row ∈ rowsOf text := rows ▸ List.mem_append_right _ List.mem_cons_self
  rcases addPin_error raises with unread | ⟨notSame, unread⟩ | ⟨file, names, ⟨same, absent⟩ | found⟩
  · exact .noFile member unread
  · exact .noPin member notSame unread
  · refine .noneAbove rows same names fun other inBefore namesOther => ?_
    obtain ⟨path, namesPath, present, -⟩ := addPin_run_row first inBefore
    obtain rfl := namesOther.unique namesPath
    rw [absent] at present
    cases present
  · obtain ⟨pin, above, pinned, here, differ⟩ := found
    obtain ⟨other, inBefore, namesOther, pinsAbove⟩ := addPin_run_only first here
    exact .twoPins member (rows ▸ List.mem_append_left _ inBefore) names namesOther pinned pinsAbove
      differ

theorem refuses_of_error {isWord : Char → Bool} {text : Text}
    (raises : ∀ pins, perTestPins isWord text ≠ .ok pins) : Refuses isWord text := by
  by_cases there : SECTION <:+: text
  · by_cases wide : ∀ row ∈ rowsOf text, row.length = 5
    · cases run : (rowsOf text).foldlM (addPin isWord) Dict.empty with
      | error error =>
          obtain ⟨before, row, after, reached, rows, first, raised⟩ := Loop.error_split run
          exact .of_row rows first raised
      | ok pins =>
          by_cases empty : rowsOf text = []
          · exact .noRow empty
          · obtain ⟨row, rest, rows⟩ := List.exists_cons_of_ne_nil empty
            have member : row ∈ rowsOf text := rows ▸ List.mem_cons_self
            obtain ⟨file, -, present, -⟩ := addPin_run_row run member
            refine absurd (perTestPins_eq_ok_iff.mpr ⟨there, wide, ?_, run⟩) (raises pins)
            intro noEntry
            rw [Dict.get, noEntry] at present
            cases present
    · push Not at wide
      obtain ⟨row, member, notWide⟩ := wide
      exact .width member notWide
  · exact .noSection there

/-- `per_test_pins` returns the pins of the table, or refuses what leaves one open. -/
theorem perTestPins_tabled (isWord : Char → Bool) (text : Text) :
    (∀ pins, perTestPins isWord text = .ok pins → Tabled isWord (rowsOf text) pins) ∧
      ((∃ error, perTestPins isWord text = .error error) ↔ Refuses isWord text) := by
  constructor
  · intro pins accepted
    obtain ⟨-, -, -, run⟩ := perTestPins_eq_ok_iff.mp accepted
    refine ⟨fun file => ⟨fun present => ?_, ?_⟩, fun before row after rows => ?_⟩
    · obtain ⟨pin, here⟩ := Option.isSome_iff_exists.mp present
      obtain ⟨row, member, names, -⟩ := addPin_run_only run here
      exact ⟨row, member, names⟩
    · rintro ⟨row, member, names⟩
      obtain ⟨path, namesPath, present, -⟩ := addPin_run_row run member
      rwa [names.unique namesPath]
    · exact pinOf_run run before.reverse row after (by rw [List.reverse_reverse]; exact rows)
  · cases answer : perTestPins isWord text with
    | ok pins =>
        constructor
        · rintro ⟨error, raised⟩
          cases raised
        · exact fun refuses => absurd answer (refuses.raises pins)
    | error error =>
        refine ⟨fun _ => refuses_of_error fun pins accepted => ?_, fun _ => ⟨error, rfl⟩⟩
        rw [answer] at accepted
        cases accepted

end BitcoinNodeTests.Census
