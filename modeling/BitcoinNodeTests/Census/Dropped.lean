import BitcoinNodeTests.Census.Tabled

/-!
# The rows the verdict reads

`ledger_cells` takes the lines that open with a bar, a blank and a backtick for the table's
rows.  Of a table `per_test_pins` accepts these are all its rows, or it drops the others
unless two that do open so share a first cell.
-/

set_option autoImplicit false

namespace BitcoinNodeTests.Census

open Foundation

def tableEntries (text : Text) : List (Text × Text) :=
  (rowsOf text).map fun row => (firstCell row, row.getD 4 [])

/-- `ledger_cells` raises, or returns one entry for each row of the table. -/
def DropsNone (text : Text) : Prop :=
  (∃ error, ledgerCells text = .error error) ∨
    ∃ cells, ledgerCells text = .ok cells ∧ cells.entries = tableEntries text

def openRows (text : Text) : List (List Text) :=
  ((sectionLines text).filter opensRow).map cellsOf

/-! ## A line that opens like a row -/

theorem firstCell_of_opensRow {line : Text} (opens : opensRow line = true) :
    ∃ rest, firstCell (cellsOf line) = '`' :: rest := by
  obtain ⟨rest, rfl⟩ := List.isPrefixOf_iff_prefix.mp opens
  have starts : "| `".toList ++ rest = '|' :: ([' '] ++ '`' :: rest) := rfl
  obtain ⟨kept, stripped⟩ := @Text.strip_through Text.isSpace '|' '`' (by decide) (by decide) [' '] rest
  have bare (text : Text) : Text.strip (· = '|') ('|' :: text) = Text.strip (· = '|') text := rfl
  obtain ⟨inner, unbarred⟩ :=
    @Text.strip_through (· = '|') ' ' '`' (by decide) (by decide) [] kept
  have blank (text : Text) : Text.strip Text.isSpace (' ' :: text) = Text.strip Text.isSpace text :=
    rfl
  have opening := Text.splitFrom_open ['|'] 0 [' ', '`'] [] inner
  obtain ⟨last, cell⟩ := @Text.strip_cons Text.isSpace '`' (by decide)
    ((Text.splitFrom ['|'] 0 [] inner).headD [])
  refine ⟨last, ?_⟩
  have parts : Text.split ['|'] (' ' :: ([] ++ '`' :: inner)) =
      Text.splitFrom ['|'] 0 ([' ', '`'] ++ []) inner := rfl
  rw [firstCell, cellsOf, starts, stripped, List.singleton_append, bare]
  rw [List.nil_append, List.nil_append] at unbarred
  rw [unbarred, ← List.nil_append ('`' :: inner), parts, opening, List.map_cons, List.headD_cons]
  exact (blank _).trans cell

theorem isRow_of_opensRow {line : Text} (opens : opensRow line = true) : isRow line = true := by
  obtain ⟨rest, first⟩ := firstCell_of_opensRow opens
  have heads : isHeading (cellsOf line) = false := by
    cases cells : cellsOf line with
    | nil =>
        rw [cells] at first
        cases first
    | cons cell others =>
        rw [cells] at first
        obtain rfl : cell = '`' :: rest := first
        exact not_isHeading_backtick rest others
  rw [isRow, inTable_of_opensRow opens, heads]
  rfl

/-! ## The loop -/

theorem eq_five {row : List Text} (wide : row.length = 5) :
    ∃ first second third fourth fifth, row = [first, second, third, fourth, fifth] := by
  obtain ⟨first, others, rfl⟩ := List.exists_cons_of_length_eq_add_one wide
  obtain ⟨second, third, fourth, last, rfl⟩ := List.length_eq_four.mp (Nat.succ.inj wide)
  exact ⟨first, second, third, fourth, last, rfl⟩

theorem addRow_of_opensRow {line : Text} (opens : opensRow line = true)
    (wide : (cellsOf line).length = 5) (cells : Dict Text Text) :
    addRow cells line = if (cells.get (firstCell (cellsOf line))).isSome then
        .error (.twoRows (firstCell (cellsOf line)))
      else .ok (cells.set (firstCell (cellsOf line)) ((cellsOf line).getD 4 [])) := by
  obtain ⟨first, second, third, fourth, fifth, row⟩ := eq_five wide
  rw [addRow, if_pos opens, row]
  rfl

/-- The loop over lines that open rows five cells wide: each row's cells are entered, or two
rows share a first cell. -/
theorem foldlM_addRow {lines : List Text}
    (rows : ∀ line ∈ lines, opensRow line = true ∧ (cellsOf line).length = 5)
    (cells : Dict Text Text) :
    (∃ final, lines.foldlM addRow cells = .ok final ∧
        final.entries = cells.entries ++
          (lines.map cellsOf).map fun row => (firstCell row, row.getD 4 [])) ∨
      (∃ error, lines.foldlM addRow cells = .error error) ∧
        ¬ (cells.entries.map Prod.fst ++ (lines.map cellsOf).map firstCell).Nodup := by
  induction lines generalizing cells with
  | nil => exact .inl ⟨cells, rfl, (List.append_nil _).symm⟩
  | cons line rest ih =>
      obtain ⟨opens, wide⟩ := rows line List.mem_cons_self
      rw [List.foldlM_cons, addRow_of_opensRow opens wide]
      cases there : cells.get (firstCell (cellsOf line)) with
      | some cell =>
          refine .inr ⟨⟨_, rfl⟩, fun distinct => ?_⟩
          have old : firstCell (cellsOf line) ∈ cells.entries.map Prod.fst := by
            by_contra new
            rw [Dict.get, Dict.valueIn_eq_none.mpr new] at there
            cases there
          exact (List.nodup_append.mp distinct).2.2 _ old _ List.mem_cons_self rfl
      | none =>
          rw [if_neg (by simp)]
          have entries := Dict.entries_set_of_new there ((cellsOf line).getD 4 [])
          rcases ih (fun other member => rows other (List.mem_cons_of_mem _ member))
              (cells.set (firstCell (cellsOf line)) ((cellsOf line).getD 4 [])) with
            ⟨final, run, all⟩ | ⟨⟨error, run⟩, repeated⟩
          · refine .inl ⟨final, run, ?_⟩
            rw [all, entries]
            simp
          · refine .inr ⟨⟨error, run⟩, ?_⟩
            rw [entries] at repeated
            simpa using repeated

theorem ledgerCells_eq {text : Text} (there : SECTION <:+: text) :
    ledgerCells text = ((sectionLines text).filter opensRow).foldlM addRow Dict.empty := by
  unfold ledgerCells sectionLines
  cases found : sectionOf text with
  | none => exact absurd there ((sectionOf_eq_none_iff text).mp found)
  | some section_ =>
      refine Loop.foldlM_filter (fun cells line closed => ?_) (Text.splitlines section_) Dict.empty
      rw [addRow, if_neg (by simp [closed])]

theorem filter_opensRow (lines : List Text) :
    lines.filter opensRow = (lines.filter isRow).filter opensRow := by
  rw [List.filter_filter]
  refine List.filter_congr fun line _ => ?_
  cases opens : opensRow line with
  | false => rfl
  | true => rw [isRow_of_opensRow opens]; rfl

/-! ## What is dropped -/

/-- Of a table that was accepted no row is dropped where each opens its line, or where two
that do share a first cell, and only there. -/
theorem ledgerCells_dropsNone_iff {isWord : Char → Bool} {text : Text} {pins : Dict Text Pin}
    (accepted : perTestPins isWord text = .ok pins) :
    DropsNone text ↔
      (∀ line ∈ sectionLines text, isRow line = true → opensRow line = true) ∨
        ¬ ((openRows text).map firstCell).Nodup := by
  obtain ⟨there, wide, -, -⟩ := perTestPins_eq_ok_iff.mp accepted
  have rows : ∀ line ∈ (sectionLines text).filter opensRow,
      opensRow line = true ∧ (cellsOf line).length = 5 := by
    intro line member
    obtain ⟨inLines, opens⟩ := List.mem_filter.mp member
    refine ⟨opens, wide _ (List.mem_map_of_mem ?_)⟩
    exact List.mem_filter.mpr ⟨inLines, isRow_of_opensRow opens⟩
  unfold DropsNone
  rw [ledgerCells_eq there]
  rcases foldlM_addRow rows Dict.empty with ⟨final, run, entries⟩ | ⟨raised, repeated⟩
  · have distinct : ((openRows text).map firstCell).Nodup := by
      have keys := final.distinct
      rw [entries] at keys
      simpa [openRows, Dict.empty, Function.comp_def] using keys
    rw [run]
    constructor
    · rintro (⟨error, raised⟩ | ⟨cells, same, all⟩)
      · cases raised
      · cases same
        rw [entries, tableEntries, rowsOf, filter_opensRow] at all
        have sizes := congrArg List.length all
        simp only [Dict.empty, List.nil_append, List.length_map] at sizes
        have every := List.length_filter_eq_length_iff.mp sizes
        exact .inl fun line member row => every line (List.mem_filter.mpr ⟨member, row⟩)
    · rintro (every | repeated)
      · refine .inr ⟨final, rfl, ?_⟩
        have all : ((sectionLines text).filter isRow).filter opensRow =
            (sectionLines text).filter isRow := by
          refine List.filter_eq_self.mpr fun line member => ?_
          obtain ⟨inLines, row⟩ := List.mem_filter.mp member
          exact every line inLines row
        rw [entries, filter_opensRow, all]
        rfl
      · exact absurd distinct repeated
  · refine ⟨fun _ => .inr ?_, fun _ => .inl raised⟩
    simpa [openRows, Dict.empty] using repeated

theorem ledgerCells_dropsNone_iff_twoFiles : DropsNone twoFiles := by
  refine (ledgerCells_dropsNone_iff perTestPins_twoFiles).mpr (.inl ?_)
  have opens : (sectionLines twoFiles).all (fun line => !isRow line || opensRow line) = true := by
    decide +kernel
  intro line member row
  have either := List.all_eq_true.mp opens line member
  simpa [row] using either

def indented : Text :=
  SECTION ++ '\n' :: " | `a.py` | `abcdef1` | read | pass | pass |".toList

/-- A row indented in the source is read by the one reader, and is no row to the other. -/
theorem indented_row_dropped :
    ¬ ∀ pins, perTestPins Char.isAlphanum indented = .ok pins → DropsNone indented := by
  intro drops
  have accepted : perTestPins Char.isAlphanum indented =
      .ok (Dict.empty.set "a.py".toList ⟨"abcdef1".toList, false⟩) := by decide +kernel
  have read : ledgerCells indented = .ok Dict.empty := by decide +kernel
  have row : tableEntries indented = [("`a.py`".toList, "pass".toList)] := by decide +kernel
  unfold DropsNone at drops
  rcases drops _ accepted with ⟨error, raised⟩ | ⟨cells, same, all⟩
  · rw [read] at raised
    cases raised
  · rw [read] at same
    cases same
    rw [row] at all
    cases all

end BitcoinNodeTests.Census
