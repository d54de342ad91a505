import Mathlib.Data.List.Forall2
import Mathlib.Data.List.ReduceOption
import BitcoinNodeTests.Foundation.Separators
import BitcoinNodeTests.Vendored.Entries

/-!
# What is reported of a ledger

Each block gives an entry or a line with a reason, unless the commit of one that could be
checked is white space alone.  A heading with no block is looked up by its text: it has its
line exactly where no heading of that text has a block.
-/

set_option autoImplicit false

namespace BitcoinNodeTests.Vendored

open Foundation

/-! ## Blocks and headings by their places -/

structure Block where
  heading : Text
  body : Text

def Block.fields (block : Block) : Dict Field Text := fieldsOf block.body

/-- The block of a match, where `heading` is the last one further up. -/
def blockOf (heading : Text) (found : Match) : Block :=
  ⟨(headings found.before).getLastD heading, found.group⟩

def blocksUnder (heading : Text) : List Match → List Block
  | [] => []
  | found :: later =>
      blockOf heading found :: blocksUnder (blockOf heading found).heading later

def blocks (ledger : Text) : List Block :=
  blocksUnder [] (Text.finditer OPENING CLOSING ledger).1

/-- The headings of the lines that begin in a gap: behind a fence the first began before it. -/
def gapHeadings (behindFence : Bool) (gap : Text) : List Text :=
  ((Text.split ['\n'] gap).drop (if behindFence then 1 else 0)).filterMap headingIn

def bareIn : Bool → List Match → Text → List Text
  | behindFence, [], rest => gapHeadings behindFence rest
  | behindFence, found :: later, rest =>
      (gapHeadings behindFence found.before).dropLast ++ bareIn true later rest

/-- The headings of the ledger's lines outside the blocks with no block before the next one. -/
def bare (ledger : Text) : List Text :=
  bareIn false (Text.finditer OPENING CLOSING ledger).1 (Text.finditer OPENING CLOSING ledger).2

/-! ## What a report has -/

def Blank (text : Text) : Prop := ∀ char ∈ text, Text.isSpace char = true

def Reason.Applies (fields : Dict Field Text) : Reason → Prop
  | noCommit => ∃ field ∈ [Field.repo, .path, .commit],
      fields.get field = none ∨ fields.get field = some []
  | severalFiles => ∃ path, fields.get .path = some path ∧ '<' ∈ path
  | noBehind => fields.get .behind = none
  | emptyBehind => ∃ behind, fields.get .behind = some behind ∧ Blank behind
  | behind => ∃ behind, fields.get .behind = some behind ∧ ¬ Blank behind ∧ ¬ ['0'] <+: behind
  | noBlock => False

def Block.Checkable (block : Block) : Prop := ∀ reason : Reason, ¬ reason.Applies block.fields

def FirstWord (word text : Text) : Prop :=
  word ≠ [] ∧ (∀ char ∈ word, Text.isSpace char = false) ∧
    ∃ before after, text = before ++ (word ++ after) ∧ Blank before ∧
      ∀ char ∈ after.head?, Text.isSpace char = true

structure Entry.Of (block : Block) (entry : Entry) : Prop where
  heading : entry.heading = block.heading
  repo : block.fields.get .repo = some entry.repo
  path : ∃ path, block.fields.get .path = some path ∧ entry.path = Text.strip Text.isSpace path
  commit : ∃ commit, block.fields.get .commit = some commit ∧ FirstWord entry.commit commit

def Contributes (skipped : List Text) (block : Block) : Option Entry → Prop
  | some entry => block.Checkable ∧ entry.Of block
  | none => ∃ reason : Reason, reason.Applies block.fields ∧
      skippedLine block.heading reason ∈ skipped

/-- Each block has its entry or its line, and each heading with no block its line. -/
structure Reports (ledger : Text) (entries : List Entry) (skipped : List Text) : Prop where
  blocks : ∃ contributed, List.Forall₂ (Contributes skipped) (blocks ledger) contributed ∧
    entries = contributed.reduceOption
  bare : ∀ heading ∈ bare ledger, skippedLine heading .noBlock ∈ skipped

/-! ## Fields and reasons -/

theorem given_eq_nil_iff {fields : Dict Field Text} {field : Field} :
    given fields field = [] ↔ fields.get field = none ∨ fields.get field = some [] := by
  rw [given]
  cases fields.get field with
  | none => simp
  | some value => simp

theorem get_of_given {fields : Dict Field Text} {field : Field} (some : given fields field ≠ []) :
    fields.get field = .some (given fields field) := by
  cases value : fields.get field with
  | none => exact absurd (given_eq_nil_iff.mpr (.inl value)) some
  | some value_ => rw [given, value, Option.getD_some]

theorem noCommit_iff (fields : Dict Field Text) :
    Reason.Applies fields .noCommit ↔
      given fields .repo = [] ∨ given fields .path = [] ∨ given fields .commit = [] := by
  simp only [Reason.Applies, List.mem_cons, List.not_mem_nil, or_false, exists_eq_or_imp,
    exists_eq_left, given_eq_nil_iff]

/-- The reason found applies, and where none is found none does. -/
theorem reasonOf_cases (fields : Dict Field Text) :
    (∃ reason : Reason, reasonOf fields = some reason ∧ reason.Applies fields) ∨
      reasonOf fields = none ∧ ∀ reason : Reason, ¬ reason.Applies fields := by
  unfold reasonOf
  split
  · rename_i absent
    exact .inl ⟨.noCommit, rfl, (noCommit_iff fields).mpr absent⟩
  rename_i present
  have hasPath : given fields .path ≠ [] := fun none => present (.inr (.inl none))
  split
  · rename_i several
    exact .inl ⟨.severalFiles, rfl, _, get_of_given hasPath, several⟩
  rename_i one
  split
  · rename_i none
    exact .inl ⟨.noBehind, rfl, none⟩
  rename_i behind isBehind
  split
  · rename_i blank
    exact .inl ⟨.emptyBehind, rfl, behind, isBehind, Text.strip_eq_nil_iff.mp blank⟩
  rename_i notBlank
  split
  · rename_i zero
    refine .inr ⟨rfl, ?_⟩
    intro reason applies
    cases reason with
    | noCommit => exact present ((noCommit_iff fields).mp applies)
    | severalFiles =>
        obtain ⟨path, isPath, several⟩ := applies
        rw [get_of_given hasPath] at isPath
        cases isPath
        exact one several
    | noBehind => exact Option.some_ne_none _ (isBehind.symm.trans applies)
    | emptyBehind =>
        obtain ⟨value, isValue, blank⟩ := applies
        rw [isBehind] at isValue
        cases isValue
        exact notBlank (Text.strip_eq_nil_iff.mpr blank)
    | behind =>
        obtain ⟨value, isValue, -, other⟩ := applies
        rw [isBehind] at isValue
        cases isValue
        exact other (List.isPrefixOf_iff_prefix.mp zero)
    | noBlock => exact applies
  · rename_i other
    refine .inl ⟨.behind, rfl, behind, isBehind, ?_, ?_⟩
    · exact fun blank => notBlank (Text.strip_eq_nil_iff.mpr blank)
    · exact fun zero => other (List.isPrefixOf_iff_prefix.mpr zero)

theorem firstWord_cases (text : Text) :
    (∃ word, firstWord text = .ok word ∧ FirstWord word text ∧ ¬ Blank text) ∨
      firstWord text = .error .indexError ∧ Blank text := by
  unfold firstWord
  split
  · rename_i none
    exact .inr ⟨rfl, List.dropWhile_eq_nil_iff.mp none⟩
  · rename_i char rest starts
    have kept : Text.isSpace char = false := by
      refine @Text.kind_of_dropWhile Text.isSpace text char ?_
      rw [starts]
      rfl
    have whole := List.takeWhile_append_dropWhile (p := Text.isSpace) (l := text)
    have member : char ∈ text := by
      rw [← whole, starts]
      exact List.mem_append_right _ List.mem_cons_self
    refine .inl ⟨_, rfl, ⟨?_, ?_, ?_⟩, ?_⟩
    · rw [List.takeWhile_cons, if_pos (by rw [kept, Bool.not_false])]
      exact List.cons_ne_nil _ _
    · intro other inWord
      have isKept := List.mem_takeWhile_imp inWord
      rwa [Bool.not_eq_true'] at isKept
    · refine ⟨text.takeWhile Text.isSpace,
        (char :: rest).dropWhile fun other => !Text.isSpace other, ?_, ?_, ?_⟩
      · rw [List.takeWhile_append_dropWhile, ← starts, whole]
      · exact fun other inRun => List.mem_takeWhile_imp inRun
      · intro other first
        have stops := Text.kind_of_dropWhile first
        rwa [Bool.not_eq_false'] at stops
    · intro blank
      rw [blank char member] at kept
      cases kept

/-! ## The loop -/

theorem entryOf_cases {block : Block} (checkable : block.Checkable) :
    (∃ entry, entryOf block.heading block.fields = .ok entry ∧ entry.Of block ∧
        ¬ Blank (given block.fields .commit)) ∨
      entryOf block.heading block.fields = .error .indexError ∧
        Blank (given block.fields .commit) := by
  obtain ⟨repo, path, commit⟩ : given block.fields .repo ≠ [] ∧ given block.fields .path ≠ [] ∧
      given block.fields .commit ≠ [] := by
    have present := mt (noCommit_iff block.fields).mpr (checkable .noCommit)
    rwa [not_or, not_or] at present
  rcases firstWord_cases (given block.fields .commit) with ⟨word, ok, first, some⟩ | ⟨raises, blank⟩
  · have made : ∃ entry, entryOf block.heading block.fields = .ok entry ∧
        entry.heading = block.heading ∧ entry.repo = given block.fields .repo ∧
        entry.path = Text.strip Text.isSpace (given block.fields .path) ∧ entry.commit = word := by
      rw [entryOf, ok]
      exact ⟨_, rfl, rfl, rfl, rfl, rfl⟩
    obtain ⟨entry, isEntry, heading, isRepo, isPath, rfl⟩ := made
    refine .inl ⟨entry, isEntry, ⟨heading, ?_, ?_, ?_⟩, some⟩
    · rw [isRepo]
      exact get_of_given repo
    · exact ⟨_, get_of_given path, isPath⟩
    · exact ⟨_, get_of_given commit, first⟩
  · refine .inr ⟨?_, blank⟩
    rw [entryOf, raises]
    rfl

def Walk.onto (state : Walk) (block : Block) : Walk :=
  { state with heading := block.heading, owned := block.heading :: state.owned }

/-- A block gives its line or its entry, and one with a blank commit ends the loop. -/
theorem walk_cases (state : Walk) (found : Match) :
    let block := blockOf state.heading found
    (∃ reason : Reason, reason.Applies block.fields ∧
        walk state found = .ok { state.onto block with
          skipped := state.skipped ++ [skippedLine block.heading reason] }) ∨
      (∃ entry, block.Checkable ∧ entry.Of block ∧ ¬ Blank (given block.fields .commit) ∧
        walk state found = .ok { state.onto block with entries := state.entries ++ [entry] }) ∨
      block.Checkable ∧ Blank (given block.fields .commit) ∧
        walk state found = .error .indexError := by
  intro block
  rcases reasonOf_cases block.fields with ⟨reason, isReason, applies⟩ | ⟨unrefused, checkable⟩
  · have isReason_ : reasonOf (fieldsOf found.group) = some reason := isReason
    refine .inl ⟨reason, applies, ?_⟩
    simp only [walk, isReason_]
    rfl
  have unrefused_ : reasonOf (fieldsOf found.group) = none := unrefused
  rcases entryOf_cases checkable with ⟨entry, ok, own, some⟩ | ⟨raises, blank⟩
  · have ok_ : entryOf ((headings found.before).getLastD state.heading) (fieldsOf found.group) =
        .ok entry := ok
    refine .inr (.inl ⟨entry, checkable, own, some, ?_⟩)
    simp only [walk, unrefused_, ok_]
    rfl
  · have raises_ : entryOf ((headings found.before).getLastD state.heading)
        (fieldsOf found.group) = .error .indexError := raises
    refine .inr (.inr ⟨checkable, blank, ?_⟩)
    simp only [walk, unrefused_, raises_]
    rfl

/-! ## The run of the loop -/

theorem Contributes.mono {skipped later : List Text} (kept : skipped ⊆ later) {block : Block}
    {contributed : Option Entry} (contributes : Contributes skipped block contributed) :
    Contributes later block contributed := by
  cases contributed with
  | some entry => exact contributes
  | none =>
      obtain ⟨reason, applies, member⟩ := contributes
      exact ⟨reason, applies, kept member⟩

/-- What a run over some matches has added to where it began. -/
structure Ran (start final : Walk) (found : List Match) : Prop where
  entries : ∃ contributed,
    List.Forall₂ (Contributes final.skipped) (blocksUnder start.heading found) contributed ∧
      final.entries = start.entries ++ contributed.reduceOption
  skipped : ∃ refused : List (Text × Reason), (∀ line ∈ refused, line.2 ≠ .noBlock) ∧
    final.skipped = start.skipped ++ refused.map fun line => skippedLine line.1 line.2
  owned : ∀ heading, heading ∈ final.owned ↔
    heading ∈ start.owned ∨ heading ∈ (blocksUnder start.heading found).map Block.heading

theorem Ran.none (start : Walk) : Ran start start [] where
  entries := ⟨[], .nil, (List.append_nil _).symm⟩
  skipped := ⟨[], by simp, (List.append_nil _).symm⟩
  owned heading := by simp [blocksUnder]

theorem Ran.refused {start next final : Walk} {found : Match} {later : List Match}
    {reason : Reason} (applies : reason.Applies (blockOf start.heading found).fields)
    (step : next = { start.onto (blockOf start.heading found) with
      skipped := start.skipped ++ [skippedLine (blockOf start.heading found).heading reason] })
    (rest : Ran next final later) : Ran start final (found :: later) := by
  subst step
  obtain ⟨contributed, each, entries⟩ := rest.entries
  obtain ⟨refused, reasons, skipped⟩ := rest.skipped
  have real : reason ≠ .noBlock := by
    rintro rfl
    exact applies
  refine ⟨⟨Option.none :: contributed, .cons ⟨reason, applies, ?_⟩ each, entries⟩,
    ⟨((blockOf start.heading found).heading, reason) :: refused, ?_, ?_⟩, ?_⟩
  · rw [skipped]
    exact List.mem_append_left _ (List.mem_append_right _ List.mem_cons_self)
  · intro line member
    rcases List.mem_cons.mp member with rfl | member
    · exact real
    · exact reasons line member
  · rw [skipped]
    simp
  · intro heading
    rw [rest.owned heading]
    simp [blocksUnder, Walk.onto, or_assoc, or_comm]

theorem Ran.entered {start next final : Walk} {found : Match} {later : List Match} {entry : Entry}
    (checkable : (blockOf start.heading found).Checkable)
    (own : entry.Of (blockOf start.heading found))
    (step : next = { start.onto (blockOf start.heading found) with
      entries := start.entries ++ [entry] })
    (rest : Ran next final later) : Ran start final (found :: later) := by
  subst step
  obtain ⟨contributed, each, entries⟩ := rest.entries
  refine ⟨⟨some entry :: contributed, .cons ⟨checkable, own⟩ each, ?_⟩, rest.skipped, ?_⟩
  · rw [entries, List.reduceOption_cons_of_some]
    exact List.append_assoc _ _ _
  · intro heading
    rw [rest.owned heading]
    simp [blocksUnder, Walk.onto, or_assoc, or_comm]

theorem run_ran {found : List Match} {start final : Walk}
    (run : found.foldlM walk start = .ok final) : Ran start final found := by
  induction found generalizing start with
  | nil =>
      cases run
      exact .none _
  | cons first later ih =>
      rw [List.foldlM_cons] at run
      rcases walk_cases start first with ⟨reason, applies, ok⟩ |
        ⟨entry, checkable, own, -, ok⟩ | ⟨-, -, raises⟩
      · rw [ok] at run
        exact .refused applies rfl (ih run)
      · rw [ok] at run
        exact .entered checkable own rfl (ih run)
      · rw [raises] at run
        cases run

/-- The loop ends where no block that could be checked has a blank commit. -/
theorem run_returns_iff (found : List Match) (start : Walk) :
    (∃ final, found.foldlM walk start = .ok final) ↔
      ∀ block ∈ blocksUnder start.heading found, block.Checkable →
        ¬ Blank (given block.fields .commit) := by
  induction found generalizing start with
  | nil => simp [blocksUnder, Pure.pure, Except.pure]
  | cons first later ih =>
      rw [List.foldlM_cons, blocksUnder, List.forall_mem_cons]
      rcases walk_cases start first with ⟨reason, applies, ok⟩ |
        ⟨entry, checkable, own, some, ok⟩ | ⟨checkable, blank, raises⟩
      · rw [ok, and_iff_right fun checkable => absurd applies (checkable reason)]
        exact ih _
      · rw [ok, and_iff_right fun _ => some]
        exact ih _
      · rw [raises]
        refine iff_of_false ?_ fun all => all.1 checkable blank
        rintro ⟨final, run⟩
        cases run

/-! ## The lines of the ledger -/

theorem headings_append (before after : Text) :
    headings (before ++ '\n' :: after) = headings before ++ headings after := by
  rw [headings, Text.split_char, List.filterMap_append]
  rfl

theorem split_of_one_line {line : Text} (one : '\n' ∉ line) : Text.split ['\n'] line = [line] :=
  Text.split_of_absent (not_infix_of_not_mem List.mem_cons_self one)

theorem headings_of_one_line {line : Text} (one : '\n' ∉ line) : (headings line).length ≤ 1 := by
  rw [headings, split_of_one_line one]
  exact List.length_filterMap_le _ _

/-- A heading that is not the last stands on a line with a further one behind it. -/
theorem mem_dropLast_headings {gap heading : Text} (member : heading ∈ (headings gap).dropLast) :
    ∃ front back, gap = front ++ '\n' :: back ∧ heading ∈ headings front := by
  by_cases lines : '\n' ∈ gap
  · obtain ⟨back, front, reversed, last⟩ := List.eq_append_cons_of_mem (List.mem_reverse.mpr lines)
    have split : gap = front.reverse ++ '\n' :: back.reverse := by
      rw [← List.reverse_reverse gap, reversed]
      simp
    refine ⟨front.reverse, back.reverse, split, ?_⟩
    have few := headings_of_one_line (mt List.mem_reverse.mp last)
    rw [split, headings_append] at member
    rcases shown : headings back.reverse with - | ⟨only, - | ⟨other, others⟩⟩
    · rw [shown, List.append_nil] at member
      exact List.mem_of_mem_dropLast member
    · rwa [shown, List.dropLast_concat] at member
    · rw [shown] at few
      simp at few
  · have few := headings_of_one_line lines
    rcases shown : headings gap with - | ⟨only, - | ⟨other, others⟩⟩
    · rw [shown] at member
      cases member
    · rw [shown] at member
      cases member
    · rw [shown] at few
      simp at few

/-- Behind a fence the headings of a gap are those behind its first line. -/
theorem gapHeadings_behind {gap heading : Text} (member : heading ∈ gapHeadings true gap) :
    ∃ front back, gap = front ++ '\n' :: back ∧ gapHeadings true gap = headings back := by
  by_cases lines : '\n' ∈ gap
  · obtain ⟨front, back, rfl, first⟩ := List.eq_append_cons_of_mem lines
    refine ⟨front, back, rfl, ?_⟩
    rw [gapHeadings, Text.split_char, split_of_one_line first]
    rfl
  · rw [gapHeadings, split_of_one_line lines] at member
    cases member

/-- A heading with no block begins a line of the ledger, of which `lead` was read before. -/
theorem headings_of_bareIn (found : List Match) (rest : Text) {heading : Text} :
    ∀ (behindFence : Bool) (lead : Text), (behindFence = false → lead = []) →
      heading ∈ bareIn behindFence found rest →
      heading ∈ headings (lead ++ (found.flatMap (Match.whole OPENING CLOSING) ++ rest)) := by
  induction found with
  | nil =>
      intro behindFence lead starts member
      cases behindFence with
      | false =>
          rw [starts rfl]
          exact member
      | true =>
          obtain ⟨front, back, rfl, same⟩ := gapHeadings_behind member
          rw [bareIn, same] at member
          have lines : lead ++ (([] : List Match).flatMap (Match.whole OPENING CLOSING) ++
              (front ++ '\n' :: back)) = (lead ++ front) ++ '\n' :: back := by simp
          rw [lines, headings_append]
          exact List.mem_append_right _ member
  | cons first later ih =>
      intro behindFence lead starts member
      have whole : lead ++ ((first :: later).flatMap (Match.whole OPENING CLOSING) ++ rest) =
          (lead ++ Match.whole OPENING CLOSING first) ++
            (later.flatMap (Match.whole OPENING CLOSING) ++ rest) := by simp
      rcases List.mem_append.mp member with inGap | inLater
      · cases behindFence with
        | false =>
            obtain ⟨front, back, split, isHeading⟩ := mem_dropLast_headings inGap
            rw [whole, starts rfl, List.nil_append, Match.whole, split, List.append_assoc,
              List.append_assoc, List.cons_append, headings_append]
            exact List.mem_append_left _ isHeading
        | true =>
            obtain ⟨lineEnd, lines, split, same⟩ :=
              gapHeadings_behind (List.mem_of_mem_dropLast inGap)
            rw [same] at inGap
            obtain ⟨front, back, split', isHeading⟩ := mem_dropLast_headings inGap
            have line : lead ++ Match.whole OPENING CLOSING first ++
                (later.flatMap (Match.whole OPENING CLOSING) ++ rest) =
                (lead ++ lineEnd) ++ '\n' :: (front ++ '\n' :: (back ++
                  (OPENING ++ (first.group ++ CLOSING)) ++
                    (later.flatMap (Match.whole OPENING CLOSING) ++ rest))) := by
              rw [Match.whole, split, split']
              simp
            rw [whole, line, headings_append, headings_append]
            exact List.mem_append_right _ (List.mem_append_left _ isHeading)
      · rw [whole]
        exact ih true _ (fun isFalse => absurd isFalse (by decide)) inLater

theorem headings_of_bare {ledger heading : Text} (isBare : heading ∈ bare ledger) :
    heading ∈ headings ledger := by
  rw [Text.finditer_whole OPENING CLOSING ledger]
  exact headings_of_bareIn _ _ false [] (fun _ => rfl) isBare

/-! ## The report -/

theorem skippedLine_inj {heading other : Text} {reason : Reason}
    (same : skippedLine heading .noBlock = skippedLine other reason) :
    reason = .noBlock ∧ heading = other := by
  have ends (name : Text) (why : Reason) :
      (skippedLine name why).dropLast.getLast? = why.text.getLast? := by
    have some : why.text ≠ [] := by cases why <;> decide
    rw [skippedLine, ← List.append_assoc, ← List.append_assoc, List.dropLast_concat,
      List.getLast?_append_of_ne_nil _ some]
  have last := congrArg (fun line : Text => line.dropLast.getLast?) same
  simp only [ends] at last
  have isBlock : reason = .noBlock := by
    cases reason with
    | noBlock => rfl
    | noCommit => exact absurd last (by decide)
    | severalFiles => exact absurd last (by decide)
    | noBehind => exact absurd last (by decide)
    | emptyBehind => exact absurd last (by decide)
    | behind => exact absurd last (by decide)
  subst isBlock
  exact ⟨rfl, List.append_cancel_right same⟩

/-- A heading with no block has its line where the last scan finds it and no block owns its text. -/
theorem noBlock_mem_iff {ledger heading : Text} {final : Walk} {found : List Match}
    (ran : Ran ⟨[], [], [], []⟩ final found) :
    skippedLine heading .noBlock ∈ final.skipped ++
        ((headings ledger).filter (· ∉ final.owned)).map (skippedLine · .noBlock) ↔
      heading ∈ headings ledger ∧ heading ∉ (blocksUnder [] found).map Block.heading := by
  have owned := ran.owned heading
  rw [or_iff_right List.not_mem_nil] at owned
  rw [List.mem_append, ← owned]
  constructor
  · rintro (inLoop | after)
    · obtain ⟨refused, reasons, skipped⟩ := ran.skipped
      rw [skipped] at inLoop
      obtain ⟨line, member, same⟩ := List.mem_map.mp inLoop
      exact absurd (skippedLine_inj same.symm).1 (reasons line member)
    · obtain ⟨other, unowned, same⟩ := List.mem_map.mp after
      rw [(skippedLine_inj same.symm).2]
      simpa using List.mem_filter.mp unowned
  · rintro ⟨inLedger, unowned⟩
    exact .inr (List.mem_map_of_mem (List.mem_filter.mpr ⟨inLedger, by simpa using unowned⟩))

def repeatedHeading : Text :=
  "### x\n### x\n```text\nrepo a\npath p\ncommit c\nbehind 0\n```".toList

def blankCommit : Text :=
  "### x\n```text\nrepo a\npath p\ncommit \u00a0\nbehind 0\n```".toList

end BitcoinNodeTests.Vendored
