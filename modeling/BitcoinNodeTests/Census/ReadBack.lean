import BitcoinNodeTests.Census.Grammar

/-!
# What is read of a cell the ledger is written in

A cell is split, and searched for a qualifier, before any pattern is tried, and the label of
an issue link is free text.  A cell is read back for both builds exactly where no label has
the separator of segments, one alone has no label that looks qualified, and the label a
segment ends with does not itself hold a bound and a link's opening.
-/

set_option autoImplicit false

namespace BitcoinNodeTests.Census

open Foundation

variable {isWord : Char → Bool}

def SEGMENTS : Text := [';', ' ']

def ON : Text := [' ', 'o', 'n', ' ']

def PAST : Text := " on a build past ".toList

/-- A label within which `_ON_A_BUILD_PAST` finds a later bound than the segment's own. -/
def Rebounds (label : Text) : Prop :=
  ∃ before later, later ≠ [] ∧ ' ' :: label = before ++ (PAST ++ ("[ISS ".toList ++ later))

/-! ## Separators in a verdict -/

theorem Verdict.segments_iff (noSpace : NoSpaceInWords isWord) (verdict : Verdict isWord)
    (rest : Text) :
    SEGMENTS <:+: verdict.text ++ rest ↔
      (∃ label ∈ verdict.labels, SEGMENTS <:+: label) ∨ SEGMENTS <:+: rest := by
  cases verdict with
  | pass =>
      show [';', ' '] <:+: PASS ++ rest ↔ _
      rw [infix_past_iff (by decide)]
      simp [Verdict.labels, SEGMENTS]
  | notPorted =>
      show [';', ' '] <:+: NOT_PORTED ++ rest ↔ _
      rw [infix_past_iff (by decide)]
      simp [Verdict.labels, SEGMENTS]
  | skip =>
      show [';', ' '] <:+: SKIP ++ rest ↔ _
      rw [infix_past_iff (by decide)]
      simp [Verdict.labels, SEGMENTS]
  | fail issue =>
      have inTarget : ¬ SEGMENTS <:+: issue.target :=
        not_infix_of_not_mem (by decide : ' ' ∈ SEGMENTS) (issue.not_mem_target (by decide))
      rw [Verdict.fail_text, SEGMENTS, infix_past_iff (by decide),
        infix_through_iff (by decide) (by decide), infix_next_iff (by decide),
        infix_through_iff (by decide) (by decide), infix_next_iff (by decide), ← SEGMENTS]
      simp [Verdict.labels, inTarget]
  | skipOf word some all =>
      have inWord : ¬ SEGMENTS <:+: word :=
        not_infix_of_not_mem (by decide : ' ' ∈ SEGMENTS) (not_mem_word noSpace all (by decide))
      rw [Verdict.skipOf_text, SEGMENTS, infix_past_iff (by decide),
        infix_through_iff (by decide) (by decide), ← SEGMENTS]
      simp [Verdict.labels, inWord]

theorem Verdict.on_iff (noSpace : NoSpaceInWords isWord) (verdict : Verdict isWord) :
    ON <:+: verdict.text ↔ ∃ label ∈ verdict.labels, ON <:+: ' ' :: label := by
  cases verdict with
  | pass => exact iff_of_false (by decide : ¬ ON <:+: PASS) (by simp [Verdict.labels])
  | notPorted =>
      exact iff_of_false (by decide : ¬ ON <:+: NOT_PORTED) (by simp [Verdict.labels])
  | skip => exact iff_of_false (by decide : ¬ ON <:+: SKIP) (by simp [Verdict.labels])
  | fail issue =>
      have inTarget : ' ' ∉ '(' :: (issue.target ++ [')', ')']) := by
        simp [issue.not_mem_target (by decide : Text.isSpace ' ' = true)]
      have after : ¬ ON <:+: '(' :: (issue.target ++ [')', ')']) :=
        not_infix_of_not_mem (by decide : ' ' ∈ ON) inTarget
      have opening : ¬ ON <:+: "fail ".toList := by decide
      rw [← List.append_nil (fail issue).text, Verdict.fail_text]
      show ON <:+: "fail ".toList ++ '(' :: '[' :: 'I' :: 'S' :: 'S' ::
        ((' ' :: issue.label) ++ ']' :: '(' :: (issue.target ++ [')', ')'])) ↔ _
      rw [infix_through_iff (by decide) (by decide), or_iff_right opening]
      show [' ', 'o', 'n', ' '] <:+: ['[', 'I', 'S', 'S'] ++
        ((' ' :: issue.label) ++ ']' :: '(' :: (issue.target ++ [')', ')'])) ↔ _
      rw [infix_past_iff (by decide), ← ON, infix_through_iff (by decide) (by decide),
        or_iff_left after]
      simp [Verdict.labels]
  | skipOf word some all =>
      have inWord : ' ' ∉ word ++ [')'] := by
        simp [not_mem_word noSpace all (by decide : Text.isSpace ' ' = true)]
      have after : ¬ ON <:+: word ++ [')'] := not_infix_of_not_mem (by decide : ' ' ∈ ON) inWord
      have opening : ¬ ON <:+: "skip ".toList := by decide
      refine iff_of_false ?_ (by simp [Verdict.labels])
      show ¬ ON <:+: "skip ".toList ++ '(' :: (word ++ [')'])
      rw [infix_through_iff (by decide) (by decide)]
      exact not_or.mpr ⟨opening, after⟩

theorem Verdict.onTheBuild_segments_iff (noSpace : NoSpaceInWords isWord)
    (verdict : Verdict isWord) :
    SEGMENTS <:+: verdict.onTheBuild ↔ ∃ label ∈ verdict.labels, SEGMENTS <:+: label := by
  have after : ¬ SEGMENTS <:+: " on the build".toList := by decide
  rw [Verdict.onTheBuild, verdict.segments_iff noSpace, or_iff_left after]

theorem Verdict.onABuildPast_segments_iff (noSpace : NoSpaceInWords isWord)
    (verdict : Verdict isWord) (issue : Issue) :
    SEGMENTS <:+: verdict.onABuildPast issue ↔
      (∃ label ∈ verdict.labels, SEGMENTS <:+: label) ∨ SEGMENTS <:+: issue.label := by
  have inTarget : ' ' ∉ issue.tail := issue.not_mem_tail (by decide)
  have after : ¬ SEGMENTS <:+: issue.tail :=
    not_infix_of_not_mem (by decide : ' ' ∈ SEGMENTS) inTarget
  rw [Verdict.onABuildPast, verdict.segments_iff noSpace]
  refine or_congr_right ?_
  show [';', ' '] <:+: PAST ++ ("[ISS ".toList ++ (issue.label ++ ']' :: issue.tail)) ↔ _
  rw [infix_past_iff (by decide), infix_past_iff (by decide),
    infix_through_iff (by decide) (by decide), ← SEGMENTS, or_iff_left after]

/-! ## Segments -/

def reading (segment : Text) : Option (Build × Text) :=
  match onTheBuild segment with
  | some verdict => some (.release, verdict)
  | none => (onABuildPast segment).map fun verdict => (.main, verdict)

theorem found_cons {segment verdict : Text} {owner : Build}
    (reads : reading segment = some (owner, verdict)) (row : Text) (build : Build)
    (rest : List Text) :
    found row build (segment :: rest) = (found row build rest).map fun later =>
      if build = owner then verdict :: later else later := by
  rw [found]
  unfold reading at reads
  cases release : onTheBuild segment with
  | some verdict =>
      rw [release] at reads
      cases reads
      rfl
  | none =>
      rw [release] at reads
      obtain ⟨verdict, main, same⟩ := Option.map_eq_some_iff.mp reads
      cases same
      simp only [main]

theorem reading_of_found {row segment : Text} {build : Build} {rest verdicts : List Text}
    (ok : found row build (segment :: rest) = .ok verdicts) :
    ∃ owner verdict later, reading segment = some (owner, verdict) ∧
      found row build rest = .ok later ∧
      verdicts = if build = owner then verdict :: later else later := by
  cases reads : reading segment with
  | none =>
      unfold reading at reads
      cases release : onTheBuild segment with
      | some verdict =>
          rw [release] at reads
          cases reads
      | none =>
          rw [release] at reads
          have main := Option.map_eq_none_iff.mp reads
          rw [found] at ok
          simp only [release, main] at ok
          cases ok
  | some read =>
      obtain ⟨owner, verdict⟩ := read
      rw [found_cons reads] at ok
      cases others : found row build rest with
      | error error =>
          rw [others] at ok
          cases ok
      | ok later =>
          rw [others] at ok
          exact ⟨owner, verdict, later, rfl, rfl, (Except.ok.inj ok).symm⟩

theorem found_count {row : Text} {segments release main : List Text}
    (forRelease : found row .release segments = .ok release)
    (forMain : found row .main segments = .ok main) :
    release.length + main.length = segments.length := by
  induction segments generalizing release main with
  | nil =>
      cases forRelease
      cases forMain
      rfl
  | cons segment rest ih =>
      obtain ⟨owner, verdict, laterRelease, reads, others, rfl⟩ := reading_of_found forRelease
      obtain ⟨_, _, laterMain, again, more, rfl⟩ := reading_of_found forMain
      rw [reads] at again
      cases again
      have counted := ih others more
      cases owner with
      | release =>
          show laterRelease.length + 1 + laterMain.length = rest.length + 1
          omega
      | main =>
          show laterRelease.length + (laterMain.length + 1) = rest.length + 1
          omega

theorem length_of_reading {segment verdict : Text} {owner : Build}
    (reads : reading segment = some (owner, verdict)) : verdict.length < segment.length := by
  unfold reading at reads
  cases release : onTheBuild segment with
  | some read =>
      rw [release] at reads
      cases reads
      unfold onTheBuild at release
      split at release
      · rename_i before after last
        obtain ⟨-, same⟩ := Option.ite_none_right_eq_some.mp release
        cases same
        exact Text.length_of_splitLast (by decide) last
      · cases release
  | none =>
      rw [release] at reads
      obtain ⟨read, main, same⟩ := Option.map_eq_some_iff.mp reads
      cases same
      unfold onABuildPast at main
      split at main
      · rename_i before after last
        obtain ⟨-, same⟩ := Option.ite_none_right_eq_some.mp main
        cases same
        exact Text.length_of_splitLast (by decide) last
      · cases main

theorem found_shorter {row verdict : Text} {build : Build} {segments verdicts : List Text}
    (ok : found row build segments = .ok verdicts) (member : verdict ∈ verdicts) :
    ∃ segment ∈ segments, verdict.length < segment.length := by
  induction segments generalizing verdicts with
  | nil =>
      cases ok
      cases member
  | cons segment rest ih =>
      obtain ⟨owner, first, later, reads, others, rfl⟩ := reading_of_found ok
      have ofRest (inLater : verdict ∈ later) :
          ∃ segment_ ∈ segment :: rest, verdict.length < segment_.length := by
        obtain ⟨segment_, inRest, shorter⟩ := ih others inLater
        exact ⟨segment_, List.mem_cons_of_mem _ inRest, shorter⟩
      split at member
      · rcases List.mem_cons.mp member with rfl | inLater
        · exact ⟨segment, List.mem_cons_self, length_of_reading reads⟩
        · exact ofRest inLater
      · exact ofRest member

theorem onTheBuild_segment (noSpace : NoSpaceInWords isWord) (verdict : Verdict isWord) :
    onTheBuild verdict.onTheBuild = some verdict.text := by
  have whole : verdict.onTheBuild = verdict.text ++ (" on the build".toList ++ []) := by
    rw [List.append_nil, Verdict.onTheBuild]
  obtain ⟨found, rest, last, -⟩ :
      ∃ found rest, Text.splitLast " on the build".toList (· = [])
        (verdict.text ++ (" on the build".toList ++ [])) = some (found, rest) ∧
        verdict.text.length ≤ found.length :=
    Text.splitLast_of_occurs (by decide) (verdict.oneLine noSpace) rfl
  obtain ⟨same, ends⟩ := Text.splitLast_eq last
  have none : rest = [] := of_decide_eq_true ends
  subst none
  have found_ : verdict.text = found := List.append_cancel_right same
  subst found_
  rw [onTheBuild, whole, last]
  exact if_pos (verdict.isRun_text noSpace)

/-- An issue link ends in a bracket, and `_ON_THE_BUILD` in a letter. -/
theorem onTheBuild_past (verdict : Verdict isWord) (issue : Issue) :
    onTheBuild (verdict.onABuildPast issue) = none := by
  unfold onTheBuild
  split
  · rename_i before after last
    obtain ⟨whole, ends⟩ := Text.splitLast_eq last
    have none : after = [] := of_decide_eq_true ends
    subst none
    have inTail : [')'] <:+ issue.tail :=
      (List.suffix_append issue.target _).trans (List.suffix_cons '(' _)
    have inText : [')'] <:+ issue.text :=
      inTail.trans ((List.suffix_cons ']' _).trans
        ((List.suffix_append _ _).trans (List.suffix_append _ _)))
    obtain ⟨front, closed⟩ : [')'] <:+ verdict.onABuildPast issue :=
      inText.trans ((List.suffix_append _ _).trans (List.suffix_append _ _))
    rw [← closed] at whole
    have final := congrArg List.getLast? whole
    have letter : " on the build".toList.getLast? = some 'd' := by decide
    rw [List.getLast?_concat, List.append_nil, List.getLast?_append, letter] at final
    exact absurd (Option.some.inj final) (by decide)
  · rfl

theorem Issue.not_mem_of_label (issue : Issue) {front text : Text}
    (inLabel : ' ' :: issue.label = front ++ text) : ']' ∉ text := by
  intro member
  have inside : ']' ∈ ' ' :: issue.label := by
    rw [inLabel]
    exact List.mem_append_right _ member
  rcases List.mem_cons.mp inside with space | inside
  · exact absurd space (by decide)
  · exact (issue.labelPlain _ inside).1 rfl

/-- A bound later than the first one of a segment is in the label of its link. -/
theorem rebounds_of_later {issue : Issue} {extra rest : Text} (some : extra ≠ [])
    (isLink : isIssue rest = true) (whole : PAST ++ issue.text = extra ++ (PAST ++ rest)) :
    Rebounds issue.label := by
  have lengths : 0 < extra.length := List.length_pos_of_ne_nil some
  have opened : (PAST ++ ['[', 'I', 'S']) ++ 'S' :: (' ' :: (issue.label ++ ']' :: issue.tail)) =
      extra ++ (PAST ++ rest) := whole
  rcases occurs_through (by decide) (by decide) opened with ⟨middle, within, -⟩ | ⟨middle, -, later⟩
  · -- nothing of the bound's length is in the bound and a link's opening, but at the start
    rcases occurs_through (by decide) (by decide) within with ⟨_, bound, -⟩ | ⟨_, -, opening⟩
    · have length := congrArg List.length bound
      simp only [List.length_append] at length
      omega
    · have length := congrArg List.length opening
      have bound : PAST.length = 17 := rfl
      simp only [List.length_append, List.length_cons, List.length_nil, bound] at length
      omega
  have labelled : (' ' :: issue.label) ++ ']' :: issue.tail = middle ++ (PAST ++ rest) := later
  rcases occurs_through (by decide) (by decide) labelled with ⟨link, inLabel, ends⟩ | ⟨_, -, inTail⟩
  · obtain ⟨label, target, parts, labelSome, plain, -, -⟩ := parts_of_isIssue isLink
    have linkPlain : ']' ∉ link := fun member =>
      issue.not_mem_of_label inLabel (List.mem_append_right _ member)
    have opening : ']' ∉ "[ISS ".toList ++ label := by
      rw [List.mem_append]
      exact not_or.mpr ⟨by decide, plain⟩
    have same : link ++ ']' :: issue.tail =
        ("[ISS ".toList ++ label) ++ ']' :: '(' :: (target ++ [')']) := by
      rw [← ends, parts, List.append_assoc]
    have opened : link = "[ISS ".toList ++ label := before_eq_of_not_mem linkPlain opening same
    exact ⟨middle, label, labelSome, by rw [inLabel, opened]⟩
  · have space : ' ' ∈ issue.tail := by
      rw [inTail]
      exact List.mem_append_right _ (List.mem_append_left _ (by decide))
    exact absurd space (issue.not_mem_tail (by decide))

theorem Verdict.onABuildPast_oneLine (noSpace : NoSpaceInWords isWord) (verdict : Verdict isWord)
    (issue : Issue) : '\n' ∉ verdict.onABuildPast issue := by
  rw [Verdict.onABuildPast, List.mem_append, List.mem_append]
  rintro (inVerdict | inBound | inLink)
  · exact verdict.oneLine noSpace inVerdict
  · exact absurd inBound (by decide)
  · exact issue.oneLine inLink

theorem later_of_rebounds {issue : Issue} (rebounds : Rebounds issue.label) :
    ∃ extra link, extra ≠ [] ∧ isIssue link = true ∧ PAST ++ issue.text = extra ++ (PAST ++ link) := by
  obtain ⟨before, later, laterSome, inLabel⟩ := rebounds
  have plain : ']' ∉ later := fun member =>
    issue.not_mem_of_label inLabel (List.mem_append_right _ (List.mem_append_right _ member))
  refine ⟨PAST ++ (['[', 'I', 'S', 'S'] ++ before),
    "[ISS ".toList ++ (later ++ ']' :: issue.tail), List.append_ne_nil_of_left_ne_nil (by decide) _,
    isIssue_of_parts laterSome plain issue.targetSome issue.targetPlain, ?_⟩
  have opened : issue.text = ['[', 'I', 'S', 'S'] ++ ((' ' :: issue.label) ++ ']' :: issue.tail) :=
    rfl
  rw [opened, inLabel]
  simp only [List.append_assoc]

/-- The segment is read, and as its own verdict where the label has no bound. -/
theorem onABuildPast_segment (noSpace : NoSpaceInWords isWord) (verdict : Verdict isWord)
    (issue : Issue) :
    ∃ read, onABuildPast (verdict.onABuildPast issue) = some read ∧
      (read = verdict.text ↔ ¬ Rebounds issue.label) := by
  obtain ⟨read, rest, last, reaches⟩ :
      ∃ read rest, Text.splitLast PAST isIssue (verdict.text ++ (PAST ++ issue.text)) =
        some (read, rest) ∧ verdict.text.length ≤ read.length :=
    Text.splitLast_of_occurs (by decide) (verdict.oneLine noSpace) issue.isIssue_text
  obtain ⟨whole, isLink⟩ := Text.splitLast_eq last
  have oneLine : '\n' ∉ verdict.text ++ (PAST ++ issue.text) :=
    verdict.onABuildPast_oneLine noSpace issue
  obtain ⟨extra, rfl⟩ : verdict.text <+: read :=
    List.prefix_of_prefix_length_le ⟨_, rfl⟩ ⟨_, whole.symm⟩ reaches
  refine ⟨verdict.text ++ extra, ?_, ?_⟩
  · have isRun_verdict := verdict.isRun_text noSpace
    simp only [isRun, Bool.and_eq_true, decide_eq_true_eq] at isRun_verdict
    have run : isRun (verdict.text ++ extra) = true := by
      rw [whole] at oneLine
      simp only [isRun, Bool.and_eq_true, decide_eq_true_eq]
      exact ⟨List.append_ne_nil_of_left_ne_nil isRun_verdict.1 _,
        fun member => oneLine (List.mem_append_left _ member)⟩
    have reads : Text.splitLast " on a build past ".toList isIssue
        (verdict.text ++ (" on a build past ".toList ++ issue.text)) =
          some (verdict.text ++ extra, rest) := last
    rw [onABuildPast, Verdict.onABuildPast, reads]
    exact if_pos run
  constructor
  · intro same rebounds
    obtain ⟨later, link, laterSome, isLater, again⟩ := later_of_rebounds rebounds
    rw [again, ← List.append_assoc] at last oneLine
    have front : '\n' ∉ verdict.text ++ later := fun member =>
      oneLine (List.mem_append_left _ member)
    obtain ⟨found, _, reread, past⟩ := Text.splitLast_of_occurs (by decide : PAST ≠ []) front isLater
    rw [last] at reread
    obtain ⟨rfl, -⟩ := Prod.mk.inj (Option.some.inj reread)
    have longer := List.length_pos_of_ne_nil laterSome
    rw [same, List.length_append] at past
    omega
  · intro noBound
    by_cases extraSome : extra = []
    · rw [extraSome, List.append_nil]
    · rw [List.append_assoc, List.append_cancel_left_eq] at whole
      exact absurd (rebounds_of_later extraSome isLink whole) noBound

theorem found_pair (noSpace : NoSpaceInWords isWord) (row : Text) (release main : Verdict isWord)
    (issue : Issue) {segments : List Text}
    (either : segments = [release.onTheBuild, main.onABuildPast issue] ∨
      segments = [main.onABuildPast issue, release.onTheBuild]) :
    ∃ read, found row .release segments = .ok [release.text] ∧
      found row .main segments = .ok [read] ∧ (read = main.text ↔ ¬ Rebounds issue.label) := by
  obtain ⟨read, past, same⟩ := onABuildPast_segment noSpace main issue
  have first : reading release.onTheBuild = some (.release, release.text) := by
    rw [reading, onTheBuild_segment noSpace]
  have second : reading (main.onABuildPast issue) = some (.main, read) := by
    rw [reading, onTheBuild_past, past]
    rfl
  refine ⟨read, ?_, ?_, same⟩
  · rcases either with rfl | rfl
    · rw [found_cons first, found_cons second]
      rfl
    · rw [found_cons second, found_cons first]
      rfl
  · rcases either with rfl | rfl
    · rw [found_cons first, found_cons second]
      rfl
    · rw [found_cons second, found_cons first]
      rfl

/-! ## Cells -/

/-- `expected` looks for build qualifiers in it. -/
def Qualified (cell : Text) : Prop := SEGMENTS <:+: cell ∨ ON <:+: cell

theorem unqualified_iff (cell : Text) :
    ((Text.split "; ".toList cell).length = 1 ∧ !Text.contains " on ".toList cell) ↔
      ¬ Qualified cell := by
  have one : (Text.split "; ".toList cell).length = 1 ↔ ¬ SEGMENTS <:+: cell :=
    Text.split_length_eq_one_iff (by decide)
  have on : Text.contains " on ".toList cell = true ↔ ON <:+: cell :=
    Text.contains_iff (by decide)
  rw [one, Bool.not_eq_true', ← Bool.not_eq_true, on, Qualified, not_or]

theorem expected_of_unqualified {cell : Text} (notOnly : cell ≠ BITCOIND_ONLY)
    (unqualified : ¬ Qualified cell) (row : Text) (build : Build) :
    expected isWord row cell build = (verdictOf isWord row cell).map some := by
  rw [expected, if_neg notOnly]
  exact if_pos ((unqualified_iff cell).mpr unqualified)

theorem expected_of_qualified {cell row : Text} {build : Build} (notOnly : cell ≠ BITCOIND_ONLY)
    (qualified : Qualified cell) {verdict : Expected} :
    expected isWord row cell build = .ok (some verdict) ↔
      ∃ text, found row build (Text.split SEGMENTS cell) = .ok [text] ∧
        verdictOf isWord row text = .ok verdict := by
  have notLone := mt (unqualified_iff cell).mp (not_not_intro qualified)
  constructor
  · intro ok
    rw [expected, if_neg notOnly] at ok
    simp only [if_neg notLone] at ok
    split at ok
    · cases ok
    · rename_i text only
      refine ⟨text, only, ?_⟩
      cases reads : verdictOf isWord row text with
      | error error =>
          rw [reads] at ok
          cases ok
      | ok read =>
          rw [reads] at ok
          cases ok
          rfl
    · cases ok
  · rintro ⟨text, only, reads⟩
    have segments : found row build (Text.split "; ".toList cell) = .ok [text] := only
    rw [expected, if_neg notOnly]
    simp only [if_neg notLone, segments, reads]
    rfl

namespace Cell

def labels : Cell isWord → List Text
  | lone verdict => verdict.labels
  | buildFirst release main issue => release.labels ++ (main.labels ++ [issue.label])
  | pastFirst release main issue => release.labels ++ (main.labels ++ [issue.label])

/-- No label separates the cell, or looks like its qualifier. -/
def Plain (cell : Cell isWord) : Prop :=
  (∀ label ∈ cell.labels, ¬ SEGMENTS <:+: label) ∧
    match cell with
    | lone verdict => ∀ label ∈ verdict.labels, ¬ ON <:+: ' ' :: label
    | buildFirst _ _ issue => ¬ Rebounds issue.label
    | pastFirst _ _ issue => ¬ Rebounds issue.label

end Cell

theorem Verdict.not_only (verdict : Verdict isWord) (rest : Text) :
    verdict.text ++ rest ≠ BITCOIND_ONLY := by
  obtain ⟨char, later, starts, other⟩ := verdict.text_cons
  rw [starts]
  intro same
  exact other (List.cons.inj same).1

theorem Verdict.unqualified_iff (noSpace : NoSpaceInWords isWord) (verdict : Verdict isWord) :
    ¬ Qualified verdict.text ↔ (Cell.lone verdict).Plain := by
  have separated : SEGMENTS <:+: verdict.text ↔ ∃ label ∈ verdict.labels, SEGMENTS <:+: label := by
    have parts := verdict.segments_iff noSpace []
    rwa [List.append_nil, or_iff_left (by decide)] at parts
  rw [Qualified, separated, verdict.on_iff noSpace, not_or]
  simp only [not_exists, not_and]
  rfl

/-- A verdict that is taken for segments is not read back: what is read is shorter. -/
theorem lone_reads_iff (noSpace : NoSpaceInWords isWord) (row : Text) (verdict : Verdict isWord)
    (build : Build) :
    expected isWord row verdict.text build = .ok (some ⟨verdict.text, verdict.outcome⟩) ↔
      (Cell.lone verdict).Plain := by
  have notOnly : verdict.text ≠ BITCOIND_ONLY := by
    have whole := verdict.not_only []
    rwa [List.append_nil] at whole
  rw [← verdict.unqualified_iff noSpace]
  constructor
  · intro ok qualified
    obtain ⟨text, only, reads⟩ := (expected_of_qualified notOnly qualified).mp ok
    have same : verdict.text = text := text_of_verdictOf reads
    obtain ⟨segment, inCell, shorter⟩ := found_shorter only List.mem_cons_self
    have bound := Text.length_le_of_mem_split inCell
    rw [same] at bound
    omega
  · intro unqualified
    rw [expected_of_unqualified notOnly unqualified, verdict.verdictOf_text]
    rfl

theorem segments_of_count {first second : Text}
    (count : (Text.split SEGMENTS (first ++ ';' :: ' ' :: second)).length = 2) :
    ¬ SEGMENTS <:+: first ∧ ¬ SEGMENTS <:+: second := by
  have differ : ';' ≠ ' ' := by decide
  have parts : Text.split SEGMENTS (first ++ ';' :: ' ' :: second) =
      Text.split SEGMENTS first ++ Text.split SEGMENTS second := Text.split_append differ first second
  have some := List.length_pos_of_ne_nil (Text.splitFrom_ne_nil SEGMENTS 0 [] first)
  have more := List.length_pos_of_ne_nil (Text.splitFrom_ne_nil SEGMENTS 0 [] second)
  rw [parts, List.length_append] at count
  rw [SEGMENTS, ← Text.split_length_eq_one_iff differ, ← Text.split_length_eq_one_iff differ]
  rw [SEGMENTS, Text.split, Text.split] at *
  omega

theorem pair_reads_iff (noSpace : NoSpaceInWords isWord) (row : Text) (release main : Verdict isWord)
    (issue : Issue) {cell : Text}
    (either : cell = release.onTheBuild ++ ';' :: ' ' :: main.onABuildPast issue ∨
      cell = main.onABuildPast issue ++ ';' :: ' ' :: release.onTheBuild) :
    (expected isWord row cell .release = .ok (some ⟨release.text, release.outcome⟩) ∧
        expected isWord row cell .main = .ok (some ⟨main.text, main.outcome⟩)) ↔
      (∀ label ∈ release.labels ++ (main.labels ++ [issue.label]), ¬ SEGMENTS <:+: label) ∧
        ¬ Rebounds issue.label := by
  have notOnly : cell ≠ BITCOIND_ONLY := by
    rcases either with rfl | rfl
    · rw [Verdict.onTheBuild, List.append_assoc]
      exact release.not_only _
    · rw [Verdict.onABuildPast, List.append_assoc]
      exact main.not_only _
  have qualified : Qualified cell := by
    refine .inl ?_
    rcases either with rfl | rfl
    · exact ⟨_, _, List.append_assoc _ _ _⟩
    · exact ⟨_, _, List.append_assoc _ _ _⟩
  have plain : (∀ label ∈ release.labels ++ (main.labels ++ [issue.label]), ¬ SEGMENTS <:+: label) ↔
      ¬ SEGMENTS <:+: release.onTheBuild ∧ ¬ SEGMENTS <:+: main.onABuildPast issue := by
    rw [release.onTheBuild_segments_iff noSpace, main.onABuildPast_segments_iff noSpace, not_or,
      List.forall_mem_append, List.forall_mem_append, List.forall_mem_singleton]
    simp only [not_exists, not_and]
  have two (separate : ¬ SEGMENTS <:+: release.onTheBuild ∧
        ¬ SEGMENTS <:+: main.onABuildPast issue) :
      Text.split SEGMENTS cell = [release.onTheBuild, main.onABuildPast issue] ∨
        Text.split SEGMENTS cell = [main.onABuildPast issue, release.onTheBuild] := by
    have differ : ';' ≠ ' ' := by decide
    rcases either with rfl | rfl
    · refine .inl ((Text.split_append differ _ _).trans ?_)
      exact congrArg₂ (· ++ ·) (Text.split_of_absent separate.1) (Text.split_of_absent separate.2)
    · refine .inr ((Text.split_append differ _ _).trans ?_)
      exact congrArg₂ (· ++ ·) (Text.split_of_absent separate.2) (Text.split_of_absent separate.1)
  rw [plain, expected_of_qualified notOnly qualified, expected_of_qualified notOnly qualified]
  constructor
  · rintro ⟨⟨_, forRelease, _⟩, text, forMain, reads⟩
    have count : (Text.split SEGMENTS cell).length = 2 := (found_count forRelease forMain).symm
    have separate : ¬ SEGMENTS <:+: release.onTheBuild ∧
        ¬ SEGMENTS <:+: main.onABuildPast issue := by
      rcases either with rfl | rfl
      · exact segments_of_count count
      · exact (segments_of_count count).symm
    obtain ⟨read, -, again, same⟩ := found_pair noSpace row release main issue (two separate)
    have only : [read] = [text] := Except.ok.inj (again.symm.trans forMain)
    have isMain : main.text = text := text_of_verdictOf reads
    refine ⟨separate, same.mp ?_⟩
    rw [isMain, (List.cons.inj only).1]
  · rintro ⟨separate, noBound⟩
    obtain ⟨read, first, second, same⟩ := found_pair noSpace row release main issue (two separate)
    rw [same.mpr noBound] at second
    exact ⟨⟨_, first, release.verdictOf_text row⟩, _, second, main.verdictOf_text row⟩

/-- A cell of the grammar is read back for every build exactly where its labels are plain. -/
theorem expected_reads_iff (noSpace : NoSpaceInWords isWord) (row : Text) (cell : Cell isWord) :
    (∀ build, expected isWord row cell.text build =
        .ok (some ⟨(cell.verdict build).text, (cell.verdict build).outcome⟩)) ↔ cell.Plain := by
  have both {given : Build → Prop} : (∀ build, given build) ↔ given .release ∧ given .main :=
    ⟨fun all => ⟨all .release, all .main⟩, fun each build => by cases build <;> simp [each]⟩
  cases cell with
  | lone verdict =>
      rw [both]
      exact (and_congr (lone_reads_iff noSpace row verdict .release)
        (lone_reads_iff noSpace row verdict .main)).trans and_self_iff
  | buildFirst release main issue =>
      rw [both]
      exact pair_reads_iff noSpace row release main issue (.inl rfl)
  | pastFirst release main issue =>
      rw [both]
      exact pair_reads_iff noSpace row release main issue (.inr rfl)

theorem alphanum_noSpace : NoSpaceInWords Char.isAlphanum := by
  intro char space
  simp only [Text.isSpace, Bool.or_eq_true, Bool.and_eq_true, decide_eq_true_eq] at space
  show ((decide (char.val ≥ 'A'.val ∧ char.val ≤ 'Z'.val) ||
    (decide (char.val ≥ 'a'.val) && decide (char.val ≤ 'z'.val))) ||
    (decide (char.val ≥ '0'.val) && decide (char.val ≤ '9'.val))) = false
  simp only [Bool.or_eq_false_iff, Bool.and_eq_false_iff, decide_eq_false_iff_not, ge_iff_le,
    UInt32.le_iff_toNat_le]
  have code : char.toNat = char.val.toNat := rfl
  have bounds : 'A'.val.toNat = 65 ∧ 'Z'.val.toNat = 90 ∧ 'a'.val.toNat = 97 ∧
      'z'.val.toNat = 122 ∧ '0'.val.toNat = 48 ∧ '9'.val.toNat = 57 := by decide
  omega

def plainLink : Issue where
  label := "2169".toList
  target := ['u']
  labelSome := by decide
  labelPlain := List.forall_iff_forall_mem.mp (by decide)
  targetSome := by decide
  targetPlain := List.forall_iff_forall_mem.mp (by decide)

def perBuild : Cell Char.isAlphanum := .pastFirst (.fail plainLink) .pass plainLink

theorem expected_reads_per_build :
    perBuild.text =
        "pass on a build past [ISS 2169](u); fail ([ISS 2169](u)) on the build".toList ∧
      ∀ build, expected Char.isAlphanum [] perBuild.text build =
        .ok (some ⟨(perBuild.verdict build).text, (perBuild.verdict build).outcome⟩) := by
  refine ⟨rfl, (expected_reads_iff alphanum_noSpace [] perBuild).mpr ⟨?_, ?_⟩⟩
  · decide
  · intro rebounds
    obtain ⟨before, later, -, whole⟩ := rebounds
    have length := congrArg List.length whole
    have bound : PAST.length = 17 := rfl
    have label : (' ' :: plainLink.label).length = 5 := rfl
    rw [List.length_append, List.length_append, bound, label] at length
    omega

def hangsLink : Issue where
  label := "2169, hangs on restart".toList
  target := ['u']
  labelSome := by decide
  labelPlain := List.forall_iff_forall_mem.mp (by decide)
  targetSome := by decide
  targetPlain := List.forall_iff_forall_mem.mp (by decide)

def hangs : Cell Char.isAlphanum := .lone (.fail hangsLink)

/-- A cell of one verdict is refused as a segment that names no build. -/
theorem label_on_refused :
    hangs.text = "fail ([ISS 2169, hangs on restart](u))".toList ∧
      expected Char.isAlphanum [] hangs.text .release = .error (.noQualifier [] hangs.text) ∧
      expected Char.isAlphanum [] hangs.text .main = .error (.noQualifier [] hangs.text) :=
  ⟨rfl, by decide +kernel, by decide +kernel⟩

end BitcoinNodeTests.Census
