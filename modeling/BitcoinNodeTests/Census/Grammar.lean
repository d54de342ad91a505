import Mathlib.Data.List.TakeWhile
import BitcoinNodeTests.Foundation.Separators
import BitcoinNodeTests.Census.Cells

/-!
# The cells the ledger is written in

A verdict, and a cell of one verdict or of two segments that name their builds, each with
its text.  `isIssue_iff` and `verdictOf_text` hold the grammar to the patterns.
-/

set_option autoImplicit false

namespace BitcoinNodeTests.Census

open Foundation

structure Issue where
  label : Text
  target : Text
  labelSome : label ≠ []
  labelPlain : ∀ char ∈ label, char ≠ ']' ∧ char ≠ '\n'
  targetSome : target ≠ []
  targetPlain : ∀ char ∈ target, char ≠ ')' ∧ Text.isSpace char = false

def Issue.tail (issue : Issue) : Text := '(' :: (issue.target ++ [')'])

def Issue.text (issue : Issue) : Text := "[ISS ".toList ++ (issue.label ++ ']' :: issue.tail)

inductive Verdict (isWord : Char → Bool) where
  | pass
  | notPorted
  | fail (issue : Issue)
  | skip
  | skipOf (word : Text) (some : word ≠ []) (all : ∀ char ∈ word, isWord char = true)

/-! The words of the verdicts, as the patterns have them. -/

def PASS : Text := "pass".toList
def NOT_PORTED : Text := "not ported".toList
def FAIL : Text := "fail (".toList
def SKIP : Text := "skip".toList
def SKIP_OF : Text := "skip (".toList

namespace Verdict

variable {isWord : Char → Bool}

def text : Verdict isWord → Text
  | pass => PASS
  | notPorted => NOT_PORTED
  | fail issue => FAIL ++ (issue.text ++ [')'])
  | skip => SKIP
  | skipOf word _ _ => SKIP_OF ++ (word ++ [')'])

def outcome : Verdict isWord → Status
  | pass => .pass
  | notPorted => .fail
  | fail _ => .fail
  | skip => .skip
  | skipOf _ _ _ => .skip

def labels : Verdict isWord → List Text
  | fail issue => [issue.label]
  | _ => []

def onTheBuild (verdict : Verdict isWord) : Text := verdict.text ++ " on the build".toList

def onABuildPast (verdict : Verdict isWord) (issue : Issue) : Text :=
  verdict.text ++ (" on a build past ".toList ++ issue.text)

end Verdict

inductive Cell (isWord : Char → Bool) where
  | lone (verdict : Verdict isWord)
  | buildFirst (release main : Verdict isWord) (issue : Issue)
  | pastFirst (release main : Verdict isWord) (issue : Issue)

namespace Cell

variable {isWord : Char → Bool}

def text : Cell isWord → Text
  | lone verdict => verdict.text
  | buildFirst release main issue =>
      release.onTheBuild ++ ';' :: ' ' :: main.onABuildPast issue
  | pastFirst release main issue =>
      main.onABuildPast issue ++ ';' :: ' ' :: release.onTheBuild

def verdict : Cell isWord → Build → Verdict isWord
  | lone verdict, _ => verdict
  | buildFirst release _ _, .release => release
  | buildFirst _ main _, .main => main
  | pastFirst release _ _, .release => release
  | pastFirst _ main _, .main => main

end Cell

/-! ## Issue links -/

theorem parts_of_isIssue {text : Text} (matched : isIssue text = true) :
    ∃ label target, text = "[ISS ".toList ++ (label ++ ']' :: '(' :: (target ++ [')'])) ∧
      label ≠ [] ∧ ']' ∉ label ∧ target ≠ [] ∧
      ∀ char ∈ target, char ≠ ')' ∧ Text.isSpace char = false := by
  unfold isIssue at matched
  split at matched
  · rename_i rest opens
    simp only at matched
    split at matched
    · rename_i link after
      simp only [Bool.and_eq_true, decide_eq_true_eq] at matched
      obtain ⟨⟨labelSome, targetSome⟩, ends⟩ := matched
      refine ⟨_, _, ?_, labelSome, ?_, targetSome, ?_⟩
      · rw [Text.splitOnce_eq opens, List.nil_append]
        have whole := Text.takeWhile_drop (· ≠ ']') rest
        rw [after] at whole
        have link_ := Text.takeWhile_drop (fun char => char ≠ ')' && !Text.isSpace char) link
        rw [ends] at link_
        rw [← link_, ← whole]
      · intro member
        have kept := List.mem_takeWhile_imp member
        simp at kept
      · intro char member
        have kept := List.mem_takeWhile_imp member
        simpa using kept
    · cases matched
  · cases matched

theorem isIssue_of_parts {label target : Text} (labelSome : label ≠ []) (plain : ']' ∉ label)
    (targetSome : target ≠ []) (bare : ∀ char ∈ target, char ≠ ')' ∧ Text.isSpace char = false) :
    isIssue ("[ISS ".toList ++ (label ++ ']' :: '(' :: (target ++ [')']))) = true := by
  have opens : Text.splitOnce "[ISS ".toList
      ("[ISS ".toList ++ (label ++ ']' :: '(' :: (target ++ [')']))) =
      some ([], label ++ ']' :: '(' :: (target ++ [')'])) :=
    Text.splitOnce_of_not_mem ['I', 'S', 'S', ' '] _ (List.not_mem_nil)
  have labelRun : (label ++ ']' :: '(' :: (target ++ [')'])).takeWhile (· ≠ ']') = label := by
    apply Text.takeWhile_whole
    · intro char member
      simpa using fun same : char = ']' => plain (same ▸ member)
    · rfl
  have targetRun : (target ++ [')']).takeWhile (fun char => char ≠ ')' && !Text.isSpace char) =
      target := by
    apply Text.takeWhile_whole
    · intro char member
      simpa using bare char member
    · rfl
  rw [isIssue, opens]
  simp only [labelRun, List.drop_left, targetRun]
  simp [labelSome, targetSome]

theorem Issue.isIssue_text (issue : Issue) : isIssue issue.text = true :=
  isIssue_of_parts issue.labelSome (fun member => (issue.labelPlain _ member).1 rfl)
    issue.targetSome issue.targetPlain

theorem Issue.not_mem_target (issue : Issue) {char : Char} (space : Text.isSpace char = true) :
    char ∉ issue.target := by
  intro member
  have bare := (issue.targetPlain char member).2
  rw [space] at bare
  cases bare

theorem Issue.not_mem_tail (issue : Issue) {char : Char} (space : Text.isSpace char = true) :
    char ∉ issue.tail := by
  rw [Issue.tail, List.mem_cons, List.mem_append, List.mem_singleton]
  rintro (rfl | member | rfl)
  · exact absurd space (by decide)
  · exact issue.not_mem_target space member
  · exact absurd space (by decide)

theorem Issue.oneLine (issue : Issue) : '
' ∉ issue.text := by
  rw [Issue.text, List.mem_append, List.mem_append, List.mem_cons]
  rintro (literal | label | isBracket | tail)
  · exact absurd literal (by decide)
  · exact (issue.labelPlain _ label).2 rfl
  · exact absurd isBracket (by decide)
  · exact issue.not_mem_tail (by decide) tail

theorem isIssue_iff {text : Text} :
    isIssue text = true ∧ '
' ∉ text ↔ ∃ issue : Issue, issue.text = text := by
  constructor
  · rintro ⟨matched, oneLine⟩
    obtain ⟨label, target, rfl, labelSome, plain, targetSome, bare⟩ := parts_of_isIssue matched
    refine ⟨⟨label, target, labelSome, fun char member => ⟨?_, ?_⟩, targetSome, bare⟩, rfl⟩
    · rintro rfl
      exact plain member
    · rintro rfl
      exact oneLine (by simp [member])
  · rintro ⟨issue, rfl⟩
    exact ⟨issue.isIssue_text, issue.oneLine⟩

/-! ## Verdicts -/

def NoSpaceInWords (isWord : Char → Bool) : Prop :=
  ∀ char, Text.isSpace char = true → isWord char = false

section Verdicts

variable {isWord : Char → Bool}

theorem not_mem_word (noSpace : NoSpaceInWords isWord) {word : Text}
    (all : ∀ char ∈ word, isWord char = true) {char : Char} (space : Text.isSpace char = true) :
    char ∉ word := by
  intro member
  have inWord := all char member
  rw [noSpace char space] at inWord
  cases inWord

theorem Verdict.fail_text (issue : Issue) (rest : Text) :
    (fail issue : Verdict isWord).text ++ rest = "fail ([ISS ".toList ++
      (issue.label ++ ']' :: '(' :: (issue.target ++ ')' :: ')' :: rest)) := by
  simp only [Verdict.text, Issue.text, Issue.tail, List.append_assoc, List.cons_append,
    List.nil_append]
  rfl

theorem Verdict.skipOf_text {word : Text} (some : word ≠ [])
    (all : ∀ char ∈ word, isWord char = true) (rest : Text) :
    (skipOf word some all).text ++ rest = SKIP_OF ++ (word ++ ')' :: rest) := by
  simp only [Verdict.text, List.append_assoc, List.cons_append, List.nil_append]

theorem Verdict.oneLine (noSpace : NoSpaceInWords isWord) (verdict : Verdict isWord) :
    '\n' ∉ verdict.text := by
  cases verdict with
  | pass =>
      show '\n' ∉ PASS
      decide
  | notPorted =>
      show '\n' ∉ NOT_PORTED
      decide
  | skip =>
      show '\n' ∉ SKIP
      decide
  | fail issue =>
      intro member
      rcases List.mem_append.mp member with literal | later
      · exact absurd literal (by decide)
      rcases List.mem_append.mp later with link | close
      · exact issue.oneLine link
      · exact absurd close (by decide)
  | skipOf word some all =>
      intro member
      rcases List.mem_append.mp member with literal | later
      · exact absurd literal (by decide)
      rcases List.mem_append.mp later with inWord | close
      · exact not_mem_word noSpace all (by decide) inWord
      · exact absurd close (by decide)

theorem Verdict.text_cons (verdict : Verdict isWord) :
    ∃ char rest, verdict.text = char :: rest ∧ char ≠ 'b' := by
  cases verdict with
  | pass => exact ⟨_, _, rfl, by decide⟩
  | notPorted => exact ⟨_, _, rfl, by decide⟩
  | fail issue => exact ⟨_, _, rfl, by decide⟩
  | skip => exact ⟨_, _, rfl, by decide⟩
  | skipOf word some all => exact ⟨_, _, rfl, by decide⟩

theorem Verdict.isRun_text (noSpace : NoSpaceInWords isWord) (verdict : Verdict isWord) :
    isRun verdict.text = true := by
  have notEmpty : verdict.text ≠ [] := by
    obtain ⟨char, rest, starts, -⟩ := verdict.text_cons
    rw [starts]
    exact List.cons_ne_nil char rest
  simp [isRun, verdict.oneLine noSpace, notEmpty]

theorem isFailure_text (issue : Issue) :
    isFailure ("fail (".toList ++ (issue.text ++ [')'])) = true := by
  have opens : Text.splitOnce "fail (".toList ("fail (".toList ++ (issue.text ++ [')'])) =
      some ([], issue.text ++ [')']) :=
    Text.splitOnce_of_not_mem ['a', 'i', 'l', ' ', '('] _ List.not_mem_nil
  rw [isFailure, opens]
  simp [issue.isIssue_text]

theorem isSkip_text {word : Text} (some : word ≠ []) (all : ∀ char ∈ word, isWord char = true) :
    isSkip isWord ("skip (".toList ++ (word ++ [')'])) = true := by
  have opens : Text.splitOnce "skip (".toList ("skip (".toList ++ (word ++ [')'])) =
      .some ([], word ++ [')']) :=
    Text.splitOnce_of_not_mem ['k', 'i', 'p', ' ', '('] _ List.not_mem_nil
  rw [isSkip, opens]
  simp [some, List.all_eq_true.mpr all]

theorem not_isFailure {char : Char} (other : char ≠ 'f') (rest : Text) :
    isFailure (char :: rest) = false := by
  unfold isFailure
  split
  · rename_i after opens
    have whole := Text.splitOnce_eq opens
    exact absurd (List.cons.inj whole).1 other
  · rfl

theorem Verdict.verdictOf_text (row : Text) (verdict : Verdict isWord) :
    verdictOf isWord row verdict.text = .ok ⟨verdict.text, verdict.outcome⟩ := by
  cases verdict with
  | pass => rfl
  | notPorted => rfl
  | skip => rfl
  | fail issue =>
      have notPass : (fail issue : Verdict isWord).text ≠ "pass".toList := fun same =>
        absurd (List.cons.inj same).1 (by decide)
      have ported : (fail issue : Verdict isWord).text ≠ "not ported".toList := fun same =>
        absurd (List.cons.inj same).1 (by decide)
      rw [verdictOf, if_neg notPass, if_neg ported]
      exact if_pos (isFailure_text issue)
  | skipOf word some all =>
      have notPass : (skipOf word some all).text ≠ "pass".toList := fun same =>
        absurd (List.cons.inj same).1 (by decide)
      have ported : (skipOf word some all).text ≠ "not ported".toList := fun same =>
        absurd (List.cons.inj same).1 (by decide)
      have notFailure : ¬ isFailure (skipOf word some all).text = true := by
        rw [Bool.not_eq_true]
        exact not_isFailure (by decide) _
      rw [verdictOf, if_neg notPass, if_neg ported, if_neg notFailure]
      exact if_pos (isSkip_text some all)

theorem text_of_verdictOf {row text : Text} {read : Expected}
    (reads : verdictOf isWord row text = .ok read) : read.text = text := by
  unfold verdictOf at reads
  split at reads
  · cases reads
    rfl
  split at reads
  · cases reads
    rfl
  split at reads
  · cases reads
    rfl
  split at reads
  · cases reads
    rfl
  · cases reads

end Verdicts

end BitcoinNodeTests.Census
