import BitcoinNodeTests.Foundation.Text

/-!
# Where a separator can be

A separator does not reach across a character it does not have, so where it occurs in a
text is where it occurs in the parts between such characters.  A separator of two different
characters does not overlap itself: a split at it is the split of what is before it and
the split of what is after.
-/

set_option autoImplicit false

namespace BitcoinNodeTests.Foundation

section Infix

variable {α : Type} {sep before text after front : List α} {char : α}

/-- Where the separator is in a text with a character it does not have. -/
theorem occurs_through (absent : char ∉ sep) (some : sep ≠ [])
    (whole : text ++ char :: after = before ++ (sep ++ front)) :
    (∃ middle, text = before ++ (sep ++ middle) ∧ front = middle ++ char :: after) ∨
      ∃ middle, before = text ++ char :: middle ∧ after = middle ++ (sep ++ front) := by
  rcases List.append_eq_append_iff.mp whole with ⟨rest, rfl, later⟩ | ⟨rest, rfl, later⟩
  · cases rest with
    | nil =>
        obtain ⟨first, others, rfl⟩ := List.exists_cons_of_ne_nil some
        obtain ⟨rfl, -⟩ := List.cons.inj later
        exact absurd List.mem_cons_self absent
    | cons next others =>
        obtain ⟨rfl, rfl⟩ := List.cons.inj later
        exact .inr ⟨others, rfl, rfl⟩
  · rcases List.append_eq_append_iff.mp later with ⟨middle, rfl, same⟩ | ⟨middle, rfl, same⟩
    · exact .inl ⟨middle, rfl, same⟩
    · cases middle with
      | nil => exact .inl ⟨[], by simp, by simpa using same.symm⟩
      | cons next others =>
          obtain ⟨rfl, -⟩ := List.cons.inj same
          exact absurd (by simp) absent

theorem infix_through_iff (absent : char ∉ sep) (some : sep ≠ []) :
    sep <:+: text ++ char :: after ↔ sep <:+: text ∨ sep <:+: after := by
  constructor
  · rintro ⟨before, front, whole⟩
    rw [List.append_assoc] at whole
    rcases occurs_through absent some whole.symm with ⟨middle, inText, -⟩ | ⟨middle, -, inAfter⟩
    · exact .inl ⟨before, middle, by rw [inText, List.append_assoc]⟩
    · exact .inr ⟨middle, front, by rw [inAfter, List.append_assoc]⟩
  · rintro (inText | inAfter)
    · exact inText.trans (List.prefix_append _ _).isInfix
    · exact inAfter.trans ((List.suffix_cons _ _).trans (List.suffix_append _ _)).isInfix

theorem infix_past_iff {first : α} (absent : first ∉ text) :
    first :: sep <:+: text ++ after ↔ first :: sep <:+: after := by
  induction text with
  | nil => rfl
  | cons char rest ih =>
      obtain ⟨differ, later⟩ := not_or.mp (List.mem_cons.not.mp absent)
      rw [List.cons_append, List.infix_cons_iff, ih later]
      refine or_iff_right fun isPrefix => ?_
      exact differ (List.cons_prefix_cons.mp isPrefix).1

theorem infix_next_iff {first : α} (differ : char ≠ first) :
    first :: sep <:+: char :: after ↔ first :: sep <:+: after :=
  @infix_past_iff _ _ [char] _ _ (List.mem_singleton.not.mpr differ.symm)

theorem not_infix_of_not_mem (inSep : char ∈ sep) (absent : char ∉ text) : ¬ sep <:+: text :=
  fun occurs => absent (occurs.subset inSep)

theorem before_eq_of_not_mem {other others : List α} (absent : char ∉ before)
    (plain : char ∉ other) (same : before ++ char :: after = other ++ char :: others) :
    before = other := by
  rcases List.append_eq_append_iff.mp same with ⟨rest, rfl, later⟩ | ⟨rest, rfl, later⟩
  · cases rest with
    | nil => rw [List.append_nil]
    | cons next _ =>
        obtain ⟨rfl, -⟩ := List.cons.inj later
        exact absurd (List.mem_append_right _ List.mem_cons_self) plain
  · cases rest with
    | nil => rw [List.append_nil]
    | cons next _ =>
        obtain ⟨rfl, -⟩ := List.cons.inj later
        exact absurd (List.mem_append_right _ List.mem_cons_self) absent

end Infix

namespace Text

section Split

variable {separator text : Text}

theorem splitFrom_of_absent (current : Text) (absent : ¬ separator <:+: text) :
    splitFrom separator 0 current text = [current ++ text] := by
  induction text generalizing current with
  | nil => simp [splitFrom]
  | cons char rest ih =>
      have notPrefix : ¬ separator.isPrefixOf (char :: rest) = true := fun isPrefix =>
        absent (List.isPrefixOf_iff_prefix.mp isPrefix).isInfix
      have later : ¬ separator <:+: rest := fun occurs =>
        absent (occurs.trans (List.suffix_cons char rest).isInfix)
      rw [splitFrom, if_neg notPrefix, ih _ later]
      simp

theorem split_of_absent (absent : ¬ separator <:+: text) : split separator text = [text] :=
  splitFrom_of_absent [] absent

theorem splitFrom_append {first second : Char} (differ : first ≠ second)
    (current before after : Text) :
    splitFrom [first, second] 0 current (before ++ first :: second :: after) =
      splitFrom [first, second] 0 current before ++ split [first, second] after := by
  induction size : before.length using Nat.strong_induction_on generalizing before current with
  | _ size ih =>
      subst size
      cases before with
      | nil => simp [splitFrom, split]
      | cons char rest =>
          by_cases isPrefix : [first, second] <+: char :: rest
          · obtain ⟨later, whole⟩ := isPrefix
            have same : char :: rest = first :: second :: later := whole.symm
            have shorter := ih later.length (by rw [same, List.length_cons, List.length_cons]; omega)
              [] later rfl
            rw [same]
            simp [splitFrom, shorter]
          · have notPrefix : ¬ [first, second] <+: char :: (rest ++ first :: second :: after) := by
              intro whole
              cases rest with
              | nil =>
                  have second_ : second = first := by simpa using (List.cons_prefix_cons.mp whole).2
                  exact differ second_.symm
              | cons next others =>
                  apply isPrefix
                  simpa using whole
            have later := ih rest.length (by simp) (current ++ [char]) rest rfl
            rw [← List.isPrefixOf_iff_prefix] at isPrefix notPrefix
            rw [List.cons_append, splitFrom, if_neg notPrefix, later, splitFrom, if_neg isPrefix]

theorem split_append {first second : Char} (differ : first ≠ second) (before after : Text) :
    split [first, second] (before ++ first :: second :: after) =
      split [first, second] before ++ split [first, second] after :=
  splitFrom_append differ [] before after

theorem splitFrom_char (char : Char) (current before after : Text) :
    splitFrom [char] 0 current (before ++ char :: after) =
      splitFrom [char] 0 current before ++ split [char] after := by
  induction before generalizing current with
  | nil => simp [splitFrom, split]
  | cons next rest ih =>
      rw [List.cons_append, splitFrom, splitFrom]
      by_cases same : char = next
      · subst same
        simp [ih]
      · simp [same, ih]

theorem split_char (char : Char) (before after : Text) :
    split [char] (before ++ char :: after) = split [char] before ++ split [char] after :=
  splitFrom_char char [] before after

theorem splitFrom_ne_nil (separator : Text) (skip : Nat) (current text : Text) :
    splitFrom separator skip current text ≠ [] := by
  induction text generalizing skip current with
  | nil => simp [splitFrom]
  | cons char rest ih =>
      cases skip with
      | succ skip => exact ih skip current
      | zero =>
          rw [splitFrom]
          split
          · simp
          · exact ih 0 _

theorem split_length_eq_one_iff {first second : Char} (differ : first ≠ second) :
    (split [first, second] text).length = 1 ↔ ¬ [first, second] <:+: text := by
  constructor
  · rintro one ⟨before, after, rfl⟩
    have parts := split_append differ before after
    have some := List.length_pos_of_ne_nil (splitFrom_ne_nil [first, second] 0 [] before)
    have more := List.length_pos_of_ne_nil (splitFrom_ne_nil [first, second] 0 [] after)
    have whole : before ++ [first, second] ++ after = before ++ first :: second :: after := by simp
    rw [whole, parts, List.length_append] at one
    rw [split, split] at one
    omega
  · intro absent
    rw [split_of_absent absent]
    rfl

theorem length_le_of_mem_splitFrom {part : Text} (skip : Nat) (current : Text)
    (member : part ∈ splitFrom separator skip current text) :
    part.length ≤ current.length + text.length := by
  induction text generalizing skip current with
  | nil =>
      rw [splitFrom, List.mem_singleton] at member
      rw [member]
      exact Nat.le_add_right _ _
  | cons char rest ih =>
      rw [List.length_cons]
      cases skip with
      | succ skip =>
          have later := ih skip current member
          omega
      | zero =>
          rw [splitFrom] at member
          split at member
          · rcases List.mem_cons.mp member with rfl | member
            · exact Nat.le_add_right _ _
            · have later := ih _ [] member
              simp only [List.length_nil] at later
              omega
          · have later := ih 0 _ member
            simp only [List.length_append, List.length_singleton] at later
            omega

theorem length_le_of_mem_split {part : Text} (member : part ∈ split separator text) :
    part.length ≤ text.length := by
  have bound := length_le_of_mem_splitFrom 0 [] member
  simpa using bound

theorem contains_iff (some : separator ≠ []) :
    contains separator text = true ↔ separator <:+: text := by
  rw [← not_iff_not, contains, Bool.not_eq_true, Option.isSome_eq_false_iff, Option.isNone_iff_eq_none]
  exact splitOnce_eq_none_iff some

/-! ## The last place that is accepted -/

theorem splitLast_eq {separator : Text} {accept : Text → Bool} {text before after : Text}
    (split : splitLast separator accept text = some (before, after)) :
    text = before ++ (separator ++ after) ∧ accept after = true := by
  induction text generalizing before with
  | nil => cases split
  | cons char rest ih =>
      rw [splitLast] at split
      cases later : if char = '\n' then none else splitLast separator accept rest with
      | some found =>
          rw [later] at split
          cases split
          obtain ⟨-, later⟩ := Option.ite_none_left_eq_some.mp later
          obtain ⟨whole, accepted⟩ := ih later
          exact ⟨congrArg (char :: ·) whole, accepted⟩
      | none =>
          simp only [later] at split
          split at split
          · rename_i here
            cases split
            obtain ⟨isPrefix, accepted⟩ := Bool.and_eq_true_iff.mp here
            obtain ⟨rest_, whole⟩ := List.isPrefixOf_iff_prefix.mp isPrefix
            rw [← whole, List.drop_left] at accepted ⊢
            exact ⟨rfl, accepted⟩
          · cases split

theorem length_of_splitLast {separator : Text} {accept : Text → Bool} {text before after : Text}
    (some : separator ≠ []) (split : splitLast separator accept text = .some (before, after)) :
    before.length < text.length := by
  have length := List.length_pos_of_ne_nil some
  rw [(splitLast_eq split).1, List.length_append, List.length_append]
  omega

theorem splitLast_of_occurs {separator : Text} {accept : Text → Bool} (some : separator ≠ [])
    {before after : Text} (oneLine : '\n' ∉ before) (accepted : accept after = true) :
    ∃ found rest, splitLast separator accept (before ++ (separator ++ after)) =
      .some (found, rest) ∧ before.length ≤ found.length := by
  induction before with
  | nil =>
      obtain ⟨first, others, rfl⟩ := List.exists_cons_of_ne_nil some
      rw [List.nil_append, List.cons_append, splitLast]
      cases later : if first = '\n' then none
          else splitLast (first :: others) accept (others ++ after) with
      | some found => exact ⟨_, _, rfl, Nat.zero_le _⟩
      | none =>
          have isPrefix : (first :: others).isPrefixOf (first :: (others ++ after)) = true :=
            List.isPrefixOf_iff_prefix.mpr ⟨after, rfl⟩
          have dropped : (first :: (others ++ after)).drop (first :: others).length = after :=
            @List.drop_left _ (first :: others) after
          simp only [isPrefix, dropped, accepted, Bool.and_self, if_true]
          exact ⟨_, _, rfl, Nat.zero_le _⟩
  | cons char rest ih =>
      obtain ⟨isLater, restOneLine⟩ := not_or.mp (List.mem_cons.not.mp oneLine)
      obtain ⟨found, last, later, reaches⟩ := ih restOneLine
      rw [List.cons_append, splitLast, if_neg (Ne.symm isLater), later]
      exact ⟨_, _, rfl, Nat.succ_le_succ reaches⟩

end Split

end Text

end BitcoinNodeTests.Foundation
