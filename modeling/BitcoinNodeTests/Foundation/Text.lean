import Mathlib.Data.List.Infix
import Mathlib.Data.List.TakeWhile

/-!
# Python's methods of `str`

A text is its list of characters.  The white space and the line boundaries are those of
`str.isspace` and `str.splitlines`, and a separator is never empty.
-/

set_option autoImplicit false

namespace BitcoinNodeTests.Foundation

abbrev Text : Type := List Char

instance lawfulBEqText : LawfulBEq Text := inferInstance

namespace Text

def isSpace (char : Char) : Bool :=
  let code := char.toNat
  (9 ≤ code && code ≤ 13) || (28 ≤ code && code ≤ 32) || code = 0x85 || code = 0xa0 ||
    code = 0x1680 || (0x2000 ≤ code && code ≤ 0x200a) || code = 0x2028 || code = 0x2029 ||
    code = 0x202f || code = 0x205f || code = 0x3000

/-- What `str.splitlines` ends a line at, a carriage return and its line feed being one. -/
def isLineBreak (char : Char) : Bool :=
  let code := char.toNat
  (10 ≤ code && code ≤ 13) || (28 ≤ code && code ≤ 30) || code = 0x85 || code = 0x2028 ||
    code = 0x2029

def linesFrom (current : Text) : Text → List Text
  | [] => if current = [] then [] else [current]
  | '\r' :: '\n' :: rest => current :: linesFrom [] rest
  | char :: rest =>
      if isLineBreak char then current :: linesFrom [] rest
      else linesFrom (current ++ [char]) rest

def splitlines (text : Text) : List Text := linesFrom [] text

def strip (kind : Char → Bool) (text : Text) : Text :=
  ((text.dropWhile kind).reverse.dropWhile kind).reverse

def splitOnce (separator : Text) : Text → Option (Text × Text)
  | [] => none
  | char :: rest =>
      if separator.isPrefixOf (char :: rest) then
        some ([], (char :: rest).drop separator.length)
      else (splitOnce separator rest).map fun (before, after) => (char :: before, after)

/-- `skip` characters of a separator are still to be passed. -/
def splitFrom (separator : Text) : Nat → Text → Text → List Text
  | _, current, [] => [current]
  | skip + 1, current, _ :: rest => splitFrom separator skip current rest
  | 0, current, char :: rest =>
      if separator.isPrefixOf (char :: rest) then
        current :: splitFrom separator (separator.length - 1) [] rest
      else splitFrom separator 0 (current ++ [char]) rest

def split (separator text : Text) : List Text := splitFrom separator 0 [] text

def contains (separator text : Text) : Bool := (splitOnce separator text).isSome

def removeSuffix (suffix text : Text) : Text :=
  if suffix.isSuffixOf text then text.take (text.length - suffix.length) else text

/-- `text.rsplit(char, 1)[-1]` -/
def afterLast (char : Char) (text : Text) : Text :=
  (text.reverse.takeWhile (· ≠ char)).reverse

/-- `text.split(char, 1)[0]` -/
def beforeFirst (char : Char) (text : Text) : Text := text.takeWhile (· ≠ char)

/-- Where the last occurrence of the separator is that what follows is accepted after.  What
is before it, a pattern's `.*`, is within the first line. -/
def splitLast (separator : Text) (accept : Text → Bool) : Text → Option (Text × Text)
  | [] => none
  | char :: rest =>
      match if char = '\n' then none else splitLast separator accept rest with
      | some (before, after) => some (char :: before, after)
      | none =>
          if separator.isPrefixOf (char :: rest) &&
              accept ((char :: rest).drop separator.length) then
            some ([], (char :: rest).drop separator.length)
          else none

/-! ## Parts that hold no separator -/

theorem splitOnce_of_not_mem {first : Char} (separator : Text) {before : Text} (after : Text)
    (absent : first ∉ before) :
    splitOnce (first :: separator) (before ++ (first :: separator ++ after)) =
      some (before, after) := by
  induction before with
  | nil => simp [splitOnce]
  | cons char rest ih =>
      obtain ⟨other, later⟩ := not_or.mp (List.mem_cons.not.mp absent)
      rw [List.cons_append, splitOnce, ih later]
      simp [other]

theorem afterLast_of_not_mem {char : Char} {after : Text} (before : Text)
    (absent : char ∉ after) : afterLast char (before ++ char :: after) = after := by
  have all : ∀ other ∈ after.reverse, (other ≠ char : Bool) := by
    intro other member
    have inAfter := List.mem_reverse.mp member
    have differs : other ≠ char := fun same => absent (same ▸ inAfter)
    simpa using differs
  have turned : (before ++ char :: after).reverse = after.reverse ++ char :: before.reverse := by
    simp
  rw [afterLast, turned, List.takeWhile_append_of_pos all]
  simp

theorem beforeFirst_of_not_mem {char : Char} {before : Text} (absent : char ∉ before) :
    beforeFirst char before = before ∧
      ∀ after, beforeFirst char (before ++ char :: after) = before := by
  have all : ∀ other ∈ before, (other ≠ char : Bool) := by
    intro other member
    have differs : other ≠ char := fun same => absent (same ▸ member)
    simpa using differs
  refine ⟨?_, fun after => ?_⟩
  · have whole := @List.takeWhile_append_of_pos _ _ _ [] all
    simpa [beforeFirst] using whole
  · rw [beforeFirst, List.takeWhile_append_of_pos all]
    simp

theorem removeSuffix_append (text suffix : Text) : removeSuffix suffix (text ++ suffix) = text := by
  simp [removeSuffix]

theorem takeWhile_stop {kind : Char → Bool} {char : Char} (stops : kind char = false)
    (before after : Text) :
    (before ++ char :: after).takeWhile kind = before.takeWhile kind := by
  induction before with
  | nil => simp [stops]
  | cons first rest ih =>
      rw [List.cons_append, List.takeWhile_cons, List.takeWhile_cons, ih]

theorem takeWhile_whole {kind : Char → Bool} {run : Text} {stop : Char}
    (all : ∀ char ∈ run, kind char = true) (stops : kind stop = false) (rest : Text) :
    (run ++ stop :: rest).takeWhile kind = run := by
  rw [List.takeWhile_append_of_pos all]
  simp [stops]

theorem takeWhile_drop (kind : Char → Bool) (text : Text) :
    text = text.takeWhile kind ++ text.drop (text.takeWhile kind).length := by
  have run := List.prefix_iff_eq_take.mp (List.takeWhile_prefix kind (l := text))
  have split := (List.take_append_drop (text.takeWhile kind).length text).symm
  rwa [← run] at split

theorem kind_of_dropWhile {kind : Char → Bool} {text : Text} {char : Char}
    (first : (text.dropWhile kind).head? = some char) : kind char = false := by
  have stops := List.head?_dropWhile_not kind text
  rw [first] at stops
  exact stops

theorem strip_eq_nil_iff {kind : Char → Bool} {text : Text} :
    strip kind text = [] ↔ ∀ char ∈ text, kind char = true := by
  rw [strip, List.reverse_eq_nil_iff, List.dropWhile_eq_nil_iff]
  constructor
  · intro rest char member
    rw [← List.takeWhile_append_dropWhile (p := kind) (l := text), List.mem_append] at member
    rcases member with inRun | inRest
    · exact List.mem_takeWhile_imp inRun
    · exact rest char (List.mem_reverse.mpr inRest)
  · intro all char member
    exact all char ((List.dropWhile_suffix kind).subset (List.mem_reverse.mp member))

/-- A character of another kind is not stripped, nor anything after it but the end. -/
theorem strip_cons {kind : Char → Bool} {char : Char} (kept : kind char = false) (text : Text) :
    ∃ rest, strip kind (char :: text) = char :: rest := by
  have starts : (char :: text).dropWhile kind = char :: text := by simp [kept]
  have turned : (char :: text).reverse = text.reverse ++ [char] := by simp
  rw [strip, starts, turned, List.dropWhile_append]
  split
  · exact ⟨[], by simp [kept]⟩
  · exact ⟨(text.reverse.dropWhile kind).reverse, by simp⟩

theorem strip_through {kind : Char → Bool} {first stop : Char} (kept : kind first = false)
    (stops : kind stop = false) (middle text : Text) :
    ∃ rest, strip kind (first :: (middle ++ stop :: text)) = first :: (middle ++ stop :: rest) := by
  have turned : (first :: (middle ++ stop :: text)).reverse =
      text.reverse ++ stop :: (middle.reverse ++ [first]) := by simp
  refine ⟨(text.reverse.dropWhile kind).reverse, ?_⟩
  rw [strip, List.dropWhile_cons_of_neg (by simp [kept]), turned, List.dropWhile_append]
  split
  · rename_i all
    rw [List.isEmpty_iff.mp all, List.dropWhile_cons_of_neg (by simp [stops])]
    simp
  · simp

/-! ## Parts of a split -/

theorem splitFrom_open (separator : Text) (skip : Nat) (begun current text : Text) :
    splitFrom separator skip (begun ++ current) text =
      (begun ++ (splitFrom separator skip current text).headD []) ::
        (splitFrom separator skip current text).tail := by
  induction text generalizing skip current with
  | nil => simp [splitFrom]
  | cons char rest ih =>
      cases skip with
      | succ skip => exact ih skip current
      | zero =>
          rw [splitFrom, splitFrom]
          split
          · rfl
          · rw [List.append_assoc]
            exact ih 0 (current ++ [char])

/-! ## Lines of parts -/

theorem splitOnce_eq {separator text before after : Text}
    (split : splitOnce separator text = some (before, after)) :
    text = before ++ (separator ++ after) := by
  induction text generalizing before with
  | nil => cases split
  | cons char rest ih =>
      unfold splitOnce at split
      split at split
      · rename_i isPrefix
        cases split
        obtain ⟨later, whole⟩ := List.isPrefixOf_iff_prefix.mp isPrefix
        rw [← whole, List.drop_left]
        rfl
      · obtain ⟨⟨earlier, later⟩, found, same⟩ := Option.map_eq_some_iff.mp split
        cases same
        rw [ih found]
        rfl

theorem splitOnce_eq_none_iff {separator text : Text} (some : separator ≠ []) :
    splitOnce separator text = none ↔ ¬ separator <:+: text := by
  induction text with
  | nil => simp [splitOnce, some]
  | cons char rest ih =>
      rw [splitOnce, List.infix_cons_iff, not_or, ← ih, ← List.isPrefixOf_iff_prefix]
      by_cases isPrefix : separator.isPrefixOf (char :: rest) = true
      · simp [isPrefix]
      · simp [isPrefix]

theorem linesFrom_cons {char : Char} {rest : Text}
    (notPair : ∀ later, char = '\r' → rest = '\n' :: later → False) (current : Text) :
    linesFrom current (char :: rest) =
      if isLineBreak char then current :: linesFrom [] rest
      else linesFrom (current ++ [char]) rest := by
  rw [linesFrom]
  exact notPair

theorem linesFrom_append {word : Text} (unbroken : ∀ char ∈ word, isLineBreak char = false)
    (current text : Text) : linesFrom current (word ++ text) = linesFrom (current ++ word) text := by
  induction word generalizing current with
  | nil => simp
  | cons char rest ih =>
      have notBreak := unbroken char List.mem_cons_self
      have notPair : ∀ later, char = '\r' → rest ++ text = '\n' :: later → False := by
        rintro later rfl
        exact absurd notBreak (by decide)
      rw [List.cons_append, linesFrom_cons notPair, if_neg (by simp [notBreak]), ih]
      · simp
      · exact fun other member => unbroken other (List.mem_cons_of_mem _ member)

/-- The lines of a part go on with whatever follows it, where a character that is no boundary
comes next. -/
theorem linesFrom_through {word : Text} (unbroken : ∀ char ∈ word, isLineBreak char = false)
    (some : word ≠ []) (current part : Text) :
    ∃ whole opened, ∀ text,
      linesFrom current (part ++ (word ++ text)) = whole ++ linesFrom (opened ++ word) text := by
  have noPair {char : Char} {rest : Text}
      (notPair : ∀ later, char = '\r' → rest = '\n' :: later → False) (text : Text) :
      ∀ later, char = '\r' → rest ++ (word ++ text) = '\n' :: later → False := by
    intro later isReturn starts
    cases rest with
    | cons next more =>
        obtain ⟨rfl, -⟩ := List.cons.inj starts
        exact notPair more isReturn rfl
    | nil =>
        obtain ⟨first, others, rfl⟩ := List.exists_cons_of_ne_nil some
        obtain ⟨rfl, -⟩ := List.cons.inj starts
        exact absurd (unbroken _ List.mem_cons_self) (by decide)
  fun_induction linesFrom current part with
  | case1 => exact ⟨[], [], fun text => linesFrom_append unbroken [] text⟩
  | case2 current => exact ⟨[], current, fun text => linesFrom_append unbroken current text⟩
  | case3 current rest ih =>
      obtain ⟨whole, opened, through⟩ := ih
      exact ⟨current :: whole, opened, fun text => congrArg (current :: ·) (through text)⟩
  | case4 current char rest notPair isBreak ih =>
      obtain ⟨whole, opened, through⟩ := ih
      refine ⟨current :: whole, opened, fun text => ?_⟩
      rw [List.cons_append, linesFrom_cons (noPair notPair text), if_pos isBreak, through]
      rfl
  | case5 current char rest notPair notBreak ih =>
      obtain ⟨whole, opened, through⟩ := ih
      refine ⟨whole, opened, fun text => ?_⟩
      rw [List.cons_append, linesFrom_cons (noPair notPair text), if_neg notBreak, through]

theorem linesFrom_open {begun : Text} (some : begun ≠ []) (current text : Text) :
    linesFrom (begun ++ current) text =
      (begun ++ (linesFrom current text).headD []) :: (linesFrom current text).tail := by
  fun_induction linesFrom current text with
  | case1 => simp [linesFrom, some]
  | case2 current isBegun => simp [linesFrom, some]
  | case3 current rest ih => rfl
  | case4 current char rest notPair isBreak ih =>
      rw [linesFrom_cons notPair, if_pos isBreak]
      rfl
  | case5 current char rest notPair notBreak ih =>
      rw [linesFrom_cons notPair, if_neg notBreak, List.append_assoc, ih]

theorem linesFrom_lineFeed (current part text : Text) :
    ∃ blank, (blank = [] ∨ blank = [[]]) ∧
      linesFrom current (part ++ '\n' :: text) =
        linesFrom current part ++ (blank ++ splitlines text) := by
  have atFeed (current : Text) : linesFrom current ('\n' :: text) = current :: splitlines text := by
    rw [linesFrom_cons (by simp), if_pos (by decide)]
    rfl
  fun_induction linesFrom current part with
  | case1 => exact ⟨[[]], .inr rfl, atFeed []⟩
  | case2 current isBegun => exact ⟨[], .inl rfl, atFeed current⟩
  | case3 current rest ih =>
      obtain ⟨blank, either, lines⟩ := ih
      exact ⟨blank, either, congrArg (current :: ·) lines⟩
  | case4 current char rest notPair isBreak ih =>
      by_cases ending : char = '\r' ∧ rest = []
      · obtain ⟨rfl, rfl⟩ := ending
        exact ⟨[], .inl rfl, rfl⟩
      · obtain ⟨blank, either, lines⟩ := ih
        refine ⟨blank, either, ?_⟩
        rw [List.cons_append, linesFrom_cons _, if_pos isBreak, lines]
        · rfl
        · intro later isReturn starts
          cases rest with
          | nil => exact ending ⟨isReturn, rfl⟩
          | cons next more =>
              obtain ⟨rfl, -⟩ := List.cons.inj starts
              exact notPair more isReturn rfl
  | case5 current char rest notPair notBreak ih =>
      obtain ⟨blank, either, lines⟩ := ih
      refine ⟨blank, either, ?_⟩
      rw [List.cons_append, linesFrom_cons _, if_neg notBreak, lines]
      rintro later rfl
      exact absurd (by decide) notBreak

theorem unbroken_of_mem {current text line : Text} (member : line ∈ linesFrom current text)
    (unbroken : ∀ char ∈ current, isLineBreak char = false) :
    ∀ char ∈ line, isLineBreak char = false := by
  have empty : ∀ char ∈ ([] : Text), isLineBreak char = false := by simp
  fun_induction linesFrom current text with
  | case1 => cases member
  | case2 current isBegun => exact List.mem_singleton.mp member ▸ unbroken
  | case3 current rest ih =>
      rcases List.mem_cons.mp member with rfl | later
      · exact unbroken
      · exact ih later empty
  | case4 current char rest notPair isBreak ih =>
      rcases List.mem_cons.mp member with rfl | later
      · exact unbroken
      · exact ih later empty
  | case5 current char rest notPair notBreak ih =>
      refine ih member fun other inLine => ?_
      rcases List.mem_append.mp inLine with before | last
      · exact unbroken other before
      · rw [List.mem_singleton.mp last]
        simpa using notBreak

theorem eq_nil_of_lines {current text : Text} (none : linesFrom current text = []) :
    current = [] ∧ text = [] := by
  fun_induction linesFrom current text with
  | case1 => exact ⟨rfl, rfl⟩
  | case2 current isBegun => cases none
  | case3 current rest ih => cases none
  | case4 current char rest notPair isBreak ih => cases none
  | case5 current char rest notPair notBreak ih => simpa using (ih none).1

theorem splitlines_unbroken {line : Text} (unbroken : ∀ char ∈ line, isLineBreak char = false) :
    (splitlines line).headD [] = line ∧ (splitlines line).tail = [] := by
  have one := linesFrom_append unbroken [] []
  rw [List.append_nil, List.nil_append] at one
  rw [splitlines, one, linesFrom]
  split
  · rename_i empty
    exact ⟨empty.symm, rfl⟩
  · exact ⟨rfl, rfl⟩

theorem headD_unbroken (text : Text) :
    ∀ char ∈ (splitlines text).headD [], isLineBreak char = false := by
  cases lines : splitlines text with
  | nil => simp
  | cons first rest =>
      have member : first ∈ linesFrom [] text := by
        rw [← splitlines, lines]
        exact List.mem_cons_self
      exact unbroken_of_mem member (by simp)

end Text

end BitcoinNodeTests.Foundation
