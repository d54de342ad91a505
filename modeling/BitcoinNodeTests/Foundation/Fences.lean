import BitcoinNodeTests.Foundation.Text

/-!
# Matches between two marks

`re.finditer` of a mark, the shortest text up to another one, and that one.  A match begins
at the first opening mark that is left; where no closing mark follows it there is no match
more.
-/

set_option autoImplicit false

namespace BitcoinNodeTests.Foundation

/-- A match of `opening(.*?)closing`, and the text from the end of the one before. -/
structure Match where
  before : Text
  group : Text
  deriving DecidableEq

def Match.whole (opening closing : Text) (found : Match) : Text :=
  found.before ++ (opening ++ (found.group ++ closing))

namespace Text

section Marks

variable {opening closing text after : Text} {found : Match}

def firstMatch (opening closing text : Text) : Option (Match × Text) :=
  (splitOnce opening text).bind fun (before, inside) =>
    (splitOnce closing inside).map fun (group, after) => (⟨before, group⟩, after)

def matchesFrom (opening closing : Text) : Nat → Text → List Match × Text
  | 0, text => ([], text)
  | fuel + 1, text =>
      match firstMatch opening closing text with
      | none => ([], text)
      | some (found, after) =>
          let later := matchesFrom opening closing fuel after
          (found :: later.1, later.2)

/-- `re.finditer(opening + "(.*?)" + closing, text, re.DOTALL)` -/
def finditer (opening closing text : Text) : List Match × Text :=
  matchesFrom opening closing text.length text

theorem firstMatch_eq (first : firstMatch opening closing text = some (found, after)) :
    text = Match.whole opening closing found ++ after := by
  obtain ⟨⟨before, inside⟩, opens, later⟩ := Option.bind_eq_some_iff.mp first
  obtain ⟨⟨group, rest⟩, closes, same⟩ := Option.map_eq_some_iff.mp later
  cases same
  rw [splitOnce_eq opens, splitOnce_eq closes]
  simp only [Match.whole, List.append_assoc]

theorem length_of_firstMatch (some : opening ≠ [])
    (first : firstMatch opening closing text = .some (found, after)) :
    after.length < text.length := by
  have length := List.length_pos_of_ne_nil some
  rw [firstMatch_eq first, Match.whole]
  simp only [List.length_append]
  omega

theorem finditer_rest (some : opening ≠ []) (text : Text) :
    firstMatch opening closing (finditer opening closing text).2 = none := by
  suffices enough : ∀ fuel (text : Text), text.length ≤ fuel →
      firstMatch opening closing (matchesFrom opening closing fuel text).2 = none from
    enough text.length text (Nat.le_refl _)
  intro fuel
  induction fuel with
  | zero =>
      intro text short
      rw [List.length_eq_zero_iff.mp (Nat.le_zero.mp short)]
      rfl
  | succ fuel ih =>
      intro text short
      rw [matchesFrom]
      cases first : firstMatch opening closing text with
      | none => exact first
      | some next =>
          obtain ⟨found, after⟩ := next
          have shorter := length_of_firstMatch some first
          exact ih after (by omega)

theorem finditer_whole (opening closing text : Text) :
    text = (finditer opening closing text).1.flatMap (Match.whole opening closing) ++
      (finditer opening closing text).2 := by
  rw [finditer]
  generalize text.length = fuel
  induction fuel generalizing text with
  | zero => rfl
  | succ fuel ih =>
      rw [matchesFrom]
      cases first : firstMatch opening closing text with
      | none => rfl
      | some next =>
          obtain ⟨found, after⟩ := next
          show text = (found :: (matchesFrom opening closing fuel after).1).flatMap
            (Match.whole opening closing) ++ (matchesFrom opening closing fuel after).2
          rw [List.flatMap_cons, List.append_assoc, ← ih after]
          exact firstMatch_eq first

end Marks

end Text

end BitcoinNodeTests.Foundation
