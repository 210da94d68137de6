import Mathlib.Data.List.Basic

/-!
# Text as PowerShell handles it

PowerShell's comparison operators ignore case. The models take the folding of a
character as a parameter, since it depends on the culture of the machine;
`foldCase` uses that of ASCII letters, the only ones this repository's names have.

Lists of names travel as one comma-separated string. Joining and splitting are
defined on the characters, so that they can be evaluated.
-/

namespace MastProvisioning.PowerShell

/-- Fold the characters of a text. -/
def foldText (fold : Char → Char) (text : String) : String :=
  String.ofList (text.toList.map fold)

/-- Fold the ASCII letters of a text. -/
def foldCase : String → String := foldText Char.toLower

theorem foldText_append (fold : Char → Char) (text more : String) :
    foldText fold (text ++ more) = foldText fold text ++ foldText fold more := by
  simp [foldText]

/-- A folding that takes every lower-case ASCII letter to itself. -/
def KeepsLower (fold : Char → Char) : Prop :=
  ∀ character : Char, character.isLower = true → fold character = character

theorem keepsLower_toLower : KeepsLower Char.toLower := by
  intro character lower
  change (decide ('a'.val ≤ character.val) && decide (character.val ≤ 'z'.val)) = true at lower
  simp only [Bool.and_eq_true, decide_eq_true_eq] at lower
  unfold Char.toLower
  split
  · rename_i upper
    have crossed : 'a'.val ≤ 'Z'.val := UInt32.le_trans lower.1 upper.2
    exact absurd crossed (by decide)
  · rfl

theorem foldText_of_lower {fold : Char → Char} (keeps : KeepsLower fold) {text : String}
    (lower : text.toList.all Char.isLower = true) : foldText fold text = text := by
  have kept : text.toList.map fold = text.toList := by
    conv_rhs => rw [← List.map_id text.toList]
    exact List.map_congr_left fun character member =>
      keeps character (List.all_eq_true.mp lower character member)
  rw [foldText, kept, String.ofList_toList]

/-- `-like '*suffix'`. -/
def likeSuffix (fold : Char → Char) (suffix text : String) : Bool :=
  (suffix.toList.map fold).isSuffixOf (text.toList.map fold)

/-- `Substring(0, Length - count)`. -/
def dropEnd (text : String) (count : Nat) : String :=
  String.ofList (text.toList.take (text.toList.length - count))

theorem likeSuffix_append (fold : Char → Char) (text suffix : String) :
    likeSuffix fold suffix (text ++ suffix) = true := by
  simp [likeSuffix]

theorem dropEnd_append (text suffix : String) :
    dropEnd (text ++ suffix) suffix.toList.length = text := by
  simp [dropEnd]

/-- `IsNullOrWhiteSpace`. -/
def isBlank (text : String) : Bool :=
  text.toList.all Char.isWhitespace

/-- `",".join(names)`. -/
def joinNames (names : List String) : String :=
  String.ofList ([','].intercalate (names.map String.toList))

/-- `.Split(',') | Where-Object { $_ -ne '' }`. -/
def splitNames (text : String) : List String :=
  ((text.toList.splitOn ',').filter fun name => !name.isEmpty).map String.ofList

/-- A name that survives being joined and split. -/
def PlainName (name : String) : Prop :=
  ',' ∉ name.toList ∧ isBlank name = false

theorem PlainName.nonempty {name : String} (plain : PlainName name) : name.toList ≠ [] := by
  intro empty
  simp [PlainName, isBlank, empty] at plain

theorem splitNames_joinNames {names : List String} (plain : ∀ name ∈ names, PlainName name)
    (nonempty : names ≠ []) : splitNames (joinNames names) = names := by
  have split : ([','].intercalate (names.map String.toList)).splitOn ',' =
      names.map String.toList := by
    refine List.splitOn_intercalate ',' ?_ (by simpa using nonempty)
    intro characters member
    obtain ⟨name, isName, rfl⟩ := List.mem_map.mp member
    exact (plain name isName).1
  have kept : (names.map String.toList).filter (fun name => !name.isEmpty) =
      names.map String.toList := by
    refine List.filter_eq_self.mpr ?_
    intro characters member
    obtain ⟨name, isName, rfl⟩ := List.mem_map.mp member
    simpa using (plain name isName).nonempty
  simp only [splitNames, joinNames, String.toList_ofList, split, kept, List.map_map]
  simp

/-- Joined names are a blank text only when there are none. -/
theorem isBlank_joinNames {names : List String} (plain : ∀ name ∈ names, PlainName name) :
    isBlank (joinNames names) = names.isEmpty := by
  cases names with
  | nil => rfl
  | cons name rest =>
    have notBlank : ∃ character ∈ name.toList, character.isWhitespace = false := by
      have blank := (plain name List.mem_cons_self).2
      simpa [isBlank] using blank
    obtain ⟨character, inName, visible⟩ := notBlank
    have inText : character ∈ [','].intercalate ((name :: rest).map String.toList) := by
      cases rest with
      | nil => simpa [List.intercalate] using inName
      | cons other more => simp [List.intercalate, inName]
    simp only [isBlank, joinNames, String.toList_ofList, List.isEmpty_cons]
    exact List.all_eq_false.mpr ⟨character, inText, by simp [visible]⟩

end MastProvisioning.PowerShell
