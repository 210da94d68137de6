import MastProvisioning.Tools.ManifestReaders

/-!
# Where the three readers agree

The readers agree on every text that is legible for a role: plain ASCII lines, each of
which no reader takes for a row of the role, or all three take for the same one. What
each kind of line asks for is what one of the parsers does and another does not: runs
of tabs, blanks around a field, a sixth column, a row of three, the letter case of a
role, and `all` in the place of a role.
-/

namespace MastProvisioning.Tools.ManifestReaders

open Collections PowerShell.SettingsFile
open Collections.Patterns (dropWhile_front)

section Legible

/-- A printable ASCII character or a tab. -/
def plainCharacter (character : Char) : Bool :=
  character == '\t' || (decide (0x20 ≤ character.toNat) && decide (character.toNat ≤ 0x7E))

/-- Plain characters in lines ended by a line feed, with or without a carriage return
before it. -/
def plainText : Text → Bool
  | [] => true
  | '\r' :: '\n' :: rest => plainText rest
  | character :: rest => (character == '\n' || plainCharacter character) && plainText rest

/-- A role as one is named: letters, digits, `-` and `_`, of which the first is a letter
or a digit; in lower case when it is `all`. -/
def plainRole (role : Text) : Bool :=
  (role.head?.any Char.isAlphanum &&
    role.all fun letter => letter.isAlphanum || letter == '-' || letter == '_') &&
  (!sameText role all || role == all)

/-- No reader takes the line for a row: it is blank or has too few columns, however
tabs are counted. -/
def noRow (line : Text) : Bool :=
  decide ((words '\t' line).length < 3) &&
    (line.all isSpace || decide ((line.splitOn '\t').length < 4))

/-- A comment for each reader: only tabs stand before the sign. -/
def comment (line : Text) : Bool :=
  (line.dropWhile (· = '\t')).head? == some '#'

/-- A roles column names the role, in any case and within any blanks, or `all`. -/
def mentions (role column : Text) : Bool :=
  (column.splitOn ',').any fun name => sameText (Ps1.trim name) role || Ps1.trim name == all

/-- A row of other roles, wherever a reader looks for them. -/
def otherRoles (role line : Text) : Bool :=
  role != all && !mentions role (Sh.readLine line).roles &&
    match line.splitOn '\t' with
    | _ :: _ :: column :: _ :: _ => !mentions role column && !mentions role (Ps1.trim column)
    | _ => true

/-- A field without blanks at its ends. -/
def clean (field : Text) : Bool :=
  Ps1.trim field == field

/-- A row that names the role in some way, or is asked for by `all`, names the role as
it is written. -/
def namesRole (role column : Text) : Bool :=
  (role != all && !mentions role column) || (column.splitOn ',').contains role

/-- A row of three filled columns, the branch, and at most one more; without a branch
there is nothing after it. -/
def plainRow (role line : Text) : Bool :=
  match line.splitOn '\t' with
  | dir :: repo :: column :: branch :: rest =>
    ([dir, repo, column].all fun field => clean field && field != []) &&
      dir.head? != some '#' && clean branch && clean (rest.headD []) &&
      (rest.tail.all fun field => field == []) &&
      (branch != [] || rest.all fun field => field == []) && namesRole role column
  | _ => false

def legibleLine (role line : Text) : Bool :=
  noRow line || comment line || otherRoles role line || plainRow role line

/-- Each line is read alike for the role. -/
def legible (role text : Text) : Bool :=
  plainText text && plainRole role && (getContent text).all (legibleLine role)

end Legible

section Lines

theorem plainCharacter_bounds {character : Char} (plain : plainCharacter character = true) :
    character = '\t' ∨ 0x20 ≤ character.toNat ∧ character.toNat ≤ 0x7E := by
  simpa [plainCharacter] using plain

theorem endsLine_of_plain {character : Char} (plain : plainCharacter character = true) :
    endsLine character = false ∧ Report.endsLine character = false := by
  rcases plainCharacter_bounds plain with rfl | bounds
  · decide
  · constructor
    · by_contra ends
      rw [Bool.not_eq_false] at ends
      simp only [endsLine, Bool.or_eq_true, beq_iff_eq] at ends
      rcases ends with rfl | rfl <;> exact absurd bounds (by decide)
    · rw [← Bool.not_eq_true]
      intro ends
      simp only [Report.endsLine, List.contains_iff_mem, List.mem_cons, List.not_mem_nil,
        or_false] at ends
      omega

theorem splitlines_cons_plain {character : Char} (plain : plainCharacter character = true)
    (rest : Text) :
    Report.splitlines (character :: rest) =
      match Report.splitlines rest with
      | [] => [[character]]
      | line :: lines => (character :: line) :: lines := by
  have notReturn : character ≠ '\r' := by
    rintro rfl
    exact absurd plain (by decide)
  rw [Report.splitlines]
  · exact if_neg (by simp [(endsLine_of_plain plain).2])
  · rintro _ rfl
    exact absurd rfl notReturn

/-- The report cuts a plain text into the lines that PowerShell does. -/
theorem splitlines_eq {text : Text} (plain : plainText text = true) :
    Report.splitlines text = getContent text := by
  fun_induction plainText text with
  | case1 => rfl
  | case2 rest ih => rw [Report.splitlines, getContent, ih plain]
  | case3 character rest notPair ih =>
    rw [Bool.and_eq_true, Bool.or_eq_true, beq_iff_eq] at plain
    rcases plain with ⟨rfl | plainHere, plainRest⟩
    · show [] :: Report.splitlines rest = [] :: getContent rest
      rw [ih plainRest]
    · rw [splitlines_cons_plain plainHere, ih plainRest]
      exact (getContent_cons_plain (endsLine_of_plain plainHere).1 rest).symm

theorem plain_of_mem {text line : Text} (plain : plainText text = true)
    (member : line ∈ getContent text) : line.all plainCharacter = true := by
  fun_induction plainText text generalizing line with
  | case1 => cases member
  | case2 rest ih =>
    rcases List.mem_cons.mp member with rfl | later
    · rfl
    · exact ih plain later
  | case3 character rest notPair ih =>
    rw [Bool.and_eq_true, Bool.or_eq_true, beq_iff_eq] at plain
    rcases plain with ⟨rfl | plainHere, plainRest⟩
    · rcases List.mem_cons.mp (show line ∈ [] :: getContent rest from member) with rfl | later
      · rfl
      · exact ih plainRest later
    · rw [getContent_cons_plain (endsLine_of_plain plainHere).1] at member
      split at member
      · rw [List.mem_singleton.mp member]
        simpa using plainHere
      · rename_i first lines found
        rw [found] at ih
        rcases List.mem_cons.mp member with rfl | later
        · rw [List.all_cons, plainHere, ih plainRest List.mem_cons_self]
          rfl
        · exact ih plainRest (List.mem_cons_of_mem _ later)

/-- Without its carriage returns a plain text has PowerShell's lines, and an empty one
after the last line feed. -/
theorem splitOn_eq {text : Text} (plain : plainText text = true) :
    (text.filter (· ≠ '\r')).splitOn '\n' = getContent text ∨
      (text.filter (· ≠ '\r')).splitOn '\n' = getContent text ++ [[]] := by
  fun_induction plainText text with
  | case1 => exact .inr rfl
  | case2 rest ih =>
    have cut : (('\r' :: '\n' :: rest).filter (· ≠ '\r')).splitOn '\n' =
        [] :: (rest.filter (· ≠ '\r')).splitOn '\n' := by
      simp [List.splitOn_cons_eq_if_modifyHead]
    rw [cut, getContent]
    exact (ih plain).imp (congrArg ([] :: ·)) (congrArg ([] :: ·))
  | case3 character rest notPair ih =>
    rw [Bool.and_eq_true, Bool.or_eq_true, beq_iff_eq] at plain
    rcases plain with ⟨rfl | plainHere, plainRest⟩
    · have cut : (('\n' :: rest).filter (· ≠ '\r')).splitOn '\n' =
          [] :: (rest.filter (· ≠ '\r')).splitOn '\n' := by
        simp [List.splitOn_cons_eq_if_modifyHead]
      rw [cut, show getContent ('\n' :: rest) = [] :: getContent rest from rfl]
      exact (ih plainRest).imp (congrArg ([] :: ·)) (congrArg ([] :: ·))
    · have notEnd := (endsLine_of_plain plainHere).1
      simp only [endsLine, Bool.or_eq_false_iff, beq_eq_false_iff_ne] at notEnd
      have cut : ((character :: rest).filter (· ≠ '\r')).splitOn '\n' =
          ((rest.filter (· ≠ '\r')).splitOn '\n').modifyHead (character :: ·) := by
        rw [List.filter_cons_of_pos (by simpa using notEnd.1), List.splitOn_cons_eq_if_modifyHead,
          if_neg (by simpa using notEnd.2)]
      rw [cut, getContent_cons_plain (endsLine_of_plain plainHere).1]
      rcases ih plainRest with same | longer
      · obtain ⟨first, lines, found⟩ := List.exists_cons_of_ne_nil
          (same ▸ List.splitOn_ne_nil '\n' (rest.filter (· ≠ '\r')))
        rw [same, found]
        exact .inl rfl
      · rw [longer]
        cases getContent rest with
        | nil => exact .inl rfl
        | cons first lines => exact .inr rfl

/-- The lines of the shell script that are not empty are those PowerShell reads. -/
theorem mem_lines_iff {text line : Text} (plain : plainText text = true) (some : line ≠ []) :
    line ∈ Sh.lines text ↔ line ∈ getContent text := by
  have nonempty : ∀ pieces : List Text, line ∈ pieces.filter (fun piece => piece ≠ []) ↔
      line ∈ pieces := by
    intro pieces
    simp [some]
  have sameWords : (Sh.lines text).filter (fun piece => piece ≠ []) =
      ((text.filter (· ≠ '\r')).splitOn '\n').filter fun piece => piece ≠ [] :=
    words_rdropWhile (text.filter (· ≠ '\r'))
  rw [← nonempty (Sh.lines text), sameWords]
  rcases splitOn_eq plain with same | longer
  · rw [same, nonempty]
  · rw [longer, List.filter_append]
    simp [some]

end Lines

section Fields

variable {role line : Text}

/-- What the shell script reads of a line, by its words. -/
theorem readLine_words (line : Text) :
    (Sh.readLine line).dir = (words '\t' line).headD [] ∧
      (Sh.readLine line).repo = (words '\t' line).tail.headD [] ∧
      (Sh.readLine line).roles = (words '\t' line).tail.tail.headD [] ∧
      (Sh.readLine line).branch = (words '\t' line).tail.tail.tail.headD [] ∧
      ∃ rest, Unmarked '\t' rest ∧ words '\t' rest = (words '\t' line).tail.tail.tail.tail ∧
        (Sh.readLine line).rev = rest.rdropWhile (· = '\t') := by
  obtain ⟨dir, afterDir⟩ := takeWord_spec (unmarked_dropWhile '\t' line)
  obtain ⟨repo, afterRepo⟩ := takeWord_spec
    (unmarked_takeWord '\t' (line.dropWhile (· = '\t')))
  obtain ⟨roles, afterRoles⟩ := takeWord_spec
    (unmarked_takeWord '\t' (takeWord '\t' (line.dropWhile (· = '\t'))).2)
  obtain ⟨branch, afterBranch⟩ := takeWord_spec (unmarked_takeWord '\t'
    (takeWord '\t' (takeWord '\t' (line.dropWhile (· = '\t'))).2).2)
  rw [words_dropWhile] at dir afterDir
  rw [afterDir] at repo afterRepo
  rw [afterRepo] at roles afterRoles
  rw [afterRoles] at branch afterBranch
  exact ⟨dir, repo, roles, branch, _, unmarked_takeWord '\t' _, afterBranch, rfl⟩

theorem dropWhile_congr {first second : Char → Bool} {text : Text}
    (same : ∀ character ∈ text, first character = second character) :
    text.dropWhile first = text.dropWhile second := by
  induction text with
  | nil => rfl
  | cons character rest ih =>
    obtain ⟨here, later⟩ := List.forall_mem_cons.mp same
    rw [List.dropWhile_cons, List.dropWhile_cons, here, ih later]

theorem isSpace_of_plain {character : Char} (plain : plainCharacter character = true) :
    Report.isSpace character = isSpace character := by
  rcases plainCharacter_bounds plain with rfl | bounds
  · rfl
  · have high : ¬ character.toNat ≤ 0x1F := by omega
    simp [Report.isSpace, high]

/-- The report trims a plain text as PowerShell does. -/
theorem strip_eq_trim {text : Text} (plain : text.all plainCharacter = true) :
    Report.strip text = Ps1.trim text := by
  have same : ∀ character ∈ text, Report.isSpace character = isSpace character :=
    fun character member => isSpace_of_plain (List.all_eq_true.mp plain character member)
  have front := dropWhile_congr same
  unfold Report.strip Ps1.trim
  rw [front, List.rdropWhile, List.rdropWhile]
  refine congrArg List.reverse (dropWhile_congr fun character member => ?_)
  exact same character ((List.dropWhile_sublist _).subset (List.mem_reverse.mp member))

theorem trim_of_visible {text : Text} (visible : ∀ character ∈ text, isSpace character = false) :
    Ps1.trim text = text :=
  PowerShell.SettingsFile.trim_of_visible visible

/-- A trimmed text begins with a visible character. -/
theorem trim_cons {character : Char} {front rest text : Text} (blank : front.all isSpace = true)
    (visible : isSpace character = false) (shape : text = front ++ character :: rest) :
    ∃ more, Ps1.trim text = character :: more := by
  have starts : (character :: rest).takeWhile isSpace = [] := by simp [visible]
  have dropped : text.dropWhile isSpace = character :: rest := by
    rw [shape, dropWhile_front blank starts]
  have kept : ((character :: rest).rdropWhile isSpace) <+: character :: rest :=
    List.rdropWhile_prefix isSpace _
  unfold Ps1.trim
  rw [dropped]
  cases stripped : (character :: rest).rdropWhile isSpace with
  | nil =>
    have all := List.rdropWhile_eq_nil_iff.mp stripped character List.mem_cons_self
    rw [visible] at all
    cases all
  | cons first more =>
    rw [stripped] at kept
    exact ⟨more, by rw [(List.cons_prefix_cons.mp kept).1]⟩

theorem sameText_comm (first second : Text) : sameText first second = sameText second first := by
  unfold sameText
  exact BEq.comm

theorem sameText_self (text : Text) : sameText text text = true := by
  simp [sameText]

end Fields

section Roles

variable {role line : Text}

/-- What the proofs use of a plain role. -/
structure RoleName (role : Text) : Prop where
  nonempty : role ≠ []
  isValue : IsValue role
  noComma : ',' ∉ role
  isAll : sameText role all = true → role = all

theorem roleName_of_plain (plain : plainRole role = true) : RoleName role := by
  simp only [plainRole, Bool.and_eq_true, List.all_eq_true, Bool.or_eq_true, Bool.not_eq_true',
    beq_iff_eq] at plain
  obtain ⟨⟨first, letters⟩, isAll⟩ := plain
  have bounds : ∀ letter ∈ role, 0x2D ≤ letter.toNat ∧ letter.toNat ≤ 0x7A := by
    intro letter member
    rcases letters letter member with (isLetter | rfl) | rfl
    · have between := toNat_of_isAlphanum isLetter
      omega
    · decide
    · decide
  constructor
  · rintro rfl
    cases first
  · refine ⟨fun letter member => ?_, List.all_eq_true.mpr fun letter member => ?_⟩
    · have between := bounds letter member
      exact isSpace_of_visible (by omega) (by omega)
    · have between := bounds letter member
      exact decide_eq_true (by omega)
  · intro member
    exact absurd (bounds ',' member) (by decide)
  · intro same
    rcases isAll with different | isAll
    · rw [same] at different
      cases different
    · exact isAll

theorem RoleName.splitOn (name : RoleName role) : role.splitOn ',' = [role] :=
  List.splitOn_eq_singleton name.noComma

/-- Both scripts ask for the role itself. -/
theorem RoleName.asked_ps1 (name : RoleName role) :
    ((role.splitOn ',').map Ps1.trim).filter (fun one => one ≠ []) = [role] := by
  rw [name.splitOn, List.map_singleton, trim_of_visible name.isValue.visible]
  simp [name.nonempty]

theorem RoleName.asked_sh (name : RoleName role) :
    ((role.splitOn ',').map fun one => one.filter fun letter => !isSpace letter).filter
      (fun one => one ≠ []) = [role] := by
  have kept : role.filter (fun letter => !isSpace letter) = role :=
    List.filter_eq_self.mpr fun letter member => by simp [name.isValue.visible letter member]
  rw [name.splitOn, List.map_singleton, kept]
  simp [name.nonempty]

/-- A name that is the role but for case is trimmed. -/
theorem RoleName.trim_of_same (name : RoleName role) {other : Text}
    (same : sameText other role = true) : Ps1.trim other = other :=
  trim_of_visible (name.isValue.ofSame (eq_of_beq same)).visible

/-- The pattern of `wants_repo` finds the names of a row. -/
theorem RoleName.wants_sh (name : RoleName role) (row : Sh.Row) :
    Sh.wants [role] row = true ↔ role = all ∨ role ∈ row.roles.splitOn ',' := by
  have plainNames : ∀ other ∈ row.roles.splitOn ',', ',' ∉ other :=
    fun other member => not_mem_of_mem_splitOn member
  have pieces := marked_infix_iff name.noComma plainNames
  rw [terminated_splitOn] at pieces
  simp [Sh.wants, pieces]

theorem RoleName.wants_ps1 (name : RoleName role) (row : Ps1.Row) :
    Ps1.wants [role] row = true ↔
      role = all ∨ ∃ other ∈ row.roles, sameText other role = true := by
  have isAll : sameText all role = true ↔ role = all := by
    constructor
    · intro same
      exact name.isAll (sameText_comm all role ▸ same)
    · rintro rfl
      exact sameText_self all
  simp [Ps1.wants, isAll]

end Roles

section Rows

variable {role line : Text}

/-- The choice each script makes of one line for one role. -/
def Ps1.choose (role line : Text) : Option Choice :=
  ((Ps1.readRow line).filter (Ps1.wants [role])).map Ps1.Row.choice

def Sh.choose (role line : Text) : Option Choice :=
  ((Sh.readRow line).filter (Sh.wants [role])).map Sh.Row.choice

/-- No reader takes the line for a row of the role. -/
structure Ignored (role line : Text) : Prop where
  ps1 : Ps1.choose role line = none
  sh : Sh.choose role line = none
  report : Report.readDir role line = none

theorem Ps1.readRow_some {row : Ps1.Row} (read : Ps1.readRow line = some row) :
    ∃ dir repo roles branch rest, line.splitOn '\t' = dir :: repo :: roles :: branch :: rest ∧
      row.roles = (Ps1.trim roles).splitOn ',' := by
  unfold Ps1.readRow at read
  split at read
  · cases read
  · cases read
  · split at read
    · rename_i dir repo roles branch rest columns
      obtain rfl := Option.some.inj read
      exact ⟨dir, repo, roles, branch, rest, columns, rfl⟩
    · cases read

theorem Sh.readRow_some {row : Sh.Row} (read : Sh.readRow line = some row) :
    row = Sh.readLine line ∧ row.roles ≠ [] ∧ row.dir.head? ≠ some '#' := by
  simp only [Sh.readRow] at read
  split at read
  · cases read
  · cases read
  · rename_i notEmpty notComment
    split at read
    · cases read
    · rename_i roles
      obtain rfl := Option.some.inj read
      refine ⟨rfl, roles, fun sign => ?_⟩
      obtain ⟨rest, shape⟩ := List.head?_eq_some_iff.mp sign
      exact notComment rest shape

theorem Report.readDir_some {dir : Text} (read : Report.readDir role line = some dir) :
    ∃ first repo roles branch rest,
      line.splitOn '\t' = first :: repo :: roles :: branch :: rest ∧
      ∃ name ∈ roles.splitOn ',', Report.strip name = role ∨ Report.strip name = all := by
  unfold Report.readDir at read
  split at read
  · cases read
  · split at read
    · rename_i first repo roles branch rest columns
      simp only at read
      split at read
      · rename_i named
        refine ⟨first, repo, roles, branch, rest, columns, ?_⟩
        rcases named with isRole | isAll
        · obtain ⟨name, member, same⟩ := List.mem_map.mp (List.mem_filter.mp isRole).1
          exact ⟨name, member, .inl same⟩
        · obtain ⟨name, member, same⟩ := List.mem_map.mp (List.mem_filter.mp isAll).1
          exact ⟨name, member, .inr same⟩
      · cases read
    · cases read

theorem ps1_choose_none (unread : ∀ row, Ps1.readRow line = some row →
    Ps1.wants [role] row = false) : Ps1.choose role line = none := by
  unfold Ps1.choose
  cases read : Ps1.readRow line with
  | none => rfl
  | some row => simp [unread row read]

theorem sh_choose_none (unread : ∀ row, Sh.readRow line = some row →
    Sh.wants [role] row = false) : Sh.choose role line = none := by
  unfold Sh.choose
  cases read : Sh.readRow line with
  | none => rfl
  | some row => simp [unread row read]

theorem ignored_of_comment (isComment : comment line = true) : Ignored role line := by
  obtain ⟨rest, dropped⟩ : ∃ rest, line.dropWhile (· = '\t') = '#' :: rest := by
    have head : (line.dropWhile (· = '\t')).head? = some '#' := eq_of_beq isComment
    exact List.head?_eq_some_iff.mp head
  have shape : line = line.takeWhile (· = '\t') ++ '#' :: rest := by
    rw [← dropped, List.takeWhile_append_dropWhile]
  have tabs : ∀ character ∈ line.takeWhile (· = '\t'), character = '\t' := by
    intro character member
    have isTab := List.mem_takeWhile_imp member
    exact of_decide_eq_true isTab
  constructor
  · have blank : (line.takeWhile (· = '\t')).all isSpace = true :=
      List.all_eq_true.mpr fun character member => by rw [tabs character member]; decide
    obtain ⟨more, trimmed⟩ := trim_cons blank (by decide) shape
    rw [Ps1.choose, Ps1.readRow, trimmed]
    rfl
  · refine sh_choose_none fun row read => ?_
    obtain ⟨rfl, -, notComment⟩ := Sh.readRow_some read
    have dir : (Sh.readLine line).dir = (line.dropWhile (· = '\t')).takeWhile (· ≠ '\t') := rfl
    rw [dir, dropped] at notComment
    exact absurd rfl notComment
  · have blank : (line.takeWhile (· = '\t')).all Report.isSpace = true :=
      List.all_eq_true.mpr fun character member => by rw [tabs character member]; decide
    have head : (line.dropWhile Report.isSpace).head? = some '#' := by
      rw [shape, dropWhile_front blank (by rfl)]
      rfl
    rw [Report.readDir, if_pos (.inr head)]

theorem ignored_of_noRow (none : noRow line = true) (plain : line.all plainCharacter = true) :
    Ignored role line := by
  rw [noRow, Bool.and_eq_true, decide_eq_true_eq, Bool.or_eq_true, decide_eq_true_eq] at none
  obtain ⟨few, shape⟩ := none
  have noRoles : (Sh.readLine line).roles = [] := by
    rw [(readLine_words line).2.2.1]
    match words '\t' line, few with
    | [], _ => rfl
    | [_], _ => rfl
    | [_, _], _ => rfl
  have sh : Sh.choose role line = .none := by
    refine sh_choose_none fun row read => ?_
    obtain ⟨rfl, roles, -⟩ := Sh.readRow_some read
    exact absurd noRoles roles
  rcases shape with blank | short
  · have trimmed : Ps1.trim line = [] := by
      have nothing : line.dropWhile isSpace = [] :=
        List.dropWhile_eq_nil_iff.mpr (List.all_eq_true.mp blank)
      rw [Ps1.trim, nothing]
      rfl
    refine ⟨?_, sh, ?_⟩
    · rw [Ps1.choose, Ps1.readRow, trimmed]
      rfl
    · rw [Report.readDir, if_pos (.inl ((strip_eq_trim plain).trans trimmed))]
  · have noColumns : ∀ dir repo roles branch rest,
        line.splitOn '\t' ≠ dir :: repo :: roles :: branch :: rest := by
      intro dir repo roles branch rest columns
      rw [columns, List.length_cons, List.length_cons, List.length_cons, List.length_cons] at short
      omega
    refine ⟨ps1_choose_none fun row read => ?_, sh, ?_⟩
    · obtain ⟨dir, repo, roles, branch, rest, columns, -⟩ := Ps1.readRow_some read
      exact absurd columns (noColumns dir repo roles branch rest)
    · cases read : Report.readDir role line with
      | none => rfl
      | some found =>
        obtain ⟨dir, repo, roles, branch, rest, columns, -⟩ := Report.readDir_some read
        exact absurd columns (noColumns dir repo roles branch rest)

theorem mentions_of_mem {column other : Text} (member : other ∈ column.splitOn ',')
    (named : sameText (Ps1.trim other) role = true ∨ Ps1.trim other = all) :
    mentions role column = true := by
  refine List.any_eq_true.mpr ⟨other, member, ?_⟩
  rcases named with isRole | isAll
  · rw [isRole, Bool.true_or]
  · rw [isAll, beq_self_eq_true, Bool.or_true]

/-- The pieces of a plain line are plain. -/
theorem plain_piece {text piece : Text} {mark : Char} (plain : text.all plainCharacter = true)
    (member : piece ∈ text.splitOn mark) : piece.all plainCharacter = true := by
  have whole := terminated_splitOn mark text
  refine List.all_eq_true.mpr fun character inPiece => ?_
  have inText : character ∈ text ++ [mark] := by
    rw [← whole]
    exact List.mem_flatMap.mpr ⟨piece, member, List.mem_append_left _ inPiece⟩
  rcases List.mem_append.mp inText with inText | isMark
  · exact List.all_eq_true.mp plain character inText
  · rw [List.mem_singleton.mp isMark] at inPiece
    exact absurd inPiece (not_mem_of_mem_splitOn member)

theorem ignored_of_otherRoles (name : RoleName role) (others : otherRoles role line = true)
    (plain : line.all plainCharacter = true) : Ignored role line := by
  simp only [otherRoles, Bool.and_eq_true, bne_iff_ne, Bool.not_eq_true'] at others
  obtain ⟨⟨notAll, shColumn⟩, columns⟩ := others
  refine ⟨ps1_choose_none fun row read => ?_, sh_choose_none fun row read => ?_, ?_⟩
  · obtain ⟨dir, repo, roles, branch, rest, shape, rowRoles⟩ := Ps1.readRow_some read
    rw [shape] at columns
    simp only [Bool.and_eq_true, Bool.not_eq_true'] at columns
    rw [← Bool.not_eq_true, name.wants_ps1, rowRoles]
    rintro (isAll | ⟨other, member, same⟩)
    · exact notAll isAll
    · have named := mentions_of_mem member (.inl (by rw [name.trim_of_same same, same]))
      rw [columns.2] at named
      cases named
  · obtain ⟨rfl, -, -⟩ := Sh.readRow_some read
    rw [← Bool.not_eq_true, name.wants_sh]
    rintro (isAll | member)
    · exact notAll isAll
    · have same := sameText_self role
      have named : mentions role (Sh.readLine line).roles = true :=
        mentions_of_mem member (.inl (by rw [name.trim_of_same same, same]))
      rw [shColumn] at named
      cases named
  · cases read : Report.readDir role line with
    | none => rfl
    | some found =>
      obtain ⟨dir, repo, roles, branch, rest, shape, other, member, named⟩ :=
        Report.readDir_some read
      rw [shape] at columns
      simp only [Bool.and_eq_true, Bool.not_eq_true'] at columns
      have inLine : roles ∈ line.splitOn '\t' := by simp [shape]
      rw [strip_eq_trim (plain_piece (plain_piece plain inLine) member)] at named
      have mentioned : mentions role roles = true := mentions_of_mem member
        (named.imp_left fun isRole => by rw [isRole, sameText_self])
      rw [columns.1] at mentioned
      cases mentioned

/-- All three readers take the line for the same row of the role, and the shell script
knows the role from it. -/
structure Chosen (role line : Text) (choice : Choice) : Prop where
  ps1 : Ps1.choose role line = some choice
  sh : Sh.choose role line = some choice
  report : Report.readDir role line = some choice.dir
  known : ∃ column, Sh.rolesColumn line = some column ∧ role ∈ column.splitOn ','

theorem visible_of_trim {text more : Text} {character : Char}
    (trimmed : Ps1.trim text = character :: more) : isSpace character = false := by
  have starts := startsVisible_dropWhile text
  have kept : Ps1.trim text <+: text.dropWhile isSpace := List.rdropWhile_prefix isSpace _
  rw [trimmed] at kept
  obtain ⟨rest, shape⟩ := kept
  rw [← shape] at starts
  rw [← Bool.not_eq_true]
  intro blank
  simp [StartsVisible, blank] at starts

/-- A line begins as its first column does. -/
theorem line_cons {character : Char} {first : Text} {columns : List Text}
    (split : line.splitOn '\t' = (character :: first) :: columns) :
    ∃ more, line = character :: more := by
  have whole := terminated_splitOn '\t' line
  rw [split, terminated_cons] at whole
  cases line with
  | nil =>
    have here := (List.cons.inj whole).1
    have plain := not_mem_of_mem_splitOn (split ▸ List.mem_cons_self)
    exact absurd (here ▸ List.mem_cons_self) plain
  | cons head more => exact ⟨more, by rw [(List.cons.inj whole).1]⟩

/-- The roles of a legible row, as each reader looks for the role among them. -/
theorem names_of_namesRole (name : RoleName role) {column : Text}
    (names : namesRole role column = true) (plain : column.all plainCharacter = true) :
    ((role = all ∨ ∃ other ∈ column.splitOn ',', sameText other role = true) ↔
      role ∈ column.splitOn ',') ∧
    ((role = all ∨ role ∈ column.splitOn ',') ↔ role ∈ column.splitOn ',') ∧
    ((role ∈ ((column.splitOn ',').map Report.strip).filter (fun other => other ≠ []) ∨
        all ∈ ((column.splitOn ',').map Report.strip).filter fun other => other ≠ []) ↔
      role ∈ column.splitOn ',') := by
  simp only [namesRole, Bool.and_eq_true, Bool.or_eq_true, Bool.not_eq_true', bne_iff_ne,
    List.contains_iff_mem] at names
  have fromAll : role = all → role ∈ column.splitOn ',' := by
    intro isAll
    rcases names with ⟨notAll, -⟩ | named
    · exact absurd isAll notAll
    · exact named
  have fromNamed : ∀ other ∈ column.splitOn ',',
      sameText (Ps1.trim other) role = true ∨ Ps1.trim other = all →
        role ∈ column.splitOn ',' := by
    intro other member named
    rcases names with ⟨-, unmentioned⟩ | here
    · rw [mentions_of_mem member named] at unmentioned
      cases unmentioned
    · exact here
  refine ⟨⟨?_, ?_⟩, ⟨?_, .inr⟩, ⟨?_, ?_⟩⟩
  · rintro (isAll | ⟨other, member, same⟩)
    · exact fromAll isAll
    · exact fromNamed other member (.inl (by rw [name.trim_of_same same, same]))
  · exact fun named => .inr ⟨role, named, sameText_self role⟩
  · exact fun either => either.elim fromAll id
  · rintro (isRole | isAll)
    · obtain ⟨other, member, same⟩ := List.mem_map.mp (List.mem_filter.mp isRole).1
      rw [strip_eq_trim (plain_piece plain member)] at same
      exact fromNamed other member (.inl (by rw [same, sameText_self]))
    · obtain ⟨other, member, same⟩ := List.mem_map.mp (List.mem_filter.mp isAll).1
      rw [strip_eq_trim (plain_piece plain member)] at same
      exact fromNamed other member (.inr same)
  · intro named
    have trimmed : Report.strip role = role := by
      rw [strip_eq_trim (plain_piece plain named), trim_of_visible name.isValue.visible]
    exact .inl (List.mem_filter.mpr
      ⟨List.mem_map.mpr ⟨role, named, trimmed⟩, by simpa using name.nonempty⟩)

/-- The filled pieces of a branch and at most one column after it. -/
theorem filled_pieces {branch : Text} {rest : List Text} (noMore : ∀ field ∈ rest.tail, field = [])
    (noBranch : branch ≠ [] ∨ ∀ field ∈ rest, field = []) :
    (branch :: rest).filter (fun piece => piece ≠ []) =
      if rest.headD [] ≠ [] then [branch, rest.headD []]
      else if branch ≠ [] then [branch] else [] := by
  have empty : ∀ fields : List Text, (∀ field ∈ fields, field = []) →
      fields.filter (fun piece => piece ≠ []) = [] :=
    fun fields nothing => List.filter_eq_nil_iff.mpr fun field member => by simp [nothing field member]
  cases rest with
  | nil => by_cases named : branch = [] <;> simp [named]
  | cons first more =>
    have nothing := empty more noMore
    rw [List.filter_cons, List.filter_cons, nothing]
    rcases noBranch with named | none
    · by_cases filled : first = [] <;> simp [named, filled]
    · have isEmpty := none first List.mem_cons_self
      by_cases named : branch = [] <;> simp [named, isEmpty]

/-- The shell script reads such a row as the others do. -/
theorem readLine_of_columns {dir repo column branch : Text} {rest : List Text}
    (split : line.splitOn '\t' = dir :: repo :: column :: branch :: rest) (hasDir : dir ≠ [])
    (hasRepo : repo ≠ []) (hasColumn : column ≠ []) (noMore : ∀ field ∈ rest.tail, field = [])
    (noBranch : branch ≠ [] ∨ ∀ field ∈ rest, field = []) :
    Sh.readLine line = ⟨dir, repo, column, branch, rest.headD []⟩ := by
  have isWords : words '\t' line = dir :: repo :: column ::
      (branch :: rest).filter fun piece => piece ≠ [] := by
    rw [words, split]
    simp [hasDir, hasRepo, hasColumn]
  rw [filled_pieces noMore noBranch] at isWords
  obtain ⟨isDir, isRepo, isRoles, isBranch, after, unmarked, afterWords, isRev⟩ := readLine_words line
  rw [isWords] at isDir isRepo isRoles isBranch afterWords
  have tail : (Sh.readLine line).branch = branch ∧ (Sh.readLine line).rev = rest.headD [] := by
    rw [isBranch, isRev]
    by_cases filled : rest.headD [] = []
    · rw [if_neg (not_not.mpr filled)] at afterWords ⊢
      have parts : (if branch ≠ [] then [branch] else []).headD [] = branch ∧
          (if branch ≠ [] then [branch] else []).tail = [] := by
        by_cases named : branch = []
        · rw [if_neg (not_not.mpr named), named]
          exact ⟨rfl, rfl⟩
        · rw [if_pos named]
          exact ⟨rfl, rfl⟩
      have nothing : words '\t' after = [] := afterWords.trans parts.2
      constructor
      · exact parts.1
      · rw [filled]
        exact List.rdropWhile_eq_nil_iff.mpr fun character member =>
          decide_eq_true (eq_mark_of_words_eq_nil nothing character member)
    · rw [if_pos filled] at afterWords ⊢
      exact ⟨rfl, rdropWhile_of_words unmarked afterWords⟩
  calc
    Sh.readLine line = ⟨(Sh.readLine line).dir, (Sh.readLine line).repo, (Sh.readLine line).roles,
      (Sh.readLine line).branch, (Sh.readLine line).rev⟩ := rfl
    _ = _ := by rw [isDir, isRepo, isRoles, tail.1, tail.2]; rfl

/-- The columns of a plain row. -/
structure Columns (line dir repo column branch : Text) (rest : List Text) : Prop where
  split : line.splitOn '\t' = dir :: repo :: column :: branch :: rest
  dirFilled : Ps1.trim dir = dir ∧ dir ≠ []
  repoFilled : Ps1.trim repo = repo ∧ repo ≠ []
  columnFilled : Ps1.trim column = column ∧ column ≠ []
  sign : dir.head? ≠ some '#'
  branchClean : Ps1.trim branch = branch
  rev : Ps1.trim (rest.headD []) = rest.headD []
  noMore : ∀ field ∈ rest.tail, field = []
  noBranch : branch ≠ [] ∨ ∀ field ∈ rest, field = []

theorem columns_of_plainRow (isRow : plainRow role line = true) :
    ∃ dir repo column branch rest, Columns line dir repo column branch rest ∧
      namesRole role column = true := by
  unfold plainRow at isRow
  split at isRow
  · rename_i dir repo column branch rest split
    simp only [Bool.and_eq_true, Bool.or_eq_true, List.all_cons, List.all_nil, clean, beq_iff_eq,
      bne_iff_ne, List.all_eq_true, ne_eq, and_true] at isRow
    obtain ⟨⟨⟨⟨⟨⟨⟨isDir, isRepo, isColumn⟩, sign⟩, isBranch⟩, rev⟩, noMore⟩, noBranch⟩, names⟩ := isRow
    exact ⟨dir, repo, column, branch, rest,
      ⟨split, isDir, isRepo, isColumn, sign, isBranch, rev, noMore, noBranch⟩, names⟩
  · cases isRow

variable {dir repo column branch : Text} {rest : List Text}

/-- The first character of a plain row is visible and begins no comment. -/
theorem Columns.first (columns : Columns line dir repo column branch rest) :
    ∃ first more after, dir = first :: more ∧ line = first :: after ∧
      isSpace first = false ∧ first ≠ '#' := by
  obtain ⟨first, more, isDir⟩ := List.exists_cons_of_ne_nil columns.dirFilled.2
  obtain ⟨after, shape⟩ := line_cons (isDir ▸ columns.split)
  refine ⟨first, more, after, isDir, shape, visible_of_trim (isDir ▸ columns.dirFilled.1), ?_⟩
  rintro rfl
  exact columns.sign (by rw [isDir]; rfl)

/-- Trimmed, a plain row begins as it does. -/
theorem Columns.trim (columns : Columns line dir repo column branch rest) :
    ∃ first more, Ps1.trim line = first :: more ∧ first ≠ '#' := by
  obtain ⟨first, _, after, _, shape, visible, sign⟩ := columns.first
  have noBlank : ([] : Text).all isSpace = true := rfl
  obtain ⟨more, trimmed⟩ := trim_cons noBlank visible shape
  exact ⟨first, more, trimmed, sign⟩

theorem Columns.readPs1 (columns : Columns line dir repo column branch rest) :
    Ps1.readRow line = some ⟨dir, repo, column.splitOn ',', branch, rest.headD []⟩ := by
  obtain ⟨first, more, trimmed, sign⟩ := columns.trim
  rw [Ps1.readRow, trimmed]
  split
  · rename_i impossible
    cases impossible
  · rename_i isSign
    exact absurd (List.cons.inj isSign).1 sign
  · rw [columns.split]
    simp only [columns.dirFilled.1, columns.repoFilled.1, columns.columnFilled.1, columns.branchClean]
    have rev := columns.rev
    cases rest with
    | nil => rfl
    | cons first more => exact congrArg (fun rev => some (Ps1.Row.mk dir repo _ branch rev)) rev

theorem Columns.readSh (columns : Columns line dir repo column branch rest) :
    Sh.readRow line = some ⟨dir, repo, column, branch, rest.headD []⟩ := by
  have isLine := readLine_of_columns columns.split columns.dirFilled.2 columns.repoFilled.2 columns.columnFilled.2
    columns.noMore columns.noBranch
  obtain ⟨first, more, _, isDir, _, _, sign⟩ := columns.first
  simp only [Sh.readRow, isLine, isDir]
  split
  · rename_i impossible
    cases impossible
  · rename_i isSign
    exact absurd (List.cons.inj isSign).1 sign
  · rw [if_neg columns.columnFilled.2]

theorem Columns.readReport (columns : Columns line dir repo column branch rest)
    (plain : line.all plainCharacter = true) :
    Report.readDir role line =
      if role ∈ ((column.splitOn ',').map Report.strip).filter (fun other => other ≠ []) ∨
          all ∈ ((column.splitOn ',').map Report.strip).filter (fun other => other ≠ []) then
        some dir
      else none := by
  obtain ⟨first, _, after, _, shape, visible, sign⟩ := columns.first
  obtain ⟨_, _, trimmed, _⟩ := columns.trim
  have isText : ¬ (Report.strip line = [] ∨ (line.dropWhile Report.isSpace).head? = some '#') := by
    have plainFirst : plainCharacter first = true :=
      List.all_eq_true.mp plain first (shape ▸ List.mem_cons_self)
    have kept : line.dropWhile Report.isSpace = line := by
      rw [shape, List.dropWhile_cons, if_neg (by rw [isSpace_of_plain plainFirst, visible]; decide)]
    rw [strip_eq_trim plain, trimmed, kept, shape]
    simp [sign]
  have inLine : dir ∈ line.splitOn '\t' := by simp [columns.split]
  rw [Report.readDir, if_neg isText, columns.split]
  simp only [strip_eq_trim (plain_piece plain inLine), columns.dirFilled.1]

/-- The shell script knows the roles of a plain row. -/
theorem Columns.rolesColumn (columns : Columns line dir repo column branch rest) :
    Sh.rolesColumn line = some column := by
  obtain ⟨first, _, after, _, shape, _, sign⟩ := columns.first
  unfold Sh.rolesColumn
  split
  · exact absurd (List.cons.inj shape).1.symm sign
  · rw [columns.split]

theorem read_of_plainRow (name : RoleName role) (isRow : plainRow role line = true)
    (plain : line.all plainCharacter = true) :
    Ignored role line ∨ ∃ choice, Chosen role line choice := by
  obtain ⟨dir, repo, column, branch, rest, columns, names⟩ := columns_of_plainRow isRow
  have plainColumn : column.all plainCharacter = true :=
    plain_piece plain (by rw [columns.split]; simp)
  obtain ⟨byPs1, bySh, byReport⟩ := names_of_namesRole name names plainColumn
  have wantsPs1 := name.wants_ps1 ⟨dir, repo, column.splitOn ',', branch, rest.headD []⟩
  have wantsSh := name.wants_sh ⟨dir, repo, column, branch, rest.headD []⟩
  rw [byPs1] at wantsPs1
  rw [bySh] at wantsSh
  by_cases named : role ∈ column.splitOn ','
  · refine .inr ⟨⟨dir, repo, branch, rest.headD []⟩, ?_, ?_, ?_, column, columns.rolesColumn, named⟩
    · rw [Ps1.choose, columns.readPs1, Option.filter_some, if_pos (wantsPs1.mpr named)]
      rfl
    · rw [Sh.choose, columns.readSh, Option.filter_some, if_pos (wantsSh.mpr named)]
      rfl
    · rw [columns.readReport plain, if_pos (byReport.mpr named)]
  · refine .inl ⟨?_, ?_, ?_⟩
    · rw [Ps1.choose, columns.readPs1, Option.filter_some, if_neg (mt wantsPs1.mp named)]
      rfl
    · rw [Sh.choose, columns.readSh, Option.filter_some, if_neg (mt wantsSh.mp named)]
      rfl
    · rw [columns.readReport plain, if_neg (mt byReport.mp named)]

/-- Every legible line is read alike. -/
theorem read_of_legible (name : RoleName role) (legible : legibleLine role line = true)
    (plain : line.all plainCharacter = true) :
    Ignored role line ∨ ∃ choice, Chosen role line choice := by
  simp only [legibleLine, Bool.or_eq_true] at legible
  rcases legible with ((none | isComment) | others) | isRow
  · exact .inl (ignored_of_noRow none plain)
  · exact .inl (ignored_of_comment isComment)
  · exact .inl (ignored_of_otherRoles name others plain)
  · exact read_of_plainRow name isRow plain

end Rows

section Texts

variable {role text : Text}

theorem filterMap_choose {Line Found : Type} (read : Line → Option Found) (keep : Found → Bool)
    (choice : Found → Choice) (lines : List Line) :
    lines.filterMap (fun line => ((read line).filter keep).map choice) =
      ((lines.filterMap read).filter keep).map choice := by
  induction lines with
  | nil => rfl
  | cons line rest ih =>
    rw [List.filterMap_cons, List.filterMap_cons, ih]
    cases read line with
    | none => rfl
    | some row =>
      by_cases kept : keep row = true
      · rw [Option.filter_some, if_pos kept, List.filter_cons_of_pos kept]
        rfl
      · rw [Option.filter_some, if_neg kept, List.filter_cons_of_neg kept]
        rfl

/-- The PowerShell script selects what it chooses line by line: a role it does not know
is the role of no row. -/
theorem select_ps1 (name : RoleName role) (text : Text) :
    Ps1.select text role = (getContent text).filterMap (Ps1.choose role) := by
  have byRows : (getContent text).filterMap (Ps1.choose role) =
      ((Ps1.rows text).filter (Ps1.wants [role])).map Ps1.Row.choice :=
    filterMap_choose Ps1.readRow (Ps1.wants [role]) Ps1.Row.choice (getContent text)
  rw [byRows, Ps1.select, Ps1.selected]
  simp only [name.asked_ps1, List.isEmpty_cons, Bool.or_false]
  split
  · rename_i refused
    split at refused
    · rename_i unknown
      have unwanted : (Ps1.rows text).filter (Ps1.wants [role]) = [] := by
        refine List.filter_eq_nil_iff.mpr fun row member wanted => ?_
        rw [List.isEmpty_eq_false_iff_exists_mem.mpr ⟨row, member⟩, Bool.false_or,
          Bool.not_eq_true', List.all_cons, List.all_nil, Bool.and_true] at unknown
        obtain ⟨notAll, noRole⟩ := Bool.or_eq_false_iff.mp unknown
        rcases (name.wants_ps1 row).mp wanted with rfl | ⟨other, inRow, same⟩
        · rw [sameText_self] at notAll
          cases notAll
        · have known : other ∈ Ps1.knownRoles text := List.mem_flatMap.mpr ⟨row, member, inRow⟩
          have different := List.any_eq_false.mp noRole other known
          exact different (sameText_comm other role ▸ same)
      rw [unwanted]
      rfl
    · cases refused
  · rename_i selected
    split at selected
    · cases selected
    · rw [← Option.some.inj selected]

/-- The choices of the shell script are those of the lines, when each line it chooses
makes the role known. -/
theorem select_sh (name : RoleName role)
    (known : ∀ line ∈ Sh.lines text, ∀ choice, Sh.choose role line = some choice →
      role = all ∨ role ∈ Sh.knownRoles text) :
    Sh.select text role = (Sh.lines text).filterMap (Sh.choose role) := by
  have byRows : (Sh.lines text).filterMap (Sh.choose role) =
      (((Sh.lines text).filterMap Sh.readRow).filter (Sh.wants [role])).map Sh.Row.choice :=
    filterMap_choose Sh.readRow (Sh.wants [role]) Sh.Row.choice (Sh.lines text)
  rw [Sh.select, Sh.selected]
  simp only [name.asked_sh]
  split
  · rename_i refused
    split at refused
    · cases refused
    · rename_i unknown
      symm
      refine List.filterMap_eq_nil_iff.mpr fun line member => ?_
      cases chosen : Sh.choose role line with
      | none => rfl
      | some choice =>
        have isKnown := known line member choice chosen
        exact absurd (by simpa using isKnown) unknown
  · rename_i selected
    split at selected
    · rw [← Option.some.inj selected, byRows]
    · cases selected

/-- On a legible text the three readers choose line by line, and alike. -/
theorem choices_agree (isLegible : legible role text = true) :
    (∀ choice, choice ∈ Ps1.select text role ↔ choice ∈ Sh.select text role) ∧
      ∀ dir, (∃ choice ∈ Ps1.select text role, choice.dir = dir) ↔
        dir ∈ Report.expectedRepoDirs text role := by
  simp only [legible, Bool.and_eq_true, List.all_eq_true] at isLegible
  obtain ⟨⟨plain, isRole⟩, lines⟩ := isLegible
  have name := roleName_of_plain isRole
  have read : ∀ line ∈ getContent text, Ignored role line ∨ ∃ choice, Chosen role line choice :=
    fun line member => read_of_legible name (lines line member) (plain_of_mem plain member)
  have inLines : ∀ line ∈ Sh.lines text, ∀ choice, Sh.choose role line = some choice →
      line ∈ getContent text := by
    intro line member choice chosen
    refine (mem_lines_iff plain ?_).mp member
    rintro rfl
    cases chosen
  have known : ∀ line ∈ Sh.lines text, ∀ choice, Sh.choose role line = some choice →
      role = all ∨ role ∈ Sh.knownRoles text := by
    intro line member choice chosen
    rcases read line (inLines line member choice chosen) with ignored | ⟨same, isChosen⟩
    · rw [ignored.sh] at chosen
      cases chosen
    · obtain ⟨column, isColumn, named⟩ := isChosen.known
      refine .inr (List.mem_flatMap.mpr ⟨role, ?_, ?_⟩)
      · exact List.mem_flatMap.mpr ⟨column, List.mem_filterMap.mpr ⟨line, member, isColumn⟩, named⟩
      · have noBlank : ' ' ∉ role := fun inRole =>
          absurd (name.isValue.visible ' ' inRole) (by decide)
        rw [List.splitOn_eq_singleton noBlank]
        exact List.mem_singleton_self role
  rw [select_ps1 name, select_sh name known]
  constructor
  · intro choice
    rw [List.mem_filterMap, List.mem_filterMap]
    constructor
    · rintro ⟨line, member, chosen⟩
      rcases read line member with ignored | ⟨same, isChosen⟩
      · rw [ignored.ps1] at chosen
        cases chosen
      · have nonempty : line ≠ [] := by
          rintro rfl
          cases chosen
        refine ⟨line, (mem_lines_iff plain nonempty).mpr member, ?_⟩
        rw [isChosen.sh, ← isChosen.ps1, chosen]
    · rintro ⟨line, member, chosen⟩
      have inText := inLines line member choice chosen
      rcases read line inText with ignored | ⟨same, isChosen⟩
      · rw [ignored.sh] at chosen
        cases chosen
      · exact ⟨line, inText, by rw [isChosen.ps1, ← isChosen.sh, chosen]⟩
  · intro dir
    rw [Report.expectedRepoDirs, splitlines_eq plain, List.mem_filterMap]
    simp only [List.mem_filterMap]
    constructor
    · rintro ⟨choice, ⟨line, member, chosen⟩, rfl⟩
      rcases read line member with ignored | ⟨same, isChosen⟩
      · rw [ignored.ps1] at chosen
        cases chosen
      · obtain rfl := Option.some.inj (chosen.symm.trans isChosen.ps1)
        exact ⟨line, member, isChosen.report⟩
    · rintro ⟨line, member, isDir⟩
      rcases read line member with ignored | ⟨same, isChosen⟩
      · rw [ignored.report] at isDir
        cases isDir
      · exact ⟨same, ⟨line, member, isChosen.ps1⟩, Option.some.inj (isChosen.report.symm.trans isDir)⟩

/-- A comment, a pinned row, a row that tracks its branch and one of another role. -/
def unitManifest : Text :=
  "# dir\trepo\troles\tbranch\trev\r\n\r\ncommon\tMAST_common\tunit,control\tmaster\tv1.4.0\r\nunit\tMAST_unit\tunit\tmain\r\ngui\tMAST_gui\tcontrol\tmain\r\n".toList

/-- A row with a blank after the branch. -/
def blankAfterBranch : Text :=
  "unit\tMAST_unit\tunit\tmain \n".toList

end Texts

end MastProvisioning.Tools.ManifestReaders
