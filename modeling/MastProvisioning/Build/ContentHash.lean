import MastProvisioning.Build.Staged
import MastProvisioning.Collections.Lines

/-!
# What a module hash tells apart

`Get-ModuleContentHash` writes a line for each command file, repo file and command and
one for the version, each with a prefix of its kind, and hashes the text. The prefixes
keep the lines apart as long as no path and no command has a line feed with a prefix
after it; an empty command leaves no line.
-/

namespace MastProvisioning.Build

open MastProvisioning.Collections MastProvisioning.PowerShell

/-- SHA-256 as the hash is taken to be: texts of hexadecimal digits, no two the same. -/
structure IsDigest (sha256 : String → String) : Prop where
  injective : Function.Injective sha256
  hex : ∀ text, ∀ digit ∈ (sha256 text).toList, digit ∈ "0123456789abcdef".toList

/-- A path among the command files, and what is there. -/
def ModuleSource.HasFile (source : ModuleSource) (path : String) (content : Option String) : Prop :=
  ∃ name, (name, content) ∈ source.commandFiles ∧ slashes name = path

/-- A path among the repo files, and what is there. -/
def ModuleSource.HasRepoFile (source : ModuleSource) (path : String) (content : String) : Prop :=
  ∃ name, (name, content) ∈ source.repoFiles ∧ slashes name = path

/-- Two modules are made of the same things. -/
structure SameInputs (first second : ModuleSource) : Prop where
  files : ∀ path content, first.HasFile path content ↔ second.HasFile path content
  repoFiles : ∀ path content, first.HasRepoFile path content ↔ second.HasRepoFile path content
  commands : first.commands = second.commands
  version : first.version = second.version

/-- The hash tells two modules apart. -/
def Separated (sha256 : String → String) (first second : ModuleSource) : Prop :=
  getModuleContentHash sha256 first = getModuleContentHash sha256 second → SameInputs first second

/-- The prefixes of the lines before the last. -/
def linePrefixes : List (List Char) := ["file:".toList, "repofile:".toList, "cmd:".toList]

/-- The prefix of the last line. -/
def versionPrefix : List Char := "version:".toList

/-- A text that could be taken for the end of one line and the beginning of another. -/
def ForgesLine (text : String) : Prop :=
  Forges '\n' (versionPrefix :: linePrefixes) text.toList

/-- A module without anything that the lines leave out or run together. The version may
be any text. -/
structure PlainSource (source : ModuleSource) : Prop where
  files : ∀ file ∈ source.commandFiles, file.1 ≠ "" ∧ ¬ForgesLine (slashes file.1 ++ ":")
  repoFiles : ∀ file ∈ source.repoFiles, file.1 ≠ "" ∧ ¬ForgesLine (slashes file.1 ++ ":")
  commands : ∀ command ∈ source.commands, command ≠ "" ∧ ¬ForgesLine command

/-- Commands that another module's can be taken for: one is empty, one reads as two, or the
last one reads as one and a version. -/
def Ambiguous (source : ModuleSource) : Prop :=
  "" ∈ source.commands ∨
    (∃ before first second after,
      source.commands = before ++ (first ++ "\ncmd:" ++ second) :: after ∧
        first ≠ "" ∧ second ≠ "") ∨
    ∃ before first second,
      source.commands = before ++ [first ++ "\nversion:" ++ second] ∧ first ≠ ""

section Lines

variable {sha256 : String → String}

/-- The files in the order they are written. -/
def byName {Content : Type} (files : List (String × Content)) : List (String × Content) :=
  (files.filter fun file => file.1 ≠ "").insertionSort
    fun file other => foldCase file.1 ≤ foldCase other.1

/-- What is written of a command file. -/
def contentText (sha256 : String → String) : Option String → String
  | none => "absent"
  | some content => sha256 content

/-- The line of a file. -/
def fileLine (kind path text : String) : List Char :=
  kind.toList ++ (path ++ ":").toList ++ text.toList

/-- The lines before the last. -/
def inputLines (sha256 : String → String) (source : ModuleSource) : List (List Char) :=
  (byName source.commandFiles).map (fun file =>
      fileLine "file:" (slashes file.1) (contentText sha256 file.2))
    ++ (byName source.repoFiles).map (fun file =>
      fileLine "repofile:" (slashes file.1) (sha256 file.2))
    ++ (source.commands.filter (· ≠ "")).map fun command => "cmd:".toList ++ command.toList

theorem contentHashLines_toList (source : ModuleSource) :
    (contentHashLines sha256 source).map String.toList =
      inputLines sha256 source ++ [versionPrefix ++ source.version.toList] := by
  have file : ∀ file : String × Option String,
      (match file.2 with
        | none => "file:" ++ slashes file.1 ++ ":absent"
        | some content => "file:" ++ slashes file.1 ++ ":" ++ sha256 content).toList =
        fileLine "file:" (slashes file.1) (contentText sha256 file.2) := by
    rintro ⟨name, content⟩
    cases content <;> simp [fileLine, contentText]
  have repoFile : ∀ file : String × String,
      ("repofile:" ++ slashes file.1 ++ ":" ++ sha256 file.2).toList =
        fileLine "repofile:" (slashes file.1) (sha256 file.2) := by
    intro file
    simp [fileLine]
  have command : ∀ command : String,
      ("cmd:" ++ command).toList = "cmd:".toList ++ command.toList := fun _ => String.toList_append
  have version : ("version:" ++ source.version).toList = versionPrefix ++ source.version.toList :=
    String.toList_append
  unfold contentHashLines inputLines byName
  simp only [List.map_append, List.map_map, List.map_cons, List.map_nil, Function.comp_def,
    repoFile, command, version]
  congr 3
  exact List.map_congr_left fun item _ => file item

theorem hashedLines_eq (source : ModuleSource) :
    ((contentHashLines sha256 source).flatMap fun line => line.toList ++ ['\n']) =
      terminated '\n' (inputLines sha256 source ++ [versionPrefix ++ source.version.toList]) := by
  rw [← contentHashLines_toList, terminated, List.flatMap_map]

theorem getModuleContentHash_inj (injective : Function.Injective sha256) {first second : ModuleSource} :
    getModuleContentHash sha256 first = getModuleContentHash sha256 second ↔
      terminated '\n' (inputLines sha256 first ++ [versionPrefix ++ first.version.toList]) =
        terminated '\n' (inputLines sha256 second ++ [versionPrefix ++ second.version.toList]) := by
  rw [getModuleContentHash, getModuleContentHash, injective.eq_iff, String.ofList_inj,
    hashedLines_eq, hashedLines_eq]

end Lines

section Prefixes

variable {sha256 : String → String} {source : ModuleSource}

/-- A word that is found in a text is found behind what its first letter is not in. -/
theorem infix_of_append {letter : Char} {word beginning text : List Char}
    (absent : letter ∉ beginning) (isInfix : letter :: word <:+: beginning ++ text) :
    letter :: word <:+: text := by
  induction beginning with
  | nil => exact isInfix
  | cons first beginning ih =>
    rw [List.mem_cons, not_or] at absent
    rw [List.cons_append, List.infix_cons_iff] at isInfix
    rcases isInfix with starts | later
    · exact absurd (List.cons_prefix_cons.mp starts).1 absent.1
    · exact ih absent.2 later

theorem infix_of_append_right {letter : Char} {word text ending : List Char}
    (absent : letter ∉ ending) (isInfix : word ++ [letter] <:+: text ++ ending) :
    word ++ [letter] <:+: text := by
  rw [← List.reverse_infix, List.reverse_append, List.reverse_append] at isInfix
  rw [← List.reverse_infix, List.reverse_append]
  exact infix_of_append (by simpa using absent) isInfix

/-- No prefix has a line feed, and each ends with its colon. -/
theorem prefix_shape {kind : List Char} (member : kind ∈ versionPrefix :: linePrefixes) :
    '\n' ∉ kind ∧ ∃ word, kind = word ++ [':'] := by
  have shapes : ∀ kind ∈ versionPrefix :: linePrefixes, '\n' ∉ kind ∧ kind.getLast? = some ':' := by
    decide
  obtain ⟨plain, last⟩ := shapes kind member
  exact ⟨plain, kind.dropLast, (List.dropLast_append_getLast? _ last).symm⟩

/-- Only the path of a line can forge another. -/
theorem not_forges_fileLine {kind path text : String} (kindPlain : '\n' ∉ kind.toList)
    (pathPlain : ¬ForgesLine (path ++ ":")) (textPlain : ':' ∉ text.toList) :
    ¬Forges '\n' (versionPrefix :: linePrefixes) (fileLine kind path text) := by
  rintro ⟨tag, isTag, isInfix⟩
  obtain ⟨word, rfl⟩ := (prefix_shape isTag).2
  refine pathPlain ⟨word ++ [':'], isTag, ?_⟩
  rw [fileLine, List.append_assoc] at isInfix
  rw [← List.cons_append]
  exact infix_of_append_right textPlain (infix_of_append kindPlain isInfix)

theorem mem_byName {Content : Type} {files : List (String × Content)} {file : String × Content} :
    file ∈ byName files ↔ file ∈ files ∧ file.1 ≠ "" := by
  rw [byName, List.mem_insertionSort, List.mem_filter]
  simp

theorem IsDigest.noColon (digest : IsDigest sha256) (text : String) : ':' ∉ (sha256 text).toList :=
  fun member => absurd (digest.hex text _ member) (by decide)

theorem contentText_noColon (digest : IsDigest sha256) (content : Option String) :
    ':' ∉ (contentText sha256 content).toList := by
  cases content with
  | none => exact (by decide : ':' ∉ "absent".toList)
  | some content => exact digest.noColon content

theorem contentText_injective (digest : IsDigest sha256) :
    Function.Injective (contentText sha256) := by
  have notAbsent : ∀ content, sha256 content ≠ "absent" := by
    intro content same
    exact absurd (digest.hex content 's' (by rw [same]; decide)) (by decide)
  intro content other same
  cases content with
  | none =>
    cases other with
    | none => rfl
    | some other => exact absurd same.symm (notAbsent other)
  | some content =>
    cases other with
    | none => exact absurd same (notAbsent content)
    | some other => exact congrArg some (digest.injective same)

/-- The line of a file has its path and its text. -/
theorem fileLine_injective {kind path other text more : String} (plain : ':' ∉ text.toList)
    (plainMore : ':' ∉ more.toList) (same : fileLine kind path text = fileLine kind other more) :
    path = other ∧ text = more := by
  have reversed {path text : String} : ((path ++ ":").toList ++ text.toList).reverse =
      text.toList.reverse ++ ':' :: path.toList.reverse := by
    rw [String.toList_append, List.reverse_append, List.reverse_append]
    rfl
  rw [fileLine, fileLine, List.append_assoc, List.append_assoc, List.append_right_inj,
    ← List.reverse_inj, reversed, reversed] at same
  obtain ⟨sameText, samePath⟩ := line_injective (by simpa using plain) (by simpa using plainMore) same
  exact ⟨String.toList_inj.mp (List.reverse_inj.mp samePath),
    String.toList_inj.mp (List.reverse_inj.mp sameText)⟩

theorem inputLines_tagged : ∀ line ∈ inputLines sha256 source, ∃ tag ∈ linePrefixes, tag <+: line := by
  intro line member
  rw [inputLines, List.mem_append, List.mem_append] at member
  rcases member with (isFile | isRepoFile) | isCommand
  · obtain ⟨file, _, rfl⟩ := List.mem_map.mp isFile
    exact ⟨"file:".toList, by decide, by simp [fileLine]⟩
  · obtain ⟨file, _, rfl⟩ := List.mem_map.mp isRepoFile
    exact ⟨"repofile:".toList, by decide, by simp [fileLine]⟩
  · obtain ⟨command, _, rfl⟩ := List.mem_map.mp isCommand
    exact ⟨"cmd:".toList, by decide, List.prefix_append _ _⟩

theorem PlainSource.genuine (plain : PlainSource source) (digest : IsDigest sha256) :
    ∀ line ∈ inputLines sha256 source, ¬Forges '\n' (versionPrefix :: linePrefixes) line := by
  intro line member
  rw [inputLines, List.mem_append, List.mem_append] at member
  rcases member with (isFile | isRepoFile) | isCommand
  · obtain ⟨file, inFiles, rfl⟩ := List.mem_map.mp isFile
    exact not_forges_fileLine (by decide) (plain.files file (mem_byName.mp inFiles).1).2
      (contentText_noColon digest file.2)
  · obtain ⟨file, inFiles, rfl⟩ := List.mem_map.mp isRepoFile
    exact not_forges_fileLine (by decide) (plain.repoFiles file (mem_byName.mp inFiles).1).2
      (digest.noColon file.2)
  · obtain ⟨command, inCommands, rfl⟩ := List.mem_map.mp isCommand
    rintro ⟨tag, isTag, isInfix⟩
    exact (plain.commands command (List.mem_of_mem_filter inCommands)).2
      ⟨tag, isTag, infix_of_append (by decide) isInfix⟩

end Prefixes

section Kinds

variable {sha256 : String → String} {source first second : ModuleSource}

/-- The lines that begin with a letter. -/
def linesOf (letter : Char) (lines : List (List Char)) : List (List Char) :=
  lines.filter fun line => line.head? = some letter

theorem linesOf_append (letter : Char) (lines more : List (List Char)) :
    linesOf letter (lines ++ more) = linesOf letter lines ++ linesOf letter more :=
  List.filter_append lines more

/-- Lines of one kind are all taken or all left. -/
theorem linesOf_map {Item : Type} {write : Item → List Char} {initial : Char}
    (begins : ∀ item, (write item).head? = some initial) (letter : Char) (items : List Item) :
    linesOf letter (items.map write) = if initial = letter then items.map write else [] := by
  unfold linesOf
  split
  · rename_i same
    refine List.filter_eq_self.mpr fun line member => ?_
    obtain ⟨item, _, rfl⟩ := List.mem_map.mp member
    simp [begins, same]
  · rename_i different
    refine List.filter_eq_nil_iff.mpr fun line member => ?_
    obtain ⟨item, _, rfl⟩ := List.mem_map.mp member
    simp [begins, different]

theorem fileLine_head? {kind : String} {letter : Char} (begins : kind.toList.head? = some letter)
    (path text : String) : (fileLine kind path text).head? = some letter := by
  simp [fileLine, List.head?_append, begins]

/-- The kinds of lines, picked out by their first letters. -/
theorem linesOf_inputLines (letter : Char) (source : ModuleSource) :
    linesOf letter (inputLines sha256 source) =
      (if 'f' = letter then (byName source.commandFiles).map (fun file =>
        fileLine "file:" (slashes file.1) (contentText sha256 file.2)) else []) ++
      (if 'r' = letter then (byName source.repoFiles).map (fun file =>
        fileLine "repofile:" (slashes file.1) (sha256 file.2)) else []) ++
      if 'c' = letter then (source.commands.filter (· ≠ "")).map
        (fun command => "cmd:".toList ++ command.toList) else [] := by
  have fileKind : "file:".toList.head? = some 'f' := by decide
  have repoFileKind : "repofile:".toList.head? = some 'r' := by decide
  have commandKind : ∀ command : String, ("cmd:".toList ++ command.toList).head? = some 'c' := by
    intro command
    rw [List.head?_append]
    rfl
  rw [inputLines, linesOf_append, linesOf_append,
    linesOf_map (fun _ => fileLine_head? fileKind _ _),
    linesOf_map (fun _ => fileLine_head? repoFileKind _ _), linesOf_map commandKind]

theorem PlainSource.hasFile_iff (plain : PlainSource source) (digest : IsDigest sha256)
    (path : String) (content : Option String) :
    source.HasFile path content ↔
      fileLine "file:" path (contentText sha256 content) ∈
        linesOf 'f' (inputLines sha256 source) := by
  rw [linesOf_inputLines, if_pos rfl, if_neg (by decide), if_neg (by decide), List.append_nil,
    List.append_nil, List.mem_map]
  constructor
  · rintro ⟨name, member, rfl⟩
    exact ⟨(name, content), mem_byName.mpr ⟨member, (plain.files _ member).1⟩, rfl⟩
  · rintro ⟨⟨name, other⟩, member, same⟩
    obtain ⟨isPath, isText⟩ := fileLine_injective (contentText_noColon digest _)
      (contentText_noColon digest _) same
    obtain rfl : other = content := contentText_injective digest isText
    exact ⟨name, (mem_byName.mp member).1, isPath⟩

theorem PlainSource.hasRepoFile_iff (plain : PlainSource source) (digest : IsDigest sha256)
    (path content : String) :
    source.HasRepoFile path content ↔
      fileLine "repofile:" path (sha256 content) ∈ linesOf 'r' (inputLines sha256 source) := by
  rw [linesOf_inputLines, if_neg (by decide), if_pos rfl, if_neg (by decide), List.append_nil,
    List.nil_append, List.mem_map]
  constructor
  · rintro ⟨name, member, rfl⟩
    exact ⟨(name, content), mem_byName.mpr ⟨member, (plain.repoFiles _ member).1⟩, rfl⟩
  · rintro ⟨⟨name, other⟩, member, same⟩
    obtain ⟨isPath, isText⟩ := fileLine_injective (digest.noColon _) (digest.noColon _) same
    obtain rfl : other = content := digest.injective isText
    exact ⟨name, (mem_byName.mp member).1, isPath⟩

theorem PlainSource.commands_eq (plain : PlainSource source) :
    linesOf 'c' (inputLines sha256 source) =
      source.commands.map fun command => "cmd:".toList ++ command.toList := by
  have all : source.commands.filter (· ≠ "") = source.commands :=
    List.filter_eq_self.mpr fun command member => by simpa using (plain.commands command member).1
  rw [linesOf_inputLines, if_neg (by decide), if_neg (by decide), if_pos rfl, all]
  rfl

/-- The lines of plain modules tell them apart. -/
theorem PlainSource.sameInputs (plain : PlainSource first) (plainSecond : PlainSource second)
    (digest : IsDigest sha256) (lines : inputLines sha256 first = inputLines sha256 second)
    (version : first.version = second.version) : SameInputs first second where
  files path content := by
    rw [plain.hasFile_iff digest, plainSecond.hasFile_iff digest, lines]
  repoFiles path content := by
    rw [plain.hasRepoFile_iff digest, plainSecond.hasRepoFile_iff digest, lines]
  commands := by
    have same := congrArg (linesOf 'c') lines
    rw [plain.commands_eq, plainSecond.commands_eq] at same
    refine List.map_injective_iff.mpr ?_ same
    intro command other sameLine
    exact String.toList_inj.mp (List.append_cancel_left sameLine)
  version := version

/-- The hash tells plain modules apart. -/
theorem separated_of_plain (digest : IsDigest sha256) (plain : PlainSource first)
    (plainSecond : PlainSource second) : Separated sha256 first second := by
  intro same
  rw [getModuleContentHash_inj digest.injective] at same
  have apart : ∀ tag ∈ linePrefixes, ¬ tag <+: versionPrefix ∧ ¬ versionPrefix <+: tag := by decide
  obtain ⟨lines, closing⟩ := terminated_closed_injective (fun tag isTag => (prefix_shape isTag).1)
    apart inputLines_tagged inputLines_tagged (plain.genuine digest) (plainSecond.genuine digest)
    (List.prefix_append _ _) (List.prefix_append _ _) same
  exact plain.sameInputs plainSecond digest lines
    (String.toList_inj.mp (List.append_cancel_left closing))

end Kinds

section Collisions

variable {sha256 : String → String} {first second : ModuleSource}

/-- The text of the commands. -/
def commandText (commands : List String) : List Char :=
  terminated '\n' ((commands.filter (· ≠ "")).map fun command => "cmd:".toList ++ command.toList)

theorem commandText_append (commands more : List String) :
    commandText (commands ++ more) = commandText commands ++ commandText more := by
  rw [commandText, List.filter_append, List.map_append, terminated_append]
  rfl

theorem commandText_cons {command : String} (nonempty : command ≠ "") (commands : List String) :
    commandText (command :: commands) =
      "cmd:".toList ++ command.toList ++ '\n' :: commandText commands := by
  have kept : (command :: commands).filter (· ≠ "") = command :: commands.filter (· ≠ "") :=
    List.filter_cons_of_pos (by simpa using nonempty)
  rw [commandText, kept, List.map_cons, terminated_cons]
  rfl

theorem commandText_filter (commands : List String) :
    commandText (commands.filter (· ≠ "")) = commandText commands := by
  rw [commandText, List.filter_filter, commandText]
  simp

theorem append_ne_empty {text : String} (nonempty : text ≠ "") (more : String) :
    text ++ more ≠ "" := by
  intro empty
  have characters := congrArg String.toList empty
  rw [String.toList_append] at characters
  have nothing : text.toList = [] := (List.append_eq_nil_iff.mp characters).1
  exact nonempty (String.toList_inj.mp nothing)

/-- Modules that differ in their commands, and not in the text of commands and version. -/
theorem not_separated (files : first.commandFiles = second.commandFiles)
    (repoFiles : first.repoFiles = second.repoFiles)
    (text : commandText first.commands ++ versionPrefix ++ first.version.toList =
      commandText second.commands ++ versionPrefix ++ second.version.toList)
    (different : first.commands ≠ second.commands) : ¬Separated sha256 first second := by
  have hashed (source : ModuleSource) :
      terminated '\n' (inputLines sha256 source ++ [versionPrefix ++ source.version.toList]) =
        terminated '\n' ((byName source.commandFiles).map (fun file =>
            fileLine "file:" (slashes file.1) (contentText sha256 file.2))
          ++ (byName source.repoFiles).map (fun file =>
            fileLine "repofile:" (slashes file.1) (sha256 file.2))) ++
        (commandText source.commands ++ versionPrefix ++ source.version.toList ++ ['\n']) := by
    rw [inputLines, terminated_append, terminated_append, commandText]
    simp [terminated]
  intro separated
  refine different (separated ?_).commands
  rw [getModuleContentHash, getModuleContentHash, hashedLines_eq, hashedLines_eq, hashed, hashed,
    files, repoFiles, text]

/-- Ambiguous commands have the hash of other ones. -/
theorem Ambiguous.collides (ambiguous : Ambiguous first) (sha256 : String → String) :
    ∃ second, ¬Separated sha256 first second := by
  rcases ambiguous with empty | ⟨before, one, two, after, isCommands, someOne, someTwo⟩ |
    ⟨before, one, two, isCommands, someOne⟩
  · refine ⟨{ first with commands := first.commands.filter (· ≠ "") },
      not_separated rfl rfl (by rw [commandText_filter]) fun same => ?_⟩
    rw [same] at empty
    simpa using List.mem_filter.mp empty
  · refine ⟨{ first with commands := before ++ one :: two :: after },
      not_separated rfl rfl ?_ fun same => ?_⟩
    · rw [isCommands, commandText_append, commandText_append, commandText_cons someOne,
        commandText_cons someTwo, commandText_cons (append_ne_empty (append_ne_empty someOne _) _)]
      have mark : "\ncmd:".toList = '\n' :: "cmd:".toList := by decide
      simp only [String.toList_append, mark, List.append_assoc, List.cons_append]
    · have lengths := congrArg List.length (isCommands.symm.trans same)
      simp at lengths
  · refine ⟨{ first with
        commands := before ++ [one]
        version := two ++ "\nversion:" ++ first.version },
      not_separated rfl rfl ?_ fun same => ?_⟩
    · rw [isCommands, commandText_append, commandText_append, commandText_cons someOne,
        commandText_cons (append_ne_empty (append_ne_empty someOne _) _)]
      have mark : "\nversion:".toList = '\n' :: versionPrefix := by decide
      have none : commandText [] = [] := rfl
      simp only [String.toList_append, mark, none, List.append_assoc, List.cons_append,
        List.nil_append]
    · have last := List.append_cancel_left (isCommands.symm.trans same)
      have texts := congrArg (fun commands => (commands.map String.length)) last
      have some : "\nversion:".length = 9 := by decide
      simp at texts
      omega

end Collisions

/-- The hash tells two modules apart when both are plain; a module with ambiguous commands
is taken for some other. -/
theorem contentHash_separates (sha256 : String → String) (digest : IsDigest sha256)
    (first : ModuleSource) :
    (PlainSource first → ∀ second, PlainSource second → Separated sha256 first second) ∧
      (Ambiguous first → ∃ second, ¬Separated sha256 first second) :=
  ⟨fun plain _ plainSecond => separated_of_plain digest plain plainSecond,
    fun ambiguous => ambiguous.collides sha256⟩

section Samples

/-- A digest that spells the characters in tallies. -/
def tallies (text : String) : String :=
  String.ofList (terminated '0' (text.toList.map fun character =>
    List.replicate character.toNat '1'))

theorem tallies_isDigest : IsDigest tallies where
  injective := by
    have plain : ∀ text : String, ∀ tally ∈ text.toList.map fun character =>
        List.replicate character.toNat '1', '0' ∉ tally := by
      intro text tally member
      obtain ⟨character, _, rfl⟩ := List.mem_map.mp member
      exact fun zero => absurd (List.eq_of_mem_replicate zero) (by decide)
    intro text other same
    have lists := terminated_injective (plain text) (plain other) (String.ofList_inj.mp same)
    refine String.toList_inj.mp (List.map_injective_iff.mpr ?_ lists)
    intro character another sameTally
    have sameNat := congrArg List.length sameTally
    rw [List.length_replicate, List.length_replicate] at sameNat
    exact Char.toNat_inj.mp sameNat
  hex := by
    intro text digit member
    rw [tallies, String.toList_ofList] at member
    obtain ⟨tally, isTally, inTally⟩ := List.mem_flatMap.mp member
    obtain ⟨character, _, rfl⟩ := List.mem_map.mp isTally
    rcases List.mem_append.mp inTally with one | zero
    · obtain rfl := List.eq_of_mem_replicate one
      decide
    · obtain rfl := List.mem_singleton.mp zero
      decide

/-- A module with a script, a shared tool and two commands. -/
def clock : ModuleSource where
  commandFiles := [("provide-clock.ps1", some "sync"), ("assets\\clock.msi", none)]
  repoFiles := [("tools/mast-clone.ps1", "clone")]
  commands := ["x.exe", "y.exe"]
  version := "1.0"

theorem clock_separated :
    Separated tallies clock { clock with commands := ["x.exe y.exe"] } := by
  have plain : PlainSource clock := by
    constructor <;> unfold ForgesLine Forges <;> decide +kernel
  have joined : PlainSource { clock with commands := ["x.exe y.exe"] } := by
    constructor <;> unfold ForgesLine Forges <;> decide +kernel
  exact (contentHash_separates tallies tallies_isDigest clock).1 plain _ joined

/-- One command with a line feed in it is taken for two. -/
theorem twoLines_taken :
    ¬Separated tallies clock { clock with commands := ["x.exe\ncmd:y.exe"] } :=
  not_separated rfl rfl (by decide +kernel) (by decide)

end Samples

end MastProvisioning.Build
