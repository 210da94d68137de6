import MastProvisioning.Build.BootstrapReading

/-!
# A script in the layout of the repository

The converse: a registry that describes a script written the way `bootstrap.ps1` is, one
entry a line and every function at the start of its own, is accepted.
-/

namespace MastProvisioning.Build.BootstrapRegistry

open MastProvisioning.Collections
open MastProvisioning.Collections.Patterns
open MastProvisioning.PowerShell (foldCase)
open MastProvisioning.PowerShell.SettingsFile (Text isSpace laterLines isSpace_toLower
  isSpace_of_visible)

section Layout

/-- `'text'`. -/
def quoted (text : String) : Text :=
  '\'' :: (text.toList ++ ['\''])

/-- `'id' = @{ Kind = 'kind'; Function = 'function' }`. -/
def entryText (entry : String × Action) : Text :=
  quoted entry.1 ++ (" = ".toList ++ ("@\x7b".toList ++ (" ".toList ++ ("Kind".toList ++
    (" = ".toList ++ (quoted entry.2.kind ++ ([';'] ++ (" ".toList ++ ("Function".toList ++
      (" = ".toList ++ (quoted entry.2.function ++ (" ".toList ++ ['\x7d']))))))))))))

/-- A script around its version and its map, the lines of which all end the same way. -/
structure Page where
  before : Text
  version : Text
  number : Int
  between : Text
  lineEnd : Text
  entries : List (String × Action)
  distinct : OrderedDict.Distinct foldCase entries
  after : Text
  functions : List String

namespace Page

variable (page : Page)

def entryLine (entry : String × Action) : Text :=
  "    ".toList ++ (entryText entry ++ (page.lineEnd ++ ['\n']))

/-- The inside of the map. -/
def block : Text :=
  page.lineEnd ++ '\n' :: page.entries.flatMap page.entryLine

/-- The script up to its map. -/
def front : Text :=
  page.before ++ ("$script:BootstrapVersion".toList ++ (" = ".toList ++
    (page.version ++ page.between)))

def text : Text :=
  page.front ++ ("$script:MastBootstrapElementActions".toList ++ (" = ".toList ++
    ("[ordered]@\x7b".toList ++ (page.block ++ '\x7d' :: page.after))))

/-- The script as PowerShell reads it. -/
def reading : Reading where
  version := page.number
  actions := page.entries
  distinct := page.distinct
  functions := page.functions

end Page

/-- A name of word characters and hyphens. -/
def IsName (classes : CharClasses) (name : String) : Prop :=
  name.toList ≠ [] ∧ name.toList.all classes.isName = true

/-- The page is written the way the repository writes it, and neither of its two marks
stands anywhere before. -/
structure InLayout (classes : CharClasses) (page : Page) : Prop where
  digits : page.version ≠ [] ∧ page.version.all Char.isDigit = true
  number : toInt32 page.version = some page.number
  numberEnds : page.between.takeWhile classes.isDigit = []
  lineEnd : page.lineEnd = [] ∨ page.lineEnd = ['\r']
  names : ∀ entry ∈ page.entries,
    IsName classes entry.1 ∧ IsName classes entry.2.kind ∧ IsName classes entry.2.function
  functions : ∀ function ∈ page.functions, ∃ line ∈ page.text :: laterLines page.text,
    ∃ rest, line = "function".toList ++ (" ".toList ++ (function.toList ++ (" \x7b".toList ++ rest)))
  firstVersion : ¬"$script:BootstrapVersion".toList <:+: page.before
  firstMap : ¬"$script:MastBootstrapElementActions".toList <:+: page.front

/-- The registry has every field in order and claims its newest version. -/
structure InForm (registry : Registry) : Prop where
  elements : ∀ element ∈ registry.elementList, WellFormed element
  current : registry.currentVersion = some (maxSince registry.elementList)

end Layout

section Pieces

variable {classes : CharClasses} {pattern : List (Piece Char)}

theorem isName_ascii {character : Char} (ascii : character.toNat < 128)
    (other : (character.isAlphanum || character == '_' || character == '-') = false) :
    classes.isName character = false := by
  rw [CharClasses.isName, classes.word_ascii character ascii, other]

theorem matchAt_sign {text : Text} (visible : text.takeWhile isSpace = []) :
    matchAt id (.run isSpace :: .word ['='] :: .run isSpace :: pattern) (" = ".toList ++ text) =
      matchAt id pattern text := by
  have before : matchAt id (.run isSpace :: .word ['='] :: .run isSpace :: pattern)
      ([' '] ++ (['='] ++ ([' '] ++ text))) =
      matchAt id (.word ['='] :: .run isSpace :: pattern) (['='] ++ ([' '] ++ text)) :=
    matchAt_run (by decide) rfl
  have after : matchAt id (.run isSpace :: pattern) ([' '] ++ text) = matchAt id pattern text :=
    matchAt_run (by decide) visible
  rw [← after, ← matchAt_word ['=']]
  exact before

theorem matchAt_quoted {name : String} (isName : IsName classes name) (text : Text) :
    matchAt id (.word ['\''] :: .capture classes.isName :: .word ['\''] :: pattern)
        (quoted name ++ text) =
      (matchAt id pattern text).map fun found => (name.toList :: found.1, found.2) := by
  have shape : quoted name ++ text = ['\''] ++ (name.toList ++ (['\''] ++ text)) := by
    simp [quoted]
  have ends : classes.isName '\'' = false := isName_ascii (by decide) (by decide)
  have stops : (['\''] ++ text).takeWhile classes.isName = [] := by simp [ends]
  rw [shape, matchAt_word, matchAt_capture isName.2 isName.1 stops, matchAt_word]

/-- A quote begins no run of blanks. -/
theorem quoted_visible (name : String) (text : Text) :
    (quoted name ++ text).takeWhile isSpace = [] := rfl

theorem matchAt_blank {text : Text} (visible : text.takeWhile isSpace = []) :
    matchAt id (.run isSpace :: pattern) (" ".toList ++ text) = matchAt id pattern text :=
  matchAt_run (by decide) visible

theorem matchAt_noBlank {text : Text} (visible : text.takeWhile isSpace = []) :
    matchAt id (.run isSpace :: pattern) text = matchAt id pattern text := by
  have empty : ([] : Text).all isSpace = true := rfl
  exact matchAt_run empty visible

theorem entryPattern_eq : entryPattern classes =
    .word ['\''] :: .capture classes.isName :: .word ['\''] ::
    .run isSpace :: .word ['='] :: .run isSpace :: .word "@\x7b".toList ::
    .run isSpace :: .word "Kind".toList :: .run isSpace :: .word ['='] :: .run isSpace ::
    .word ['\''] :: .capture classes.isName :: .word ['\''] ::
    .run isSpace :: .word [';'] :: .run isSpace :: .word "Function".toList ::
    .run isSpace :: .word ['='] :: .run isSpace ::
    .word ['\''] :: .capture classes.isName :: .word ['\''] ::
    [.run isSpace, .word ['\x7d']] := rfl

/-- The pattern reads an entry written in the layout. -/
theorem matchAt_entryText {entry : String × Action}
    (names : IsName classes entry.1 ∧ IsName classes entry.2.kind ∧
      IsName classes entry.2.function) (text : Text) :
    matchAt id (entryPattern classes) (entryText entry ++ text) =
      some ([entry.1.toList, entry.2.kind.toList, entry.2.function.toList], text) := by
  obtain ⟨isId, isKind, isFunction⟩ := names
  rw [entryPattern_eq, entryText]
  simp only [List.append_assoc]
  rw [matchAt_quoted isId, matchAt_sign rfl, matchAt_word, matchAt_blank rfl, matchAt_word,
    matchAt_sign (quoted_visible _ _), matchAt_quoted isKind, matchAt_noBlank rfl, matchAt_word,
    matchAt_blank rfl, matchAt_word, matchAt_sign (quoted_visible _ _), matchAt_quoted isFunction,
    matchAt_blank rfl, matchAt_word]
  rfl

end Pieces

section Block

variable {classes : CharClasses} {page : Page}

/-- Before the end of a line nothing closes a map. -/
theorem untilClosing_append {line rest : Text} (plain : '\n' ∉ line) (nonempty : rest ≠ []) :
    untilClosing (line ++ rest) = (untilClosing rest).map (line ++ ·) := by
  induction line with
  | nil => simp
  | cons character line ih =>
    obtain ⟨here, later⟩ := not_or.mp (List.mem_cons.not.mp plain)
    have more : line ++ rest ≠ [] := by simp [nonempty]
    obtain ⟨second, tail, shape⟩ := List.exists_cons_of_ne_nil more
    have notEnd : ¬(character = '\n' ∧ second = '\x7d') := fun both => here both.1.symm
    rw [List.cons_append, shape, untilClosing, if_neg notEnd, ← shape, ih later, Option.map_map]
    rfl

/-- The lines of a map end at the first that begins with a brace. -/
theorem untilClosing_lines {lines : List Text} {first after : Text} (plain : '\n' ∉ first)
    (plainLines : ∀ line ∈ lines, ∃ text, line = ' ' :: (text ++ ['\n']) ∧ '\n' ∉ text) :
    untilClosing (first ++ '\n' :: (lines.flatten ++ '\x7d' :: after)) =
      some (first ++ '\n' :: lines.flatten) := by
  induction lines generalizing first with
  | nil =>
    rw [untilClosing_append plain (List.cons_ne_nil _ _), List.flatten_nil, List.nil_append,
      untilClosing, if_pos ⟨rfl, rfl⟩]
    rfl
  | cons line lines ih =>
    obtain ⟨⟨text, rfl, plainText⟩, later⟩ := List.forall_mem_cons.mp plainLines
    have plainLine : '\n' ∉ ' ' :: text := by simp [plainText]
    have notEnd : ¬('\n' = '\n' ∧ ' ' = '\x7d') := by decide
    have shape : ((' ' :: (text ++ ['\n'])) :: lines).flatten ++ '\x7d' :: after =
        ' ' :: text ++ '\n' :: (lines.flatten ++ '\x7d' :: after) := by simp
    rw [shape, untilClosing_append plain (List.cons_ne_nil _ _), List.cons_append, untilClosing,
      if_neg notEnd, ← List.cons_append, ih plainLine later]
    simp

theorem isName_newline : classes.isName '\n' = false :=
  isName_ascii (by decide) (by decide)

theorem newline_not_mem_quoted {name : String} (isName : IsName classes name) :
    '\n' ∉ quoted name := by
  have plain : '\n' ∉ name.toList := by
    intro member
    have named := List.all_eq_true.mp isName.2 _ member
    rw [isName_newline] at named
    cases named
  simp [quoted, plain]

theorem newline_not_mem_entryText {entry : String × Action}
    (names : IsName classes entry.1 ∧ IsName classes entry.2.kind ∧
      IsName classes entry.2.function) : '\n' ∉ entryText entry := by
  obtain ⟨isId, isKind, isFunction⟩ := names
  simp only [entryText, List.mem_append, newline_not_mem_quoted isId,
    newline_not_mem_quoted isKind, newline_not_mem_quoted isFunction]
  decide

theorem newline_not_mem_lineEnd (layout : InLayout classes page) : '\n' ∉ page.lineEnd := by
  rcases layout.lineEnd with none | carriage
  · simp [none]
  · simp [carriage]

theorem untilClosing_block (layout : InLayout classes page) :
    untilClosing (page.block ++ '\x7d' :: page.after) = some page.block := by
  have plainLines : ∀ line ∈ page.entries.map page.entryLine,
      ∃ text, line = ' ' :: (text ++ ['\n']) ∧ '\n' ∉ text := by
    intro line member
    obtain ⟨entry, isEntry, rfl⟩ := List.mem_map.mp member
    refine ⟨"   ".toList ++ (entryText entry ++ page.lineEnd), ?_, ?_⟩
    · simp [Page.entryLine]
    · have plainEntry := newline_not_mem_entryText (layout.names entry isEntry)
      have plainEnd := newline_not_mem_lineEnd layout
      simp [plainEntry, plainEnd]
  have closing := @untilClosing_lines _ _ page.after (newline_not_mem_lineEnd layout) plainLines
  rw [← List.flatMap_def] at closing
  rw [Page.block, List.append_assoc, List.cons_append]
  exact closing

theorem skip_gap {gap : Text} (noQuote : '\'' ∉ gap) (text : Text) :
    matchesFrom id (entryPattern classes) 0 (gap ++ text) =
      matchesFrom id (entryPattern classes) 0 text := by
  rw [entryPattern_eq]
  apply matchesFrom_append
  intro symbol member same
  have isQuote : symbol = '\'' := same
  exact noQuote (isQuote ▸ member)

/-- The entries of lines in the layout are those the pattern finds. -/
theorem matchesFrom_lines {entries : List (String × Action)}
    (names : ∀ entry ∈ entries, IsName classes entry.1 ∧ IsName classes entry.2.kind ∧
      IsName classes entry.2.function) (noQuote : '\'' ∉ page.lineEnd) {gap : Text}
    (gapPlain : '\'' ∉ gap) :
    matchesFrom id (entryPattern classes) 0 (gap ++ entries.flatMap page.entryLine) =
      entries.map fun entry =>
        [entry.1.toList, entry.2.kind.toList, entry.2.function.toList] := by
  induction entries generalizing gap with
  | nil => rw [skip_gap gapPlain, List.flatMap_nil, matchesFrom, List.map_nil]
  | cons entry rest ih =>
    obtain ⟨here, later⟩ := List.forall_mem_cons.mp names
    have shape : gap ++ (entry :: rest).flatMap page.entryLine =
        (gap ++ "    ".toList) ++
          (entryText entry ++ ((page.lineEnd ++ ['\n']) ++ rest.flatMap page.entryLine)) := by
      simp [Page.entryLine]
    have indented : '\'' ∉ gap ++ "    ".toList := by
      rw [List.mem_append, not_or]
      exact ⟨gapPlain, by decide⟩
    have ended : '\'' ∉ page.lineEnd ++ ['\n'] := by
      rw [List.mem_append, not_or]
      exact ⟨noQuote, by decide⟩
    obtain ⟨covered, isEntry⟩ : ∃ covered, entryText entry = '\'' :: covered := ⟨_, rfl⟩
    have found := matchAt_entryText here ((page.lineEnd ++ ['\n']) ++ rest.flatMap page.entryLine)
    rw [isEntry] at found
    rw [shape, skip_gap indented, isEntry, matchesFrom_of_matchAt found, ih later ended]
    rfl

/-- The entries of the block are those of the page. -/
theorem spelledEntries_block (layout : InLayout classes page) :
    spelledEntries classes page.block = page.entries := by
  have noQuote : '\'' ∉ page.lineEnd := by
    rcases layout.lineEnd with none | carriage
    · simp [none]
    · simp [carriage]
  have ended : '\'' ∉ page.lineEnd ++ ['\n'] := by
    rw [List.mem_append, not_or]
    exact ⟨noQuote, by decide⟩
  have shape : page.block = (page.lineEnd ++ ['\n']) ++ page.entries.flatMap page.entryLine := by
    simp [Page.block]
  rw [spelledEntries, allMatches, shape, matchesFrom_lines layout.names noQuote ended,
    List.filterMap_map]
  have each : entryOf ∘ (fun entry : String × Action =>
      [entry.1.toList, entry.2.kind.toList, entry.2.function.toList]) = some := by
    funext entry
    simp [entryOf]
  rw [each, List.filterMap_some]

end Block

section Script

variable {classes : CharClasses} {page : Page}

theorem isDigit_bounds {character : Char} (digit : character.isDigit = true) :
    48 ≤ character.toNat ∧ character.toNat ≤ 57 := by
  simpa [Char.isDigit, UInt32.le_iff_toNat_le] using digit

theorem versionDigits_text (layout : InLayout classes page) :
    versionDigits classes page.text = some page.version := by
  obtain ⟨nonempty, digits⟩ := layout.digits
  have bounds (character : Char) (member : character ∈ page.version) :
      48 ≤ character.toNat ∧ character.toNat ≤ 57 :=
    isDigit_bounds (List.all_eq_true.mp digits character member)
  have kinds : page.version.all classes.isDigit = true := by
    apply List.all_eq_true.mpr
    intro character member
    have ascii : character.toNat < 128 := by
      have bound := bounds character member
      omega
    rw [classes.digit_ascii character ascii]
    exact List.all_eq_true.mp digits character member
  have visible (text : Text) : (page.version ++ text).takeWhile isSpace = [] := by
    obtain ⟨digit, rest, shape⟩ := List.exists_cons_of_ne_nil nonempty
    have bound := bounds digit (shape ▸ List.mem_cons_self)
    have plain : isSpace digit = false := isSpace_of_visible (by omega) (by omega)
    simp [shape, plain]
  have dollar : classes.isDigit '$' = false := classes.digit_ascii '$' (by decide)
  have ends (text : Text) : (page.between ++ '$' :: text).takeWhile classes.isDigit = [] := by
    have stops := layout.numberEnds
    cases between : page.between with
    | nil => simp [dollar]
    | cons first rest =>
      rw [between] at stops
      cases isDigit : classes.isDigit first <;> simp_all
  have mark : "$script:BootstrapVersion".toList = '$' :: "script:BootstrapVersion".toList := rfl
  have absent := layout.firstVersion
  rw [mark] at absent
  obtain ⟨tail, shape⟩ : ∃ tail, page.text = page.before ++
      ('$' :: "script:BootstrapVersion".toList ++ (" = ".toList ++
        (page.version ++ (page.between ++ '$' :: tail)))) := by
    rw [Page.text, Page.front, mark]
    simp only [List.append_assoc]
    exact ⟨_, rfl⟩
  have found : firstMatch id (versionPattern classes) page.text =
      some ([page.version], page.between ++ '$' :: tail) := by
    rw [versionPattern, shape, mark]
    apply firstMatch_mark (by decide) absent
    rw [matchAt_word, matchAt_sign (visible _), matchAt_capture kinds nonempty (ends _), matchAt_nil]
    rfl
  rw [versionDigits, found]
  rfl

theorem mapBlock_text (layout : InLayout classes page) : mapBlock page.text = some page.block := by
  have mark : "$script:MastBootstrapElementActions".toList =
      '$' :: "script:MastBootstrapElementActions".toList := rfl
  have absent := layout.firstMap
  rw [mark] at absent
  have found : firstMatch id headPattern page.text =
      some ([], page.block ++ '\x7d' :: page.after) := by
    rw [headPattern, Page.text, mark]
    apply firstMatch_mark (by decide) absent
    rw [matchAt_word, matchAt_sign rfl, matchAt_word, matchAt_nil]
  rw [mapBlock, found]
  exact untilClosing_block layout

/-- A name that differs in case at most from one of word characters begins with no blank. -/
theorem visible_of_same {name other : String} (same : Same name other)
    (isName : IsName classes other) (text : Text) :
    (name.toList ++ text).takeWhile isSpace = [] := by
  have lowered := same_map same
  cases shape : other.toList with
  | nil => exact absurd shape isName.1
  | cons letter rest =>
    have named : classes.isName letter = true :=
      List.all_eq_true.mp isName.2 letter (shape ▸ List.mem_cons_self)
    have plain : isSpace letter = false := by
      rcases Bool.or_eq_true_iff.mp named with word | hyphen
      · exact classes.word_visible letter word
      · obtain rfl : letter = '-' := by simpa using hyphen
        rfl
    cases first : name.toList with
    | nil =>
      rw [first, shape] at lowered
      cases lowered
    | cons character more =>
      rw [first, shape] at lowered
      have sameLetter : character.toLower = letter.toLower := (List.cons.inj lowered).1
      have alike : isSpace character = false := by
        rw [← isSpace_toLower, sameLetter, isSpace_toLower, plain]
      simp [alike]

theorem definesFunction_text (layout : InLayout classes page) {entry : String × Action}
    (member : entry ∈ page.entries) (defined : page.reading.Defines entry.2.function) :
    definesFunction page.text entry.2.function = true := by
  obtain ⟨function, isFunction, same⟩ := defined
  obtain ⟨line, inText, rest, shape⟩ := layout.functions function isFunction
  have isName : IsName classes entry.2.function := (layout.names entry member).2.2
  rw [← definesFunction_congr same]
  apply List.any_eq_true.mpr
  refine ⟨line, inText, ?_⟩
  have brace : (" \x7b".toList ++ rest) = " ".toList ++ (['\x7b'] ++ rest) := rfl
  have blank : " ".toList ≠ [] := by decide
  have blanks : " ".toList.all isSpace = true := by decide
  have stops : (['\x7b'] ++ rest).takeWhile isSpace = [] := rfl
  rw [shape, functionPattern, matchAt_word,
    matchAt_capture blanks blank (visible_of_same same isName _), matchAt_word, brace,
    matchAt_run blanks stops, matchAt_word, matchAt_nil]
  rfl

end Script

section Converse

variable {classes : CharClasses} {release : Release} {page : Page}

/-- A registry that describes a script in the layout of the repository is accepted. -/
theorem accepts_of_inLayout (layout : InLayout classes page) (script : release.script = page.text)
    (form : InForm release.registry) (sound : Sound release page.reading) :
    Accepts classes release := by
  have nonempty : release.registry.elementList ≠ [] := by
    obtain ⟨⟨element, member, -⟩, -⟩ := sound.newest
    exact List.ne_nil_of_mem member
  have newest : page.number = maxSince release.registry.elementList :=
    sound.newest.unique (isGreatest_maxSince nonempty)
  have map : getMastBootstrapDispatchMap classes release.scriptPath release.script =
      .ok page.entries := by
    have entries : OrderedDict.setAll foldCase [] page.entries = page.entries :=
      OrderedDict.setAll_of_distinct (by simpa using page.distinct)
    rw [getMastBootstrapDispatchMap, script, mapBlock_text layout]
    simp only [spelledEntries_block layout, entries]
  apply accepts_iff.mpr
  refine ⟨page.number, page.entries, ?_, ?_, map, ?_⟩
  · apply embeddedVersion_eq_ok.mpr
    rw [script]
    exact ⟨page.version, versionDigits_text layout, layout.number⟩
  · apply testRegistry_eq_nil_iff.mpr
    have current : release.registry.currentVersion.getD (-1) =
        maxSince release.registry.elementList := by rw [form.current, Option.getD_some]
    refine ⟨nonempty, ?_, sound.unique, current, fun _ => current.trans newest.symm⟩
    intro element member
    refine ⟨form.elements element member, ?_⟩
    intro isProvider
    obtain ⟨directory, there, hasJson, same⟩ := sound.provided element member isProvider
    have known : directory.name ∈ getMastProviderNames release.providerDirectories :=
      mem_getMastProviderNames.mpr ⟨directory, there, hasJson, rfl⟩
    exact .inr (listed_iff.mpr ⟨directory.name, known, same⟩)
  · apply (testCoverage_eq_nil_iff sound.unique).mpr
    constructor
    · intro element member callable
      obtain ⟨entry, isEntry, same, -⟩ := sound.dispatched element member callable
      exact ⟨entry, isEntry, same⟩
    · intro entry isEntry
      refine ⟨sound.carried entry isEntry, .inr ?_⟩
      rw [script]
      exact definesFunction_text layout isEntry (sound.defined entry isEntry)

end Converse

section Samples

/-- The classes on ASCII alone. -/
def asciiClasses : CharClasses where
  isWord character := character.isAlphanum || character == '_'
  isDigit := Char.isDigit
  word_visible := by
    intro character word
    have bounds : 48 ≤ character.toNat ∧ character.toNat ≤ 122 := by
      simp only [Char.isAlphanum, Char.isAlpha, Char.isUpper, Char.isLower, Char.isDigit,
        UInt32.le_iff_toNat_le, Bool.or_eq_true, Bool.and_eq_true, decide_eq_true_eq,
        beq_iff_eq] at word
      rcases word with (((upper | lower) | digit) | line)
      · have low : 65 ≤ character.toNat := upper.1
        have high : character.toNat ≤ 90 := upper.2
        omega
      · have low : 97 ≤ character.toNat := lower.1
        have high : character.toNat ≤ 122 := lower.2
        omega
      · have low : 48 ≤ character.toNat := digit.1
        have high : character.toNat ≤ 57 := digit.2
        omega
      · rw [line]
        decide
    exact isSpace_of_visible (by omega) (by omega)
  word_ascii _ _ := rfl
  digit_ascii _ _ := rfl

def routineElement : Element :=
  ⟨some "dhcp-ipv4", some "Ensure IPv4 uses DHCP", some 1, some "routine", none⟩

def consoleElement : Element :=
  ⟨some "npcap", some "Npcap packet-capture driver", some 1, some "console", none⟩

def sampleRegistry : Registry :=
  ⟨some [routineElement, consoleElement], some 1⟩

def dhcpEntry : String × Action :=
  ("dhcp-ipv4", ⟨"routine", "Invoke-Dhcp"⟩)

def npcapEntry : String × Action :=
  ("npcap", ⟨"routine", "Invoke-Npcap"⟩)

/-- A script in the layout. -/
def samplePage : Page where
  before := []
  version := ['1']
  number := 1
  between := "\nfunction Invoke-Dhcp \x7b\n\x7d\n".toList
  lineEnd := []
  entries := [dhcpEntry]
  distinct := List.nodup_singleton _
  after := ['\n']
  functions := ["Invoke-Dhcp"]

def sampleRelease : Release :=
  ⟨"bootstrap-elements.json", "bootstrap.ps1", sampleRegistry, samplePage.text, none⟩

/-- The same with a second entry, of a console element, in double quotes. -/
def quotedScript : Text :=
  ("$script:BootstrapVersion = 1\nfunction Invoke-Dhcp \x7b\n\x7d\n" ++
    "function Invoke-Npcap \x7b\n\x7d\n" ++
    "$script:MastBootstrapElementActions = [ordered]@\x7b\n" ++
    "    'dhcp-ipv4' = @\x7b Kind = 'routine'; Function = 'Invoke-Dhcp' \x7d\n" ++
    "    \"npcap\" = @\x7b Kind = 'routine'; Function = 'Invoke-Npcap' \x7d\n\x7d\n").toList

def quotedRelease : Release :=
  { sampleRelease with script := quotedScript }

def quotedReading : Reading where
  version := 1
  actions := [dhcpEntry, npcapEntry]
  distinct := by
    unfold OrderedDict.Distinct
    decide
  functions := ["Invoke-Dhcp", "Invoke-Npcap"]

theorem samplePage_inLayout : InLayout asciiClasses samplePage where
  digits := ⟨by decide, by decide⟩
  number := by decide
  numberEnds := by decide
  lineEnd := .inl rfl
  names := by
    unfold IsName
    decide
  functions := by
    intro function member
    obtain rfl := List.mem_singleton.mp member
    refine ⟨samplePage.text.drop 29, ?_, samplePage.text.drop 51, ?_⟩
    · decide +kernel
    · decide +kernel
  firstVersion := by decide
  firstMap := by decide +kernel

theorem sampleRegistry_inForm : InForm sampleRegistry where
  elements := by
    intro element member
    simp only [Registry.elementList, sampleRegistry, Option.getD_some, List.mem_cons,
      List.not_mem_nil, or_false] at member
    rcases member with rfl | rfl
    · exact ⟨by decide, by decide +kernel, by decide, rfl, by decide, by decide⟩
    · exact ⟨by decide, by decide +kernel, by decide, rfl, by decide, by decide⟩
  current := by decide

theorem samplePage_sound : Sound sampleRelease samplePage.reading where
  unique := by decide
  carried := by decide
  dispatched := by decide
  withheld := by decide
  defined := by
    unfold Reading.Defines
    decide
  provided := by decide
  newest := by
    constructor
    · exact ⟨routineElement, List.mem_cons_self, rfl⟩
    · rintro since ⟨element, member, rfl⟩
      have each : ∀ element ∈ sampleRelease.registry.elementList, element.sinceNumber ≤ 1 := by
        decide
      exact each element member

end Samples

section Correspondence

/-- What an accepted registry says of a script is true exactly when the expressions of the
build see in the script what PowerShell sees, and a registry that is true of a script in the
layout of the repository is accepted. -/
theorem registry_sound_iff (classes : CharClasses) :
    (∀ (release : Release) (reading : Reading), Accepts classes release →
      (Sound release reading ↔ Faithful classes release reading)) ∧
    ∀ (release : Release) (page : Page), InLayout classes page → release.script = page.text →
      InForm release.registry → Sound release page.reading → Accepts classes release :=
  ⟨fun _ reading accepted => accepted.sound_iff reading,
    fun _ _ layout script form sound => accepts_of_inLayout layout script form sound⟩

theorem registry_sound_sample :
    Accepts asciiClasses sampleRelease ∧
      (Sound sampleRelease samplePage.reading ↔
        Faithful asciiClasses sampleRelease samplePage.reading) := by
  have accepted : Accepts asciiClasses sampleRelease :=
    (registry_sound_iff asciiClasses).2 sampleRelease samplePage samplePage_inLayout rfl
      sampleRegistry_inForm samplePage_sound
  exact ⟨accepted, (registry_sound_iff asciiClasses).1 sampleRelease samplePage.reading accepted⟩

/-- The expressions do not see the entry in double quotes, so nothing keeps the element of
the console from being called. -/
theorem quoted_entry_unseen :
    Accepts asciiClasses quotedRelease ∧ ¬Sound quotedRelease quotedReading := by
  constructor
  · unfold Accepts
    decide +kernel
  · intro sound
    have member : consoleElement ∈ quotedRelease.registry.elementList := by decide
    have isConsole : Same consoleElement.kind "console" := by decide
    have carried : npcapEntry ∈ quotedReading.actions := by decide
    exact sound.withheld consoleElement member (.inl isConsole) npcapEntry carried rfl

end Correspondence

end MastProvisioning.Build.BootstrapRegistry
