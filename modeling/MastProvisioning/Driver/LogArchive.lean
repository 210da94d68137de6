import Mathlib
import MastProvisioning.Collections.Base64
import MastProvisioning.Collections.OrderedDict
import MastProvisioning.Collections.Words
import MastProvisioning.Tools.ManifestReaders

/-!
# The archive of a unit's log directory

`_download_dir` has the unit print a line for each file below its session directory, with
the path and the bytes in base64, and writes what it reads of the lines. Path and bytes are
divided by a blank; what the driver reads of a path is what the console of the unit makes
of it.
-/

namespace MastProvisioning.Driver.LogArchive

open MastProvisioning.Collections
open MastProvisioning.Collections.Base64 (Text encode b64decode)
open MastProvisioning.Tools.ManifestReaders

abbrev Bytes := List UInt8

/-- A name Windows allows for a file or a directory. -/
structure IsName (name : Text) : Prop where
  nonempty : name ≠ []
  legal : ∀ character ∈ name, 0x20 ≤ character.toNat ∧ character ∉ "\\/:*?\"<>|".toList
  noDots : name ≠ ['.'] ∧ name ≠ ['.', '.']

/-- A file below the session directory. `Get-ChildItem` lists it when neither it nor a
directory above it is hidden. -/
structure UnitFile where
  path : List Text
  bytes : Bytes
  listed : Bool

/-- The files below the session directory, in the order they are listed. -/
structure SessionDir where
  files : List UnitFile
  named : ∀ file ∈ files, file.path ≠ [] ∧ ∀ name ∈ file.path, IsName name
  apart : files.Pairwise fun file other => ¬ file.path <+: other.path ∧ ¬ other.path <+: file.path

/-- `$_.FullName.Substring(...).TrimStart('\')`. -/
def relativePath (path : List Text) : Text := ['\\'].intercalate path

/-- `'FILE '`. -/
def fileMark : Text := ['F', 'I', 'L', 'E', ' ']

/-- What the unit prints for a file. -/
def printedLine (file : UnitFile) : Text :=
  fileMark ++ relativePath file.path ++ ' ' :: encode file.bytes ++ ['\r', '\n']

/-- What the script prints. -/
def printed (session : SessionDir) : Text :=
  (session.files.filter UnitFile.listed).flatMap printedLine

/-- What the driver reads of a text the unit prints: the console encodes it, and the driver
decodes the bytes as UTF-8. A console has one byte for a character or UTF-8; ASCII
characters come through and part what is around them. -/
structure Console where
  transmit : Text → Text
  nothing : transmit [] = []
  ascii : ∀ (before after : Text) (character : Char), character.toNat < 128 →
    transmit (before ++ character :: after) = transmit before ++ character :: transmit after
  shrinks : ∀ text, (transmit text).length ≤ text.length

/-- What `_download_dir` makes of a line. -/
inductive LineRead
  | skipped
  | raised
  | file (rel : Text) (bytes : Bytes)

/-- The body of the loop of `_download_dir`, up to where the file is written. -/
def readLine (line : Text) : LineRead :=
  if fileMark.isPrefixOf line then
    match (line.drop 5).dropWhile (· ≠ ' ') with
    | [] => .raised
    | _ :: body =>
      match b64decode body with
      | some bytes => .file ((line.drop 5).takeWhile (· ≠ ' ')) bytes
      | none => .raised
  else .skipped

/-- The files the lines tell of; `none` when a line raises. -/
def readLines : List Text → Option (List (Text × Bytes))
  | [] => some []
  | line :: rest =>
    match readLine line with
    | .skipped => readLines rest
    | .raised => none
    | .file rel bytes => (readLines rest).map ((rel, bytes) :: ·)

/-- The way down from a directory, `above` being the way to it; `none` when it leaves the
destination. -/
def descend (above : List Text) : List Text → Option (List Text)
  | [] => some above.reverse
  | part :: rest =>
    if part = [] ∨ part = ['.'] then descend above rest
    else if part = ['.', '.'] then
      match above with
      | [] => none
      | _ :: above => descend above rest
    else descend (part :: above) rest

/-- Where `dest / rel.replace("\\", "/")` is below the destination. -/
def place (rel : Text) : Option (List Text) :=
  let slashed := rel.map fun character => if character = '\\' then '/' else character
  if slashed.head? = some '/' then none else descend [] (slashed.splitOn '/')

/-- `target.write_bytes`, after the directories above were made; `none` when the target or
one above it is not what it has to be. -/
def writeBytes (files : List (List Text × Bytes)) (path : List Text) (bytes : Bytes) :
    Option (List (List Text × Bytes)) :=
  if path = [] ∨ ∃ other ∈ files, other.1 ≠ path ∧ (other.1 <+: path ∨ path <+: other.1) then none
  else some (OrderedDict.set id files path bytes)

/-- The files below the destination after the writes; `none` when one raises or is outside. -/
def writeAll (files : List (List Text × Bytes)) (writes : List (Text × Bytes)) :
    Option (List (List Text × Bytes)) :=
  writes.foldlM (fun files write => (place write.1).bind fun path =>
    writeBytes files path write.2) files

/-- `_download_dir` into an empty destination; `none` when it raises or writes outside. -/
def downloadDir (console : Console) (session : SessionDir) : Option (List (List Text × Bytes)) :=
  (readLines (Report.splitlines (console.transmit (printed session)))).bind (writeAll [])

/-- The files of a session directory by their paths. -/
def SessionDir.contents (session : SessionDir) : List (List Text × Bytes) :=
  session.files.map fun file => (file.path, file.bytes)

/-- The archive has the files of the directory, and nothing else was written. -/
def RoundTrips (console : Console) (session : SessionDir) : Prop :=
  ∃ archived, downloadDir console session = some archived ∧
    ∀ path, OrderedDict.get? id archived path = OrderedDict.get? id session.contents path

/-- A path as it comes through has no blank, and no character `splitlines` breaks at. -/
def Unbroken (text : Text) : Prop :=
  ∀ character ∈ text, character ≠ ' ' ∧ Report.endsLine character = false

/-- The files as the lines tell of them. -/
def received (console : Console) (session : SessionDir) : List (Option (List Text) × Bytes) :=
  session.files.map fun file => (place (console.transmit (relativePath file.path)), file.bytes)

section Transmission

variable (console : Console)

/-- ASCII text comes through, and parts what is around it. -/
theorem transmit_ascii {middle : Text} (some : middle ≠ [])
    (ascii : ∀ character ∈ middle, character.toNat < 128) (before after : Text) :
    console.transmit (before ++ (middle ++ after)) =
      console.transmit before ++ (middle ++ console.transmit after) := by
  induction middle generalizing before with
  | nil => exact absurd rfl some
  | cons character middle hypothesis =>
    obtain ⟨here, later⟩ := List.forall_mem_cons.mp ascii
    rw [List.cons_append, console.ascii _ _ _ here]
    cases middle with
    | nil => rfl
    | cons next middle =>
      have rest := hypothesis (by simp) later []
      rw [console.nothing, List.nil_append, List.nil_append] at rest
      rw [rest]
      rfl

/-- What is printed behind the path of a file. -/
def tail (bytes : Bytes) : Text := ' ' :: (encode bytes ++ ['\r', '\n'])

theorem tail_ascii (bytes : Bytes) : ∀ character ∈ tail bytes, character.toNat < 128 := by
  intro character member
  simp only [tail, List.mem_cons, List.mem_append, List.not_mem_nil, or_false] at member
  rcases member with rfl | encoded | rfl | rfl
  · decide
  · exact (Base64.encode_spec bytes character encoded).2
  · decide
  · decide

theorem printedLine_eq (file : UnitFile) :
    printedLine file = fileMark ++ (relativePath file.path ++ tail file.bytes) := by
  rw [printedLine, List.append_assoc, List.append_assoc]
  rfl

/-- The lines of the files come through but for the paths. -/
theorem transmit_lines (files : List UnitFile) :
    console.transmit (files.flatMap printedLine) = files.flatMap fun file =>
      fileMark ++ (console.transmit (relativePath file.path) ++ tail file.bytes) := by
  induction files with
  | nil => exact console.nothing
  | cons file files hypothesis =>
    have mark : ∀ character ∈ fileMark, character.toNat < 128 :=
      List.all_iff_forall_prop.mp (by decide)
    have opened := transmit_ascii console (by decide) mark []
      (relativePath file.path ++ (tail file.bytes ++ files.flatMap printedLine))
    rw [console.nothing, List.nil_append, List.nil_append] at opened
    rw [List.flatMap_cons, List.flatMap_cons, printedLine_eq, List.append_assoc, List.append_assoc,
      opened, transmit_ascii console (by simp [tail]) (tail_ascii file.bytes), hypothesis,
      List.append_assoc, List.append_assoc]

end Transmission

section Lines

theorem splitlines_pair (rest : Text) :
    Report.splitlines ('\r' :: '\n' :: rest) = [] :: Report.splitlines rest := by
  rw [Report.splitlines]

theorem splitlines_cons {character : Char} {rest : Text}
    (notPair : ¬ (character = '\r' ∧ rest.head? = some '\n')) :
    Report.splitlines (character :: rest) =
      if Report.endsLine character then [] :: Report.splitlines rest
      else match Report.splitlines rest with
        | [] => [[character]]
        | line :: lines => (character :: line) :: lines := by
  apply Report.splitlines.eq_3
  rintro _ rfl rfl
  exact notPair ⟨rfl, rfl⟩

/-- A character that ends no line joins the first of the lines after it. -/
theorem splitlines_join {character : Char} {rest line : Text} {lines : List Text}
    (goesOn : Report.endsLine character = false) (first : Report.splitlines rest = line :: lines) :
    Report.splitlines (character :: rest) = (character :: line) :: lines := by
  have notPair : ¬ (character = '\r' ∧ rest.head? = some '\n') := by
    rintro ⟨rfl, -⟩
    cases goesOn
  rw [splitlines_cons notPair, goesOn, first]
  rfl

theorem splitlines_end {ending : Text} (plain : ∀ character ∈ ending, Report.endsLine character = false)
    (rest : Text) : Report.splitlines (ending ++ '\r' :: '\n' :: rest) = ending :: Report.splitlines rest := by
  induction ending with
  | nil => exact splitlines_pair rest
  | cons character ending hypothesis =>
    obtain ⟨here, later⟩ := List.forall_mem_cons.mp plain
    exact splitlines_join here (hypothesis later)

/-- How the lines of a text go on behind it, when it is ended by `ending` and a break: the
last one has the ending, and those before are no longer than what they were cut from, each
with a break. -/
def Blocks (text ending rest : Text) : Prop :=
  ∃ before last, Report.splitlines (text ++ (ending ++ '\r' :: '\n' :: rest)) =
      before ++ (last ++ ending) :: Report.splitlines rest ∧
    (before.map List.length).sum + before.length + last.length ≤ text.length ∧
    (before = [] → last = text ∧ ∀ character ∈ text, Report.endsLine character = false)

theorem Blocks.cons {character : Char} {text ending rest : Text}
    (goesOn : Report.endsLine character = false) (blocks : Blocks text ending rest) :
    Blocks (character :: text) ending rest := by
  obtain ⟨before, last, lines, bound, whole⟩ := blocks
  cases before with
  | nil =>
    obtain ⟨rfl, plain⟩ := whole rfl
    refine ⟨[], character :: last, splitlines_join goesOn lines, by simp, fun _ => ⟨rfl, ?_⟩⟩
    exact List.forall_mem_cons.mpr ⟨goesOn, plain⟩
  | cons first before =>
    refine ⟨(character :: first) :: before, last, splitlines_join goesOn lines, ?_, by simp⟩
    simp only [List.map_cons, List.sum_cons, List.length_cons] at bound ⊢
    omega

theorem splitlines_block {mark : Char} {ending : Text} (markPlain : Report.endsLine mark = false)
    (plain : ∀ character ∈ ending, Report.endsLine character = false) (text rest : Text) :
    Blocks text (mark :: ending) rest := by
  induction text using Report.splitlines.induct with
  | case1 =>
    have marked := splitlines_end (List.forall_mem_cons.mpr ⟨markPlain, plain⟩) rest
    exact ⟨[], [], marked, by simp, fun _ => ⟨rfl, by simp⟩⟩
  | case2 text hypothesis =>
    obtain ⟨before, last, lines, bound, -⟩ := hypothesis
    refine ⟨[] :: before, last, ?_, ?_, by simp⟩
    · rw [List.cons_append, List.cons_append, splitlines_pair, lines]
      rfl
    · simp only [List.map_cons, List.sum_cons, List.length_cons, List.length_nil]
      omega
  | case3 character text notPair ends hypothesis =>
    obtain ⟨before, last, lines, bound, -⟩ := hypothesis
    have alone : ¬ (character = '\r' ∧
        (text ++ (mark :: ending ++ '\r' :: '\n' :: rest)).head? = some '\n') := by
      rintro ⟨isReturn, isFeed⟩
      cases text with
      | nil =>
        obtain rfl : mark = '\n' := by simpa using isFeed
        cases markPlain
      | cons next text =>
        obtain rfl : next = '\n' := by simpa using isFeed
        exact notPair text isReturn rfl
    refine ⟨[] :: before, last, ?_, ?_, by simp⟩
    · rw [List.cons_append, splitlines_cons alone, ends, if_pos rfl, lines]
      rfl
    · simp only [List.map_cons, List.sum_cons, List.length_cons, List.length_nil]
      omega
  | case4 character text _ goesOn _ hypothesis =>
    exact hypothesis.cons (Bool.eq_false_iff.mpr goesOn)
  | case5 character text _ goesOn _ _ _ hypothesis =>
    exact hypothesis.cons (Bool.eq_false_iff.mpr goesOn)

end Lines

section Reading

/-- How much of a text the paths of writes take up, each with one character after it. -/
def size (writes : List (Text × Bytes)) : Nat := (writes.map fun write => write.1.length + 1).sum

theorem size_append (writes more : List (Text × Bytes)) :
    size (writes ++ more) = size writes + size more := by
  simp [size]

theorem starts_fileMark {line : Text} :
    fileMark.isPrefixOf line = true ↔ ∃ rest, line = fileMark ++ rest := by
  rw [List.isPrefixOf_iff_prefix]
  exact ⟨fun ⟨rest, shape⟩ => ⟨rest, shape.symm⟩, fun ⟨rest, shape⟩ => ⟨rest, shape.symm⟩⟩

/-- A line that tells of a file: the mark, the path up to a blank, the body. -/
theorem readLine_eq_file {line rel : Text} {bytes : Bytes} :
    readLine line = .file rel bytes ↔
      ∃ body, line = fileMark ++ (rel ++ ' ' :: body) ∧ ' ' ∉ rel ∧ b64decode body = some bytes := by
  constructor
  · intro read
    unfold readLine at read
    split at read
    · rename_i marked
      obtain ⟨rest, rfl⟩ := starts_fileMark.mp marked
      have dropped : (fileMark ++ rest).drop 5 = rest := rfl
      rw [dropped] at read
      have parts := List.takeWhile_append_dropWhile (p := (· ≠ ' ')) (l := rest)
      split at read
      · cases read
      · rename_i blank body isBody
        have isBlank := List.head?_dropWhile_not (fun character => decide (character ≠ ' ')) rest
        rw [isBody] at isBlank
        obtain rfl : blank = ' ' := by simpa using isBlank
        split at read
        · rename_i decoded isDecoded
          injection read with sameRel sameBytes
          subst sameRel sameBytes
          refine ⟨body, by rw [← isBody, parts], ?_, isDecoded⟩
          intro member
          simpa using List.mem_takeWhile_imp member
        · cases read
    · cases read
  · rintro ⟨body, rfl, plain, decoded⟩
    have all : ∀ character ∈ rel, decide (character ≠ ' ') = true := by
      intro character member
      exact decide_eq_true fun same => plain (same ▸ member)
    have dropped : (fileMark ++ (rel ++ ' ' :: body)).drop 5 = rel ++ ' ' :: body := rfl
    rw [readLine, if_pos (starts_fileMark.mpr ⟨_, rfl⟩), dropped,
      List.dropWhile_append_of_pos all, List.takeWhile_append_of_pos all]
    simp [decoded]

theorem length_of_readLine {line rel : Text} {bytes : Bytes} (read : readLine line = .file rel bytes) :
    rel.length + 6 ≤ line.length := by
  obtain ⟨body, rfl, -, -⟩ := readLine_eq_file.mp read
  simp only [fileMark, List.length_append, List.length_cons, List.length_nil]
  omega

theorem readLines_cons (line : Text) (lines : List Text) :
    readLines (line :: lines) = (readLines [line]).bind fun here =>
      (readLines lines).map (here ++ ·) := by
  rw [readLines, readLines]
  cases readLine line <;> simp [readLines]

theorem readLines_append (lines more : List Text) :
    readLines (lines ++ more) =
      (readLines lines).bind fun writes => (readLines more).map (writes ++ ·) := by
  induction lines with
  | nil => simp [readLines]
  | cons line lines hypothesis =>
    rw [List.cons_append, readLines_cons, hypothesis, readLines_cons line lines]
    cases readLines [line] <;> cases readLines lines <;> cases readLines more <;> simp

theorem readLines_single {line : Text} {writes : List (Text × Bytes)}
    (read : readLines [line] = some writes) :
    writes = [] ∨ ∃ rel bytes, writes = [(rel, bytes)] ∧ readLine line = .file rel bytes := by
  simp only [readLines] at read
  split at read
  · exact .inl (Option.some.inj read).symm
  · cases read
  · rename_i rel bytes isFile
    exact .inr ⟨rel, bytes, (Option.some.inj read).symm, isFile⟩

/-- The paths lines tell of are shorter than the lines. -/
theorem size_readLines {lines : List Text} {writes : List (Text × Bytes)}
    (read : readLines lines = some writes) :
    writes = [] ∨ size writes + 5 ≤ (lines.map List.length).sum := by
  induction lines generalizing writes with
  | nil => exact .inl (Option.some.inj read).symm
  | cons line lines hypothesis =>
    rw [readLines_cons] at read
    obtain ⟨here, readHere, read⟩ := Option.bind_eq_some_iff.mp read
    obtain ⟨later, readLater, rfl⟩ := Option.map_eq_some_iff.mp read
    rw [size_append, List.map_cons, List.sum_cons]
    rcases readLines_single readHere with rfl | ⟨rel, bytes, rfl, isFile⟩ <;>
      rcases hypothesis readLater with rfl | bound
    · exact .inl rfl
    · right
      have none : size [] = 0 := rfl
      omega
    · right
      have length := length_of_readLine isFile
      have single : size [(rel, bytes)] = rel.length + 1 := rfl
      have none : size [] = 0 := rfl
      omega
    · right
      have length := length_of_readLine isFile
      have single : size [(rel, bytes)] = rel.length + 1 := rfl
      omega

/-- The line that ends with the body of a file has a path no longer than what is before
the body, and takes all of it only when it has no blank. -/
theorem readLine_last {last rel body : Text} {bytes : Bytes} (plain : ' ' ∉ body)
    (read : readLine (last ++ ' ' :: body) = .file rel bytes) :
    rel.length + 5 ≤ last.length ∧
      (rel.length + 5 = last.length →
        last = fileMark ++ rel ∧ ' ' ∉ rel ∧ b64decode body = some bytes) := by
  obtain ⟨found, shape, plainRel, decoded⟩ := readLine_eq_file.mp read
  rw [← List.append_assoc] at shape
  have longer : last = fileMark ++ rel ∧ body = found ∨
      (fileMark ++ rel).length < last.length := by
    rcases List.append_eq_append_iff.mp shape with ⟨more, path, tail⟩ | ⟨more, path, tail⟩
    · cases more with
      | nil => exact .inl ⟨by simpa using path.symm, (List.cons.inj tail).2⟩
      | cons blank more =>
        have member : ' ' ∈ body := by
          rw [(List.cons.inj tail).2]
          simp
        exact absurd member plain
    · cases more with
      | nil => exact .inl ⟨by simpa using path, (List.cons.inj tail).2.symm⟩
      | cons blank more =>
        right
        simp only [path, List.length_append, List.length_cons]
        omega
  rcases longer with ⟨rfl, rfl⟩ | longer
  · refine ⟨by simp [fileMark], fun _ => ⟨rfl, plainRel, decoded⟩⟩
  · simp only [fileMark, List.length_append, List.length_cons, List.length_nil] at longer
    exact ⟨by omega, fun whole => absurd whole (by omega)⟩

theorem fileMark_plain : ∀ character ∈ fileMark, Report.endsLine character = false :=
  List.all_iff_forall_prop.mp (by decide)

theorem encode_plain (bytes : Bytes) :
    ' ' ∉ encode bytes ∧ ∀ character ∈ encode bytes, Report.endsLine character = false := by
  constructor
  · intro member
    exact absurd (Base64.encode_spec bytes ' ' member).1 (by decide)
  · intro character member
    obtain ⟨low, high⟩ := Base64.encode_spec bytes character member
    simp only [Report.endsLine, List.contains_eq_mem, decide_eq_false_iff_not, List.mem_cons,
      List.not_mem_nil, or_false]
    omega

/-- What the lines of one file tell of: of paths that take up no more than the path of the
file, and of all of it only when they tell of the file itself. -/
theorem readLines_block {path rest : Text} {bytes : Bytes} {writes : List (Text × Bytes)}
    (read : readLines (Report.splitlines (fileMark ++ (path ++ tail bytes) ++ rest)) = some writes) :
    ∃ here later, writes = here ++ later ∧ readLines (Report.splitlines rest) = some later ∧
      size here ≤ path.length + 1 ∧
      (size here = path.length + 1 → here = [(path, bytes)] ∧ Unbroken path) := by
  obtain ⟨before, last, lines, bound, whole⟩ :=
    @splitlines_block ' ' _ rfl (encode_plain bytes).2 (fileMark ++ path) rest
  have shape : fileMark ++ (path ++ tail bytes) ++ rest =
      fileMark ++ path ++ (' ' :: encode bytes ++ '\r' :: '\n' :: rest) := by
    simp [tail]
  rw [shape, lines, readLines_append, readLines_cons] at read
  obtain ⟨first, readFirst, read⟩ := Option.bind_eq_some_iff.mp read
  obtain ⟨others, readOthers, rfl⟩ := Option.map_eq_some_iff.mp read
  obtain ⟨single, readSingle, readOthers⟩ := Option.bind_eq_some_iff.mp readOthers
  obtain ⟨later, readLater, rfl⟩ := Option.map_eq_some_iff.mp readOthers
  refine ⟨first ++ single, later, by simp, readLater, ?_⟩
  have length : (fileMark ++ path).length = path.length + 5 := by simp [fileMark]
  have none : size [] = 0 := rfl
  rw [length] at bound
  rw [size_append]
  have ofSingle : single = [] ∨ ∃ rel decoded, single = [(rel, decoded)] ∧
      size single + 4 ≤ last.length ∧ (size single + 4 = last.length →
        last = fileMark ++ rel ∧ ' ' ∉ rel ∧ b64decode (encode bytes) = some decoded) := by
    rcases readLines_single readSingle with nothing | ⟨rel, decoded, rfl, isFile⟩
    · exact .inl nothing
    · exact .inr ⟨rel, decoded, rfl, readLine_last (encode_plain bytes).1 isFile⟩
  by_cases alone : before = []
  · obtain ⟨rfl, plain⟩ := whole alone
    subst alone
    obtain rfl : [] = first := Option.some.inj readFirst
    rw [length] at ofSingle
    rcases ofSingle with rfl | ⟨rel, decoded, rfl, shorter, exact⟩
    · exact ⟨by omega, fun equal => absurd equal (by omega)⟩
    · refine ⟨by omega, fun equal => ?_⟩
      obtain ⟨same, noBlank, isDecoded⟩ := exact (by omega)
      obtain rfl := List.append_cancel_left same
      rw [Base64.b64decode_encode, Option.some.injEq] at isDecoded
      subst isDecoded
      refine ⟨rfl, fun character member => ⟨?_, plain character (List.mem_append_right _ member)⟩⟩
      rintro rfl
      exact noBlank member
  · have cut := List.length_pos_iff.mpr alone
    have ofFirst := size_readLines readFirst
    have strict : size first + size single < path.length + 1 := by
      rcases ofFirst with rfl | boundFirst <;> rcases ofSingle with rfl | ⟨_, _, -, shorter, -⟩ <;>
        omega
    exact ⟨strict.le, fun equal => absurd equal strict.ne⟩

/-- A file whose path has no blank and no break is told of by its line. -/
theorem readLines_whole {path : Text} (unbroken : Unbroken path) (bytes : Bytes) (rest : Text) :
    readLines (Report.splitlines (fileMark ++ (path ++ tail bytes) ++ rest)) =
      (readLines (Report.splitlines rest)).map ((path, bytes) :: ·) := by
  have plain : ∀ character ∈ fileMark ++ (path ++ ' ' :: encode bytes),
      Report.endsLine character = false := by
    intro character member
    rcases List.mem_append.mp member with marked | member
    · exact fileMark_plain character marked
    rcases List.mem_append.mp member with inPath | member
    · exact (unbroken character inPath).2
    rcases List.mem_cons.mp member with rfl | encoded
    · rfl
    · exact (encode_plain bytes).2 character encoded
  have shape : fileMark ++ (path ++ tail bytes) ++ rest =
      (fileMark ++ (path ++ ' ' :: encode bytes)) ++ '\r' :: '\n' :: rest := by
    simp [tail]
  have isFile : readLine (fileMark ++ (path ++ ' ' :: encode bytes)) = .file path bytes :=
    readLine_eq_file.mpr ⟨_, rfl, fun member => (unbroken _ member).1 rfl,
      Base64.b64decode_encode bytes⟩
  rw [shape, splitlines_end plain, readLines, isFile]

/-- The lines of files tell of paths that take up no more than those of the files, and of all
of it only when each tells of its file. -/
theorem readLines_files {path : UnitFile → Text} (files : List UnitFile)
    {writes : List (Text × Bytes)}
    (read : readLines (Report.splitlines (files.flatMap fun file =>
      fileMark ++ (path file ++ tail file.bytes))) = some writes) :
    size writes ≤ (files.map fun file => (path file).length + 1).sum ∧
      (size writes = (files.map fun file => (path file).length + 1).sum →
        writes = files.map (fun file => (path file, file.bytes)) ∧
          ∀ file ∈ files, Unbroken (path file)) := by
  induction files generalizing writes with
  | nil =>
    obtain rfl : [] = writes := Option.some.inj read
    simp [size]
  | cons file files hypothesis =>
    obtain ⟨here, later, rfl, readLater, bound, exact⟩ := readLines_block read
    obtain ⟨boundLater, exactLater⟩ := hypothesis readLater
    rw [size_append, List.map_cons, List.sum_cons]
    refine ⟨by omega, fun equal => ?_⟩
    obtain ⟨rfl, unbroken⟩ := exact (by omega)
    obtain ⟨rfl, others⟩ := exactLater (by omega)
    exact ⟨rfl, List.forall_mem_cons.mpr ⟨unbroken, others⟩⟩

theorem readLines_files_whole {path : UnitFile → Text} {files : List UnitFile}
    (unbroken : ∀ file ∈ files, Unbroken (path file)) :
    readLines (Report.splitlines (files.flatMap fun file =>
      fileMark ++ (path file ++ tail file.bytes))) =
        some (files.map fun file => (path file, file.bytes)) := by
  induction files with
  | nil => rfl
  | cons file files hypothesis =>
    obtain ⟨here, others⟩ := List.forall_mem_cons.mp unbroken
    rw [List.flatMap_cons, readLines_whole here, hypothesis others]
    rfl

end Reading

section Places

/-- How much of a text a path takes up, with a separator for each name. -/
def weight (path : List Text) : Nat := (path.map fun name => name.length + 1).sum

theorem weight_descend {above parts path : List Text} (down : descend above parts = some path) :
    weight path ≤ weight above + weight parts := by
  induction parts generalizing above with
  | nil =>
    obtain rfl : above.reverse = path := Option.some.inj down
    simp [weight]
  | cons part parts hypothesis =>
    unfold descend at down
    split at down
    · have := hypothesis down
      simp only [weight, List.map_cons, List.sum_cons] at this ⊢
      omega
    · split at down
      · cases above with
        | nil => cases down
        | cons last above =>
          have := hypothesis down
          simp only [weight, List.map_cons, List.sum_cons] at this ⊢
          omega
      · have := hypothesis down
        simp only [weight, List.map_cons, List.sum_cons] at this ⊢
        omega

theorem weight_splitOn (mark : Char) (text : Text) : weight (text.splitOn mark) = text.length + 1 := by
  have lengths := congrArg List.length (terminated_splitOn mark text)
  simpa [weight, terminated, List.length_flatMap] using lengths

/-- A place below the destination takes up no more than the text it was read of. -/
theorem weight_place {rel : Text} {path : List Text} (isPlace : place rel = some path) :
    weight path ≤ rel.length + 1 := by
  simp only [place] at isPlace
  split at isPlace
  · cases isPlace
  · have bound := weight_descend isPlace
    rw [weight_splitOn, List.length_map] at bound
    simpa [weight] using bound

theorem length_relativePath {path : List Text} (some : path ≠ []) :
    (relativePath path).length + 1 = weight path := by
  induction path with
  | nil => exact absurd rfl some
  | cons name path hypothesis =>
    cases path with
    | nil => simp [relativePath, weight, List.intercalate_singleton]
    | cons next path =>
      have rest := hypothesis (by simp)
      simp only [relativePath, List.intercalate_cons_cons, List.length_append, weight,
        List.map_cons, List.sum_cons, List.length_cons, List.length_nil] at rest ⊢
      omega

end Places

section Writing

variable {files archived : List (List Text × Bytes)} {writes : List (Text × Bytes)}

/-- What is below the destination after writes was there or was written. -/
theorem mem_of_writeAll (wrote : writeAll files writes = some archived) {path : List Text}
    {bytes : Bytes} (found : OrderedDict.get? id archived path = some bytes) :
    OrderedDict.get? id files path = some bytes ∨
      ∃ write ∈ writes, place write.1 = some path ∧ write.2 = bytes := by
  induction writes generalizing files with
  | nil => exact .inl (Option.some.inj wrote ▸ found)
  | cons write writes hypothesis =>
    obtain ⟨next, isNext, later⟩ := Option.bind_eq_some_iff.mp wrote
    obtain ⟨target, isTarget, written⟩ := Option.bind_eq_some_iff.mp isNext
    rcases hypothesis later with before | ⟨other, isOther, there⟩
    · unfold writeBytes at written
      split at written
      · cases written
      · rw [← Option.some.inj written, OrderedDict.get?_set] at before
        split at before
        · rename_i same
          exact .inr ⟨write, List.mem_cons_self, isTarget.trans (congrArg some same),
            Option.some.inj before⟩
        · exact .inl before
    · exact .inr ⟨other, List.mem_cons_of_mem _ isOther, there⟩

/-- Neither of two files is at, above or below the other. -/
def Apart (file other : List Text × Bytes) : Prop :=
  ¬ file.1 <+: other.1 ∧ ¬ other.1 <+: file.1

theorem Apart.symm {file other : List Text × Bytes} (apart : Apart file other) : Apart other file :=
  And.symm apart

/-- Files that are apart are written one beside the other. -/
theorem writeAll_apart {placed : List (List Text × Bytes)}
    (places : writes.map (fun write => (place write.1, write.2)) =
      placed.map fun file => (some file.1, file.2))
    (proper : ∀ file ∈ placed, file.1 ≠ []) (apart : (files ++ placed).Pairwise Apart) :
    writeAll files writes = some (files ++ placed) := by
  induction writes generalizing files placed with
  | nil =>
    obtain rfl : placed = [] := by simpa using places.symm
    simp [writeAll]
  | cons write writes hypothesis =>
    cases placed with
    | nil => cases places
    | cons file placed =>
      obtain ⟨here, later⟩ := List.cons.inj places
      obtain ⟨isPlace, sameBytes⟩ := Prod.mk.inj here
      have beside : ∀ other ∈ files, Apart other file := fun other isOther =>
        (List.pairwise_append.mp apart).2.2 other isOther file List.mem_cons_self
      have written : writeBytes files file.1 write.2 = some (files ++ [file]) := by
        have free : ¬ (file.1 = [] ∨ ∃ other ∈ files, other.1 ≠ file.1 ∧
            (other.1 <+: file.1 ∨ file.1 <+: other.1)) := by
          rintro (empty | ⟨other, isOther, -, above | below⟩)
          · exact proper file List.mem_cons_self empty
          · exact (beside other isOther).1 above
          · exact (beside other isOther).2 below
        have fresh : ∀ other ∈ files, id other.1 ≠ id file.1 := by
          intro other isOther same
          exact (beside other isOther).1 (by rw [show other.1 = file.1 from same])
        rw [writeBytes, if_neg free, OrderedDict.set_of_fresh fresh, sameBytes]
      have rest := @hypothesis (files ++ [file]) _ later
        (fun other isOther => proper other (List.mem_cons_of_mem _ isOther))
        (by simpa using apart)
      have step : writeAll files (write :: writes) = writeAll (files ++ [file]) writes := by
        rw [writeAll, List.foldlM_cons, isPlace]
        simp only [Option.bind_some, written]
        rfl
      rw [step, rest, List.append_assoc, List.singleton_append]

theorem distinct_of_apart (apart : files.Pairwise Apart) : OrderedDict.Distinct id files := by
  refine List.pairwise_map.mpr (apart.imp fun {file other} beside same => ?_)
  exact beside.1 (by rw [show file.1 = other.1 from same])

end Writing

section RoundTrip

variable {console : Console} {session : SessionDir}

theorem contents_apart (session : SessionDir) : session.contents.Pairwise Apart :=
  List.pairwise_map.mpr session.apart

theorem contents_distinct (session : SessionDir) : OrderedDict.Distinct id session.contents :=
  distinct_of_apart (contents_apart session)

/-- The files, as they are to be written. -/
def SessionDir.due (session : SessionDir) : List (Option (List Text) × Bytes) :=
  session.contents.map fun file => (some file.1, file.2)

theorem due_nodup (session : SessionDir) : session.due.Nodup := by
  have nodup := (contents_distinct session).of_map
  refine nodup.map fun file other same => ?_
  obtain ⟨samePath, sameBytes⟩ := Prod.mk.inj same
  exact Prod.ext (Option.some.inj samePath) sameBytes

/-- How much of a text places take up. -/
def placedSize (files : List (Option (List Text) × Bytes)) : Nat :=
  (files.map fun file => weight (file.1.getD [])).sum

theorem placedSize_places (writes : List (Text × Bytes)) :
    placedSize (writes.map fun write => (place write.1, write.2)) ≤ size writes := by
  rw [placedSize, size, List.map_map]
  refine List.sum_le_sum fun write _ => ?_
  cases isPlace : place write.1 with
  | none => simp [isPlace, weight]
  | some path => simpa [isPlace] using weight_place isPlace

theorem placedSize_due (session : SessionDir) :
    placedSize session.due = (session.files.map fun file => weight file.path).sum := by
  simp [placedSize, SessionDir.due, SessionDir.contents, Function.comp_def]

theorem weight_pos {path : List Text} (some : path ≠ []) : 0 < weight path := by
  rw [← length_relativePath some]
  omega

/-- Files that are all that counts are all that are listed. -/
theorem all_listed {files : List UnitFile} (named : ∀ file ∈ files, file.path ≠ []) :
    ((files.filter UnitFile.listed).map fun file => weight file.path).sum ≤
        (files.map fun file => weight file.path).sum ∧
      (((files.filter UnitFile.listed).map fun file => weight file.path).sum =
          (files.map fun file => weight file.path).sum →
        ∀ file ∈ files, file.listed = true) := by
  induction files with
  | nil => simp
  | cons file files hypothesis =>
    obtain ⟨here, later⟩ := List.forall_mem_cons.mp named
    obtain ⟨bound, exact⟩ := hypothesis later
    have positive := weight_pos here
    cases isListed : file.listed with
    | true =>
      simp only [List.filter_cons_of_pos isListed, List.map_cons, List.sum_cons]
      refine ⟨by omega, fun equal => List.forall_mem_cons.mpr ⟨isListed, exact (by omega)⟩⟩
    | false =>
      rw [List.filter_cons_of_neg (by simp [isListed]), List.map_cons, List.sum_cons]
      exact ⟨by omega, fun equal => absurd equal (by omega)⟩

/-- An archive that has the files was written to where each of them is due. -/
theorem due_subperm {writes : List (Text × Bytes)} {archived : List (List Text × Bytes)}
    (wrote : writeAll [] writes = some archived)
    (same : ∀ path, OrderedDict.get? id archived path = OrderedDict.get? id session.contents path) :
    List.Subperm session.due (writes.map fun write => (place write.1, write.2)) := by
  refine List.subperm_of_subset (due_nodup session) fun file isDue => ?_
  obtain ⟨⟨path, bytes⟩, isFile, rfl⟩ := List.mem_map.mp isDue
  have found := (OrderedDict.get?_eq_some (contents_distinct session)).mpr isFile
  rw [← same] at found
  rcases mem_of_writeAll wrote found with never | ⟨write, isWrite, isPlace, isBytes⟩
  · cases never
  · exact List.mem_map.mpr ⟨write, isWrite, Prod.ext isPlace isBytes⟩

theorem placedSize_le_of_subperm {files others : List (Option (List Text) × Bytes)}
    (within : List.Subperm files others) : placedSize files ≤ placedSize others := by
  obtain ⟨arranged, perm, sublist⟩ := within
  rw [placedSize, placedSize, ← (perm.map _).sum_eq]
  exact (sublist.map _).sum_le_sum fun _ _ => Nat.zero_le _

/-- What the driver reads of the printed lines. -/
theorem downloadDir_eq (console : Console) (session : SessionDir) :
    downloadDir console session = (readLines (Report.splitlines
      ((session.files.filter UnitFile.listed).flatMap fun file =>
        fileMark ++ (console.transmit (relativePath file.path) ++ tail file.bytes)))).bind
          (writeAll []) := by
  rw [downloadDir, printed, transmit_lines]

/-- Places that are those that are due, but for their order, are all below the destination. -/
theorem placed_of_perm (perm : (received console session).Perm session.due) :
    ∃ placed : List (List Text × Bytes),
      received console session = placed.map (fun file => (some file.1, file.2)) ∧
        placed.Perm session.contents := by
  let settle : Option (List Text) × Bytes → List Text × Bytes := fun file =>
    (file.1.getD [], file.2)
  refine ⟨(received console session).map settle, ?_, ?_⟩
  · rw [List.map_map]
    conv_lhs => rw [← List.map_id (received console session)]
    refine List.map_congr_left fun file member => ?_
    obtain ⟨placed, -, rfl⟩ := List.mem_map.mp (perm.mem_iff.mp member)
    rfl
  · have settled : session.due.map settle = session.contents := by
      simp [SessionDir.due, settle, Function.comp_def]
    exact settled ▸ perm.map settle

/-- The archive has the files of the directory exactly when all of them are listed, no path
comes through with a blank or a line break, and the paths come through as they are, but for
files of the same bytes that may change places. -/
theorem roundTrips_iff (console : Console) (session : SessionDir) :
    RoundTrips console session ↔
      (∀ file ∈ session.files, file.listed = true ∧
        Unbroken (console.transmit (relativePath file.path))) ∧
      (received console session).Perm session.due := by
  constructor
  · rintro ⟨archived, downloaded, same⟩
    rw [downloadDir_eq] at downloaded
    obtain ⟨writes, read, wrote⟩ := Option.bind_eq_some_iff.mp downloaded
    obtain ⟨bound, exact⟩ := readLines_files _ read
    have within := due_subperm wrote same
    -- The paths of the files, what they are due as, what is written and what is listed: each
    -- takes up no more than the next, and the last no more than the first.
    have dueBound := placedSize_le_of_subperm within
    have placedBound := placedSize_places writes
    have named : ∀ file ∈ session.files, file.path ≠ [] := fun file member =>
      (session.named file member).1
    have shrunk : ((session.files.filter UnitFile.listed).map fun file =>
        (console.transmit (relativePath file.path)).length + 1).sum ≤
        ((session.files.filter UnitFile.listed).map fun file => weight file.path).sum := by
      refine List.sum_le_sum fun file member => ?_
      have shorter := console.shrinks (relativePath file.path)
      have whole := length_relativePath (named file (List.mem_of_mem_filter member))
      omega
    obtain ⟨listedBound, allListed⟩ := all_listed named
    rw [placedSize_due] at dueBound
    have all := allListed (by omega)
    obtain ⟨isWrites, unbroken⟩ := exact (by omega)
    rw [List.filter_eq_self.mpr all] at isWrites unbroken
    refine ⟨fun file member => ⟨all file member, unbroken file member⟩, ?_⟩
    have isReceived : writes.map (fun write => (place write.1, write.2)) =
        received console session := by
      rw [isWrites, List.map_map]
      rfl
    rw [isReceived] at within
    refine (within.perm_of_length_le ?_).symm
    simp [received, SessionDir.due, SessionDir.contents]
  · rintro ⟨files, perm⟩
    have listed : session.files.filter UnitFile.listed = session.files :=
      List.filter_eq_self.mpr fun file member => (files file member).1
    obtain ⟨placed, isPlaced, arranged⟩ := placed_of_perm perm
    have apart : placed.Pairwise Apart :=
      (arranged.pairwise_iff fun beside => beside.symm).mpr (contents_apart session)
    have proper : ∀ file ∈ placed, file.1 ≠ [] := by
      intro file member
      obtain ⟨recorded, isRecorded, rfl⟩ := List.mem_map.mp (arranged.mem_iff.mp member)
      exact (session.named recorded isRecorded).1
    have places : (session.files.map fun file =>
        (console.transmit (relativePath file.path), file.bytes)).map
          (fun write => (place write.1, write.2)) = placed.map fun file => (some file.1, file.2) := by
      rw [← isPlaced, List.map_map]
      rfl
    have wrote : writeAll [] _ = some ([] ++ placed) := writeAll_apart places proper apart
    refine ⟨placed, ?_, fun path => Option.ext fun bytes => ?_⟩
    · rw [downloadDir_eq, listed, readLines_files_whole fun file member => (files file member).2]
      exact wrote
    · rw [OrderedDict.get?_eq_some (distinct_of_apart apart),
        OrderedDict.get?_eq_some (contents_distinct session), arranged.mem_iff]

end RoundTrip

/-- A console that uses UTF-8. -/
def utf8Console : Console := ⟨id, rfl, fun _ _ _ _ => rfl, fun _ => Nat.le_refl _⟩

/-- A session directory with one file, whose name has a blank. -/
def blankSession : SessionDir where
  files := [⟨["run log.txt".toList], [104], true⟩]
  named := by
    have isName : IsName "run log.txt".toList :=
      ⟨by decide, List.all_iff_forall_prop.mp (by decide), by decide⟩
    simpa using isName
  apart := List.pairwise_singleton _ _

/-- The file is written under the first word of its name, with bytes that are not its own. -/
theorem blankSession_lost : ¬ RoundTrips utf8Console blankSession := by
  rintro ⟨archived, downloaded, same⟩
  have written : downloadDir utf8Console blankSession =
      some [(["run".toList], [150, 136, 45, 198, 214, 128])] := by decide
  obtain rfl := Option.some.inj (written.symm.trans downloaded)
  exact absurd (same ["run log.txt".toList]) (by decide)

end MastProvisioning.Driver.LogArchive
