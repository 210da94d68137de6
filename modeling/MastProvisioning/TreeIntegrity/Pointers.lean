import Mathlib.Data.Bool.AllAny
import MastProvisioning.Collections.ByteText
import MastProvisioning.Collections.Words
import MastProvisioning.Collections.OrderedDict

/-!
# Reading many blobs in one call

`git cat-file --batch` answers each line of its input with a header and the content of
the object, or with the line itself and the word `missing`. `_pointers` asks for the
paths of a commit and decodes the answers by position: it tells the two kinds of header
apart by their number of words, and the line that is echoed is a path of any spelling.

What an object name denotes in the repository is a parameter.
-/

namespace MastProvisioning.TreeIntegrity

open MastProvisioning.Collections
open MastProvisioning.Collections.ByteText

/-- A text of ASCII characters as bytes. -/
def ascii (text : String) : ByteText :=
  text.toList.map fun character => UInt8.ofNat character.toNat

/-- The kinds of objects. -/
inductive Kind
  | blob
  | tree
  | commit
  | tag
  deriving DecidableEq

/-- The word of a kind. -/
def Kind.word : Kind → ByteText
  | blob => ascii "blob"
  | tree => ascii "tree"
  | commit => ascii "commit"
  | tag => ascii "tag"

/-- The name of an object by its content. -/
structure Oid where
  text : ByteText
  isWord : IsWord text

/-- What an object name denotes. -/
inductive Answer
  | object (oid : Oid) (kind : Kind) (content : ByteText)
  | missing

/-- The lines of an input whose lines are all terminated. -/
def inputLines (input : ByteText) : List ByteText :=
  (input.splitOn lineFeed).dropLast

/-- The header of an answer. -/
def header (line : ByteText) : Answer → ByteText
  | .object oid kind content =>
    oid.text ++ blank :: kind.word ++ blank :: decimal content.length
  | .missing => line ++ blank :: ascii "missing"

/-- An answer as it is streamed back. -/
def reply (line : ByteText) : Answer → ByteText
  | .object oid kind content =>
    header line (.object oid kind content) ++ lineFeed :: content ++ [lineFeed]
  | .missing => header line .missing ++ [lineFeed]

/-- `git cat-file --batch`. -/
def catFileBatch (lookup : ByteText → Answer) (input : ByteText) : ByteText :=
  (inputLines input).flatMap fun line => reply line (lookup line)

/-- The name of what is at a path of the commit. -/
def headName (path : ByteText) : ByteText :=
  ascii "HEAD:" ++ path

/-- What the decoder has: the position it is at, and the blobs so far. -/
structure Decoding where
  pos : Int
  blobs : List (ByteText × ByteText)

/-- The body of the loop of `_pointers`; `none` when it raises. -/
def decodeOne (out : ByteText) (state : Decoding) (path : ByteText) : Option Decoding := do
  let nl ← out.index lineFeed state.pos
  match split (out.slice state.pos nl) with
  | _ :: _ :: third :: _ =>
    let size ← toInt third
    let start := nl + 1
    some {
      pos := start + size + 1
      blobs := OrderedDict.set id state.blobs path (out.slice start (start + size)) }
  | _ => some { state with pos := nl + 1 }

/-- `_pointers`; `none` when it raises. -/
def pointers (lookup : ByteText → Answer) : List ByteText → Option (List (ByteText × ByteText))
  | [] => some []
  | paths => do
    let req := terminated lineFeed (paths.map headName)
    let state ← paths.foldlM (decodeOne (catFileBatch lookup req)) { pos := 0, blobs := [] }
    some state.blobs

/-- The bytes of the blob at a path. -/
def blobAt (lookup : ByteText → Answer) (path : ByteText) : Option ByteText :=
  match lookup (headName path) with
  | .object _ .blob content => some content
  | _ => none

/-- The decoder returns the bytes of every blob asked for, and nothing else. -/
def Recovers (lookup : ByteText → Answer) (paths : List ByteText) : Prop :=
  ∃ blobs, pointers lookup paths = some blobs ∧
    ∀ path, OrderedDict.get? id blobs path = if path ∈ paths then blobAt lookup path else none

/-- A path whose answer the decoder can tell: that of a blob, or one that is missing and
whose name is a single word. -/
def Decodable (lookup : ByteText → Answer) (path : ByteText) : Prop :=
  match lookup (headName path) with
  | .object _ kind _ => kind = .blob
  | .missing => (split (headName path)).length = 1

section Framing

variable {lookup : ByteText → Answer} {line head path before after : ByteText} {answer : Answer}
  {state : Decoding}

theorem inputLines_terminated {lines : List ByteText} (plain : ∀ line ∈ lines, lineFeed ∉ line) :
    inputLines (terminated lineFeed lines) = lines := by
  rw [inputLines, splitOn_terminated plain, List.dropLast_concat]

theorem Kind.isWord (kind : Kind) : IsWord kind.word := by
  cases kind <;> exact ⟨by decide, List.all_iff_forall_prop.mp (by decide)⟩

/-- No word has a line feed in it. -/
theorem lineFeed_notMem_word {word : ByteText} (isWord : IsWord word) : lineFeed ∉ word := by
  intro member
  exact absurd (isWord.2 _ member) (by decide)

/-- A header is one line. -/
theorem header_plain (plain : lineFeed ∉ line) : lineFeed ∉ header line answer := by
  have missing : lineFeed ∉ ascii "missing" := by decide
  have notBlank : lineFeed ≠ blank := by decide
  cases answer with
  | object oid kind content =>
    simp [header, notBlank, lineFeed_notMem_word oid.isWord, lineFeed_notMem_word kind.isWord,
      lineFeed_notMem_word (decimal_isWord content.length)]
  | missing => simp [header, notBlank, plain, missing]

/-- The words of the header of an object. -/
theorem split_header_object (oid : Oid) (kind : Kind) (content : ByteText) :
    split (header line (.object oid kind content)) =
      [oid.text, kind.word, decimal content.length] := by
  rw [header, split_append_blank, split_append_blank, split_word oid.isWord,
    split_word kind.isWord, split_word (decimal_isWord _)]
  rfl

/-- The words of the header of what is missing: those of the line come first. -/
theorem split_header_missing : split (header line .missing) = split line ++ [ascii "missing"] := by
  have isWord : IsWord (ascii "missing") := ⟨by decide, List.all_iff_forall_prop.mp (by decide)⟩
  rw [header, split_append_blank, split_word isWord]

/-- A step of the decoder at the beginning of a line. -/
theorem decodeOne_line (plain : lineFeed ∉ head) (there : state.pos = before.length) :
    decodeOne (before ++ head ++ lineFeed :: after) state path =
      match split head with
      | _ :: _ :: third :: _ => (toInt third).map fun size => {
          pos := (before.length + head.length : Int) + 1 + size + 1
          blobs := OrderedDict.set id state.blobs path
            ((before ++ head ++ lineFeed :: after).slice ((before.length + head.length : Int) + 1)
              ((before.length + head.length : Int) + 1 + size)) }
      | _ => some { state with pos := (before.length + head.length : Int) + 1 } := by
  have cut : (before ++ head ++ lineFeed :: after).slice before.length
      (before.length + head.length) = head :=
    slice_piece before head (lineFeed :: after)
  unfold decodeOne
  rw [there, index_line plain before after]
  simp only [Option.bind_eq_bind, Option.bind_some, cut]
  split
  · rename_i third _ _
    cases toInt third <;> rfl
  · rfl

/-- The decoder takes the bytes of an object and goes to the next reply. -/
theorem decodeOne_object {oid : Oid} {kind : Kind} {content : ByteText} (plain : lineFeed ∉ line)
    (there : state.pos = before.length) :
    decodeOne (before ++ reply line (.object oid kind content) ++ after) state path = some {
      pos := ((before ++ reply line (.object oid kind content)).length : Int)
      blobs := OrderedDict.set id state.blobs path content } := by
  have framed : before ++ reply line (.object oid kind content) ++ after =
      before ++ header line (.object oid kind content) ++
        lineFeed :: (content ++ lineFeed :: after) := by
    simp [reply]
  have position : (before.length + (header line (.object oid kind content)).length : Int) + 1 =
      ((before ++ header line (.object oid kind content) ++ [lineFeed]).length : Int) := by
    simp
    omega
  have taken : (before ++ header line (.object oid kind content) ++
      lineFeed :: (content ++ lineFeed :: after)).slice
        ((before ++ header line (.object oid kind content) ++ [lineFeed]).length : Int)
        ((before ++ header line (.object oid kind content) ++ [lineFeed]).length +
          content.length) = content := by
    have piece := slice_piece (before ++ header line (.object oid kind content) ++ [lineFeed])
      content (lineFeed :: after)
    simpa using piece
  have next : ((before ++ reply line (.object oid kind content)).length : Int) =
      ((before ++ header line (.object oid kind content) ++ [lineFeed]).length : Int) +
        content.length + 1 := by
    simp [reply]
    omega
  rw [framed, decodeOne_line (header_plain plain) there, split_header_object]
  simp only [toInt_decimal, Option.map_some, position, taken, next]

/-- The decoder skips what is missing when its name is a single word. -/
theorem decodeOne_missing (plain : lineFeed ∉ line) (single : (split line).length = 1)
    (there : state.pos = before.length) :
    decodeOne (before ++ reply line .missing ++ after) state path = some {
      state with pos := ((before ++ reply line .missing).length : Int) } := by
  have framed : before ++ reply line .missing ++ after =
      before ++ header line .missing ++ lineFeed :: after := by
    simp [reply]
  obtain ⟨word, isWord⟩ := List.length_eq_one_iff.mp single
  rw [framed, decodeOne_line (header_plain plain) there, split_header_missing, isWord]
  simp [reply]
  omega

/-- When the name of what is missing has several words, the decoder raises or invents an
entry. -/
theorem decodeOne_invents (plain : lineFeed ∉ line) (several : 2 ≤ (split line).length)
    (there : state.pos = before.length) :
    decodeOne (before ++ reply line .missing ++ after) state path = none ∨
      ∃ pos value, decodeOne (before ++ reply line .missing ++ after) state path =
        some { pos, blobs := OrderedDict.set id state.blobs path value } := by
  have framed : before ++ reply line .missing ++ after =
      before ++ header line .missing ++ lineFeed :: after := by
    simp [reply]
  have words : ∃ first second third rest,
      split line ++ [ascii "missing"] = first :: second :: third :: rest := by
    match isSplit : split line, several with
    | [first, second], _ => exact ⟨first, second, _, [], rfl⟩
    | first :: second :: third :: rest, _ => exact ⟨first, second, third, _, rfl⟩
  obtain ⟨first, second, third, rest, isWords⟩ := words
  rw [framed, decodeOne_line (header_plain plain) there, split_header_missing, isWords]
  dsimp only
  cases toInt third with
  | none => exact .inl rfl
  | some size => exact .inr ⟨_, _, rfl⟩

end Framing

section Decoder

variable {lookup : ByteText → Answer} {path before after : ByteText} {paths : List ByteText}
  {state : Decoding}

/-- The replies to requests for paths. -/
def replies (lookup : ByteText → Answer) (paths : List ByteText) : ByteText :=
  paths.flatMap fun path => reply (headName path) (lookup (headName path))

/-- The entries with the blob at a path added. -/
def keep (lookup : ByteText → Answer) (blobs : List (ByteText × ByteText)) (path : ByteText) :
    List (ByteText × ByteText) :=
  match blobAt lookup path with
  | some content => OrderedDict.set id blobs path content
  | none => blobs

theorem headName_plain (plain : lineFeed ∉ path) : lineFeed ∉ headName path := by
  have prefixPlain : lineFeed ∉ ascii "HEAD:" := by decide
  simp [headName, plain, prefixPlain]

theorem catFileBatch_heads (plain : ∀ path ∈ paths, lineFeed ∉ path) :
    catFileBatch lookup (terminated lineFeed (paths.map headName)) = replies lookup paths := by
  have plainNames : ∀ line ∈ paths.map headName, lineFeed ∉ line := by
    intro line member
    obtain ⟨path, isPath, rfl⟩ := List.mem_map.mp member
    exact headName_plain (plain path isPath)
  rw [catFileBatch, inputLines_terminated plainNames, replies, List.flatMap_map]

/-- The name of a path begins a word. -/
theorem split_headName_ne_nil (path : ByteText) : split (headName path) ≠ [] :=
  split_cons_ne_nil (by decide) _

/-- The step for a path that can be told. -/
theorem decodeOne_keeps (plain : lineFeed ∉ path) (there : state.pos = before.length)
    (decodable : Decodable lookup path) :
    decodeOne (before ++ reply (headName path) (lookup (headName path)) ++ after) state path =
      some {
        pos := ((before ++ reply (headName path) (lookup (headName path))).length : Int)
        blobs := keep lookup state.blobs path } := by
  unfold Decodable at decodable
  unfold keep blobAt
  cases isAnswer : lookup (headName path) with
  | object oid kind content =>
    rw [isAnswer] at decodable
    obtain rfl : kind = .blob := decodable
    exact decodeOne_object (headName_plain plain) there
  | missing =>
    rw [isAnswer] at decodable
    exact decodeOne_missing (headName_plain plain) decodable there

/-- The step for another path: it raises, or makes an entry for what is no blob. -/
theorem decodeOne_undecodable (after : ByteText) (plain : lineFeed ∉ path) (there : state.pos = before.length)
    (undecodable : ¬Decodable lookup path) :
    blobAt lookup path = none ∧
      (decodeOne (before ++ reply (headName path) (lookup (headName path)) ++ after) state path =
          none ∨
        ∃ pos value,
          decodeOne (before ++ reply (headName path) (lookup (headName path)) ++ after) state path =
            some { pos, blobs := OrderedDict.set id state.blobs path value }) := by
  unfold Decodable at undecodable
  unfold blobAt
  cases isAnswer : lookup (headName path) with
  | object oid kind content =>
    rw [isAnswer] at undecodable
    refine ⟨?_, .inr ⟨_, content, decodeOne_object (headName_plain plain) there⟩⟩
    cases kind with
    | blob => exact absurd rfl undecodable
    | tree | commit | tag => rfl
  | missing =>
    rw [isAnswer] at undecodable
    have some : 0 < (split (headName path)).length :=
      List.length_pos_of_ne_nil (split_headName_ne_nil path)
    have several : 2 ≤ (split (headName path)).length := by
      have notOne : (split (headName path)).length ≠ 1 := undecodable
      omega
    exact ⟨rfl, decodeOne_invents (headName_plain plain) several there⟩

/-- A step keeps the entries that are there. -/
theorem decodeOne_isSome {out : ByteText} {next : Decoding} {key : ByteText}
    (step : decodeOne out state path = some next)
    (there : (OrderedDict.get? id state.blobs key).isSome) :
    (OrderedDict.get? id next.blobs key).isSome := by
  obtain ⟨nl, _, stepped⟩ := Option.bind_eq_some_iff.mp step
  split at stepped
  · obtain ⟨size, _, isNext⟩ := Option.bind_eq_some_iff.mp stepped
    obtain rfl := Option.some.inj isNext
    dsimp only
    rw [OrderedDict.get?_set]
    split
    · rfl
    · exact there
  · obtain rfl := Option.some.inj stepped
    exact there

theorem decode_isSome {out : ByteText} {ended : Decoding} {key : ByteText}
    (run : paths.foldlM (decodeOne out) state = some ended)
    (there : (OrderedDict.get? id state.blobs key).isSome) :
    (OrderedDict.get? id ended.blobs key).isSome := by
  induction paths generalizing state with
  | nil =>
    obtain rfl := Option.some.inj run
    exact there
  | cons path rest ih =>
    rw [List.foldlM_cons] at run
    obtain ⟨next, step, later⟩ := Option.bind_eq_some_iff.mp run
    exact ih later (decodeOne_isSome step there)

/-- Paths that can be told are decoded one after the other. -/
theorem decode_keeps (plain : ∀ path ∈ paths, lineFeed ∉ path)
    (decodable : ∀ path ∈ paths, Decodable lookup path) (there : state.pos = before.length) :
    paths.foldlM (decodeOne (before ++ replies lookup paths)) state = some {
      pos := ((before ++ replies lookup paths).length : Int)
      blobs := paths.foldl (keep lookup) state.blobs } := by
  induction paths generalizing before state with
  | nil => simp [replies, ← there]
  | cons path rest ih =>
    rw [List.forall_mem_cons] at plain decodable
    let through := before ++ reply (headName path) (lookup (headName path))
    let next : Decoding := { pos := (through.length : Int), blobs := keep lookup state.blobs path }
    have framed : before ++ replies lookup (path :: rest) = through ++ replies lookup rest := by
      simp [replies, through]
    have step : decodeOne (through ++ replies lookup rest) state path = some next :=
      decodeOne_keeps plain.1 there decodable.1
    have later : rest.foldlM (decodeOne (through ++ replies lookup rest)) next = some {
        pos := ((through ++ replies lookup rest).length : Int)
        blobs := rest.foldl (keep lookup) next.blobs } := ih plain.2 decodable.2 rfl
    rw [List.foldlM_cons, framed, step, Option.bind_eq_bind, Option.bind_some, later]
    rfl

theorem get?_keep (blobs : List (ByteText × ByteText)) (path key : ByteText) :
    OrderedDict.get? id (keep lookup blobs path) key =
      if path = key then (blobAt lookup key).or (OrderedDict.get? id blobs key)
      else OrderedDict.get? id blobs key := by
  unfold keep
  cases isBlob : blobAt lookup path with
  | some content =>
    dsimp only
    rw [OrderedDict.get?_set]
    by_cases same : path = key
    · subst same
      simp [isBlob]
    · simp [same]
  | none =>
    by_cases same : path = key
    · subst same
      simp [isBlob]
    · simp [same]

theorem get?_keeps (blobs : List (ByteText × ByteText)) (paths : List ByteText) (key : ByteText) :
    OrderedDict.get? id (paths.foldl (keep lookup) blobs) key =
      if key ∈ paths then (blobAt lookup key).or (OrderedDict.get? id blobs key)
      else OrderedDict.get? id blobs key := by
  induction paths generalizing blobs with
  | nil => simp
  | cons path rest ih =>
    rw [List.foldl_cons, ih, get?_keep]
    by_cases here : path = key
    · subst here
      cases blobAt lookup path <;> simp
    · have other : key ≠ path := Ne.symm here
      simp [here, other]

/-- The decoder at the first path that cannot be told. -/
theorem decode_undecodable (plain : ∀ path ∈ paths, lineFeed ∉ path)
    (undecodable : ∃ path ∈ paths, ¬Decodable lookup path) {ended : Decoding}
    (there : state.pos = before.length)
    (run : paths.foldlM (decodeOne (before ++ replies lookup paths)) state = some ended) :
    ∃ path ∈ paths, blobAt lookup path = none ∧ (OrderedDict.get? id ended.blobs path).isSome := by
  induction paths generalizing before state with
  | nil => simp at undecodable
  | cons path rest ih =>
    rw [List.forall_mem_cons] at plain
    have framed : before ++ replies lookup (path :: rest) =
        before ++ reply (headName path) (lookup (headName path)) ++ replies lookup rest := by
      simp [replies]
    rw [List.foldlM_cons, framed] at run
    obtain ⟨next, step, later⟩ := Option.bind_eq_some_iff.mp run
    by_cases here : Decodable lookup path
    · rw [decodeOne_keeps plain.1 there here] at step
      obtain rfl := Option.some.inj step
      have undecodableRest : ∃ path ∈ rest, ¬Decodable lookup path := by
        obtain ⟨other, member, isOther⟩ := undecodable
        rcases List.mem_cons.mp member with rfl | inRest
        · exact absurd here isOther
        · exact ⟨other, inRest, isOther⟩
      obtain ⟨other, member, noBlob, isThere⟩ := ih plain.2 undecodableRest rfl later
      exact ⟨other, List.mem_cons_of_mem _ member, noBlob, isThere⟩
    · obtain ⟨noBlob, raises | ⟨pos, value, invents⟩⟩ :=
        decodeOne_undecodable (replies lookup rest) plain.1 there here
      · rw [raises] at step
        exact absurd step (by simp)
      · rw [invents] at step
        obtain rfl := Option.some.inj step
        refine ⟨path, List.mem_cons_self, noBlob, decode_isSome later ?_⟩
        rw [OrderedDict.get?_set, if_pos rfl]
        rfl

/-- `_pointers` decodes the replies from the first one on. -/
theorem pointers_eq (plain : ∀ path ∈ paths, lineFeed ∉ path) :
    pointers lookup paths =
      (paths.foldlM (decodeOne (replies lookup paths)) { pos := 0, blobs := [] }).map
        Decoding.blobs := by
  cases paths with
  | nil => rfl
  | cons path rest =>
    rw [pointers, catFileBatch_heads plain]
    · cases (path :: rest).foldlM (decodeOne (replies lookup (path :: rest)))
        { pos := 0, blobs := [] } <;> rfl
    · exact List.cons_ne_nil path rest

/-- Paths that can be told are all recovered. -/
theorem recovers_of_decodable (plain : ∀ path ∈ paths, lineFeed ∉ path)
    (decodable : ∀ path ∈ paths, Decodable lookup path) : Recovers lookup paths := by
  refine ⟨paths.foldl (keep lookup) [], ?_, fun path => ?_⟩
  · have decoded : paths.foldlM (decodeOne ([] ++ replies lookup paths))
        { pos := 0, blobs := [] } = some _ := decode_keeps plain decodable rfl
    rw [List.nil_append] at decoded
    rw [pointers_eq plain, decoded]
    rfl
  · rw [get?_keeps]
    simp [OrderedDict.get?]

end Decoder

end MastProvisioning.TreeIntegrity
