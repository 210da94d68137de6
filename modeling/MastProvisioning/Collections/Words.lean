import Mathlib.Data.List.DropRight
import MastProvisioning.Collections.Lines

/-!
# Pieces and words of a text

`List.splitOn` cuts a text at every mark and keeps the empty pieces; the words are the
pieces that are not empty. Readers that take a run of marks for one see the words,
one at a time: `takeWord` is their step.
-/

namespace MastProvisioning.Collections

universe u

variable {Symbol : Type u} [DecidableEq Symbol] {mark : Symbol}

/-- The pieces between marks that are not empty. -/
def words (mark : Symbol) (text : List Symbol) : List (List Symbol) :=
  (text.splitOn mark).filter fun piece => piece ≠ []

/-- The text up to a mark, and what follows the run of marks. -/
def takeWord (mark : Symbol) (text : List Symbol) : List Symbol × List Symbol :=
  (text.takeWhile (· ≠ mark), (text.dropWhile (· ≠ mark)).dropWhile (· = mark))

/-- The text does not begin with a mark. -/
def Unmarked (mark : Symbol) (text : List Symbol) : Prop :=
  text.dropWhile (· = mark) = text

section Pieces

theorem not_mem_of_mem_splitOn {text piece : List Symbol} (member : piece ∈ text.splitOn mark) :
    mark ∉ piece := by
  induction text generalizing piece with
  | nil =>
    rw [List.splitOn_nil, List.mem_singleton] at member
    subst member
    exact List.not_mem_nil
  | cons symbol rest ih =>
    rw [List.splitOn_cons_eq_if_modifyHead] at member
    split at member
    · rcases List.mem_cons.mp member with rfl | later
      · exact List.not_mem_nil
      · exact ih later
    · rename_i other
      obtain ⟨first, more, pieces⟩ := List.exists_cons_of_ne_nil (List.splitOn_ne_nil mark rest)
      rw [pieces] at member ih
      rcases List.mem_cons.mp member with rfl | later
      · rw [List.mem_cons, not_or]
        exact ⟨fun same => other (by simp [same]), ih List.mem_cons_self⟩
      · exact ih (List.mem_cons_of_mem _ later)

omit [DecidableEq Symbol] in
/-- A piece stands in what is joined of it. -/
theorem infix_intercalate {pieces : List (List Symbol)} {piece : List Symbol}
    (member : piece ∈ pieces) : piece <:+: [mark].intercalate pieces := by
  induction pieces with
  | nil => cases member
  | cons first rest ih =>
    cases rest with
    | nil => simp [List.mem_singleton.mp member, List.intercalate_singleton]
    | cons next rest =>
      rw [List.intercalate_cons_cons]
      rcases List.mem_cons.mp member with rfl | later
      · exact ⟨[], [mark] ++ [mark].intercalate (next :: rest), by simp⟩
      · exact (ih later).trans (List.suffix_append _ _).isInfix

theorem infix_of_mem_splitOn {text piece : List Symbol} (member : piece ∈ text.splitOn mark) :
    piece <:+: text := by
  have joined : [mark].intercalate (text.splitOn mark) = text := List.intercalate_splitOn mark
  rw [← joined]
  exact infix_intercalate member

/-- A piece has no symbol that the text has not. -/
theorem mem_of_mem_splitOn {text piece : List Symbol} (member : piece ∈ text.splitOn mark)
    {symbol : Symbol} (inPiece : symbol ∈ piece) : symbol ∈ text :=
  (infix_of_mem_splitOn member).subset inPiece

/-- The pieces, each ended by a mark, are the text ended by one. -/
theorem terminated_splitOn (mark : Symbol) (text : List Symbol) :
    terminated mark (text.splitOn mark) = text ++ [mark] := by
  induction text with
  | nil => simp [terminated]
  | cons symbol rest ih =>
    rw [List.splitOn_cons_eq_if_modifyHead]
    split
    · rename_i same
      rw [terminated_cons, ih, eq_of_beq same]
      rfl
    · obtain ⟨first, more, pieces⟩ := List.exists_cons_of_ne_nil (List.splitOn_ne_nil mark rest)
      rw [pieces, terminated_cons] at ih
      rw [pieces, List.modifyHead_cons, terminated_cons, List.cons_append, ih, List.cons_append]

/-- Lines that are each ended by a mark are cut as they were. -/
theorem splitOn_terminated {lines : List (List Symbol)} (plain : ∀ line ∈ lines, mark ∉ line) :
    (terminated mark lines).splitOn mark = lines ++ [[]] := by
  induction lines with
  | nil => rfl
  | cons line rest ih =>
    rw [List.forall_mem_cons] at plain
    rw [terminated_cons, List.splitOn_append_cons_self_of_not_mem plain.1, ih plain.2]
    rfl

theorem count_terminated {lines : List (List Symbol)} (plain : ∀ line ∈ lines, mark ∉ line) :
    (terminated mark lines).count mark = lines.length := by
  induction lines with
  | nil => rfl
  | cons line rest ih =>
    rw [List.forall_mem_cons] at plain
    rw [terminated_cons, List.count_append, List.count_eq_zero_of_not_mem plain.1,
      List.count_cons_self, ih plain.2, List.length_cons, Nat.zero_add]

/-- There is a piece more than there are marks. -/
theorem length_splitOn (mark : Symbol) (text : List Symbol) :
    (text.splitOn mark).length = text.count mark + 1 := by
  rw [← count_terminated fun _ => not_mem_of_mem_splitOn, terminated_splitOn, List.count_append]
  simp

omit [DecidableEq Symbol] in
theorem mark_cons_of_not_mem {name rest before after : List Symbol} (plain : mark ∉ name)
    (same : before ++ mark :: after = name ++ mark :: rest) :
    before = name ∧ after = rest ∨ ∃ inner, before = name ++ mark :: inner ∧
      inner ++ mark :: after = rest := by
  induction name generalizing before with
  | nil =>
    cases before with
    | nil => exact .inl ⟨rfl, (List.cons.inj same).2⟩
    | cons symbol inner =>
      obtain ⟨rfl, shape⟩ := List.cons.inj same
      exact .inr ⟨inner, rfl, shape⟩
  | cons symbol name ih =>
    rw [List.mem_cons, not_or] at plain
    cases before with
    | nil => exact absurd (List.cons.inj same).1 plain.1
    | cons first before =>
      obtain ⟨rfl, shape⟩ := List.cons.inj same
      rcases ih plain.2 shape with ⟨rfl, rfl⟩ | ⟨inner, rfl, rest⟩
      · exact .inl ⟨rfl, rfl⟩
      · exact .inr ⟨inner, rfl, rest⟩

omit [DecidableEq Symbol] in
/-- A mark may be counted to the text after it as well as to the one before. -/
theorem mark_terminated (names : List (List Symbol)) :
    mark :: terminated mark names = (names.flatMap fun name => mark :: name) ++ [mark] := by
  induction names with
  | nil => rfl
  | cons name rest ih =>
    rw [terminated_cons, List.flatMap_cons, List.append_assoc, ← ih]
    rfl

omit [DecidableEq Symbol] in
/-- Between marks stand the pieces and nothing else. -/
theorem marked_infix_iff {name : List Symbol} {names : List (List Symbol)} (plain : mark ∉ name)
    (plainNames : ∀ other ∈ names, mark ∉ other) :
    mark :: (name ++ [mark]) <:+: mark :: terminated mark names ↔ name ∈ names := by
  constructor
  · rintro ⟨before, after, shape⟩
    induction names generalizing before with
    | nil =>
      have lengths := congrArg List.length shape
      simp [terminated] at lengths
      omega
    | cons other rest ih =>
      rw [terminated_cons] at shape
      obtain ⟨plainOther, plainRest⟩ := List.forall_mem_cons.mp plainNames
      cases before with
      | nil =>
        simp only [List.nil_append, List.cons_append, List.append_assoc, List.cons.injEq,
          true_and] at shape
        exact List.mem_cons.mpr (.inl (line_injective plain plainOther shape).1)
      | cons first before =>
        have tail : before ++ mark :: (name ++ mark :: after) =
            other ++ mark :: terminated mark rest := by
          have := (List.cons.inj shape).2
          simpa using this
        rcases mark_cons_of_not_mem plainOther tail with ⟨-, here⟩ | ⟨inner, -, later⟩
        · refine List.mem_cons_of_mem _ (ih plainRest [] ?_)
          simpa using here
        · refine List.mem_cons_of_mem _ (ih plainRest (mark :: inner) ?_)
          simpa using later
  · intro member
    obtain ⟨front, rest, rfl⟩ := List.append_of_mem member
    have shape : mark :: terminated mark (front ++ name :: rest) =
        (mark :: terminated mark front) ++ (name ++ mark :: terminated mark rest) := by
      simp [terminated]
    refine ⟨front.flatMap fun other => mark :: other, terminated mark rest, ?_⟩
    rw [shape, mark_terminated front]
    simp

end Pieces

section Joined

omit [DecidableEq Symbol] in
/-- What is in joined pieces is in one of them, or is the mark they are joined by. -/
theorem mem_intercalate {pieces : List (List Symbol)} {symbol : Symbol} (other : symbol ≠ mark) :
    symbol ∈ [mark].intercalate pieces ↔ ∃ piece ∈ pieces, symbol ∈ piece := by
  induction pieces with
  | nil => simp [List.intercalate_nil]
  | cons piece rest ih =>
    cases rest with
    | nil => simp [List.intercalate_singleton]
    | cons next rest =>
      rw [List.intercalate_cons_cons, List.mem_append, List.mem_append, ih,
        List.exists_mem_cons_iff]
      simp [other]

omit [DecidableEq Symbol] in
theorem mem_intercalate_of_mem {pieces : List (List Symbol)} {piece : List Symbol} {symbol : Symbol}
    (isPiece : piece ∈ pieces) (member : symbol ∈ piece) : symbol ∈ [mark].intercalate pieces := by
  by_cases isMark : symbol = mark
  · subst isMark
    induction pieces with
    | nil => cases isPiece
    | cons first rest ih =>
      cases rest with
      | nil => simpa [List.intercalate_singleton, List.mem_singleton.mp isPiece] using member
      | cons next rest => simp [List.intercalate_cons_cons]
  · exact (mem_intercalate isMark).mpr ⟨piece, isPiece, member⟩

end Joined

section Words

theorem words_nil : words mark [] = [] := rfl

theorem words_mark_cons (rest : List Symbol) : words mark (mark :: rest) = words mark rest := by
  unfold words
  rw [List.splitOn_cons_eq_if_modifyHead, if_pos (beq_self_eq_true mark)]
  rfl

/-- Leading marks make no word. -/
theorem words_dropWhile (text : List Symbol) :
    words mark (text.dropWhile (· = mark)) = words mark text := by
  induction text with
  | nil => rfl
  | cons symbol rest ih =>
    rw [List.dropWhile_cons]
    split
    · rename_i same
      rw [ih, of_decide_eq_true same, words_mark_cons]
    · rfl

theorem unmarked_dropWhile (mark : Symbol) (text : List Symbol) : Unmarked mark (text.dropWhile (· = mark)) := by
  unfold Unmarked
  induction text with
  | nil => rfl
  | cons symbol rest ih =>
    by_cases same : symbol = mark
    · simpa [same] using ih
    · simp [same]

theorem unmarked_takeWord (mark : Symbol) (text : List Symbol) : Unmarked mark (takeWord mark text).2 :=
  unmarked_dropWhile mark _

/-- A text is its first piece, and what begins with the mark after it. -/
theorem takeWhile_cases (mark : Symbol) (text : List Symbol) :
    mark ∉ text.takeWhile (· ≠ mark) ∧
      (text.dropWhile (· ≠ mark) = [] ∨ ∃ rest, text.dropWhile (· ≠ mark) = mark :: rest) := by
  induction text with
  | nil => simp
  | cons symbol rest ih =>
    by_cases same : symbol = mark
    · simp [same]
    · simpa [same, Ne.symm same] using ih

/-- `takeWord` takes the first word off the words. -/
theorem words_takeWord {text : List Symbol} (unmarked : Unmarked mark text) (some : text ≠ []) :
    (takeWord mark text).1 ≠ [] ∧
      words mark text = (takeWord mark text).1 :: words mark (takeWord mark text).2 := by
  obtain ⟨symbol, rest, rfl⟩ := List.exists_cons_of_ne_nil some
  have other : symbol ≠ mark := by
    intro same
    have shorter := congrArg List.length unmarked
    have bound := (List.dropWhile_sublist (fun x => decide (x = mark)) (l := rest)).length_le
    simp only [same, List.dropWhile_cons, decide_true, if_true, List.length_cons] at shorter
    omega
  obtain ⟨plain, ending⟩ := takeWhile_cases mark (symbol :: rest)
  have nonempty : (symbol :: rest).takeWhile (· ≠ mark) ≠ [] := by simp [other]
  have parts : (symbol :: rest).takeWhile (· ≠ mark) ++ (symbol :: rest).dropWhile (· ≠ mark) =
      symbol :: rest := List.takeWhile_append_dropWhile
  unfold takeWord
  refine ⟨nonempty, ?_⟩
  rw [words_dropWhile]
  conv_lhs => rw [← parts]
  rcases ending with nothing | ⟨after, marked⟩
  · rw [nothing, List.append_nil, words, List.splitOn_eq_singleton plain, words_nil,
      List.filter_cons_of_pos (by simpa using nonempty), List.filter_nil]
  · rw [marked, words_mark_cons, words, words, List.splitOn_append_cons_self_of_not_mem plain,
      List.filter_cons_of_pos (by simpa using nonempty)]

/-- What `takeWord` takes and leaves of a text that does not begin with a mark. -/
theorem takeWord_spec {text : List Symbol} (unmarked : Unmarked mark text) :
    (takeWord mark text).1 = (words mark text).headD [] ∧
      words mark (takeWord mark text).2 = (words mark text).tail := by
  by_cases some : text = []
  · subst some
    exact ⟨rfl, rfl⟩
  · rw [(words_takeWord unmarked some).2]
    exact ⟨rfl, rfl⟩

theorem words_append_mark (text : List Symbol) : words mark (text ++ [mark]) = words mark text := by
  unfold words
  rw [List.splitOn_append_cons_self, List.filter_append]
  simp

/-- Marks at the end make no word. -/
theorem words_rdropWhile (text : List Symbol) :
    words mark (text.rdropWhile (· = mark)) = words mark text := by
  induction text using List.reverseRecOn with
  | nil => rfl
  | append_singleton text symbol ih =>
    rw [List.rdropWhile_concat]
    split
    · rename_i same
      rw [ih, of_decide_eq_true same, words_append_mark]
    · rfl

/-- A text without words is marks only. -/
theorem eq_mark_of_words_eq_nil {text : List Symbol} (none : words mark text = []) :
    ∀ symbol ∈ text, symbol = mark := by
  have nothing : text.dropWhile (· = mark) = [] := by
    by_contra some
    have first := (words_takeWord (unmarked_dropWhile mark text) some).2
    rw [words_dropWhile, none] at first
    cases first
  intro symbol member
  exact of_decide_eq_true (List.dropWhile_eq_nil_iff.mp nothing symbol member)

/-- A text of one word, without the marks after it, is the word. -/
theorem rdropWhile_of_words {text word : List Symbol} (unmarked : Unmarked mark text)
    (single : words mark text = [word]) : text.rdropWhile (· = mark) = word := by
  have some : text ≠ [] := by
    rintro rfl
    cases single
  obtain ⟨nonempty, first⟩ := words_takeWord unmarked some
  obtain ⟨isWord, noMore⟩ := List.cons.inj (single.symm.trans first)
  have tail : ∀ symbol ∈ text.dropWhile (· ≠ mark), symbol = mark := by
    refine eq_mark_of_words_eq_nil ?_
    rw [← words_dropWhile]
    exact noMore.symm
  have plain := (takeWhile_cases mark text).1
  have parts : text.takeWhile (· ≠ mark) ++ text.dropWhile (· ≠ mark) = text :=
    List.takeWhile_append_dropWhile
  have stripped : text.rdropWhile (· = mark) = (text.takeWhile (· ≠ mark)).rdropWhile (· = mark) := by
    conv_lhs => rw [← parts]
    rw [List.rdropWhile, List.reverse_append, List.dropWhile_append_of_pos]
    · rfl
    · intro symbol member
      exact decide_eq_true (tail symbol (List.mem_reverse.mp member))
  have whole : (text.takeWhile (· ≠ mark)).rdropWhile (· = mark) = text.takeWhile (· ≠ mark) := by
    refine List.rdropWhile_eq_self_iff.mpr fun nonempty marked => ?_
    have last := List.getLast_mem nonempty
    rw [of_decide_eq_true marked] at last
    exact plain last
  rw [stripped, whole]
  exact isWord.symm

end Words

end MastProvisioning.Collections
