import Mathlib.Data.List.Basic

/-!
# Texts made of terminated lines

A text that puts a mark after every line determines the lines, when no line has the
mark in it. Lines that begin with tags may have the mark in them, as long as no tag
follows it; the closing line may have anything in it.
-/

namespace MastProvisioning.Collections

universe u

variable {Symbol : Type u}

/-- The lines, each followed by a mark. -/
def terminated (mark : Symbol) (lines : List (List Symbol)) : List Symbol :=
  lines.flatMap (· ++ [mark])

theorem terminated_cons (mark : Symbol) (line : List Symbol) (rest : List (List Symbol)) :
    terminated mark (line :: rest) = line ++ mark :: terminated mark rest := by
  simp [terminated]

theorem terminated_append (mark : Symbol) (lines others : List (List Symbol)) :
    terminated mark (lines ++ others) = terminated mark lines ++ terminated mark others :=
  List.flatMap_append

/-- The first mark ends the first line. -/
theorem line_injective {mark : Symbol} {line other rest more : List Symbol} (plain : mark ∉ line)
    (plainOther : mark ∉ other) (same : line ++ mark :: rest = other ++ mark :: more) :
    line = other ∧ rest = more := by
  induction line generalizing other with
  | nil =>
    cases other with
    | nil => exact ⟨rfl, (List.cons.inj same).2⟩
    | cons symbol symbols => exact absurd ((List.cons.inj same).1 ▸ List.mem_cons_self) plainOther
  | cons symbol symbols ih =>
    rw [List.mem_cons, not_or] at plain
    cases other with
    | nil => exact absurd (List.cons.inj same).1.symm plain.1
    | cons head tail =>
      rw [List.mem_cons, not_or] at plainOther
      obtain ⟨sameHead, sameTail⟩ := List.cons.inj same
      obtain ⟨rfl, sameRest⟩ := ih plain.2 plainOther.2 sameTail
      exact ⟨by rw [sameHead], sameRest⟩

theorem terminated_injective {mark : Symbol} {first second : List (List Symbol)}
    (plain : ∀ line ∈ first, mark ∉ line) (plainSecond : ∀ line ∈ second, mark ∉ line)
    (same : terminated mark first = terminated mark second) : first = second := by
  induction first generalizing second with
  | nil =>
    cases second with
    | nil => rfl
    | cons line rest =>
      rw [terminated_cons] at same
      simp [terminated] at same
  | cons line rest ih =>
    cases second with
    | nil =>
      rw [terminated_cons] at same
      simp [terminated] at same
    | cons other more =>
      rw [List.forall_mem_cons] at plain plainSecond
      rw [terminated_cons, terminated_cons] at same
      obtain ⟨sameLine, sameRest⟩ := line_injective plain.1 plainSecond.1 same
      rw [sameLine, ih plain.2 plainSecond.2 sameRest]

/-- Lines with a mark between them, and one more mark. -/
theorem intercalate_mark {mark : Symbol} {lines : List (List Symbol)} (nonempty : lines ≠ []) :
    [mark].intercalate lines ++ [mark] = terminated mark lines := by
  obtain ⟨line, rest, rfl⟩ := List.exists_cons_of_ne_nil nonempty
  induction rest generalizing line with
  | nil => simp [terminated]
  | cons second rest ih =>
    rw [List.intercalate_cons_cons, List.append_assoc, ih second (by simp), terminated_cons mark line]
    simp

/-- A text that puts a mark between lines determines the lines, when none is empty and no
line has the mark in it. -/
theorem intercalate_injective {mark : Symbol} {first second : List (List Symbol)}
    (plain : ∀ line ∈ first, line ≠ [] ∧ mark ∉ line)
    (plainSecond : ∀ line ∈ second, line ≠ [] ∧ mark ∉ line)
    (same : [mark].intercalate first = [mark].intercalate second) : first = second := by
  have filled : ∀ {lines : List (List Symbol)}, (∀ line ∈ lines, line ≠ [] ∧ mark ∉ line) →
      [mark].intercalate lines = [] → lines = [] := by
    intro lines plain nothing
    by_contra nonempty
    have marked : [mark].intercalate lines ++ [mark] = terminated mark lines :=
      intercalate_mark nonempty
    obtain ⟨line, rest, rfl⟩ := List.exists_cons_of_ne_nil nonempty
    obtain ⟨symbol, symbols, isLine⟩ := List.exists_cons_of_ne_nil (plain line List.mem_cons_self).1
    rw [nothing, terminated_cons, isLine] at marked
    simp at marked
  by_cases none : first = []
  · rw [none] at same ⊢
    exact (filled plainSecond same.symm).symm
  · have some : second ≠ [] := by
      rintro rfl
      exact none (filled plain same)
    apply terminated_injective (fun line member => (plain line member).2)
      fun line member => (plainSecond line member).2
    rw [← intercalate_mark none, same, intercalate_mark some]

section Tagged

variable {mark : Symbol} {tags : List (List Symbol)} {close : List Symbol}
  {line other rest more : List Symbol}

/-- A line that could be taken for two: a tag follows a mark in it. -/
def Forges (mark : Symbol) (tags : List (List Symbol)) (line : List Symbol) : Prop :=
  ∃ tag ∈ tags, mark :: tag <:+: line

/-- What a first line can be when a text is read in two ways. -/
theorem first_line (same : line ++ mark :: rest = other ++ mark :: more) :
    (line = other ∧ rest = more) ∨
      (∃ left, other = line ++ mark :: left ∧ rest = left ++ mark :: more) ∨
      ∃ left, line = other ++ mark :: left ∧ more = left ++ mark :: rest := by
  rcases List.append_eq_append_iff.mp same with ⟨left, isOther, isRest⟩ | ⟨left, isLine, isMore⟩
  · cases left with
    | nil => exact .inl ⟨by simpa using isOther.symm, (List.cons.inj isRest).2⟩
    | cons symbol left =>
      obtain ⟨rfl, isLater⟩ := List.cons.inj isRest
      exact .inr (.inl ⟨left, isOther, isLater⟩)
  · cases left with
    | nil => exact .inl ⟨by simpa using isLine, (List.cons.inj isMore).2.symm⟩
    | cons symbol left =>
      obtain ⟨rfl, isLater⟩ := List.cons.inj isMore
      exact .inr (.inr ⟨left, isLine, isLater⟩)

/-- A tag ends before the mark. -/
theorem prefix_of_marked {tag : List Symbol} (plain : mark ∉ tag)
    (isPrefix : tag <+: line ++ mark :: rest) : tag <+: line := by
  obtain ⟨after, same⟩ := isPrefix
  rcases List.append_eq_append_iff.mp same with ⟨left, isLine, _⟩ | ⟨left, isTag, isRest⟩
  · exact ⟨left, isLine.symm⟩
  · cases left with
    | nil => exact ⟨[], by simpa using isTag⟩
    | cons symbol left =>
      obtain ⟨rfl, _⟩ := List.cons.inj isRest
      exact absurd (isTag ▸ List.mem_append_right _ List.mem_cons_self) plain

/-- A line that goes on where another ends has the tag of the next line in it. -/
theorem forges_of_longer {left : List Symbol} {lines : List (List Symbol)}
    (plain : ∀ tag ∈ tags, mark ∉ tag) (nonempty : lines ≠ [])
    (tagged : ∀ line ∈ lines, ∃ tag ∈ tags, tag <+: line)
    (longer : other = line ++ mark :: left)
    (same : terminated mark lines = left ++ mark :: more) : Forges mark tags other := by
  obtain ⟨next, later, rfl⟩ := List.exists_cons_of_ne_nil nonempty
  obtain ⟨tag, isTag, isPrefix⟩ := tagged next List.mem_cons_self
  rw [terminated_cons] at same
  have starts : tag <+: left ++ mark :: more := same ▸ isPrefix.trans (List.prefix_append _ _)
  obtain ⟨after, rfl⟩ := prefix_of_marked (plain tag isTag) starts
  exact ⟨tag, isTag, line, after, by simp [longer]⟩

/-- A text of tagged lines and a closing one is read in one way. -/
theorem terminated_closed_injective (plain : ∀ tag ∈ close :: tags, mark ∉ tag)
    (apart : ∀ tag ∈ tags, ¬ tag <+: close ∧ ¬ close <+: tag)
    {lines others : List (List Symbol)} {closing closingOther : List Symbol}
    (tagged : ∀ line ∈ lines, ∃ tag ∈ tags, tag <+: line)
    (taggedOther : ∀ line ∈ others, ∃ tag ∈ tags, tag <+: line)
    (genuine : ∀ line ∈ lines, ¬Forges mark (close :: tags) line)
    (genuineOther : ∀ line ∈ others, ¬Forges mark (close :: tags) line)
    (closes : close <+: closing) (closesOther : close <+: closingOther)
    (same : terminated mark (lines ++ [closing]) = terminated mark (others ++ [closingOther])) :
    lines = others ∧ closing = closingOther := by
  have withClosing {lines : List (List Symbol)} {closing : List Symbol}
      (tagged : ∀ line ∈ lines, ∃ tag ∈ tags, tag <+: line) (closes : close <+: closing) :
      ∀ line ∈ lines ++ [closing], ∃ tag ∈ close :: tags, tag <+: line := by
    intro line member
    rcases List.mem_append.mp member with inLines | isClosing
    · obtain ⟨tag, isTag, isPrefix⟩ := tagged line inLines
      exact ⟨tag, List.mem_cons_of_mem _ isTag, isPrefix⟩
    · exact ⟨close, List.mem_cons_self, List.mem_singleton.mp isClosing ▸ closes⟩
  -- No line has a tag and is, or begins, a closing one.
  have clash {line closing : List Symbol} (tagged : ∃ tag ∈ tags, tag <+: line)
      (within : line <+: closing) (closes : close <+: closing) : False := by
    obtain ⟨tag, isTag, isPrefix⟩ := tagged
    rcases List.prefix_or_prefix_of_prefix (isPrefix.trans within) closes with shorter | longer
    · exact (apart tag isTag).1 shorter
    · exact (apart tag isTag).2 longer
  induction lines generalizing others with
  | nil =>
    cases others with
    | nil => exact ⟨rfl, by simpa [terminated] using same⟩
    | cons other others =>
      have head := taggedOther other List.mem_cons_self
      rw [List.nil_append, List.cons_append, terminated_cons, terminated_cons] at same
      rcases first_line same with ⟨rfl, _⟩ | ⟨left, _, isRest⟩ | ⟨left, isLine, _⟩
      · exact (clash head List.prefix_rfl closes).elim
      · simp [terminated] at isRest
      · exact (clash head ⟨_, isLine.symm⟩ closes).elim
  | cons line lines ih =>
    have head := tagged line List.mem_cons_self
    cases others with
    | nil =>
      rw [List.nil_append, List.cons_append, terminated_cons, terminated_cons] at same
      rcases first_line same with ⟨rfl, _⟩ | ⟨left, isOther, _⟩ | ⟨left, _, isRest⟩
      · exact (clash head List.prefix_rfl closesOther).elim
      · exact (clash head ⟨_, isOther.symm⟩ closesOther).elim
      · simp [terminated] at isRest
    | cons other others =>
      rw [List.forall_mem_cons] at tagged taggedOther genuine genuineOther
      rw [List.cons_append, List.cons_append, terminated_cons, terminated_cons] at same
      rcases first_line same with ⟨rfl, rest⟩ | ⟨left, isOther, isRest⟩ | ⟨left, isLine, isRest⟩
      · obtain ⟨rfl, sameClosing⟩ := ih tagged.2 taggedOther.2 genuine.2 genuineOther.2 rest
        exact ⟨rfl, sameClosing⟩
      · exact absurd (forges_of_longer plain (by simp) (withClosing tagged.2 closes) isOther isRest)
          genuineOther.1
      · exact absurd
          (forges_of_longer plain (by simp) (withClosing taggedOther.2 closesOther) isLine isRest)
          genuine.1

end Tagged

end MastProvisioning.Collections
