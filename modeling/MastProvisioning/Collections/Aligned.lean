import Mathlib

/-!
# Lists that correspond place by place

Two lists are aligned when their entries correspond, one by one. The lists that a reading can fail
on are aligned with what was read; sorting keeps lists aligned when it does not tell
corresponding entries apart; and two texts put together of aligned pieces that differ in one
place are equal exactly when the pieces are.
-/

namespace MastProvisioning.Collections

variable {Item Value Other Fault : Type*}

/-- Two readings, one after the other, without a fault. -/
theorem bind_eq_ok.{u} {First Second : Type u} {read : Except Fault First}
    {next : First → Except Fault Second} {result : Second} :
    read >>= next = .ok result ↔ ∃ value, read = .ok value ∧ next value = .ok result := by
  cases read with
  | error fault =>
    constructor
    · rintro ⟨⟩
    · rintro ⟨value, ⟨⟩, -⟩
  | ok value =>
    constructor
    · exact fun reads => ⟨value, rfl, reads⟩
    · rintro ⟨_, ⟨⟩, reads⟩
      exact reads

/-- A list that is read from the front without a fault. -/
theorem mapM_eq_ok {read : Item → Except Fault Value} {items : List Item} {values : List Value} :
    items.mapM read = .ok values ↔
      List.Forall₂ (fun item value => read item = .ok value) items values := by
  induction items generalizing values with
  | nil =>
    rw [List.mapM_nil, List.forall₂_nil_left_iff]
    exact ⟨fun same => (Except.ok.inj same).symm, fun same => congrArg Except.ok same.symm⟩
  | cons item items hypothesis =>
    rw [List.mapM_cons, List.forall₂_cons_left_iff]
    constructor
    · intro reads
      obtain ⟨value, first, reads⟩ := bind_eq_ok.mp reads
      obtain ⟨more, later, reads⟩ := bind_eq_ok.mp reads
      exact ⟨value, more, first, hypothesis.mp later, (Except.ok.inj reads).symm⟩
    · rintro ⟨value, more, first, later, rfl⟩
      rw [first, hypothesis.mpr later]
      rfl

/-- Every entry corresponds to one of the other list. -/
theorem aligned_mem {Corresponds : Item → Value → Prop} {items : List Item} {values : List Value}
    (aligned : List.Forall₂ Corresponds items values) :
    (∀ item ∈ items, ∃ value ∈ values, Corresponds item value) ∧
      ∀ value ∈ values, ∃ item ∈ items, Corresponds item value := by
  induction aligned with
  | nil => exact ⟨by rintro item ⟨⟩, by rintro value ⟨⟩⟩
  | cons first _ hypothesis =>
    refine ⟨List.forall_mem_cons.mpr ⟨⟨_, List.mem_cons_self, first⟩, ?_⟩,
      List.forall_mem_cons.mpr ⟨⟨_, List.mem_cons_self, first⟩, ?_⟩⟩
    · intro item isItem
      obtain ⟨value, isValue, corresponds⟩ := hypothesis.1 item isItem
      exact ⟨value, List.mem_cons_of_mem _ isValue, corresponds⟩
    · intro value isValue
      obtain ⟨item, isItem, corresponds⟩ := hypothesis.2 value isValue
      exact ⟨item, List.mem_cons_of_mem _ isItem, corresponds⟩

/-- Sorting keeps lists aligned when corresponding entries compare alike. -/
theorem aligned_mergeSort {Corresponds : Value → Other → Prop} {le : Value → Value → Bool}
    {le' : Other → Other → Bool} {values : List Value} {others : List Other}
    (aligned : List.Forall₂ Corresponds values others)
    (alike : ∀ value other value' other', Corresponds value other → Corresponds value' other' →
      le value value' = le' other other') :
    List.Forall₂ Corresponds (values.mergeSort le) (others.mergeSort le') := by
  obtain ⟨lengths, pairs⟩ := List.forall₂_iff_zip.mp aligned
  have firsts : (values.zip others).map Prod.fst = values := List.map_fst_zip (by omega)
  have seconds : (values.zip others).map Prod.snd = others := List.map_snd_zip (by omega)
  have sortFirsts : ((values.zip others).mergeSort fun pair pair' => le pair.1 pair'.1).map
      Prod.fst = values.mergeSort le := by
    rw [List.map_mergeSort (s := le) fun _ _ _ _ => rfl, firsts]
  have sortSeconds : ((values.zip others).mergeSort fun pair pair' => le pair.1 pair'.1).map
      Prod.snd = others.mergeSort le' := by
    rw [List.map_mergeSort (s := le') fun pair member pair' member' =>
      alike _ _ _ _ (pairs member) (pairs member'), seconds]
  rw [← sortFirsts, ← sortSeconds, List.forall₂_map_left_iff, List.forall₂_map_right_iff,
    List.forall₂_same]
  intro pair member
  exact pairs (List.mem_mergeSort.mp member)

section Pieces

variable {items : List Item} {text text' : Item → List Value} {place : Item}

/-- Pieces of the same lengths are the same when what they are put together to is. -/
theorem pieces_eq (lengths : ∀ item ∈ items, (text item).length = (text' item).length)
    (same : items.flatMap text = items.flatMap text') : ∀ item ∈ items, text item = text' item := by
  induction items with
  | nil =>
    rintro item ⟨⟩
  | cons first items hypothesis =>
    obtain ⟨firstLength, laterLengths⟩ := List.forall_mem_cons.mp lengths
    rw [List.flatMap_cons, List.flatMap_cons] at same
    obtain ⟨isFirst, later⟩ := List.append_inj same firstLength
    exact List.forall_mem_cons.mpr ⟨isFirst, hypothesis laterLengths later⟩

theorem length_flatMap_lt (member : place ∈ items)
    (elsewhere : ∀ item ∈ items, item ≠ place → text item = text' item)
    (shorter : (text place).length < (text' place).length) :
    (items.flatMap text).length < (items.flatMap text').length := by
  rw [List.length_flatMap, List.length_flatMap]
  apply List.sum_lt_sum
  · intro item isItem
    by_cases here : item = place
    · subst here
      exact shorter.le
    · rw [elsewhere item isItem here]
  · exact ⟨place, member, shorter⟩

/-- Pieces that differ in one place only are the same when what they are put together to is. -/
theorem flatMap_eq_iff_at (member : place ∈ items)
    (elsewhere : ∀ item ∈ items, item ≠ place → text item = text' item) :
    items.flatMap text = items.flatMap text' ↔ text place = text' place := by
  have backwards : ∀ item ∈ items, item ≠ place → text' item = text item :=
    fun item isItem other => (elsewhere item isItem other).symm
  constructor
  · intro same
    have sameLength := congrArg List.length same
    have here : (text place).length = (text' place).length := by
      rcases lt_trichotomy (text place).length (text' place).length with shorter | equal | longer
      · exact absurd sameLength (length_flatMap_lt member elsewhere shorter).ne
      · exact equal
      · exact absurd sameLength (length_flatMap_lt member backwards longer).ne'
    apply pieces_eq _ same place member
    intro item isItem
    by_cases isPlace : item = place
    · rw [isPlace, here]
    · rw [elsewhere item isItem isPlace]
  · intro here
    apply List.flatMap_congr
    intro item isItem
    by_cases isPlace : item = place
    · rw [isPlace, here]
    · exact elsewhere item isItem isPlace

end Pieces

/-- What comes strictly first in a sorted list stands in front. -/
theorem pair_sublist_of_sorted {position : Item → Int} {items : List Item} {first second : Item}
    (sorted : items.Pairwise fun item other => position item ≤ position other)
    (isFirst : first ∈ items) (isSecond : second ∈ items)
    (before : position first < position second) : [first, second].Sublist items := by
  induction sorted with
  | nil => cases isFirst
  | @cons item items least _ hypothesis =>
    rcases List.mem_cons.mp isFirst with rfl | firstLater
    · rcases List.mem_cons.mp isSecond with rfl | secondLater
      · omega
      · exact (List.singleton_sublist.mpr secondLater).cons_cons _
    · rcases List.mem_cons.mp isSecond with rfl | secondLater
      · have late := least first firstLater
        omega
      · exact (hypothesis firstLater secondLater).cons _

end MastProvisioning.Collections
