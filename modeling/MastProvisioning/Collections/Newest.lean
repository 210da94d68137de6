import Mathlib.Data.List.Nodup
import Mathlib.Order.Lattice

/-!
# The newest items of a list

A stable sort by a key, the greatest first, ranks the items of a list: one item is before
another when its key is greater, or the keys are equal and it is listed first. The first
items of the sorted list are those of the least ranks.
-/

namespace MastProvisioning.Collections.Newest

variable {Item Key : Type*} [DecidableEq Item] [LinearOrder Key]

section Operations

variable (key : Item → Key) (items : List Item)

/-- An item whose key is at least that of another. -/
def atLeast (first second : Item) : Bool :=
  decide (key second ≤ key first)

/-- The items by their keys, the greatest first; items of one key stay in their order. -/
def newestFirst : List Item :=
  items.mergeSort (atLeast key)

/-- An item is ranked before another. -/
def Before (first second : Item) : Prop :=
  key second < key first ∨ key first = key second ∧ items.idxOf first < items.idxOf second

instance (first second : Item) : Decidable (Before key items first second) :=
  inferInstanceAs (Decidable (_ ∨ _))

/-- How many items are ranked before one. -/
def rank (item : Item) : Nat :=
  items.countP fun other => Before key items other item

end Operations

section Order

variable {key : Item → Key} {items : List Item} {first second item : Item}

omit [DecidableEq Item] in
theorem atLeast_trans (first second third : Item) (above : atLeast key first second = true)
    (below : atLeast key second third = true) : atLeast key first third = true := by
  simp only [atLeast, decide_eq_true_eq] at *
  exact le_trans below above

omit [DecidableEq Item] in
theorem atLeast_total (first second : Item) :
    (atLeast key first second || atLeast key second first) = true := by
  simpa [atLeast] using le_total (key second) (key first)

omit [DecidableEq Item] in
theorem newestFirst_perm : (newestFirst key items).Perm items :=
  List.mergeSort_perm items _

/-- Of two items of a list the one that is found first stands first. -/
theorem pair_sublist_iff (distinct : items.Nodup) (isItem : first ∈ items)
    (isOther : second ∈ items) :
    [first, second].Sublist items ↔ items.idxOf first < items.idxOf second := by
  induction items with
  | nil => cases isItem
  | cons head rest ih =>
    obtain ⟨fresh, distinctRest⟩ := List.nodup_cons.mp distinct
    by_cases firstIs : first = head
    · subst firstIs
      have notSub : ¬[first, second].Sublist rest := fun inside =>
        fresh (inside.subset List.mem_cons_self)
      by_cases same : second = first
      · subst same
        simp [fresh]
      · have later : second ∈ rest := (List.mem_cons.mp isOther).resolve_left same
        simp [Ne.symm same, later]
    · have firstLater : first ∈ rest := (List.mem_cons.mp isItem).resolve_left firstIs
      by_cases secondIs : second = head
      · subst secondIs
        have notSub : ¬[first, second].Sublist rest := fun inside =>
          fresh (inside.subset (List.mem_cons_of_mem _ List.mem_cons_self))
        simp [List.sublist_cons_iff, notSub, firstIs]
      · have secondLater : second ∈ rest := (List.mem_cons.mp isOther).resolve_left secondIs
        have different : ¬head = first := fun same => firstIs same.symm
        have otherDifferent : ¬head = second := fun same => secondIs same.symm
        rw [List.sublist_cons_iff]
        simp [firstIs, different, otherDifferent, ih distinctRest firstLater secondLater]

theorem before_irrefl (item : Item) : ¬Before key items item item := by
  simp [Before]

theorem before_asymm (before : Before key items first second) : ¬Before key items second first := by
  unfold Before at *
  rintro (newer | ⟨same, earlier⟩)
  · rcases before with older | ⟨same, -⟩
    · exact lt_asymm newer older
    · exact absurd newer (by simp [same])
  · rcases before with older | ⟨-, later⟩
    · exact absurd older (by simp [same])
    · omega

/-- The sorted list is in the order of the ranks. -/
theorem pairwise_before (distinct : items.Nodup) :
    (newestFirst key items).Pairwise (Before key items) := by
  apply List.pairwise_of_forall_sublist
  intro first second inOrder
  have sorted : (newestFirst key items).Pairwise fun first second => atLeast key first second = true :=
    List.pairwise_mergeSort atLeast_trans atLeast_total items
  have newer : atLeast key first second = true := List.pairwise_iff_forall_sublist.mp sorted inOrder
  have distinctSorted : (newestFirst key items).Nodup := newestFirst_perm.nodup_iff.mpr distinct
  have firstSorted : first ∈ newestFirst key items := inOrder.subset List.mem_cons_self
  have secondSorted : second ∈ newestFirst key items :=
    inOrder.subset (List.mem_cons_of_mem _ List.mem_cons_self)
  have isFirst : first ∈ items := newestFirst_perm.mem_iff.mp firstSorted
  have isSecond : second ∈ items := newestFirst_perm.mem_iff.mp secondSorted
  rcases lt_or_eq_of_le (of_decide_eq_true newer) with older | same
  · exact .inl older
  · refine .inr ⟨same.symm, ?_⟩
    by_contra notEarlier
    have different : first ≠ second := by
      simpa using distinctSorted.sublist inOrder
    have indexes : items.idxOf first ≠ items.idxOf second := fun equal =>
      different ((List.idxOf_inj isFirst).mp equal)
    have swapped : [second, first].Sublist items := by
      apply (pair_sublist_iff distinct isSecond isFirst).mpr
      omega
    have alike : atLeast key second first = true := decide_eq_true (le_of_eq same.symm)
    have stable : [second, first].Sublist (newestFirst key items) :=
      List.pair_sublist_mergeSort atLeast_trans atLeast_total alike swapped
    have ahead := (pair_sublist_iff distinctSorted firstSorted secondSorted).mp inOrder
    have behind := (pair_sublist_iff distinctSorted secondSorted firstSorted).mp stable
    omega

end Order

section Ranks

variable {key : Item → Key} {items : List Item} {item : Item} {count : Nat}

omit [DecidableEq Item] [LinearOrder Key] in
/-- In a list in the order of a relation an item is among the first exactly when fewer come
before it. -/
theorem mem_take_iff_countP {before : Item → Item → Prop} [DecidableRel before]
    (irrefl : ∀ item, ¬before item item)
    (asymm : ∀ first second, before first second → ¬before second first)
    (ordered : items.Pairwise before) (member : item ∈ items) :
    item ∈ items.take count ↔ items.countP (fun other => before other item) < count := by
  induction items generalizing count with
  | nil => cases member
  | cons head rest ih =>
    obtain ⟨ahead, orderedRest⟩ := List.pairwise_cons.mp ordered
    cases count with
    | zero => simp
    | succ count =>
      rw [List.take_succ_cons, List.mem_cons, List.countP_cons]
      rcases List.mem_cons.mp member with rfl | later
      · have none : rest.countP (fun other => before other item) = 0 := by
          apply List.countP_eq_zero.mpr
          intro other inRest
          simpa using asymm item other (ahead other inRest)
        simp [none, irrefl item]
      · have here : before head item := ahead item later
        have different : item ≠ head := by
          rintro rfl
          exact irrefl item here
        simp only [different, false_or, ih orderedRest later, here, decide_true, if_true]
        omega

/-- An item is among the newest exactly when it has few enough before it. -/
theorem mem_take_iff_rank (distinct : items.Nodup) (member : item ∈ items) :
    item ∈ (newestFirst key items).take count ↔ rank key items item < count := by
  have sorted : item ∈ newestFirst key items := newestFirst_perm.mem_iff.mpr member
  rw [mem_take_iff_countP before_irrefl (fun _ _ before => before_asymm before)
    (pairwise_before distinct) sorted, rank, newestFirst_perm.countP_eq]

omit [DecidableEq Item] in
/-- No item of the rest is newer than one of the newest. -/
theorem key_le_of_mem {kept gone : Item} (isKept : kept ∈ (newestFirst key items).take count)
    (isGone : gone ∈ (newestFirst key items).drop count) : key gone ≤ key kept := by
  have sorted : (newestFirst key items).Pairwise fun first second => atLeast key first second = true :=
    List.pairwise_mergeSort atLeast_trans atLeast_total items
  rw [← List.take_append_drop count (newestFirst key items), List.pairwise_append] at sorted
  exact of_decide_eq_true (sorted.2.2 kept isKept gone isGone)

end Ranks

section Latest

variable {key : Item → Key} {items : List Item} {item : Item}

omit [DecidableEq Item] in
/-- The last item of a list in ascending order, when no two items have one key: the one of
the greatest key. -/
theorem getLast?_mergeSort (apart : ∀ first ∈ items, ∀ second ∈ items, key first = key second →
    first = second) :
    (items.mergeSort fun first second => decide (key first ≤ key second)).getLast? = some item ↔
      item ∈ items ∧ ∀ other ∈ items, key other ≤ key item := by
  have sorted : (items.mergeSort fun first second => decide (key first ≤ key second)).Pairwise
      fun first second => decide (key first ≤ key second) = true :=
    List.pairwise_mergeSort
      (fun first second third above below => by
        simp only [decide_eq_true_eq] at above below ⊢
        exact le_trans above below)
      (fun first second => by simpa using le_total (key first) (key second)) items
  have sorts : ∀ other, other ∈ (items.mergeSort fun first second => decide (key first ≤ key second)) ↔
      other ∈ items := fun other => List.mem_mergeSort
  have greatest : ∀ last, (items.mergeSort fun first second => decide (key first ≤ key second)).getLast?
      = some last → last ∈ items ∧ ∀ other ∈ items, key other ≤ key last := by
    intro last isLast
    obtain ⟨front, split⟩ := List.getLast?_eq_some_iff.mp isLast
    have members : ∀ other, other ∈ items ↔ other ∈ front ∨ other = last := by
      intro other
      rw [← sorts, split]
      simp
    rw [split, List.pairwise_append] at sorted
    refine ⟨(members last).mpr (.inr rfl), fun other isItem => ?_⟩
    rcases (members other).mp isItem with before | rfl
    · exact of_decide_eq_true (sorted.2.2 other before last (List.mem_singleton_self _))
    · exact le_rfl
  constructor
  · exact greatest item
  · rintro ⟨isItem, isGreatest⟩
    cases isLast : (items.mergeSort fun first second => decide (key first ≤ key second)).getLast? with
    | none =>
      have nothing := List.getLast?_eq_none_iff.mp isLast
      rw [← sorts, nothing] at isItem
      cases isItem
    | some last =>
      obtain ⟨lastItem, lastGreatest⟩ := greatest last isLast
      have same := le_antisymm (isGreatest last lastItem) (lastGreatest item isItem)
      exact congrArg some (apart last lastItem item isItem same)

end Latest

end MastProvisioning.Collections.Newest
