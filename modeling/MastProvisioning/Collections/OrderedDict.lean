import Mathlib.Data.List.Nodup

/-!
# Ordered dictionaries that compare keys up to a normal form

An ordered dictionary is a list of entries. Keys are compared by `norm`: the
identity gives the dictionary of a language with exact keys, case folding that of
one whose keys ignore case. Two writes differ in what becomes of the spelling of
a key that is already there: `set` takes the new one, `upsert` keeps the old.

Both are specified through `find?`, which returns the entry with its spelling.
-/

namespace MastProvisioning.Collections.OrderedDict

variable {Key Value Norm : Type*} [DecidableEq Norm]

section Operations

variable (norm : Key → Norm)

/-- The entry under a key. -/
def find? (dict : List (Key × Value)) (key : Key) : Option (Key × Value) :=
  dict.find? fun entry => norm entry.1 = norm key

/-- The value under a key. -/
def get? (dict : List (Key × Value)) (key : Key) : Option Value :=
  (find? norm dict key).map Prod.snd

/-- Write a value; an entry already there takes the new spelling of the key. -/
def set : List (Key × Value) → Key → Value → List (Key × Value)
  | [], key, value => [(key, value)]
  | entry :: rest, key, value =>
    if norm entry.1 = norm key then (key, value) :: rest else entry :: set rest key value

/-- Change the value under a key, starting from `fresh` when there is none; an
entry already there keeps its spelling of the key. -/
def upsert : List (Key × Value) → Key → Value → (Value → Value) → List (Key × Value)
  | [], key, fresh, change => [(key, change fresh)]
  | entry :: rest, key, fresh, change =>
    if norm entry.1 = norm key then (entry.1, change entry.2) :: rest
    else entry :: upsert rest key fresh change

/-- Write entries one after the other; the last of several under one key stands. -/
def setAll (dict entries : List (Key × Value)) : List (Key × Value) :=
  entries.foldl (fun dict entry => set norm dict entry.1 entry.2) dict

/-- Remove the entry under a key. -/
def erase (dict : List (Key × Value)) (key : Key) : List (Key × Value) :=
  dict.filter fun entry => norm entry.1 ≠ norm key

/-- How many keys a value is under. -/
def count [DecidableEq Value] (dict : List (Key × Value)) (value : Value) : Nat :=
  (dict.filter fun entry => entry.2 = value).length

/-- No two entries are under one key. -/
def Distinct (dict : List (Key × Value)) : Prop :=
  (dict.map fun entry => norm entry.1).Nodup

end Operations

variable {norm : Key → Norm} {dict : List (Key × Value)}

@[simp] theorem find?_nil (key : Key) : find? norm ([] : List (Key × Value)) key = none := rfl

theorem find?_cons (entry : Key × Value) (key : Key) :
    find? norm (entry :: dict) key =
      if norm entry.1 = norm key then some entry else find? norm dict key := by
  by_cases same : norm entry.1 = norm key <;> simp [find?, same]

theorem find?_congr {key other : Key} (same : norm key = norm other) :
    find? norm dict key = find? norm dict other := by
  simp [find?, same]

theorem mem_of_find? {key : Key} {entry : Key × Value}
    (found : find? norm dict key = some entry) : entry ∈ dict ∧ norm entry.1 = norm key :=
  ⟨List.mem_of_find?_eq_some found, by simpa using List.find?_some found⟩

theorem find?_eq_none {key : Key} :
    find? norm dict key = none ↔ ∀ entry ∈ dict, norm entry.1 ≠ norm key := by
  simp [find?]

theorem find?_of_mem (distinct : Distinct norm dict) {entry : Key × Value}
    (member : entry ∈ dict) : find? norm dict entry.1 = some entry := by
  induction dict with
  | nil => simp at member
  | cons head rest ih =>
    have fresh : norm head.1 ∉ rest.map (fun entry => norm entry.1) := (List.nodup_cons.mp distinct).1
    rw [find?_cons]
    rcases List.mem_cons.mp member with here | later
    · simp [here]
    · have different : norm head.1 ≠ norm entry.1 := fun same =>
        fresh (same ▸ List.mem_map_of_mem later)
      rw [if_neg different]
      exact ih (List.nodup_cons.mp distinct).2 later

theorem find?_set (key other : Key) (value : Value) :
    find? norm (set norm dict key value) other =
      if norm key = norm other then some (key, value) else find? norm dict other := by
  induction dict with
  | nil => simp [set, find?_cons]
  | cons head rest ih =>
    unfold set
    by_cases here : norm head.1 = norm key
    · rw [if_pos here, find?_cons, find?_cons, here]
      split <;> rfl
    · rw [if_neg here, find?_cons, find?_cons, ih]
      by_cases isOther : norm head.1 = norm other
      · have different : norm key ≠ norm other := fun same => here (isOther.trans same.symm)
        rw [if_pos isOther, if_neg different, if_pos isOther]
      · rw [if_neg isOther, if_neg isOther]

theorem find?_upsert (key other : Key) (fresh : Value) (change : Value → Value) :
    find? norm (upsert norm dict key fresh change) other =
      if norm key = norm other then
        some (((find? norm dict other).map fun entry => (entry.1, change entry.2)).getD
          (key, change fresh))
      else find? norm dict other := by
  induction dict with
  | nil => simp [upsert, find?_cons]
  | cons head rest ih =>
    unfold upsert
    by_cases here : norm head.1 = norm key
    · rw [if_pos here, find?_cons, find?_cons, here]
      split <;> rfl
    · rw [if_neg here, find?_cons, find?_cons, ih]
      by_cases isOther : norm head.1 = norm other
      · have different : norm key ≠ norm other := fun same => here (isOther.trans same.symm)
        rw [if_pos isOther, if_neg different, if_pos isOther]
      · rw [if_neg isOther, if_neg isOther]

theorem get?_upsert (key other : Key) (fresh : Value) (change : Value → Value) :
    get? norm (upsert norm dict key fresh change) other =
      if norm key = norm other then some (change ((get? norm dict other).getD fresh))
      else get? norm dict other := by
  unfold get?
  rw [find?_upsert]
  split
  · cases find? norm dict other <;> rfl
  · rfl

/-- Writing adds a key only when it was not there. -/
theorem norms_set (key : Key) (value : Value) :
    (set norm dict key value).map (fun entry => norm entry.1) =
      if norm key ∈ dict.map (fun entry => norm entry.1) then dict.map (fun entry => norm entry.1)
      else dict.map (fun entry => norm entry.1) ++ [norm key] := by
  induction dict with
  | nil => simp [set]
  | cons head rest ih =>
    unfold set
    by_cases here : norm head.1 = norm key
    · simp [here]
    · have different : norm key ≠ norm head.1 := fun same => here same.symm
      simp only [if_neg here, List.map_cons, ih, List.mem_cons, different, false_or]
      split <;> rfl

theorem norms_upsert (key : Key) (fresh : Value) (change : Value → Value) :
    (upsert norm dict key fresh change).map (fun entry => norm entry.1) =
      if norm key ∈ dict.map (fun entry => norm entry.1) then dict.map (fun entry => norm entry.1)
      else dict.map (fun entry => norm entry.1) ++ [norm key] := by
  induction dict with
  | nil => simp [upsert]
  | cons head rest ih =>
    unfold upsert
    by_cases here : norm head.1 = norm key
    · simp [here]
    · have different : norm key ≠ norm head.1 := fun same => here same.symm
      simp only [if_neg here, List.map_cons, ih, List.mem_cons, different, false_or]
      split <;> rfl

omit [DecidableEq Norm] in
theorem distinct_nil : Distinct norm ([] : List (Key × Value)) := List.nodup_nil

theorem Distinct.set (distinct : Distinct norm dict) (key : Key) (value : Value) :
    Distinct norm (set norm dict key value) := by
  unfold Distinct
  rw [norms_set]
  split
  · exact distinct
  · rename_i fresh
    exact List.nodup_append.mpr ⟨distinct, List.nodup_singleton _,
      fun a old b new => by rintro rfl; exact fresh (List.mem_singleton.mp new ▸ old)⟩

theorem Distinct.upsert (distinct : Distinct norm dict) (key : Key) (fresh : Value)
    (change : Value → Value) : Distinct norm (upsert norm dict key fresh change) := by
  unfold Distinct
  rw [norms_upsert]
  split
  · exact distinct
  · rename_i absent
    exact List.nodup_append.mpr ⟨distinct, List.nodup_singleton _,
      fun a old b new => by rintro rfl; exact absent (List.mem_singleton.mp new ▸ old)⟩

theorem Distinct.setAll (distinct : Distinct norm dict) (entries : List (Key × Value)) :
    Distinct norm (setAll norm dict entries) := by
  unfold OrderedDict.setAll
  induction entries generalizing dict with
  | nil => exact distinct
  | cons entry rest ih => exact ih (distinct.set entry.1 entry.2)

/-- Writing under a fresh key appends. -/
theorem set_of_fresh {key : Key} {value : Value}
    (fresh : ∀ entry ∈ dict, norm entry.1 ≠ norm key) :
    set norm dict key value = dict ++ [(key, value)] := by
  induction dict with
  | nil => rfl
  | cons head rest ih =>
    obtain ⟨here, later⟩ := List.forall_mem_cons.mp fresh
    rw [set, if_neg here, ih later, List.cons_append]

/-- Writing entries under keys of their own appends them. -/
theorem setAll_of_distinct {entries : List (Key × Value)}
    (distinct : Distinct norm (dict ++ entries)) :
    setAll norm dict entries = dict ++ entries := by
  unfold setAll
  induction entries generalizing dict with
  | nil => simp
  | cons entry rest ih =>
    have isFresh : ∀ old ∈ dict, norm old.1 ≠ norm entry.1 := by
      intro old member same
      unfold Distinct at distinct
      rw [List.map_append, List.nodup_append] at distinct
      exact distinct.2.2 _ (List.mem_map_of_mem member) _ List.mem_cons_self same
    rw [List.foldl_cons, set_of_fresh isFresh, ih (by simpa using distinct)]
    simp

/-- What is under a key after writing entries under distinct keys. -/
theorem find?_setAll {entries : List (Key × Value)} (distinct : Distinct norm entries)
    (key : Key) :
    find? norm (setAll norm dict entries) key =
      (find? norm entries key).or (find? norm dict key) := by
  unfold setAll
  induction entries generalizing dict with
  | nil => rfl
  | cons entry rest ih =>
    obtain ⟨fresh, distinctRest⟩ := List.nodup_cons.mp distinct
    rw [List.foldl_cons, ih distinctRest, find?_set, find?_cons]
    by_cases here : norm entry.1 = norm key
    · have notLater : find? norm rest key = none := by
        rw [find?_eq_none]
        intro later member same
        exact fresh (List.mem_map.mpr ⟨later, member, same.trans here.symm⟩)
      rw [if_pos here, if_pos here, notLater]
      rfl
    · rw [if_neg here, if_neg here]

/-- What is under a key after writing entries is the last of them, or what was there. -/
theorem find?_setAll_reverse (entries : List (Key × Value)) (key : Key) :
    find? norm (setAll norm dict entries) key =
      (find? norm entries.reverse key).or (find? norm dict key) := by
  unfold setAll
  induction entries generalizing dict with
  | nil => rfl
  | cons entry rest ih =>
    have joined : find? norm (rest.reverse ++ [entry]) key =
        (find? norm rest.reverse key).or (find? norm [entry] key) := List.find?_append
    rw [List.foldl_cons, ih, find?_set, List.reverse_cons, joined, find?_cons, Option.or_assoc]
    split <;> rfl

/-- After writing entries those stand that no later one is under the key of. -/
theorem mem_setAll_nil_iff {entries : List (Key × Value)} {entry : Key × Value} :
    entry ∈ setAll norm [] entries ↔
      ∃ earlier later, entries = earlier ++ entry :: later ∧
        ∀ other ∈ later, norm other.1 ≠ norm entry.1 := by
  have distinct : Distinct norm (setAll norm [] entries) := distinct_nil.setAll entries
  have found : entry ∈ setAll norm [] entries ↔ find? norm entries.reverse entry.1 = some entry := by
    have last : find? norm (setAll norm [] entries) entry.1 = find? norm entries.reverse entry.1 := by
      rw [find?_setAll_reverse, find?_nil, Option.or_none]
    rw [← last]
    constructor
    · exact find?_of_mem distinct
    · intro here
      exact (mem_of_find? here).1
  rw [found, find?, List.find?_eq_some_iff_append]
  constructor
  · rintro ⟨-, later, earlier, reversed, others⟩
    refine ⟨earlier.reverse, later.reverse, ?_, ?_⟩
    · simpa using congrArg List.reverse reversed
    · intro other member
      simpa using others other (List.mem_reverse.mp member)
  · rintro ⟨earlier, later, rfl, others⟩
    refine ⟨by simp, later.reverse, earlier.reverse, by simp, ?_⟩
    intro other member
    simpa using others other (List.mem_reverse.mp member)

theorem mem_set {key : Key} {value : Value} {entry : Key × Value}
    (member : entry ∈ set norm dict key value) : entry = (key, value) ∨ entry ∈ dict := by
  induction dict with
  | nil => exact .inl (List.mem_singleton.mp member)
  | cons head rest ih =>
    unfold set at member
    split at member
    · exact (List.mem_cons.mp member).imp id (List.mem_cons_of_mem _)
    · rcases List.mem_cons.mp member with here | later
      · exact .inr (here ▸ List.mem_cons_self)
      · exact (ih later).imp id (List.mem_cons_of_mem _)

theorem mem_setAll {entries : List (Key × Value)} {entry : Key × Value}
    (member : entry ∈ setAll norm dict entries) : entry ∈ entries ∨ entry ∈ dict := by
  unfold setAll at member
  induction entries generalizing dict with
  | nil => exact .inr member
  | cons head rest ih =>
    rcases ih member with later | before
    · exact .inl (List.mem_cons_of_mem _ later)
    · rcases mem_set before with here | old
      · exact .inl (here ▸ List.mem_cons_self)
      · exact .inr old

/-- Changing a value brings in no spelling but that of its key. -/
theorem key_mem_upsert {key : Key} {fresh : Value} {change : Value → Value}
    {entry : Key × Value} (member : entry ∈ upsert norm dict key fresh change) :
    entry.1 = key ∨ ∃ old ∈ dict, old.1 = entry.1 := by
  induction dict with
  | nil => exact .inl (congrArg Prod.fst (List.mem_singleton.mp member))
  | cons head rest ih =>
    unfold upsert at member
    split at member
    · rcases List.mem_cons.mp member with here | later
      · exact .inr ⟨head, List.mem_cons_self, by rw [here]⟩
      · exact .inr ⟨entry, List.mem_cons_of_mem _ later, rfl⟩
    · rcases List.mem_cons.mp member with here | later
      · exact .inr ⟨head, List.mem_cons_self, by rw [here]⟩
      · rcases ih later with isKey | ⟨old, inRest, same⟩
        · exact .inl isKey
        · exact .inr ⟨old, List.mem_cons_of_mem _ inRest, same⟩

omit [DecidableEq Norm] in
theorem Distinct.filter (distinct : Distinct norm dict) (keep : Key × Value → Bool) :
    Distinct norm (dict.filter keep) :=
  distinct.sublist (List.filter_sublist.map _)

theorem find?_filter (distinct : Distinct norm dict) (keep : Key × Value → Bool) (key : Key) :
    find? norm (dict.filter keep) key = (find? norm dict key).filter keep := by
  induction dict with
  | nil => rfl
  | cons head rest ih =>
    obtain ⟨fresh, distinctRest⟩ := List.nodup_cons.mp distinct
    rw [find?_cons, List.filter_cons]
    by_cases here : norm head.1 = norm key
    · have notLater : find? norm (rest.filter keep) key = none := by
        rw [find?_eq_none]
        intro later member same
        exact fresh (List.mem_map.mpr
          ⟨later, List.mem_of_mem_filter member, same.trans here.symm⟩)
      by_cases kept : keep head = true
      · simp [kept, find?_cons, here, Option.filter]
      · simp [kept, here, notLater, Option.filter]
    · by_cases kept : keep head = true
      · simp [kept, find?_cons, here, ih distinctRest]
      · simp [kept, here, ih distinctRest]

omit [DecidableEq Norm] in
/-- Keeping the values something can be made of keeps the keys distinct. -/
theorem Distinct.filterMap {Other : Type*} (distinct : Distinct norm dict)
    (keep : Value → Option Other) :
    Distinct norm (dict.filterMap fun entry => (keep entry.2).map (Prod.mk entry.1)) := by
  induction dict with
  | nil => exact distinct_nil
  | cons head rest ih =>
    obtain ⟨fresh, distinctRest⟩ := List.nodup_cons.mp distinct
    rw [List.filterMap_cons]
    cases keep head.2 with
    | none => exact ih distinctRest
    | some value =>
      refine List.nodup_cons.mpr ⟨fun member => fresh ?_, ih distinctRest⟩
      obtain ⟨entry, isKept, same⟩ := List.mem_map.mp member
      obtain ⟨old, isOld, isMade⟩ := List.mem_filterMap.mp isKept
      obtain ⟨made, _, rfl⟩ := Option.map_eq_some_iff.mp isMade
      exact List.mem_map.mpr ⟨old, isOld, same⟩

theorem get?_filterMap {Other : Type*} (distinct : Distinct norm dict)
    (keep : Value → Option Other) (key : Key) :
    get? norm (dict.filterMap fun entry => (keep entry.2).map (Prod.mk entry.1)) key =
      (get? norm dict key).bind keep := by
  unfold get?
  induction dict with
  | nil => rfl
  | cons head rest ih =>
    obtain ⟨fresh, distinctRest⟩ := List.nodup_cons.mp distinct
    rw [List.filterMap_cons, find?_cons]
    by_cases here : norm head.1 = norm key
    · rw [if_pos here]
      cases kept : keep head.2 with
      | some value => simp [find?_cons, here, kept]
      | none =>
        have notLater : find? norm rest key = none := by
          rw [find?_eq_none]
          intro later member same
          exact fresh (List.mem_map.mpr ⟨later, member, same.trans here.symm⟩)
        have rested := ih distinctRest
        rw [notLater] at rested
        simpa [kept] using rested
    · rw [if_neg here]
      cases kept : keep head.2 with
      | some value => simpa [find?_cons, here] using ih distinctRest
      | none => simpa using ih distinctRest

omit [DecidableEq Norm] in
/-- Keys that differ in their normal forms differ. -/
theorem Distinct.exact (distinct : Distinct norm dict) :
    Distinct id dict := by
  have composed : (dict.map Prod.fst).map norm = dict.map fun entry => norm entry.1 := by simp
  exact List.Nodup.of_map norm (composed ▸ distinct)

/-- An entry found under its own spelling is found when keys are compared exactly. -/
theorem find?_exact [DecidableEq Key] (distinct : Distinct norm dict) {key : Key} {value : Value}
    (found : find? norm dict key = some (key, value)) :
    find? id dict key = some (key, value) :=
  find?_of_mem (distinct.exact) (mem_of_find? found).1

/-- An entry found when keys are compared exactly is found up to the normal form. -/
theorem find?_of_exact [DecidableEq Key] (distinct : Distinct norm dict) {key : Key}
    {entry : Key × Value} (found : find? id dict key = some entry) :
    entry.1 = key ∧ find? norm dict key = some entry := by
  obtain ⟨member, same⟩ := mem_of_find? found
  have spelled : entry.1 = key := same
  exact ⟨spelled, spelled ▸ find?_of_mem distinct member⟩

theorem get?_set (key other : Key) (value : Value) :
    get? norm (set norm dict key value) other =
      if norm key = norm other then some value else get? norm dict other := by
  unfold get?
  rw [find?_set]
  split <;> rfl

/-- An entry under a new key at the end of a dictionary. -/
theorem get?_append_single {entry : Key × Value}
    (fresh : ∀ other ∈ dict, norm other.1 ≠ norm entry.1) (key : Key) :
    get? norm (dict ++ [entry]) key =
      if norm entry.1 = norm key then some entry.2 else get? norm dict key := by
  unfold get? find?
  rw [List.find?_append]
  split
  · rename_i same
    have absent : dict.find? (fun other => norm other.1 = norm key) = none := by
      rw [List.find?_eq_none]
      intro other member
      simpa [← same] using fresh other member
    simp [absent, same]
  · rename_i different
    simp [different]

theorem Distinct.erase (distinct : Distinct norm dict) (key : Key) :
    Distinct norm (erase norm dict key) :=
  distinct.filter _

theorem get?_erase (key other : Key) :
    get? norm (erase norm dict key) other =
      if norm key = norm other then none else get? norm dict other := by
  unfold get? erase find?
  rw [List.find?_filter]
  by_cases same : norm key = norm other
  · simp [same]
  · have different : ∀ entry : Key × Value, norm entry.1 = norm other → norm entry.1 ≠ norm key :=
      fun entry isOther isKey => same (isKey.symm.trans isOther)
    rw [if_neg same]
    congr 2
    funext entry
    by_cases isOther : norm entry.1 = norm other
    · simp [isOther, Ne.symm same]
    · simp [isOther]

theorem mem_erase {key : Key} {entry : Key × Value} :
    entry ∈ erase norm dict key ↔ entry ∈ dict ∧ norm entry.1 ≠ norm key := by
  simp [erase]

section Exact

variable [DecidableEq Key]

theorem get?_eq_some (distinct : Distinct id dict) {key : Key} {value : Value} :
    get? id dict key = some value ↔ (key, value) ∈ dict := by
  unfold get?
  constructor
  · intro found
    obtain ⟨⟨spelled, _⟩, isEntry, rfl⟩ := Option.map_eq_some_iff.mp found
    obtain ⟨member, rfl⟩ := mem_of_find? isEntry
    exact member
  · intro member
    rw [find?_of_mem distinct member]
    rfl

variable [DecidableEq Value]

/-- A value that is under some key is under one only when no other key has it. -/
theorem count_eq_one (distinct : Distinct id dict) {key : Key} {value : Value}
    (found : get? id dict key = some value) :
    count dict value = 1 ↔ ∀ other, get? id dict other = some value → other = key := by
  have member : (key, value) ∈ dict.filter fun entry => entry.2 = value :=
    List.mem_filter.mpr ⟨(get?_eq_some distinct).mp found, by simp⟩
  have nodup : (dict.filter fun entry => entry.2 = value).Nodup :=
    (List.Nodup.of_map _ distinct).filter _
  unfold count
  constructor
  · intro single other isOther
    have otherMember : (other, value) ∈ dict.filter fun entry => entry.2 = value :=
      List.mem_filter.mpr ⟨(get?_eq_some distinct).mp isOther, by simp⟩
    obtain ⟨only, isOnly⟩ := List.length_eq_one_iff.mp single
    rw [isOnly] at member otherMember
    rw [List.mem_singleton] at member otherMember
    exact congrArg Prod.fst (otherMember.trans member.symm)
  · intro unique
    have only : ∀ entry, (entry ∈ dict.filter fun entry => entry.2 = value) ↔
        entry ∈ [(key, value)] := by
      intro entry
      rw [List.mem_singleton]
      refine ⟨fun isEntry => ?_, fun same => same ▸ member⟩
      obtain ⟨inDict, isValue⟩ := List.mem_filter.mp isEntry
      have holds : entry.2 = value := by simpa using isValue
      have spelled := unique entry.1 ((get?_eq_some distinct).mpr (holds ▸ inDict))
      exact Prod.ext spelled holds
    have same := (List.perm_ext_iff_of_nodup nodup (List.nodup_singleton _)).mpr only
    exact same.length_eq

theorem count_eq_zero (distinct : Distinct id dict) {value : Value} :
    count dict value = 0 ↔ ∀ key, get? id dict key ≠ some value := by
  unfold count
  rw [List.length_eq_zero_iff, List.filter_eq_nil_iff]
  constructor
  · intro none key found
    exact none _ ((get?_eq_some distinct).mp found) (by simp)
  · intro absent entry member isValue
    have value : entry.2 = value := by simpa using isValue
    exact absent entry.1 ((get?_eq_some distinct).mpr (value ▸ member))

end Exact

end MastProvisioning.Collections.OrderedDict
