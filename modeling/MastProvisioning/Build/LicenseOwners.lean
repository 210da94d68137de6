import MastProvisioning.Build.LicenseAllocation

/-!
# When certificates keep their hosts

The rows a build writes back are the ones it read when it started. As long as a
build that takes a free certificate knows every row and no other build holds one
back, no write drops a row, and no build that took a certificate ends without its
write, the allocation is injective. The build checks none of this; `twoBuilds` are
two builds that start side by side.
-/

namespace MastProvisioning.Build

open MastProvisioning.Semantics MastProvisioning.PowerShell

variable {Process : Type}

/-- The same certificate or the same host. -/
def SharesName (fold : Char → Char) (row other : AllocRow) : Prop :=
  SameName fold row.license other.license ∨ SameName fold row.host other.host

/-- The same certificate for the same host. -/
def SameRow (fold : Char → Char) (row other : AllocRow) : Prop :=
  SameName fold row.license other.license ∧ SameName fold row.host other.host

/-- What the allocation owes the hosts, `initial` being the rows it started from. -/
structure InjectiveAllocation (fold : Char → Char) (initial : List AllocRow)
    (state : AllocState Process) : Prop where
  /-- A certificate is staged for one host. -/
  oneHost : ∀ row ∈ state.staged, ∀ other ∈ state.staged,
    SameName fold row.license other.license → SameName fold row.host other.host
  /-- A host keeps the certificate it was first given. -/
  oneLicense : ∀ row ∈ state.staged, ∀ other ∈ initial ++ state.staged,
    SameName fold row.host other.host → SameName fold row.license other.license
  /-- Once all builds have ended, what was staged is recorded. -/
  recorded : (∀ process, (state.phase process).running = false) →
    ∀ row ∈ state.staged, ∃ kept ∈ importAllocCsv state.csv, SameRow fold row kept

/-- A build takes a free certificate only when the file holds no row it has not read
and no other build has a row still to write; a write drops no row of the file and
records the row its build added; a build with such a row does not fail before. -/
def Orderly (fold : Char → Char) (plan : Process → BuildOptions)
    (state : AllocState Process) : AllocLabel Process → Prop
  | .license process _ => ∀ rows listing, state.phase process = .read rows listing →
      (plan process).nomachine = true → existingRow fold rows (plan process).hostName = none →
      (∀ row ∈ importAllocCsv state.csv, row ∈ rows) ∧ ∀ other, (state.phase other).fresh? = none
  | .move process =>
      (∀ moved, state.tmp = some moved → ∀ row ∈ importAllocCsv state.csv, row ∈ moved) ∧
      ∀ row, (state.phase process).fresh? = some row → ∃ moved, state.tmp = some moved ∧ row ∈ moved
  | .fail process => (state.phase process).fresh? = none
  | _ => True

/-- A row that is in the file or that a build has still to write. -/
def Allocated (state : AllocState Process) (row : AllocRow) : Prop :=
  row ∈ importAllocCsv state.csv ∨ ∃ process, (state.phase process).fresh? = some row

/-- What every orderly run maintains. -/
structure AllocInv (fold : Char → Char) (initial : List AllocRow)
    (state : AllocState Process) : Prop where
  unique : ∀ row other, Allocated state row → Allocated state other →
    SharesName fold row other → row = other
  initially : ∀ row ∈ initial, Allocated state row
  staged : ∀ row ∈ state.staged, ∃ kept, Allocated state kept ∧ SameRow fold row kept
  rows : ∀ process, ∀ row ∈ (state.phase process).rows, Allocated state row
  fresh : ∀ process row, (state.phase process).fresh? = some row →
    row ∈ (state.phase process).rows
  /-- What a build that has written the temporary file may move. -/
  tmp : ∀ process rows fresh, state.phase process = .exported rows fresh →
    ∀ moved, state.tmp = some moved → ∀ row ∈ moved, Allocated state row

section Block

variable {fold : Char → Char} {options : BuildOptions} {rows : List AllocRow}
  {licFiles : List String} {answers : StoreAnswers} {licensed : Licensed}

theorem likeSuffix_nonempty {name : String} (isLicense : likeSuffix Char.toLower ".lic" name = true) :
    name ≠ "" := by
  rintro rfl
  revert isLicense
  decide

theorem sameName_blank {name : String} (blank : SameName fold name "") :
    name = "" := by
  have isEmpty : name.toList.map fold = [] := by
    simpa [foldText] using congrArg String.toList blank
  simpa using isEmpty

/-- A free certificate is named by no row. -/
theorem freeLicense_unnamed {listing : List String} {free : String}
    (isFree : freeLicense fold rows (allLicFiles listing) = some free) :
    ∀ row ∈ rows, ¬ SameName fold row.license free := by
  intro row member same
  have inFiles : free ∈ allLicFiles listing := List.mem_of_find?_eq_some isFree
  have notBlank : free ≠ "" := likeSuffix_nonempty (List.mem_filter.mp inFiles).2
  have unnamed := List.find?_some isFree
  have rowNotBlank : row.license ≠ "" := by
    intro isBlank
    rw [isBlank] at same
    exact notBlank (sameName_blank same.symm)
  simp only [Bool.not_eq_eq_eq_not, Bool.not_true, List.any_eq_false, List.mem_filter,
    List.mem_map, decide_eq_true_eq] at unnamed
  exact unnamed row.license ⟨⟨row, member, rfl⟩, by simpa using rowNotBlank⟩ same

theorem existingRow_none (missing : existingRow fold rows options.hostName = none) :
    ∀ row ∈ rows, ¬ SameName fold row.host options.hostName := by
  intro row member same
  have differs := List.find?_eq_none.mp missing row member
  simp [same] at differs

/-- What the license block does when it does not throw: it stages nothing, or the
certificate of the host's row, or it takes a free one, which it adds to the rows. -/
theorem licenseBlock_cases (passes : licenseBlock fold options rows licFiles answers = some licensed) :
    (licensed = ⟨rows, none, none⟩) ∨
    (∃ existing ∈ rows, SameName fold existing.host options.hostName ∧
      licensed = ⟨rows, none, some ⟨existing.license, options.hostName⟩⟩) ∨
    (∃ free, options.nomachine = true ∧ existingRow fold rows options.hostName = none ∧
      freeLicense fold rows licFiles = some free ∧
      licensed = ⟨rows ++ [⟨free, options.hostName⟩], some ⟨free, options.hostName⟩,
        some ⟨free, options.hostName⟩⟩) := by
  unfold licenseBlock at passes
  split at passes
  · rename_i nomachine
    split at passes
    · rename_i existing found
      have isHost : SameName fold existing.host options.hostName := by
        simpa using List.find?_some found
      have member : existing ∈ rows := List.mem_of_find?_eq_some found
      split at passes
      · split at passes
        · exact .inr (.inl ⟨existing, member, isHost, (Option.some.inj passes).symm⟩)
        · cases passes
      · split at passes
        · exact .inl (Option.some.inj passes).symm
        · cases passes
    · rename_i missing
      split at passes
      · exact .inl (Option.some.inj passes).symm
      · rename_i free isFree
        split at passes
        · unfold addAllocRow at passes
          split at passes
          · rename_i more added
            split at added
            · cases added
            · obtain rfl := Option.some.inj added
              split at passes
              · exact .inr (.inr ⟨free, nomachine, missing, isFree, (Option.some.inj passes).symm⟩)
              · cases passes
          · cases passes
        · cases passes
  · exact .inl (Option.some.inj passes).symm

end Block

section Invariant

variable [DecidableEq Process] {fold : Char → Char} {plan : Process → BuildOptions}
  {initial : List AllocRow} {state : AllocState Process} {process : Process}

theorem BuildPhase.fresh?_of_not_running {phase : BuildPhase} (idle : phase.running = false) :
    phase.fresh? = none := by
  cases phase with
  | waiting => rfl
  | ended => rfl
  | _ => cases idle

/-- A build that moves on without a new row or the loss of one leaves the same rows
allocated. -/
theorem allocated_enter {phase : BuildPhase} (tmp : Option (List AllocRow)) (staged : List AllocRow)
    (kept : phase.fresh? = (state.phase process).fresh?) (row : AllocRow) :
    Allocated { state.enter process phase with tmp := tmp, staged := staged } row ↔
      Allocated state row := by
  refine or_congr Iff.rfl (exists_congr fun other => ?_)
  rw [AllocState.enter_phase]
  split
  · rename_i same
    rw [same, kept]
  · exact Iff.rfl

/-- A build that moves on without a new row or the loss of one keeps the invariant. -/
theorem AllocInv.enter (holds : AllocInv fold initial state) {phase : BuildPhase}
    (tmp : Option (List AllocRow)) (more : List AllocRow)
    (kept : phase.fresh? = (state.phase process).fresh?)
    (rows : ∀ row ∈ phase.rows, Allocated state row)
    (fresh : ∀ row, phase.fresh? = some row → row ∈ phase.rows)
    (staged : ∀ row ∈ more, ∃ kept, Allocated state kept ∧ SameRow fold row kept)
    (moves : ∀ other rows fresh, (state.enter process phase).phase other = .exported rows fresh →
      ∀ moved, tmp = some moved → ∀ row ∈ moved, Allocated state row) :
    AllocInv fold initial
      { state.enter process phase with tmp := tmp, staged := state.staged ++ more } where
  unique row other := by
    rw [allocated_enter tmp _ kept, allocated_enter tmp _ kept]
    exact holds.unique row other
  initially row member := (allocated_enter tmp _ kept row).mpr (holds.initially row member)
  staged row member := by
    have backed : ∃ kept, Allocated state kept ∧ SameRow fold row kept :=
      (List.mem_append.mp member).elim (holds.staged row) (staged row)
    obtain ⟨other, isAllocated, same⟩ := backed
    exact ⟨other, (allocated_enter tmp _ kept other).mpr isAllocated, same⟩
  rows other row member := by
    rw [allocated_enter tmp _ kept]
    simp only [AllocState.enter_phase] at member
    split at member
    · exact rows row member
    · exact holds.rows other row member
  fresh other row isFresh := by
    simp only [AllocState.enter_phase] at isFresh ⊢
    split at isFresh
    · rename_i same
      rw [if_pos same]
      exact fresh row isFresh
    · rename_i differs
      rw [if_neg differs]
      exact holds.fresh other row isFresh
  tmp other rows fresh exported moved isMoved row member := by
    rw [allocated_enter tmp _ kept]
    exact moves other rows fresh exported moved isMoved row member

/-- A build that ends with nothing to record keeps the invariant. -/
theorem AllocInv.finish (holds : AllocInv fold initial state)
    (unrecorded : (state.phase process).fresh? = none) :
    AllocInv fold initial (state.enter process .ended) := by
  have idle : BuildPhase.ended.fresh? = (state.phase process).fresh? := unrecorded.symm
  have ended := holds.enter state.tmp [] idle (by simp [BuildPhase.rows])
    (by simp [BuildPhase.fresh?]) (by simp) (fun other rows fresh exported => ?_)
  · rw [List.append_nil] at ended
    exact ended
  · rw [AllocState.enter_phase] at exported
    split at exported
    · cases exported
    · exact holds.tmp other rows fresh exported

/-- A build that takes a free certificate while it knows every allocated row. -/
theorem AllocInv.take (holds : AllocInv fold initial state) {rows : List AllocRow} {free : String}
    {listing : List String} (reads : state.phase process = .read rows listing)
    (knows : ∀ row, Allocated state row → row ∈ rows)
    (unnamed : ∀ row ∈ rows, ¬ SameName fold row.license free)
    (missing : ∀ row ∈ rows, ¬ SameName fold row.host (plan process).hostName) :
    AllocInv fold initial
      { state.enter process (.licensed (rows ++ [⟨free, (plan process).hostName⟩])
          (some ⟨free, (plan process).hostName⟩)) with
        staged := state.staged ++ [⟨free, (plan process).hostName⟩] } := by
  let taken : AllocRow := ⟨free, (plan process).hostName⟩
  let after : AllocState Process :=
    { state.enter process (.licensed (rows ++ [taken]) (some taken)) with
      staged := state.staged ++ [taken] }
  have isAllocated (row : AllocRow) : Allocated after row ↔ Allocated state row ∨ row = taken := by
    constructor
    · rintro (recorded | ⟨other, isFresh⟩)
      · exact .inl (.inl recorded)
      · simp only [after, AllocState.enter_phase] at isFresh
        split at isFresh
        · exact .inr (Option.some.inj isFresh).symm
        · exact .inl (.inr ⟨other, isFresh⟩)
    · rintro ((recorded | ⟨other, isFresh⟩) | rfl)
      · exact .inl recorded
      · refine .inr ⟨other, ?_⟩
        have differs : other ≠ process := by
          rintro rfl
          rw [reads] at isFresh
          cases isFresh
        simpa [after, differs] using isFresh
      · exact .inr ⟨process, by simp [after, BuildPhase.fresh?]⟩
  have apart (row : AllocRow) (allocated : Allocated state row) : ¬ SharesName fold row taken :=
    fun shares => shares.elim (unnamed row (knows row allocated)) (missing row (knows row allocated))
  show AllocInv fold initial after
  refine ⟨fun row other => ?_, fun row member => ?_, fun row member => ?_, fun other row member => ?_,
    fun other row isFresh => ?_, fun other otherRows fresh exported moved isMoved row member => ?_⟩
  · rw [isAllocated, isAllocated]
    rintro (allocated | rfl) (also | rfl) shares
    · exact holds.unique row other allocated also shares
    · exact absurd shares (apart row allocated)
    · exact absurd (shares.imp Eq.symm Eq.symm) (apart other also)
    · rfl
  · exact (isAllocated row).mpr (.inl (holds.initially row member))
  · rcases List.mem_append.mp member with earlier | here
    · obtain ⟨kept, allocated, same⟩ := holds.staged row earlier
      exact ⟨kept, (isAllocated kept).mpr (.inl allocated), same⟩
    · obtain rfl := List.mem_singleton.mp here
      exact ⟨taken, (isAllocated taken).mpr (.inr rfl), rfl, rfl⟩
  · rw [isAllocated]
    simp only [after, AllocState.enter_phase] at member
    split at member
    · rcases List.mem_append.mp member with known | here
      · exact .inl (holds.rows process row (by simpa [reads, BuildPhase.rows] using known))
      · exact .inr (List.mem_singleton.mp here)
    · exact .inl (holds.rows other row member)
  · simp only [after, AllocState.enter_phase] at isFresh ⊢
    split at isFresh
    · rename_i same
      rw [if_pos same]
      obtain rfl := Option.some.inj isFresh
      exact List.mem_append_right _ (List.mem_singleton_self _)
    · rename_i differs
      rw [if_neg differs]
      exact holds.fresh other row isFresh
  · simp only [after, AllocState.enter_phase] at exported
    split at exported
    · cases exported
    · exact (isAllocated row).mpr (.inl (holds.tmp other otherRows fresh exported moved isMoved row member))

theorem AllocInv.license (holds : AllocInv fold initial state) {rows : List AllocRow}
    {listing : List String} {answers : StoreAnswers}
    (reads : state.phase process = .read rows listing)
    (orderly : Orderly fold plan state (.license process answers)) :
    AllocInv fold initial (allocNext fold plan state (.license process answers)) := by
  have unrecorded : (state.phase process).fresh? = none := by rw [reads]; rfl
  have known (row : AllocRow) (member : row ∈ rows) : Allocated state row :=
    holds.rows process row (by simpa [reads, BuildPhase.rows] using member)
  have exported (phase : BuildPhase) (unwritten : ∀ rows fresh, phase ≠ .exported rows fresh)
      (other : Process) (otherRows : List AllocRow) (fresh : Option AllocRow)
      (isExported : (state.enter process phase).phase other = .exported otherRows fresh) :
      ∀ moved, state.tmp = some moved → ∀ row ∈ moved, Allocated state row := by
    rw [AllocState.enter_phase] at isExported
    split at isExported
    · exact absurd isExported (unwritten otherRows fresh)
    · exact holds.tmp other otherRows fresh isExported
  simp only [allocNext, reads]
  cases passes : licenseBlock fold (plan process) rows (allLicFiles listing) answers with
  | none => exact holds.finish unrecorded
  | some licensed =>
    rcases licenseBlock_cases passes with rfl | ⟨existing, member, isHost, rfl⟩ |
      ⟨free, nomachine, missing, isFree, rfl⟩
    · exact holds.enter state.tmp [] unrecorded.symm known (by simp [BuildPhase.fresh?]) (by simp)
        (exported _ (by simp))
    · refine holds.enter state.tmp [⟨existing.license, (plan process).hostName⟩] unrecorded.symm known
        (by simp [BuildPhase.fresh?]) ?_ (exported _ (by simp))
      intro row isRow
      obtain rfl := List.mem_singleton.mp isRow
      exact ⟨existing, known existing member, rfl, isHost.symm⟩
    · obtain ⟨current, quiet⟩ := orderly rows _ reads nomachine missing
      refine holds.take reads ?_ (freeLicense_unnamed isFree) (existingRow_none missing)
      rintro row (recorded | ⟨other, isFresh⟩)
      · exact current row recorded
      · cases (quiet other).symm.trans isFresh

theorem AllocInv.writeTmp (holds : AllocInv fold initial state) {rows : List AllocRow}
    {fresh : Option AllocRow}
    (licensed : state.phase process = .licensed rows fresh ∨
      state.phase process = .exported rows fresh) :
    AllocInv fold initial (allocNext fold plan state (.writeTmp process)) := by
  have isRows : (state.phase process).rows = rows := by rcases licensed with is | is <;> rw [is] <;> rfl
  have isFresh : (state.phase process).fresh? = fresh := by
    rcases licensed with is | is <;> rw [is] <;> rfl
  have isNext : allocNext fold plan state (.writeTmp process) =
      if rows = [] then state.enter process .ended
      else { state.enter process (.exported rows fresh) with tmp := some rows } := by
    rcases licensed with is | is <;> simp only [allocNext, is]
  have known (row : AllocRow) (member : row ∈ rows) : Allocated state row :=
    holds.rows process row (isRows ▸ member)
  rw [isNext]
  split
  · rename_i empty
    refine holds.finish (Option.eq_none_iff_forall_not_mem.mpr fun row taken => ?_)
    have member := holds.fresh process row taken
    rw [isRows, empty] at member
    cases member
  · have kept : (BuildPhase.exported rows fresh).fresh? = (state.phase process).fresh? := isFresh.symm
    have written := holds.enter (some rows) [] kept known (fun row taken => ?_) (by simp)
      (fun _ _ _ _ moved isMoved => ?_)
    · rw [List.append_nil] at written
      exact written
    · have member := holds.fresh process row (isFresh.trans taken)
      rwa [isRows] at member
    · obtain rfl := Option.some.inj isMoved
      exact known

theorem AllocInv.move (holds : AllocInv fold initial state) {rows : List AllocRow}
    {fresh : Option AllocRow} (exported : state.phase process = .exported rows fresh)
    (orderly : Orderly fold plan state (.move process)) :
    AllocInv fold initial (allocNext fold plan state (.move process)) := by
  obtain ⟨keepsRows, recordsOwn⟩ := orderly
  cases isTmp : state.tmp with
  | none =>
    simp only [allocNext, isTmp]
    refine holds.finish (Option.eq_none_iff_forall_not_mem.mpr fun row taken => ?_)
    obtain ⟨moved, isMoved, _⟩ := recordsOwn row taken
    cases isTmp.symm.trans isMoved
  | some moved =>
    simp only [allocNext, isTmp]
    let after : AllocState Process := { state.enter process .ended with csv := some moved, tmp := none }
    have same (row : AllocRow) : Allocated after row ↔ Allocated state row := by
      constructor
      · rintro (recorded | ⟨other, isFresh⟩)
        · exact holds.tmp process rows fresh exported moved isTmp row recorded
        · simp only [after, AllocState.enter_phase] at isFresh
          split at isFresh
          · cases isFresh
          · exact .inr ⟨other, isFresh⟩
      · rintro (recorded | ⟨other, isFresh⟩)
        · exact .inl (keepsRows moved isTmp row recorded)
        · by_cases own : other = process
          · subst own
            obtain ⟨others, isMoved, member⟩ := recordsOwn row isFresh
            obtain rfl := Option.some.inj (isTmp.symm.trans isMoved)
            exact .inl member
          · exact .inr ⟨other, by simpa [after, own] using isFresh⟩
    show AllocInv fold initial after
    refine ⟨fun row other => ?_, fun row member => (same row).mpr (holds.initially row member),
      fun row member => ?_, fun other row member => ?_, fun other row isFresh => ?_, by simp [after]⟩
    · rw [same, same]
      exact holds.unique row other
    · obtain ⟨kept, allocated, isSame⟩ := holds.staged row member
      exact ⟨kept, (same kept).mpr allocated, isSame⟩
    · rw [same]
      simp only [after, AllocState.enter_phase] at member
      split at member
      · cases member
      · exact holds.rows other row member
    · simp only [after, AllocState.enter_phase] at isFresh ⊢
      split at isFresh
      · cases isFresh
      · rename_i differs
        rw [if_neg differs]
        exact holds.fresh other row isFresh

omit [DecidableEq Process] in
theorem OncePerName.eq_of_sharesName {rows : List AllocRow} (once : OncePerName fold rows) :
    ∀ row ∈ rows, ∀ other ∈ rows, SharesName fold row other → row = other := by
  have apart : rows.Pairwise fun row other => SharesName fold row other → row = other :=
    once.imp fun apart shares => (shares.elim apart.1 apart.2).elim
  have flipped : rows.Pairwise (flip fun row other => SharesName fold row other → row = other) :=
    once.imp fun apart shares =>
      (shares.elim (fun same => apart.1 same.symm) fun same => apart.2 same.symm).elim
  intro row member other also
  exact List.Pairwise.forall_of_forall_of_flip (fun _ _ _ => rfl) apart flipped member also

omit [DecidableEq Process] in
theorem AllocInv.start (valid : AllocInitial fold state) :
    AllocInv fold (importAllocCsv state.csv) state := by
  obtain ⟨waiting, unstaged, once⟩ := valid
  have recorded (row : AllocRow) : Allocated state row ↔ row ∈ importAllocCsv state.csv := by
    simp [Allocated, waiting, BuildPhase.fresh?]
  refine ⟨fun row other => ?_, fun row => (recorded row).mpr, by simp [unstaged], ?_, ?_, ?_⟩
  · rw [recorded, recorded]
    exact fun member also => once.eq_of_sharesName row member other also
  all_goals simp [waiting, BuildPhase.rows, BuildPhase.fresh?]

/-- Every orderly step keeps the invariant. -/
theorem AllocInv.step (holds : AllocInv fold initial state) {label : AllocLabel Process}
    (orderly : Orderly fold plan state label) (enabled : AllocEnabled fold plan state label) :
    AllocInv fold initial (allocNext fold plan state label) := by
  cases label with
  | start process listing =>
    have unrecorded : (BuildPhase.read (importAllocCsv state.csv) listing).fresh? =
        (state.phase process).fresh? := by rw [enabled.1]; rfl
    have started := holds.enter state.tmp [] unrecorded (fun row => .inl) (by simp [BuildPhase.fresh?])
      (by simp) (fun other rows fresh exported => ?_)
    · rw [List.append_nil] at started
      exact started
    · rw [AllocState.enter_phase] at exported
      split at exported
      · cases exported
      · exact holds.tmp other rows fresh exported
  | license process answers =>
    obtain ⟨rows, listing, reads⟩ := enabled
    exact holds.license reads orderly
  | writeTmp process =>
    obtain ⟨rows, fresh, licensed⟩ := enabled
    exact holds.writeTmp licensed
  | move process =>
    obtain ⟨rows, fresh, exported⟩ := enabled
    exact holds.move exported orderly
  | fail process => exact holds.finish orderly

omit [DecidableEq Process] in
theorem AllocInv.injective (holds : AllocInv fold initial state) :
    InjectiveAllocation fold initial state where
  oneHost row member other also same := by
    obtain ⟨kept, allocated, isKept⟩ := holds.staged row member
    obtain ⟨keptToo, allocatedToo, isKeptToo⟩ := holds.staged other also
    obtain rfl := holds.unique kept keptToo allocated allocatedToo
      (.inl (isKept.1.symm.trans (same.trans isKeptToo.1)))
    exact isKept.2.trans isKeptToo.2.symm
  oneLicense row member other also same := by
    obtain ⟨kept, allocated, isKept⟩ := holds.staged row member
    have backed : ∃ backing, Allocated state backing ∧ SameRow fold other backing :=
      (List.mem_append.mp also).elim (fun early => ⟨other, holds.initially other early, rfl, rfl⟩)
        (holds.staged other)
    obtain ⟨keptToo, allocatedToo, isKeptToo⟩ := backed
    obtain rfl := holds.unique kept keptToo allocated allocatedToo
      (.inr (isKept.2.symm.trans (same.trans isKeptToo.2)))
    exact isKept.1.trans isKeptToo.1.symm
  recorded idle row member := by
    obtain ⟨kept, recorded | ⟨process, isFresh⟩, same⟩ := holds.staged row member
    · exact ⟨kept, recorded, same⟩
    · cases (BuildPhase.fresh?_of_not_running (idle process)).symm.trans isFresh

/-- In every orderly run the allocation is injective, and what was staged is
recorded once the builds have ended. -/
theorem licenses_injective {start : AllocState Process}
    {trace : List (System.Taken (AllocState Process) (AllocLabel Process))}
    (run : (allocation fold plan).Run start trace state)
    (orderly : ∀ taken ∈ trace, Orderly fold plan taken.1 taken.2) :
    InjectiveAllocation fold (importAllocCsv start.csv) state := by
  have holds : AllocInv fold (importAllocCsv start.csv) state :=
    run.invariantFrom (AllocInv.start run.valid)
      (fun _ _ holds orderly enabled => holds.step orderly enabled) orderly
  exact holds.injective

end Invariant

/-- Builds for two hosts, both with the NoMachine module. -/
def twoHosts (process : Bool) : BuildOptions :=
  ⟨if process then "mast01" else "mast02", true, false⟩

/-- A file that gives two of the certificates away. -/
def twoAllocated : AllocState Bool where
  csv := some [⟨"server-01.lic", "mast00"⟩, ⟨"server-02.lic", "mast08"⟩]
  tmp := none
  phase _ := .waiting
  staged := []

/-- The certificates in the store. -/
def fourSeats : List String :=
  ["server-01.lic", "server-02.lic", "server-03.lic", "server-04.lic"]

/-- One build after the other. -/
def inTurn : List (AllocLabel Bool) :=
  [.start true fourSeats, .license true ⟨true, true, true⟩, .writeTmp true, .move true,
    .start false fourSeats, .license false ⟨true, true, true⟩, .writeTmp false, .move false]

theorem twoAllocated_initial : AllocInitial Char.toLower twoAllocated := by
  refine ⟨fun _ => rfl, rfl, ?_⟩
  simp only [OncePerName, twoAllocated, importAllocCsv, Option.getD_some, List.pairwise_cons]
  decide

theorem inTurn_follows : (allocation Char.toLower twoHosts).Follows twoAllocated inTurn := by
  refine ⟨⟨rfl, by decide⟩, ⟨_, _, rfl⟩, ⟨_, _, .inl rfl⟩, ⟨_, _, rfl⟩, ⟨rfl, by decide⟩, ⟨_, _, rfl⟩,
    ⟨_, _, .inl rfl⟩, ⟨_, _, rfl⟩, trivial⟩

theorem inTurn_orderly : ∀ taken ∈ (allocation Char.toLower twoHosts).steps twoAllocated inTurn,
    Orderly Char.toLower twoHosts taken.1 taken.2 := by
  have writes (state : AllocState Bool) (process : Bool) (rows : List AllocRow) (own : AllocRow)
      (isTmp : state.tmp = some rows) (isOwn : (state.phase process).fresh? = some own)
      (kept : ∀ row ∈ importAllocCsv state.csv, row ∈ rows) (recorded : own ∈ rows) :
      Orderly Char.toLower twoHosts state (.move process) := by
    refine ⟨fun moved isMoved => ?_, fun row isRow => ⟨rows, isTmp, ?_⟩⟩
    · obtain rfl := Option.some.inj (isTmp.symm.trans isMoved)
      exact kept
    · obtain rfl := Option.some.inj (isOwn.symm.trans isRow)
      exact recorded
  have takes (state : AllocState Bool) (process : Bool) (answers : StoreAnswers) (listing : List String)
      (reads : state.phase process = .read (importAllocCsv state.csv) listing)
      (quiet : ∀ other, (state.phase other).fresh? = none) :
      Orderly Char.toLower twoHosts state (.license process answers) := by
    intro rows listing also _ _
    cases reads.symm.trans also
    exact ⟨fun _ => id, quiet⟩
  simp only [inTurn, System.steps, List.forall_mem_cons]
  refine ⟨trivial, takes _ _ _ fourSeats rfl (by decide), trivial,
    writes _ _ _ ⟨"server-03.lic", "mast01"⟩ rfl rfl (by decide) (by decide), trivial,
    takes _ _ _ fourSeats rfl (by decide), trivial,
    writes _ _ _ ⟨"server-04.lic", "mast02"⟩ rfl rfl (by decide) (by decide), by simp⟩

/-- Builds that take turns meet the condition. -/
theorem licenses_injective_inTurn :
    InjectiveAllocation Char.toLower (importAllocCsv twoAllocated.csv)
      ((allocation Char.toLower twoHosts).after twoAllocated inTurn) :=
  licenses_injective (.ofLabels twoAllocated_initial inTurn_follows) inTurn_orderly

/-- Both builds read the file before either writes it. -/
def sideBySide : List (AllocLabel Bool) :=
  [.start true fourSeats, .start false fourSeats, .license true ⟨true, true, true⟩,
    .license false ⟨true, true, true⟩]

theorem sideBySide_follows : (allocation Char.toLower twoHosts).Follows twoAllocated sideBySide := by
  exact ⟨⟨rfl, by decide⟩, ⟨rfl, by decide⟩, ⟨_, _, rfl⟩, ⟨_, _, rfl⟩, trivial⟩

/-- Two builds that start side by side stage the same certificate. -/
theorem sideBySide_staged :
    ((allocation Char.toLower twoHosts).after twoAllocated sideBySide).staged =
      [⟨"server-03.lic", "mast01"⟩, ⟨"server-03.lic", "mast02"⟩] := by
  decide

/-- Without the condition the allocation is not injective. -/
theorem licenses_shared : ¬ ∀ (start state : AllocState Bool) trace,
    (allocation Char.toLower twoHosts).Run start trace state →
    InjectiveAllocation Char.toLower (importAllocCsv start.csv) state := by
  intro injective
  have shared := (injective _ _ _ (.ofLabels twoAllocated_initial sideBySide_follows)).oneHost
  rw [sideBySide_staged] at shared
  have same := shared ⟨"server-03.lic", "mast01"⟩ (by simp) ⟨"server-03.lic", "mast02"⟩ (by simp) rfl
  revert same
  decide

end MastProvisioning.Build
