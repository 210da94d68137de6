import MastProvisioning.Semantics.System
import MastProvisioning.Blobstore.Frames
import MastProvisioning.Blobstore.Sync

/-!
# Clients that sync at the same time

Each client asks what is missing, uploads it and assembles; the commands of several
clients come in any order. A blob that two clients were told is missing is uploaded
twice, and the second upload replaces the file that the first client's tree and
snapshot are linked to unless its size and time are the same.
-/

namespace MastProvisioning.Blobstore

open MastProvisioning.Semantics MastProvisioning.Semantics.Command
open MastProvisioning.Collections MastProvisioning.Storage

/-- How far a client is with its sync. -/
inductive Stage
  | start
  /-- It was told what is missing. -/
  | told (missing : List String)
  | sent
  /-- It reported success or failure. -/
  | ended (success : Bool)
deriving DecidableEq, Repr

/-- The relay and the clients. -/
structure Syncs (Client : Type) where
  relay : Relay
  stage : Client → Stage

variable {Client : Type} [DecidableEq Client] (dumps : Manifest → Bytes) (payload : Client → Payload)

/-- The relay after the next command of a client. -/
def Syncs.relayAfter (syncs : Syncs Client) (client : Client) : Relay :=
  match syncs.stage client with
  | .told missing => ((uploadBlobs (payload client).sources missing).run syncs.relay).2
  | .sent => ((cmdAssemble dumps (payload client).host (payload client).manifest).run syncs.relay).2
  | .start | .ended _ => syncs.relay

/-- The stage of a client after its next command; nothing is uploaded when nothing
is missing. -/
def Syncs.stageAfter (syncs : Syncs Client) (client : Client) : Stage :=
  match syncs.stage client with
  | .start =>
    let missing := missingDigests syncs.relay (payload client).manifest
    if (payload client).manifest.files.isEmpty then .ended false
    else if missing.isEmpty then .sent
    else .told missing
  | .told missing =>
    if ((uploadBlobs (payload client).sources missing).run syncs.relay).1.isDone then .sent
    else .ended false
  | .sent =>
    .ended ((cmdAssemble dumps (payload client).host (payload client).manifest).run
      syncs.relay).1.isDone
  | .ended success => .ended success

/-- Clients that sync at the same time, to any relay. -/
def clients : System (Syncs Client) Client where
  Initial syncs := ∀ client, syncs.stage client = .start
  Enabled syncs client := ∀ success, syncs.stage client ≠ .ended success
  next syncs client :=
    ⟨syncs.relayAfter dumps payload client,
      Function.update syncs.stage client (syncs.stageAfter dumps payload client)⟩

/-- What a client uploads has the size and time of the blobs that are there already,
as far as a client that has succeeded shares them. -/
def Harmless (syncs : Syncs Client) (client : Client) : Prop :=
  ∀ missing, syncs.stage client = .told missing →
    ∀ other, other ≠ client → syncs.stage other = .ended true →
      ∀ blob ∈ byHash (payload client).sources missing,
        (∃ entry ∈ (payload other).manifest.files, entry.sha256 = blob.1) →
          ∀ ino, syncs.relay.slot? (.blob blob.1) = some ino → SameStat syncs.relay ino blob.2

variable {dumps payload}

/-- An upload keeps what a client has synced whose blobs it does not replace. -/
theorem Synced.uploaded {relay : Relay} {own : Payload} {payloadHash : String}
    (synced : Synced relay own payloadHash) {sources : List (String × Source)}
    {missing : List String}
    (same : ∀ blob ∈ byHash sources missing, (∃ entry ∈ own.manifest.files, entry.sha256 = blob.1) →
      ∀ ino, relay.slot? (.blob blob.1) = some ino → SameStat relay ino blob.2) :
    Synced ((uploadBlobs sources missing).run relay).2 own payloadHash := by
  have nodes := (uploadBlobs_nodes : Preserves .reliable
    (fun after => ∀ tree path, after.node? tree path = relay.node? tree path)
      (uploadBlobs sources missing)).run fun _ _ => rfl
  have slots : ∀ entry ∈ own.manifest.files,
      ((uploadBlobs sources missing).run relay).2.slot? (.blob entry.sha256) =
        relay.slot? (.blob entry.sha256) := by
    intro entry member
    obtain ⟨ino, isBlob⟩ := Option.isSome_iff_exists.mp (synced.allHeld entry member)
    have keeps : Preserves .reliable (BlobKept relay entry.sha256 ino)
        (uploadBlobs sources missing) := by
      refine uploadBlobs_keeps fun blob isSent isEntry => ?_
      exact same blob isSent ⟨entry, member, isEntry.symm⟩ ino (isEntry ▸ isBlob)
    exact (keeps.run ⟨fun _ _ => rfl, isBlob, rfl⟩).slot.trans isBlob.symm
  have wanted : ∀ path digest, wantedBy own.manifest.files path = some digest →
      ((uploadBlobs sources missing).run relay).2.slot? (.blob digest) =
        relay.slot? (.blob digest) := by
    intro path digest isWanted
    obtain ⟨entry, member, -, rfl⟩ := entry_of_wantedBy isWanted
    exact slots entry member
  have inPayload : ∀ path digest, wantedBy own.manifest.payload path = some digest →
      ((uploadBlobs sources missing).run relay).2.slot? (.blob digest) =
        relay.slot? (.blob digest) := by
    intro path digest isWanted
    obtain ⟨entry, member, -, rfl⟩ := entry_of_wantedBy isWanted
    exact slots entry (mem_payload.mp member).1
  refine ⟨synced.nonempty, synced.hash, ?_, ?_, ?_, ?_⟩
  · intro entry member
    rw [slots entry member]
    exact synced.allHeld entry member
  · exact synced.host.congr wanted (nodes _)
  · exact synced.snapshot.congr inPayload (nodes _)
  · rw [nodes]
    exact synced.root

/-- Assembling for another host keeps what a client has synced, even when it fails. -/
theorem Synced.assembled {relay : Relay} {own other : Payload} {payloadHash : String}
    (synced : Synced relay own payloadHash) (different : own.host ≠ other.host) :
    Synced ((cmdAssemble dumps other.host other.manifest).run relay).2 own payloadHash := by
  let kept : Tree → Prop := fun tree =>
    tree = .host own.host ∨ tree = .snapshot .provisioningPayload payloadHash
  have keeps : Preserves .reliable (TreesKept kept relay)
      (cmdAssemble dumps other.host other.manifest) := by
    refine cmdAssemble_keepsTrees ?_ ?_ ?_
    · rintro (same | impossible)
      · exact different (Tree.host.inj same).symm
      · cases impossible
    · rintro kind snapshotId (impossible | impossible) <;> cases impossible
    · rintro otherHash - (impossible | same)
      · cases impossible
      · rw [same]
        exact Option.isSome_iff_ne_none.mp synced.root
  have same := keeps.run .refl
  refine ⟨synced.nonempty, synced.hash, ?_, ?_, ?_, ?_⟩
  · intro entry member
    rw [same.blob]
    exact synced.allHeld entry member
  · exact synced.host.congr (fun _ digest _ => same.blob digest) fun path =>
      same.node _ path (.inl rfl)
  · exact synced.snapshot.congr (fun _ digest _ => same.blob digest) fun path =>
      same.node _ path (.inr rfl)
  · rw [same.node _ _ (.inr rfl)]
    exact synced.root

/-- A payload that was assembled is on the relay. -/
theorem synced_of_assembled {relay : Relay} {own : Payload}
    (nonempty : own.manifest.files ≠ [])
    (isDone : ((cmdAssemble dumps own.host own.manifest).run relay).1.isDone = true) :
    ∃ payloadHash, Synced ((cmdAssemble dumps own.host own.manifest).run relay).2 own payloadHash := by
  have ran : Meets .reliable (cmdAssemble dumps own.host own.manifest) relay _ _ := cmdAssemble_meets
  rcases ran.run with ⟨_, -, payloadHash, isHash, assemblable, assembled⟩ | ⟨_, raised, -⟩
  · refine ⟨payloadHash, nonempty, isHash, ?_, assembled.same, assembled.snapshot, assembled.root⟩
    intro entry member
    rw [assembled.slot _ (by simp) (by simp)]
    exact assemblable.allHeld entry member
  · rw [raised] at isDone
    cases isDone

/-- What a client has that is under way or has succeeded. -/
structure Progress (payload : Client → Payload) (syncs : Syncs Client) (client : Client) : Prop where
  nonempty : syncs.stage client ≠ .start → syncs.stage client ≠ .ended false →
    (payload client).manifest.files ≠ []
  synced : syncs.stage client = .ended true →
    ∃ payloadHash, Synced syncs.relay (payload client) payloadHash

/-- A client's own command. -/
theorem Progress.own {syncs : Syncs Client} {client : Client}
    (progress : Progress payload syncs client)
    (enabled : (clients dumps payload).Enabled syncs client) :
    Progress payload ((clients dumps payload).next syncs client) client := by
  have stage : ((clients dumps payload).next syncs client).stage client =
      syncs.stageAfter dumps payload client := Function.update_self ..
  have relay : ((clients dumps payload).next syncs client).relay =
      syncs.relayAfter dumps payload client := rfl
  have nonempty : syncs.stageAfter dumps payload client ≠ .ended false →
      (payload client).manifest.files ≠ [] := by
    intro goesOn
    cases isStage : syncs.stage client with
    | start =>
      intro isEmpty
      simp [Syncs.stageAfter, isStage, isEmpty] at goesOn
    | ended success => exact absurd isStage (enabled success)
    | told missing => exact progress.nonempty (by simp [isStage]) (by simp [isStage])
    | sent => exact progress.nonempty (by simp [isStage]) (by simp [isStage])
  refine ⟨fun _ goesOn => nonempty (stage ▸ goesOn), fun succeeded => ?_⟩
  rw [stage] at succeeded
  rw [relay]
  have files := nonempty (by simp [succeeded])
  cases isStage : syncs.stage client with
  | start =>
    simp only [Syncs.stageAfter, isStage] at succeeded
    split at succeeded
    · cases succeeded
    · split at succeeded <;> cases succeeded
  | told missing =>
    simp only [Syncs.stageAfter, isStage] at succeeded
    split at succeeded <;> cases succeeded
  | sent =>
    simp only [Syncs.stageAfter, isStage, Stage.ended.injEq] at succeeded
    simp only [Syncs.relayAfter, isStage]
    exact synced_of_assembled files succeeded
  | ended success => exact absurd isStage (enabled success)

/-- A command of another client. -/
theorem Progress.other {syncs : Syncs Client} {client other : Client} (different : other ≠ client)
    (hosts : (payload other).host ≠ (payload client).host)
    (harmless : Harmless payload syncs client) (progress : Progress payload syncs other) :
    Progress payload ((clients dumps payload).next syncs client) other := by
  have stage : ((clients dumps payload).next syncs client).stage other = syncs.stage other :=
    Function.update_of_ne different ..
  have relay : ((clients dumps payload).next syncs client).relay =
      syncs.relayAfter dumps payload client := rfl
  refine ⟨?_, ?_⟩
  · rw [stage]
    exact progress.nonempty
  · intro succeeded
    rw [stage] at succeeded
    obtain ⟨payloadHash, synced⟩ := progress.synced succeeded
    refine ⟨payloadHash, ?_⟩
    rw [relay]
    unfold Syncs.relayAfter
    split
    · rename_i missing isTold
      exact synced.uploaded (harmless missing isTold other different succeeded)
    · exact synced.assembled hosts
    · exact synced
    · exact synced

/-- Clients that sync payloads for different hosts, in any order of their commands:
when no upload replaces a blob that a client which has succeeded shares, then the
tree and the snapshot of every client that succeeds match its manifest, and syncing
its payload again succeeds. -/
theorem syncs_agree (hosts : ∀ client other, client ≠ other →
      (payload client).host ≠ (payload other).host)
    {start syncs : Syncs Client} {trace : List (System.Taken (Syncs Client) Client)}
    (run : (clients dumps payload).Run start trace syncs)
    (harmless : ∀ taken ∈ trace, Harmless payload taken.1 taken.2) (client : Client)
    (succeeded : syncs.stage client = .ended true) :
    (∃ payloadHash, Synced syncs.relay (payload client) payloadHash) ∧
      ∃ result, ((syncPayload dumps (payload client)).run syncs.relay).1 = .done result := by
  let inv : Syncs Client → Prop := fun syncs => ∀ client, Progress payload syncs client
  have initially : ∀ syncs, (clients dumps payload).Initial syncs → inv syncs := by
    intro syncs initial client
    refine ⟨fun started => absurd (initial client) started, fun succeeded => ?_⟩
    rw [initial client] at succeeded
    cases succeeded
  have preserved : ∀ syncs client, inv syncs → Harmless payload syncs client →
      (clients dumps payload).Enabled syncs client → inv ((clients dumps payload).next syncs client) := by
    intro syncs client progress harmless enabled other
    by_cases same : other = client
    · exact same ▸ (progress client).own enabled
    · exact (progress other).other same (hosts other client same) harmless
  have progress : inv syncs := run.invariant initially preserved harmless
  obtain ⟨payloadHash, synced⟩ := (progress client).synced succeeded
  exact ⟨⟨payloadHash, synced⟩, synced.again⟩

section Samples

/-- Two payloads that share a file, built at different times. -/
def sharing : Bool → Payload
  | false => ⟨"mast01", ⟨some "5feb", [⟨["drivers.zip"], 1, "2c26", by decide⟩]⟩, fun _ => ⟨[1], 10⟩⟩
  | true =>
    ⟨"mast02", ⟨some "6b86", [⟨["drivers.zip"], 1, "2c26", by decide⟩,
      ⟨["extra.txt"], 1, "fcde", by decide⟩]⟩, fun path => ⟨if path = ["extra.txt"] then [2] else [1], 20⟩⟩

/-- An empty relay, and clients that have not begun. -/
def noSyncs : Syncs Bool := ⟨Volume.empty, fun _ => .start⟩

/-- The system of the two clients. -/
abbrev sharingClients : System (Syncs Bool) Bool := clients (fun _ => []) sharing

/-- Both ask what is missing; the second uploads after the first has finished. -/
def overtaken : List Bool := [false, true, false, false, true, true]

/-- The second begins when the first has finished. -/
def inTurn : List Bool := [false, false, false, true, true, true]

instance decidableEnabled (syncs : Syncs Bool) (client : Bool) :
    Decidable (sharingClients.Enabled syncs client) :=
  match isStage : syncs.stage client with
  | .ended success => .isFalse fun enabled => enabled success isStage
  | .start | .told _ | .sent => .isTrue fun success isEnded => by rw [isStage] at isEnded; cases isEnded

theorem sharing_hosts : ∀ client other, client ≠ other →
    (sharing client).host ≠ (sharing other).host := by
  decide

theorem syncs_agree_inTurn :
    ∃ payloadHash, Synced (sharingClients.after noSyncs inTurn).relay (sharing true) payloadHash := by
  have started : sharingClients.Initial noSyncs := fun _ => rfl
  have follows : sharingClients.Follows noSyncs inTurn :=
    ⟨by decide +kernel, by decide +kernel, by decide +kernel, by decide +kernel, by decide +kernel,
      by decide +kernel, trivial⟩
  refine (syncs_agree sharing_hosts (.ofLabels started follows) ?_ true (by decide +kernel)).1
  have first : ∀ syncs : Syncs Bool, syncs.stage true = .start → Harmless sharing syncs false := by
    rintro syncs waiting missing - other different succeeded
    obtain rfl : other = true := by simpa using different
    rw [waiting] at succeeded
    cases succeeded
  have notTold : ∀ (syncs : Syncs Bool) client stage, syncs.stage client = stage →
      (∀ missing, stage ≠ .told missing) → Harmless sharing syncs client := by
    rintro syncs client _ rfl notTold missing isTold
    exact absurd isTold (notTold missing)
  simp only [inTurn, System.steps, List.mem_cons, List.not_mem_nil, or_false, forall_eq_or_imp,
    forall_eq]
  refine ⟨first _ rfl, first _ (by decide +kernel), first _ (by decide +kernel), ?_, ?_, ?_⟩
  · exact notTold _ _ .start (by decide +kernel) (by simp)
  · -- Only the file that the first payload lacks is sent.
    rintro missing isTold other different - blob isSent ⟨entry, isEntry, isBlob⟩
    obtain rfl : other = false := by simpa using different
    have told : (sharingClients.after noSyncs [false, false, false, true]).stage true =
        .told ["fcde"] := by decide +kernel
    obtain rfl : missing = ["fcde"] := Stage.told.inj (isTold.symm.trans told)
    have isExtra : blob.1 = "fcde" := by
      simpa using (List.mem_filter.mp isSent).2
    have isShared : entry.sha256 = "2c26" := by
      rw [List.mem_singleton.mp isEntry]
    rw [isBlob, isExtra] at isShared
    exact absurd isShared (by decide)
  · exact notTold _ _ .sent (by decide +kernel) (by simp)

/-- The second upload replaces the shared file; the tree of the first client is
then linked to no blob, and its payload is refused when it is synced again. -/
theorem shared_blob_replaced :
    sharingClients.Follows noSyncs overtaken ∧
      (sharingClients.after noSyncs overtaken).stage false = .ended true ∧
      (sharingClients.after noSyncs overtaken).stage true = .ended true ∧
      ¬ Matches (sharingClients.after noSyncs overtaken).relay (.host "mast01")
        (wantedBy (sharing false).manifest.files) ∧
      ((syncPayload (fun _ => []) (sharing false)).run
        (sharingClients.after noSyncs overtaken).relay).1 =
          .raised "exists and differs from this manifest" := by
  refine ⟨⟨by decide +kernel, by decide +kernel, by decide +kernel, by decide +kernel,
    by decide +kernel, by decide +kernel, trivial⟩, by decide +kernel, by decide +kernel, ?_,
    by decide +kernel⟩
  rw [← treeMatches_iff]
  decide +kernel

end Samples

end MastProvisioning.Blobstore
