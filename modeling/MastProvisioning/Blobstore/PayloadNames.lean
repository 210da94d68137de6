import MastProvisioning.Semantics.System
import MastProvisioning.Build.PayloadHash
import MastProvisioning.Blobstore.Snapshots

/-!
# The payload hash names the snapshot

The hash is taken in PowerShell and the trees are compared in Python. What the two
leave out is the same: the `build-manifest.json` at the root. So builds of one hash
want one snapshot, and no payload is refused on account of a snapshot that differs.
-/

namespace MastProvisioning.Blobstore

open MastProvisioning.Semantics MastProvisioning.Semantics.Command
open MastProvisioning.Collections MastProvisioning.Storage MastProvisioning.Build

/-- A build: its host, what it staged, the `build-manifest.json` it wrote last, and the
files that are there when it is synced. -/
structure PayloadBuild where
  host : String
  staging : Staging
  buildManifest : Bytes
  sources : Path → Source

section Wanted

variable (sha256 : Bytes → String)

/-- `payload-manifest.json`. -/
def PayloadBuild.manifest (build : PayloadBuild) : Manifest where
  payloadHash := some (build.staging.payloadHash sha256)
  files := getMastPayloadManifest sha256 build.staging.culture
    (getMastStagedFileHashes sha256 build.staging) build.buildManifest

/-- What is synced. -/
def PayloadBuild.payload (build : PayloadBuild) : Payload :=
  ⟨build.host, build.manifest sha256, build.sources⟩

variable {sha256} {build other : PayloadBuild}

theorem PayloadBuild.manifest_payloadHash (build : PayloadBuild) :
    (build.manifest sha256).payloadHash = some (build.staging.payloadHash sha256) := rfl

theorem isBuildManifest_BUILD_MANIFEST : isBuildManifest BUILD_MANIFEST = true :=
  isBuildManifest_iff.mpr ⟨_, rfl, rfl⟩

/-- The snapshot of a build is to hold the files its hash names. -/
theorem mem_payload_files {entry : Entry} :
    entry ∈ (build.manifest sha256).payload ↔
      ∃ file ∈ build.staging.payloadFiles, hashedFile sha256 file = entry := by
  rw [mem_payload, PayloadBuild.manifest]
  dsimp only
  rw [getMastPayloadManifest, sortObject, List.mem_insertionSort, keptHashes_eq, List.mem_append,
    List.mem_map, List.mem_singleton]
  constructor
  · rintro ⟨isKept | rfl, isOther⟩
    · exact isKept
    · exact absurd rfl isOther
  · rintro ⟨file, isFile, rfl⟩
    refine ⟨.inl ⟨file, isFile, rfl⟩, fun isManifest => ?_⟩
    have isPayload := (mem_payloadFiles.mp isFile).2
    rw [show file.path = BUILD_MANIFEST from isManifest, isBuildManifest_BUILD_MANIFEST] at isPayload
    cases isPayload

theorem wantedBy_payload {path : Path} {digest : String} :
    wantedBy (build.manifest sha256).payload path = some digest ↔
      ∃ file ∈ build.staging.payloadFiles, file.path = path ∧ sha256 file.content = digest := by
  have found : ∀ digest, wantedBy (build.manifest sha256).payload path = some digest →
      ∃ file ∈ build.staging.payloadFiles, file.path = path ∧ sha256 file.content = digest := by
    intro digest isWanted
    obtain ⟨entry, member, rfl, rfl⟩ := entry_of_wantedBy isWanted
    obtain ⟨file, isFile, rfl⟩ := mem_payload_files.mp member
    exact ⟨file, isFile, rfl, rfl⟩
  refine ⟨found digest, ?_⟩
  rintro ⟨file, isFile, rfl, rfl⟩
  have isSome : (wantedBy (build.manifest sha256).payload file.path).isSome :=
    wantedBy_isSome.mpr (List.mem_map.mpr ⟨_, mem_payload_files.mpr ⟨file, isFile, rfl⟩, rfl⟩)
  obtain ⟨digest, isWanted⟩ := Option.isSome_iff_exists.mp isSome
  obtain ⟨another, isAnother, samePath, rfl⟩ := found digest isWanted
  rw [isWanted, build.staging.file_unique (mem_payloadFiles.mp isAnother).1
    (mem_payloadFiles.mp isFile).1 samePath]

/-- Builds of one payload hash want one snapshot. -/
theorem wantedBy_payload_eq (injective : Function.Injective sha256)
    (hex : ∀ bytes, '\n' ∉ (sha256 bytes).toList)
    (same : build.staging.payloadHash sha256 = other.staging.payloadHash sha256) :
    wantedBy (build.manifest sha256).payload = wantedBy (other.manifest sha256).payload := by
  obtain ⟨sameMap, -⟩ := (payloadHash_eq_iff injective hex).mp same
  funext path
  refine Option.ext fun digest => ?_
  rw [wantedBy_payload, wantedBy_payload]
  refine exists_congr fun file => and_congr_left fun _ => ?_
  rw [mem_payloadFiles, mem_payloadFiles, and_congr_left_iff]
  exact sameMap file

end Wanted

section Refusals

variable {relay : Relay} {dumps : Manifest → Bytes}

/-- Every exception but the one for a snapshot that differs. -/
abbrev NotRefusal (message : String) : Prop := message ≠ "exists and differs from this manifest"

theorem notRefusal_append {start rest : String} {head : Char}
    (isHead : start.toList.head? = some head) (different : head ≠ 'e') :
    NotRefusal (start ++ rest) := by
  intro same
  have first : (start ++ rest).toList.head? = some head := by
    rw [String.toList_append, List.head?_append, isHead]
    rfl
  rw [same] at first
  exact different (Option.some.inj first).symm

theorem call_notRefusal {Value : Type} {message : String}
    {effect : Relay → Option (Value × Relay)} (other : NotRefusal message) :
    Raises NotRefusal (call message effect) :=
  .call (by decide) other

theorem makeDirs_notRefusal (tree : Tree) (path : Path) :
    Raises NotRefusal (makeDirs tree path : Command Relay Unit) := by
  have ensured : ∀ above, Raises NotRefusal (ensureDirectory tree above : Command Relay Unit) := by
    refine fun above => .bind (call_notRefusal (by decide)) fun node => ?_
    split
    · exact .pure ()
    · exact .exit (by decide)
    · exact call_notRefusal (by decide)
  have below : ∀ path above, Raises NotRefusal (makeDirsFrom tree above path : Command Relay Unit) := by
    intro path
    induction path with
    | nil => exact fun above => ensured above
    | cons name below ih => exact fun above => .bind (ensured above) fun _ => ih (above ++ [name])
  exact below path []

theorem whenever_notRefusal {condition : Bool} {command : Command Relay Unit}
    (raises : Raises NotRefusal command) : Raises NotRefusal (whenever condition command) := by
  unfold whenever
  split
  · exact raises
  · exact .done ()

theorem linkEntry_notRefusal (tree : Tree) (entry : Entry) :
    Raises NotRefusal (linkEntry tree entry) := by
  refine .bind (call_notRefusal (by decide)) fun blob => .bind (.require fun _ => ?_) fun _ =>
    .bind (makeDirs_notRefusal _ _) fun _ => .bind (call_notRefusal (by decide)) fun dest => .ite (.pure ()) ?_
  · exact notRefusal_append rfl (by decide)
  · exact .bind (whenever_notRefusal (call_notRefusal (by decide))) fun _ => call_notRefusal (by decide)

theorem pruneTo_notRefusal (tree : Tree) (wanted : List Path) :
    Raises NotRefusal (pruneTo tree wanted) := by
  refine .bind (call_notRefusal (by decide)) fun listing => .bind (.forEach fun entry => ?_) fun _ => .pure _
  unfold pruneEntry
  split
  · exact .ite (.pure ()) (call_notRefusal (by decide))
  · exact .bind (call_notRefusal (by decide)) fun _ => whenever_notRefusal (call_notRefusal (by decide))

theorem writeText_notRefusal (slot : Slot) (text : Bytes) : Raises NotRefusal (writeText slot text) :=
  .bind (call_notRefusal (by decide)) fun _ => call_notRefusal (by decide)

theorem removeTree_notRefusal (tolerant : Bool) (tree : Tree) :
    Raises NotRefusal (removeTree tolerant tree : Command Relay Unit) := by
  have attempted : ∀ {command : Command Relay Unit}, Raises NotRefusal command →
      Raises NotRefusal (attempt tolerant command) :=
    fun raises => .ite (.ignoreErrors _) raises
  refine .bind (call_notRefusal (by decide)) fun listing =>
    .bind (.forEach fun entry => attempted ?_) fun _ => attempted (call_notRefusal (by decide))
  unfold removeEntry
  split
  · exact call_notRefusal (by decide)
  · exact call_notRefusal (by decide)

/-- Recording a snapshot is not refused where the one there, if any, is the same. -/
theorem snapshot_notRefusal {kind : SnapshotKind} {snapshotId : String} {manifest : Manifest}
    (same : Exists relay kind snapshotId →
      Matches relay (.snapshot kind snapshotId) (wantedBy manifest.files)) :
    RaisesFrom NotRefusal relay (snapshot dumps kind snapshotId manifest) := by
  have read : ∀ {Value : Type} (read : Relay → Value), Meets .interrupted (query read) relay
      (fun value after => value = read relay ∧ after = relay) fun _ => True :=
    fun read => .query ⟨rfl, rfl⟩ fun _ => trivial
  refine .bind (call_notRefusal (by decide)).from_ (read _) ?_
  rintro final after ⟨rfl, rfl⟩
  by_cases isThere : (after.node? (.snapshot kind snapshotId) []).isSome
  · rw [if_pos isThere]
    refine .bind (call_notRefusal (by decide)).from_ (read _) ?_
    rintro isSame last ⟨rfl, rfl⟩
    refine (Raises.bind (.require fun differs => ?_) fun _ => .pure _).from_
    rw [treeMatches_iff.mpr (same (Option.isSome_iff_ne_none.mp isThere))] at differs
    cases differs
  · rw [if_neg isThere]
    refine (Raises.bind (call_notRefusal (by decide)) fun _ =>
      .bind (whenever_notRefusal (removeTree_notRefusal _ _)) fun _ =>
      .bind (.onException (.forEach fun entry => ?_) (removeTree_notRefusal _ _)) fun _ =>
      .bind (writeText_notRefusal _ _) fun _ => .bind (call_notRefusal (by decide)) fun _ =>
      .pure _).from_
    exact .bind (call_notRefusal (by decide)) fun _ =>
      .bind (.require fun _ => notRefusal_append rfl (by decide)) fun _ =>
      .bind (makeDirs_notRefusal _ _) fun _ => call_notRefusal (by decide)

/-- Assembling is not refused where the snapshot of the payload, if there is one, holds
the payload. -/
theorem cmdAssemble_notRefusal {host : String} {manifest : Manifest} {payloadHash : String}
    (isHash : manifest.payloadHash = some payloadHash)
    (holds : Exists relay .provisioningPayload payloadHash →
      Matches relay (.snapshot .provisioningPayload payloadHash) (wantedBy manifest.payload)) :
    RaisesFrom NotRefusal relay (cmdAssemble dumps host manifest) := by
  let same := TreesKept (· = .snapshot .provisioningPayload payloadHash) relay
  have steps : ∀ volume after, same volume → TreeStep (.host host) volume after → same after :=
    fun _ _ => TreesKept.treeStep (by simp)
  refine .bind (makeDirs_notRefusal _ _).from_ (makeDirs_keeps steps _ relay .refl) fun _ rooted kept => ?_
  refine .bind (Raises.forEach fun entry => linkEntry_notRefusal _ entry).from_
    (Preserves.forEach (fun entry _ => linkEntry_keeps steps entry) rooted kept) fun _ linked kept => ?_
  refine .bind (pruneTo_notRefusal _ _).from_ (pruneTo_keeps steps _ linked kept) fun _ pruned kept => ?_
  refine .bind (writeText_notRefusal _ _).from_
    (writeText_keeps _ (fun _ _ => TreesKept.textStep (by simp)) pruned kept) fun _ written kept => ?_
  rw [isHash]
  have recorded : RaisesFrom NotRefusal written
      (snapshot dumps .provisioningPayload payloadHash (snapshotManifest manifest)) := by
    refine snapshot_notRefusal fun isThere => ?_
    refine (holds fun absent => isThere ?_).congr (fun _ digest _ => kept.blob digest)
      fun path => kept.node _ path rfl
    exact (kept.node _ [] rfl).trans absent
  exact .bind recorded (.ofFinal fun _ => trivial : Meets _ _ _ _ fun _ => True)
    fun _ _ _ => (Raises.pure _).from_

end Refusals

section Syncing

variable {sha256 : Bytes → String} {dumps : Manifest → Bytes} {relay : Relay} {build : PayloadBuild}

/-- The snapshot under the hash of a build holds the build. -/
def Named (sha256 : Bytes → String) (relay : Relay) : Prop :=
  ∀ build : PayloadBuild, Exists relay .provisioningPayload (build.staging.payloadHash sha256) →
    Matches relay (.snapshot .provisioningPayload (build.staging.payloadHash sha256))
      (wantedBy (build.manifest sha256).payload)

/-- Uploading what is missing keeps the blobs that are held. -/
theorem uploadMissing_keeps (sources : List (String × Source)) (manifest : Manifest) :
    Meets .interrupted (uploadBlobs sources (missingDigests relay manifest)) relay
      (fun _ after => ∀ digest ino, relay.slot? (.blob digest) = some ino →
        BlobKept relay digest ino after)
      fun after => ∀ digest ino, relay.slot? (.blob digest) = some ino →
        BlobKept relay digest ino after := by
  have keeps : Preserves .interrupted
      (fun after => ∀ digest ino, relay.slot? (.blob digest) = some ino →
        BlobKept relay digest ino after)
      (uploadBlobs sources (missingDigests relay manifest)) := by
    refine .bind (.require _ _) fun _ => .forEach fun blob member => .change ?_
    rintro volume after kept ⟨⟩ digest ino isBlob
    refine (kept digest ino isBlob).sent ?_
    rintro rfl
    have isMissing := (mem_missingDigests.mp (by simpa using (List.mem_filter.mp member).2)).2
    rw [isMissing] at isBlob
    cases isBlob
  exact keeps relay fun digest ino isBlob => ⟨fun _ _ => rfl, isBlob, rfl⟩

theorem Named.uploaded {after : Relay} (named : Named sha256 relay)
    (nodes : NodesKept relay after)
    (kept : ∀ digest ino, relay.slot? (.blob digest) = some ino → BlobKept relay digest ino after) :
    Named sha256 after := by
  intro build isThere
  have holds := named build fun absent => isThere ((nodes _ []).trans absent)
  refine holds.congr ?_ (nodes _)
  intro path digest isWanted
  obtain ⟨ino, isBlob, -⟩ := holds.linked path digest isWanted
  rw [isBlob]
  exact (kept digest ino isBlob).slot

theorem Named.assembled (injective : Function.Injective sha256)
    (hex : ∀ bytes, '\n' ∉ (sha256 bytes).toList) (named : Named sha256 relay)
    (faults : List Fault) :
    Named sha256 (cmdAssemble dumps build.host (build.manifest sha256) ⟨relay, faults⟩).2.state := by
  let order : Order := .assemble build.host (build.manifest sha256)
  change Named sha256 (order.relayAfter sha256 dumps relay faults)
  intro other isThere
  by_cases wasThere : Exists relay .provisioningPayload (other.staging.payloadHash sha256)
  · have kept : Preserves .interrupted (TreesKept (fun _ => False) relay)
        (cmdAssemble dumps build.host (build.manifest sha256)) :=
      cmdAssemble_keepsTrees id (fun _ _ => id) fun _ _ => False.elim
    exact (named other wasThere).congr
      (fun _ digest _ => ((kept relay .refl).final faults).blob digest) (order.treeKept wasThere)
  · cases records : order.Records .provisioningPayload (other.staging.payloadHash sha256) with
    | none => exact absurd isThere (order.stillAbsent wasThere records)
    | some wanted =>
      have same := Order.Records_assemble.mp records
      cases isDone : order.isDone dumps relay faults with
      | false => exact absurd isThere (order.records_failed wasThere records isDone)
      | true =>
        rw [← wantedBy_payload_eq injective hex (Option.some.inj same.1.2), same.2]
        exact order.records_done records isDone

theorem Named.uploading (named : Named sha256 relay) (payload : Payload) :
    Meets .interrupted
      (whenever (!(missingDigests relay payload.manifest).isEmpty)
        (uploadBlobs payload.sources (missingDigests relay payload.manifest))) relay
      (fun _ => Named sha256) (Named sha256) := by
  refine whenever_meets (fun _ => ?_) fun _ => named
  refine ((uploadMissing_keeps _ _).and (uploadBlobs_nodes relay fun _ _ => rfl)).mono ?_ ?_
  · rintro _ after ⟨kept, nodes⟩
    exact named.uploaded nodes kept
  · rintro after ⟨kept, nodes⟩
    exact named.uploaded nodes kept

/-- Syncing keeps what the snapshots are named by, when assembling does. -/
theorem Named.synced {payload : Payload} (named : Named sha256 relay)
    (assembled : ∀ middle, Named sha256 middle → ∀ faults, Named sha256
      (cmdAssemble dumps payload.host payload.manifest ⟨middle, faults⟩).2.state) :
    Meets .interrupted (syncPayload dumps payload) relay (fun _ => Named sha256) (Named sha256) := by
  refine .require_bind (fun _ => .query_bind ?_ fun _ => named) fun _ => named
  exact (named.uploading payload).bind fun _ middle still => .ofFinal (assembled middle still)

/-- Syncing is not refused when assembling is not. -/
theorem Named.notRefused {payload : Payload} (named : Named sha256 relay)
    (assembled : ∀ middle, Named sha256 middle →
      RaisesFrom NotRefusal middle (cmdAssemble dumps payload.host payload.manifest)) :
    RaisesFrom NotRefusal relay (syncPayload dumps payload) := by
  refine .bind (Raises.require fun _ => by decide).from_
    (.require (fun _ => rfl) (fun _ => trivial) : Meets _ _ _ (fun _ after => after = relay)
      fun _ => True) ?_
  rintro ⟨⟩ still rfl
  refine .bind (call_notRefusal (by decide)).from_
    (.query ⟨rfl, rfl⟩ fun _ => trivial : Meets _ _ _ (fun missing after =>
      missing = missingDigests still payload.manifest ∧ after = still) fun _ => True) ?_
  rintro _ _ ⟨rfl, rfl⟩
  refine .bind (whenever_notRefusal (.bind (.require fun _ => by decide) fun _ =>
    .forEach fun blob => call_notRefusal (by decide))).from_ (named.uploading payload) ?_
  exact fun _ middle still => assembled middle still

end Syncing

section Runs

variable (sha256 : Bytes → String) (dumps : Manifest → Bytes)

/-- Builds synced one after another to a relay that starts empty; each sync is done,
fails or is cut off. -/
def payloads : System Relay (PayloadBuild × List Fault) where
  Initial relay := relay = Volume.empty
  Enabled _ _ := True
  next relay synced := (syncPayload dumps (synced.1.payload sha256) ⟨relay, synced.2⟩).2.state

variable {sha256 dumps}

/-- Two builds have one payload hash exactly when they stage the same files apart from
`build-manifest.json`, if and only if those that do also sort the paths the same, as
they do under one culture that tells the paths apart; and no payload is ever refused
because a snapshot of its hash exists and differs. -/
theorem payloadHash_names_snapshot (injective : Function.Injective sha256)
    (hex : ∀ bytes, '\n' ∉ (sha256 bytes).toList) :
    (∀ first second : Staging,
      (first.payloadHash sha256 = second.payloadHash sha256 ↔ SameMap first second) ↔
        (SameMap first second → first.sortedPaths = second.sortedPaths)) ∧
    (∀ first second : Staging, first.culture = second.culture →
      (∀ file ∈ first.staged, ∀ other ∈ first.staged,
        first.culture (relativePath file.path) = first.culture (relativePath other.path) →
          file.path = other.path) →
      (first.payloadHash sha256 = second.payloadHash sha256 ↔ SameMap first second)) ∧
    ∀ (dumps : Manifest → Bytes) (start relay : Relay)
        (trace : List (System.Taken Relay (PayloadBuild × List Fault))),
      (payloads sha256 dumps).Run start trace relay → ∀ taken ∈ trace,
        (syncPayload dumps (taken.2.1.payload sha256) ⟨taken.1, taken.2.2⟩).1 ≠
          .raised "exists and differs from this manifest" := by
  refine ⟨?_, ?_, ?_⟩
  · intro first second
    rw [payloadHash_eq_iff injective hex]
    constructor
    · exact fun names sameMap => (names.mpr sameMap).2
    · exact fun sorts => ⟨And.left, fun sameMap => ⟨sameMap, sorts sameMap⟩⟩
  · intro first second culture apart
    rw [payloadHash_eq_iff injective hex]
    exact ⟨And.left, fun sameMap => ⟨sameMap, sortedPaths_eq culture apart sameMap⟩⟩
  · intro dumps start relay trace run
    have initially : ∀ relay, (payloads sha256 dumps).Initial relay → Named sha256 relay := by
      rintro relay rfl build isThere
      exact absurd rfl isThere
    have preserved : ∀ relay synced, Named sha256 relay → True →
        (payloads sha256 dumps).Enabled relay synced →
        Named sha256 ((payloads sha256 dumps).next relay synced) := by
      rintro relay ⟨build, faults⟩ named - -
      have assembled : ∀ middle, Named sha256 middle → ∀ faults, Named sha256
          (cmdAssemble dumps build.host (build.manifest sha256) ⟨middle, faults⟩).2.state :=
        fun middle still => still.assembled injective hex
      have synced : Meets .interrupted (syncPayload dumps (build.payload sha256)) relay
          (fun _ => Named sha256) (Named sha256) := named.synced assembled
      exact synced.final faults
    have safe : ∀ relay synced, Named sha256 relay → True →
        (payloads sha256 dumps).Enabled relay synced →
        (syncPayload dumps (synced.1.payload sha256) ⟨relay, synced.2⟩).1 ≠
          .raised "exists and differs from this manifest" := by
      intro relay synced named _ _ refused
      have notRefused : RaisesFrom NotRefusal relay
          (syncPayload dumps (synced.1.payload sha256)) :=
        named.notRefused fun middle still =>
          cmdAssemble_notRefusal synced.1.manifest_payloadHash (still synced.1)
      exact notRefused synced.2 "exists and differs from this manifest" refused rfl
    exact run.everyStep initially preserved safe fun _ _ => trivial

end Runs

section Samples

/-- A digest that spells out the bytes. -/
def spelled (bytes : Bytes) : String :=
  String.ofList (bytes.map fun byte => Char.ofNat (byte.toNat + 48))

theorem spelled_toNat (byte : UInt8) : (Char.ofNat (byte.toNat + 48)).toNat = byte.toNat + 48 := by
  have small : ∀ code : Fin 256, (Char.ofNat (code.val + 48)).toNat = code.val + 48 := by
    decide +kernel
  exact small ⟨byte.toNat, byte.toNat_lt⟩

theorem spelled_injective : Function.Injective spelled := by
  intro bytes other same
  refine List.map_injective_iff.mpr ?_ (String.ofList_inj.mp same)
  intro byte another sameChar
  have sameNat := congrArg Char.toNat sameChar
  rw [spelled_toNat, spelled_toNat] at sameNat
  exact UInt8.toNat_inj.mp (Nat.add_right_cancel sameNat)

theorem spelled_hex (bytes : Bytes) : '\n' ∉ (spelled bytes).toList := by
  intro member
  rw [spelled, String.toList_ofList] at member
  obtain ⟨byte, -, isFeed⟩ := List.mem_map.mp member
  have code := spelled_toNat byte
  rw [isFeed] at code
  have visible : '\n'.toNat < 48 := by decide
  omega

/-- The order of the letters in English. -/
def english (text : String) : List Nat := text.toList.map Char.toNat

/-- In Danish `aa` comes after `z`. -/
def danishLetters : List Char → List Nat
  | 'a' :: 'a' :: rest => 229 :: danishLetters rest
  | letter :: rest => letter.toNat :: danishLetters rest
  | [] => []

def danish (text : String) : List Nat := danishLetters text.toList

/-- Two files, staged on a host of some culture. -/
def catalogues (culture : Culture) : Staging where
  culture := culture
  root := "C:\\staging"
  entries := .file "aavso.csv" [1] (.file "mast.csv" [2] .none)
  reals := by decide
  distinct := by decide
  plain := by simp [Entries.allFiles, PlainFileName]

/-- The same files, listed in another order, over what an earlier build has left. -/
def rebuilt : Staging where
  culture := english
  root := "C:\\staging"
  entries := .file "build-manifest.json" [3] (.file "mast.csv" [2] (.file "aavso.csv" [1] .none))
  reals := by decide
  distinct := by decide
  plain := by simp [Entries.allFiles, PlainFileName]

theorem payloadHash_names_snapshot_rebuilt :
    (catalogues english).payloadHash spelled = rebuilt.payloadHash spelled ↔
      SameMap (catalogues english) rebuilt :=
  ((payloadHash_names_snapshot spelled_injective spelled_hex).1 _ _).mpr fun _ => by decide +kernel

/-- Built on an English and on a Danish host, the same files have two payload hashes. -/
theorem danish_build_named_apart :
    ¬ ((catalogues english).payloadHash spelled = (catalogues danish).payloadHash spelled ↔
      SameMap (catalogues english) (catalogues danish)) := by
  intro names
  have sameHash := names.mpr fun _ _ => .rfl
  obtain ⟨-, sorts⟩ := (payloadHash_eq_iff spelled_injective spelled_hex).mp sameHash
  exact absurd sorts (by decide +kernel)

end Samples

end MastProvisioning.Blobstore
