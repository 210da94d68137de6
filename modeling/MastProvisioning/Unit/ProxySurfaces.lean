import MastProvisioning.Collections.LengthPrefixed
import MastProvisioning.Collections.Words
import MastProvisioning.PowerShell.SettingsFile
import Mathlib

/-!
# The proxy surfaces of a unit

The machine's environment, the values WinINet reads, the two binary records in which
WinINet keeps its connection, and WinHTTP are written one after another.

A record that is there is patched: its flags byte and its counter change, its texts stay.
One that is not is built from the new texts.
-/

namespace MastProvisioning.Unit.ProxySurfaces

open MastProvisioning.Collections.LengthPrefixed
open MastProvisioning.PowerShell.SettingsFile

section Texts

/-- The decimal digits of a regular expression, `\d`: of ASCII there are the ten, outside of
it the expression takes more. -/
structure Digits where
  isDigit : Char → Bool
  ascii : ∀ character, isAscii character = true → isDigit character = character.isDigit

/-- `\d+`. -/
def isNumeral (digits : Digits) (text : Text) : Bool :=
  !text.isEmpty && text.all digits.isDigit

/-- `\d+\.\d+\.\d+\.\d+`: the four numerals. -/
def dottedNumerals (digits : Digits) (address : Text) : Option (Text × Text × Text × Text) :=
  match address.splitOn '.' with
  | [first, second, third, fourth] =>
    if [first, second, third, fourth].all (isNumeral digits) then some (first, second, third, fourth)
    else none
  | _ => none

/-- One entry of a bypass list: a network of 24 or 16 bits becomes a wildcard. -/
def convertEntry (digits : Digits) (entry : Text) : Text :=
  match entry.splitOn '/' with
  | [address, length] =>
    match dottedNumerals digits address with
    | some (first, second, third, _) =>
      if length = "24".toList then first ++ '.' :: second ++ '.' :: third ++ ".*".toList
      else if length = "16".toList then first ++ '.' :: second ++ ".*".toList
      else entry
    | none => entry
  | _ => entry

/-- The entries of a list. -/
def entriesOf (list : Text) : List Text :=
  ((list.splitOn ',').map trim).filter fun entry => entry ≠ []

def localMark : Text := "<local>".toList

/-- `Convert-NoProxyToWildcardBypass`. -/
def convertNoProxyToWildcardBypass (digits : Digits) (list : Text) : Text :=
  let parts := (entriesOf list).map (convertEntry digits)
  let parts := if parts.any (sameText localMark) then parts else parts ++ [localMark]
  [';'].intercalate parts

/-- `^https?://`. -/
def isHttpUrl (url : Text) : Bool :=
  startsWith "http://".toList url || startsWith "https://".toList url

/-- `^[^:/]+:\d+$`, where `$` stands before a last line feed as well. -/
def isHostPort (digits : Digits) (url : Text) : Bool :=
  let inHost := fun character => character ≠ ':' && character ≠ '/'
  match url.dropWhile inHost with
  | ':' :: rest =>
    let after := rest.dropWhile digits.isDigit
    !(url.takeWhile inHost).isEmpty && !(rest.takeWhile digits.isDigit).isEmpty &&
      (after == [] || after == ['\n'])
  | _ => false

/-- `Get-ProxyHostPort`. What `[System.Uri]` makes of a URL, its host and port, is a
parameter; it throws on some texts. -/
def getProxyHostPort (digits : Digits) (parseUri : Text → Option (Text × Int)) (url : Text) :
    Option Text :=
  if url = [] then none
  else if isHttpUrl url then
    match parseUri url with
    | none => none
    | some (host, port) =>
      if host = [] then none
      else some (host ++ ':' :: (toString (if port ≤ 0 then 80 else port)).toList)
  else if isHostPort digits url then some url
  else none

end Texts

section Records

/-- `[System.Text.Encoding]::ASCII.GetBytes`: a question mark for each UTF-16 unit of any
other character. -/
def asciiBytes (text : Text) : List UInt8 :=
  text.flatMap fun character =>
    if isAscii character then [UInt8.ofNat character.toNat]
    else if character.toNat < 0x10000 then [63]
    else [63, 63]

/-- `[System.BitConverter]::ToUInt32`. -/
def toUInt32 (blob : List UInt8) (offset : Nat) : Nat :=
  valueOf ((blob.drop offset).take 4)

inductive Mode where
  | use
  | direct
deriving DecidableEq, Repr

/-- Manual proxy only, or direct only. -/
def Mode.flags : Mode → UInt8
  | .use => 0x02
  | .direct => 0x01

/-- `New-WinINetConnBlob`. -/
def newWinINetConnBlob (flags : UInt8) (hostPort bypass : Text) : List UInt8 :=
  let server := if flags &&& 0x02 ≠ 0 then hostPort else []
  let bypass := if flags &&& 0x02 ≠ 0 then bypass else []
  number 4 0x46 ++ number 4 1 ++ number 4 flags.toNat ++ field 4 (asciiBytes server) ++
    field 4 (asciiBytes bypass) ++ number 4 0 ++ List.replicate 32 0

/-- A record that is there, with the flags byte set and the counter replaced. -/
def patchBlob (flags : UInt8) (counter : Nat) (blob : List UInt8) : List UInt8 :=
  let flagged := blob.set 8 flags
  flagged.take 4 ++ number 4 counter ++ flagged.drop 8

/-- One record of `Set-WinINetConnectionFlags`; `none` when the counter is cast to a number
too large for it. -/
def writeBlob (flags : UInt8) (hostPort bypass : Text) : Option (List UInt8) → Option (List UInt8)
  | some blob =>
    if 12 ≤ blob.length then
      if toUInt32 blob 4 + 1 < 2 ^ 32 then some (patchBlob flags (toUInt32 blob 4 + 1) blob) else none
    else some (newWinINetConnBlob flags hostPort bypass)
  | none => some (newWinINetConnBlob flags hostPort bypass)

/-- What a record says, under the layout that is documented with it. -/
structure Connection where
  counter : Nat
  flags : Nat
  server : Text
  bypass : Text
  pacUrl : Text
deriving DecidableEq, Repr

/-- Bytes as a text of ASCII. -/
def decodeText (bytes : List UInt8) : Option Text :=
  if bytes.all (· < 128) then some (bytes.map fun byte => Char.ofNat byte.toNat) else none

/-- A text behind its length, and what follows it. -/
def takeText (bytes : List UInt8) : Option (Text × List UInt8) :=
  match takeField 4 bytes with
  | none => none
  | some (content, rest) => (decodeText content).map fun text => (text, rest)

/-- The server, the bypass list and the URL of a script. -/
def takeTexts (bytes : List UInt8) : Option (Text × Text × Text) :=
  match takeText bytes with
  | none => none
  | some (server, afterServer) =>
    match takeText afterServer with
    | none => none
    | some (bypass, afterBypass) =>
      (takeText afterBypass).map fun script => (server, bypass, script.1)

/-- Version, counter and flags, then the texts. -/
def decode (blob : List UInt8) : Option Connection :=
  if blob.length < 12 ∨ toUInt32 blob 0 ≠ 0x46 then none
  else
    (takeTexts (blob.drop 12)).map fun texts =>
      { counter := toUInt32 blob 4
        flags := toUInt32 blob 8
        server := texts.1
        bypass := texts.2.1
        pacUrl := texts.2.2 }

end Records

section State

/-- What a unit says about its proxy: the environment of the machine, the values and the
records of WinINet, and WinHTTP, which has a server and a bypass list or goes direct. -/
structure Surfaces where
  httpProxy : Option Text
  httpsProxy : Option Text
  noProxy : Option Text
  proxyEnable : Option Nat
  proxyServer : Option Text
  proxyOverride : Option Text
  defaultConnectionSettings : Option (List UInt8)
  savedLegacySettings : Option (List UInt8)
  winHttp : Option (Text × Text)
deriving DecidableEq, Repr

structure Request where
  mode : Mode
  httpProxy : Text
  httpsProxy : Text
  noProxy : Text
deriving DecidableEq, Repr

/-- `SetEnvironmentVariable` takes these values for no value. -/
def clears : Text → Bool
  | [] => true
  | character :: _ => character == '\x00'

/-- One variable of the machine. -/
def writeVariable (mode : Mode) (value : Text) (previous : Option Text) : Option Text :=
  match mode, previous with
  | .use, some old => if sameText old value then some old else if clears value then none else some value
  | .use, none => if clears value then none else some value
  | .direct, some old => if old = [] then some old else none
  | .direct, none => none

def writeEnvironment (request : Request) (state : Surfaces) : Surfaces :=
  { state with
    httpProxy := writeVariable request.mode request.httpProxy state.httpProxy
    httpsProxy := writeVariable request.mode request.httpsProxy state.httpsProxy
    noProxy := writeVariable request.mode request.noProxy state.noProxy }

/-- The bypass list of WinINet, when it has one. -/
def overrideOf (digits : Digits) (list : Text) : Option Text :=
  if list = [] then none else some (convertNoProxyToWildcardBypass digits list)

/-- `Set-WinINetProxy`. -/
def setWinINetProxy (digits : Digits) (mode : Mode) (hostPort list : Text) (state : Surfaces) :
    Surfaces :=
  match mode with
  | .use =>
    { state with
      proxyEnable := some 1
      proxyServer := some hostPort
      proxyOverride := overrideOf digits list }
  | .direct =>
    { state with
      proxyEnable := some 0
      proxyServer := some []
      proxyOverride := none }

/-- `Set-WinHttpProxy`, as `netsh` takes its command. -/
def setWinHttpProxy (digits : Digits) (mode : Mode) (hostPort list : Text) (state : Surfaces) :
    Surfaces :=
  match mode with
  | .use => { state with winHttp := some (hostPort, (overrideOf digits list).getD localMark) }
  | .direct => { state with winHttp := none }

/-- What a call leaves, and the message it throws. -/
structure Outcome where
  after : Surfaces
  thrown : Option String
deriving DecidableEq, Repr

def castMessage : String :=
  "Cannot convert value \"4294967296\" to type \"System.UInt32\". Error: \"Value was either too large or too small for a UInt32.\""

/-- `Set-WinINetConnectionFlags`: one record, then the other. -/
def setWinINetConnectionFlags (digits : Digits) (mode : Mode) (hostPort list : Text)
    (state : Surfaces) : Outcome :=
  let bypass := (overrideOf digits list).getD []
  match writeBlob mode.flags hostPort bypass state.defaultConnectionSettings with
  | none => { after := state, thrown := some castMessage }
  | some blob =>
    let state := { state with defaultConnectionSettings := some blob }
    match writeBlob mode.flags hostPort bypass state.savedLegacySettings with
    | none => { after := state, thrown := some castMessage }
    | some legacy => { after := { state with savedLegacySettings := some legacy }, thrown := none }

/-- `Set-MastProxyState`. In direct mode the helpers get neither a server nor a list. -/
def setMastProxyState (digits : Digits) (parseUri : Text → Option (Text × Int)) (request : Request)
    (state : Surfaces) : Outcome :=
  let state := writeEnvironment request state
  let parsed := getProxyHostPort digits parseUri request.httpsProxy
  match request.mode, parsed with
  | .use, none =>
    { after := state
      thrown := some ("Cannot parse host:port out of HttpsProxy='" ++
        String.ofList request.httpsProxy ++ "'.") }
  | .use, some hostPort =>
    let flagged := setWinINetConnectionFlags digits .use hostPort request.noProxy
      (setWinINetProxy digits .use hostPort request.noProxy state)
    match flagged.thrown with
    | some message => { flagged with thrown := some message }
    | none => { flagged with after := setWinHttpProxy digits .use hostPort request.noProxy flagged.after }
  | .direct, _ =>
    let flagged := setWinINetConnectionFlags digits .direct [] []
      (setWinINetProxy digits .direct [] [] state)
    match flagged.thrown with
    | some message => { flagged with thrown := some message }
    | none => { flagged with after := setWinHttpProxy digits .direct [] [] flagged.after }

end State

section Purpose

/-- An entry that names a network: an address, dotted or with colons, and a length. -/
def isCidr (digits : Digits) (entry : Text) : Bool :=
  match entry.splitOn '/' with
  | [address, length] =>
    isNumeral digits length && ((dottedNumerals digits address).isSome || address.contains ':')
  | _ => false

/-- A bypass text has no entry that names a network. -/
def noCidr (digits : Digits) (bypass : Text) : Bool :=
  (bypass.splitOn ';').all fun entry => !isCidr digits (trim entry)

/-- A record without its counter. -/
def clearCounter (blob : List UInt8) : List UInt8 :=
  blob.take 4 ++ ((blob.drop 4).take 4).map (fun _ => 0) ++ blob.drop 8

/-- The surfaces, the counters of the records apart. -/
def Surfaces.withoutCounters (state : Surfaces) : Surfaces :=
  { state with
    defaultConnectionSettings := state.defaultConnectionSettings.map clearCounter
    savedLegacySettings := state.savedLegacySettings.map clearCounter }

/-- A record says what the mode and the values of WinINet say. -/
def BlobAgrees (mode : Mode) (state : Surfaces) (blob : Option (List UInt8)) : Prop :=
  ∃ connection, blob.bind decode = some connection ∧ connection.flags = mode.flags.toNat ∧
    connection.server = state.proxyServer.getD [] ∧ connection.bypass = state.proxyOverride.getD []

/-- What a call owes: surfaces that agree, no network in a bypass list and nothing but
counters left to change for a second call, or nothing at all. -/
structure Agree (digits : Digits) (parseUri : Text → Option (Text × Int)) (request : Request)
    (state : Surfaces) : Prop where
  defaultBlob : (setMastProxyState digits parseUri request state).thrown = none →
    BlobAgrees request.mode (setMastProxyState digits parseUri request state).after
      (setMastProxyState digits parseUri request state).after.defaultConnectionSettings
  legacyBlob : (setMastProxyState digits parseUri request state).thrown = none →
    BlobAgrees request.mode (setMastProxyState digits parseUri request state).after
      (setMastProxyState digits parseUri request state).after.savedLegacySettings
  bypass : (setMastProxyState digits parseUri request state).thrown = none →
    ∀ text,
      (setMastProxyState digits parseUri request state).after.proxyOverride = some text ∨
        (setMastProxyState digits parseUri request state).after.winHttp.map Prod.snd = some text →
      noCidr digits text = true
  again : (setMastProxyState digits parseUri request state).thrown = none →
    (setMastProxyState digits parseUri request
      (setMastProxyState digits parseUri request state).after).after.withoutCounters =
      (setMastProxyState digits parseUri request state).after.withoutCounters
  failed : (setMastProxyState digits parseUri request state).thrown ≠ none →
    (setMastProxyState digits parseUri request state).after = state

end Purpose

section Blobs

variable {flags : UInt8} {blob : List UInt8} {counter : Nat} {text server bypass : Text}

theorem exists_four (long : 4 ≤ blob.length) :
    ∃ first second third fourth rest, blob = first :: second :: third :: fourth :: rest := by
  rcases blob with _ | ⟨first, _ | ⟨second, _ | ⟨third, _ | ⟨fourth, rest⟩⟩⟩⟩
  · simp at long
  · simp at long
  · simp at long
  · simp at long
  · exact ⟨first, second, third, fourth, rest, rfl⟩

/-- The version, the counter and the flags of a record that is long enough. -/
theorem exists_header (long : 12 ≤ blob.length) :
    ∃ v₀ v₁ v₂ v₃ c₀ c₁ c₂ c₃ f₀ f₁ f₂ f₃ rest,
      blob = v₀ :: v₁ :: v₂ :: v₃ :: c₀ :: c₁ :: c₂ :: c₃ :: f₀ :: f₁ :: f₂ :: f₃ :: rest := by
  obtain ⟨v₀, v₁, v₂, v₃, afterVersion, rfl⟩ := exists_four (show 4 ≤ blob.length by omega)
  simp only [List.length_cons] at long
  obtain ⟨c₀, c₁, c₂, c₃, afterCounter, rfl⟩ := exists_four (show 4 ≤ afterVersion.length by omega)
  simp only [List.length_cons] at long
  obtain ⟨f₀, f₁, f₂, f₃, rest, rfl⟩ := exists_four (show 4 ≤ afterCounter.length by omega)
  exact ⟨v₀, v₁, v₂, v₃, c₀, c₁, c₂, c₃, f₀, f₁, f₂, f₃, rest, rfl⟩

theorem number_four (value : Nat) :
    number 4 value = [UInt8.ofNat value, UInt8.ofNat (value / 256), UInt8.ofNat (value / 256 / 256),
      UInt8.ofNat (value / 256 / 256 / 256)] := rfl

/-- A patch changes the counter and the low byte of the flags, and nothing else. -/
theorem decode_patchBlob (long : 12 ≤ blob.length) :
    decode (patchBlob flags counter blob) =
      (decode blob).map fun connection =>
        { connection with
          counter := counter % 2 ^ 32
          flags := flags.toNat + connection.flags / 256 * 256 } := by
  obtain ⟨v₀, v₁, v₂, v₃, c₀, c₁, c₂, c₃, f₀, f₁, f₂, f₃, rest, rfl⟩ := exists_header long
  have patched : patchBlob flags counter
      (v₀ :: v₁ :: v₂ :: v₃ :: c₀ :: c₁ :: c₂ :: c₃ :: f₀ :: f₁ :: f₂ :: f₃ :: rest) =
      v₀ :: v₁ :: v₂ :: v₃ :: (number 4 counter ++ flags :: f₁ :: f₂ :: f₃ :: rest) := rfl
  have counterRead : toUInt32 (v₀ :: v₁ :: v₂ :: v₃ ::
      (number 4 counter ++ flags :: f₁ :: f₂ :: f₃ :: rest)) 4 = counter % 2 ^ 32 :=
    valueOf_number 4 counter
  have lowByte := f₀.toNat_lt
  have flagsRead : toUInt32 (v₀ :: v₁ :: v₂ :: v₃ ::
      (number 4 counter ++ flags :: f₁ :: f₂ :: f₃ :: rest)) 8 =
      flags.toNat + toUInt32 (v₀ :: v₁ :: v₂ :: v₃ :: c₀ :: c₁ :: c₂ :: c₃ :: f₀ :: f₁ :: f₂ ::
        f₃ :: rest) 8 / 256 * 256 := by
    simp only [toUInt32, number_four, List.cons_append, List.nil_append, List.drop_succ_cons,
      List.drop_zero, List.take_succ_cons, List.take_zero, valueOf]
    omega
  rw [patched]
  unfold decode
  rw [counterRead, flagsRead]
  have sameLength : (v₀ :: v₁ :: v₂ :: v₃ ::
      (number 4 counter ++ flags :: f₁ :: f₂ :: f₃ :: rest)).length =
      (v₀ :: v₁ :: v₂ :: v₃ :: c₀ :: c₁ :: c₂ :: c₃ :: f₀ :: f₁ :: f₂ :: f₃ :: rest).length := rfl
  rw [sameLength]
  by_cases version : toUInt32 (v₀ :: v₁ :: v₂ :: v₃ :: c₀ :: c₁ :: c₂ :: c₃ :: f₀ :: f₁ :: f₂ ::
      f₃ :: rest) 0 = 0x46
  · rw [if_neg (by simp only [not_or]; exact ⟨by simp, not_not.mpr version⟩),
      if_neg (by simp only [not_or]; exact ⟨by simp, not_not.mpr version⟩), Option.map_map]
    rfl
  · rw [if_pos (.inr version), if_pos (.inr version)]
    rfl

/-- A text that a record can hold: ASCII, and no longer than a length can say. -/
def Plain (text : Text) : Prop :=
  text.all isAscii = true ∧ text.length < 2 ^ 32

theorem plain_nil : Plain [] := ⟨rfl, by decide⟩

theorem asciiBytes_of_ascii (ascii : text.all isAscii = true) :
    asciiBytes text = text.map fun character => UInt8.ofNat character.toNat := by
  induction text with
  | nil => rfl
  | cons character rest ih =>
    rw [List.all_cons, Bool.and_eq_true] at ascii
    have front : asciiBytes (character :: rest) =
        [UInt8.ofNat character.toNat] ++ asciiBytes rest := by
      rw [asciiBytes, List.flatMap_cons, if_pos ascii.1]
      rfl
    rw [front, ih ascii.2]
    rfl

theorem decodeText_asciiBytes (ascii : text.all isAscii = true) :
    decodeText (asciiBytes text) = some text := by
  have low : ∀ character ∈ text, character.toNat < 128 := fun character member =>
    of_decide_eq_true (List.all_eq_true.mp ascii character member)
  have small : ∀ character ∈ text, (UInt8.ofNat character.toNat).toNat = character.toNat := by
    intro character member
    rw [UInt8.toNat_ofNat']
    exact Nat.mod_eq_of_lt ((low character member).trans (by decide))
  have allLow : (text.map fun character => UInt8.ofNat character.toNat).all (· < 128) = true := by
    rw [List.all_map]
    refine List.all_eq_true.mpr fun character member => decide_eq_true ?_
    show (UInt8.ofNat character.toNat).toNat < 128
    rw [small character member]
    exact low character member
  rw [asciiBytes_of_ascii ascii, decodeText, if_pos allLow, List.map_map]
  refine congrArg some ((List.map_congr_left fun character member => ?_).trans (List.map_id' text))
  show Char.ofNat (UInt8.ofNat character.toNat).toNat = character
  rw [small character member, Char.ofNat_toNat]

/-- What is decoded is ASCII. -/
theorem ascii_of_decodeText {bytes : List UInt8} (decoded : decodeText bytes = some text) :
    text.all isAscii = true ∧ text.length = bytes.length := by
  unfold decodeText at decoded
  split at decoded
  · rename_i low
    cases decoded
    refine ⟨?_, List.length_map _⟩
    rw [List.all_map]
    refine List.all_eq_true.mpr fun byte member => decide_eq_true ?_
    have small : byte.toNat < 128 := by
      have below := List.all_eq_true.mp low byte member
      exact of_decide_eq_true below
    show (Char.ofNat byte.toNat).toNat < 128
    rw [Char.toNat_ofNat, if_pos (.inl (small.trans (by decide)))]
    exact small
  · cases decoded

theorem takeText_field (plain : Plain text) (rest : List UInt8) :
    takeText (field 4 (asciiBytes text) ++ rest) = some (text, rest) := by
  have fits : (asciiBytes text).length < 256 ^ 4 := by
    rw [asciiBytes_of_ascii plain.1, List.length_map]
    exact plain.2
  rw [takeText, takeField_field fits]
  show (decodeText (asciiBytes text)).map _ = _
  rw [decodeText_asciiBytes plain.1, Option.map_some]

/-- Only a text that a record can hold is read back. -/
theorem plain_of_takeText {rest after : List UInt8}
    (taken : takeText (field 4 (asciiBytes text) ++ rest) = some (text, after)) : Plain text := by
  unfold takeText at taken
  split at taken
  · cases taken
  · rename_i content remaining found
    obtain ⟨read, decoded, same⟩ := Option.map_eq_some_iff.mp taken
    obtain ⟨rfl, -⟩ := Prod.mk.inj same
    obtain ⟨ascii, sameLength⟩ := ascii_of_decodeText decoded
    have bytes : (asciiBytes read).length = read.length := by
      rw [asciiBytes_of_ascii ascii, List.length_map]
    refine ⟨ascii, ?_⟩
    rw [← bytes]
    exact fits_of_takeField found (sameLength.symm.trans bytes.symm)

theorem takeTexts_fields (rest : List UInt8) :
    (∃ pacUrl, takeTexts (field 4 (asciiBytes server) ++ (field 4 (asciiBytes bypass) ++
      (field 4 [] ++ rest))) = some (server, bypass, pacUrl)) ↔ Plain server ∧ Plain bypass := by
  constructor
  · rintro ⟨pacUrl, taken⟩
    unfold takeTexts at taken
    split at taken
    · cases taken
    · rename_i first afterServer firstTaken
      split at taken
      · cases taken
      · rename_i second afterBypass secondTaken
        obtain ⟨script, -, same⟩ := Option.map_eq_some_iff.mp taken
        simp only [Prod.mk.injEq] at same
        obtain ⟨rfl, rfl, -⟩ := same
        have plainServer := plain_of_takeText firstTaken
        rw [takeText_field plainServer] at firstTaken
        obtain rfl := (Prod.mk.inj (Option.some.inj firstTaken)).2
        exact ⟨plainServer, plain_of_takeText secondTaken⟩
  · rintro ⟨plainServer, plainBypass⟩
    refine ⟨[], ?_⟩
    simp only [takeTexts, takeText_field plainServer, takeText_field plainBypass]
    rw [show field 4 ([] : List UInt8) = field 4 (asciiBytes []) from rfl, takeText_field plain_nil]
    rfl

/-- A record that has the flags byte. -/
def Flagged (flags : UInt8) (blob : List UInt8) : Prop :=
  12 ≤ blob.length ∧ blob[8]? = some flags

theorem Flagged.clearCounter_patchBlob (flagged : Flagged flags blob) :
    clearCounter (patchBlob flags counter blob) = clearCounter blob := by
  obtain ⟨long, low⟩ := flagged
  obtain ⟨v₀, v₁, v₂, v₃, c₀, c₁, c₂, c₃, f₀, f₁, f₂, f₃, rest, rfl⟩ := exists_header long
  obtain rfl : f₀ = flags := Option.some.inj low
  rfl

theorem flagged_patchBlob (long : 12 ≤ blob.length) : Flagged flags (patchBlob flags counter blob) := by
  obtain ⟨v₀, v₁, v₂, v₃, c₀, c₁, c₂, c₃, f₀, f₁, f₂, f₃, rest, rfl⟩ := exists_header long
  refine ⟨?_, rfl⟩
  simp [patchBlob]
  omega

theorem patchBlob_ne (long : 12 ≤ blob.length) :
    patchBlob flags (toUInt32 blob 4 + 1) blob ≠ blob := by
  intro same
  have counters := congrArg (toUInt32 · 4) same
  obtain ⟨v₀, v₁, v₂, v₃, c₀, c₁, c₂, c₃, f₀, f₁, f₂, f₃, rest, rfl⟩ := exists_header long
  generalize toUInt32 (v₀ :: v₁ :: v₂ :: v₃ :: c₀ :: c₁ :: c₂ :: c₃ :: f₀ :: f₁ :: f₂ :: f₃ ::
    rest) 4 = counter at counters
  have read : toUInt32 (patchBlob flags (counter + 1)
      (v₀ :: v₁ :: v₂ :: v₃ :: c₀ :: c₁ :: c₂ :: c₃ :: f₀ :: f₁ :: f₂ :: f₃ :: rest)) 4 =
      (counter + 1) % 256 ^ 4 := valueOf_number 4 (counter + 1)
  rw [read] at counters
  omega

end Blobs

section Writing

variable {mode : Mode} {hostPort bypass : Text} {existing : Option (List UInt8)}
  {blob : List UInt8}

/-- The counter of a record is the last one. -/
def counterSpent : Option (List UInt8) → Bool
  | some blob => decide (12 ≤ blob.length) && decide (2 ^ 32 ≤ toUInt32 blob 4 + 1)
  | none => false

/-- What a record has to be for a write to make it agree: one that is there says everything
but the mode already, one that is built can hold the texts. -/
def BlobReady (hostPort bypass : Text) : Option (List UInt8) → Prop
  | some blob =>
    if 12 ≤ blob.length then
      ∃ connection, decode blob = some connection ∧ connection.flags < 256 ∧
        connection.server = hostPort ∧ connection.bypass = bypass
    else Plain hostPort ∧ Plain bypass
  | none => Plain hostPort ∧ Plain bypass

theorem writeBlob_eq_none_iff :
    writeBlob mode.flags hostPort bypass existing = none ↔ counterSpent existing = true := by
  cases existing with
  | none => simp [writeBlob, counterSpent]
  | some blob =>
    rw [writeBlob, counterSpent]
    by_cases long : 12 ≤ blob.length
    · rw [if_pos long]
      by_cases fits : toUInt32 blob 4 + 1 < 2 ^ 32 <;> simp [long]
    · simp [long]

/-- The mode in which helpers get no texts gives the record none either. -/
theorem newWinINetConnBlob_eq (silent : mode = .direct → hostPort = [] ∧ bypass = []) :
    newWinINetConnBlob mode.flags hostPort bypass =
      [0x46, 0, 0, 0, 1, 0, 0, 0, mode.flags, 0, 0, 0] ++ (field 4 (asciiBytes hostPort) ++
        (field 4 (asciiBytes bypass) ++ (field 4 [] ++ List.replicate 32 0))) := by
  cases mode with
  | use =>
    simp only [newWinINetConnBlob, Mode.flags, List.append_assoc]
    rfl
  | direct =>
    obtain ⟨rfl, rfl⟩ := silent rfl
    rfl

/-- A record that is built says the texts exactly when it can hold them. -/
theorem newWinINetConnBlob_agrees (silent : mode = .direct → hostPort = [] ∧ bypass = []) :
    (∃ connection, decode (newWinINetConnBlob mode.flags hostPort bypass) = some connection ∧
      connection.flags = mode.flags.toNat ∧ connection.server = hostPort ∧
      connection.bypass = bypass) ↔ Plain hostPort ∧ Plain bypass := by
  have flagsRead : toUInt32 ([0x46, 0, 0, 0, 1, 0, 0, 0, mode.flags, 0, 0, 0] ++
      (field 4 (asciiBytes hostPort) ++ (field 4 (asciiBytes bypass) ++
        (field 4 [] ++ List.replicate 32 0)))) 8 = mode.flags.toNat := by
    cases mode <;> rfl
  rw [newWinINetConnBlob_eq silent, ← takeTexts_fields (List.replicate 32 0)]
  have read : decode ([0x46, 0, 0, 0, 1, 0, 0, 0, mode.flags, 0, 0, 0] ++
      (field 4 (asciiBytes hostPort) ++ (field 4 (asciiBytes bypass) ++
        (field 4 [] ++ List.replicate 32 0)))) =
      (takeTexts (field 4 (asciiBytes hostPort) ++ (field 4 (asciiBytes bypass) ++
        (field 4 [] ++ List.replicate 32 0)))).map fun texts =>
        { counter := 1, flags := mode.flags.toNat, server := texts.1, bypass := texts.2.1,
          pacUrl := texts.2.2 } := by
    rw [decode, if_neg, flagsRead]
    · rfl
    · rw [not_or]
      exact ⟨by simp, not_not.mpr rfl⟩
  rw [read]
  constructor
  · rintro ⟨connection, decoded, -, server, list⟩
    obtain ⟨⟨first, second, third⟩, taken, rfl⟩ := Option.map_eq_some_iff.mp decoded
    exact ⟨third, by rw [taken]; exact congrArg some (by simp only at server list; rw [server, list])⟩
  · rintro ⟨pacUrl, taken⟩
    rw [taken]
    exact ⟨_, rfl, rfl, rfl, rfl⟩

/-- A record that is written agrees exactly when it was ready. -/
theorem writeBlob_agrees (silent : mode = .direct → hostPort = [] ∧ bypass = [])
    (written : writeBlob mode.flags hostPort bypass existing = some blob) :
    (∃ connection, decode blob = some connection ∧ connection.flags = mode.flags.toNat ∧
      connection.server = hostPort ∧ connection.bypass = bypass) ↔
      BlobReady hostPort bypass existing := by
  cases existing with
  | none =>
    cases written
    exact newWinINetConnBlob_agrees silent
  | some old =>
    rw [writeBlob] at written
    rw [BlobReady]
    by_cases long : 12 ≤ old.length
    · rw [if_pos long] at written
      split at written
      · cases written
        rw [if_pos long, decode_patchBlob long]
        constructor
        · rintro ⟨connection, decoded, flags, server, list⟩
          obtain ⟨original, found, rfl⟩ := Option.map_eq_some_iff.mp decoded
          simp only at flags
          exact ⟨original, found, by omega, server, list⟩
        · rintro ⟨original, found, low, server, list⟩
          rw [found]
          refine ⟨_, rfl, ?_, server, list⟩
          show mode.flags.toNat + original.flags / 256 * 256 = mode.flags.toNat
          rw [Nat.div_eq_of_lt low]
          simp
      · cases written
    · rw [if_neg long] at written
      cases written
      rw [if_neg long]
      exact newWinINetConnBlob_agrees silent

/-- A record that is written has the flags of the mode. -/
theorem flagged_writeBlob (silent : mode = .direct → hostPort = [] ∧ bypass = [])
    (written : writeBlob mode.flags hostPort bypass existing = some blob) :
    Flagged mode.flags blob := by
  have fresh : Flagged mode.flags (newWinINetConnBlob mode.flags hostPort bypass) := by
    rw [newWinINetConnBlob_eq silent]
    exact ⟨by simp, rfl⟩
  cases existing with
  | none =>
    cases written
    exact fresh
  | some old =>
    rw [writeBlob] at written
    split at written
    · rename_i long
      split at written
      · cases written
        exact flagged_patchBlob long
      · cases written
    · cases written
      exact fresh

/-- A record that is written is not the one that was there. -/
theorem writeBlob_ne (silent : mode = .direct → hostPort = [] ∧ bypass = [])
    (written : writeBlob mode.flags hostPort bypass existing = some blob) : existing ≠ some blob := by
  rintro rfl
  rw [writeBlob] at written
  split at written
  · rename_i long
    split at written
    · exact patchBlob_ne long (Option.some.inj written)
    · cases written
  · rename_i short
    have long := (@flagged_writeBlob mode hostPort bypass none blob silent written).1
    exact short long

/-- Written again, a record changes in its counter at most. -/
theorem clearCounter_writeBlob {again : List UInt8} (flagged : Flagged mode.flags blob)
    (written : writeBlob mode.flags hostPort bypass (some blob) = some again) :
    clearCounter again = clearCounter blob := by
  rw [writeBlob, if_pos flagged.1] at written
  split at written
  · cases written
    exact flagged.clearCounter_patchBlob
  · cases written

end Writing

section Bypass

variable {digits : Digits} {entry list text : Text}

/-- An entry that becomes a wildcard. -/
def isNetwork (digits : Digits) (entry : Text) : Bool :=
  match entry.splitOn '/' with
  | [address, length] =>
    (dottedNumerals digits address).isSome && (length == "24".toList || length == "16".toList)
  | _ => false

/-- An entry leaves no network in a bypass text: it is an IPv4 one of 24 or 16 bits, or holds
none. -/
def Harmless (digits : Digits) (entry : Text) : Prop :=
  isNetwork digits entry = true ∨ noCidr digits entry = true

theorem mem_of_mem_trim {character : Char} (member : character ∈ trim text) : character ∈ text :=
  (List.dropWhile_suffix isSpace).subset ((List.rdropWhile_prefix isSpace _).subset member)

/-- Without a slash there is no network. -/
theorem noCidr_of_no_slash (plain : '/' ∉ text) : noCidr digits text = true := by
  refine List.all_eq_true.mpr fun piece member => ?_
  have absent : '/' ∉ trim piece := fun slash =>
    plain (Collections.mem_of_mem_splitOn member (mem_of_mem_trim slash))
  simp [isCidr, List.splitOn_eq_singleton absent]

theorem noCidr_append (first second : Text) :
    noCidr digits (first ++ ';' :: second) = (noCidr digits first && noCidr digits second) := by
  rw [noCidr, List.splitOn_append_cons_self, List.all_append]
  rfl

theorem noCidr_intercalate {parts : List Text} (filled : parts ≠ []) :
    noCidr digits ([';'].intercalate parts) = parts.all (noCidr digits) := by
  induction parts with
  | nil => exact absurd rfl filled
  | cons part parts ih =>
    cases parts with
    | nil => simp
    | cons next parts =>
      have joined : [';'].intercalate (part :: next :: parts) =
          part ++ ';' :: [';'].intercalate (next :: parts) := by
        simp [List.intercalate_cons_cons]
      rw [joined, noCidr_append, ih (List.cons_ne_nil _ _)]
      rfl

theorem slash_not_mem_of_isNumeral (numeral : isNumeral digits text = true) : '/' ∉ text := by
  intro member
  rw [isNumeral, Bool.and_eq_true] at numeral
  have digit := List.all_eq_true.mp numeral.2 '/' member
  rw [digits.ascii '/' (by decide)] at digit
  exact absurd digit (by decide)

theorem numerals_of_dotted {address first second third fourth : Text}
    (dotted : dottedNumerals digits address = some (first, second, third, fourth)) :
    isNumeral digits first = true ∧ isNumeral digits second = true ∧
      isNumeral digits third = true := by
  unfold dottedNumerals at dotted
  split at dotted
  · split at dotted
    · rename_i all
      simp only [Option.some.injEq, Prod.mk.injEq] at dotted
      obtain ⟨rfl, rfl, rfl, rfl⟩ := dotted
      simp only [List.all_cons, Bool.and_eq_true] at all
      exact ⟨all.1, all.2.1, all.2.2.1⟩
    · cases dotted
  · cases dotted

/-- A network that is converted has no slash any more; any other entry stays. -/
theorem convertEntry_cases (digits : Digits) (entry : Text) :
    (isNetwork digits entry = true ∧ '/' ∉ convertEntry digits entry) ∨
      (isNetwork digits entry = false ∧ convertEntry digits entry = entry) := by
  unfold isNetwork convertEntry
  split
  · rename_i address length _
    cases dotted : dottedNumerals digits address with
    | none => exact .inr ⟨rfl, rfl⟩
    | some numerals =>
      obtain ⟨first, second, third, fourth⟩ := numerals
      obtain ⟨one, two, three⟩ := numerals_of_dotted dotted
      have wildcard : '/' ∉ ".*".toList := by decide
      simp only
      by_cases narrow : length = "24".toList
      · refine .inl ⟨by simp [narrow], ?_⟩
        rw [if_pos narrow]
        simp [slash_not_mem_of_isNumeral one, slash_not_mem_of_isNumeral two,
          slash_not_mem_of_isNumeral three]
      · by_cases wide : length = "16".toList
        · refine .inl ⟨by simp [wide], ?_⟩
          rw [if_neg narrow, if_pos wide]
          simp [slash_not_mem_of_isNumeral one, slash_not_mem_of_isNumeral two]
        · refine .inr ⟨?_, by rw [if_neg narrow, if_neg wide]⟩
          rw [beq_eq_false_iff_ne.mpr narrow, beq_eq_false_iff_ne.mpr wide]
          rfl
  · exact .inr ⟨rfl, rfl⟩

theorem noCidr_convertEntry_iff :
    noCidr digits (convertEntry digits entry) = true ↔ Harmless digits entry := by
  rcases convertEntry_cases digits entry with ⟨network, plain⟩ | ⟨other, same⟩
  · exact ⟨fun _ => .inl network, fun _ => noCidr_of_no_slash plain⟩
  · rw [same, Harmless, other]
    simp

/-- A converted list has no network exactly when none of its entries leaves one. -/
theorem noCidr_convert_iff :
    noCidr digits (convertNoProxyToWildcardBypass digits list) = true ↔
      ∀ entry ∈ entriesOf list, Harmless digits entry := by
  have localPlain : noCidr digits localMark = true := noCidr_of_no_slash (by decide)
  have converted : ((entriesOf list).map (convertEntry digits)).all (noCidr digits) = true ↔
      ∀ entry ∈ entriesOf list, Harmless digits entry := by
    rw [List.all_map, List.all_eq_true]
    exact forall₂_congr fun entry _ => noCidr_convertEntry_iff
  unfold convertNoProxyToWildcardBypass
  simp only
  split
  · rename_i present
    have filled : (entriesOf list).map (convertEntry digits) ≠ [] := by
      intro empty
      rw [empty] at present
      cases present
    rw [noCidr_intercalate filled, converted]
  · rw [noCidr_intercalate (by simp), List.all_append, List.all_cons, localPlain, List.all_nil,
      Bool.and_true, Bool.and_true, converted]

end Bypass

section Surfaces

variable {digits : Digits} {parseUri : Text → Option (Text × Int)} {request : Request}
  {state : Surfaces} {mode : Mode} {hostPort list : Text}

/-- A variable that has its value already. -/
def variableSettled (mode : Mode) (value : Text) : Option Text → Bool
  | some old => match mode with
    | .use => sameText old value
    | .direct => old == []
  | none => match mode with
    | .use => clears value
    | .direct => true

theorem sameText_self (text : Text) : sameText text text = true := by
  simp [sameText]

theorem writeVariable_eq_self_iff {value : Text} {previous : Option Text} :
    writeVariable mode value previous = previous ↔ variableSettled mode value previous = true := by
  cases mode with
  | use =>
    cases previous with
    | none => by_cases cleared : clears value = true <;> simp [writeVariable, variableSettled, cleared]
    | some old =>
      by_cases same : sameText old value = true
      · simp [writeVariable, variableSettled, same]
      · have differs : value ≠ old := by
          rintro rfl
          exact same (sameText_self value)
        by_cases cleared : clears value = true <;>
          simp [writeVariable, variableSettled, same, cleared, differs]
  | direct =>
    cases previous with
    | none => simp [writeVariable, variableSettled]
    | some old => by_cases empty : old = [] <;> simp [writeVariable, variableSettled, empty]

theorem variableSettled_writeVariable (mode : Mode) (value : Text) (previous : Option Text) :
    variableSettled mode value (writeVariable mode value previous) = true := by
  cases mode with
  | use =>
    cases previous with
    | none =>
      by_cases cleared : clears value = true <;>
        simp [writeVariable, variableSettled, cleared, sameText_self]
    | some old =>
      by_cases same : sameText old value = true
      · simp [writeVariable, variableSettled, same]
      · by_cases cleared : clears value = true <;>
          simp [writeVariable, variableSettled, same, cleared, sameText_self]
  | direct =>
    cases previous with
    | none => rfl
    | some old => by_cases empty : old = [] <;> simp [writeVariable, variableSettled, empty]

/-- The environment says what is asked already. -/
def EnvironmentSettled (request : Request) (state : Surfaces) : Prop :=
  variableSettled request.mode request.httpProxy state.httpProxy = true ∧
    variableSettled request.mode request.httpsProxy state.httpsProxy = true ∧
    variableSettled request.mode request.noProxy state.noProxy = true

theorem writeEnvironment_eq_self_iff :
    writeEnvironment request state = state ↔ EnvironmentSettled request state := by
  unfold EnvironmentSettled
  simp only [← writeVariable_eq_self_iff]
  constructor
  · intro same
    exact ⟨congrArg Surfaces.httpProxy same, congrArg Surfaces.httpsProxy same,
      congrArg Surfaces.noProxy same⟩
  · rintro ⟨http, https, no⟩
    rw [writeEnvironment, http, https, no]

theorem environmentSettled_writeEnvironment (request : Request) (state : Surfaces) :
    EnvironmentSettled request (writeEnvironment request state) :=
  ⟨variableSettled_writeVariable _ _ _, variableSettled_writeVariable _ _ _,
    variableSettled_writeVariable _ _ _⟩

/-- The value of `ProxyEnable`. -/
def Mode.enable : Mode → Nat
  | .use => 1
  | .direct => 0

/-- The texts the helpers get: none in direct mode. -/
def Fits (mode : Mode) (hostPort list : Text) : Prop :=
  mode = .direct → hostPort = [] ∧ list = []

/-- The server and the list that are written; `none` when the URL has no server. -/
def targets (digits : Digits) (parseUri : Text → Option (Text × Int)) (request : Request) :
    Option (Text × Text) :=
  match request.mode with
  | .use => (getProxyHostPort digits parseUri request.httpsProxy).map fun hostPort =>
    (hostPort, request.noProxy)
  | .direct => some ([], [])

theorem fits_of_targets (found : targets digits parseUri request = some (hostPort, list)) :
    Fits request.mode hostPort list := by
  intro direct
  rw [targets, direct] at found
  cases found
  exact ⟨rfl, rfl⟩

/-- The values of WinINet that a call writes. -/
def withValues (digits : Digits) (mode : Mode) (hostPort list : Text) (state : Surfaces) :
    Surfaces :=
  { state with
    proxyEnable := some mode.enable
    proxyServer := some hostPort
    proxyOverride := overrideOf digits list }

theorem setWinINetProxy_eq (fits : Fits mode hostPort list) :
    setWinINetProxy digits mode hostPort list state = withValues digits mode hostPort list state := by
  cases mode with
  | use => rfl
  | direct =>
    obtain ⟨rfl, rfl⟩ := fits rfl
    rfl

/-- The list of a record fits the mode as well. -/
theorem Fits.override (fits : Fits mode hostPort list) (digits : Digits) :
    mode = .direct → hostPort = [] ∧ (overrideOf digits list).getD [] = [] := by
  intro direct
  obtain ⟨rfl, rfl⟩ := fits direct
  exact ⟨rfl, rfl⟩

/-- What is left to do when the environment is written. -/
def writeSurfaces (digits : Digits) (mode : Mode) (hostPort list : Text) (state : Surfaces) :
    Outcome :=
  let flagged := setWinINetConnectionFlags digits mode hostPort list
    (setWinINetProxy digits mode hostPort list state)
  match flagged.thrown with
  | some message => { flagged with thrown := some message }
  | none => { flagged with after := setWinHttpProxy digits mode hostPort list flagged.after }

theorem setMastProxyState_of_none (state : Surfaces)
    (absent : targets digits parseUri request = none) :
    (setMastProxyState digits parseUri request state).after = writeEnvironment request state ∧
      (setMastProxyState digits parseUri request state).thrown ≠ none := by
  unfold targets at absent
  unfold setMastProxyState
  cases mode : request.mode with
  | use =>
    rw [mode] at absent
    rw [Option.map_eq_none_iff.mp absent]
    exact ⟨rfl, Option.some_ne_none _⟩
  | direct =>
    rw [mode] at absent
    cases absent

theorem setMastProxyState_of_some (found : targets digits parseUri request = some (hostPort, list)) :
    setMastProxyState digits parseUri request state =
      writeSurfaces digits request.mode hostPort list (writeEnvironment request state) := by
  unfold targets at found
  unfold setMastProxyState writeSurfaces
  cases mode : request.mode with
  | use =>
    rw [mode] at found
    obtain ⟨server, parsed, same⟩ := Option.map_eq_some_iff.mp found
    obtain ⟨rfl, rfl⟩ := Prod.mk.inj same
    rw [parsed]
  | direct =>
    rw [mode] at found
    cases found
    rfl

/-- The counter of the first record is spent: the values are written, and nothing else. -/
theorem writeSurfaces_first (state : Surfaces) (fits : Fits mode hostPort list)
    (spent : counterSpent state.defaultConnectionSettings = true) :
    writeSurfaces digits mode hostPort list state =
      { after := withValues digits mode hostPort list state, thrown := some castMessage } := by
  have refused : writeBlob mode.flags hostPort ((overrideOf digits list).getD [])
      state.defaultConnectionSettings = none := writeBlob_eq_none_iff.mpr spent
  unfold writeSurfaces setWinINetConnectionFlags
  simp only [setWinINetProxy_eq fits, withValues, refused]

/-- That of the second is: the first record is written as well. -/
theorem writeSurfaces_second {first : List UInt8} (state : Surfaces) (fits : Fits mode hostPort list)
    (written : writeBlob mode.flags hostPort ((overrideOf digits list).getD [])
      state.defaultConnectionSettings = some first)
    (spent : counterSpent state.savedLegacySettings = true) :
    writeSurfaces digits mode hostPort list state =
      { after := { withValues digits mode hostPort list state with
          defaultConnectionSettings := some first }
        thrown := some castMessage } := by
  have refused : writeBlob mode.flags hostPort ((overrideOf digits list).getD [])
      state.savedLegacySettings = none := writeBlob_eq_none_iff.mpr spent
  unfold writeSurfaces setWinINetConnectionFlags
  simp only [setWinINetProxy_eq fits, withValues, written, refused]

/-- Otherwise everything is. -/
theorem writeSurfaces_whole {first second : List UInt8} (fits : Fits mode hostPort list)
    (written : writeBlob mode.flags hostPort ((overrideOf digits list).getD [])
      state.defaultConnectionSettings = some first)
    (writtenSecond : writeBlob mode.flags hostPort ((overrideOf digits list).getD [])
      state.savedLegacySettings = some second) :
    writeSurfaces digits mode hostPort list state =
      { after := setWinHttpProxy digits mode hostPort list
          { withValues digits mode hostPort list state with
            defaultConnectionSettings := some first
            savedLegacySettings := some second }
        thrown := none } := by
  unfold writeSurfaces setWinINetConnectionFlags
  simp only [setWinINetProxy_eq fits, withValues, written, writtenSecond]

end Surfaces

section Agreement

variable {digits : Digits} {parseUri : Text → Option (Text × Int)} {request : Request}
  {state : Surfaces} {mode : Mode} {hostPort list : Text}

/-- WinINet has its values already. -/
structure ValuesSettled (digits : Digits) (mode : Mode) (hostPort list : Text) (state : Surfaces) :
    Prop where
  enable : state.proxyEnable = some mode.enable
  server : state.proxyServer = some hostPort
  override : state.proxyOverride = overrideOf digits list

theorem withValues_eq_self_iff :
    withValues digits mode hostPort list state = state ↔
      ValuesSettled digits mode hostPort list state := by
  constructor
  · intro same
    exact ⟨(congrArg Surfaces.proxyEnable same).symm, (congrArg Surfaces.proxyServer same).symm,
      (congrArg Surfaces.proxyOverride same).symm⟩
  · rintro ⟨enable, server, override⟩
    rw [withValues, ← enable, ← server, ← override]

/-- When a call does what it owes: it changes nothing where it throws, which is before
anything is written or where everything before the record is as it should be; otherwise
both counters have room, both records say what is written or are built of texts they can
hold, and the list holds no network that it does not convert. -/
def Ready (digits : Digits) (parseUri : Text → Option (Text × Int)) (request : Request)
    (state : Surfaces) : Prop :=
  match targets digits parseUri request with
  | none => EnvironmentSettled request state
  | some (hostPort, list) =>
    if counterSpent state.defaultConnectionSettings = true then
      EnvironmentSettled request state ∧ ValuesSettled digits request.mode hostPort list state
    else
      counterSpent state.savedLegacySettings = false ∧
        BlobReady hostPort ((overrideOf digits list).getD []) state.defaultConnectionSettings ∧
        BlobReady hostPort ((overrideOf digits list).getD []) state.savedLegacySettings ∧
        ∀ entry ∈ entriesOf list, Harmless digits entry

/-- The environment and the values are written apart. -/
theorem withValues_writeEnvironment_iff :
    withValues digits mode hostPort list (writeEnvironment request state) = state ↔
      EnvironmentSettled request state ∧ ValuesSettled digits mode hostPort list state := by
  constructor
  · intro same
    have environment : writeEnvironment request state = state := by
      have http := congrArg Surfaces.httpProxy same
      have https := congrArg Surfaces.httpsProxy same
      have no := congrArg Surfaces.noProxy same
      simp only [withValues, writeEnvironment] at http https no
      rw [writeEnvironment, http, https, no]
    rw [environment] at same
    exact ⟨writeEnvironment_eq_self_iff.mp environment, withValues_eq_self_iff.mp same⟩
  · rintro ⟨environment, values⟩
    rw [writeEnvironment_eq_self_iff.mpr environment, withValues_eq_self_iff.mpr values]

/-- Over surfaces that are as they should be, a call changes counters at most, also when it
throws on the way. -/
theorem again_writeSurfaces {first second : List UInt8} (fits : Fits mode hostPort list)
    (values : ValuesSettled digits mode hostPort list state)
    (winHttp : setWinHttpProxy digits mode hostPort list state = state)
    (isFirst : state.defaultConnectionSettings = some first)
    (isSecond : state.savedLegacySettings = some second)
    (flagged : Flagged mode.flags first) (flaggedSecond : Flagged mode.flags second) :
    (writeSurfaces digits mode hostPort list state).after.withoutCounters =
      state.withoutCounters := by
  have same := withValues_eq_self_iff.mpr values
  cases written : writeBlob mode.flags hostPort ((overrideOf digits list).getD [])
      state.defaultConnectionSettings with
  | none => rw [writeSurfaces_first state fits (writeBlob_eq_none_iff.mp written), same]
  | some again =>
    have cleared : clearCounter again = clearCounter first := by
      rw [isFirst] at written
      exact clearCounter_writeBlob flagged written
    cases writtenSecond : writeBlob mode.flags hostPort ((overrideOf digits list).getD [])
        state.savedLegacySettings with
    | none =>
      rw [writeSurfaces_second state fits written (writeBlob_eq_none_iff.mp writtenSecond), same]
      simp [Surfaces.withoutCounters, isFirst, cleared]
    | some againSecond =>
      have clearedSecond : clearCounter againSecond = clearCounter second := by
        rw [isSecond] at writtenSecond
        exact clearCounter_writeBlob flaggedSecond writtenSecond
      have kept := congrArg Surfaces.winHttp winHttp
      rw [writeSurfaces_whole fits written writtenSecond, same]
      cases mode <;>
        simp only [setWinHttpProxy] at kept <;>
        simp [Surfaces.withoutCounters, setWinHttpProxy, isFirst, isSecond, cleared, clearedSecond,
          kept]

/-- What a call that writes everything leaves. -/
def wholeSurfaces (digits : Digits) (mode : Mode) (hostPort list : Text) (first second : List UInt8)
    (state : Surfaces) : Surfaces :=
  setWinHttpProxy digits mode hostPort list
    { withValues digits mode hostPort list state with
      defaultConnectionSettings := some first
      savedLegacySettings := some second }

section Whole

variable {first second : List UInt8}

@[simp] theorem wholeSurfaces_default :
    (wholeSurfaces digits mode hostPort list first second state).defaultConnectionSettings =
      some first := by
  cases mode <;> rfl

@[simp] theorem wholeSurfaces_legacy :
    (wholeSurfaces digits mode hostPort list first second state).savedLegacySettings =
      some second := by
  cases mode <;> rfl

theorem valuesSettled_wholeSurfaces :
    ValuesSettled digits mode hostPort list
      (wholeSurfaces digits mode hostPort list first second state) := by
  cases mode <;> exact ⟨rfl, rfl, rfl⟩

theorem environmentSettled_wholeSurfaces :
    EnvironmentSettled request
      (wholeSurfaces digits mode hostPort list first second (writeEnvironment request state)) := by
  have settled := environmentSettled_writeEnvironment request state
  cases mode <;> exact settled

theorem setWinHttpProxy_wholeSurfaces :
    setWinHttpProxy digits mode hostPort list
      (wholeSurfaces digits mode hostPort list first second state) =
      wholeSurfaces digits mode hostPort list first second state := by
  cases mode <;> rfl

/-- The bypass lists that are written have no network exactly when no entry leaves one. -/
theorem bypass_wholeSurfaces_iff (fits : Fits mode hostPort list) :
    (∀ text, (wholeSurfaces digits mode hostPort list first second state).proxyOverride = some text ∨
        (wholeSurfaces digits mode hostPort list first second state).winHttp.map Prod.snd =
          some text → noCidr digits text = true) ↔
      ∀ entry ∈ entriesOf list, Harmless digits entry := by
  have localPlain : noCidr digits localMark = true := noCidr_of_no_slash (by decide)
  rw [valuesSettled_wholeSurfaces.override]
  by_cases empty : list = []
  · have entries : entriesOf list = [] := by
      rw [empty]
      decide
    have absent : overrideOf digits list = none := if_pos empty
    rw [entries]
    refine ⟨fun _ => List.forall_mem_nil _, fun _ text isText => ?_⟩
    rcases isText with override | winHttp
    · rw [absent] at override
      cases override
    · cases mode with
      | use =>
        have server : (wholeSurfaces digits .use hostPort list first second state).winHttp =
            some (hostPort, (overrideOf digits list).getD localMark) := rfl
        rw [server, absent] at winHttp
        rw [← Option.some.inj winHttp]
        exact localPlain
      | direct => cases winHttp
  · have present : overrideOf digits list = some (convertNoProxyToWildcardBypass digits list) :=
      if_neg empty
    rw [← noCidr_convert_iff, present]
    constructor
    · exact fun plain => plain _ (.inl rfl)
    · rintro plain text (override | winHttp)
      · rw [← Option.some.inj override]
        exact plain
      · cases mode with
        | use =>
          have server : (wholeSurfaces digits .use hostPort list first second state).winHttp =
              some (hostPort, (overrideOf digits list).getD localMark) := rfl
          rw [server, present] at winHttp
          rw [← Option.some.inj winHttp]
          exact plain
        | direct => exact absurd (fits rfl).2 empty

/-- A record agrees with the values when it says what they are. -/
theorem blobAgrees_iff {blob : List UInt8} (settled : ValuesSettled digits mode hostPort list state) :
    BlobAgrees mode state (some blob) ↔
      ∃ connection, decode blob = some connection ∧ connection.flags = mode.flags.toNat ∧
        connection.server = hostPort ∧ connection.bypass = (overrideOf digits list).getD [] := by
  rw [BlobAgrees, settled.server, settled.override]
  rfl

/-- A call that writes everything does what it owes exactly when the records were ready and
the list leaves no network. -/
theorem agree_of_whole (found : targets digits parseUri request = some (hostPort, list))
    (written : writeBlob request.mode.flags hostPort ((overrideOf digits list).getD [])
      state.defaultConnectionSettings = some first)
    (writtenSecond : writeBlob request.mode.flags hostPort ((overrideOf digits list).getD [])
      state.savedLegacySettings = some second) :
    Agree digits parseUri request state ↔
      BlobReady hostPort ((overrideOf digits list).getD []) state.defaultConnectionSettings ∧
        BlobReady hostPort ((overrideOf digits list).getD []) state.savedLegacySettings ∧
        ∀ entry ∈ entriesOf list, Harmless digits entry := by
  have fits := fits_of_targets found
  have silent := fits.override digits
  have outcome : setMastProxyState digits parseUri request state =
      { after := wholeSurfaces digits request.mode hostPort list first second
          (writeEnvironment request state)
        thrown := none } :=
    (setMastProxyState_of_some found).trans (writeSurfaces_whole fits written writtenSecond)
  constructor
  · intro agree
    have returned : (setMastProxyState digits parseUri request state).thrown = none := by rw [outcome]
    have default := agree.defaultBlob returned
    have legacy := agree.legacyBlob returned
    have bypass := agree.bypass returned
    rw [outcome] at default legacy bypass
    rw [wholeSurfaces_default, blobAgrees_iff valuesSettled_wholeSurfaces] at default
    rw [wholeSurfaces_legacy, blobAgrees_iff valuesSettled_wholeSurfaces] at legacy
    exact ⟨(writeBlob_agrees silent written).mp default,
      (writeBlob_agrees silent writtenSecond).mp legacy, (bypass_wholeSurfaces_iff fits).mp bypass⟩
  · rintro ⟨ready, readySecond, harmless⟩
    constructor
    · intro _
      rw [outcome, wholeSurfaces_default, blobAgrees_iff valuesSettled_wholeSurfaces]
      exact (writeBlob_agrees silent written).mpr ready
    · intro _
      rw [outcome, wholeSurfaces_legacy, blobAgrees_iff valuesSettled_wholeSurfaces]
      exact (writeBlob_agrees silent writtenSecond).mpr readySecond
    · intro _
      rw [outcome]
      exact (bypass_wholeSurfaces_iff fits).mpr harmless
    · intro _
      rw [outcome, setMastProxyState_of_some found,
        writeEnvironment_eq_self_iff.mpr environmentSettled_wholeSurfaces]
      exact again_writeSurfaces fits valuesSettled_wholeSurfaces setWinHttpProxy_wholeSurfaces
        wholeSurfaces_default wholeSurfaces_legacy (flagged_writeBlob silent written)
        (flagged_writeBlob silent writtenSecond)
    · intro thrown
      rw [outcome] at thrown
      exact absurd rfl thrown

end Whole

/-- A call that throws does what it owes exactly when it leaves everything as it was. -/
theorem agree_of_thrown (thrown : (setMastProxyState digits parseUri request state).thrown ≠ none) :
    Agree digits parseUri request state ↔
      (setMastProxyState digits parseUri request state).after = state := by
  constructor
  · exact fun agree => agree.failed thrown
  · intro same
    exact {
      defaultBlob := fun returned => absurd returned thrown
      legacyBlob := fun returned => absurd returned thrown
      bypass := fun returned => absurd returned thrown
      again := fun returned => absurd returned thrown
      failed := fun _ => same }

/-- A call on any surfaces does what it owes exactly when they and the request are ready. -/
theorem agree_iff (digits : Digits) (parseUri : Text → Option (Text × Int)) (request : Request)
    (state : Surfaces) :
    Agree digits parseUri request state ↔ Ready digits parseUri request state := by
  unfold Ready
  cases found : targets digits parseUri request with
  | none =>
    obtain ⟨after, thrown⟩ := setMastProxyState_of_none state found
    rw [agree_of_thrown thrown, after, writeEnvironment_eq_self_iff]
  | some target =>
    obtain ⟨hostPort, list⟩ := target
    have fits := fits_of_targets found
    simp only
    by_cases spent : counterSpent state.defaultConnectionSettings = true
    · have outcome := (setMastProxyState_of_some found).trans
        (writeSurfaces_first (writeEnvironment request state) fits spent)
      rw [if_pos spent, agree_of_thrown (by rw [outcome]; exact Option.some_ne_none _), outcome,
        withValues_writeEnvironment_iff]
    · rw [if_neg spent]
      have room : writeBlob request.mode.flags hostPort ((overrideOf digits list).getD [])
          state.defaultConnectionSettings ≠ none :=
        fun absent => spent (writeBlob_eq_none_iff.mp absent)
      obtain ⟨first, written⟩ := Option.ne_none_iff_exists'.mp room
      cases writtenSecond : writeBlob request.mode.flags hostPort ((overrideOf digits list).getD [])
          state.savedLegacySettings with
      | none =>
        have spentSecond := writeBlob_eq_none_iff.mp writtenSecond
        have outcome := (setMastProxyState_of_some found).trans
          (writeSurfaces_second (writeEnvironment request state) fits written spentSecond)
        rw [agree_of_thrown (by rw [outcome]; exact Option.some_ne_none _), outcome, spentSecond]
        constructor
        · intro same
          exact absurd (congrArg Surfaces.defaultConnectionSettings same).symm
            (writeBlob_ne (fits.override digits) written)
        · rintro ⟨room, -⟩
          cases room
      | some second =>
        have room : counterSpent state.savedLegacySettings = false := by
          rw [← Bool.not_eq_true]
          intro spentSecond
          rw [writeBlob_eq_none_iff.mpr spentSecond] at writtenSecond
          cases writtenSecond
        rw [agree_of_whole found written writtenSecond]
        exact ⟨fun ready => ⟨room, ready⟩, fun ready => ready.2⟩

/-- The ten digits. -/
def asciiDigits : Digits where
  isDigit := Char.isDigit
  ascii := fun _ _ => rfl

/-- A request for a proxy without a URL's scheme. -/
def useProxy (server noProxy : Text) : Request where
  mode := .use
  httpProxy := server
  httpsProxy := server
  noProxy := noProxy

/-- A unit on which nothing is set. -/
def bareSurfaces : Surfaces where
  httpProxy := none
  httpsProxy := none
  noProxy := none
  proxyEnable := none
  proxyServer := none
  proxyOverride := none
  defaultConnectionSettings := none
  savedLegacySettings := none
  winHttp := none

/-- A record of another server keeps it, a network of eight bits stays in the list, and a URL
without a port is refused after the environment is written. -/
theorem surfaces_disagree :
    ¬Agree asciiDigits (fun _ => none) (useProxy "new:8080".toList "localhost".toList)
      { bareSurfaces with
        defaultConnectionSettings := some (newWinINetConnBlob 0x02 "old:80".toList localMark) } ∧
    ¬Agree asciiDigits (fun _ => none) (useProxy "new:8080".toList "10.0.0.0/8".toList)
      bareSurfaces ∧
    ¬Agree asciiDigits (fun _ => none) (useProxy "new".toList "localhost".toList) bareSurfaces := by
  refine ⟨fun agree => ?_, fun agree => ?_, fun agree => ?_⟩
  · obtain ⟨connection, decoded, -, server, -⟩ := agree.defaultBlob (by decide +kernel)
    have kept : ((setMastProxyState asciiDigits (fun _ => none)
        (useProxy "new:8080".toList "localhost".toList)
        { bareSurfaces with
          defaultConnectionSettings := some (newWinINetConnBlob 0x02 "old:80".toList localMark) }
        ).after.defaultConnectionSettings.bind decode).map Connection.server =
        some "old:80".toList := by
      decide +kernel
    rw [decoded, Option.map_some, server] at kept
    exact absurd kept (by decide +kernel)
  · exact absurd (agree.bypass (by decide +kernel) "10.0.0.0/8;<local>".toList (by decide +kernel))
      (by decide +kernel)
  · exact absurd (agree.failed (by decide +kernel)) (by decide +kernel)

end Agreement

end MastProvisioning.Unit.ProxySurfaces
