import Fleetboot.Library.Words
import Fleetboot.Registry.Reservations
import Fleetboot.Registry.Sessions
import Fleetboot.Server.BugReports

/-!
# The deployment behind the endpoint

What the tools of `mcp.py` read besides the registry: the profile directories, the bug reports,
the build jobs, the documentation, and how alive each machine looks. The pages of the
documentation and the catalogue of tools are long constant texts, so a deployment carries them
as data.
-/

set_option autoImplicit false

namespace Fleetboot

open Python Relational

/-! ## Files and configuration -/

/-- A directory under `profiles_root`: its files by their path in it. -/
structure ProfileDir where
  name : String
  files : List (String × String)
  deriving DecidableEq

/-- A page of `mcp_docs.py`. -/
structure DocTopic where
  name : String
  title : String
  summary : String
  body : String

/-- What is fixed when the router is built. -/
structure McpConfig where
  catalogue : List Fields
  instructions : String
  topics : List DocTopic
  reprFloat : Float64 → String

/-- Everything that a call can change. A deployment need not take bug reports. -/
structure Deployment (Build : Type) where
  db : Database
  profiles : List ProfileDir
  bugReports : Option BugReportStore
  builds : List Build

/-! ## Documentation -/

def docUriStart : String := "fleetboot://docs/"

def docMimeType : String := "text/markdown"

def defaultTopic : String := "overview"

def DocTopic.uri (topic : DocTopic) : String := docUriStart ++ topic.name

namespace McpConfig

/-- `topic_names`. -/
def topicNames (config : McpConfig) : List String := config.topics.map DocTopic.name

/-- `get_topic`. -/
def getTopic (config : McpConfig) (name : String) : Option DocTopic :=
  config.topics.find? fun topic => topic.name == name

/-- `topic_for_uri`. -/
def topicForUri (config : McpConfig) (uri : String) : Option DocTopic :=
  if docUriStart.toList.isPrefixOf uri.toList then
    config.getTopic (String.ofList (uri.toList.drop docUriStart.length))
  else none

/-- `resource_descriptors`. -/
def resourceDescriptors (config : McpConfig) : List Json :=
  config.topics.map fun topic => .obj
    [("uri", .str topic.uri), ("name", .str topic.name), ("title", .str topic.title),
      ("description", .str topic.summary), ("mimeType", .str docMimeType)]

/-- A name in the quotes of Markdown code. -/
def codeQuoted (text : String) : String :=
  let quote := String.singleton (Char.ofNat 96)
  quote ++ text ++ quote

/-- `topic_index`. -/
def topicIndex (config : McpConfig) : String :=
  "\n".intercalate
    (["", "---", "", "**Other topics** (" ++ codeQuoted "describe_fleetboot" ++ ", or" ++
        " read " ++ codeQuoted "fleetboot://docs/<topic>" ++ "):", ""] ++
      config.topics.map fun topic => "- " ++ codeQuoted topic.name ++ " — " ++ topic.summary) ++
    "\n"

end McpConfig

/-! ## Profiles -/

/-- `_list_profile_names`. -/
def listProfileNames (profiles : List ProfileDir) : List String :=
  (profiles.map ProfileDir.name).insertionSort (· ≤ ·)

/-- The text of a file of a profile, empty when there is none. -/
def ProfileDir.read (profile : ProfileDir) (path : String) : String :=
  ((profile.files.find? fun file => file.1 == path).map Prod.snd).getD ""

/-- `_safe_profile_dir`: the directory of a profile name, should it exist. -/
def safeProfileDir [Unicode] (profiles : List ProfileDir) (name : String) :
    Except String (Option ProfileDir) :=
  if name = "" ∨ isAlnum (String.ofList (name.toList.filter (· != '-'))) = false then
    .error "invalid profile name"
  else .ok (profiles.find? fun profile => profile.name == name)

/-- The characters at which `str.splitlines` ends a line. -/
def isLineEnd (c : Char) : Bool :=
  let n := c.toNat
  (10 ≤ n && n ≤ 13) || (28 ≤ n && n ≤ 30) || n == 0x85 || n == 0x2028 || n == 0x2029

/-- The lines of a text whose line ends are single characters, as reading a text file leaves
them. -/
def splitLines (text : String) : List String :=
  match ((text.toList.splitOnP isLineEnd).map String.ofList).reverse with
  | "" :: rest => rest.reverse
  | lines => lines.reverse

/-- A text is one line when nothing in it ends a line. -/
def OneLine (text : String) : Prop := ∀ c ∈ text.toList, isLineEnd c = false

theorem OneLine.append {text text' : String} (h : OneLine text) (h' : OneLine text') :
    OneLine (text ++ text') := by
  intro c hc
  rw [String.toList_append, List.mem_append] at hc
  exact hc.elim (h c) (h' c)

theorem OneLine.no_newline {text : String} (h : OneLine text) : '\n' ∉ text.toList :=
  fun hmem => absurd (h _ hmem) (by decide)

theorem OneLine.no_return {text : String} (h : OneLine text) : '\r' ∉ text.toList :=
  fun hmem => absurd (h _ hmem) (by decide)

theorem oneLine_strip {text : String} (h : OneLine text) : OneLine (strip text) := by
  intro c hc
  rw [strip, String.toList_ofList] at hc
  exact h c ((stripChars_isInfix text.toList).subset hc)

/-- The lines of a text of lines. -/
theorem splitLines_join {lines : List String} (hlines : ∀ line ∈ lines, OneLine line) :
    splitLines ("\n".intercalate (lines ++ [""])) = lines := by
  have hsplit : ∀ lines : List String, (∀ line ∈ lines, OneLine line) →
      (['\n'].intercalate ((lines ++ [""]).map String.toList)).splitOnP isLineEnd =
        (lines ++ [""]).map String.toList := by
    intro lines hlines
    induction lines with
    | nil => rfl
    | cons line lines ih =>
      have hline := hlines line (List.mem_cons_self ..)
      have hrest := ih fun l hl => hlines l (List.mem_cons_of_mem _ hl)
      rw [List.cons_append, List.map_cons, List.intercalate_cons_of_ne_nil (by simp),
        List.append_assoc, List.singleton_append,
        List.splitOnP_append_cons _ _ (by decide : isLineEnd '\n' = true),
        List.splitOnP_eq_singleton hline, hrest, List.singleton_append]
  unfold splitLines
  rw [String.toList_intercalate, show "\n".toList = ['\n'] from rfl, hsplit lines hlines,
    List.map_map]
  have hid : String.ofList ∘ String.toList = id := funext fun _ => String.ofList_toList
  rw [hid, List.map_id, List.reverse_append]
  simp

theorem oneLine_of_mem_splitLines {line text : String} (h : line ∈ splitLines text) :
    OneLine line := by
  have hmem : line ∈ (text.toList.splitOnP isLineEnd).map String.ofList := by
    rw [← List.mem_reverse]
    unfold splitLines at h
    split at h
    · rename_i rest heq
      rw [heq]
      exact List.mem_cons_of_mem _ (List.mem_reverse.mp h)
    · exact List.mem_reverse.mp h
  obtain ⟨piece, hpiece, rfl⟩ := List.mem_map.mp hmem
  intro c hc
  rw [String.toList_ofList] at hc
  exact not_of_mem_splitOnP hpiece c hc

theorem splitLines_ne_nil {c : Char} {cs : List Char} (hc : isLineEnd c = false) :
    splitLines (String.ofList (c :: cs)) ≠ [] := by
  intro hnil
  unfold splitLines at hnil
  rw [String.toList_ofList, List.splitOnP_cons_eq_if_modifyHead, if_neg (by simp [hc])] at hnil
  cases hsplit : cs.splitOnP isLineEnd with
  | nil => exact List.splitOnP_ne_nil _ cs hsplit
  | cons first rest =>
    rw [hsplit, List.modifyHead_cons, List.map_cons] at hnil
    have hfirst : String.ofList (c :: first) ≠ "" := by
      intro heq
      have := congrArg String.toList heq
      simp at this
    split at hnil
    · rename_i rest' heq
      rw [List.reverse_eq_nil_iff.mp hnil, List.reverse_eq_iff] at heq
      exact hfirst (List.cons.inj heq).1
    · simp at hnil

/-! ## Liveness -/

/-- `_STALE_AFTER_SECONDS`. -/
def staleAfterSeconds : Nat := 6 * 60

structure Liveness where
  state : Option BootState
  lastSeen : Option Timestamp
  secondsSinceLastSeen : Option Nat
  online : Bool
  deriving DecidableEq

/-- `_OFFLINE`. -/
def Liveness.offline : Liveness :=
  { state := none, lastSeen := none, secondsSinceLastSeen := none, online := false }

/-- The latest state of a MAC: that of its last session that has one. -/
def latestStateOf (db : Database) (mac : String) : Option BootState :=
  ((db.bootSessions.rows.filter fun session => session.mac == mac).filterMap
    SessionRow.latestState).getLast?

/-- `_liveness_by_mac`, for one MAC. -/
def livenessOf (now : Timestamp) (db : Database) (mac : String) : Liveness :=
  let state := latestStateOf db mac
  match lastSeenByMac db mac with
  | some seen =>
    { state
      lastSeen := some seen
      secondsSinceLastSeen := some (now - seen)
      online := decide (now - seen < staleAfterSeconds) }
  | none => { Liveness.offline with state }

/-! ## Dictionaries -/

/-- A timestamp as the database has it. -/
def timestampJson (time : Option Timestamp) : Json :=
  .ofOption (time.map Calendar.datetimeText)

def LeaseKind.text : LeaseKind → String
  | permanent => "permanent"
  | lease => "lease"

/-- `_reservation_dict`. -/
def reservationDict : Option Reservation → Json
  | none => .null
  | some r => .obj
    [("holder", .str r.holder), ("purpose", .ofOption r.purpose),
      ("lease_kind", .str r.leaseKind.text), ("acquired_at", timestampJson (some r.acquiredAt)),
      ("expires_at", timestampJson r.expiresAt)]

/-- `_machine_dict`. -/
def machineDict (m : Machine) (live : Liveness) (reservation : Option Reservation) : Json := .obj
  [("mac", .str m.mac), ("hostname", .ofOption m.hostname), ("profile_name", .str m.profileName),
    ("architecture", .str m.architecture), ("platform", .str m.platform),
    ("last_ip", .ofOption m.lastIp), ("last_ip_at", timestampJson m.lastIpAt),
    ("ram_total_mb", Json.getD (m.hardwareSpec.getD []) "ram_total_mb" .null),
    ("hardware_spec", (m.hardwareSpec.map Json.obj).getD .null),
    ("hardware", (m.lastHardware.map Json.obj).getD .null),
    ("hardware_reported_at", timestampJson m.lastHardwareAt),
    ("boot_version", .ofOption m.bootVersion), ("pending_reboot", .bool m.pendingReboot),
    ("reboot_command", .ofOption m.rebootCommand),
    ("power_on_command", .ofOption m.powerOnCommand),
    ("power_off_command", .ofOption m.powerOffCommand), ("pdu_alias", .ofOption m.pduAlias),
    ("scratch_mode", .str m.scratchMode.text), ("serial_console", .bool m.serialConsole),
    ("enrolled_by", .str (if m.enrolledBy = "" then "manual" else m.enrolledBy)),
    ("availability", .str (availabilityOf reservation).text),
    ("reservation", reservationDict reservation),
    ("state", .ofOption (live.state.map BootState.value)),
    ("last_seen", timestampJson live.lastSeen),
    ("seconds_since_last_seen", (live.secondsSinceLastSeen.map fun n => Json.int n).getD .null),
    ("online", .bool live.online)]

/-- `all_active_reservations().get(mac)`. -/
def bulkReservation (db : Database) (now : Timestamp) (mac : String) : Option Reservation :=
  (allActiveReservations db now).reverse.find? fun r => r.mac == mac

end Fleetboot
