import Fleetboot.Library.Repeats
import Fleetboot.Registry.Sessions

/-!
# The compressed log of boot events

`log_boot_event` compares a report with the latest event of its MAC and keeps no repetition.
Over a whole run, with the reports of several machines interleaved, the log therefore holds for
each machine what it reported with the consecutive repetitions removed.

* `BootLog.log`: one call keeps the invariant.
* `bootLog_exact`: the stored events of a MAC, and what `recent_boot_events` returns of them.
-/

set_option autoImplicit false

namespace Fleetboot

open Python Relational

/-! ## Events of a machine -/

/-- What counts for the comparison: no detail and an empty one are the same. -/
def BootEvent.entry (event : BootEvent) : String × String := (event.state, event.detail.getD "")

/-- The stored events of a MAC, in the order of their ids. -/
def storedEvents (db : Database) (mac : String) : List BootEvent :=
  db.bootEvents.sorted.filter fun event => event.mac == mac

/-- The log of the reports so far, each MAC having its own `history`, at the time `now`. -/
structure BootLog (db : Database) (now : Timestamp) (history : String → List (String × String)) :
    Prop where
  ascending : db.bootEvents.rows.Pairwise fun event event' => event.id < event'.id
  entries : ∀ mac, (db.bootEvents.rows.filter fun event => event.mac == mac).map BootEvent.entry =
    (history mac).destutter (· ≠ ·)
  ordered : ∀ event ∈ db.bootEvents.rows, ∀ event' ∈ db.bootEvents.rows,
    event.mac = event'.mac → event.id < event'.id → event.occurredAt ≤ event'.occurredAt
  past : ∀ event ∈ db.bootEvents.rows, event.occurredAt ≤ now

namespace BootLog

variable {db : Database} {now : Timestamp} {history : String → List (String × String)}

theorem ascending_filter (h : BootLog db now history) (mac : String) :
    (db.bootEvents.rows.filter fun event => event.mac == mac).Pairwise
      fun event event' => event.id < event'.id :=
  h.ascending.sublist List.filter_sublist

theorem sorted_eq (h : BootLog db now history) : db.bootEvents.sorted = db.bootEvents.rows :=
  (h.ascending.imp fun hlt => Nat.le_of_lt hlt).insertionSort_eq

theorem eq_of_id_eq (h : BootLog db now history) {event event' : BootEvent}
    (hevent : event ∈ db.bootEvents.rows) (hevent' : event' ∈ db.bootEvents.rows)
    (hid : event.id = event'.id) : event = event' := by
  have hnodup : (db.bootEvents.rows.map BootEvent.id).Nodup :=
    List.pairwise_map.mpr (h.ascending.imp fun hlt => Nat.ne_of_lt hlt)
  exact List.inj_on_of_nodup_map hnodup hevent hevent' hid

/-- The latest event of a MAC is the last one stored for it. -/
theorem latest_eq (h : BootLog db now history) (mac : String) :
    latestBootEvent db mac =
      (db.bootEvents.rows.filter fun event => event.mac == mac).getLast? := by
  have hdescending := Repeats.insertionSort_eq_reverse
    (r := fun event event' : BootEvent => event'.id ≤ event.id)
    ((h.ascending_filter mac).imp fun hlt => Nat.not_le_of_lt hlt)
  unfold latestBootEvent
  rw [hdescending, List.head?_reverse]

/-- The entry of the latest event is the last one reported. -/
theorem latest_entry (h : BootLog db now history) (mac : String) :
    (latestBootEvent db mac).map BootEvent.entry = (history mac).getLast? := by
  rw [h.latest_eq, ← List.getLast?_map, h.entries, Repeats.getLast?_destutter]

/-- No event of the MAC has a greater id than the latest. -/
theorem latest_spec (h : BootLog db now history) {mac : String} {latest : BootEvent}
    (hlatest : latestBootEvent db mac = some latest) :
    latest ∈ db.bootEvents.rows ∧ latest.mac = mac ∧
      ∀ event ∈ db.bootEvents.rows, event.mac = mac → event.id ≤ latest.id := by
  rw [h.latest_eq] at hlatest
  obtain ⟨earlier, hrows⟩ := List.getLast?_eq_some_iff.mp hlatest
  have hmem : latest ∈ db.bootEvents.rows.filter fun event => event.mac == mac := by simp [hrows]
  obtain ⟨hrow, hmac⟩ := List.mem_filter.mp hmem
  refine ⟨hrow, by simpa using hmac, ?_⟩
  intro event hevent heventMac
  have hmem' : event ∈ earlier ++ [latest] :=
    hrows ▸ List.mem_filter.mpr ⟨hevent, by simpa using heventMac⟩
  have hascending := h.ascending_filter mac
  rw [hrows, List.pairwise_append] at hascending
  rcases List.mem_append.mp hmem' with hearlier | hlast
  · exact Nat.le_of_lt (hascending.2.2 event hearlier latest (List.mem_singleton.mpr rfl))
  · rw [List.mem_singleton.mp hlast]

/-- What `recent_boot_events` sorts by is opposite to the order of the ids. -/
theorem recent_eq (h : BootLog db now history) (mac : String) :
    ((db.bootEvents.rows.filter fun event => event.mac == mac).insertionSort
        fun event event' => event'.occurredAt < event.occurredAt ∨
          (event'.occurredAt = event.occurredAt ∧ event'.id ≤ event.id)) =
      (storedEvents db mac).reverse := by
  rw [storedEvents, h.sorted_eq]
  refine Repeats.insertionSort_eq_reverse ((h.ascending_filter mac).imp_of_mem ?_)
  intro event event' hevent hevent' hlt
  rw [List.mem_filter, beq_iff_eq] at hevent hevent'
  have hle := h.ordered event hevent.1 event' hevent'.1 (hevent.2.trans hevent'.2.symm) hlt
  rintro (hlater | ⟨-, hid⟩)
  · exact Nat.not_lt_of_le hle hlater
  · exact Nat.not_lt_of_le hid hlt

end BootLog

/-! ## One report -/

/-- The arguments of one call of `log_boot_event`, and the clock at that call. -/
structure LogCall where
  now : Timestamp
  mac : String
  state : String
  detail : Option String

def LogCall.entry (call : LogCall) : String × String := (call.state, call.detail.getD "")

section Calls

variable [Unicode]

/-- What was reported under a normalised MAC. -/
def reportsOf (calls : List LogCall) (mac : String) : List (String × String) :=
  (calls.filter fun call => normaliseMac call.mac == mac).map LogCall.entry

theorem reportsOf_concat (calls : List LogCall) (call : LogCall) (mac : String) :
    reportsOf (calls ++ [call]) mac =
      if normaliseMac call.mac = mac then reportsOf calls mac ++ [call.entry]
      else reportsOf calls mac := by
  unfold reportsOf
  rw [List.filter_append, List.map_append]
  by_cases h : normaliseMac call.mac = mac <;> simp [h]

/-- The history after one more call. -/
theorem reports_concat (calls : List LogCall) (call : LogCall) :
    reportsOf (calls ++ [call]) = fun mac =>
      if normaliseMac call.mac = mac then reportsOf calls mac ++ [call.entry]
      else reportsOf calls mac := by
  funext mac
  exact reportsOf_concat calls call mac

def LogCall.run (call : LogCall) (db : Database) : Database :=
  logBootEvent call.now call.mac call.state call.detail db

/-- The event that a call inserts. -/
def LogCall.event (call : LogCall) (id : Nat) : BootEvent :=
  { id
    mac := normaliseMac call.mac
    state := call.state
    detail := call.detail
    occurredAt := call.now }

/-- The row that only moves its time. -/
def BootEvent.bump (now : Timestamp) (id : Nat) (event : BootEvent) : BootEvent :=
  if event.id = id then { event with occurredAt := now } else event

omit [Unicode] in
@[simp] theorem BootEvent.bump_id (now : Timestamp) (id : Nat) (event : BootEvent) :
    (event.bump now id).id = event.id := by
  unfold BootEvent.bump
  split <;> rfl

omit [Unicode] in
@[simp] theorem BootEvent.bump_mac (now : Timestamp) (id : Nat) (event : BootEvent) :
    (event.bump now id).mac = event.mac := by
  unfold BootEvent.bump
  split <;> rfl

omit [Unicode] in
@[simp] theorem BootEvent.bump_entry (now : Timestamp) (id : Nat) (event : BootEvent) :
    (event.bump now id).entry = event.entry := by
  unfold BootEvent.bump
  split <;> rfl

/-- A call repeats the latest event of its MAC, or it stores a new one. -/
theorem LogCall.run_cases (call : LogCall) (db : Database) :
    (∃ latest, latestBootEvent db (normaliseMac call.mac) = some latest ∧
        latest.entry = call.entry ∧
        (call.run db).bootEvents.rows =
          db.bootEvents.rows.map (BootEvent.bump call.now latest.id)) ∨
      ((latestBootEvent db (normaliseMac call.mac)).map BootEvent.entry ≠ some call.entry ∧
        (call.run db).bootEvents.rows =
          db.bootEvents.rows ++ [call.event db.bootEvents.next]) := by
  unfold LogCall.run logBootEvent
  cases hlatest : latestBootEvent db (normaliseMac call.mac) with
  | none => exact .inr ⟨by simp, rfl⟩
  | some latest =>
    by_cases hsame : latest.entry = call.entry
    · obtain ⟨hstate, hdetail⟩ := Prod.mk.inj hsame
      refine .inl ⟨latest, rfl, hsame, ?_⟩
      dsimp only
      rw [if_pos ⟨hstate, hdetail⟩]
      rfl
    · have hdiffers : ¬(latest.state = call.state ∧
          latest.detail.getD "" = call.detail.getD "") :=
        fun h => hsame (Prod.ext h.1 h.2)
      refine .inr ⟨by simpa using hsame, ?_⟩
      dsimp only
      rw [if_neg hdiffers]
      rfl

namespace BootLog

variable {db : Database} {now : Timestamp} {history : String → List (String × String)}
  {call : LogCall}

/-- A repetition. -/
theorem bump (h : BootLog db now history) (hnow : now ≤ call.now) {latest : BootEvent}
    (hlatest : latestBootEvent db (normaliseMac call.mac) = some latest)
    (hentry : latest.entry = call.entry)
    (hrows : (call.run db).bootEvents.rows =
      db.bootEvents.rows.map (BootEvent.bump call.now latest.id)) :
    BootLog (call.run db) call.now fun mac =>
      if normaliseMac call.mac = mac then history mac ++ [call.entry] else history mac := by
  obtain ⟨hmem, hmac, hgreatest⟩ := h.latest_spec hlatest
  constructor
  · rw [hrows, List.pairwise_map]
    simpa using h.ascending
  · intro mac
    have hkept : ((db.bootEvents.rows.map (BootEvent.bump call.now latest.id)).filter
        fun event => event.mac == mac).map BootEvent.entry = (history mac).destutter (· ≠ ·) := by
      rw [List.filter_map, List.map_map, ← h.entries mac]
      simp [Function.comp_def]
    rw [hrows, hkept]
    split
    · rename_i hown
      subst hown
      have hlast : (history (normaliseMac call.mac)).getLast? = some call.entry := by
        rw [← h.latest_entry, hlatest, Option.map_some, hentry]
      rw [Repeats.destutter_concat, if_pos hlast]
    · rfl
  · rw [hrows]
    intro bumped hbumped bumped' hbumped' hsameMac hlt
    obtain ⟨event, hevent, rfl⟩ := List.mem_map.mp hbumped
    obtain ⟨event', hevent', rfl⟩ := List.mem_map.mp hbumped'
    rw [BootEvent.bump_id, BootEvent.bump_id] at hlt
    rw [BootEvent.bump_mac, BootEvent.bump_mac] at hsameMac
    -- Only the greatest id of a MAC moves its time, so the earlier event of the two stays.
    have hstays : event.bump call.now latest.id = event := by
      refine if_neg fun hid => ?_
      have hsame := h.eq_of_id_eq hevent hmem hid
      have hle := hgreatest event' hevent' (by rw [← hsameMac, hsame, hmac])
      omega
    rw [hstays]
    unfold BootEvent.bump
    split
    · exact (h.past event hevent).trans hnow
    · exact h.ordered event hevent event' hevent' hsameMac hlt
  · rw [hrows]
    intro bumped hbumped
    obtain ⟨event, hevent, rfl⟩ := List.mem_map.mp hbumped
    unfold BootEvent.bump
    split
    · exact Nat.le_refl _
    · exact (h.past event hevent).trans hnow

/-- A new event. -/
theorem insert (h : BootLog db now history) (hnow : now ≤ call.now)
    (hnew : (latestBootEvent db (normaliseMac call.mac)).map BootEvent.entry ≠ some call.entry)
    (hrows : (call.run db).bootEvents.rows =
      db.bootEvents.rows ++ [call.event db.bootEvents.next]) :
    BootLog (call.run db) call.now fun mac =>
      if normaliseMac call.mac = mac then history mac ++ [call.entry] else history mac := by
  constructor
  · rw [hrows, List.pairwise_append]
    refine ⟨h.ascending, List.pairwise_singleton _ _, ?_⟩
    intro event hevent new hmem
    rw [List.mem_singleton.mp hmem]
    exact db.bootEvents.fresh event hevent
  · intro mac
    rw [hrows, List.filter_append, List.map_append, h.entries]
    by_cases hown : normaliseMac call.mac = mac
    · subst hown
      have hlast : ¬(history (normaliseMac call.mac)).getLast? = some call.entry := by
        rw [← h.latest_entry]
        exact hnew
      rw [if_pos rfl, Repeats.destutter_concat, if_neg hlast]
      simp [LogCall.event, LogCall.entry, BootEvent.entry]
    · rw [if_neg hown]
      simp [LogCall.event, hown]
  · rw [hrows]
    intro event hevent event' hevent' hmac hlt
    rcases List.mem_append.mp hevent with hold | hlast
    · rcases List.mem_append.mp hevent' with hold' | hlast'
      · exact h.ordered event hold event' hold' hmac hlt
      · rw [List.mem_singleton.mp hlast']
        exact (h.past event hold).trans hnow
    · -- Nothing stands above the new id.
      rw [List.mem_singleton.mp hlast] at hlt ⊢
      rcases List.mem_append.mp hevent' with hold' | hlast'
      · have hfresh := db.bootEvents.fresh event' hold'
        have hnext : (call.event db.bootEvents.next).id = db.bootEvents.next := rfl
        omega
      · rw [List.mem_singleton.mp hlast']
  · rw [hrows]
    intro event hevent
    rcases List.mem_append.mp hevent with hold | hlast
    · exact (h.past event hold).trans hnow
    · rw [List.mem_singleton.mp hlast]
      exact Nat.le_refl _

/-- One call adds its entry to the history of its MAC. -/
theorem log (h : BootLog db now history) (hnow : now ≤ call.now) :
    BootLog (call.run db) call.now fun mac =>
      if normaliseMac call.mac = mac then history mac ++ [call.entry] else history mac := by
  rcases call.run_cases db with ⟨latest, hlatest, hentry, hrows⟩ | ⟨hnew, hrows⟩
  · exact h.bump hnow hlatest hentry hrows
  · exact h.insert hnow hnew hrows

end BootLog

/-! ## Runs -/

/-- The calls one after another. -/
def logAll (calls : List LogCall) (db : Database) : Database :=
  calls.foldl (fun db call => call.run db) db

theorem logAll_concat (calls : List LogCall) (call : LogCall) (db : Database) :
    logAll (calls ++ [call]) db = call.run (logAll calls db) := by
  rw [logAll, List.foldl_append]
  rfl

/-- The log after any run that starts with no events, at the time of its last call. -/
theorem bootLog_logAll {calls : List LogCall} {db : Database}
    (hempty : db.bootEvents.rows = []) (hclock : (calls.map LogCall.now).Pairwise (· ≤ ·)) :
    ∃ now, BootLog (logAll calls db) now (reportsOf calls) ∧
      ∀ later, (∀ call ∈ calls, call.now ≤ later) → now ≤ later := by
  induction calls using List.reverseRecOn with
  | nil =>
    refine ⟨0, ?_, fun later _ => Nat.zero_le later⟩
    constructor <;> simp [logAll, hempty, reportsOf]
  | append_singleton calls call ih =>
    rw [List.map_append, List.pairwise_append] at hclock
    obtain ⟨hcalls, -, hlast⟩ := hclock
    obtain ⟨now, hlog, hbound⟩ := ih hcalls
    have hnow : now ≤ call.now := by
      refine hbound call.now fun earlier hearlier => ?_
      exact hlast _ (List.mem_map_of_mem hearlier) _ (by simp)
    refine ⟨call.now, ?_, fun later hlater => hlater call (by simp)⟩
    rw [logAll_concat, reports_concat]
    exact hlog.log hnow

/-- **The log is exact.** The calls may concern any MACs in any order; only the clock must not
run backwards. -/
theorem bootLog_exact (calls : List LogCall) (db : Database) (hempty : db.bootEvents.rows = [])
    (hclock : (calls.map LogCall.now).Pairwise (· ≤ ·)) (mac : String) :
    (storedEvents (logAll calls db) (normaliseMac mac)).map BootEvent.entry =
        (reportsOf calls (normaliseMac mac)).destutter (· ≠ ·) ∧
      ∀ limit, (storedEvents (logAll calls db) (normaliseMac mac)).length ≤ limit →
        recentBootEvents (logAll calls db) limit (some mac) =
          (storedEvents (logAll calls db) (normaliseMac mac)).reverse := by
  obtain ⟨now, hlog, -⟩ := bootLog_logAll hempty hclock
  constructor
  · rw [storedEvents, hlog.sorted_eq, hlog.entries]
  · intro limit hlimit
    unfold recentBootEvents
    dsimp only
    rw [hlog.recent_eq, List.take_of_length_le (by simpa using hlimit)]

end Calls

section Examples

attribute [local instance] ascii

/-- Two machines report in turn, one of them in other letters and with an empty detail. -/
def twoMachines : List LogCall :=
  [⟨1, "aa:bb:cc:dd:ee:01", "booting", none⟩, ⟨1, "aa:bb:cc:dd:ee:02", "booting", none⟩,
    ⟨2, "AA-BB-CC-DD-EE-01", "booting", some ""⟩, ⟨4, "aa:bb:cc:dd:ee:01", "ready", none⟩]

theorem bootLog_exact_twoMachines :
    (storedEvents (logAll twoMachines emptyFile) (normaliseMac "aa:bb:cc:dd:ee:01")).map
        BootEvent.entry = [("booting", ""), ("ready", "")] ∧
      recentBootEvents (logAll twoMachines emptyFile) 200 (some "aa:bb:cc:dd:ee:01") =
        (storedEvents (logAll twoMachines emptyFile)
          (normaliseMac "aa:bb:cc:dd:ee:01")).reverse := by
  obtain ⟨hstored, hrecent⟩ := bootLog_exact twoMachines emptyFile rfl
    (by simp [twoMachines]) "aa:bb:cc:dd:ee:01"
  have hreports : (reportsOf twoMachines (normaliseMac "aa:bb:cc:dd:ee:01")).destutter (· ≠ ·) =
      [("booting", ""), ("ready", "")] := by decide +kernel
  rw [hreports] at hstored
  refine ⟨hstored, hrecent 200 ?_⟩
  rw [← List.length_map BootEvent.entry, hstored]
  decide

end Examples

end Fleetboot
