import Fleetboot.Library.Grants
import Fleetboot.Registry.Leftovers

/-!
# What a token is good for

The token of a session is a key that is drawn for the MAC of a machine. Whatever calls are made of
the registry, it stays with that MAC, and a report under it is written to the rows of that MAC.

* `change_run`: to the ledger of the tokens, a call is a change, unless it mints a token again.
* `mem_bindings_run_iff`: a session lasts until it is ended or its MAC is removed.
* `untouched_recordState`, `untouched_logBootEvent`: what a report leaves of the other MACs.
-/

set_option autoImplicit false

namespace Fleetboot

open Python Relational Transition Grants

/-- The tokens that were ever drawn, and the MACs of the sessions. -/
def Database.ledger (db : Database) (drawn : List String) : Ledger String String :=
  { drawn := {token | token ∈ drawn}
    bound := fun token mac => (token, mac) ∈ db.bindings }

section Ledger

variable [Unicode] [IpAddress] {now : Timestamp} {db : Database} {drawn : List String}

/-- The token that a call binds, if it does. -/
def Operation.minted : Operation → List String
  | mint token _ => [token]
  | _ => []

/-- **A call and the ledger.** -/
theorem change_run {op : Operation} {drawn' : List String} (hrun : HasRun db)
    (hfresh : ∀ token ∈ op.minted, token ∉ drawn) (hminted : op.minted ⊆ drawn')
    (hdrawn : drawn ⊆ drawn') :
    (db.ledger drawn).Change ((op.run now db).db.ledger drawn') := by
  refine ⟨fun token htoken => hdrawn htoken, fun token mac hbound => ?_⟩
  rcases mem_bindings_run hrun hbound with hold | ⟨mac', rfl, -⟩
  · exact .inl hold
  · have hmem : token ∈ (Operation.mint token mac').minted := List.mem_singleton_self _
    exact .inr ⟨hfresh token hmem, hminted hmem⟩

omit [Unicode] [IpAddress] in
/-- Tokens may be drawn for nothing. -/
theorem change_drawn {drawn' : List String} (hdrawn : drawn ⊆ drawn') :
    (db.ledger drawn).Change (db.ledger drawn') :=
  ⟨fun _ htoken => hdrawn htoken, fun _ _ hbound => .inl hbound⟩

omit [IpAddress] in
/-- A mint binds the token to the normalised MAC. -/
theorem bind_mint {token mac : String} (hfresh : token ∉ drawn) :
    (db.ledger drawn).Bind token (normaliseMac mac)
      ((mint now token mac db).db.ledger (token :: drawn)) := by
  refine ⟨hfresh, ?_, fun token' mac' hbound => ?_⟩
  · ext token'
    exact List.mem_cons
  · by_cases hlive : db.bootSessions.lookup token = none
    · obtain ⟨row, hrow, heq⟩ := List.mem_map.mp hbound
      rw [(mint_fresh mac hlive).2] at hrow
      rcases List.mem_append.mp hrow with hrow | hrow
      · exact .inl (List.mem_map.mpr ⟨row, hrow, heq⟩)
      · rw [List.mem_singleton.mp hrow] at heq
        cases heq
        exact .inr ⟨rfl, rfl⟩
    · rw [mint_live mac hlive] at hbound
      exact .inl hbound

/-- The calls that end a session. -/
def Operation.Revokes (token mac : String) : Operation → Prop
  | remove mac' => normaliseMac mac' = mac
  | endSession token' => token' = token
  | _ => False

/-- A session that is not ended stays. -/
theorem mem_bindings_run_of_not_revokes {op : Operation} {token mac : String} (hrun : HasRun db)
    (hnot : ¬ op.Revokes token mac) (h : (token, mac) ∈ db.bindings) :
    (token, mac) ∈ (op.run now db).db.bindings := by
  obtain ⟨row, hrow, heq⟩ := List.mem_map.mp h
  cases op with
  | remove mac' =>
    have hmac : row.mac = mac := (Prod.mk.inj heq).2
    refine List.mem_map.mpr ⟨row, List.mem_filter.mpr ⟨hrow, ?_⟩, heq⟩
    have hne : ¬ row.mac = normaliseMac mac' := fun hsame => hnot (hsame.symm.trans hmac)
    simpa using hne
  | mint token' mac' =>
    rw [Operation.run, Outcome.db_map]
    by_cases hlive : db.bootSessions.lookup token' = none
    · refine List.mem_map.mpr ⟨row, ?_, heq⟩
      rw [(mint_fresh mac' hlive).2]
      exact List.mem_append_left _ hrow
    · rw [mint_live mac' hlive]
      exact h
  | recordState token' state =>
    simp only [Operation.run]
    cases hrecord : recordState now token' state db with
    | none => exact h
    | some found => exact (bindings_recordState hrecord).symm ▸ h
  | endSession token' =>
    have htoken : row.token = token := (Prod.mk.inj heq).1
    refine List.mem_map.mpr ⟨row, List.mem_filter.mpr ⟨hrow, ?_⟩, heq⟩
    have hne : ¬ row.token = token' := fun hsame => hnot (hsame.symm.trans htoken)
    simpa using hne
  | _ =>
    unfold Database.bindings
    rw [bootSessions_run hrun rfl]
    exact h

/-- A call that ends a session leaves none with its token and MAC. -/
theorem not_mem_bindings_run_of_revokes {op : Operation} {token mac : String}
    (hrevokes : op.Revokes token mac) : (token, mac) ∉ (op.run now db).db.bindings := by
  intro h
  obtain ⟨row, hrow, heq⟩ := List.mem_map.mp h
  obtain ⟨rfl, rfl⟩ := Prod.mk.inj heq
  cases op with
  | remove mac' =>
    have hkept := (List.mem_filter.mp hrow).2
    have hmac : row.mac = normaliseMac mac' := hrevokes.symm
    simp [hmac] at hkept
  | endSession token' =>
    have hkept := (List.mem_filter.mp hrow).2
    have htoken : row.token = token' := hrevokes.symm
    simp [htoken] at hkept
  | _ => exact hrevokes

/-- **A session lasts** until it is ended or its MAC is removed, and does not come back. -/
theorem mem_bindings_run_iff {op : Operation} {token mac : String} (hrun : HasRun db)
    (hfresh : token ∉ op.minted) : (token, mac) ∈ (op.run now db).db.bindings ↔
      (token, mac) ∈ db.bindings ∧ ¬ op.Revokes token mac := by
  constructor
  · intro h
    refine ⟨?_, fun hrevokes => not_mem_bindings_run_of_revokes hrevokes h⟩
    rcases mem_bindings_run hrun h with hold | ⟨mac', rfl, -⟩
    · exact hold
    · exact absurd (List.mem_singleton_self _) hfresh
  · exact fun ⟨h, hnot⟩ => mem_bindings_run_of_not_revokes hrun hnot h

end Ledger

/-! ## The other machines -/

/-- The ids of the boot events ascend, as SQLite hands them out. -/
def EventsAscend (db : Database) : Prop :=
  db.bootEvents.rows.Pairwise fun event event' => event.id < event'.id

/-- Nothing that is kept of a MAC has changed. -/
structure Untouched (mac : String) (db db' : Database) : Prop where
  machine : db'.machine mac = db.machine mac
  reservations : db'.reservations = db.reservations
  sessions : ∀ row : SessionRow, row.mac = mac →
    (row ∈ db'.bootSessions.rows ↔ row ∈ db.bootSessions.rows)
  events : ∀ event : BootEvent, event.mac = mac →
    (event ∈ db'.bootEvents.rows ↔ event ∈ db.bootEvents.rows)

theorem Untouched.refl (mac : String) (db : Database) : Untouched mac db db :=
  ⟨rfl, rfl, fun _ _ => .rfl, fun _ _ => .rfl⟩

section Ascend

variable [Unicode] {now : Timestamp} {db : Database}

omit [Unicode] in
theorem eventsAscend_append {db : Database} (h : EventsAscend db) (row : Nat → BootEvent)
    (hid : ∀ id, (row id).id = id) :
    EventsAscend { db with bootEvents := db.bootEvents.append row hid } := by
  unfold EventsAscend at h ⊢
  change (db.bootEvents.rows ++ [row db.bootEvents.next]).Pairwise _
  rw [List.pairwise_append]
  refine ⟨h, List.pairwise_singleton _ _, fun event hevent event' hevent' => ?_⟩
  rw [List.mem_singleton.mp hevent', hid]
  exact db.bootEvents.fresh event hevent

omit [Unicode] in
theorem eventsAscend_update {db : Database} (h : EventsAscend db) (f : BootEvent → BootEvent)
    (hid : ∀ event, (f event).id = event.id) :
    EventsAscend { db with bootEvents := db.bootEvents.update f hid } := by
  unfold EventsAscend at h ⊢
  change (db.bootEvents.rows.map f).Pairwise _
  rw [List.pairwise_map]
  simpa only [hid] using h

theorem eventsAscend_logBootEvent (h : EventsAscend db) (mac state : String)
    (detail : Option String) : EventsAscend (logBootEvent now mac state detail db) := by
  unfold logBootEvent
  dsimp only
  split
  · exact eventsAscend_append h _ fun _ => rfl
  · split
    · exact eventsAscend_update h _ _
    · exact eventsAscend_append h _ fun _ => rfl

theorem eventsAscend_run [IpAddress] {op : Operation} (hrun : HasRun db) (h : EventsAscend db) :
    EventsAscend (op.run now db).db := by
  cases op with
  | reopen =>
    rw [Operation.run, Outcome.db_map, openRegistry_of_hasRun now hrun]
    have hrenamed := eventsAscend_update h renamedEvent fun event => by
      unfold renamedEvent
      split <;> rfl
    exact List.Pairwise.sublist List.filter_sublist hrenamed
  | remove mac => exact List.Pairwise.sublist List.filter_sublist h
  | logBootEvent mac state detail => exact eventsAscend_logBootEvent h mac state detail
  | _ =>
    unfold EventsAscend
    rw [bootEvents_run rfl]
    exact h

end Ascend

section Reports

variable [Unicode] {now : Timestamp} {db : Database} {mac mac' : String}

omit [Unicode] in
theorem Untouched.of_machine {db' : Database} (h : ColumnsWritten db db')
    (hmachine : db'.machine mac = db.machine mac) : Untouched mac db db' :=
  ⟨hmachine, h.sameRecords.reservations, fun _ _ => by rw [h.sameRecords.bootSessions],
    fun _ _ => by rw [h.sameRecords.bootEvents]⟩

/-- An event is logged for its MAC only. -/
theorem untouched_logBootEvent (hascend : EventsAscend db) (hne : normaliseMac mac' ≠ mac)
    (state : String) (detail : Option String) :
    Untouched mac db (logBootEvent now mac' state detail db) := by
  have hinsert : ∀ event : BootEvent, event.mac = mac → (event ∈ (db.bootEvents.append
      (fun id => { id, mac := normaliseMac mac', state, detail, occurredAt := now })
      (fun _ => rfl)).rows ↔ event ∈ db.bootEvents.rows) := by
    intro event hmac
    change event ∈ db.bootEvents.rows ++ [_] ↔ _
    rw [List.mem_append, List.mem_singleton]
    refine or_iff_left fun hnew => hne ?_
    rw [← hmac, hnew]
  unfold logBootEvent
  dsimp only
  split
  · exact ⟨rfl, rfl, fun _ _ => .rfl, hinsert⟩
  · rename_i latest hlatest
    split
    · refine ⟨rfl, rfl, fun _ _ => .rfl, fun event hmac => ?_⟩
      -- The event that is moved is one of the reporting MAC.
      have hmem : latest ∈ db.bootEvents.rows ∧ latest.mac = normaliseMac mac' := by
        have hin := List.mem_of_mem_head? (Option.mem_def.mpr hlatest)
        rw [List.mem_insertionSort, List.mem_filter] at hin
        exact ⟨hin.1, by simpa using hin.2⟩
      have hnodup : (db.bootEvents.rows.map BootEvent.id).Nodup :=
        List.pairwise_map.mpr (hascend.imp fun hlt => Nat.ne_of_lt hlt)
      change event ∈ db.bootEvents.rows.map _ ↔ _
      rw [List.mem_map]
      constructor
      · rintro ⟨before, hbefore, rfl⟩
        by_cases hid : before.id = latest.id
        · have hsame := List.inj_on_of_nodup_map hnodup hbefore hmem.1 hid
          rw [if_pos hid] at hmac
          exact absurd (hmem.2.symm.trans ((congrArg BootEvent.mac hsame).symm.trans hmac)) hne
        · rw [if_neg hid]
          exact hbefore
      · intro hevent
        refine ⟨event, hevent, if_neg fun hid => ?_⟩
        have hsame := List.inj_on_of_nodup_map hnodup hevent hmem.1 hid
        exact hne (hmem.2.symm.trans ((congrArg BootEvent.mac hsame).symm.trans hmac))
    · exact ⟨rfl, rfl, fun _ _ => .rfl, hinsert⟩

omit [Unicode] in
/-- A state is recorded for the MAC of its token only. -/
theorem untouched_recordState {token : String} {state : BootState} {session : BootSession}
    {recorded : Database} (hrecord : recordState now token state db = some (session, recorded))
    (hnot : (token, mac) ∉ db.bindings) : Untouched mac db recorded := by
  obtain ⟨row, hrow, heq⟩ := Option.map_eq_some_iff.mp hrecord
  cases heq
  refine ⟨rfl, rfl, fun session hmac => ?_, fun _ _ => .rfl⟩
  have hother : ∀ session ∈ db.bootSessions.rows, session.mac = mac → session.token ≠ token :=
    fun session hsession hmac htoken =>
      hnot (List.mem_map.mpr ⟨session, hsession, by rw [htoken, hmac]⟩)
  rw [Table.rows_update, List.mem_map]
  constructor
  · rintro ⟨before, hbefore, rfl⟩
    by_cases htoken : before.token = token
    · rw [if_pos htoken] at hmac
      exact absurd htoken (hother before hbefore hmac)
    · rw [if_neg htoken]
      exact hbefore
  · exact fun hsession => ⟨session, hsession, if_neg (hother session hsession hmac)⟩

end Reports

end Fleetboot
