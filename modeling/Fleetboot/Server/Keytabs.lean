import Fleetboot.Library.PurePath
import Fleetboot.Registry.Leftovers
import Fleetboot.Server.Bearer
import Fleetboot.Server.SoftReboot

/-!
# Keytabs

`GET /enrol/{token}/keytab` of `app.py`: a booting machine fetches its enrolment keytab under the
token of its session. The file is named by the MAC that the session was minted for.

* `readsKeytab_iff`: which path a session for a MAC reads.
* `keytabsConfined_iff`: that these are files of the directory, each MAC's own, is up to the
  slashes in the MACs.
-/

set_option autoImplicit false

namespace Fleetboot

open Python Relational Transition

/-- What the endpoint answers: 503, 401, 404, a failure of the server, or the file. -/
inductive KeytabAnswer
  | notConfigured
  | unauthorised
  | notProvisioned
  | failed (err : Exception)
  | file (path : PurePath)

/-- `keytabs_dir / f"{mac}.keytab"`. -/
def keytabPath (keytabsDir : PurePath) (mac : String) : PurePath :=
  keytabsDir.join (.parse (mac ++ ".keytab"))

/-- `serve_keytab`. -/
def serveKeytab (keytabsDir : Option PurePath) (isFile : PurePath → Except Exception Bool)
    (token : String) (db : Database) : KeytabAnswer :=
  match keytabsDir with
  | none => .notConfigured
  | some keytabsDir =>
    match lookupSession db token with
    | none => .unauthorised
    | some session =>
      let path := keytabPath keytabsDir session.mac
      match isFile path with
      | .error err => .failed err
      | .ok false => .notProvisioned
      | .ok true => .file path

section Sessions

variable [Unicode] [IpAddress]

/-- A session was minted for the MAC through the endpoint, and at some later time its token reads
the path. -/
def ReadsKeytab (keytabsDir : PurePath) (mac : String) (path : PurePath) : Prop :=
  ∃ (mintSecret : Option String) (isFile : PurePath → Except Exception Bool) (time : Timestamp)
    (token stored : String) (req : MintRequest) (s s' : Registry) (calls : List Call),
    Reachable s ∧ req.mac = mac ∧
    (mintSession mintSecret time token req s.db).2 = .minted token stored ∧
    Run Step ⟨time, (mintSession mintSecret time token req s.db).1⟩ calls s' ∧
    (∀ call ∈ calls, ∀ mac', call.op ≠ .mint token mac') ∧
    serveKeytab (some keytabsDir) isFile token s'.db = .file path

variable {now : Timestamp} {db : Database} {token mac : String}

omit [Unicode] [IpAddress] in
theorem sessionMac_eq_some_iff : sessionMac db token = some mac ↔ (token, mac) ∈ db.bindings := by
  unfold sessionMac Database.bindings
  rw [Option.map_eq_some_iff, List.mem_map]
  constructor
  · rintro ⟨row, hrow, rfl⟩
    obtain ⟨hmem, -, rfl⟩ := Table.lookup_eq_some_iff.mp hrow
    exact ⟨row, hmem, rfl⟩
  · rintro ⟨row, hrow, heq⟩
    cases heq
    exact ⟨row, Table.lookup_of_mem hrow rfl, rfl⟩

omit [IpAddress] in
/-- A minted token is bound to the normalised MAC. -/
theorem sessionMac_mintSession {mintSecret : Option String} {req : MintRequest} {stored : String}
    (h : (mintSession mintSecret now token req db).2 = .minted token stored) :
    sessionMac (mintSession mintSecret now token req db).1 token =
      some (normaliseMac req.mac) := by
  unfold mintSession at h ⊢
  rcases hbegin : beginMint mintSecret now token req db with ⟨db', answer | session⟩
  · rw [hbegin] at h
    rcases beginMint_cases mintSecret now token req db with
      ⟨answer', hrefused, hnone⟩ | ⟨rows, -, hminted⟩
    · rw [hbegin] at hrefused
      cases hrefused
      exact absurd h (hnone token stored)
    · rw [hbegin] at hminted
      cases hminted
  · exact (beginMint_ok hbegin).2.2.1

/-- Later calls bind the token to no other MAC, if it is not drawn again. -/
theorem bindings_of_run {s s' : Registry} {calls : List Call} (hrun : Run Step s calls s')
    (hs : HasRun s.db) (hfresh : ∀ call ∈ calls, ∀ mac', call.op ≠ .mint token mac')
    (h : ∀ mac', (token, mac') ∈ s.db.bindings → mac' = mac) :
    ∀ mac', (token, mac') ∈ s'.db.bindings → mac' = mac := by
  have hkeep : ∀ s₁ call s₂, (HasRun s₁.db ∧ ∀ mac', (token, mac') ∈ s₁.db.bindings → mac' = mac) →
      Step s₁ call s₂ → (∀ mac', call.op ≠ .mint token mac') →
      HasRun s₂.db ∧ ∀ mac', (token, mac') ∈ s₂.db.bindings → mac' = mac := by
    intro s₁ call s₂ hs₁ hstep hgood
    have hdb : s₂.db = (call.op.run call.time s₁.db).db := by rw [hstep.run]
    refine ⟨hdb ▸ hasRun_run hs₁.1 call.op, fun mac' hbound => ?_⟩
    rw [hdb] at hbound
    rcases mem_bindings_run hs₁.1 hbound with hold | ⟨mac'', hmint, -⟩
    · exact hs₁.2 mac' hold
    · exact absurd hmint (hgood mac'')
  exact (hrun.invariant_of_good hkeep ⟨hs, h⟩ hfresh).2

omit [Unicode] [IpAddress] in
theorem serveKeytab_eq_file {keytabsDir path : PurePath}
    {isFile : PurePath → Except Exception Bool}
    (h : serveKeytab (some keytabsDir) isFile token db = .file path) :
    ∃ mac, (token, mac) ∈ db.bindings ∧ path = keytabPath keytabsDir mac := by
  unfold serveKeytab at h
  cases hsession : lookupSession db token with
  | none =>
    rw [hsession] at h
    cases h
  | some session =>
    refine ⟨session.mac, sessionMac_eq_some_iff.mp ?_, ?_⟩
    · obtain ⟨row, hrow, rfl⟩ := Option.map_eq_some_iff.mp hsession
      rw [sessionMac, hrow]
      rfl
    · rw [hsession] at h
      dsimp only at h
      split at h
      · cases h
      · cases h
      · cases h
        rfl

theorem hasRun_mintSession (h : HasRun db) (mintSecret : Option String) (req : MintRequest) :
    HasRun (mintSession mintSecret now token req db).1 := by
  unfold mintSession
  rcases beginMint_cases mintSecret now token req db with
    ⟨answer, hrefused, -⟩ | ⟨rows, -, hminted⟩
  · rw [hrefused]
    exact h
  · rw [hminted]
    have hminted : HasRun { db with bootSessions := rows } := ⟨h.pinned, h.hardwareSpecAdded⟩
    exact @hasRun_run _ now _ _ hminted (.setPendingReboot (normaliseMac req.mac) false)

omit [IpAddress] in
theorem extractBearerToken_bearer_s : extractBearerToken (some "Bearer s") = "s" := by
  have hword : "Bearer".toList.all (fun c => !isSpace c) = true := by decide
  have hlower : lower "Bearer" = "bearer" := by
    rw [lower, Unicode.lower_ascii _ (forall_mem_of_all (by decide))]
    decide
  have hbears : Bears "Bearer s".toList [] "Bearer".toList [' '] ['s'] [] :=
    ⟨rfl, List.forall_mem_nil _, fun c hc => by simpa using List.all_eq_true.mp hword c hc, hlower,
      forall_mem_of_all (by decide), by decide, by decide, by decide, List.forall_mem_nil _⟩
  exact hbears.extractBearerToken_eq

omit [IpAddress] in
/-- A token that no session has is minted for the secret. -/
theorem mintSession_of_secret (hnew : db.bootSessions.lookup token = none) :
    (mintSession (some "s") now token ⟨some "Bearer s", mac⟩ db).2 =
      .minted token (normaliseMac mac) := by
  have hsecret : IsAscii "s" := forall_mem_of_all (by decide)
  have htoken : IsAscii (extractBearerToken (some "Bearer s")) :=
    extractBearerToken_bearer_s.symm ▸ hsecret
  have hvalue := (@mint_fresh _ now _ _ mac hnew).1
  unfold mintSession
  rw [beginMint_of_ascii hsecret (by decide) htoken, if_pos extractBearerToken_bearer_s,
    admittedMint, hvalue]
  rfl

/-- **Which path a session reads.** A session for a MAC reads the file of the normalised MAC, and no
other. -/
theorem readsKeytab_iff {keytabsDir path : PurePath} :
    ReadsKeytab keytabsDir mac path ↔ path = keytabPath keytabsDir (normaliseMac mac) := by
  constructor
  · rintro ⟨mintSecret, isFile, time, token, stored, req, s, s', calls, hreach, rfl, hminted, hrun,
      hfresh, hserved⟩
    have hmac := sessionMac_mintSession hminted
    have hhas := @hasRun_mintSession _ _ time s.db token hreach.sound.hasRun mintSecret req
    obtain ⟨mac', hmac', rfl⟩ := serveKeytab_eq_file hserved
    rw [bindings_of_run hrun hhas hfresh (fun mac'' h => ?_) mac' hmac']
    rw [sessionMac_eq_some_iff.mpr h, Option.some_inj] at hmac
    exact hmac
  · intro hpath
    obtain ⟨s, hreach, hnew⟩ : ∃ s, Reachable s ∧ s.db.bootSessions.lookup "t" = none :=
      ⟨⟨0, (openRegistry 0 emptyFile).db⟩, ⟨_, [], ⟨emptyFile, .inl rfl, rfl⟩, .nil⟩,
        by decide +kernel⟩
    have hminted := @mintSession_of_secret _ 0 s.db "t" mac hnew
    refine ⟨some "s", fun _ => .ok true, 0, "t", _, ⟨some "Bearer s", mac⟩, s, _, [], hreach, rfl,
      hminted, .nil, fun _ hcall => absurd hcall List.not_mem_nil, ?_⟩
    obtain ⟨row, hrow, hmac⟩ := Option.map_eq_some_iff.mp (sessionMac_mintSession hminted)
    rw [hpath, serveKeytab, lookupSession, hrow, ← hmac]
    rfl

/-! ## Confinement -/

/-- The sessions for two MACs read files directly in the directory, and not the same file if the
MACs differ. -/
structure KeytabsConfined (keytabsDir : PurePath) (mac mac' : String) : Prop where
  left : ∀ path, ReadsKeytab keytabsDir mac path → keytabsDir.IsChild path
  right : ∀ path, ReadsKeytab keytabsDir mac' path → keytabsDir.IsChild path
  apart : normaliseMac mac ≠ normaliseMac mac' →
    ∀ path, ReadsKeytab keytabsDir mac path → ¬ ReadsKeytab keytabsDir mac' path

/-- A MAC as a text: it has no slash, or spells the directory in front of its last part. -/
def NamesInside (keytabsDir : PurePath) (mac : String) : Prop :=
  '/' ∉ mac.toList ∨ (mac.toList.head? = some '/' ∧
    PurePath.parse (String.ofList (PurePath.directoryText mac.toList)) = keytabsDir)

section Names

variable (keytabsDir : PurePath) (mac : String)

/-- The name of the file, without its ending. -/
def keytabName : String := String.ofList (PurePath.lastText mac.toList)

omit [Unicode] [IpAddress] in
theorem keytab_spelled : mac ++ ".keytab" =
    String.ofList (PurePath.directoryText mac.toList) ++ (keytabName mac ++ ".keytab") := by
  rw [← String.append_assoc, keytabName, ← String.ofList_append,
    PurePath.directoryText_append_lastText, String.ofList_toList]

omit [Unicode] [IpAddress] in
theorem isPart_keytab : IsPart (keytabName mac ++ ".keytab") := by
  refine ⟨fun h => ?_, fun h => ?_, fun h => ?_⟩
  · have hlength := congrArg String.length h
    rw [String.length_append] at hlength
    exact absurd hlength (Nat.ne_of_gt (Nat.lt_add_left _ (by decide)))
  · have hlength := congrArg String.length h
    rw [String.length_append] at hlength
    exact absurd hlength (Nat.ne_of_gt (Nat.lt_add_left _ (by decide)))
  · rw [String.toList_append, List.mem_append, keytabName, String.toList_ofList] at h
    rcases h with h | h
    · exact PurePath.not_mem_lastText _ h
    · exact absurd h (by decide)

variable {keytabsDir mac}

omit [Unicode] [IpAddress] in
theorem isChild_keytabPath_iff (hdot : '.' ∉ mac.toList) :
    keytabsDir.IsChild (keytabPath keytabsDir mac) ↔ NamesInside keytabsDir mac := by
  have hup : keytabName mac ++ ".keytab" ≠ ".." := fun h => by
    have hlength := congrArg String.length h
    rw [String.length_append] at hlength
    exact absurd hlength (Nat.ne_of_gt (Nat.lt_add_left _ (by decide)))
  rw [keytabPath, keytab_spelled, PurePath.isChild_join_iff (isPart_keytab mac) hup]
  exact PurePath.join_directory_iff hdot

omit [Unicode] [IpAddress] in
/-- A MAC that names inside the directory reads the file of its name. -/
theorem keytabPath_of_inside (hdot : '.' ∉ mac.toList) (hinside : NamesInside keytabsDir mac) :
    (keytabPath keytabsDir mac).root = keytabsDir.root ∧
      (keytabPath keytabsDir mac).parts = keytabsDir.parts ++ [keytabName mac ++ ".keytab"] := by
  obtain ⟨hroot, hparts⟩ := @PurePath.join_append_part mac.toList _ keytabsDir (isPart_keytab mac)
  rw [(PurePath.join_directory_iff hdot).mpr hinside] at hroot hparts
  rw [keytabPath, keytab_spelled]
  exact ⟨hroot, hparts⟩

omit [Unicode] [IpAddress] in
theorem keytabPath_eq_iff {mac' : String} (hdot : '.' ∉ mac.toList) (hdot' : '.' ∉ mac'.toList)
    (hinside : NamesInside keytabsDir mac) (hinside' : NamesInside keytabsDir mac') :
    keytabPath keytabsDir mac = keytabPath keytabsDir mac' ↔ keytabName mac = keytabName mac' := by
  obtain ⟨hroot, hparts⟩ := keytabPath_of_inside hdot hinside
  obtain ⟨hroot', hparts'⟩ := keytabPath_of_inside hdot' hinside'
  constructor
  · intro hsame
    rw [hsame, hparts'] at hparts
    have hname := List.singleton_inj.mp (List.append_cancel_left hparts)
    exact ((String.append_left_inj _).mp hname).symm
  · intro hname
    refine PurePath.ext (hroot.trans hroot'.symm) ?_
    rw [hparts, hparts', hname]

end Names

/-- **Keytabs are confined** exactly if each normalised MAC names a file of the directory, and two
that differ have different last parts. -/
theorem keytabsConfined_iff (keytabsDir : PurePath) (mac mac' : String) :
    KeytabsConfined keytabsDir mac mac' ↔
      NamesInside keytabsDir (normaliseMac mac) ∧ NamesInside keytabsDir (normaliseMac mac') ∧
        (normaliseMac mac ≠ normaliseMac mac' →
          keytabName (normaliseMac mac) ≠ keytabName (normaliseMac mac')) := by
  have hdot : ∀ mac, '.' ∉ (normaliseMac mac).toList := fun mac hmem =>
    (not_separator_of_mem_normaliseMac hmem).2 rfl
  constructor
  · intro h
    have hleft := (isChild_keytabPath_iff (hdot mac)).mp (h.left _ (readsKeytab_iff.mpr rfl))
    have hright := (isChild_keytabPath_iff (hdot mac')).mp (h.right _ (readsKeytab_iff.mpr rfl))
    refine ⟨hleft, hright, fun hne hname => ?_⟩
    have hsame := (keytabPath_eq_iff (hdot mac) (hdot mac') hleft hright).mpr hname
    exact h.apart hne _ (readsKeytab_iff.mpr rfl) (readsKeytab_iff.mpr hsame)
  · rintro ⟨hleft, hright, hapart⟩
    refine ⟨fun path hpath => ?_, fun path hpath => ?_, fun hne path hpath hpath' => ?_⟩
    · rw [readsKeytab_iff.mp hpath]
      exact (isChild_keytabPath_iff (hdot mac)).mpr hleft
    · rw [readsKeytab_iff.mp hpath]
      exact (isChild_keytabPath_iff (hdot mac')).mpr hright
    · have hsame := (readsKeytab_iff.mp hpath).symm.trans (readsKeytab_iff.mp hpath')
      exact hapart hne ((keytabPath_eq_iff (hdot mac) (hdot mac') hleft hright).mp hsame)

end Sessions

section Examples

attribute [local instance] ascii noNetworks

/-- The MAC of a session is a path. -/
theorem not_keytabsConfined : ¬ ∀ mac mac',
    KeytabsConfined (.parse "/srv/fleetboot/keytabs") mac mac' := by
  intro h
  obtain ⟨name, -, -, hparts⟩ :=
    (h "/etc/krb5" "52:54:00:12:34:56").left _ (readsKeytab_iff.mpr rfl)
  have hread : (keytabPath (.parse "/srv/fleetboot/keytabs") (normaliseMac "/etc/krb5")).parts =
      ["etc", "krb5.keytab"] := by decide +kernel
  have hdirectory : (PurePath.parse "/srv/fleetboot/keytabs").parts =
      ["srv", "fleetboot", "keytabs"] := by decide +kernel
  rw [hread, hdirectory] at hparts
  have hhead := (List.cons.inj hparts).1
  exact absurd hhead (by decide)

end Examples

end Fleetboot
