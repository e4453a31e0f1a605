import Fleetboot.Registry.HardwareReports
import Fleetboot.Server.BootServing
import Fleetboot.TftpGlue.Boots

/-!
# Runs of booting machines

* `reports_stayHome`: what machines report is written to their own rows.
* `reports_accepted_iff`: how long the reports of a boot are accepted.
* `config_of_registry`: which image a machine boots.
-/

set_option autoImplicit false

namespace Fleetboot

open Python Relational Transition Grants

section Steps

variable [Unicode] [IpAddress] {setup : BootSetup} {s s' : Boots} {event : BootsEvent}

/-! ## The way of one request -/

/-- A request stays where it is in the list, and comes on by its own calls only. -/
theorem BootsStep.request (h : BootsStep setup s event s') {i : Nat} {req : JailRequest}
    {stage : JailStage} (hat : s.requests[i]? = some (req, stage)) :
    s'.requests[i]? = some (req, stage) ∨ ∃ token, event.action = .advance i token ∧
      s'.db = (stage.next setup.glue event.time token req s.db).1 ∧
      s'.requests[i]? = some (req, (stage.next setup.glue event.time token req s.db).2) := by
  obtain ⟨time, action⟩ := event
  have hlength : i < s.requests.length := (List.getElem?_eq_some_iff.mp hat).1
  rw [h.after]
  cases action with
  | ask req' => exact .inl ((List.getElem?_append_left hlength).trans hat)
  | advance i' token =>
    by_cases hsame : i' = i
    · subst hsame
      right
      unfold Boots.after
      dsimp only
      rw [hat]
      exact ⟨token, rfl, rfl, List.getElem?_set_self hlength⟩
    · left
      unfold Boots.after
      dsimp only
      split
      · exact hat
      · exact (List.getElem?_set_ne hsame).trans hat
  | source i' file =>
    left
    unfold Boots.after
    dsimp only
    split <;> exact hat
  | boot i' =>
    left
    unfold Boots.after
    dsimp only
    split <;> exact hat
  | report j clientHost report =>
    left
    unfold Boots.after
    dsimp only
    split <;> exact hat
  | handle k =>
    left
    unfold Boots.after
    dsimp only
    split <;> exact hat
  | call op => exact .inl hat

/-- A request is not lost. -/
theorem BootsStep.request_kept (h : BootsStep setup s event s') {i : Nat} {req : JailRequest}
    (hat : ∃ stage, s.requests[i]? = some (req, stage)) :
    ∃ stage, s'.requests[i]? = some (req, stage) := by
  obtain ⟨stage, hat⟩ := hat
  rcases h.request hat with hsame | ⟨token, -, -, hnext⟩
  · exact ⟨_, hsame⟩
  · exact ⟨_, hnext⟩

/-- GRUB reads a file of its configuration. -/
theorem Boots.after_source {i : Nat} {req : JailRequest} {cfg file : String} {time : Timestamp}
    {report : BootReport} (hat : s.requests[i]? = some (req, .answered (some cfg)))
    (hfile : file ∈ sourcedFiles cfg)
    (hforwarded : forwarded setup.client.baseUrl file = some report) :
    (s.after setup ⟨time, .source i file⟩).reports =
      s.reports ++ [(req.identity, .arrived report)] := by
  unfold Boots.after
  dsimp only
  rw [hat]
  dsimp only
  rw [if_pos hfile, hforwarded]
  rfl

omit [IpAddress] in
theorem rendered_eq_some {glue : Glue} {req : JailRequest} {machine : RegisteredMachine}
    {token mac cfg : String} (h : req.rendered glue machine (.minted token mac) = some cfg) :
    render req.identity glue.base token machine = .ok cfg := by
  unfold JailRequest.rendered mintedToken at h
  dsimp only at h
  by_cases hempty : token = ""
  · rw [if_pos hempty] at h
    cases h
  · rw [if_neg hempty] at h
    dsimp only at h
    cases hrender : render req.identity glue.base token machine with
    | error err =>
      rw [hrender] at h
      cases h
    | ok cfg' =>
      rw [hrender] at h
      exact congrArg Except.ok (Option.some.inj h)

/-- A session is minted for what the request knew. -/
theorem minted_of_next {glue : Glue} {now : Timestamp} {token : String} {req : JailRequest}
    {db : Database} {stage : JailStage} {machine : RegisteredMachine} {session : BootSession}
    (h : (stage.next glue now token req db).2 = .minted machine session) :
    stage = .known machine ∧ session.token = token ∧
      (token, normaliseMac req.identity.assertedMac) ∈
        (stage.next glue now token req db).1.bindings := by
  cases stage with
  | asked =>
    unfold JailStage.next at h
    cases hsecret : requireSecret glue.config.mintSecret "resolve not configured"
        (some glue.client.authHeader) with
    | error failure =>
      rw [hsecret] at h
      cases h
    | ok _ =>
      rw [hsecret] at h
      dsimp only at h
      split at h <;> cases h
  | unknown =>
    unfold JailStage.next at h
    dsimp only at h
    split at h <;> cases h
  | matched rule =>
    unfold JailStage.next at h
    dsimp only at h
    split at h <;> cases h
  | known machine' =>
    unfold JailStage.next at h ⊢
    rcases hbegin : beginMint glue.config.mintSecret now token (req.mint glue.client) db with
      ⟨db', answer | session'⟩
    · rw [hbegin] at h
      cases h
    · rw [hbegin] at h
      cases h
      obtain ⟨htoken, -, hbound, -⟩ := beginMint_ok hbegin
      exact ⟨rfl, htoken, sessionMac_eq_some_iff.mp hbound⟩
  | minted machine' session' => cases h
  | answered cfg => cases h

/-- What becomes of a request whose session is minted. -/
theorem rendered_of_run {s₃ : Boots} {events : List BootsEvent} {i : Nat} {req : JailRequest}
    {machine : RegisteredMachine} {session : BootSession} {cfg : String}
    (hrun : Run (BootsStep setup) s events s₃)
    (hminted : s.requests[i]? = some (req, .minted machine session))
    (hanswered : s₃.requests[i]? = some (req, .answered (some cfg))) :
    render req.identity setup.url.base session.token machine = .ok cfg := by
  let outcome := req.rendered setup.glue machine (.minted session.token session.mac)
  have hinvariant : s₃.requests[i]? = some (req, .minted machine session) ∨
      s₃.requests[i]? = some (req, .answered outcome) := by
    refine hrun.invariant (I := fun s => s.requests[i]? = some (req, .minted machine session) ∨
      s.requests[i]? = some (req, .answered outcome)) ?_ (.inl hminted)
    rintro s event s' (hat | hat) hstep
    · rcases hstep.request hat with hsame | ⟨token, -, -, hnext⟩
      · exact .inl hsame
      · exact .inr hnext
    · rcases hstep.request hat with hsame | ⟨token, -, -, hnext⟩
      · exact .inr hsame
      · exact .inr hnext
  rcases hinvariant with hat | hat
  · rw [hanswered] at hat
    cases hat
  · rw [hanswered] at hat
    exact rendered_eq_some (JailStage.answered.inj (Prod.mk.inj (Option.some.inj hat)).2).symm

/-! ## Whose reports are recorded -/

/-- **Reports stay home.** Whatever is under way, the server acknowledges what a machine sends under
the MAC that the machine booted with, and writes it to the rows of that MAC only. -/
theorem reports_stayHome {s₀ : Boots} {events : List BootsEvent}
    (hbare : IsBareServer setup.client.baseUrl) (hstart : s₀.Started)
    (hrun : Run (BootsStep setup) s₀ events s) {k : Nat} {identity : ClientIdentity}
    {handling : Handling} (hat : s.reports[k]? = some (identity, handling)) :
    (∀ mac state pending, handling = .answered (.status (.acknowledged mac state pending)) →
      mac = normaliseMac identity.assertedMac) ∧
    ∀ time mac, mac ≠ normaliseMac identity.assertedMac →
      Untouched mac s.db (s.after setup ⟨time, .handle k⟩).db := by
  have hkept : s.Kept setup.url :=
    hrun.invariant (fun _ _ _ hkept hstep => hkept.step hbare hstep) hstart.kept
  have hfits := hkept.reports _ (List.mem_of_getElem? hat)
  constructor
  · rintro mac state pending rfl
    exact hfits
  · intro time mac hne
    unfold Boots.after
    dsimp only
    rw [hat]
    exact untouched_next hkept.ascend hfits hne

end Steps

/-! ## How long reports are accepted -/

section Accepted

variable [Unicode]

/-- A valid report is acknowledged exactly if its token has its session. -/
theorem acknowledged_iff {now : Timestamp} {clientHost : Option String} {report : StatusReport}
    {db : Database} {drawn : List String} {identity : ClientIdentity} {token : String}
    (hholds : Holds (db.ledger drawn) identity token) (hvalid : report.isValid = true) :
    (∃ pending, (postStatus now ⟨some ("Bearer " ++ token), clientHost, report⟩ db).2 =
      .acknowledged (normaliseMac identity.assertedMac) report.state pending) ↔
      (token, normaliseMac identity.assertedMac) ∈ db.bindings := by
  unfold postStatus
  dsimp only
  rw [if_neg (by simp [hvalid]), extractBearerToken_bearer hholds.hex]
  cases hrecord : recordReport now token report.state db with
  | none =>
    refine iff_of_false (by simp) fun hbound => ?_
    exact lookupSession_ne_none_iff.mpr ⟨_, hbound⟩ (recordReport_none hrecord)
  | some found =>
    obtain ⟨session, recorded⟩ := found
    have hbound : (token, session.mac) ∈ db.bindings :=
      sessionMac_eq_some_iff.mp (sessionMac_recordReport hrecord).1
    have hmac := hholds.granted.only _ hbound
    dsimp only
    rw [hmac] at hbound ⊢
    exact iff_of_true ⟨_, rfl⟩ hbound

variable [IpAddress] {setup : BootSetup}

section Minted

variable {s₀ s₁ s₂ s₃ : Boots} {before after : List BootsEvent} {i : Nat} {time : Timestamp}
  {token cfg : String} {req : JailRequest} {machine : RegisteredMachine} {session : BootSession}

/-- The configuration that answers a request boots with the token that was minted for it, and the
session lasts until it is ended. -/
theorem boot_of_mint (hbare : IsBareServer setup.client.baseUrl) (hstart : s₀.Started)
    (hbefore : Run (BootsStep setup) s₀ before s₁)
    (hmint : BootsStep setup s₁ ⟨time, .advance i token⟩ s₂)
    (hminted : s₂.requests[i]? = some (req, .minted machine session))
    (hafter : Run (BootsStep setup) s₂ after s₃)
    (hanswered : s₃.requests[i]? = some (req, .answered (some cfg))) :
    ∃ squashfs, squashfsFilenameFor (machine.bootArchitecture req.identity) machine.bootProfile =
        .ok squashfs ∧ BootsWith cfg setup.url token squashfs ∧
      Holds s₃.ledger req.identity token ∧
      ((token, normaliseMac req.identity.assertedMac) ∈ s₃.db.bindings ↔
        ∀ event ∈ after, ¬ event.action.Revokes token (normaliseMac req.identity.assertedMac)) := by
  have hkept₂ : s₂.Kept setup.url := (hbefore.snoc hmint).invariant
    (fun _ _ _ hkept hstep => hkept.step hbare hstep) hstart.kept
  obtain ⟨hbound, htoken, hdrawn⟩ :
      (token, normaliseMac req.identity.assertedMac) ∈ s₂.db.bindings ∧
        session.token = token ∧ token ∈ s₂.drawn := by
    have hstate := hmint.after
    unfold Boots.after at hstate
    dsimp only at hstate
    split at hstate
    · rename_i hnone
      subst hstate
      cases hnone.symm.trans hminted
    · rename_i req' stage hat
      subst hstate
      have hlength : i < s₁.requests.length := (List.getElem?_eq_some_iff.mp hat).1
      dsimp only at hminted ⊢
      rw [List.getElem?_set_self hlength] at hminted
      obtain ⟨rfl, hnext⟩ := Prod.mk.inj (Option.some.inj hminted)
      obtain ⟨-, hsession, hbound⟩ := minted_of_next hnext
      exact ⟨hbound, hsession, List.mem_cons_self⟩
  obtain ⟨honeLine, hmode, hholds⟩ := hkept₂.requests _ (List.mem_of_getElem? hminted)
  have hrender := rendered_of_run hafter hminted hanswered
  rw [htoken] at hholds hrender
  obtain ⟨squashfs, hsquashfs, hboots⟩ :=
    bootsWith_of_render honeLine (not_isSpace_of_hex hholds.hex) hmode hrender
  refine ⟨squashfs, hsquashfs, hboots, ?_, ?_⟩
  · exact (hafter.invariant (I := fun s => s.Kept setup.url ∧ Holds s.ledger req.identity token)
      (fun _ _ _ hinv hstep => ⟨hinv.1.step hbare hstep,
        hinv.2.change (hstep.change hinv.1.sound.hasRun)⟩) ⟨hkept₂, hholds⟩).2
  · rw [hafter.holds_iff (I := fun s => s.Kept setup.url ∧ token ∈ s.drawn)
      (P := fun s => (token, normaliseMac req.identity.assertedMac) ∈ s.db.bindings)
      (fun _ _ _ hinv hstep => ⟨hinv.1.step hbare hstep, hstep.oneCall.1 hinv.2⟩)
      (fun _ _ _ hinv hstep => hstep.bound_iff hinv.1.sound.hasRun hinv.2) ⟨hkept₂, hdrawn⟩,
      and_iff_right hbound]

/-- **Reports are accepted** as long as the machine is not removed and its session not ended: from
the mint on, what the booted machine reports is acknowledged under its MAC exactly if neither has
happened. -/
theorem reports_accepted_iff (hbare : IsBareServer setup.client.baseUrl) (hstart : s₀.Started)
    (hbefore : Run (BootsStep setup) s₀ before s₁)
    (hmint : BootsStep setup s₁ ⟨time, .advance i token⟩ s₂)
    (hminted : s₂.requests[i]? = some (req, .minted machine session))
    (hafter : Run (BootsStep setup) s₂ after s₃)
    (hanswered : s₃.requests[i]? = some (req, .answered (some cfg))) :
    ∃ cmdline, bootedCmdline cfg = some cmdline ∧ ∀ now clientHost (report : StatusReport),
      report.isValid = true → ∃ request, statusRequest cmdline clientHost report = some request ∧
        ((∃ pending, (postStatus now request s₃.db).2 =
          .acknowledged (normaliseMac req.identity.assertedMac) report.state pending) ↔
            ∀ event ∈ after,
              ¬ event.action.Revokes token (normaliseMac req.identity.assertedMac)) := by
  obtain ⟨squashfs, -, hboots, hholds, hlasts⟩ :=
    boot_of_mint hbare hstart hbefore hmint hminted hafter hanswered
  obtain ⟨cmdline, hbooted, hparsed, -⟩ := hboots.kernel
  refine ⟨cmdline, hbooted, fun now clientHost report hvalid =>
    ⟨_, by rw [statusRequest, hparsed]; rfl, ?_⟩⟩
  rw [acknowledged_iff hholds hvalid, hlasts]

/-- **The image** that a booted machine fetches is that of its profile and architecture, and is
served to it exactly if its session was not ended, the file is there, and the profile is a slug. -/
theorem image_served_iff (hbare : IsBareServer setup.client.baseUrl) (hstart : s₀.Started)
    (hbefore : Run (BootsStep setup) s₀ before s₁)
    (hmint : BootsStep setup s₁ ⟨time, .advance i token⟩ s₂)
    (hminted : s₂.requests[i]? = some (req, .minted machine session))
    (hafter : Run (BootsStep setup) s₂ after s₃)
    (hanswered : s₃.requests[i]? = some (req, .answered (some cfg))) :
    ∃ cmdline squashfs, bootedCmdline cfg = some cmdline ∧
      squashfsFilenameFor (machine.bootArchitecture req.identity) machine.bootProfile =
        .ok squashfs ∧
      fetchArguments (cmdline ++ "\n") =
        ["fetch=" ++ withoutSlashes setup.url.text ++ "/boot/" ++ token ++ "/" ++ squashfs] ∧
      ∀ (bootDir : PurePath) (isFile : PurePath → Except Exception Bool),
        (∃ path, serveBootFile (some bootDir) isFile token squashfs s₃.db = .file path) ↔
          (∀ event ∈ after,
            ¬ event.action.Revokes token (normaliseMac req.identity.assertedMac)) ∧
          isFile (bootDir.join (.parse squashfs)) = .ok true ∧ IsSlug machine.bootProfile := by
  obtain ⟨squashfs, hsquashfs, hboots, hholds, hlasts⟩ :=
    boot_of_mint hbare hstart hbefore hmint hminted hafter hanswered
  obtain ⟨cmdline, hbooted, -, hfetched⟩ := hboots.kernel
  refine ⟨cmdline, squashfs, hbooted, hsquashfs, hfetched, fun bootDir isFile => ?_⟩
  have hallowed_iff : isAllowedBootFilename squashfs = true ↔ IsSlug machine.bootProfile := by
    have hne : machine.bootProfile ≠ "" := by
      unfold RegisteredMachine.bootProfile
      split
      · decide
      · assumption
    have hname : isProfileName machine.bootProfile = true := by
      unfold squashfsFilenameFor at hsquashfs
      split at hsquashfs
      · cases hsquashfs
      · split at hsquashfs
        · cases hsquashfs
        · rename_i hname
          simpa using hname
    obtain ⟨arch, harch, rfl⟩ := (squashfsFilenameFor_ok_iff hname).mp hsquashfs
    refine isAllowedBootFilename_imageName hne ?_
    obtain ⟨entry, hentry, rfl⟩ := Option.map_eq_some_iff.mp harch
    have hmem := List.mem_of_find?_eq_some hentry
    simp only [archToDebian, List.mem_cons, List.not_mem_nil, or_false] at hmem
    rcases hmem with rfl | rfl | rfl <;> decide
  have hlive : (∃ mac, (token, mac) ∈ s₃.db.bindings) ↔
      (token, normaliseMac req.identity.assertedMac) ∈ s₃.db.bindings := by
    refine ⟨?_, fun hbound => ⟨_, hbound⟩⟩
    rintro ⟨mac, hbound⟩
    exact hholds.granted.only mac hbound ▸ hbound
  simp only [serveBootFile_eq_file_iff, exists_and_left]
  rw [hallowed_iff, hlive, hlasts]
  constructor
  · rintro ⟨hslug, hnot, path, hfile, hroot, hparts⟩
    have hallowed := hallowed_iff.mpr hslug
    rw [← (join_part (isPart_of_allowed hallowed).1).mpr ⟨hroot, hparts⟩]
    exact ⟨hnot, hfile, hslug⟩
  · rintro ⟨hnot, hfile, hslug⟩
    have hallowed := hallowed_iff.mpr hslug
    obtain ⟨hroot, hparts⟩ := (join_part (isPart_of_allowed hallowed).1).mp rfl
    exact ⟨hslug, hnot, _, hfile, hroot, hparts⟩

end Minted

end Accepted

/-! ## Which image is booted -/

section Known

variable [Unicode] [IpAddress]

/-- At some moment of the run, after the request had come, the registry had this of its MAC. -/
def MachineSince (setup : BootSetup) (s₀ : Boots) (events : List BootsEvent) (s : Boots) (i : Nat)
    (req : JailRequest) (machine : RegisteredMachine) : Prop :=
  ∃ before after s₁ m, events = before ++ after ∧ Run (BootsStep setup) s₀ before s₁ ∧
    Run (BootsStep setup) s₁ after s ∧ (∃ stage, s₁.requests[i]? = some (req, stage)) ∧
    s₁.db.lookup req.identity.assertedMac = some m ∧
    machine = (MachineRecord.fromMachine m).registered

/-- A call of the run minted the token for the request, and bound it to the MAC of the request. -/
def MintedSince (setup : BootSetup) (s₀ : Boots) (events : List BootsEvent) (s : Boots) (i : Nat)
    (req : JailRequest) (machine : RegisteredMachine) (token : String) : Prop :=
  ∃ before time after s₁ s₂ session, events = before ++ ⟨time, .advance i token⟩ :: after ∧
    Run (BootsStep setup) s₀ before s₁ ∧ BootsStep setup s₁ ⟨time, .advance i token⟩ s₂ ∧
    Run (BootsStep setup) s₂ after s ∧ s₂.requests[i]? = some (req, .minted machine session) ∧
    session.token = token ∧ (token, normaliseMac req.identity.assertedMac) ∈ s₂.db.bindings

/-- What is known of the machine of a request comes from the registry, and its session was minted
for it. -/
def JailStage.Sourced (setup : BootSetup) (s₀ : Boots) (events : List BootsEvent) (s : Boots)
    (i : Nat) (req : JailRequest) : JailStage → Prop
  | known machine => MachineSince setup s₀ events s i req machine
  | minted machine session => MachineSince setup s₀ events s i req machine ∧
      MintedSince setup s₀ events s i req machine session.token
  | answered (some cfg) => ∃ machine token, MachineSince setup s₀ events s i req machine ∧
      MintedSince setup s₀ events s i req machine token ∧
      IsTokenHex token ∧ render req.identity setup.url.base token machine = .ok cfg
  | _ => True

variable {setup : BootSetup} {s₀ s s' : Boots} {events : List BootsEvent} {event : BootsEvent}
  {i : Nat} {req : JailRequest}

theorem MachineSince.snoc {machine : RegisteredMachine}
    (h : MachineSince setup s₀ events s i req machine) (hstep : BootsStep setup s event s') :
    MachineSince setup s₀ (events ++ [event]) s' i req machine := by
  obtain ⟨before, after, s₁, m, rfl, hbefore, hafter, hat, hlookup, hmachine⟩ := h
  exact ⟨before, after ++ [event], s₁, m, List.append_assoc .., hbefore, hafter.snoc hstep, hat,
    hlookup, hmachine⟩

theorem MintedSince.snoc {machine : RegisteredMachine} {token : String}
    (h : MintedSince setup s₀ events s i req machine token) (hstep : BootsStep setup s event s') :
    MintedSince setup s₀ (events ++ [event]) s' i req machine token := by
  obtain ⟨before, time, after, s₁, s₂, session, rfl, hbefore, hmint, hafter, hminted⟩ := h
  exact ⟨before, time, after ++ [event], s₁, s₂, session, by simp, hbefore, hmint,
    hafter.snoc hstep, hminted⟩

theorem JailStage.Sourced.snoc {stage : JailStage} (h : stage.Sourced setup s₀ events s i req)
    (hstep : BootsStep setup s event s') : stage.Sourced setup s₀ (events ++ [event]) s' i req := by
  cases stage with
  | known machine => exact MachineSince.snoc h hstep
  | minted machine session => exact ⟨h.1.snoc hstep, h.2.snoc hstep⟩
  | answered cfg =>
    cases cfg with
    | none => trivial
    | some cfg =>
      obtain ⟨machine, token, hsince, hminted, hhex, hrender⟩ := h
      exact ⟨machine, token, hsince.snoc hstep, hminted.snoc hstep, hhex, hrender⟩
  | asked | unknown | matched => trivial

/-- A configuration is the answer when the session is minted. -/
theorem answered_of_next {glue : Glue} {now : Timestamp} {token cfg : String} {db : Database}
    {stage : JailStage} (h : (stage.next glue now token req db).2 = .answered (some cfg)) :
    stage = .answered (some cfg) ∨ ∃ machine session, stage = .minted machine session ∧
      req.rendered glue machine (.minted session.token session.mac) = some cfg := by
  cases stage with
  | asked =>
    unfold JailStage.next at h
    cases hsecret : requireSecret glue.config.mintSecret "resolve not configured"
        (some glue.client.authHeader) with
    | error failure =>
      rw [hsecret] at h
      cases h
    | ok _ =>
      rw [hsecret] at h
      dsimp only at h
      split at h <;> cases h
  | unknown =>
    unfold JailStage.next at h
    dsimp only at h
    split at h <;> cases h
  | matched rule =>
    unfold JailStage.next at h
    dsimp only at h
    split at h <;> cases h
  | known machine =>
    unfold JailStage.next at h
    rcases hbegin : beginMint glue.config.mintSecret now token (req.mint glue.client) db with
      ⟨db', answer | session⟩
    · rw [hbegin] at h
      cases h
    · rw [hbegin] at h
      cases h
  | minted machine session => exact .inr ⟨machine, session, rfl, JailStage.answered.inj h⟩
  | answered cfg' => exact .inl h

theorem next_known_ne {glue : Glue} {now : Timestamp} {token : String} {db : Database}
    (machine machine' : RegisteredMachine) :
    ((JailStage.known machine).next glue now token req db).2 ≠ .known machine' := by
  unfold JailStage.next
  rcases beginMint glue.config.mintSecret now token (req.mint glue.client) db with
    ⟨db', answer | session⟩ <;> simp

/-- A request comes in without anything known of its machine. -/
theorem BootsStep.new_request (hstep : BootsStep setup s event s') (hnone : s.requests[i]? = none)
    {stage : JailStage} (hat : s'.requests[i]? = some (req, stage)) : stage = .asked := by
  have hsame : ∀ {requests : List (JailRequest × JailStage)},
      requests.length = s.requests.length → requests[i]? ≠ some (req, stage) := by
    intro requests hlength hsome
    have hlt := (List.getElem?_eq_some_iff.mp hsome).1
    exact Nat.not_lt_of_le (List.getElem?_eq_none_iff.mp hnone) (hlength ▸ hlt)
  obtain ⟨time, action⟩ := event
  rw [hstep.after] at hat
  unfold Boots.after at hat
  cases action with
  | ask req' =>
    dsimp only at hat
    rw [List.getElem?_append_right (List.getElem?_eq_none_iff.mp hnone)] at hat
    have hmem := List.mem_singleton.mp (List.mem_of_getElem? hat)
    exact (Prod.mk.inj hmem).2
  | advance i' token =>
    dsimp only at hat
    split at hat
    · exact absurd hat (hsame rfl)
    · exact absurd hat (hsame List.length_set)
  | source i' file =>
    dsimp only at hat
    split at hat <;> exact absurd hat (hsame rfl)
  | boot i' =>
    dsimp only at hat
    split at hat <;> exact absurd hat (hsame rfl)
  | report j clientHost report =>
    dsimp only at hat
    split at hat <;> exact absurd hat (hsame rfl)
  | handle k =>
    dsimp only at hat
    split at hat <;> exact absurd hat (hsame rfl)
  | call op => exact absurd hat (hsame rfl)

/-- The call of a request keeps what is known of its machine, or takes it from the registry. -/
theorem JailStage.Sourced.next {stage : JailStage} {token : String}
    (hrun : Run (BootsStep setup) s₀ events s) (h : stage.Sourced setup s₀ events s i req)
    (hfits : stage.Fits setup.url s.ledger req) (hstep : BootsStep setup s event s')
    (haction : event.action = .advance i token)
    (hdb : s'.db = (stage.next setup.glue event.time token req s.db).1)
    (hat : s'.requests[i]? = some (req, (stage.next setup.glue event.time token req s.db).2)) :
    (stage.next setup.glue event.time token req s.db).2.Sourced setup s₀ (events ++ [event]) s' i
      req := by
  have hkept := h.snoc hstep
  generalize hnext : (stage.next setup.glue event.time token req s.db).2 = stage' at hat
  cases stage' with
  | asked | unknown | matched => trivial
  | known machine =>
    have hnot : ∀ machine, stage ≠ .known machine := by
      rintro machine' rfl
      exact next_known_ne machine' machine hnext
    obtain ⟨m, hlookup, hmachine⟩ := lookup_of_known hnot hnext
    rw [← hdb] at hlookup
    exact ⟨events ++ [event], [], s', m, (List.append_nil _).symm, hrun.snoc hstep, .nil,
      ⟨_, hat⟩, hlookup, hmachine⟩
  | minted machine session =>
    obtain ⟨rfl, htoken, hbound⟩ := minted_of_next hnext
    rw [← hdb] at hbound
    obtain ⟨time, action⟩ := event
    obtain rfl : action = .advance i token := haction
    exact ⟨hkept, events, time, [], s, s', session, by rw [htoken], hrun, htoken ▸ hstep, .nil,
      hat, rfl, htoken ▸ hbound⟩
  | answered cfg =>
    cases cfg with
    | none => trivial
    | some cfg =>
      rcases answered_of_next hnext with rfl | ⟨machine, session, rfl, hrendered⟩
      · exact hkept
      · exact ⟨machine, session.token, hkept.1, hkept.2, hfits.2.hex,
          rendered_eq_some hrendered⟩

theorem sourced_of_run (hbare : IsBareServer setup.client.baseUrl) (hstart : s₀.Started)
    (hrun : Run (BootsStep setup) s₀ events s) {stage : JailStage}
    (hat : s.requests[i]? = some (req, stage)) : stage.Sourced setup s₀ events s i req := by
  induction hrun generalizing stage with
  | nil =>
    rw [hstart.requests] at hat
    cases hat
  | @snoc events event s s' hrun hstep ih =>
    have hkept : s.Kept setup.url :=
      hrun.invariant (fun _ _ _ hkept hstep => hkept.step hbare hstep) hstart.kept
    cases hbefore : s.requests[i]? with
    | none =>
      rw [hstep.new_request hbefore hat]
      trivial
    | some entry =>
      obtain ⟨req', stage'⟩ := entry
      rcases hstep.request hbefore with hsame | ⟨token, haction, hdb, hnext⟩
      · cases hat.symm.trans hsame
        exact (ih hbefore).snoc hstep
      · cases hat.symm.trans hnext
        exact (ih hbefore).next hrun (hkept.requests _ (List.mem_of_getElem? hbefore)).2 hstep
          haction hdb hnext

/-- **Which image a machine boots.** A configuration that answers a request boots the image of the
profile and the architecture that the registry had for the MAC at some moment after the request had
come, under a token that was minted for the request and bound to its MAC. -/
theorem config_of_registry {cfg : String} (hbare : IsBareServer setup.client.baseUrl)
    (hstart : s₀.Started) (hrun : Run (BootsStep setup) s₀ events s)
    (hat : s.requests[i]? = some (req, .answered (some cfg))) :
    ∃ machine token squashfs, MachineSince setup s₀ events s i req machine ∧
      MintedSince setup s₀ events s i req machine token ∧
      squashfsFilenameFor (machine.bootArchitecture req.identity) machine.bootProfile =
        .ok squashfs ∧ BootsWith cfg setup.url token squashfs := by
  obtain ⟨machine, token, hsince, hminted, hhex, hrender⟩ := sourced_of_run hbare hstart hrun hat
  have hkept : s.Kept setup.url :=
    hrun.invariant (fun _ _ _ hkept hstep => hkept.step hbare hstep) hstart.kept
  have hmode : machine.scratchMode ∈ scratchModes := by
    obtain ⟨-, -, -, m, -, -, -, -, -, rfl⟩ := hsince
    exact scratchModes_of_row m
  obtain ⟨squashfs, hsquashfs, hboots⟩ := bootsWith_of_render
    (hkept.requests _ (List.mem_of_getElem? hat)).1 (not_isSpace_of_hex hhex) hmode hrender
  exact ⟨machine, token, squashfs, hsince, hminted, hsquashfs, hboots⟩

end Known

section Examples

attribute [local instance] ascii noNetworks

def labSetup : BootSetup :=
  { config := labSecrets
    client := ⟨"http://fleetboot:8080", "mint", by decide, by decide⟩
    url := labUrl }

def labRequest : JailRequest := ⟨⟨"52-54-00-12-34-56", "x86_64", "efi"⟩, none⟩

/-- The desktop is enrolled. -/
def labStarted : Boots :=
  { clock := 5, db := enrolledDesktop.db, drawn := []
    requests := [], running := [], reports := [] }

def labAsked : Boots := labStarted.after labSetup ⟨6, .ask labRequest⟩

def labKnown : Boots := labAsked.after labSetup ⟨7, .advance 0 "a0"⟩

def labMinted : Boots := labKnown.after labSetup ⟨8, .advance 0 "a1"⟩

/-- It has its configuration. -/
def labAnswered : Boots := labMinted.after labSetup ⟨9, .advance 0 "a2"⟩

theorem labStarted_started : labStarted.Started where
  reachable := enrolledDesktop_reachable
  ascend := by unfold EventsAscend; decide +kernel
  drawn := by decide +kernel
  requests := rfl
  running := rfl
  reports := rfl

theorem labSetup_bare : IsBareServer labSetup.client.baseUrl :=
  ⟨"http", "fleetboot:8080", "", .inl rfl, by decide, forall_mem_of_all (by decide),
    forall_mem_of_all (by decide), by decide⟩

theorem step_labAsked : BootsStep labSetup labStarted ⟨6, .ask labRequest⟩ labAsked :=
  ⟨by decide, ⟨by decide, by decide, by decide⟩, rfl⟩

theorem step_labKnown : BootsStep labSetup labAsked ⟨7, .advance 0 "a0"⟩ labKnown :=
  ⟨by decide, ⟨by decide, by decide, forall_mem_of_all (by decide)⟩, rfl⟩

theorem step_labMinted : BootsStep labSetup labKnown ⟨8, .advance 0 "a1"⟩ labMinted :=
  ⟨by decide +kernel, ⟨by decide +kernel, by decide, forall_mem_of_all (by decide)⟩, rfl⟩

theorem step_labAnswered : BootsStep labSetup labMinted ⟨9, .advance 0 "a2"⟩ labAnswered :=
  ⟨by decide +kernel, ⟨by decide +kernel, by decide, forall_mem_of_all (by decide)⟩, rfl⟩

theorem run_labKnown : Run (BootsStep labSetup) labStarted
    [⟨6, .ask labRequest⟩, ⟨7, .advance 0 "a0"⟩] labKnown :=
  (Run.single step_labAsked).snoc step_labKnown

theorem run_labAnswered : Run (BootsStep labSetup) labStarted
    [⟨6, .ask labRequest⟩, ⟨7, .advance 0 "a0"⟩, ⟨8, .advance 0 "a1"⟩, ⟨9, .advance 0 "a2"⟩]
    labAnswered :=
  (run_labKnown.snoc step_labMinted).snoc step_labAnswered

def JailStage.boots : JailStage → Option RegisteredMachine
  | minted machine _ => some machine
  | _ => none

def JailStage.cfg : JailStage → Option String
  | answered cfg => cfg
  | _ => none

theorem labAsked_requests : labAsked.requests[0]? = some (labRequest, .asked) := rfl

theorem labMinted_requests : ∃ machine session, machine.bootProfile = "school" ∧
    labMinted.requests[0]? = some (labRequest, .minted machine session) := by
  obtain ⟨stage, hat⟩ :=
    step_labMinted.request_kept (step_labKnown.request_kept ⟨_, labAsked_requests⟩)
  have hboots : (labMinted.requests[0]?.bind fun entry => entry.2.boots).map
      RegisteredMachine.bootProfile = some "school" := by decide +kernel
  rw [hat] at hboots
  cases stage with
  | minted machine session => exact ⟨machine, session, Option.some.inj hboots, hat⟩
  | asked | unknown | matched | known | answered => cases hboots

theorem labAnswered_requests : ∃ cfg,
    labAnswered.requests[0]? = some (labRequest, .answered (some cfg)) := by
  obtain ⟨stage, hat⟩ := step_labAnswered.request_kept
    (step_labMinted.request_kept (step_labKnown.request_kept ⟨_, labAsked_requests⟩))
  have hanswered : (labAnswered.requests[0]?.bind fun entry => entry.2.cfg).isSome = true := by
    decide +kernel
  rw [hat] at hanswered
  cases stage with
  | answered cfg =>
    cases cfg with
    | some cfg => exact ⟨cfg, hat⟩
    | none => cases hanswered
  | asked | unknown | matched | known | minted => cases hanswered

/-- What the desktop reports is acknowledged under its MAC. -/
theorem reports_accepted_desktop : ∃ cmdline, ∀ report : StatusReport, report.isValid = true →
    ∃ request, statusRequest cmdline (some "10.0.0.7") report = some request ∧
      ∃ pending, (postStatus 10 request labAnswered.db).2 =
        .acknowledged (normaliseMac "52-54-00-12-34-56") report.state pending := by
  obtain ⟨machine, session, -, hminted⟩ := labMinted_requests
  obtain ⟨cfg, hanswered⟩ := labAnswered_requests
  obtain ⟨cmdline, -, haccepted⟩ := reports_accepted_iff labSetup_bare labStarted_started
    run_labKnown step_labMinted hminted (.single step_labAnswered) hanswered
  refine ⟨cmdline, fun report hvalid => ?_⟩
  obtain ⟨request, hrequest, hiff⟩ := haccepted 10 (some "10.0.0.7") report hvalid
  refine ⟨request, hrequest, hiff.mpr fun event hevent => ?_⟩
  rw [List.mem_singleton.mp hevent]
  exact id

/-- The desktop is served its image. -/
theorem image_served_desktop : ∃ machine : RegisteredMachine, ∃ squashfs path,
    machine.bootProfile = "school" ∧
    squashfsFilenameFor (machine.bootArchitecture labRequest.identity) machine.bootProfile =
      .ok squashfs ∧
    serveBootFile (some (.parse "/srv/boot")) (fun _ => .ok true) "a1" squashfs labAnswered.db =
      .file path := by
  obtain ⟨machine, session, hprofile, hminted⟩ := labMinted_requests
  obtain ⟨cfg, hanswered⟩ := labAnswered_requests
  obtain ⟨cmdline, squashfs, -, hsquashfs, -, hserved⟩ := image_served_iff labSetup_bare
    labStarted_started run_labKnown step_labMinted hminted (.single step_labAnswered) hanswered
  obtain ⟨path, hpath⟩ : ∃ path, serveBootFile (some (.parse "/srv/boot")) (fun _ => .ok true) "a1"
      squashfs labAnswered.db = .file path := by
    refine (hserved _ _).mpr ⟨fun event hevent => ?_, rfl, ?_⟩
    · rw [List.mem_singleton.mp hevent]
      exact id
    · rw [hprofile]
      exact ⟨forall_mem_of_all (by decide), by decide⟩
  exact ⟨machine, squashfs, path, hprofile, hsquashfs, hpath⟩

/-- The configuration of the desktop is that of a machine of the registry. -/
theorem config_of_registry_desktop : ∃ cfg token squashfs events, ∃ machine : RegisteredMachine,
    labAnswered.requests[0]? = some (labRequest, .answered (some cfg)) ∧
    MintedSince labSetup labStarted events labAnswered 0 labRequest machine token ∧
    squashfsFilenameFor (machine.bootArchitecture labRequest.identity) machine.bootProfile =
      .ok squashfs ∧ BootsWith cfg labUrl token squashfs := by
  obtain ⟨cfg, hanswered⟩ := labAnswered_requests
  obtain ⟨machine, token, squashfs, -, hminted, hsquashfs, hboots⟩ :=
    config_of_registry labSetup_bare labStarted_started run_labAnswered hanswered
  exact ⟨cfg, token, squashfs, _, machine, hanswered, hminted, hsquashfs, hboots⟩

/-- A report of the desktop, before the server gets to it. -/
def labReport : Handling := .arrived (.grubEvent "a1" "grub_running")

def labReported : Boots := labAnswered.after labSetup ⟨10, .source 0 "/grub-event/a1/grub_running"⟩

theorem labReported_reports : labReported.reports[0]? = some (labRequest.identity, labReport) := by
  obtain ⟨machine, session, -, hminted⟩ := labMinted_requests
  obtain ⟨cfg, hanswered⟩ := labAnswered_requests
  obtain ⟨squashfs, -, hboots, -⟩ := boot_of_mint labSetup_bare labStarted_started
    run_labKnown step_labMinted hminted (.single step_labAnswered) hanswered
  have hfile : "/grub-event/a1/grub_running" ∈ sourcedFiles cfg := by
    rw [hboots.sourced]
    exact List.mem_cons_self
  have hparts : eventParts "/grub-event/a1/grub_running" = some ("a1", "grub_running") := by
    decide +kernel
  have hroute : routeGrubEvent (requestPath (eventUrl "http://fleetboot:8080" "a1" "grub_running"))
      = some ("a1", "grub_running") := by decide +kernel
  have hforwarded : forwarded labSetup.client.baseUrl "/grub-event/a1/grub_running" =
      some (.grubEvent "a1" "grub_running") := by
    unfold forwarded
    rw [hparts, Option.bind_some]
    exact congrArg (Option.map _) hroute
  have hnone : labAnswered.reports.length = 0 := by decide +kernel
  have hreports := @Boots.after_source _ _ _ _ _ _ _ _ 10 _ hanswered hfile hforwarded
  rw [List.length_eq_zero_iff.mp hnone] at hreports
  exact congrArg (fun reports => reports[0]?) hreports

theorem step_labReported : BootsStep labSetup labAnswered
    ⟨10, .source 0 "/grub-event/a1/grub_running"⟩ labReported :=
  ⟨by decide +kernel, trivial, rfl⟩

/-- What GRUB reports of the desktop leaves another machine alone. -/
theorem reports_stayHome_desktop : Untouched "52:54:00:00:00:09" labReported.db
    (labReported.after labSetup ⟨11, .handle 0⟩).db :=
  (reports_stayHome labSetup_bare labStarted_started
    (run_labAnswered.snoc step_labReported) labReported_reports).2 11 _ (by decide +kernel)

end Examples

end Fleetboot
