import Fleetboot.TftpGlue.BootLine

/-!
# What GRUB does with a configuration

GRUB runs a rendered configuration line by line: `linux` gives a kernel its command line, `source`
reads a file, by TFTP in this case. What the renderer writes comes out again, whatever the machine
calls itself.

* `behind_scriptOf`: the commands of a script are those of its lines.
* `sourcedFiles_scriptOf`, `bootedCmdline_scriptOf`: what GRUB makes of the lines of a
  configuration.
* `bootsWith_of_render`: a rendered configuration boots into the image of its machine, which
  reports under the token.
-/

set_option autoImplicit false

namespace Fleetboot

open Python

/-! ## Scripts -/

/-- Lines of a script, each with its end. -/
def scriptOf : List String → String
  | [] => ""
  | line :: lines => line ++ ("\n" ++ scriptOf lines)

/-- What stands behind a command, if the line begins with it. -/
def afterCommand (command : String) (line : List Char) : Option String :=
  if command.toList.isPrefixOf line then
    some (String.ofList (line.drop command.toList.length))
  else none

/-- What the lines of a script give to a command. -/
def behind (command script : String) : List String :=
  (script.toList.splitOn '\n').filterMap (afterCommand command)

/-- The command line of the kernel that a configuration boots. -/
def bootedCmdline (cfg : String) : Option String :=
  (behind ("linux " ++ grubDev ++ "/vmlinuz ") cfg).getLast?

/-- The files that a configuration has GRUB read by TFTP. -/
def sourcedFiles (cfg : String) : List String := behind ("source " ++ grubDev) cfg

section Scripts

variable {command : String}

theorem scriptOf_append (lines lines' : List String) :
    scriptOf (lines ++ lines') = scriptOf lines ++ scriptOf lines' := by
  induction lines with
  | nil => rw [List.nil_append, scriptOf, String.empty_append]
  | cons line lines ih =>
    rw [List.cons_append, scriptOf, scriptOf, ih]
    simp only [String.append_assoc]

theorem afterCommand_append (command rest : String) :
    afterCommand command (command ++ rest).toList = some rest := by
  unfold afterCommand
  rw [String.toList_append, if_pos (by simp), List.drop_left, String.ofList_toList]

/-- A line that begins otherwise is not for the command. -/
theorem afterCommand_of_head {c : Char} {front line : List Char}
    (hcommand : command.toList = c :: front) (hline : c ∉ line.head?) : afterCommand command line = none := by
  unfold afterCommand
  rw [if_neg]
  rw [hcommand]
  cases line with
  | nil => exact Bool.false_ne_true
  | cons d line =>
    have hne : ¬ c = d := fun h => hline (by rw [h]; rfl)
    simp [hne]

/-- **The commands of a script.** -/
theorem behind_scriptOf (hcommand : command ≠ "") {lines : List String}
    (hlines : ∀ line ∈ lines, '\n' ∉ line.toList) :
    behind command (scriptOf lines) =
      lines.filterMap fun line => afterCommand command line.toList := by
  unfold behind
  induction lines with
  | nil =>
    have hnone : afterCommand command [] = none := by
      unfold afterCommand
      rw [if_neg]
      simpa using hcommand
    simp [scriptOf, List.splitOn, hnone]
  | cons line lines ih =>
    have hsplit : (scriptOf (line :: lines)).toList.splitOn '\n' =
        line.toList :: (scriptOf lines).toList.splitOn '\n' := by
      have htext : (scriptOf (line :: lines)).toList =
          line.toList ++ '\n' :: (scriptOf lines).toList := by
        rw [scriptOf, String.toList_append, String.toList_append]
        rfl
      rw [htext, List.splitOn_eq_splitOnP, List.splitOn_eq_splitOnP,
        List.splitOnP_append_cons _ _ (by simp)]
      have hclean : line.toList.splitOnP (· == '\n') = [line.toList] :=
        List.splitOnP_eq_singleton fun c hc => by
          simpa using fun h : c = '\n' => hlines line List.mem_cons_self (h ▸ hc)
      rw [hclean]
      rfl
    rw [hsplit, List.filterMap_cons, List.filterMap_cons,
      ih fun line' hline' => hlines line' (List.mem_cons_of_mem _ hline')]

end Scripts

/-! ## The lines of a configuration -/

/-- The line that reports an event. -/
def eventLine (bootToken state : String) : String :=
  "source " ++ grubDev ++ ("/grub-event/" ++ bootToken ++ "/" ++ state)

/-- What GRUB tells of the client. -/
def greeting (identity : ClientIdentity) : String :=
  "echo \"fleetboot: booting " ++ identity.assertedMac ++ " " ++ identity.architecture ++ "/" ++
    identity.platform ++ "\""

def startLines (identity : ClientIdentity) (bootToken : String) (serialConsole : Bool) :
    List String :=
  "set timeout=0" ::
    (if serialConsole then
      ["serial --unit=0 --speed=115200", "terminal_input --append serial",
        "terminal_output --append serial"]
    else []) ++
    [greeting identity, "echo \"fleetboot: > grub_running event\"",
      eventLine bootToken "grub_running", "echo \"fleetboot: > linux kernel\""]

def endLines (bootToken : String) : List String :=
  ["echo \"fleetboot: > kernel_loaded event\"", eventLine bootToken "kernel_loaded",
    "echo \"fleetboot: > initrd\"", "initrd " ++ grubDev ++ "/initrd.img",
    "echo \"fleetboot: > initrd_loaded event\"", eventLine bootToken "initrd_loaded",
    "echo \"fleetboot: > booting_kernel event\"", eventLine bootToken "booting_kernel",
    "echo \"fleetboot: handing off to kernel\"", "boot"]

/-- The lines of a configuration. -/
def configLines (identity : ClientIdentity) (bootToken : String) (serialConsole : Bool)
    (cmdline : String) : List String :=
  startLines identity bootToken serialConsole ++
    ("linux " ++ grubDev ++ "/vmlinuz " ++ cmdline) :: endLines bootToken

theorem grubStart_eq (identity : ClientIdentity) (bootToken : String) (serialConsole : Bool) :
    grubStart identity bootToken serialConsole =
      scriptOf (startLines identity bootToken serialConsole) := by
  have htimeout : "set timeout=0\n" = "set timeout=0" ++ "\n" := by decide +kernel
  have hgreeting : "\"\n" = "\"" ++ "\n" := by decide +kernel
  have hevent : "echo \"fleetboot: > grub_running event\"\n" =
      "echo \"fleetboot: > grub_running event\"" ++ "\n" := by decide +kernel
  have hkernel : "echo \"fleetboot: > linux kernel\"\n" =
      "echo \"fleetboot: > linux kernel\"" ++ ("\n" ++ "") := by decide +kernel
  have hserial : (if serialConsole then
        "serial --unit=0 --speed=115200\nterminal_input --append serial\n" ++
          "terminal_output --append serial\n"
      else "") = scriptOf (if serialConsole then
        ["serial --unit=0 --speed=115200", "terminal_input --append serial",
          "terminal_output --append serial"]
      else []) := by
    cases serialConsole <;> decide +kernel
  unfold grubStart grubEvent startLines greeting eventLine
  rw [htimeout, hgreeting, hevent, hkernel, hserial]
  simp only [scriptOf_append, scriptOf, List.cons_append]
  simp only [String.append_assoc]

theorem grubEnd_eq (bootToken : String) : grubEnd bootToken = scriptOf (endLines bootToken) := by
  have hloaded : "echo \"fleetboot: > kernel_loaded event\"\n" =
      "echo \"fleetboot: > kernel_loaded event\"" ++ "\n" := by decide +kernel
  have hinitrd : "echo \"fleetboot: > initrd\"\n" =
      "echo \"fleetboot: > initrd\"" ++ "\n" := by decide +kernel
  have himage : "/initrd.img\n" = "/initrd.img" ++ "\n" := by decide +kernel
  have hboth : "echo \"fleetboot: > initrd_loaded event\"\n" =
      "echo \"fleetboot: > initrd_loaded event\"" ++ "\n" := by decide +kernel
  have hbooting : "echo \"fleetboot: > booting_kernel event\"\n" =
      "echo \"fleetboot: > booting_kernel event\"" ++ "\n" := by decide +kernel
  have hhanding : "echo \"fleetboot: handing off to kernel\"\n" =
      "echo \"fleetboot: handing off to kernel\"" ++ "\n" := by decide +kernel
  have hboot : "boot\n" = "boot" ++ ("\n" ++ "") := by decide +kernel
  unfold grubEnd grubEvent endLines eventLine
  rw [hloaded, hinitrd, himage, hboth, hbooting, hhanding, hboot]
  simp only [scriptOf]
  simp only [String.append_assoc]

/-- **A configuration in its lines.** -/
theorem config_eq (identity : ClientIdentity) (bootToken : String) (serialConsole : Bool)
    (arguments : List String) :
    grubStart identity bootToken serialConsole ++ kernelLine arguments ++ grubEnd bootToken =
      scriptOf (configLines identity bootToken serialConsole (" ".intercalate arguments)) := by
  rw [grubStart_eq, grubEnd_eq, configLines, scriptOf_append, scriptOf, kernelLine]
  simp only [String.append_assoc]

/-! ## What GRUB makes of it -/

/-- A client whose name for itself is one line. -/
structure ClientIdentity.OneLine (identity : ClientIdentity) : Prop where
  assertedMac : '\n' ∉ identity.assertedMac.toList
  architecture : '\n' ∉ identity.architecture.toList
  platform : '\n' ∉ identity.platform.toList

section Reading

variable {identity : ClientIdentity} {token cmdline : String} {serialConsole : Bool}

theorem oneLine_eventLine (htoken : '\n' ∉ token.toList) {state : String}
    (hstate : '\n' ∉ state.toList) : '\n' ∉ (eventLine token state).toList := by
  unfold eventLine
  simp only [String.toList_append, List.mem_append, not_or]
  exact ⟨⟨by decide +kernel, by decide +kernel⟩, ⟨⟨by decide +kernel, htoken⟩, by decide +kernel⟩,
    hstate⟩

theorem oneLine_greeting (h : identity.OneLine) : '\n' ∉ (greeting identity).toList := by
  unfold greeting
  simp only [String.toList_append, List.mem_append, not_or]
  exact ⟨⟨⟨⟨⟨⟨by decide +kernel, h.assertedMac⟩, by decide +kernel⟩, h.architecture⟩,
    by decide +kernel⟩, h.platform⟩, by decide +kernel⟩

theorem oneLine_configLines (hidentity : identity.OneLine) (htoken : '\n' ∉ token.toList)
    (hcmdline : '\n' ∉ cmdline.toList) :
    ∀ line ∈ configLines identity token serialConsole cmdline, '\n' ∉ line.toList := by
  have hevent : ∀ {state : String}, '\n' ∉ state.toList → '\n' ∉ (eventLine token state).toList :=
    oneLine_eventLine htoken
  have hserial : ∀ line ∈ (if serialConsole then
      ["serial --unit=0 --speed=115200", "terminal_input --append serial",
        "terminal_output --append serial"]
      else [] : List String), '\n' ∉ line.toList := by
    cases serialConsole <;> decide +kernel
  have hkernel : '\n' ∉ ("linux " ++ grubDev ++ "/vmlinuz " ++ cmdline).toList := by
    simp only [String.toList_append, List.mem_append, not_or]
    exact ⟨⟨⟨by decide +kernel, by decide +kernel⟩, by decide +kernel⟩, hcmdline⟩
  intro line hline
  unfold configLines startLines endLines at hline
  simp only [List.mem_append, List.mem_cons, List.not_mem_nil, or_false] at hline
  rcases hline with ((rfl | hline) | rfl | rfl | rfl | rfl) | rfl | rfl | rfl | rfl | rfl | rfl |
    rfl | rfl | rfl | rfl | rfl
  · decide +kernel
  · exact hserial line hline
  · exact oneLine_greeting hidentity
  · decide +kernel
  · exact hevent (by decide +kernel)
  · decide +kernel
  · exact hkernel
  · decide +kernel
  · exact hevent (by decide +kernel)
  · decide +kernel
  · decide +kernel
  · decide +kernel
  · exact hevent (by decide +kernel)
  · decide +kernel
  · exact hevent (by decide +kernel)
  · decide +kernel
  · decide +kernel

/-- The first character of a text that begins with another one. -/
theorem head_append {front rest : String} {c : Char} (h : front.toList.head? = some c) :
    (front ++ rest).toList.head? = some c := by
  rw [String.toList_append, List.head?_append, h, Option.some_or]

theorem head_greeting (identity : ClientIdentity) :
    (greeting identity).toList.head? = some 'e' := by
  unfold greeting
  simp only [String.append_assoc]
  exact head_append (by decide +kernel)

theorem head_eventLine (token state : String) :
    (eventLine token state).toList.head? = some 's' := by
  unfold eventLine
  rw [String.append_assoc]
  exact head_append (by decide +kernel)

/-- **The kernel** gets its command line. -/
theorem bootedCmdline_scriptOf (hidentity : identity.OneLine) (htoken : '\n' ∉ token.toList)
    (hcmdline : '\n' ∉ cmdline.toList) :
    bootedCmdline (scriptOf (configLines identity token serialConsole cmdline)) = some cmdline := by
  have hother : ∀ {line : List Char} {c : Char}, line.head? = some c → c ≠ 'l' →
      afterCommand ("linux " ++ grubDev ++ "/vmlinuz ") line = none := by
    intro line c hline hc
    have hcommand : ("linux " ++ grubDev ++ "/vmlinuz ").toList =
      'l' :: ("inux " ++ grubDev ++ "/vmlinuz ").toList := by decide +kernel
    refine afterCommand_of_head hcommand ?_
    rw [hline]
    exact fun h => hc (Option.some.inj h)
  have hstart : (startLines identity token serialConsole).filterMap (fun line =>
      afterCommand ("linux " ++ grubDev ++ "/vmlinuz ") line.toList) = [] := by
    rw [List.filterMap_eq_nil_iff]
    intro line hline
    unfold startLines at hline
    simp only [List.mem_append, List.mem_cons, List.not_mem_nil, or_false] at hline
    rcases hline with (rfl | hline) | rfl | rfl | rfl | rfl
    · decide +kernel
    · revert line
      cases serialConsole <;> decide +kernel
    · exact hother (head_greeting identity) (by decide)
    · decide +kernel
    · exact hother (head_eventLine token _) (by decide)
    · decide +kernel
  have hend : (endLines token).filterMap (fun line =>
      afterCommand ("linux " ++ grubDev ++ "/vmlinuz ") line.toList) = [] := by
    rw [List.filterMap_eq_nil_iff]
    intro line hline
    unfold endLines at hline
    simp only [List.mem_cons, List.not_mem_nil, or_false] at hline
    rcases hline with rfl | rfl | rfl | rfl | rfl | rfl | rfl | rfl | rfl | rfl
    · decide +kernel
    · exact hother (head_eventLine token _) (by decide)
    · decide +kernel
    · decide +kernel
    · decide +kernel
    · exact hother (head_eventLine token _) (by decide)
    · decide +kernel
    · exact hother (head_eventLine token _) (by decide)
    · decide +kernel
    · decide +kernel
  unfold bootedCmdline
  rw [behind_scriptOf (by decide +kernel) (oneLine_configLines hidentity htoken hcmdline)]
  unfold configLines
  rw [List.filterMap_append, hstart, List.filterMap_cons, afterCommand_append, hend]
  rfl

/-- **The files that are read** report the four stages under the token. -/
theorem sourcedFiles_scriptOf (hidentity : identity.OneLine) (htoken : '\n' ∉ token.toList)
    (hcmdline : '\n' ∉ cmdline.toList) :
    sourcedFiles (scriptOf (configLines identity token serialConsole cmdline)) =
      ["grub_running", "kernel_loaded", "initrd_loaded", "booting_kernel"].map fun state =>
        "/grub-event/" ++ token ++ "/" ++ state := by
  have hother : ∀ {line : List Char} {c : Char}, line.head? = some c → c ≠ 's' →
      afterCommand ("source " ++ grubDev) line = none := by
    intro line c hline hc
    have hcommand : ("source " ++ grubDev).toList = 's' :: ("ource " ++ grubDev).toList := by
      decide +kernel
    refine afterCommand_of_head hcommand ?_
    rw [hline]
    exact fun h => hc (Option.some.inj h)
  have hserial : ((if serialConsole then
      ["serial --unit=0 --speed=115200", "terminal_input --append serial",
        "terminal_output --append serial"]
      else [] : List String)).filterMap (fun line =>
        afterCommand ("source " ++ grubDev) line.toList) = [] := by
    cases serialConsole <;> decide +kernel
  have hevent : ∀ state, afterCommand ("source " ++ grubDev) (eventLine token state).toList =
      some ("/grub-event/" ++ token ++ "/" ++ state) := fun state => afterCommand_append _ _
  have hgreeting : afterCommand ("source " ++ grubDev) (greeting identity).toList = none :=
    hother (head_greeting identity) (by decide)
  have hkernel : afterCommand ("source " ++ grubDev)
      ("linux " ++ grubDev ++ "/vmlinuz " ++ cmdline).toList = none := by
    refine @hother _ 'l' ?_ (by decide)
    simp only [String.append_assoc]
    exact head_append (by decide +kernel)
  have hfixed : ∀ line ∈ ["set timeout=0", "echo \"fleetboot: > grub_running event\"",
      "echo \"fleetboot: > linux kernel\"", "echo \"fleetboot: > kernel_loaded event\"",
      "echo \"fleetboot: > initrd\"", "initrd " ++ grubDev ++ "/initrd.img",
      "echo \"fleetboot: > initrd_loaded event\"", "echo \"fleetboot: > booting_kernel event\"",
      "echo \"fleetboot: handing off to kernel\"", "boot"],
      afterCommand ("source " ++ grubDev) line.toList = none := by decide +kernel
  simp only [List.forall_mem_cons] at hfixed
  obtain ⟨h1, h2, h3, h4, h5, h6, h7, h8, h9, h10, -⟩ := hfixed
  unfold sourcedFiles
  rw [behind_scriptOf (by decide +kernel) (oneLine_configLines hidentity htoken hcmdline)]
  unfold configLines startLines endLines
  simp only [List.filterMap_append, List.filterMap_cons, List.filterMap_nil, List.cons_append,
    hserial, hevent, hgreeting, hkernel, h1, h2, h3, h4, h5, h6, h7, h8, h9, h10, List.nil_append,
    List.map_cons, List.map_nil]

end Reading

/-! ## From the renderer to the booted machine -/

/-- What a configuration makes of the machine that boots it: GRUB reports under the token, live-boot
fetches the image below the server, and so does the reporter read both. -/
structure BootsWith (cfg : String) (url : UrlParts) (token squashfs : String) : Prop where
  sourced : sourcedFiles cfg =
    ["grub_running", "kernel_loaded", "initrd_loaded", "booting_kernel"].map fun state =>
      "/grub-event/" ++ token ++ "/" ++ state
  kernel : ∃ cmdline, bootedCmdline cfg = some cmdline ∧
    parseCmdline (cmdline ++ "\n") =
      .ok { serverUrl := withoutSlashes url.text ++ "/", bootToken := token } ∧
    fetchArguments (cmdline ++ "\n") =
      ["fetch=" ++ withoutSlashes url.text ++ "/boot/" ++ token ++ "/" ++ squashfs]

section Rendered

variable [Unicode] {identity : ClientIdentity} {url : UrlParts} {token cfg : String}
  {machine : RegisteredMachine}

/-- The profile whose image a machine gets. -/
def RegisteredMachine.bootProfile (machine : RegisteredMachine) : String :=
  if machine.profileName = "" then "default" else machine.profileName

/-- The architecture whose image a machine gets. -/
def RegisteredMachine.bootArchitecture (machine : RegisteredMachine) (identity : ClientIdentity) :
    String := if machine.architecture = "" then identity.architecture else machine.architecture

/-- The name of an image is one line. -/
theorem oneLine_squashfs {architecture profile squashfs : String}
    (h : squashfsFilenameFor architecture profile = .ok squashfs) : '\n' ∉ squashfs.toList := by
  unfold squashfsFilenameFor at h
  split at h
  · cases h
  · rename_i debianArch harch
    split at h
    · cases h
    · rename_i hname
      cases h
      have hdebian : '\n' ∉ debianArch.toList := by
        obtain ⟨entry, hentry, rfl⟩ := Option.map_eq_some_iff.mp harch
        have hmem := List.mem_of_find?_eq_some hentry
        simp only [archToDebian, List.mem_cons, List.not_mem_nil, or_false] at hmem
        rcases hmem with rfl | rfl | rfl <;> decide
      have hprofile : '\n' ∉ profile.toList := by
        intro hmem
        simp only [isProfileName, isAlnum, Bool.not_eq_false, Bool.and_eq_true, List.all_eq_true,
          String.toList_ofList, List.mem_filter] at hname
        have halnum := hname.2.2 '\n' ⟨hmem, by decide⟩
        rw [Unicode.isAlnum_ascii '\n' (by decide)] at halnum
        exact absurd halnum (by decide)
      simp only [String.toList_append, List.mem_append, not_or]
      exact ⟨⟨⟨⟨by decide, hprofile⟩, by decide⟩, hdebian⟩, by decide⟩

omit [Unicode] in
/-- The kernel arguments are one line. -/
theorem oneLine_kernelArguments {base : BaseUrl} {squashfs mode : String} {serialConsole : Bool}
    (hroot : '\n' ∉ base.serverRoot.toList) (htoken : '\n' ∉ token.toList)
    (hsquashfs : '\n' ∉ squashfs.toList) (hmode : '\n' ∉ mode.toList) :
    '\n' ∉ (" ".intercalate (kernelArguments base token squashfs mode serialConsole)).toList := by
  have harguments : ∀ arg ∈ kernelArguments base token squashfs mode serialConsole,
      '\n' ∉ arg.toList := by
    have hconsole : ∀ arg ∈ (if serialConsole then ["console=tty0", "console=ttyS0,115200n8"]
        else ["quiet"]), '\n' ∉ arg.toList := by
      cases serialConsole <;> decide
    intro arg harg
    unfold kernelArguments at harg
    rcases List.mem_append.mp harg with harg | harg
    · simp only [List.mem_cons, List.not_mem_nil, or_false] at harg
      rcases harg with rfl | rfl | rfl | rfl | rfl | rfl
      · decide
      · simp only [String.toList_append, List.mem_append, not_or]
        exact ⟨⟨⟨⟨⟨by decide, hroot⟩, by decide⟩, htoken⟩, by decide⟩, hsquashfs⟩
      · decide
      · simp only [String.toList_append, List.mem_append, not_or]
        exact ⟨⟨by decide, hroot⟩, by decide⟩
      · simp only [String.toList_append, List.mem_append, not_or]
        exact ⟨by decide, htoken⟩
      · simp only [String.toList_append, List.mem_append, not_or]
        exact ⟨by decide, hmode⟩
    · exact hconsole arg harg
  rw [String.toList_intercalate]
  intro hmem
  rcases mem_join hmem with heq | ⟨part, hpart, hin⟩
  · exact absurd heq (by decide)
  · obtain ⟨arg, harg, rfl⟩ := List.mem_map.mp hpart
    exact harguments arg harg hin

/-- **A rendered configuration boots** into the image of its machine, with its own token. -/
theorem bootsWith_of_render (hidentity : identity.OneLine)
    (htoken : ∀ c ∈ token.toList, isSpace c = false)
    (hmode : machine.scratchMode ∈ ["volatile", "persistent", "off"])
    (hrender : render identity url.base token machine = .ok cfg) :
    ∃ squashfs, squashfsFilenameFor (machine.bootArchitecture identity) machine.bootProfile =
        .ok squashfs ∧ BootsWith cfg url token squashfs := by
  have hmode' : machine.scratchMode ≠ "" := by
    intro hempty
    rw [hempty] at hmode
    exact absurd hmode (by decide)
  have hnewline : ∀ {text : String}, (∀ c ∈ text.toList, isSpace c = false) →
      '\n' ∉ text.toList := fun h hmem => absurd (h '\n' hmem) (by decide)
  unfold render renderGrubCfg at hrender
  rw [if_neg hmode'] at hrender
  split at hrender
  · cases hrender
  · dsimp only at hrender
    split at hrender
    · cases hrender
    · rename_i squashfs hsquashfs
      cases hrender
      have hcmdline : '\n' ∉ (" ".intercalate (kernelArguments url.base token squashfs
          machine.scratchMode machine.serialConsole)).toList := by
        refine oneLine_kernelArguments ?_ (hnewline htoken) (oneLine_squashfs hsquashfs) ?_
        · rw [url.serverRoot_base]
          exact hnewline url.withoutSlashes_clean
        · simp only [List.mem_cons, List.not_mem_nil, or_false] at hmode
          rcases hmode with hmode | hmode | hmode <;> rw [hmode] <;> decide
      have hwritable : Writable (withoutSlashes url.text) token squashfs machine.scratchMode
          (consoleArguments machine.serialConsole "\n") :=
        { root := url.withoutSlashes_clean
          token := htoken
          squashfs := squashfs_clean hsquashfs
          mode := hmode
          console := otherArgument_console machine.serialConsole (.inr rfl) }
      rw [config_eq]
      refine ⟨squashfs, hsquashfs, sourcedFiles_scriptOf hidentity (hnewline htoken) hcmdline, _,
        bootedCmdline_scriptOf hidentity (hnewline htoken) hcmdline, ?_⟩
      rw [intercalate_kernelArguments, url.serverRoot_base]
      exact ⟨parseCmdline_bootArguments hwritable, fetchArguments_bootArguments hwritable⟩

end Rendered

end Fleetboot
