import Fleetboot.Library.Json

/-!
# The configuration of a booting machine

`render_grub_cfg` of `grub_template.py`, and the renderer that calls it with what the registry
knows of the machine. A base URL comes as `urlparse` takes it apart.

* `kernel_line_of_render`: a rendered configuration has a `linux` line with the kernel arguments.
-/

set_option autoImplicit false

namespace Fleetboot

open Python

/-- What tftpjail knows of the client that asks. -/
structure ClientIdentity where
  assertedMac : String
  architecture : String
  platform : String

/-- A base URL with the parts that `urlparse` finds in it. -/
structure BaseUrl where
  text : String
  scheme : String
  netloc : String
  path : String

/-- What `/resolve` returns, as the client of tftpjail keeps it. -/
structure RegisteredMachine where
  mac : String
  profileName : String
  architecture : String
  platform : String
  serialConsole : Bool
  enrolledBy : String
  scratchMode : String
  deriving DecidableEq

/-- `_ARCH_TO_DEBIAN`. -/
def archToDebian : List (String × String) :=
  [("x86_64", "amd64"), ("arm64", "arm64"), ("i386", "i386")]

/-- `mapping.get(key)`. -/
def assoc {α : Type} (mapping : List (String × α)) (key : String) : Option α :=
  (mapping.find? fun entry => entry.1 == key).map Prod.snd

/-- `name and name.replace("-", "").isalnum()`. -/
def isProfileName [Unicode] (name : String) : Bool :=
  name != "" && isAlnum (String.ofList (name.toList.filter (· != '-')))

/-- `squashfs_filename_for`. -/
def squashfsFilenameFor [Unicode] (architecture profile : String) : Except Exception String :=
  match assoc archToDebian architecture with
  | none => .error (.valueError ("unsupported architecture: " ++ Python.repr architecture))
  | some debianArch =>
    if isProfileName profile = false then
      .error (.valueError ("unsupported profile name: " ++ Python.repr profile))
    else .ok ("fleetboot-" ++ profile ++ "-" ++ debianArch ++ ".squashfs")

section Render

/-- The TFTP server, as GRUB names it. -/
def grubDev : String := "(tftp,$\x7bpxe_default_server\x7d)"

/-- The URL of the server, without a slash at its end. -/
def BaseUrl.serverRoot (base : BaseUrl) : String :=
  base.scheme ++ "://" ++ base.netloc ++ String.ofList (base.path.toList.rdropWhile (· == '/'))

/-- `cmdline_parts`. -/
def kernelArguments (base : BaseUrl) (bootToken squashfs scratchMode : String)
    (serialConsole : Bool) : List String :=
  ["boot=live",
    "fetch=" ++ base.serverRoot ++ "/boot/" ++ bootToken ++ "/" ++ squashfs,
    "ip=dhcp",
    "fleetboot.server=" ++ base.serverRoot ++ "/",
    "fleetboot.boot_token=" ++ bootToken,
    "fleetboot.scratch=" ++ scratchMode] ++
  if serialConsole then ["console=tty0", "console=ttyS0,115200n8"] else ["quiet"]

/-- `_event`. -/
def grubEvent (bootToken state : String) : String :=
  "source " ++ grubDev ++ "/grub-event/" ++ bootToken ++ "/" ++ state ++ "\n"

/-- The lines in front of the kernel. -/
def grubStart (identity : ClientIdentity) (bootToken : String) (serialConsole : Bool) : String :=
  "set timeout=0\n" ++
  (if serialConsole then
    "serial --unit=0 --speed=115200\nterminal_input --append serial\n" ++
      "terminal_output --append serial\n"
  else "") ++
  "echo \"fleetboot: booting " ++ identity.assertedMac ++ " " ++ identity.architecture ++ "/" ++
    identity.platform ++ "\"\n" ++
  "echo \"fleetboot: > grub_running event\"\n" ++ grubEvent bootToken "grub_running" ++
  "echo \"fleetboot: > linux kernel\"\n"

/-- The line that loads the kernel. -/
def kernelLine (arguments : List String) : String :=
  "linux " ++ grubDev ++ "/vmlinuz " ++ " ".intercalate arguments ++ "\n"

/-- The lines after the kernel. -/
def grubEnd (bootToken : String) : String :=
  "echo \"fleetboot: > kernel_loaded event\"\n" ++ grubEvent bootToken "kernel_loaded" ++
  "echo \"fleetboot: > initrd\"\n" ++
  "initrd " ++ grubDev ++ "/initrd.img\n" ++
  "echo \"fleetboot: > initrd_loaded event\"\n" ++ grubEvent bootToken "initrd_loaded" ++
  "echo \"fleetboot: > booting_kernel event\"\n" ++ grubEvent bootToken "booting_kernel" ++
  "echo \"fleetboot: handing off to kernel\"\n" ++ "boot\n"

variable [Unicode]

/-- `render_grub_cfg`. -/
def renderGrubCfg (identity : ClientIdentity) (base : BaseUrl) (bootToken profile : String)
    (serialConsole : Bool) (targetArchitecture scratchMode : String) : Except Exception String :=
  if base.scheme ≠ "http" ∧ base.scheme ≠ "https" then
    .error (.valueError ("fleetboot_base_url must be http(s); got " ++ Python.repr base.text))
  else
    let arch := if targetArchitecture = "" then identity.architecture else targetArchitecture
    match squashfsFilenameFor arch profile with
    | .error err => .error err
    | .ok squashfs => .ok (grubStart identity bootToken serialConsole ++
        kernelLine (kernelArguments base bootToken squashfs scratchMode serialConsole) ++
        grubEnd bootToken)

/-- `render`, for a machine that the registry knows and a token that was minted. -/
def render (identity : ClientIdentity) (base : BaseUrl) (token : String)
    (machine : RegisteredMachine) : Except Exception String :=
  renderGrubCfg identity base token
    (if machine.profileName = "" then "default" else machine.profileName)
    machine.serialConsole machine.architecture
    (if machine.scratchMode = "" then "volatile" else machine.scratchMode)

/-- **A rendered configuration** loads the kernel with the machine's arguments. -/
theorem kernel_line_of_render {identity : ClientIdentity} {base : BaseUrl} {token cfg : String}
    {machine : RegisteredMachine} (hmode : machine.scratchMode ≠ "")
    (h : render identity base token machine = .ok cfg) :
    ∃ squashfs, cfg = grubStart identity token machine.serialConsole ++
      kernelLine (kernelArguments base token squashfs machine.scratchMode machine.serialConsole) ++
      grubEnd token := by
  unfold render renderGrubCfg at h
  rw [if_neg hmode] at h
  split at h
  · cases h
  · dsimp only at h
    split at h
    · cases h
    · cases h
      exact ⟨_, rfl⟩

omit [Unicode] in
theorem scratch_mem_kernelArguments (base : BaseUrl) (token squashfs scratchMode : String)
    (serialConsole : Bool) : "fleetboot.scratch=" ++ scratchMode ∈
      kernelArguments base token squashfs scratchMode serialConsole := by
  simp [kernelArguments]

end Render

end Fleetboot
