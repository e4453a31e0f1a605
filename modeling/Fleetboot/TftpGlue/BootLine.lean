import Fleetboot.Image.ScratchSetup
import Fleetboot.Registry.Schema
import Fleetboot.Reporter.Cmdline
import Fleetboot.TftpGlue.GrubTemplate

/-!
# The kernel command line and its readers

`render_grub_cfg` writes the kernel command line, live-boot reads `fetch=` off it, the scratch
script its mode, and the reporter its two settings.

* `parseBaseUrl_form`: a base URL as the renderer takes it apart.
* `cmdline_roundTrip`: all three read what was written.
-/

set_option autoImplicit false

namespace Fleetboot

open Python

/-- `urlparse`, as far as the renderer looks at its parts. -/
def parseBaseUrl (checkNetloc : String → Except Exception Unit) (text : String) :
    Except Exception BaseUrl :=
  (urlparse checkNetloc text).map fun parsed =>
    { text, scheme := parsed.scheme, netloc := parsed.netloc, path := parsed.path }

/-- `render_grub_cfg` of a base URL that is a text. -/
def renderGrubCfgText [Unicode] (checkNetloc : String → Except Exception Unit)
    (identity : ClientIdentity) (baseUrl bootToken profile : String) (serialConsole : Bool)
    (targetArchitecture scratchMode : String) : Except Exception String :=
  parseBaseUrl checkNetloc baseUrl >>= fun base =>
    renderGrubCfg identity base bootToken profile serialConsole targetArchitecture scratchMode

/-- `url.rstrip("/")`. -/
def withoutSlashes (url : String) : String := String.ofList (url.toList.rdropWhile (· == '/'))

/-- The arguments of a kernel command line that begin with `fetch=`. -/
def fetchArguments (cmdline : String) : List String :=
  ((cmdline.toList.splitOn ' ').filter fun arg => "fetch=".toList.isPrefixOf arg).map String.ofList

/-- A base URL in its parts: `http` or `https`, an authority, and a path that is empty or begins
with a slash. It has no white space, query, fragment or path parameters. -/
structure UrlParts where
  scheme : String
  authority : String
  path : String
  scheme_mem : scheme = "http" ∨ scheme = "https"
  authority_ne : authority ≠ ""
  authority_clean : ∀ c ∈ authority.toList, endsNetloc c = false ∧ isSpace c = false
  path_slash : ∀ c ∈ path.toList.head?, c = '/'
  path_clean : ∀ c ∈ path.toList, c ≠ '?' ∧ c ≠ '#' ∧ isSpace c = false
  no_params : ';' ∉ path.toList.rtakeWhile (· != '/')

namespace UrlParts

def text (url : UrlParts) : String := url.scheme ++ "://" ++ url.authority ++ url.path

/-- What `urlparse` makes of it. -/
def base (url : UrlParts) : BaseUrl :=
  { text := url.text, scheme := url.scheme, netloc := url.authority, path := url.path }

theorem toList_text (url : UrlParts) : url.text.toList =
    url.scheme.toList ++ ':' :: '/' :: '/' :: (url.authority.toList ++ url.path.toList) := by
  simp [text]

theorem scheme_clean (url : UrlParts) : url.scheme.toList.head?.any Char.isAlpha = true ∧
    url.scheme.toList.all isSchemeChar = true ∧ url.scheme.toList.map Char.toLower =
      url.scheme.toList ∧ ∀ c ∈ url.scheme.toList, isSpace c = false := by
  rcases url.scheme_mem with h | h <;> rw [h] <;>
    exact ⟨by decide, by decide, by decide, forall_mem_of_all (by decide)⟩

/-- **The base URL taken apart.** -/
theorem parseBaseUrl_text (url : UrlParts) (checkNetloc : String → Except Exception Unit) :
    parseBaseUrl checkNetloc url.text = (checkNetloc url.authority).map fun _ => url.base := by
  obtain ⟨hhead, hscheme, hlower, hspace⟩ := url.scheme_clean
  have hform := @urlparse_form url.scheme.toList url.authority.toList url.path.toList checkNetloc
    hhead hscheme hlower (fun c hc => (url.authority_clean c hc).1) url.path_slash
    (fun hmem => (url.path_clean _ hmem).1 rfl) (fun hmem => (url.path_clean _ hmem).2.1 rfl)
    url.no_params (fun c hc => ?_)
  · rw [← url.toList_text, String.ofList_toList] at hform
    unfold parseBaseUrl
    rw [hform]
    simp only [String.ofList_toList]
    cases checkNetloc url.authority <;> rfl
  · simp only [List.mem_append] at hc
    rcases hc with (hc | hc) | hc
    · exact hspace c hc
    · exact (url.authority_clean c hc).2
    · exact (url.path_clean c hc).2.2

theorem eq_base (url : UrlParts) {checkNetloc : String → Except Exception Unit} {base : BaseUrl}
    (h : parseBaseUrl checkNetloc url.text = .ok base) : base = url.base := by
  rw [url.parseBaseUrl_text checkNetloc] at h
  cases hcheck : checkNetloc url.authority with
  | error err =>
    rw [hcheck] at h
    cases h
  | ok _ =>
    rw [hcheck] at h
    exact (Except.ok.inj h).symm

/-- The root of the server is the URL without the slashes at its end. -/
theorem serverRoot_base (url : UrlParts) : url.base.serverRoot = withoutSlashes url.text := by
  have hlast : ∀ c ∈ (url.scheme.toList ++ ':' :: '/' :: '/' :: url.authority.toList).getLast?,
      (c == '/') = false := by
    intro c hc
    have hne : url.authority.toList ≠ [] := by simpa using url.authority_ne
    have hmem : c ∈ url.authority.toList := by
      rw [List.getLast?_append, List.getLast?_cons_cons, List.getLast?_cons_cons,
        List.getLast?_cons, List.getLast?_eq_some_getLast hne] at hc
      simp only [Option.getD_some, Option.some_or, Option.mem_some] at hc
      exact hc ▸ List.getLast_mem hne
    have hclean := (url.authority_clean c hmem).1
    simp only [endsNetloc, Bool.or_eq_false_iff] at hclean
    exact hclean.1.1
  unfold withoutSlashes BaseUrl.serverRoot
  rw [toList_text]
  refine String.toList_injective ?_
  have happend := rdropWhile_append_of_last hlast url.path.toList
  simp only [List.append_assoc, List.cons_append] at happend
  rw [happend]
  simp [base]

theorem withoutSlashes_clean (url : UrlParts) :
    ∀ c ∈ (withoutSlashes url.text).toList, isSpace c = false := by
  intro c hc
  unfold withoutSlashes at hc
  rw [String.toList_ofList] at hc
  have hin := (List.rdropWhile_prefix _ _).subset hc
  rw [toList_text] at hin
  simp only [List.mem_append, List.mem_cons] at hin
  rcases hin with hin | rfl | rfl | rfl | hin | hin
  · exact url.scheme_clean.2.2.2 c hin
  · decide
  · decide
  · decide
  · exact (url.authority_clean c hin).2
  · exact (url.path_clean c hin).2.2

end UrlParts

/-! ## The arguments -/

instance (token : List Char) : Decidable (Ignored token) :=
  inferInstanceAs (Decidable ('=' ∈ token → _))

/-- An argument that is neither a setting, nor the scratch mode, nor the filesystem. -/
structure OtherArgument (arg : String) : Prop where
  no_space : ' ' ∉ arg.toList
  no_scratch : "fleetboot.scratch=".toList.isPrefixOf arg.toList = false
  no_fetch : "fetch=".toList.isPrefixOf arg.toList = false
  ignored : ∀ word ∈ pieces isSpace arg.toList, Ignored word

instance (arg : String) : Decidable (OtherArgument arg) :=
  decidable_of_iff (' ' ∉ arg.toList ∧ "fleetboot.scratch=".toList.isPrefixOf arg.toList = false ∧
      "fetch=".toList.isPrefixOf arg.toList = false ∧
        ∀ word ∈ pieces isSpace arg.toList, Ignored word)
    ⟨fun h => ⟨h.1, h.2.1, h.2.2.1, h.2.2.2⟩,
      fun h => ⟨h.no_space, h.no_scratch, h.no_fetch, h.ignored⟩⟩

/-- The console arguments of a machine. -/
def consoleArguments (serialConsole : Bool) (tail : String) : List String :=
  (if serialConsole then ["console=tty0"] else []) ++
    [(if serialConsole then "console=ttyS0,115200n8" else "quiet") ++ tail]

theorem otherArgument_console (serialConsole : Bool) {tail : String}
    (htail : tail = "" ∨ tail = "\n") :
    ∀ arg ∈ consoleArguments serialConsole tail, OtherArgument arg := by
  rcases htail with rfl | rfl <;> cases serialConsole <;> decide +kernel

/-- The arguments of the kernel, with what stands behind the line at the last one. -/
def bootArguments (root token squashfs mode : String) (console : List String) : List String :=
  "boot=live" :: ("fetch=" ++ root ++ "/boot/" ++ token ++ "/" ++ squashfs) :: "ip=dhcp" ::
    (serverKey ++ "=" ++ (root ++ "/")) :: (tokenKey ++ "=" ++ token) ::
      ("fleetboot.scratch=" ++ mode) :: console

theorem intercalate_kernelArguments (base : BaseUrl) (token squashfs mode tail : String)
    (serialConsole : Bool) :
    " ".intercalate (kernelArguments base token squashfs mode serialConsole) ++ tail =
      " ".intercalate (bootArguments base.serverRoot token squashfs mode
        (consoleArguments serialConsole tail)) := by
  have hserver : "fleetboot.server=" ++ base.serverRoot ++ "/" =
      serverKey ++ "=" ++ (base.serverRoot ++ "/") := by
    rw [← String.append_assoc]
    rfl
  have harguments : kernelArguments base token squashfs mode serialConsole =
      bootArguments base.serverRoot token squashfs mode
          (if serialConsole then ["console=tty0"] else []) ++
        [if serialConsole then "console=ttyS0,115200n8" else "quiet"] := by
    unfold kernelArguments bootArguments
    rw [hserver]
    cases serialConsole <;> rfl
  rw [harguments, intercalate_concat]
  rfl

section Readers

variable {root token squashfs mode : String} {console : List String}

/-- The name of a squashfs has no blank, and nothing that sets a key. -/
theorem squashfs_clean [Unicode] {architecture profile : String}
    (h : squashfsFilenameFor architecture profile = .ok squashfs) :
    ∃ rest, squashfs = "fleetboot-" ++ rest ∧ ' ' ∉ rest.toList ∧ '=' ∉ rest.toList := by
  unfold squashfsFilenameFor at h
  split at h
  · cases h
  · rename_i debianArch harch
    split at h
    · cases h
    · rename_i hname
      cases h
      have hdebian : ' ' ∉ debianArch.toList ∧ '=' ∉ debianArch.toList := by
        obtain ⟨entry, hentry, rfl⟩ := Option.map_eq_some_iff.mp harch
        have hmem := List.mem_of_find?_eq_some hentry
        simp only [archToDebian, List.mem_cons, List.not_mem_nil, or_false] at hmem
        rcases hmem with rfl | rfl | rfl <;> decide
      have hprofile : ∀ c ∈ profile.toList, c = '-' ∨ Unicode.isAlnum c = true := by
        intro c hc
        simp only [isProfileName, isAlnum, Bool.not_eq_false, Bool.and_eq_true, List.all_eq_true,
          String.toList_ofList, List.mem_filter] at hname
        by_cases hdash : c = '-'
        · exact .inl hdash
        · exact .inr (hname.2.2 c ⟨hc, by simpa using hdash⟩)
      have hnot : ∀ c : Char, c.toNat < 128 → c ≠ '-' → c.isAlphanum = false →
          c ∉ profile.toList := by
        intro c hascii hdash halnum hc
        rcases hprofile c hc with heq | hin
        · exact hdash heq
        · rw [Unicode.isAlnum_ascii c hascii, halnum] at hin
          cases hin
      have hspace := hnot ' ' (by decide) (by decide) (by decide)
      have hequals := hnot '=' (by decide) (by decide) (by decide)
      refine ⟨profile ++ "-" ++ debianArch ++ ".squashfs", by simp [String.append_assoc], ?_, ?_⟩
      · simp [hspace, hdebian.1]
      · simp [hequals, hdebian.2]

/-- What the values may be: without white space, and a squashfs of the renderer. -/
structure Writable (root token squashfs mode : String) (console : List String) : Prop where
  root : ∀ c ∈ root.toList, isSpace c = false
  token : ∀ c ∈ token.toList, isSpace c = false
  squashfs : ∃ rest, squashfs = "fleetboot-" ++ rest ∧ ' ' ∉ rest.toList ∧ '=' ∉ rest.toList
  mode : mode ∈ ["volatile", "persistent", "off"]
  console : ∀ arg ∈ console, OtherArgument arg

theorem not_mem_of_clean {text : String} (h : ∀ c ∈ text.toList, isSpace c = false) :
    ' ' ∉ text.toList := fun hmem => by cases h ' ' hmem

/-- The command line falls into its arguments. -/
theorem splitOn_bootArguments (h : Writable root token squashfs mode console) :
    (" ".intercalate (bootArguments root token squashfs mode console)).toList.splitOn ' ' =
      (bootArguments root token squashfs mode console).map String.toList := by
  have hroot := not_mem_of_clean h.root
  have htoken := not_mem_of_clean h.token
  obtain ⟨rest, rfl, hrest, -⟩ := h.squashfs
  have hmode : ' ' ∉ mode.toList := by
    have hmem := h.mode
    simp only [List.mem_cons, List.not_mem_nil, or_false] at hmem
    rcases hmem with rfl | rfl | rfl <;> decide
  refine @splitOn_join ' ' _ (List.cons_ne_nil _ _) fun arg harg => ?_
  simp only [bootArguments, List.mem_cons] at harg
  rcases harg with rfl | rfl | rfl | rfl | rfl | rfl | harg
  · decide
  · simp [hroot, htoken, hrest]
  · decide
  · simp [serverKey, hroot]
  · simp [tokenKey, htoken]
  · simp [hmode]
  · exact (h.console arg harg).no_space

theorem fetchArguments_bootArguments (h : Writable root token squashfs mode console) :
    fetchArguments (" ".intercalate (bootArguments root token squashfs mode console)) =
      ["fetch=" ++ root ++ "/boot/" ++ token ++ "/" ++ squashfs] := by
  have hconsole : (console.map String.toList).filter
      (fun arg => "fetch=".toList.isPrefixOf arg) = [] := by
    rw [List.filter_eq_nil_iff]
    intro cs hcs
    obtain ⟨arg, harg, rfl⟩ := List.mem_map.mp hcs
    rw [(h.console arg harg).no_fetch]
    exact Bool.false_ne_true
  have hfound : ((bootArguments root token squashfs mode console).map String.toList).filter
      (fun arg => "fetch=".toList.isPrefixOf arg) =
        [("fetch=" ++ root ++ "/boot/" ++ token ++ "/" ++ squashfs).toList] := by
    simp only [bootArguments, List.map_cons, List.filter_cons, hconsole]
    simp [serverKey, tokenKey]
  unfold fetchArguments
  rw [splitOn_bootArguments h, hfound, List.map_singleton, String.ofList_toList]

theorem scratchModeOf_bootArguments (h : Writable root token squashfs mode console) :
    scratchModeOf (" ".intercalate (bootArguments root token squashfs mode console)) = mode := by
  have hconsole : (console.map String.toList).filter
      (fun arg => "fleetboot.scratch=".toList.isPrefixOf arg) = [] := by
    rw [List.filter_eq_nil_iff]
    intro cs hcs
    obtain ⟨arg, harg, rfl⟩ := List.mem_map.mp hcs
    rw [(h.console arg harg).no_scratch]
    exact Bool.false_ne_true
  have hrecords : ((bootArguments root token squashfs mode console).map String.toList).filter
      (fun arg => "fleetboot.scratch=".toList.isPrefixOf arg) =
        [("fleetboot.scratch=" ++ mode).toList] := by
    simp only [bootArguments, List.map_cons, List.filter_cons, hconsole]
    simp [serverKey, tokenKey]
  have hmem := h.mode
  unfold scratchModeOf awkScratch
  rw [splitOn_bootArguments h, hrecords]
  simp only [List.mem_cons, List.not_mem_nil, or_false] at hmem
  rcases hmem with rfl | rfl | rfl <;> decide +kernel

theorem parseCmdline_bootArguments (h : Writable root token squashfs mode console) :
    parseCmdline (" ".intercalate (bootArguments root token squashfs mode console)) =
      .ok { serverUrl := root ++ "/", bootToken := token } := by
  obtain ⟨rest, hsquashfs, -, hequals⟩ := h.squashfs
  have hmem := h.mode
  have hserver : ∀ c ∈ (root ++ "/").toList, isSpace c = false := by
    intro c hc
    rw [String.toList_append] at hc
    rcases List.mem_append.mp hc with hroot | hslash
    · exact h.root c hroot
    · rw [List.mem_singleton.mp hslash]
      decide
  refine @parseCmdline_join
    ["boot=live", "fetch=" ++ root ++ "/boot/" ++ token ++ "/" ++ squashfs, "ip=dhcp"] []
    (("fleetboot.scratch=" ++ mode) :: console) _ _ hserver h.token (fun arg harg => ?_) _ rfl
  simp only [List.cons_append, List.nil_append, List.append_nil, List.mem_cons] at harg
  rcases harg with rfl | rfl | rfl | rfl | harg
  · decide +kernel
  · have hsplit : ("fetch=" ++ root ++ "/boot/" ++ token ++ "/" ++ squashfs).toList =
        ("fetch=" ++ root ++ "/boot/" ++ token ++ "/fleetboot-").toList ++ rest.toList := by
      simp [hsquashfs]
    rw [hsplit]
    refine @ignored_words "fetch" _ _ (by decide) (by decide) (fun c hc => ?_) ?_ hequals
    · simp only [String.toList_append, List.mem_append] at hc
      have hwords : ∀ c ∈ "fetch=".toList ++ ("/boot/".toList ++ "/fleetboot-".toList),
          isSpace c = false := forall_mem_of_all (by decide)
      rcases hc with (((hc | hc) | hc) | hc) | hc
      · exact hwords c (List.mem_append_left _ hc)
      · exact h.root c hc
      · exact hwords c (List.mem_append_right _ (List.mem_append_left _ hc))
      · exact h.token c hc
      · exact hwords c (List.mem_append_right _ (List.mem_append_right _ hc))
    · exact ⟨(root ++ "/boot/" ++ token ++ "/fleetboot-").toList, by simp⟩
  · decide +kernel
  · simp only [List.mem_cons, List.not_mem_nil, or_false] at hmem
    rcases hmem with rfl | rfl | rfl <;> decide +kernel
  · exact (h.console arg harg).ignored

end Readers

/-- **From the renderer to the readers.** For a token without white space, a base URL in its parts,
and a scratch mode, the configuration that is rendered loads the kernel with a command line off
which the reporter reads the token and the URL with one slash at its end, the scratch script the
mode, and live-boot the archive behind the URL and the token; also with a line end behind it. -/
theorem cmdline_roundTrip [Unicode] {checkNetloc : String → Except Exception Unit}
    {identity : ClientIdentity} {url : UrlParts} {token profile architecture mode cfg : String}
    {serialConsole : Bool} (htoken : ∀ c ∈ token.toList, isSpace c = false)
    (hmode : mode ∈ ["volatile", "persistent", "off"])
    (hrender : renderGrubCfgText checkNetloc identity url.text token profile serialConsole
      architecture mode = .ok cfg) :
    ∃ squashfs cmdline,
      squashfsFilenameFor (if architecture = "" then identity.architecture else architecture)
        profile = .ok squashfs ∧
      cfg = grubStart identity token serialConsole ++ ("linux " ++ grubDev ++ "/vmlinuz " ++
        cmdline ++ "\n") ++ grubEnd token ∧
      ∀ tail, tail = "" ∨ tail = "\n" →
        parseCmdline (cmdline ++ tail) =
          .ok { serverUrl := withoutSlashes url.text ++ "/", bootToken := token } ∧
        scratchModeOf (cmdline ++ tail) = mode ∧
        fetchArguments (cmdline ++ tail) =
          ["fetch=" ++ withoutSlashes url.text ++ "/boot/" ++ token ++ "/" ++ squashfs] := by
  unfold renderGrubCfgText at hrender
  obtain ⟨base, hbase, hrendered⟩ := bind_eq_ok.mp hrender
  obtain rfl := url.eq_base hbase
  unfold renderGrubCfg at hrendered
  split at hrendered
  · cases hrendered
  · dsimp only at hrendered
    split at hrendered
    · cases hrendered
    · rename_i squashfs hsquashfs
      cases hrendered
      refine ⟨squashfs, _, hsquashfs, rfl, fun tail htail => ?_⟩
      have hwritable : Writable (withoutSlashes url.text) token squashfs mode
          (consoleArguments serialConsole tail) :=
        { root := url.withoutSlashes_clean
          token := htoken
          squashfs := squashfs_clean hsquashfs
          mode := hmode
          console := otherArgument_console serialConsole htail }
      rw [intercalate_kernelArguments, url.serverRoot_base]
      exact ⟨parseCmdline_bootArguments hwritable, scratchModeOf_bootArguments hwritable,
        fetchArguments_bootArguments hwritable⟩

section Examples

attribute [local instance] ascii

/-- A server behind a path, with slashes at the end of its URL. -/
def labUrl : UrlParts :=
  { scheme := "http"
    authority := "lab:8080"
    path := "/fleet//"
    scheme_mem := .inl rfl
    authority_ne := by decide
    authority_clean := forall_mem_of_all (by decide)
    path_slash := by simp
    path_clean := forall_mem_of_all (by decide)
    no_params := by decide }

theorem cmdline_roundTrip_lab : ∃ cmdline,
    parseCmdline (cmdline ++ "\n") =
        .ok { serverUrl := "http://lab:8080/fleet/", bootToken := "a=b" } ∧
      scratchModeOf (cmdline ++ "\n") = "off" := by
  have hrenders : (renderGrubCfgText (fun _ => .ok ()) ⟨"aa:bb:cc:dd:ee:ff", "i386", "pc"⟩
      labUrl.text "a=b" "kiosk" true "x86_64" "off").toOption.isSome = true := by decide +kernel
  cases hrender : renderGrubCfgText (fun _ => .ok ()) ⟨"aa:bb:cc:dd:ee:ff", "i386", "pc"⟩
      labUrl.text "a=b" "kiosk" true "x86_64" "off" with
  | error err =>
    rw [hrender] at hrenders
    cases hrenders
  | ok cfg =>
    obtain ⟨_, cmdline, -, -, hread⟩ :=
      cmdline_roundTrip (forall_mem_of_all (by decide)) (by decide) hrender
    have hserver : withoutSlashes labUrl.text ++ "/" = "http://lab:8080/fleet/" := by decide +kernel
    obtain ⟨hparsed, hmode, -⟩ := hread "\n" (.inr rfl)
    rw [hserver] at hparsed
    exact ⟨cmdline, hparsed, hmode⟩

end Examples

end Fleetboot
