import Fleetboot.Library.UriReference
import Fleetboot.TftpGlue.BootLine

/-!
# Where the reporter posts to

`report_state` of `report.py` joins the server that it reads off the kernel command line with
`/status`. The renderer has spelled that server out by other rules, as it does for the URL of the
squashfs.

* `statusUrl_eq`: the authority is kept, the path is not.
* `reporter_postsHome_iff`: the base URLs for which the reporter posts below them.
-/

set_option autoImplicit false

namespace Fleetboot

open Python

/-- `STATUS_PATH`. -/
def statusPath : String := "/status"

/-- The URL that `report_state` posts to. -/
def statusUrl (settings : ReporterSettings) : String := urljoin settings.serverUrl statusPath

/-- A base URL that is a scheme in small letters, an authority, and slashes. -/
def IsBareServer (baseUrl : String) : Prop :=
  ∃ scheme authority slashes : String, (scheme = "http" ∨ scheme = "https") ∧ authority ≠ "" ∧
    (∀ c ∈ authority.toList, endsNetloc c = false) ∧ (∀ c ∈ slashes.toList, c = '/') ∧
    baseUrl = scheme ++ "://" ++ authority ++ slashes

/-! ## The parts of a base URL -/

section Parts

variable {cs : List Char} {c : Char}

theorem mem_of_mem_cleanUrl (h : c ∈ cleanUrl cs) : c ∈ cs :=
  (List.dropWhile_suffix _).subset (List.mem_filter.mp h).1

theorem mem_of_mem_splitScheme (h : c ∈ (splitScheme cs).2) : c ∈ cs := by
  unfold splitScheme at h
  dsimp only at h
  split at h
  · exact (List.dropWhile_suffix _).subset (List.mem_of_mem_tail h)
  · exact h

theorem mem_of_mem_splitNetloc (h : c ∈ (splitNetloc cs).1 ++ (splitNetloc cs).2) : c ∈ cs := by
  unfold splitNetloc at h
  split at h
  · rw [List.takeWhile_append_dropWhile] at h
    exact List.mem_cons_of_mem _ (List.mem_cons_of_mem _ h)
  · exact h

theorem mem_of_mem_cutAt {sep : Char} (h : c ∈ (cutAt sep cs).1) : c ∈ cs :=
  (List.takeWhile_prefix _).subset h

theorem mem_of_mem_splitParams (h : c ∈ (splitParams cs).1) : c ∈ cs := by
  unfold splitParams at h
  rcases List.mem_append.mp h with h | h
  · exact (List.rdropWhile_prefix _ _).subset h
  · exact (List.rtakeWhile_suffix _ _).subset (mem_of_mem_cutAt h)

/-- The parts that the renderer uses are made of characters of the URL. -/
theorem mem_of_parseBaseUrl {checkNetloc : String → Except Exception Unit} {text : String}
    {base : BaseUrl} (h : parseBaseUrl checkNetloc text = .ok base) :
    ∀ c ∈ base.netloc.toList ++ base.path.toList, c ∈ text.toList := by
  have hafter : ∀ c ∈ (splitScheme (cleanUrl text.toList)).2, c ∈ text.toList := fun c hc =>
    mem_of_mem_cleanUrl (mem_of_mem_splitScheme hc)
  unfold parseBaseUrl urlparse at h
  dsimp only at h
  generalize splitScheme (cleanUrl text.toList) = split at h hafter
  generalize hnetloc : splitNetloc split.2 = netloc at h
  cases hcheck : checkNetloc (String.ofList netloc.1) with
  | error err =>
    rw [hcheck] at h
    cases h
  | ok _ =>
    rw [hcheck] at h
    cases h
    have hparts : ∀ c ∈ netloc.1 ++ netloc.2, c ∈ text.toList := fun c hc =>
      hafter c (mem_of_mem_splitNetloc (hnetloc ▸ hc))
    intro c hc
    rw [String.toList_ofList, String.toList_ofList] at hc
    refine hparts c ?_
    rcases List.mem_append.mp hc with hc | hc
    · exact List.mem_append_left _ hc
    · refine List.mem_append_right _ ?_
      split at hc
      · exact mem_of_mem_cutAt (mem_of_mem_cutAt (mem_of_mem_splitParams hc))
      · exact mem_of_mem_cutAt (mem_of_mem_cutAt hc)

end Parts

/-! ## The URL of the reporter -/

section Url

variable {scheme : String}

theorem scheme_chars (hscheme : scheme = "http" ∨ scheme = "https") : scheme.toList ≠ [] ∧
    ∀ c ∈ scheme.toList, (c == ':' || endsNetloc c) = false := by
  rcases hscheme with rfl | rfl <;> exact ⟨by decide, forall_mem_of_all (by decide)⟩

/-- **Only the authority** is kept of what stands behind the scheme. -/
theorem statusUrl_eq (hscheme : scheme = "http" ∨ scheme = "https") (behind token : String) :
    statusUrl ⟨scheme ++ "://" ++ behind ++ "/", token⟩ =
      scheme ++ "://" ++ String.ofList ((behind ++ "/").toList.takeWhile fun c => !endsNetloc c) ++
        "/status" := by
  obtain ⟨hne, hchars⟩ := scheme_chars hscheme
  have hpath : pathOf ["status".toList] = statusPath.toList := by decide
  have hsplit := List.takeWhile_append_dropWhile
    (p := fun c => !endsNetloc c) (l := (behind ++ "/").toList)
  have hbase : scheme ++ "://" ++ behind ++ "/" = String.ofList (scheme.toList ++ ':' :: '/' ::
      '/' :: ((behind ++ "/").toList.takeWhile (fun c => !endsNetloc c) ++
        (behind ++ "/").toList.dropWhile fun c => !endsNetloc c)) := by
    rw [hsplit]
    refine String.toList_injective ?_
    simp
  have hjoin := @urljoin_absolutePath scheme.toList
    ((behind ++ "/").toList.takeWhile fun c => !endsNetloc c)
    ((behind ++ "/").toList.dropWhile fun c => !endsNetloc c) "status".toList [] hne hchars
    (fun c hc => by simpa using List.mem_takeWhile_imp hc) (fun c hc => ?_) (by decide)
    (fun seg hseg => ?_) (forall_mem_of_all (by decide))
  · rw [statusUrl, hbase]
    rw [hpath, String.ofList_toList] at hjoin
    rw [hjoin]
    refine String.toList_injective ?_
    simp [statusPath]
  · have hfirst := List.head?_dropWhile_not (fun c => !endsNetloc c) (behind ++ "/").toList
    rw [Option.mem_def.mp hc] at hfirst
    simpa using hfirst
  · rw [List.mem_singleton.mp hseg]
    exact ⟨by decide, by decide, by decide⟩

/-- Slashes behind an authority come off. -/
theorem withoutSlashes_bare {authority slashes : String} (hne : authority ≠ "")
    (hauthority : ∀ c ∈ authority.toList, endsNetloc c = false)
    (hslashes : ∀ c ∈ slashes.toList, c = '/') :
    withoutSlashes (scheme ++ "://" ++ authority ++ slashes) = scheme ++ "://" ++ authority := by
  have hlast : ∀ c ∈ (scheme ++ "://" ++ authority).toList.getLast?, (c == '/') = false := by
    intro c hc
    have hnil : authority.toList ≠ [] := by simpa using hne
    rw [String.toList_append, List.getLast?_append_of_ne_nil _ hnil] at hc
    have hend := hauthority c (List.mem_of_getLast? hc)
    simp only [endsNetloc, Bool.or_eq_false_iff] at hend
    exact hend.1.1
  have hnone : slashes.toList.rdropWhile (· == '/') = [] :=
    List.rdropWhile_eq_nil_iff.mpr fun c hc => beq_iff_eq.mpr (hslashes c hc)
  unfold withoutSlashes
  rw [String.toList_append, rdropWhile_append_of_last hlast, hnone, List.append_nil,
    String.ofList_toList]

/-- A text whose slashes at the end come off a scheme and an authority. -/
theorem isBareServer_of_withoutSlashes {baseUrl authority : String}
    (hscheme : scheme = "http" ∨ scheme = "https")
    (hauthority : ∀ c ∈ authority.toList, endsNetloc c = false)
    (h : withoutSlashes baseUrl = scheme ++ "://" ++ authority) : IsBareServer baseUrl := by
  have hdrop : baseUrl.toList.rdropWhile (· == '/') = (scheme ++ "://" ++ authority).toList := by
    rw [← h, withoutSlashes, String.toList_ofList]
  refine ⟨scheme, authority, String.ofList (baseUrl.toList.rtakeWhile (· == '/')), hscheme, ?_,
    hauthority, fun c hc => ?_, ?_⟩
  · -- Without an authority the text that is left would end in a slash.
    rintro rfl
    have hne : baseUrl.toList.rdropWhile (· == '/') ≠ [] := by
      rw [hdrop]
      simp
    refine List.rdropWhile_last_not _ _ hne ?_
    simp [hdrop]
  · rw [String.toList_ofList] at hc
    have hslash := List.mem_rtakeWhile_imp hc
    exact beq_iff_eq.mp hslash
  · refine String.toList_injective ?_
    rw [String.toList_append, ← hdrop, String.toList_ofList, List.rdropWhile_append_rtakeWhile]

end Url

/-! ## From the base URL to the post -/

/-- The two URLs of a renderer's base, and where the reporter posts to. -/
theorem postsHome_iff {checkNetloc : String → Except Exception Unit} {baseUrl : String}
    {base : BaseUrl} (hurl : ∀ c ∈ baseUrl.toList, isSpace c = false)
    (hbase : parseBaseUrl checkNetloc baseUrl = .ok base)
    (hscheme : base.scheme = "http" ∨ base.scheme = "https") (token : String) :
    statusUrl ⟨base.serverRoot ++ "/", token⟩ = withoutSlashes baseUrl ++ "/status" ∧
        statusUrl ⟨base.serverRoot ++ "/", token⟩ = base.serverRoot ++ "/status" ↔
      IsBareServer baseUrl := by
  constructor
  · rintro ⟨hhome, -⟩
    have hroot : base.serverRoot = base.scheme ++ "://" ++
        (base.netloc ++ String.ofList (base.path.toList.rdropWhile (· == '/'))) :=
      String.append_assoc ..
    rw [hroot, statusUrl_eq hscheme, String.append_left_inj] at hhome
    refine isBareServer_of_withoutSlashes hscheme (fun c hc => ?_) hhome.symm
    rw [String.toList_ofList] at hc
    simpa using List.mem_takeWhile_imp hc
  · rintro ⟨scheme, authority, slashes, hbare, hne, hauthority, hslashes, rfl⟩
    have hclean : ∀ c ∈ authority.toList, isSpace c = false := fun c hc =>
      hurl c (by simp [hc])
    let url : UrlParts :=
      { scheme, authority
        path := slashes
        scheme_mem := hbare
        authority_ne := hne
        authority_clean := fun c hc => ⟨hauthority c hc, hclean c hc⟩
        path_slash := fun c hc => hslashes c (List.mem_of_head? hc)
        path_clean := fun c hc => by
          rw [hslashes c hc]
          decide
        no_params := fun hmem => absurd
          (hslashes ';' ((List.rtakeWhile_suffix _ _).subset hmem)) (by decide) }
    obtain rfl := url.eq_base hbase
    have hroot : url.base.serverRoot = scheme ++ "://" ++ authority :=
      url.serverRoot_base.trans (withoutSlashes_bare hne hauthority hslashes)
    have hkept : (authority ++ "/").toList.takeWhile (fun c => !endsNetloc c) =
        authority.toList := by
      have hall : ∀ c ∈ authority.toList, (!endsNetloc c) = true := fun c hc => by
        rw [hauthority c hc]
        rfl
      rw [String.toList_append, List.takeWhile_append_of_pos hall]
      exact List.append_nil _
    have hstatus := statusUrl_eq hbare authority token
    rw [hkept, String.ofList_toList] at hstatus
    rw [hroot, withoutSlashes_bare hne hauthority hslashes]
    exact ⟨hstatus, hstatus⟩

/-- **Posting home.** For a token and a base URL without white space, the rendered configuration
loads the kernel with a command line off which the reporter reads its settings and live-boot the
archive, both behind one root. The reporter posts to `/status` below the base URL, and below that
root, exactly if the base URL is a bare server. -/
theorem reporter_postsHome_iff [Unicode] {checkNetloc : String → Except Exception Unit}
    {identity : ClientIdentity} {baseUrl token profile architecture mode cfg : String}
    {serialConsole : Bool} (hurl : ∀ c ∈ baseUrl.toList, isSpace c = false)
    (htoken : ∀ c ∈ token.toList, isSpace c = false)
    (hmode : mode ∈ ["volatile", "persistent", "off"])
    (hrender : renderGrubCfgText checkNetloc identity baseUrl token profile serialConsole
      architecture mode = .ok cfg) :
    ∃ cmdline settings root squashfs,
      cfg = grubStart identity token serialConsole ++ ("linux " ++ grubDev ++ "/vmlinuz " ++
        cmdline ++ "\n") ++ grubEnd token ∧
      (∀ tail, tail = "" ∨ tail = "\n" → parseCmdline (cmdline ++ tail) = .ok settings ∧
        fetchArguments (cmdline ++ tail) =
          ["fetch=" ++ root ++ "/boot/" ++ token ++ "/" ++ squashfs]) ∧
      (statusUrl settings = withoutSlashes baseUrl ++ "/status" ∧
          statusUrl settings = root ++ "/status" ↔ IsBareServer baseUrl) := by
  unfold renderGrubCfgText at hrender
  obtain ⟨base, hbase, hrendered⟩ := bind_eq_ok.mp hrender
  have hparts := mem_of_parseBaseUrl hbase
  unfold renderGrubCfg at hrendered
  split at hrendered
  · cases hrendered
  · rename_i hknown
    have hscheme : base.scheme = "http" ∨ base.scheme = "https" := by
      rwa [not_and_or, not_not, not_not] at hknown
    have hroot : ∀ c ∈ base.serverRoot.toList, isSpace c = false := by
      intro c hc
      have hbehind : ∀ d ∈ base.netloc.toList ++ base.path.toList, isSpace d = false :=
        fun d hd => hurl d (hparts d hd)
      simp only [BaseUrl.serverRoot, String.toList_append, String.toList_ofList,
        List.mem_append] at hc hbehind
      have hfixed : ∀ d ∈ "http".toList ++ ("https".toList ++ "://".toList), isSpace d = false :=
        forall_mem_of_all (by decide)
      simp only [List.mem_append] at hfixed
      rcases hc with ((hc | hc) | hc) | hc
      · rcases hscheme with h | h
        · exact hfixed c (.inl (h ▸ hc))
        · exact hfixed c (.inr (.inl (h ▸ hc)))
      · exact hfixed c (.inr (.inr hc))
      · exact hbehind c (.inl hc)
      · exact hbehind c (.inr ((List.rdropWhile_prefix _ _).subset hc))
    dsimp only at hrendered
    split at hrendered
    · cases hrendered
    · rename_i squashfs hsquashfs
      cases hrendered
      refine ⟨" ".intercalate (kernelArguments base token squashfs mode serialConsole),
        ⟨base.serverRoot ++ "/", token⟩, base.serverRoot, squashfs, rfl, fun tail htail => ?_,
        postsHome_iff hurl hbase hscheme token⟩
      have hwritable : Writable base.serverRoot token squashfs mode
          (consoleArguments serialConsole tail) :=
        { root := hroot
          token := htoken
          squashfs := squashfs_clean hsquashfs
          mode := hmode
          console := otherArgument_console serialConsole htail }
      rw [intercalate_kernelArguments]
      exact ⟨parseCmdline_bootArguments hwritable, fetchArguments_bootArguments hwritable⟩

section Examples

attribute [local instance] ascii

/-- A bare server, with a slash at its end. -/
theorem reporter_postsHome_bare : ∃ cmdline settings,
    parseCmdline (cmdline ++ "\n") = .ok settings ∧
      statusUrl settings = "https://lab:8443/status" := by
  have hrenders : (renderGrubCfgText (fun _ => .ok ()) ⟨"aa:bb:cc:dd:ee:ff", "i386", "pc"⟩
      "https://lab:8443/" "0f" "kiosk" true "x86_64" "off").toOption.isSome = true := by
    decide +kernel
  cases hrender : renderGrubCfgText (fun _ => .ok ()) ⟨"aa:bb:cc:dd:ee:ff", "i386", "pc"⟩
      "https://lab:8443/" "0f" "kiosk" true "x86_64" "off" with
  | error err =>
    rw [hrender] at hrenders
    cases hrenders
  | ok cfg =>
    obtain ⟨cmdline, settings, _, _, -, hread, hhome⟩ := reporter_postsHome_iff
      (forall_mem_of_all (by decide)) (forall_mem_of_all (by decide)) (by decide) hrender
    have hbare : IsBareServer "https://lab:8443/" :=
      ⟨"https", "lab:8443", "/", .inr rfl, by decide, forall_mem_of_all (by decide),
        forall_mem_of_all (by decide), by decide⟩
    have hurl : withoutSlashes "https://lab:8443/" ++ "/status" = "https://lab:8443/status" := by
      decide +kernel
    exact ⟨cmdline, settings, (hread "\n" (.inr rfl)).1, (hhome.mpr hbare).1.trans hurl⟩

/-- A server behind a path. -/
theorem not_reporter_postsHome :
    (parseCmdline (" ".intercalate (kernelArguments labUrl.base "0f"
      "fleetboot-kiosk-amd64.squashfs" "off" false))).toOption =
        some ⟨withoutSlashes labUrl.text ++ "/", "0f"⟩ ∧
      statusUrl ⟨withoutSlashes labUrl.text ++ "/", "0f"⟩ = "http://lab:8080/status" ∧
      withoutSlashes labUrl.text ++ "/status" = "http://lab:8080/fleet/status" := by
  decide +kernel

end Examples

end Fleetboot
