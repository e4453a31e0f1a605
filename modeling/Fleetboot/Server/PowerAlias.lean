import Fleetboot.Library.QueryString
import Fleetboot.Library.ShellWords
import Fleetboot.Server.Power

/-!
# The alias in the pdudaemon command

The line that `_pdudaemon_power_command` of `dashboard.py` builds is run by a shell, and the alias
in it may be a hostname that a machine has reported.

* `aliasSafe_pdudaemon`: whatever the alias is, the shell reads three words, and the URL says the
  alias and nothing more.
-/

set_option autoImplicit false

namespace Fleetboot

open Python Posix

/-! ## Hosts -/

/-- A character of a host or of an address in brackets. -/
def isHostChar (c : Char) : Bool :=
  128 ≤ c.toNat || c.isAlphanum || "-._~[]:".toList.contains c

/-- `host:port`. -/
structure IsHostPort (cs : List Char) : Prop where
  split : ∃ host port, cs = host ++ ':' :: port ∧ (∀ c ∈ host, isHostChar c = true) ∧
    ∀ c ∈ port, c.isDigit = true

/-- `host:port` or `scheme://host:port`. -/
inductive PlainPduHost (pduHost : String) : Prop
  | bare : IsHostPort pduHost.toList → PlainPduHost pduHost
  | schemed {scheme cs : List Char} : scheme ≠ [] → (∀ c ∈ scheme, isSchemeChar c = true) →
      IsHostPort cs → pduHost.toList = scheme ++ ':' :: '/' :: '/' :: cs → PlainPduHost pduHost

/-! ## The URL -/

/-- The URL in the command, for an alias that is quoted. -/
def pdudaemonUrl (pduHost : String) (action : PowerAction) (safeAlias : String) : String :=
  (if containsText pduHost "://" then pduHost else "http://" ++ pduHost) ++ "/power/control/" ++
    action.text ++ "?alias=" ++ safeAlias

theorem pdudaemonPowerCommand_eq (pduHost alias_ : String) (action : PowerAction) :
    pdudaemonPowerCommand pduHost alias_ action =
      "curl --fail \"" ++ pdudaemonUrl pduHost action (quote alias_) ++ "\"" := by
  have hassoc : ∀ a b c d e f g : String,
      a ++ b ++ c ++ d ++ e ++ f ++ g = a ++ (b ++ c ++ d ++ e ++ f) ++ g := by
    intro a b c d e f g
    simp only [String.append_assoc]
  unfold pdudaemonPowerCommand pdudaemonUrl
  exact hassoc _ _ _ _ _ _ _

/-- What the pdudaemon is told: the parameters of the URL that the shell gives to `curl`. -/
def outletOf (line : String) : Option (List (String × String)) :=
  match shellWords line with
  | some ["curl", "--fail", url] => some (urlParameters url)
  | _ => none

/-- What the command with an alias is. -/
structure AliasSafe (pduHost alias_ : String) (action : PowerAction) : Prop where
  /-- The alias is there as a text of `[A-Za-z0-9_.~%-]`, and the shell reads the URL around it as
  one word of one command. -/
  words : ∃ safeAlias : String, (∀ c ∈ safeAlias.toList, isQuotedChar c = true) ∧
    pdudaemonPowerCommand pduHost alias_ action =
      "curl --fail \"" ++ pdudaemonUrl pduHost action safeAlias ++ "\"" ∧
    shellWords (pdudaemonPowerCommand pduHost alias_ action) =
      some ["curl", "--fail", pdudaemonUrl pduHost action safeAlias]
  outlet : outletOf (pdudaemonPowerCommand pduHost alias_ action) = some [("alias", alias_)]
  distinct : ∀ other, outletOf (pdudaemonPowerCommand pduHost other action) =
    outletOf (pdudaemonPowerCommand pduHost alias_ action) → other = alias_

section Hosts

variable {pduHost : String} {cs : List Char} {c : Char}

/-- What a character of some kind is not. -/
theorem ne_of_kind {kind : Char → Bool} {d : Char} (hc : kind c = true) (hd : kind d = false) :
    c ≠ d := by
  rintro rfl
  rw [hc] at hd
  cases hd

theorem isHostChar_of_isDigit (h : c.isDigit = true) : isHostChar c = true := by
  simp [isHostChar, Char.isAlphanum, h]

theorem IsHostPort.isHostChar (h : IsHostPort cs) : ∀ c ∈ cs, isHostChar c = true := by
  obtain ⟨host, port, rfl, hhost, hport⟩ := h.split
  intro c hc
  rcases List.mem_append.mp hc with hc | hc
  · exact hhost c hc
  · rcases List.mem_cons.mp hc with rfl | hc
    · decide
    · exact isHostChar_of_isDigit (hport c hc)

/-- A host has a scheme in the end, its own or `http`. -/
theorem PlainPduHost.base (h : PlainPduHost pduHost) : ∃ scheme authority : List Char,
    scheme ≠ [] ∧ (∀ c ∈ scheme, isSchemeChar c = true) ∧
      (∀ c ∈ authority, Fleetboot.isHostChar c = true) ∧
      (if containsText pduHost "://" then pduHost else "http://" ++ pduHost) =
        String.ofList (scheme ++ ':' :: '/' :: '/' :: authority) := by
  cases h with
  | bare hport =>
    have hslash : '/' ∉ pduHost.toList := fun hmem =>
      ne_of_kind (hport.isHostChar _ hmem) (by decide : Fleetboot.isHostChar '/' = false) rfl
    have hnone : containsText pduHost "://" = false := by
      rw [Bool.eq_false_iff]
      intro hcontains
      have hwithin := containsText_iff.mp hcontains
      exact hslash (hwithin.subset (by decide : '/' ∈ "://".toList))
    refine ⟨"http".toList, pduHost.toList, by decide, forall_mem_of_all (by decide),
      hport.isHostChar, ?_⟩
    rw [hnone, if_neg Bool.false_ne_true]
    refine String.toList_injective ?_
    rw [String.toList_append]
    exact String.toList_ofList.symm
  | @schemed scheme cs hne hscheme hport htext =>
    have hsome : containsText pduHost "://" = true := by
      rw [containsText_iff, htext]
      exact ⟨scheme, cs, by simp⟩
    refine ⟨scheme, cs, hne, hscheme, hport.isHostChar, ?_⟩
    rw [hsome, if_pos rfl, ← htext, String.ofList_toList]

end Hosts

section Reading

variable {pduHost : String} {scheme authority : List Char}

/-- The path of an action. -/
def actionPath (action : PowerAction) : List Char := ("/power/control/" ++ action.text).toList

theorem actionPath_inert (action : PowerAction) : ∀ c ∈ actionPath action,
    isInert c = true ∧ UriReference.endsPath c = false := by
  have hall : (actionPath action).all (fun c => isInert c && !UriReference.endsPath c) = true := by
    cases action <;> decide
  intro c hc
  simpa using List.all_eq_true.mp hall c hc

theorem isInert_of_kind {kind : Char → Bool} {c : Char} (hc : kind c = true)
    (hnone : ['"', '\\', '$', Char.ofNat 96].any kind = false) : isInert c = true := by
  simp only [List.any_cons, List.any_nil, Bool.or_false, Bool.or_eq_false_iff] at hnone
  obtain ⟨hquote, hback, hdollar, hbackquote⟩ := hnone
  simp only [isInert, expandsQuoted, Bool.not_eq_true', Bool.or_eq_false_iff,
    beq_eq_false_iff_ne]
  exact ⟨⟨ne_of_kind hc hquote, ne_of_kind hc hback⟩, ne_of_kind hc hdollar,
    ne_of_kind hc hbackquote⟩

/-- The URL, component by component. -/
theorem pdudaemonUrl_eq (hbase : (if containsText pduHost "://" then pduHost
      else "http://" ++ pduHost) = String.ofList (scheme ++ ':' :: '/' :: '/' :: authority))
    (action : PowerAction) (safeAlias : String) : pdudaemonUrl pduHost action safeAlias =
      String.ofList (scheme ++ ':' :: '/' :: '/' :: (authority ++
        (actionPath action ++ '?' :: ("alias".toList ++ '=' :: safeAlias.toList)))) := by
  refine String.toList_injective ?_
  rw [pdudaemonUrl, hbase, String.toList_ofList]
  simp [actionPath]

/-- Nothing in the URL has a meaning between double quotes. -/
theorem pdudaemonUrl_inert (hscheme : ∀ c ∈ scheme, isSchemeChar c = true)
    (hauthority : ∀ c ∈ authority, isHostChar c = true) (action : PowerAction) {safe : List Char}
    (hsafe : ∀ c ∈ safe, isQuotedChar c = true) :
    ∀ c ∈ scheme ++ ':' :: '/' :: '/' :: (authority ++
      (actionPath action ++ '?' :: ("alias".toList ++ '=' :: safe))), isInert c = true := by
  have hname : ∀ c ∈ "alias".toList, isInert c = true := forall_mem_of_all (by decide)
  intro c hc
  simp only [List.mem_append, List.mem_cons] at hc
  rcases hc with hc | rfl | rfl | rfl | hc | hc | rfl | hc | rfl | hc
  · exact isInert_of_kind (hscheme c hc) (by decide)
  · decide
  · decide
  · decide
  · exact isInert_of_kind (hauthority c hc) (by decide)
  · exact (actionPath_inert action c hc).1
  · decide
  · exact hname c hc
  · decide
  · exact isInert_of_kind (hsafe c hc) (by decide)

/-- **The URL says the alias** and nothing more. -/
theorem urlParameters_pdudaemonUrl (h : PlainPduHost pduHost) (action : PowerAction)
    (alias_ : String) :
    urlParameters (pdudaemonUrl pduHost action (quote alias_)) = [("alias", alias_)] := by
  obtain ⟨scheme, authority, hne, hscheme, hauthority, hbase⟩ := h.base
  have hquoted : ∀ c ∈ (quote alias_).toList, isQuotedChar c = true := fun c hc =>
    isQuotedChar_of_mem_quote hc
  have hplus : '+' ∉ (quote alias_).toList := fun hmem =>
    ne_of_kind (hquoted _ hmem) (by decide : isQuotedChar '+' = false) rfl
  rw [pdudaemonUrl_eq hbase, urlParameters_field hne]
  · rw [unquotePlus_of_not_mem hplus, String.ofList_toList, unquote_quote,
      unquotePlus_of_not_mem (by decide), unquote_of_not_mem (by decide)]
    rfl
  · intro c hc
    have hkind := hscheme c hc
    have hcolon := ne_of_kind hkind (by decide : isSchemeChar ':' = false)
    have hslash := ne_of_kind hkind (by decide : isSchemeChar '/' = false)
    have hmark := ne_of_kind hkind (by decide : isSchemeChar '?' = false)
    have hhash := ne_of_kind hkind (by decide : isSchemeChar '#' = false)
    simp [endsNetloc, hcolon, hslash, hmark, hhash]
  · intro c hc
    have hkind := hauthority c hc
    have hslash := ne_of_kind hkind (by decide : isHostChar '/' = false)
    have hmark := ne_of_kind hkind (by decide : isHostChar '?' = false)
    have hhash := ne_of_kind hkind (by decide : isHostChar '#' = false)
    simp [endsNetloc, hslash, hmark, hhash]
  · cases action <;> decide
  · exact fun c hc => (actionPath_inert action c hc).2
  · decide
  · decide
  · decide
  · exact fun hmem => ne_of_kind (hquoted _ hmem) (by decide : isQuotedChar '&' = false) rfl
  · exact fun hmem => ne_of_kind (hquoted _ hmem) (by decide : isQuotedChar '#' = false) rfl

/-- **The shell reads three words**, the last of which is the URL. -/
theorem shellWords_pdudaemonPowerCommand (h : PlainPduHost pduHost) (action : PowerAction)
    (alias_ : String) : shellWords (pdudaemonPowerCommand pduHost alias_ action) =
      some ["curl", "--fail", pdudaemonUrl pduHost action (quote alias_)] := by
  obtain ⟨scheme, authority, -, hscheme, hauthority, hbase⟩ := h.base
  have hinert := pdudaemonUrl_inert hscheme hauthority action fun c hc =>
    @isQuotedChar_of_mem_quote alias_ c hc
  have hread := @readShell_doubleQuoted ["curl".toList, "--fail".toList] _ (by decide) hinert
  have hline : ∀ url : List Char, ("curl --fail \"" ++ String.ofList url ++ "\"").toList =
      (["curl".toList, "--fail".toList].flatMap fun word => word ++ [' ']) ++
        '"' :: (url ++ ['"']) := by
    intro url
    simp
  rw [pdudaemonPowerCommand_eq, pdudaemonUrl_eq hbase, shellWords, hline, hread]
  rfl

theorem outletOf_pdudaemonPowerCommand (h : PlainPduHost pduHost) (action : PowerAction)
    (alias_ : String) :
    outletOf (pdudaemonPowerCommand pduHost alias_ action) = some [("alias", alias_)] := by
  rw [outletOf, shellWords_pdudaemonPowerCommand h action alias_]
  exact congrArg some (urlParameters_pdudaemonUrl h action alias_)

/-- A machine that is switched by a pdudaemon is switched at its own alias. -/
theorem outletOf_powerRoute {db : Database} {m : Machine} {action : PowerAction} {alias_ : String}
    (hroute : powerRoute db m action = .pdudaemon pduHost alias_) (h : PlainPduHost pduHost) :
    pdudaemonAlias m = some alias_ ∧
      ((powerRoute db m action).commandLine action).bind outletOf = some [("alias", alias_)] := by
  refine ⟨?_, ?_⟩
  · unfold powerRoute at hroute
    split at hroute
    · cases hroute
    · split at hroute
      · rename_i halias
        cases hroute
        exact halias
      · cases hroute
      · cases hroute
  · rw [hroute, PowerRoute.commandLine, Option.bind_some]
    exact outletOf_pdudaemonPowerCommand h action alias_

end Reading

/-- **The alias is safe, and says the outlet.** For every alias or hostname, every action and every
pdudaemon at `host:port` or `scheme://host:port`, the alias stands in the command as characters of
`[A-Za-z0-9_.~%-]`, the shell reads `curl`, `--fail` and the URL as one command, and the parameters
of the URL are the alias as it was, so that no other alias has the same. -/
theorem aliasSafe_pdudaemon (alias_ : String) (action : PowerAction) {pduHost : String}
    (h : PlainPduHost pduHost) : AliasSafe pduHost alias_ action where
  words := ⟨quote alias_, fun _ hc => isQuotedChar_of_mem_quote hc,
    pdudaemonPowerCommand_eq pduHost alias_ action,
    shellWords_pdudaemonPowerCommand h action alias_⟩
  outlet := outletOf_pdudaemonPowerCommand h action alias_
  distinct other hsame := by
    rw [outletOf_pdudaemonPowerCommand h, outletOf_pdudaemonPowerCommand h] at hsame
    exact (Prod.mk.inj (List.cons.inj (Option.some.inj hsame)).1).2

/-- A hostname that would end the quotes and the command. -/
theorem aliasSafe_hostile : PlainPduHost "prowl:16421" ∧
    AliasSafe "prowl:16421" "\"; reboot #$(id)&é\n" .off := by
  have hhost : PlainPduHost "prowl:16421" :=
    .bare ⟨"prowl".toList, "16421".toList, by decide, forall_mem_of_all (by decide),
      forall_mem_of_all (by decide)⟩
  exact ⟨hhost, aliasSafe_pdudaemon _ _ hhost⟩

end Fleetboot
