import Fleetboot.Library.Dict
import Fleetboot.Library.Url
import Fleetboot.Library.Words

/-!
# What the reporter reads off the kernel command line

`parse_cmdline` of `cmdline.py`.

* `parseCmdline_join`: of a command line that was joined from arguments only those count that set
  one of the two keys.
-/

set_option autoImplicit false

namespace Fleetboot

open Python

def serverKey : String := "fleetboot.server"

def tokenKey : String := "fleetboot.boot_token"

structure ReporterSettings where
  serverUrl : String
  bootToken : String
  deriving DecidableEq

/-- One round of the loop over the words. -/
def findSetting (found : Dict String String) (token : List Char) : Dict String String :=
  if '=' ∈ token then
    let key := String.ofList (cutAt '=' token).1
    if key ∈ [serverKey, tokenKey] then found.set key (String.ofList (cutAt '=' token).2)
    else found
  else found

/-- `parse_cmdline`; the error is the text of `MissingReporterSettingsError`. -/
def parseCmdline (cmdline : String) : Except String ReporterSettings :=
  let found := (pieces isSpace (stripChars cmdline.toList)).foldl findSetting .empty
  match found.get? serverKey, found.get? tokenKey with
  | some serverUrl, some bootToken => .ok { serverUrl, bootToken }
  | _, _ => .error ("missing required kernel cmdline keys: " ++
      ", ".intercalate ([serverKey, tokenKey].filter fun key => (found.get? key).isNone))

section Settings

variable {found : Dict String String} {token : List Char} {words : List (List Char)}

/-- A word that sets neither key. -/
def Ignored (token : List Char) : Prop :=
  '=' ∈ token → String.ofList (cutAt '=' token).1 ∉ [serverKey, tokenKey]

theorem findSetting_ignored (h : Ignored token) : findSetting found token = found := by
  unfold findSetting
  split
  · rename_i hmem
    rw [if_neg (h hmem)]
  · rfl

theorem foldl_ignored (h : ∀ token ∈ words, Ignored token) :
    words.foldl findSetting found = found := by
  induction words with
  | nil => rfl
  | cons token words ih =>
    rw [List.foldl_cons, findSetting_ignored (h token (List.mem_cons_self ..))]
    exact ih fun token htoken => h token (List.mem_cons_of_mem _ htoken)

theorem findSetting_key {key : String} (hkey : key ∈ [serverKey, tokenKey]) (value : List Char) :
    findSetting found (key.toList ++ '=' :: value) = found.set key (String.ofList value) := by
  have hnot : '=' ∉ key.toList := by
    simp only [List.mem_cons, List.not_mem_nil, or_false] at hkey
    rcases hkey with rfl | rfl <;> decide
  unfold findSetting
  rw [if_pos (by simp), cutAt_append hnot, String.ofList_toList, if_pos hkey]

/-- A word that begins with another key. -/
theorem ignored_of_starts {key : String} (hkey : key ∉ [serverKey, tokenKey])
    (hnot : '=' ∉ key.toList) (h : key.toList ++ ['='] <+: token) : Ignored token := by
  obtain ⟨rest, rfl⟩ := h
  intro _
  rw [List.append_assoc, List.singleton_append, cutAt_append hnot, String.ofList_toList]
  exact hkey

theorem ignored_of_not_mem (h : '=' ∉ token) : Ignored token := fun hmem => absurd hmem h

/-- The words of an argument for another key, if what may contain blanks sets nothing. -/
theorem ignored_words {key : String} {front rest : List Char} (hkey : key ∉ [serverKey, tokenKey])
    (hnot : '=' ∉ key.toList) (hfront : ∀ c ∈ front, isSpace c = false)
    (hstarts : key.toList ++ ['='] <+: front) (hrest : '=' ∉ rest) :
    ∀ word ∈ pieces isSpace (front ++ rest), Ignored word := by
  intro word hword
  rcases mem_pieces_append hfront hword with hbegins | hbehind
  · exact ignored_of_starts hkey hnot (hstarts.trans hbegins)
  · exact ignored_of_not_mem fun hmem => hrest (hbehind hmem)

/-- The argument that sets a key is one word. -/
theorem pieces_setting {key value : String} (hkey : key ∈ [serverKey, tokenKey])
    (hvalue : ∀ c ∈ value.toList, isSpace c = false) :
    pieces isSpace (key ++ "=" ++ value).toList = [key.toList ++ '=' :: value.toList] := by
  have hlist : (key ++ "=" ++ value).toList = key.toList ++ '=' :: value.toList := by simp
  rw [hlist]
  refine pieces_of_clean (by simp) fun c hc => ?_
  have hclean : ∀ c ∈ key.toList, isSpace c = false := by
    simp only [List.mem_cons, List.not_mem_nil, or_false] at hkey
    rcases hkey with rfl | rfl <;> exact forall_mem_of_all (by decide)
  rcases List.mem_append.mp hc with hfront | hback
  · exact hclean c hfront
  · rcases List.mem_cons.mp hback with rfl | hin
    · decide
    · exact hvalue c hin

/-- **Reading a joined command line.** The two settings, in this order, among arguments of which
no word sets a key. -/
theorem parseCmdline_join {before between after : List String} {server token : String}
    (hserver : ∀ c ∈ server.toList, isSpace c = false)
    (htoken : ∀ c ∈ token.toList, isSpace c = false)
    (hignored : ∀ arg ∈ before ++ between ++ after, ∀ word ∈ pieces isSpace arg.toList,
      Ignored word) {cmdline : String} (hcmdline : cmdline = " ".intercalate (before ++
        (serverKey ++ "=" ++ server) :: (between ++ (tokenKey ++ "=" ++ token) :: after))) :
    parseCmdline cmdline = .ok { serverUrl := server, bootToken := token } := by
  have hskip : ∀ {args : List String} {found : Dict String String},
      (∀ arg ∈ args, arg ∈ before ++ between ++ after) →
      ((args.map String.toList).flatMap (pieces isSpace)).foldl findSetting found = found := by
    intro args found hargs
    refine foldl_ignored fun word hword => ?_
    obtain ⟨cs, hcs, hin⟩ := List.mem_flatMap.mp hword
    obtain ⟨arg, harg, rfl⟩ := List.mem_map.mp hcs
    exact hignored arg (hargs arg harg) word hin
  have hwords : pieces isSpace cmdline.toList =
      (before.map String.toList).flatMap (pieces isSpace) ++
        (serverKey.toList ++ '=' :: server.toList) ::
          ((between.map String.toList).flatMap (pieces isSpace) ++
            (tokenKey.toList ++ '=' :: token.toList) ::
              (after.map String.toList).flatMap (pieces isSpace)) := by
    have hspace : (" " : String).toList = [' '] := rfl
    rw [hcmdline, String.toList_intercalate, hspace, pieces_intercalate (by decide)]
    simp only [List.map_append, List.map_cons, List.flatMap_append, List.flatMap_cons]
    rw [pieces_setting (by simp) hserver, pieces_setting (by simp) htoken]
    rfl
  have hfound : (pieces isSpace (stripChars cmdline.toList)).foldl findSetting .empty =
      (Dict.empty.set serverKey server).set tokenKey token := by
    rw [pieces_stripChars, hwords, List.foldl_append, List.foldl_cons, List.foldl_append,
      List.foldl_cons, hskip (by simp +contextual), findSetting_key (by simp),
      hskip (by simp +contextual),
      findSetting_key (by simp), hskip (by simp +contextual), String.ofList_toList,
      String.ofList_toList]
  unfold parseCmdline
  simp only [hfound, Dict.get?_set]
  rfl

end Settings

end Fleetboot
