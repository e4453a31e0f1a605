import Fleetboot.Server.OverlayPaths

/-!
# Storing a file of an overlay

What a request that stores or deletes a file leaves of the other files, and when a disk that
refuses nothing has a place for it.

* `store_of_canStore`: a file that can be stored is stored, and no other file changes.
* `sameFiles_store_iff`: when storing a file on a disk that refuses nothing changes no file.
-/

set_option autoImplicit false

namespace Fleetboot

open Python Posix

/-! ## Files before and after -/

/-- The same files are there, with the same bytes. -/
def SameFiles (fs fs' : Files) : Prop :=
  ∀ p bytes, fs'.lookup p = some (.file bytes) ↔ fs.lookup p = some (.file bytes)

/-- Directories have come on the way to `top`, where nothing was. -/
def Grows (top : Path String) (fs fs' : Files) : Prop :=
  ∀ p, fs'.lookup p = fs.lookup p ∨
    (p <+: top ∧ fs.lookup p = none ∧ fs'.lookup p = some .directory)

namespace Grows

variable {top top' p : Path String} {fs fs' fs'' : Files}

theorem refl (top : Path String) (fs : Files) : Grows top fs fs := fun _ => .inl rfl

theorem mono (h : Grows top fs fs') (hstarts : top <+: top') : Grows top' fs fs' :=
  fun p => (h p).imp_right fun hp => ⟨hp.1.trans hstarts, hp.2⟩

theorem trans (h : Grows top fs fs') (h' : Grows top fs' fs'') : Grows top fs fs'' := by
  intro p
  rcases h' p with hlast | ⟨hstarts, hnone, hdir⟩
  · rw [hlast]
    exact h p
  · rcases h p with hfirst | ⟨-, -, hdir'⟩
    · exact .inr ⟨hstarts, hfirst ▸ hnone, hdir⟩
    · rw [hnone] at hdir'
      cases hdir'

theorem sameFiles (h : Grows top fs fs') : SameFiles fs fs' := by
  intro p bytes
  rcases h p with hsame | ⟨-, hnone, hdir⟩
  · rw [hsame]
  · simp [hnone, hdir]

theorem lookup_eq (h : Grows top fs fs') (hp : ¬ p <+: top) : fs'.lookup p = fs.lookup p :=
  (h p).resolve_right fun hgrown => hp hgrown.1

/-- What is a directory now was one, or nothing. -/
theorem of_directory (h : Grows top fs fs') (hdir : fs'.lookup p = some .directory) :
    fs.lookup p = none ∨ fs.lookup p = some .directory := by
  rcases h p with hsame | ⟨-, hnone, -⟩
  · exact .inr (hsame ▸ hdir)
  · exact .inl hnone

end Grows

namespace OverlayDisk

/-- A disk that refuses nothing. -/
def working : OverlayDisk := ⟨fun _ => false, .complete⟩

variable {disk : OverlayDisk} {fs fs' : Files} {names : List String}

theorem grows_mkdir {up : List String} {x : String} (hsettled : Posix.Settled fs.links up.reverse)
    (h : disk.mkdir fs up x = .ok fs') :
    Grows (up.reverse ++ [x]) fs fs' ∧ fs'.links = fs.links := by
  unfold OverlayDisk.mkdir at h
  split at h
  · cases h
  · obtain ⟨hnone, hdir, hchange⟩ := FileSystem.mkdir_eq_ok (direct_of_settled hsettled) h
    refine ⟨fun p => ?_, hchange.links_eq⟩
    by_cases hp : p = up.reverse ++ [x]
    · exact .inr ⟨hp ▸ List.prefix_rfl, hp ▸ hnone, hp ▸ hdir⟩
    · exact .inl (hchange.others p hp)

theorem grows_mkdirParents (hsettled : Posix.Settled fs.links names.reverse) :
    Grows names.reverse fs (disk.mkdirParents names fs).fs ∧
      (disk.mkdirParents names fs).fs.links = fs.links := by
  induction names with
  | nil => exact ⟨.refl _ fs, rfl⟩
  | cons x up ih =>
    rw [List.reverse_cons] at hsettled ⊢
    have hup : Posix.Settled fs.links up.reverse := hsettled.of_isPrefix (List.prefix_append _ _)
    obtain ⟨hgrown, hlinks⟩ := ih hup
    have habove := hgrown.mono (List.prefix_append up.reverse [x])
    unfold OverlayDisk.mkdirParents
    split
    · rename_i hmkdir
      exact grows_mkdir hup hmkdir
    · dsimp only
      split
      · exact ⟨habove, hlinks⟩
      · split
        · rename_i hmkdir
          obtain ⟨hgrows, hlinks'⟩ := grows_mkdir (hlinks ▸ hup) hmkdir
          exact ⟨habove.trans hgrows, hlinks'.trans hlinks⟩
        · exact ⟨habove, hlinks⟩
        · rw [fs_orExists]
          exact ⟨habove, hlinks⟩
    · rw [fs_orExists]
      exact ⟨.refl _ fs, rfl⟩

theorem mkdir_working (fs : Files) (up : List String) (x : String) :
    working.mkdir fs up x = fs.mkdir up.reverse x := rfl

theorem orExists_of_directory {up : List String} {x : String}
    (h : fs.lookup (up.reverse ++ [x]) = some .directory) (err : OsError) :
    orExists fs up x err = ⟨fs, .ok ()⟩ := by
  unfold orExists
  rw [if_pos (FileSystem.isDirectory_of_directory h)]

theorem settled_of_clear {p : Path String} (h : fs.Clear p) : Posix.Settled fs.links p := by
  intro q x hstarts
  rcases h _ hstarts with hnone | hdir
  · exact .inl (FileSystem.links_eq_none_of_none hnone)
  · exact .inl (FileSystem.links_eq_none_of_directory hdir)

/-- In a directory, a directory is made or is there already. -/
theorem mkdir_in_directory {up : List String} {x : String}
    (hup : fs.lookup up.reverse = some .directory)
    (hplace : fs.lookup (up.reverse ++ [x]) = none ∨
      fs.lookup (up.reverse ++ [x]) = some .directory) :
    (∃ fs', fs.mkdir up.reverse x = .ok fs' ∧
        fs'.lookup (up.reverse ++ [x]) = some .directory) ∨
      (fs.mkdir up.reverse x = .error .exists_ ∧
        fs.lookup (up.reverse ++ [x]) = some .directory) := by
  rcases hplace with hnone | hdir
  · obtain ⟨fs', hmkdir⟩ := FileSystem.mkdir_of_none hup hnone
    have hsettled : Posix.Settled fs.links up.reverse := settled_of_clear fun q hq =>
      .inr (FileSystem.lookup_of_isPrefix hq hup)
    exact .inl ⟨fs', hmkdir,
      (FileSystem.mkdir_eq_ok (direct_of_settled hsettled) hmkdir).2.1⟩
  · exact .inr ⟨FileSystem.mkdir_of_some hup hdir, hdir⟩

/-- Where only directories and nothing are on the way, all of them are made. -/
theorem mkdirParents_working (hclear : fs.Clear names.reverse) :
    (working.mkdirParents names fs).value = .ok () ∧
      (working.mkdirParents names fs).fs.lookup names.reverse = some .directory := by
  induction names with
  | nil => exact ⟨rfl, rfl⟩
  | cons x up ih =>
    rw [List.reverse_cons] at hclear ⊢
    have hup : fs.Clear up.reverse := fun q hq => hclear q (hq.trans (List.prefix_append _ _))
    unfold OverlayDisk.mkdirParents
    rw [mkdir_working]
    rcases hup _ List.prefix_rfl with hnone | hdir
    · -- the parent is made first
      rw [FileSystem.mkdir_of_missing_parent hup hnone]
      obtain ⟨hvalue, hparent⟩ := ih hup
      have hgrows := (@grows_mkdirParents working fs up (settled_of_clear hup)).1
      have hplace : (working.mkdirParents up fs).fs.lookup (up.reverse ++ [x]) = none ∨
          (working.mkdirParents up fs).fs.lookup (up.reverse ++ [x]) = some .directory := by
        rcases hgrows (up.reverse ++ [x]) with hsame | ⟨-, -, hdir⟩
        · rw [hsame]
          exact hclear _ List.prefix_rfl
        · exact .inr hdir
      dsimp only
      rw [hvalue, mkdir_working]
      rcases mkdir_in_directory hparent hplace with ⟨fs', hmkdir, hdir⟩ | ⟨hmkdir, hdir⟩
      · rw [hmkdir]
        exact ⟨rfl, hdir⟩
      · rw [hmkdir]
        dsimp only
        rw [orExists_of_directory hdir]
        exact ⟨rfl, hdir⟩
    · rcases mkdir_in_directory hdir (hclear _ List.prefix_rfl) with
        ⟨fs', hmkdir, hplace⟩ | ⟨hmkdir, hplace⟩
      · rw [hmkdir]
        exact ⟨rfl, hplace⟩
      · rw [hmkdir]
        dsimp only
        rw [orExists_of_directory hplace]
        exact ⟨rfl, hplace⟩

/-- A file can be stored at a path: only directories and nothing are on the way to it, and it is no
directory and no link. -/
structure CanStore (fs : Files) (file : Path String) : Prop where
  parents : fs.Clear file.dropLast
  no_directory : fs.lookup file ≠ some .directory
  no_link : fs.links file = none

variable {file : Path String} {text : String}

theorem writeText_working (fs : Files) (file : Path String) (text : String) :
    working.writeText fs file (RawText.ofString text) =
      match fs.writeFile file text.toUTF8 with
      | .error err => ⟨fs, .error (.os err)⟩
      | .ok fs => ⟨fs, .ok ()⟩ := by
  have hwritten : working.written (RawText.ofString text) = (text.toUTF8, none) := by
    unfold OverlayDisk.written
    rw [RawText.encode_ofString]
    rfl
  unfold OverlayDisk.writeText
  refine (if_neg (by exact nofun)).trans ?_
  generalize working.written (RawText.ofString text) = written at hwritten ⊢
  subst hwritten
  rfl

/-- What a file keeps that is not on the way to its directory. -/
theorem not_isPrefix_dropLast (hfile : file ≠ []) : ¬ file <+: file.dropLast := by
  intro hstarts
  have hle := hstarts.length_le
  have hpos := List.length_pos_of_ne_nil hfile
  rw [List.length_dropLast] at hle
  omega

/-- A file that can be stored is the only one that changes. -/
theorem store_of_canStore (h : CanStore fs file) :
    (working.store fs file (RawText.ofString text)).fs.lookup file =
        some (.file text.toUTF8) ∧
      ∀ p bytes, p ≠ file →
        ((working.store fs file (RawText.ofString text)).fs.lookup p = some (.file bytes) ↔
          fs.lookup p = some (.file bytes)) := by
  have hclear : fs.Clear file.dropLast.reverse.reverse := by
    rw [List.reverse_reverse]
    exact h.parents
  obtain ⟨hvalue, hparent⟩ := mkdirParents_working hclear
  obtain ⟨hgrows, hlinks⟩ := @grows_mkdirParents working fs _ (settled_of_clear hclear)
  rw [List.reverse_reverse] at hparent hgrows
  have hfile : file ≠ [] := by
    rintro rfl
    exact h.no_directory rfl
  have hkeeps := hgrows.lookup_eq (not_isPrefix_dropLast hfile)
  obtain ⟨fs', hwrite⟩ := FileSystem.writeFile_of_parent hfile hparent
    (hkeeps ▸ h.no_directory) (hlinks ▸ h.no_link) text.toUTF8
  have hsettled : Posix.Settled fs.links file := by
    have hconcat := (settled_of_clear h.parents).concat (x := file.getLast hfile)
      (.inl (by rw [List.dropLast_append_getLast]; exact h.no_link))
    rwa [List.dropLast_append_getLast] at hconcat
  obtain ⟨-, -, hnew, hchange⟩ :=
    FileSystem.writeFile_eq_ok (direct_of_settled (hlinks ▸ hsettled)) hwrite
  have hstore : (working.store fs file (RawText.ofString text)).fs = fs' := by
    unfold OverlayDisk.store
    dsimp only
    rw [hvalue]
    dsimp only
    rw [writeText_working, hwrite]
  rw [hstore]
  refine ⟨hnew, fun p bytes hp => ?_⟩
  rw [hchange.others p hp]
  exact hgrows.sameFiles p bytes

/-- What cannot be stored leaves all files as they are. -/
theorem sameFiles_store_of_not (hsettled : Posix.Settled fs.links file) (h : ¬ CanStore fs file) :
    SameFiles fs (working.store fs file (RawText.ofString text)).fs := by
  obtain ⟨hgrows, hlinks⟩ := @grows_mkdirParents working fs file.dropLast.reverse
    (by rw [List.reverse_reverse]; exact hsettled.dropLast)
  rw [List.reverse_reverse] at hgrows
  unfold OverlayDisk.store
  dsimp only
  split
  · exact hgrows.sameFiles
  · rw [writeText_working]
    split
    · exact hgrows.sameFiles
    · rename_i fs' hwrite
      obtain ⟨hplace, hparent, -, hchange⟩ :=
        FileSystem.writeFile_eq_ok (direct_of_settled (hlinks ▸ hsettled)) hwrite
      have hfile : file ≠ [] := by
        rintro rfl
        exact hplace rfl
      refine absurd ⟨fun q hq => ?_, ?_, ?_⟩ h
      · exact hgrows.of_directory (FileSystem.lookup_of_isPrefix hq hparent)
      · rwa [← hgrows.lookup_eq (not_isPrefix_dropLast hfile)]
      · rw [← hlinks]
        exact hchange.no_link

/-- When storing a text changes no file. -/
theorem sameFiles_store_iff (hsettled : Posix.Settled fs.links file) :
    SameFiles fs (working.store fs file (RawText.ofString text)).fs ↔
      (CanStore fs file → fs.lookup file = some (.file text.toUTF8)) := by
  constructor
  · intro h hcan
    exact (h file _).mp (store_of_canStore hcan).1
  · intro h
    by_cases hcan : CanStore fs file
    · obtain ⟨hnew, hothers⟩ := @store_of_canStore _ _ text hcan
      intro p bytes
      by_cases hp : p = file
      · rw [hp, hnew, h hcan]
      · exact hothers p bytes hp
    · exact sameFiles_store_of_not hsettled hcan

/-- The loop removes directories only. -/
theorem sameFiles_pruneParents {root : Path String}
    (hsettled : Posix.Settled fs.links names.reverse) :
    SameFiles fs (disk.pruneParents root names fs).fs := by
  have hrefl : ∀ fs : Files, SameFiles fs fs := fun _ _ _ => Iff.rfl
  induction names generalizing fs with
  | nil =>
    unfold OverlayDisk.pruneParents
    split <;> exact hrefl fs
  | cons x up ih =>
    rw [List.reverse_cons] at hsettled
    have hup : Posix.Settled fs.links up.reverse := hsettled.of_isPrefix (List.prefix_append _ _)
    unfold OverlayDisk.pruneParents
    split
    · exact hrefl fs
    · split
      · exact hrefl fs
      · exact hrefl fs
      · split
        · exact hrefl fs
        · split
          · exact hrefl fs
          · rename_i fs' hrmdir
            obtain ⟨hdir, hremoved⟩ := FileSystem.rmdir_eq_ok (direct_of_settled hup) hrmdir
            have hlinks := (FileSystem.changesOnly_of_removed
              (FileSystem.links_eq_none_of_directory hdir) hremoved).links_eq
            intro p bytes
            rw [ih (hlinks ▸ hup) p bytes, hremoved p]
            split
            · rename_i hp
              rw [hp, hdir]
              simp
            · rfl

/-- When a deletion changes no file. -/
theorem sameFiles_removeFile_iff {profileDir : Path String}
    (hsettled : Posix.Settled fs.links file) :
    SameFiles fs (working.removeFile fs profileDir file).fs ↔
      ∀ bytes, fs.lookup file ≠ some (.file bytes) := by
  constructor
  · intro h bytes hfile
    have hlast : ∃ x up, file.reverse = x :: up := by
      cases hreverse : file.reverse with
      | nil =>
        rw [List.reverse_eq_nil_iff.mp hreverse] at hfile
        cases hfile
      | cons x up => exact ⟨x, up, rfl⟩
    obtain ⟨x, up, hreverse⟩ := hlast
    have hpath : file = up.reverse ++ [x] := by
      rw [← List.reverse_cons, ← hreverse, List.reverse_reverse]
    have hup : Posix.Settled fs.links up.reverse :=
      hsettled.of_isPrefix (hpath ▸ List.prefix_append _ _)
    obtain ⟨fs', hunlink⟩ := FileSystem.unlink_of_file (hpath ▸ hfile)
    obtain ⟨-, hremoved⟩ := FileSystem.unlink_eq_ok (direct_of_settled hup) hunlink
    have hlinks := (FileSystem.changesOnly_of_removed
      (FileSystem.links_eq_none_of_file (hpath ▸ hfile)) hremoved).links_eq
    have hrun : (working.removeFile fs profileDir file).fs =
        (working.pruneParents (overlayRoot fs' profileDir) up fs').fs := by
      unfold OverlayDisk.removeFile
      rw [if_pos (FileSystem.isFile_of_file hfile), hreverse]
      dsimp only
      rw [if_neg (by exact Bool.false_ne_true), hunlink]
    rw [hrun] at h
    have hgone := (h file bytes).mpr hfile
    rw [sameFiles_pruneParents (hlinks ▸ hup) file bytes, hremoved, if_pos hpath] at hgone
    cases hgone
  · intro h
    have hfile : fs.isFile file = false := by
      rw [Bool.eq_false_iff]
      intro hfile
      obtain ⟨bytes, hbytes⟩ := FileSystem.isFile_eq_true (direct_of_settled hsettled) hfile
      exact h bytes hbytes
    unfold OverlayDisk.removeFile
    rw [if_neg (by rw [hfile]; exact Bool.false_ne_true)]
    exact fun _ _ => Iff.rfl

end OverlayDisk

end Fleetboot
