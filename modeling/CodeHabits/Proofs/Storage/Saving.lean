import CodeHabits.Proofs.Except
import CodeHabits.Proofs.Table
import CodeHabits.Proofs.Text.Position
import CodeHabits.Storage

/-!
# `CodeHabits.Proofs.Storage.Saving`: what saving does to the files

Saving puts the text of a snapshot in the place of what stood in the file and
changes no other file (`contents_of_save`), and this text is read afterwards
(`readJson_of_save`). It may fail, but not where a file
`Holds` its place: that is, where nothing on the way to it is a file and it is no
folder itself (`exists_save_of_holds`).
-/

set_option autoImplicit false

namespace CodeHabits

/-! ### A file that stands where it should -/

/-- There is a file at the path, and nothing that hides it. -/
structure Files.Holds (files : Files) (path : FilePath) : Prop where
  isFile : files.isFile path = true
  notFolder : files.isFolder path = false
  notBlocked : files.isBlocked path = false

namespace Files

variable {files : Files} {path : FilePath}

theorem Holds.ne_nil (h : files.Holds path) : path ≠ [] := by
  rintro rfl
  have hfolder := h.notFolder
  simp [isFolder] at hfolder

/-- A path to which something above the folder of a file leads through is
blocked. -/
theorem Holds.not_above (h : files.Holds path) {entry : FilePath × List UInt8}
    (hmem : entry ∈ files.contents) : entry.1.isPrefixOf path.folder = false := by
  by_contra habove
  have hblocked : files.isBlocked path = true := by
    rw [Bool.not_eq_false, List.isPrefixOf_iff_prefix] at habove
    refine List.any_eq_true.2 ⟨entry, hmem, Bool.and_eq_true_iff.2 ⟨?_, ?_⟩⟩
    · exact List.isPrefixOf_iff_prefix.2 (habove.trans path.dropLast_prefix)
    · -- The folder of a path is shorter than the path.
      have hlength := habove.length_le
      have hpos : 0 < path.length := List.length_pos_of_ne_nil h.ne_nil
      rw [FilePath.folder, List.length_dropLast] at hlength
      rw [bne_iff_ne]
      rintro hsame
      rw [hsame] at hlength
      omega
  rw [h.notBlocked] at hblocked
  cases hblocked

/-- A file stands in the folder of its path. -/
theorem Holds.isFolder_folder (h : files.Holds path) : files.isFolder path.folder = true := by
  obtain ⟨entry, hmem, hkey⟩ := List.any_eq_true.1 h.isFile
  have hinside : files.contents.any
      (fun entry => path.folder.isPrefixOf entry.1 && path.folder != entry.1) = true := by
    refine List.any_eq_true.2 ⟨entry, hmem, ?_⟩
    rw [eq_of_beq hkey, Bool.and_eq_true_iff]
    refine ⟨List.isPrefixOf_iff_prefix.2 path.dropLast_prefix, ?_⟩
    rw [bne_iff_ne]
    intro hsame
    have hlength := congrArg List.length hsame
    have hpos : 0 < path.length := List.length_pos_of_ne_nil h.ne_nil
    rw [FilePath.folder, List.length_dropLast] at hlength
    omega
  rw [isFolder, hinside, Bool.or_true]

theorem Holds.makeFolder (h : files.Holds path) : files.makeFolder path.folder = .ok files := by
  have hnone : ∀ entry ∈ files.contents, entry.1.isPrefixOf path.folder = false :=
    fun entry hmem => h.not_above hmem
  have hfile : files.isFile path.folder = false := by
    refine Table.has_eq_false_iff.2 fun entry hmem => ?_
    rw [beq_eq_false_iff_ne]
    intro hsame
    have habove := hnone entry hmem
    rw [hsame, List.isPrefixOf_iff_prefix.2 List.prefix_rfl] at habove
    cases habove
  have hblocked : files.isBlocked path.folder = false := by
    refine List.any_eq_false.2 fun entry hmem => ?_
    simp [hnone entry hmem]
  rw [Files.makeFolder, hfile, hblocked, h.isFolder_folder]
  rfl

end Files

namespace Storage

/-- The document that is saved: the snapshot with its version. -/
def savedText (members : Table String Value) : List UInt8 :=
  Text.encode (Json.saved (.object (members.put "schema_version" (.int Snapshot.currentVersion))))

theorem contents_of_makeFolder {files made : Files} {path : FilePath}
    (h : files.makeFolder path = .ok made) : made.contents = files.contents := by
  unfold Files.makeFolder at h
  split at h
  · cases h
  · split at h
    · cases h
    · split at h <;> cases h <;> rfl

theorem contents_of_save {files saved : Files} {path : FilePath} {members : Table String Value}
    (h : save files path members = .ok saved) :
    saved.contents = files.contents.put path (savedText members) := by
  obtain ⟨made, hmade, hwrite⟩ := Except.bind_eq_ok.1 h
  unfold writeJson Files.write at hwrite
  split at hwrite
  · cases hwrite
  · split at hwrite
    · cases hwrite
    · split at hwrite
      · cases hwrite
      · cases hwrite
        show made.contents.put path _ = _
        rw [contents_of_makeFolder hmade]
        rfl

/-- What is read after saving is the text that was saved. -/
theorem readJson_of_save {files saved : Files} {path : FilePath} {members : Table String Value}
    (h : save files path members = .ok saved) :
    readJson saved path = decode
      (Json.saved (.object (members.put "schema_version" (.int Snapshot.currentVersion)))).toList := by
  have hbytes : saved.bytes path = .ok (savedText members) := by
    rw [Files.bytes, contents_of_save h, Table.get?_put_self]
  rw [readJson, Files.chars, hbytes, Except.ok_bind, savedText, Text.decode?_encode]
  exact Except.ok_bind _ _

/-- A file that holds its place is replaced. -/
theorem exists_save_of_holds {files : Files} {path : FilePath} (h : files.Holds path)
    (members : Table String Value) : ∃ saved, save files path members = .ok saved := by
  rw [save, h.makeFolder, Except.ok_bind, writeJson, Files.write, h.notFolder, h.notBlocked,
    h.isFolder_folder]
  exact ⟨_, rfl⟩

end Storage

end CodeHabits
