import CloudTemplate.Text.Bytes

/-!
# Paths

A path is bytes, which need not be a text. A path that is a text is shown as it is; of other paths,
different ones may be shown alike.

Main definitions: `FilePath` with its names and the extension of the last one, and `FilePath.shown`.
-/

namespace CloudTemplate

/-- A path, as the bytes that a system is given. -/
structure FilePath where
  bytes : Bytes
deriving DecidableEq, Repr

namespace FilePath

/-- The path that a text is. -/
def ofText (text : String) : FilePath := ⟨text.toUTF8.data.toList⟩

instance : Coe String FilePath := ⟨ofText⟩

/-- The text that a path is, if it is one. -/
def text? (path : FilePath) : Option String := Text.ofBytes? path.bytes

/-- The text that is shown for a path. -/
def shown (path : FilePath) : String := Text.ofBytesShown path.bytes

/-- Whether a path is a text. -/
def IsText (path : FilePath) : Prop := ∃ text : String, path = text

theorem text?_ofText (text : String) : (ofText text).text? = some text := by
  unfold text? ofText Text.ofBytes? String.fromUTF8?
  rw [String.toUTF8_eq_toByteArray]
  exact dif_pos text.isValidUTF8

/-- A text is shown as it is. -/
theorem shown_ofText (text : String) : (ofText text).shown = text := by
  have htext : Text.ofBytes? (ofText text).bytes = some text := text?_ofText text
  rw [shown, Text.ofBytesShown, htext, Option.getD_some]

/-- Paths that are texts are told apart by what is shown for them. -/
theorem eq_of_shown_eq {path path' : FilePath} (htext : path.IsText) (htext' : path'.IsText)
    (h : path.shown = path'.shown) : path = path' := by
  obtain ⟨text, rfl⟩ := htext
  obtain ⟨text', rfl⟩ := htext'
  rw [shown_ofText, shown_ofText] at h
  rw [h]

/-- A path with more behind it. -/
def append (path rest : FilePath) : FilePath := ⟨path.bytes ++ rest.bytes⟩

/-- The name of a directory in itself. -/
def here : Bytes := [0x2E]

/-- The name of the directory above, in a directory. -/
def above : Bytes := [0x2E, 0x2E]

/-- The names of a path, between its slashes. -/
def names (path : FilePath) : List Bytes :=
  go [] path.bytes
where
  /-- Collect the bytes of a name. -/
  go (seen : Bytes) : Bytes → List Bytes
    | [] => [seen.reverse]
    | b :: rest => if b = 0x2F then seen.reverse :: go [] rest else go (b :: seen) rest

/-- The last name of a path: blank and `.` components are passed over, and `..` is no name. -/
def fileName? (path : FilePath) : Option Bytes :=
  match (path.names.filter fun name => name ≠ [] && name ≠ here).getLast? with
  | some name => if name = above then none else some name
  | none => none

/-- What stands before the last dot of some bytes, and what stands behind it. -/
def splitAtLastDot (bytes : Bytes) : Option (Bytes × Bytes) :=
  match bytes.reverse.dropWhile (· ≠ 0x2E) with
  | [] => none
  | _ :: before => some (before.reverse, (bytes.reverse.takeWhile (· ≠ 0x2E)).reverse)

/-- The extension of a path: what follows the last dot of its name, if something precedes it and it
is a text. -/
def extension? (path : FilePath) : Option String :=
  match path.fileName?.bind splitAtLastDot with
  | some (_ :: _, behind) => Text.ofBytes? behind
  | _ => none

end FilePath

end CloudTemplate
