import FlashController.Linker.FileTree

/-! What an installation works on: files, where it runs, and what it has printed. A site can be set
up from a listing of the working directory, and listed again. -/
namespace FlashController.Linker

structure Site where
  files : FileTree
  workingDirectory : Path
  printed : String

namespace Site

/-- A site with an empty working directory below the root. -/
def empty : Site where
  files := ⟨[(["work"], .directory)]⟩
  workingDirectory := ["work"]
  printed := ""

/-- Adds a file or a directory, and the directories above it. -/
def add? (s : Site) (name : String) (text : Option String) : Option Site := do
  let names := name.splitOn "/"
  match text with
  | none =>
    let (files, _) ← s.files.makeDirectories s.workingDirectory names
    return { s with files }
  | some text =>
    let (files, directory) ← s.files.makeDirectories s.workingDirectory names.dropLast
    let path := directory ++ [names.getLastD ""]
    if files.isDirectory path then none
    else return { s with files := files.put path (.file text) }

/-- The entries below the working directory, a directory with a slash at the end and no text. -/
def listing (s : Site) : List (String × Option String) :=
  s.files.entries.filterMap fun (path, node) =>
    if s.workingDirectory.isPrefixOf path ∧ path ≠ s.workingDirectory then
      let name := "/".intercalate (path.drop s.workingDirectory.length)
      match node with
      | .file text => some (name, some text)
      | .directory => some (name ++ "/", none)
    else none

end Site
end FlashController.Linker
