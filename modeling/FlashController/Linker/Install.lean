import FlashController.Linker.Site

/-! Installing the linker script of a firmware build: the memory layout is copied to the output
directory, and the build tool is told where to find it and what to watch. -/
namespace FlashController.Linker

inductive Failure
  /-- No output directory was given. -/
  | noOutput
  /-- The memory layout is missing or not a file. -/
  | noSource
  /-- The output directory is missing or not a directory. -/
  | noTarget
  /-- A directory is in the place of the copy. -/
  | targetIsDirectory
  deriving DecidableEq, Repr

abbrev InstallM := EStateM Failure Site

def scriptName : String := "memory.x"

/-- Opening a copy's target empties it before anything is read, so a file copied onto itself ends
empty. -/
def copyFile (source target : Path) (text : String) : InstallM Unit :=
  modify fun s => { s with
    files := s.files.put target (.file (if target = source then "" else text)) }

def copyScript (output : String) : InstallM Unit := do
  let s ← get
  let source := s.workingDirectory ++ [scriptName]
  let some (.file text) := s.files.get? source | throw .noSource
  let some directory := s.files.resolve? s.workingDirectory output | throw .noTarget
  let target := directory ++ [scriptName]
  if s.files.isDirectory target then throw .targetIsDirectory
  copyFile source target text

def printLine (line : String) : InstallM Unit :=
  modify fun s => { s with printed := s.printed ++ line ++ "\n" }

def install (output : Option String) : InstallM Unit := do
  let some output := output | throw .noOutput
  copyScript output
  printLine ("cargo:rustc-link-search=" ++ output)
  printLine ("cargo:rerun-if-changed=" ++ scriptName)
  printLine "cargo:rerun-if-changed=build.rs"

end FlashController.Linker
