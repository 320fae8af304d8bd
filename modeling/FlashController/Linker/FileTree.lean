/-! Trees of text files and directories, as a list of absolute paths with what is there. -/
namespace FlashController.Linker

/-- Names from the root downwards. -/
abbrev Path := List String

inductive Node
  | file (text : String)
  | directory
  deriving DecidableEq

structure FileTree where
  entries : List (Path × Node)

namespace FileTree

/-- The root is there in every tree. -/
def get? (t : FileTree) (p : Path) : Option Node :=
  if p = [] then some .directory else t.entries.lookup p

def isDirectory (t : FileTree) (p : Path) : Bool := t.get? p == some .directory

/-- Replaces what is at a path or adds it as the last entry. -/
def putEntry (p : Path) (node : Node) : List (Path × Node) → List (Path × Node)
  | [] => [(p, node)]
  | (q, old) :: rest => if q = p then (p, node) :: rest else (q, old) :: putEntry p node rest

def put (t : FileTree) (p : Path) (node : Node) : FileTree := ⟨putEntry p node t.entries⟩

/-- Follows the names of a path text through directories. Every name has to be a directory that
is there, also one that the next name leaves again; the root is its own parent. -/
def walk (t : FileTree) : Path → List String → Option Path
  | here, [] => some here
  | here, name :: rest =>
    if name = "" ∨ name = "." then t.walk here rest
    else if name = ".." then t.walk here.dropLast rest
    else if t.isDirectory (here ++ [name]) then t.walk (here ++ [name]) rest
    else none

/-- The directory that a path text names, seen from a working directory. -/
def resolve? (t : FileTree) (workingDirectory : Path) (text : String) : Option Path :=
  let start := if text.startsWith "/" then [] else workingDirectory
  t.walk start (text.splitOn "/")

/-- Makes the directories along names that are missing. A file in the way ends it. -/
def makeDirectories (t : FileTree) : Path → List String → Option (FileTree × Path)
  | here, [] => some (t, here)
  | here, name :: rest =>
    if name = "" ∨ name = "." then t.makeDirectories here rest
    else if name = ".." then t.makeDirectories here.dropLast rest
    else
      let there := here ++ [name]
      match t.get? there with
      | some .directory => t.makeDirectories there rest
      | some (.file _) => none
      | none => (t.put there .directory).makeDirectories there rest

theorem lookup_putEntry (p q : Path) (node : Node) (entries : List (Path × Node)) :
    (putEntry p node entries).lookup q = if q = p then some node else entries.lookup q := by
  induction entries with
  | nil =>
    by_cases h : q = p
    · simp [putEntry, h]
    · simp [putEntry, List.lookup_cons, h, beq_false_of_ne h]
  | cons entry rest ih =>
    obtain ⟨r, old⟩ := entry
    by_cases hr : r = p
    · by_cases h : q = p
      · simp [putEntry, hr, h]
      · simp [putEntry, List.lookup_cons, hr, h, beq_false_of_ne h]
    · by_cases hq : q = r
      · subst hq; simp [putEntry, hr]
      · simp only [putEntry, hr, if_false, List.lookup_cons, beq_false_of_ne hq, ih]

theorem get?_put {t : FileTree} {p : Path} (h : p ≠ []) (node : Node) (q : Path) :
    (t.put p node).get? q = if q = p then some node else t.get? q := by
  simp only [get?, put, lookup_putEntry]
  by_cases hq : q = []
  · subst hq; simp [Ne.symm h]
  · simp [hq]

end FileTree
end FlashController.Linker
