import FlashController.Linker.Install

/-! Installations are all or nothing. A path text resolves just when each part of it leads to a
directory, in any tree whose entries all are in directories; and nothing is written or printed
before the last thing that can go wrong. -/
namespace FlashController.Linker

/-- The path that a name leads to, whatever is there. The root is its own parent. -/
def enter (here : Path) (name : String) : Path :=
  if name = "" ∨ name = "." then here
  else if name = ".." then here.dropLast
  else here ++ [name]

namespace FileTree
variable {t u : FileTree} {p here there : Path} {name : String} {names : List String} {node : Node}

/-- Whatever is in the tree is in a directory. -/
def Rooted (t : FileTree) : Prop :=
  ∀ p node, t.get? p = some node → t.isDirectory p.dropLast = true

theorem isDirectory_iff : t.isDirectory p = true ↔ t.get? p = some .directory := beq_iff_eq

theorem Rooted.parent (h : t.Rooted) (dir : t.isDirectory p = true) :
    t.isDirectory p.dropLast = true := h p _ (isDirectory_iff.mp dir)

theorem rooted_of_entries (all : ∀ entry ∈ t.entries, t.isDirectory entry.1.dropLast = true) :
    t.Rooted := by
  intro p node found
  by_cases root : p = []
  · rw [root]
    rfl
  · rw [get?, if_neg root] at found
    obtain ⟨before, after, same, _⟩ := List.lookup_eq_some_iff.mp found
    exact all (p, node) (same ▸ List.mem_append_cons_self)

section Walk
variable (h : t.Rooted) (dir : t.isDirectory here = true)
include h dir

theorem walk_cons : t.walk here (name :: names) =
    if t.isDirectory (enter here name) then t.walk (enter here name) names else none := by
  by_cases stays : name = "" ∨ name = "."
  · rw [walk, enter, if_pos stays, if_pos stays, if_pos dir]
  · by_cases climbs : name = ".."
    · rw [walk, enter, if_neg stays, if_neg stays, if_pos climbs, if_pos climbs,
        if_pos (h.parent dir)]
    · rw [walk, enter, if_neg stays, if_neg stays, if_neg climbs, if_neg climbs]

/-- Names are followed to where they lead if every part of them leads to a directory. -/
theorem walk_eq_some_iff : t.walk here names = some there ↔
    names.foldl enter here = there ∧
      ∀ part, part <+: names → t.isDirectory (part.foldl enter here) = true := by
  induction names generalizing here with
  | nil => simp [walk, dir]
  | cons name rest ih =>
    have parts : (∀ part, part <+: name :: rest → t.isDirectory (part.foldl enter here) = true) ↔
        ∀ part, part <+: rest → t.isDirectory (part.foldl enter (enter here name)) = true := by
      refine ⟨fun all part before => all _ (List.cons_prefix_cons.mpr ⟨rfl, before⟩),
        fun all part before => ?_⟩
      rcases List.prefix_cons_iff.mp before with rfl | ⟨later, rfl, inside⟩
      · exact dir
      · exact all later inside
    rw [walk_cons h dir, parts, List.foldl_cons]
    cases next : t.isDirectory (enter here name) with
    | true => exact ih next
    | false =>
      refine ⟨nofun, fun ⟨_, all⟩ => ?_⟩
      cases next.symm.trans (all [] List.nil_prefix)

end Walk

section Put

theorem isDirectory_put (keeps : node = .directory ∨ t.isDirectory (here ++ [name]) = false)
    (dir : t.isDirectory p = true) : (t.put (here ++ [name]) node).isDirectory p = true := by
  rw [isDirectory_iff, get?_put (List.concat_ne_nil name here)]
  by_cases same : p = here ++ [name]
  · subst same
    rcases keeps with rfl | none
    · rw [if_pos rfl]
    · cases none.symm.trans dir
  · rw [if_neg same]
    exact isDirectory_iff.mp dir

/-- A tree stays rooted when something is put into a directory of it, if no directory is lost. -/
theorem Rooted.put (h : t.Rooted) (dir : t.isDirectory here = true)
    (keeps : node = .directory ∨ t.isDirectory (here ++ [name]) = false) :
    (t.put (here ++ [name]) node).Rooted := by
  intro p other found
  rw [get?_put (List.concat_ne_nil name here)] at found
  refine isDirectory_put keeps ?_
  by_cases same : p = here ++ [name]
  · rw [same, List.dropLast_concat]
    exact dir
  · rw [if_neg same] at found
    exact h p other found

/-- The directories along some names are made in a rooted tree, and no other is lost. -/
theorem makeDirectories_rooted (h : t.Rooted) (dir : t.isDirectory here = true)
    (made : t.makeDirectories here names = some (u, there)) :
    u.Rooted ∧ u.isDirectory there = true ∧
      ∀ p, t.isDirectory p = true → u.isDirectory p = true := by
  induction names generalizing t here with
  | nil =>
    obtain ⟨rfl, rfl⟩ := Prod.mk.inj (Option.some.inj made)
    exact ⟨h, dir, fun _ => id⟩
  | cons name rest ih =>
    rw [makeDirectories] at made
    split at made
    · exact ih h dir made
    · split at made
      · exact ih h (h.parent dir) made
      · dsimp only at made
        split at made
        · rename_i found
          exact ih h (isDirectory_iff.mpr found) made
        · cases made
        · have keeps : Node.directory = .directory ∨ t.isDirectory (here ++ [name]) = false :=
            .inl rfl
          have fresh : (t.put (here ++ [name]) .directory).isDirectory (here ++ [name]) = true := by
            rw [isDirectory_iff, get?_put (List.concat_ne_nil name here), if_pos rfl]
          obtain ⟨rooted, last, kept⟩ := ih (h.put dir keeps) fresh made
          exact ⟨rooted, last, fun p old => kept p (isDirectory_put keeps old)⟩

end Put
end FileTree

namespace Site
variable {s t : Site}

structure WellFormed (s : Site) : Prop where
  rooted : s.files.Rooted
  here : s.files.isDirectory s.workingDirectory = true

theorem wellFormed_empty : empty.WellFormed :=
  ⟨FileTree.rooted_of_entries (by decide), by decide⟩

/-- A site that is set up entry by entry is well-formed, whatever the entries are. -/
theorem WellFormed.add (h : s.WellFormed) {name : String} {text : Option String}
    (added : s.add? name text = some t) : t.WellFormed := by
  cases text with
  | none =>
    obtain ⟨⟨files, directory⟩, made, same⟩ := Option.bind_eq_some_iff.mp added
    obtain rfl := Option.some.inj same
    obtain ⟨rooted, _, kept⟩ := FileTree.makeDirectories_rooted h.rooted h.here made
    exact ⟨rooted, kept _ h.here⟩
  | some text =>
    obtain ⟨⟨files, directory⟩, made, same⟩ := Option.bind_eq_some_iff.mp added
    obtain ⟨rooted, last, kept⟩ := FileTree.makeDirectories_rooted h.rooted h.here made
    dsimp only at same
    split at same
    · cases same
    · rename_i free
      have keeps : Node.file text = .directory ∨ files.isDirectory _ = false :=
        .inr (Bool.eq_false_iff.mpr free)
      obtain rfl := Option.some.inj same
      exact ⟨rooted.put last keeps, FileTree.isDirectory_put keeps (kept _ h.here)⟩

/-- So is every site that is set up from a listing. -/
theorem wellFormed_setUp {listing : List (String × Option String)} (h : s.WellFormed)
    (setUp : listing.foldlM (fun s (name, text) => s.add? name text) s = some t) :
    t.WellFormed := by
  induction listing generalizing s with
  | nil =>
    cases setUp
    exact h
  | cons entry rest ih =>
    obtain ⟨u, added, later⟩ := Option.bind_eq_some_iff.mp setUp
    exact ih (h.add added) later

def source (s : Site) : Path := s.workingDirectory ++ [scriptName]

def start (s : Site) (text : String) : Path :=
  if text.startsWith "/" then [] else s.workingDirectory

/-- Where a path text leads, whatever is there. -/
def place (s : Site) (text : String) : Path := (text.splitOn "/").foldl enter (s.start text)

/-- Every part of a path text leads to a directory that is there. -/
def Resolves (s : Site) (text : String) : Prop :=
  ∀ part, part <+: text.splitOn "/" →
    s.files.isDirectory (part.foldl enter (s.start text)) = true

def target (s : Site) (output : String) : Path := s.place output ++ [scriptName]

theorem resolve?_eq_some_iff (h : s.WellFormed) {text : String} {directory : Path} :
    s.files.resolve? s.workingDirectory text = some directory ↔
      s.place text = directory ∧ s.Resolves text := by
  have dir : s.files.isDirectory (s.start text) = true := by
    unfold start
    split
    · rfl
    · exact h.here
  exact FileTree.walk_eq_some_iff h.rooted dir

/-- All that an installation with an output directory needs. -/
structure Ready (s : Site) (output text : String) : Prop where
  source_text : s.files.get? s.source = some (.file text)
  resolves : s.Resolves output
  free : s.files.isDirectory (s.target output) = false

/-- A file copied onto itself ends empty. -/
def copied (s : Site) (output text : String) : Site :=
  let copy := if s.target output = s.source then "" else text
  { s with files := s.files.put (s.target output) (.file copy) }

theorem get?_copied (s : Site) (output text : String) (p : Path) :
    (s.copied output text).files.get? p =
      if p = s.target output then some (.file (if s.target output = s.source then "" else text))
      else s.files.get? p := by
  rw [copied, target]
  exact FileTree.get?_put (List.concat_ne_nil _ _) _ p

end Site

section Install
variable {s : Site} {output text : String}

theorem get_bind {β : Type} (f : Site → InstallM β) (s : Site) :
    ((get : InstallM Site) >>= f) s = f s s := rfl

theorem copyScript_ready (h : s.WellFormed) (ready : s.Ready output text) :
    copyScript output s = .ok () (s.copied output text) := by
  have source : s.files.get? (s.workingDirectory ++ [scriptName]) = some (.file text) :=
    ready.source_text
  have place := (Site.resolve?_eq_some_iff h).mpr ⟨rfl, ready.resolves⟩
  have free : s.files.isDirectory (s.place output ++ [scriptName]) = false := ready.free
  rw [copyScript, get_bind]
  simp only [source, place, free]
  rfl

/-- A copy that lacks something is not begun. -/
theorem copyScript_unready (h : s.WellFormed) (unready : ∀ text, ¬ s.Ready output text) :
    ∃ e, copyScript output s = .error e s := by
  rw [copyScript, get_bind]
  cases source : s.files.get? (s.workingDirectory ++ [scriptName]) with
  | none => exact ⟨.noSource, rfl⟩
  | some node =>
    cases node with
    | directory => exact ⟨.noSource, rfl⟩
    | file text =>
      cases found : s.files.resolve? s.workingDirectory output with
      | none => exact ⟨.noTarget, rfl⟩
      | some directory =>
        obtain ⟨rfl, resolves⟩ := (Site.resolve?_eq_some_iff h).mp found
        cases free : s.files.isDirectory (s.place output ++ [scriptName]) with
        | true =>
          refine ⟨.targetIsDirectory, ?_⟩
          simp only [free, if_true]
          rfl
        | false => exact absurd ⟨source, resolves, free⟩ (unready text)

/-- The site after an installation. -/
def Site.installed (s : Site) (output text : String) : Site :=
  { s.copied output text with printed := s.printed ++
      "cargo:rustc-link-search=" ++ output ++ "\n" ++
      "cargo:rerun-if-changed=memory.x\n" ++
      "cargo:rerun-if-changed=build.rs\n" }

theorem install_ready (h : s.WellFormed) (ready : s.Ready output text) :
    install (some output) s = .ok () (s.installed output text) := by
  have copies := copyScript_ready h ready
  have lines : (s.installed output text).printed = (s.copied output text).printed ++
      ("cargo:rustc-link-search=" ++ output) ++ "\n" ++
      ("cargo:rerun-if-changed=" ++ scriptName) ++ "\n" ++
      "cargo:rerun-if-changed=build.rs" ++ "\n" := by
    simp only [Site.installed, String.append_assoc]
    rfl
  simp only [install, bind, EStateM.bind, copies]
  exact congrArg (fun printed => EStateM.Result.ok () { s.copied output text with printed })
    lines.symm

theorem install_unready (h : s.WellFormed) (unready : ∀ text, ¬ s.Ready output text) :
    ∃ e, install (some output) s = .error e s := by
  obtain ⟨e, fails⟩ := copyScript_unready h unready
  refine ⟨e, ?_⟩
  simp only [install, bind, EStateM.bind, fails]

/-- An installation is done in full, or fails at once. -/
theorem install_outcome (h : s.WellFormed) (output? : Option String) :
    (∃ output text, output? = some output ∧ s.Ready output text ∧
      install output? s = .ok () (s.installed output text)) ∨
    (∀ output text, output? = some output → ¬ s.Ready output text) ∧
      ∃ e, install output? s = .error e s := by
  cases output? with
  | none => exact .inr ⟨nofun, .noOutput, rfl⟩
  | some output =>
    by_cases ready : ∃ text, s.Ready output text
    · obtain ⟨text, ready⟩ := ready
      exact .inl ⟨output, text, rfl, ready, install_ready h ready⟩
    · refine .inr ⟨fun other text same found => ?_, install_unready h fun text found => ?_⟩
      · cases same
        exact ready ⟨text, found⟩
      · exact ready ⟨text, found⟩

/-- An installation that fails leaves files and output as they were. It succeeds when it has all
that it needs, and then replaces one file. -/
theorem install_all_or_nothing (h : s.WellFormed) (output? : Option String) :
    ((∃ t, install output? s = .ok () t) ↔
      ∃ output text, output? = some output ∧ s.Ready output text) ∧
    (∀ e t, install output? s = .error e t → t = s) ∧
    ∀ t, install output? s = .ok () t → ∃ output text, output? = some output ∧
      s.Ready output text ∧
      (s.target output ≠ s.source → t.files.get? (s.target output) = some (.file text)) ∧
      (∀ p, p ≠ s.target output → t.files.get? p = s.files.get? p) ∧
      t.workingDirectory = s.workingDirectory ∧
      t.printed = s.printed ++ "cargo:rustc-link-search=" ++ output ++ "\n" ++
        "cargo:rerun-if-changed=memory.x\n" ++ "cargo:rerun-if-changed=build.rs\n" := by
  rcases install_outcome h output? with ⟨output, text, given, ready, run⟩ | ⟨unready, e, fails⟩
  · refine ⟨⟨fun _ => ⟨output, text, given, ready⟩, fun _ => ⟨_, run⟩⟩, fun e t fails => ?_,
      fun t done => ?_⟩
    · cases run.symm.trans fails
    · cases run.symm.trans done
      refine ⟨output, text, given, ready, fun other => ?_, fun p elsewhere => ?_, rfl, rfl⟩
      · exact (s.get?_copied output text _).trans (by rw [if_pos rfl, if_neg other])
      · exact (s.get?_copied output text p).trans (if_neg elsewhere)
  · refine ⟨⟨fun ⟨t, done⟩ => ?_, fun ⟨output, text, given, ready⟩ => ?_⟩, fun e t failed => ?_,
      fun t done => ?_⟩
    · cases fails.symm.trans done
    · exact absurd ready (unready output text given)
    · cases fails.symm.trans failed
      rfl
    · cases fails.symm.trans done

end Install

theorem splitOn_nested : "a/b".splitOn "/" = ["a", "b"] := by
  show "a/b".splitOnAux "/" 0 0 0 [] = _
  rw [String.splitOnAux]
  show "a/b".splitOnAux "/" 0 ⟨1⟩ 0 [] = _
  rw [String.splitOnAux]
  show "a/b".splitOnAux "/" ⟨2⟩ ⟨2⟩ 0 ["a"] = _
  rw [String.splitOnAux]
  show "a/b".splitOnAux "/" ⟨2⟩ ⟨3⟩ 0 ["a"] = _
  rw [String.splitOnAux]
  rfl

/-- An older copy two directories down is replaced. -/
theorem install_all_or_nothing_nested :
    let s : Site := {
      files := ⟨[(["work"], .directory), (["work", "memory.x"], .file "FLASH"),
        (["work", "a"], .directory), (["work", "a", "b"], .directory),
        (["work", "a", "b", "memory.x"], .file "old")]⟩
      workingDirectory := ["work"]
      printed := "" }
    s.WellFormed ∧ s.Ready "a/b" "FLASH" ∧ ∃ t, install (some "a/b") s = .ok () t ∧
      t.files.get? ["work", "a", "b", "memory.x"] = some (.file "FLASH") ∧
      t.files.get? ["work", "memory.x"] = some (.file "FLASH") ∧
      t.printed = "cargo:rustc-link-search=a/b\ncargo:rerun-if-changed=memory.x\n" ++
        "cargo:rerun-if-changed=build.rs\n" := by
  intro s
  have wellFormed : s.WellFormed := ⟨FileTree.rooted_of_entries (by decide), by decide⟩
  have start : s.start "a/b" = ["work"] := if_neg (by decide +kernel)
  have place : s.target "a/b" = ["work", "a", "b", "memory.x"] := by
    rw [Site.target, Site.place, splitOn_nested, start]
    decide
  have ready : s.Ready "a/b" "FLASH" := by
    refine ⟨by decide, fun part before => ?_, by rw [place]; decide⟩
    rw [splitOn_nested] at before
    rw [start]
    rcases List.prefix_cons_iff.mp before with rfl | ⟨rest, rfl, later⟩
    · decide
    · rcases List.prefix_cons_iff.mp later with rfl | ⟨rest, rfl, ends⟩
      · decide
      · obtain rfl := List.prefix_nil.mp ends
        decide
  obtain ⟨succeeds, _, effect⟩ := install_all_or_nothing wellFormed (some "a/b")
  obtain ⟨t, run⟩ := succeeds.mpr ⟨"a/b", "FLASH", rfl, ready⟩
  obtain ⟨output, text, given, found, copied, kept, _, printed⟩ := effect t run
  cases given
  cases Option.some.inj (found.source_text.symm.trans ready.source_text)
  rw [place] at copied kept
  exact ⟨wellFormed, ready, t, run, copied (by decide), kept _ (by decide), printed⟩

end FlashController.Linker
