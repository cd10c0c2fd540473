import LintSetup.Project.Installation
import LintSetup.Proofs.File.Resolution

/-!
# Which installation is used

The search asks for files at paths that it puts together, one directory after another.  What it
comes to is said here without it: the nearest directory with the linter among its packages; without
one, the nearest checkout that is not hidden behind a `package.json`; without one, the first program
on the search path that is not the running one (`Chosen`).  Which of these there are decides the
outcome, and nothing else does (`find_eq_iff_chosen`).

* `findUp_eq_some_iff` --- the nearest directory with a file;
* `firstCheckout?_eq_find?` --- the walk up to a checkout is a search for the first directory with
  one property, which takes in what the walk has passed;
* `isSelf_iff` --- paths that lead to the running program.
-/

namespace LintSetup.Installation

/-! ## What is looked for -/

/-- A directory has a file at a relative path.  Links to a file count, and directories do not. -/
def HasFile (files : Node) (relative directory : String) : Prop :=
  ∃ content executable,
    files.lookup (Path.join directory relative) = .ok (.file content executable)

/-- The linter is among the packages of a directory. -/
def HasPackage (files : Node) (directory : String) : Prop :=
  HasFile files "node_modules/eslint/bin/eslint.js" directory

/-- A directory is a checkout that is reached on the way up from another one: no directory before it
has a `package.json`. -/
structure IsCheckout (files : Node) (start directory : String) : Prop where
  entry : HasFile files "bin/eslint.js" directory
  reached : ∀ passed, Path.AtOrAbove passed start → Path.IsAbove directory passed →
    ¬ HasFile files "package.json" passed

/-- A path leads to a program. -/
def Runs (files : Node) (path : String) : Prop :=
  ∃ content, files.lookup path = .ok (.file content true)

/-- A path leads to the place of the running program.  If that is not known, no path does. -/
def IsOwn (files : Node) (self : Option String) (path : String) : Prop :=
  ∃ own place, self = some own ∧ files.resolve own = .ok place ∧ files.resolve path = .ok place

/-- What is there to be found from a directory on.  A directory that is found is written as in the
list of those at and above the start; which one it is does not depend on how paths are written. -/
inductive Chosen (files : Node) (searchPath : List String) (self : Option String)
    (start : String) : Option Installation → Prop
  /-- The nearest directory with the package, wherever checkouts and programs are. -/
  | localPackage {directory : String} (listed : directory ∈ Path.ancestors start)
      (nearest : Path.Nearest (HasPackage files) start directory) :
      Chosen files searchPath self start
        (some (.localPackage (Path.join directory "node_modules/eslint/bin/eslint.js")))
  /-- The nearest checkout, if no directory on the way up has the package. -/
  | repository {directory : String}
      (noPackage : ∀ d, Path.AtOrAbove d start → ¬ HasPackage files d)
      (listed : directory ∈ Path.ancestors start)
      (nearest : Path.Nearest (IsCheckout files start) start directory) :
      Chosen files searchPath self start
        (some (.repository (Path.join directory "bin/eslint.js")))
  /-- The first program that is not the running one. -/
  | onPath {before after : List String} {directory : String}
      (noPackage : ∀ d, Path.AtOrAbove d start → ¬ HasPackage files d)
      (noCheckout : ∀ d, Path.AtOrAbove d start → ¬ IsCheckout files start d)
      (split : searchPath = before ++ directory :: after)
      (runs : Runs files (Path.join directory "eslint"))
      (notOwn : ¬ IsOwn files self (Path.join directory "eslint"))
      (first : ∀ d ∈ before, Runs files (Path.join d "eslint") →
        IsOwn files self (Path.join d "eslint")) :
      Chosen files searchPath self start (some (.onPath (Path.join directory "eslint")))
  /-- There is none of these. -/
  | nothing (noPackage : ∀ d, Path.AtOrAbove d start → ¬ HasPackage files d)
      (noCheckout : ∀ d, Path.AtOrAbove d start → ¬ IsCheckout files start d)
      (noProgram : ∀ d ∈ searchPath, Runs files (Path.join d "eslint") →
        IsOwn files self (Path.join d "eslint")) :
      Chosen files searchPath self start none

variable {files : Node} {start : String}

/-! ## Files on the way up -/

theorem isFile_join_iff {relative directory : String} :
    files.isFile (Path.join directory relative) = true ↔ HasFile files relative directory := by
  rw [Node.isFile, HasFile]
  cases files.lookup (Path.join directory relative) with
  | error e => simp
  | ok n => cases n <;> simp

/-- Which files a directory has does not depend on how its path is written. -/
theorem hasFile_congr {relative p q : String} (hrelative : Path.isAbsolute relative = false)
    (h : Path.components p = Path.components q) :
    HasFile files relative p ↔ HasFile files relative q := by
  rw [HasFile, HasFile, Node.lookup_join_congr hrelative h]

theorem isFile_join_congr {relative : String} (hrelative : Path.isAbsolute relative = false)
    (p q : String) (h : Path.components p = Path.components q) :
    files.isFile (Path.join p relative) = files.isFile (Path.join q relative) := by
  rw [Bool.eq_iff_iff, isFile_join_iff, isFile_join_iff, hasFile_congr hrelative h]

theorem findUp_eq (files : Node) (start relative : String) :
    findUp files start relative =
      ((Path.ancestors start).find? fun d => files.isFile (Path.join d relative)).map
        (Path.join · relative) :=
  List.find?_map

/-- **The nearest directory with a file.** -/
theorem findUp_eq_some_iff {relative path : String} (hrelative : Path.isAbsolute relative = false) :
    findUp files start relative = some path ↔
      ∃ directory, (directory ∈ Path.ancestors start ∧
        Path.Nearest (HasFile files relative) start directory) ∧
          Path.join directory relative = path := by
  have hhas : (fun d => files.isFile (Path.join d relative) = true) = HasFile files relative :=
    funext fun d => propext isFile_join_iff
  rw [findUp_eq, Option.map_eq_some_iff, ← hhas]
  exact exists_congr fun directory => and_congr_left' <|
    Path.find?_ancestors_eq_some_iff (isFile_join_congr hrelative)

theorem findUp_eq_none_iff {relative : String} (hrelative : Path.isAbsolute relative = false) :
    findUp files start relative = none ↔
      ∀ d, Path.AtOrAbove d start → ¬ HasFile files relative d := by
  rw [findUp_eq, Option.map_eq_none_iff,
    Path.find?_ancestors_eq_none_iff (isFile_join_congr hrelative)]
  exact forall₂_congr fun d _ => not_congr isFile_join_iff

/-! ## Checkouts -/

/-- The entry point of a directory, joined in two steps or in one. -/
theorem join_bin (directory : String) :
    Path.join (Path.join directory "bin") "eslint.js" = Path.join directory "bin/eslint.js" := by
  have hbin : Path.lead (Path.lead directory ++ "bin") = Path.lead directory ++ "bin/" :=
    Path.lead_append (by decide)
  rw [Path.join_eq (by decide), Path.join_eq (by decide), Path.join_eq (by decide), hbin,
    String.append_assoc]
  rfl

theorem isCheckout_congr (p q : String) (h : Path.components p = Path.components q) :
    IsCheckout files start p ↔ IsCheckout files start q := by
  have hmp : ∀ p q, Path.components p = Path.components q → IsCheckout files start p →
      IsCheckout files start q := fun p q h hcheckout =>
    ⟨(hasFile_congr (by decide) h).mp hcheckout.entry, fun passed hpassed habove =>
      hcheckout.reached passed hpassed (by rwa [Path.IsAbove, h])⟩
  exact ⟨hmp p q h, hmp q p h.symm⟩

section Walk

variable {directory : String} {passed rest : List String}
  (hsplit : Path.ancestors start = passed ++ directory :: rest)

include hsplit

/-- What follows a directory on the way up is above it. -/
theorem isAbove_of_mem {upper : String} (hupper : upper ∈ rest) :
    Path.IsAbove upper directory := by
  have hpairs := Path.pairwise_ancestors start
  rw [hsplit] at hpairs
  exact (List.pairwise_cons.mp (List.pairwise_append.mp hpairs).2.1).1 upper hupper

/-- What is below a directory on the way up has been passed before it. -/
theorem mem_of_isAbove {listed : String} (hlisted : listed ∈ Path.ancestors start)
    (habove : Path.IsAbove directory listed) : listed ∈ passed := by
  rw [hsplit, List.mem_append, List.mem_cons] at hlisted
  obtain hlisted | rfl | hlisted := hlisted
  · exact hlisted
  · exact absurd rfl habove.2
  · exact absurd habove (isAbove_of_mem hsplit hlisted).asymm

theorem isCheckout_of_entry (hentry : HasFile files "bin/eslint.js" directory)
    (hpassed : ∀ d ∈ passed, ¬ HasFile files "package.json" d) :
    IsCheckout files start directory := by
  refine ⟨hentry, fun lower hlower habove => ?_⟩
  obtain ⟨listed, hlisted, hcomponents⟩ := hlower.exists_mem_ancestors
  rw [← hasFile_congr (by decide) hcomponents]
  refine hpassed listed (mem_of_isAbove hsplit hlisted ?_)
  rwa [Path.IsAbove, hcomponents]

/-- A `package.json` hides what is above it. -/
theorem not_isCheckout_of_package (hpackage : HasFile files "package.json" directory) {d : String}
    (hd : d ∈ rest) : ¬ IsCheckout files start d := by
  intro hcheckout
  have hmem : directory ∈ Path.ancestors start := by
    rw [hsplit]
    exact List.mem_append_right passed List.mem_cons_self
  exact hcheckout.reached directory (Path.atOrAbove_of_mem_ancestors hmem)
    (isAbove_of_mem hsplit hd) hpackage

end Walk

open scoped Classical in
/-- The walk up to a checkout takes the first directory that is a reached checkout, as long as the
directories that it has passed have no `package.json`. -/
theorem firstCheckout?_eq_find? {passed rest : List String}
    (hsplit : Path.ancestors start = passed ++ rest)
    (hpassed : ∀ d ∈ passed, ¬ HasFile files "package.json" d) :
    firstCheckout? files rest =
      (rest.find? fun d => decide (IsCheckout files start d)).map
        (Path.join · "bin/eslint.js") := by
  -- The property looks at all that is below a directory, so the induction keeps what was passed.
  induction rest generalizing passed with
  | nil => rfl
  | cons directory rest ih =>
    simp only [firstCheckout?, join_bin, isFile_join_iff]
    by_cases hentry : HasFile files "bin/eslint.js" directory
    · have hcheckout := isCheckout_of_entry hsplit hentry hpassed
      rw [if_pos hentry, List.find?_cons, decide_eq_true hcheckout]
      rfl
    · have hnot : ¬ IsCheckout files start directory := fun h => hentry h.entry
      rw [if_neg hentry, List.find?_cons, decide_eq_false hnot]
      by_cases hpackage : HasFile files "package.json" directory
      · have hnone : (rest.find? fun d => decide (IsCheckout files start d)) = none := by
          refine List.find?_eq_none.mpr fun d hd => ?_
          simpa using not_isCheckout_of_package hsplit hpackage hd
        rw [if_pos hpackage, hnone]
        rfl
      · have hsplit' : Path.ancestors start = (passed ++ [directory]) ++ rest := by
          rw [hsplit, List.append_assoc, List.singleton_append]
        rw [if_neg hpackage]
        refine ih hsplit' ?_
        exact List.forall_mem_append.mpr ⟨hpassed, List.forall_mem_singleton.mpr hpackage⟩

open scoped Classical in
theorem findRepository?_eq (files : Node) (start : String) :
    findRepository? files start =
      ((Path.ancestors start).find? fun d => decide (IsCheckout files start d)).map
        (Path.join · "bin/eslint.js") :=
  firstCheckout?_eq_find? (List.nil_append _).symm (by simp)

theorem findRepository?_eq_some_iff {path : String} :
    findRepository? files start = some path ↔
      ∃ directory, (directory ∈ Path.ancestors start ∧
        Path.Nearest (IsCheckout files start) start directory) ∧
          Path.join directory "bin/eslint.js" = path := by
  classical
  rw [findRepository?_eq, Option.map_eq_some_iff]
  refine exists_congr fun directory => and_congr_left' ?_
  rw [Path.find?_ancestors_eq_some_iff fun p q h => by simp only [isCheckout_congr p q h]]
  simp only [decide_eq_true_eq]

theorem findRepository?_eq_none_iff :
    findRepository? files start = none ↔
      ∀ d, Path.AtOrAbove d start → ¬ IsCheckout files start d := by
  classical
  rw [findRepository?_eq, Option.map_eq_none_iff,
    Path.find?_ancestors_eq_none_iff fun p q h => by simp only [isCheckout_congr p q h]]
  simp only [decide_eq_true_eq]

/-! ## Programs on the search path -/

theorem isProgram_iff {path : String} : isProgram files path = true ↔ Runs files path := by
  rw [isProgram, Runs]
  cases files.lookup path with
  | error e => simp
  | ok n => cases n <;> simp

theorem isSelf_iff {self : Option String} {path : String} :
    isSelf files self path = true ↔ IsOwn files self path := by
  have hplace : IsOwn files self path ↔ ∃ own text, self = some own ∧
      files.canonical? own = some text ∧ files.canonical? path = some text := by
    refine exists_congr fun own => ?_
    rw [exists_and_left, exists_and_left, Node.exists_canonical?_iff]
  rw [hplace, isSelf]
  cases files.canonical? path <;> cases self <;> simp

section OnPath

variable {searchPath : List String} {self : Option String}

theorem isOther_iff {path : String} :
    (isProgram files path && !isSelf files self path) = true ↔
      Runs files path ∧ ¬ IsOwn files self path := by
  rw [Bool.and_eq_true, Bool.not_eq_true', ← Bool.not_eq_true, isProgram_iff, isSelf_iff]

theorem not_isOther_iff {path : String} :
    (isProgram files path && !isSelf files self path) = false ↔
      (Runs files path → IsOwn files self path) := by
  rw [← Bool.not_eq_true, isOther_iff, not_and, not_not]

theorem findOnPath?_eq (files : Node) (searchPath : List String) (self : Option String) :
    findOnPath? files searchPath self =
      (searchPath.find? fun d =>
        isProgram files (Path.join d "eslint") && !isSelf files self (Path.join d "eslint")).map
          (Path.join · "eslint") :=
  List.find?_map

/-- The first program on the search path other than the running one. -/
theorem findOnPath?_eq_some_iff {path : String} :
    findOnPath? files searchPath self = some path ↔
      ∃ directory, ((Runs files (Path.join directory "eslint") ∧
        ¬ IsOwn files self (Path.join directory "eslint")) ∧
          ∃ before after, searchPath = before ++ directory :: after ∧
            ∀ d ∈ before, Runs files (Path.join d "eslint") →
              IsOwn files self (Path.join d "eslint")) ∧
        Path.join directory "eslint" = path := by
  simp only [findOnPath?_eq, Option.map_eq_some_iff, List.find?_eq_some_iff_append, isOther_iff,
    Bool.not_eq_true', not_isOther_iff]

theorem findOnPath?_eq_none_iff :
    findOnPath? files searchPath self = none ↔
      ∀ d ∈ searchPath, Runs files (Path.join d "eslint") →
        IsOwn files self (Path.join d "eslint") := by
  simp only [findOnPath?_eq, Option.map_eq_none_iff, List.find?_eq_none, Bool.not_eq_true,
    not_isOther_iff]

end OnPath

/-! ## The installation -/

section Chosen

variable {searchPath : List String} {self : Option String}

/-- What the search finds is what there is to be found. -/
theorem chosen_find? : Chosen files searchPath self start (find? files searchPath self start) := by
  rw [find?, findLocal?]
  cases hlocal : findUp files start "node_modules/eslint/bin/eslint.js" with
  | some path =>
    obtain ⟨directory, ⟨hlisted, hnearest⟩, rfl⟩ := (findUp_eq_some_iff (by decide)).mp hlocal
    exact .localPackage hlisted hnearest
  | none =>
    have hnoPackage := (findUp_eq_none_iff (by decide)).mp hlocal
    cases hrepository : findRepository? files start with
    | some path =>
      obtain ⟨directory, ⟨hlisted, hnearest⟩, rfl⟩ := findRepository?_eq_some_iff.mp hrepository
      exact .repository hnoPackage hlisted hnearest
    | none =>
      have hnoCheckout := findRepository?_eq_none_iff.mp hrepository
      cases honPath : findOnPath? files searchPath self with
      | some path =>
        obtain ⟨directory, ⟨⟨hruns, hother⟩, before, after, hsplit, hfirst⟩, rfl⟩ :=
          findOnPath?_eq_some_iff.mp honPath
        exact .onPath hnoPackage hnoCheckout hsplit hruns hother hfirst
      | none => exact .nothing hnoPackage hnoCheckout (findOnPath?_eq_none_iff.mp honPath)

/-- There is nothing else to be found. -/
theorem Chosen.eq_find? {found : Option Installation}
    (h : Chosen files searchPath self start found) : find? files searchPath self start = found := by
  have hnoLocal : (∀ d, Path.AtOrAbove d start → ¬ HasPackage files d) →
      findLocal? files start = none := (findUp_eq_none_iff (by decide)).mpr
  rw [find?]
  cases h with
  | @localPackage directory hlisted hnearest =>
    have hlocal : findLocal? files start =
        some (Path.join directory "node_modules/eslint/bin/eslint.js") :=
      (findUp_eq_some_iff (by decide)).mpr ⟨directory, ⟨hlisted, hnearest⟩, rfl⟩
    rw [hlocal]
    rfl
  | repository hnoPackage hlisted hnearest =>
    rw [hnoLocal hnoPackage, findRepository?_eq_some_iff.mpr ⟨_, ⟨hlisted, hnearest⟩, rfl⟩]
    rfl
  | onPath hnoPackage hnoCheckout hsplit hruns hother hfirst =>
    rw [hnoLocal hnoPackage, findRepository?_eq_none_iff.mpr hnoCheckout,
      findOnPath?_eq_some_iff.mpr ⟨_, ⟨⟨hruns, hother⟩, _, _, hsplit, hfirst⟩, rfl⟩]
    rfl
  | nothing hnoPackage hnoCheckout hnoProgram =>
    rw [hnoLocal hnoPackage, findRepository?_eq_none_iff.mpr hnoCheckout,
      findOnPath?_eq_none_iff.mpr hnoProgram]
    rfl

/-- The outcome is never the running program, if it is known where that is. -/
theorem Chosen.resolve_ne {bin own : String} {place : List String}
    (h : Chosen files searchPath self start (some (.onPath bin))) (hself : self = some own)
    (hown : files.resolve own = .ok place) : files.resolve bin ≠ .ok place := by
  cases h with
  | onPath _ _ _ _ hother _ => exact fun hbin => hother ⟨own, place, hself, hown, hbin⟩

/-- The outcome is a file. -/
theorem Chosen.exists_lookup {installation : Installation}
    (h : Chosen files searchPath self start (some installation)) :
    ∃ content executable, files.lookup installation.bin = .ok (.file content executable) := by
  cases h with
  | localPackage _ hnearest => exact hnearest.holds
  | repository _ _ hnearest => exact hnearest.holds.entry
  | onPath _ _ _ hruns =>
    obtain ⟨content, hcontent⟩ := hruns
    exact ⟨content, true, hcontent⟩

end Chosen

/-- **Which installation is used.**  For every tree of files, every directory to start from and every
search path, the search finds the nearest directory with the linter among its packages, whatever
else there is; without one, the nearest checkout that is not above a `package.json` on the way; and
without one, the first program on the search path that does not lead to the running program.  If it
is known where the running program is, it is never found, however many links lead to it.  What is
found is a file, never a directory of its name. -/
theorem find_eq_iff_chosen (files : Node) (searchPath : List String) (self : Option String)
    (start : String) :
    (∀ found, find? files searchPath self start = found ↔
      Chosen files searchPath self start found) ∧
      (∀ bin own place, find? files searchPath self start = some (.onPath bin) →
        self = some own → files.resolve own = .ok place → files.resolve bin ≠ .ok place) ∧
      ∀ installation, find? files searchPath self start = some installation →
        ∃ content executable,
          files.lookup installation.bin = .ok (.file content executable) := by
  have hchosen : ∀ found, find? files searchPath self start = found ↔
      Chosen files searchPath self start found := fun found =>
    ⟨fun h => h ▸ chosen_find?, Chosen.eq_find?⟩
  refine ⟨hchosen, fun bin own place h hself hown => ?_, fun installation h => ?_⟩
  · exact ((hchosen _).mp h).resolve_ne hself hown
  · exact ((hchosen _).mp h).exists_lookup

/-- A machine on which the running program is on the search path by another name, and a project that
hides the checkout above it.  A directory has the name of an entry point. -/
def crowdedFiles : Node :=
  .dir [("bin", .dir [("eslint.js", .file [] false)]),
    ("opt", .dir [("eslint", .file [] true)]),
    ("usr", .dir [("launcher", .file [] true), ("eslint", .link "launcher")]),
    ("work", .dir [("bin", .dir [("eslint.js", .emptyDir)]), ("package.json", .file [] false)])]

theorem ancestors_crowdedFiles : Path.ancestors "/work/src" = ["/work/src", "/work", "/"] := by
  decide

theorem findLocal?_crowdedFiles : findLocal? crowdedFiles "/work/src" = none := by
  have hsource : Path.steps "/work/src/node_modules/eslint/bin/eslint.js" =
      ["", "work", "src", "node_modules", "eslint", "bin", "eslint.js"] := by decide
  have hwork : Path.steps "/work/node_modules/eslint/bin/eslint.js" =
      ["", "work", "node_modules", "eslint", "bin", "eslint.js"] := by decide
  have hroot : Path.steps "/node_modules/eslint/bin/eslint.js" =
      ["", "node_modules", "eslint", "bin", "eslint.js"] := by decide
  simp [findLocal?, findUp, ancestors_crowdedFiles, Path.join, Path.isAbsolute, Node.isFile,
    Node.lookup, Node.resolve, hsource, hwork, hroot, crowdedFiles, Node.walkSteps, Node.at?,
    Node.entry?, Members.get?]

/-- The search for a checkout ends below the one that there is. -/
theorem findRepository?_crowdedFiles : findRepository? crowdedFiles "/work/src" = none := by
  have hsource : Path.steps "/work/src/bin/eslint.js" =
      ["", "work", "src", "bin", "eslint.js"] := by decide
  have hsource' : Path.steps "/work/src/package.json" = ["", "work", "src", "package.json"] := by
    decide
  have hwork : Path.steps "/work/bin/eslint.js" = ["", "work", "bin", "eslint.js"] := by decide
  have hwork' : Path.steps "/work/package.json" = ["", "work", "package.json"] := by decide
  simp [findRepository?, firstCheckout?, ancestors_crowdedFiles, Path.join, Path.isAbsolute,
    Node.isFile, Node.lookup, Node.resolve, hsource, hsource', hwork, hwork', crowdedFiles,
    Node.walkSteps, Node.at?, Node.entry?, Members.get?, Node.emptyDir]

theorem resolve_crowdedFiles :
    crowdedFiles.resolve "/usr/launcher" = .ok ["usr", "launcher"] ∧
      crowdedFiles.resolve "/usr/eslint" = .ok ["usr", "launcher"] ∧
      crowdedFiles.resolve "/opt/eslint" = .ok ["opt", "eslint"] := by
  have hlauncher : Path.steps "/usr/launcher" = ["", "usr", "launcher"] := by decide
  have hlink : Path.steps "/usr/eslint" = ["", "usr", "eslint"] := by decide
  have hother : Path.steps "/opt/eslint" = ["", "opt", "eslint"] := by decide
  have htarget : Node.linkSteps "launcher" ["usr"] = (["launcher"], ["usr"]) := by decide
  refine ⟨?_, ?_, ?_⟩ <;>
    simp [Node.resolve, hlauncher, hlink, hother, htarget, crowdedFiles, Node.walkSteps, Node.at?,
      Node.entry?, Members.get?, Node.maxLinks]

theorem findOnPath?_crowdedFiles :
    findOnPath? crowdedFiles ["/usr", "/opt"] (some "/usr/launcher") = some "/opt/eslint" := by
  obtain ⟨hown, hlink, hother⟩ := resolve_crowdedFiles
  refine findOnPath?_eq_some_iff.mpr ⟨"/opt", ⟨⟨⟨[], ?_⟩, ?_⟩, ["/usr"], [], rfl, ?_⟩, by decide⟩
  · exact Node.lookup_eq_ok_iff.mpr ⟨_, hother, rfl⟩
  · rintro ⟨own, place, hself, hplace, hpath⟩
    obtain rfl := Option.some.inj hself
    have hlauncher := Except.ok.inj (hown.symm.trans hplace)
    have heslint := Except.ok.inj (hother.symm.trans hpath)
    exact absurd (hlauncher.trans heslint.symm) (by decide)
  · rintro d hd -
    obtain rfl := List.mem_singleton.mp hd
    exact ⟨"/usr/launcher", _, rfl, hown, hlink⟩

/-- The program on the search path that is another one is found behind a link to the running one. -/
theorem find_eq_iff_chosen_crowdedFiles :
    find? crowdedFiles ["/usr", "/opt"] (some "/usr/launcher") "/work/src" =
        some (.onPath "/opt/eslint") ∧
      Chosen crowdedFiles ["/usr", "/opt"] (some "/usr/launcher") "/work/src"
        (some (.onPath "/opt/eslint")) ∧
      crowdedFiles.resolve "/usr/launcher" = .ok ["usr", "launcher"] ∧
      crowdedFiles.resolve "/opt/eslint" ≠ .ok ["usr", "launcher"] ∧
      ∃ content executable,
        crowdedFiles.lookup "/opt/eslint" = .ok (.file content executable) := by
  have hfind : find? crowdedFiles ["/usr", "/opt"] (some "/usr/launcher") "/work/src" =
      some (.onPath "/opt/eslint") := by
    rw [find?, findLocal?_crowdedFiles, findRepository?_crowdedFiles, findOnPath?_crowdedFiles]
    rfl
  have hown := resolve_crowdedFiles.1
  obtain ⟨hchosen, hother, hfile⟩ :=
    find_eq_iff_chosen crowdedFiles ["/usr", "/opt"] (some "/usr/launcher") "/work/src"
  exact ⟨hfind, (hchosen _).mp hfind, hown, hother _ _ _ hfind rfl hown, hfile _ hfind⟩

end LintSetup.Installation
