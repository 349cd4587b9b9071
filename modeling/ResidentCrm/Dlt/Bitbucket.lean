import ResidentCrm.Dlt.VersionFiles

/-!
# The source repository

`dlt/bitbucket.py`: the four reads the precheck makes of a mapped repository. What the server
answers is an `Oracle`, in which `none` is a read that could not be made; a file that is not there
reads as `none` too. Both API flavours give these answers, and the listing of files is the
server's alone.

The listing is the sequence of its pages, up to the last one or the first that could not be read.
-/

namespace ResidentCrm.Dlt

structure Repo where
  project : Text
  repo : Text
  branch : Text
  versionFile : Text
  sourceRoots : List Text
deriving DecidableEq, Repr

def Repo.slug (r : Repo) : Text := r.project ++ '/' :: r.repo

def defaultBranch : Text := "release".toList
def defaultVersionFile : Text := "pom.xml".toList
def defaultSourceRoots : List Text := ["src/main/java".toList]

structure Commit where
  id : Text
  subject : Text := []
  timestampMs : Option ℤ
deriving DecidableEq, Repr

def Commit.short (c : Commit) : Text := c.id.take 10

/-- An entry of `DLT_REPO_MAP`, as its JSON object has it. -/
structure RepoSpec where
  project : Text
  repo : Text
  branch : Text := []
  versionFile : Text := []
  sourceRoots : List Text := []
deriving DecidableEq, Repr

structure Config where
  enabled : Bool
  /-- A base URL and a token are set. -/
  reachable : Bool
  cloud : Bool
  /-- `DLT_REPO_MAP`; an entry that is no object is `none`. -/
  repoMap : List (Text × Option RepoSpec)
  branchOverride : Option Text
  frames : ℕ
  frames_pos : 0 < frames
  maxCandidates : ℕ
  maxCandidates_pos : 0 < maxCandidates
  pattern : Option Pattern
  /-- `ElementTree.fromstring`. -/
  fromstring : Text → Option Pom.Element
  /-- `str` of a JSON value that is no string. -/
  str : Json → Text

/-- What the repository answers. -/
structure Oracle where
  /-- The commits on the branch that touched a path, newest first. -/
  commits : Repo → Text → Option (List Commit)
  changes : Repo → Text → Option (List Text)
  file : Repo → Text → Text → Option Text
  pages : Repo → List (Option (List Text))

def maxListedFiles : ℕ := 20000

namespace Config

variable (cfg : Config)

def configured : Bool := cfg.reachable && !cfg.repoMap.isEmpty

/-- The entry of the map with the longest matching prefix, the first of equals. -/
def bestSpec (classFqcn : Text) : Option (Text × RepoSpec) :=
  cfg.repoMap.foldl (fun best entry =>
    match entry.2 with
    | none => best
    | some spec =>
      if !entry.1.isPrefixOf classFqcn then best
      else match best with
        | none => some (entry.1, spec)
        | some (longest, _) =>
          if entry.1.length > longest.length then some (entry.1, spec) else best) none

def repoFor (classFqcn : Text) : Option Repo := do
  if classFqcn = [] then none
  let (_, spec) ← cfg.bestSpec classFqcn
  let project := Text.strip spec.project
  let name := Text.strip spec.repo
  if project = [] ∨ name = [] then none
  let given := if spec.sourceRoots = [] then defaultSourceRoots else spec.sourceRoots
  let roots := (given.filter (· ≠ [])).map (Text.stripOf ['/'])
  some {
    project := project
    repo := name
    branch := orElse spec.branch defaultBranch
    versionFile := orElse spec.versionFile defaultVersionFile
    sourceRoots := if roots = [] then defaultSourceRoots else roots }

end Config

/-! ## Reads -/

/-- A commit with no readable timestamp is kept rather than dropped. -/
def keptSince (since : Option ℤ) (c : Commit) : Bool :=
  match since, c.timestampMs with
  | some since, some t => since ≤ t
  | _, _ => true

/-- The commits that touched `path`, newest first; `some []` is an answer, `none` is not. -/
def commitsTouching (o : Oracle) (repo : Repo) (path : Text) (since : Option ℤ) :
    Option (List Commit) :=
  if path = [] then none else (o.commits repo path).map (·.filter (keptSince since))

def changedPaths (o : Oracle) (repo : Repo) (commitId : Text) : Option (List Text) :=
  if commitId = [] then none else o.changes repo commitId

def fileAt (o : Oracle) (repo : Repo) (path ref : Text) : Option Text :=
  if path = [] then none else o.file repo path (orElse ref repo.branch)

/-- The paging loop of `list_files`: a page that cannot be read ends it. -/
def collectPages (paths : List Text) : List (Option (List Text)) → List Text
  | some values :: pages =>
    if paths.length < maxListedFiles then collectPages (paths ++ values) pages else paths
  | _ => paths

def listFiles (cfg : Config) (o : Oracle) (repo : Repo) : List Text :=
  if cfg.cloud then [] else collectPages [] (o.pages repo)

def rootedPaths (repo : Repo) (pathSuffix : Text) : List Text :=
  repo.sourceRoots.map fun root =>
    if root = [] then pathSuffix else root ++ '/' :: pathSuffix

/-- The repository path for a frame: the first source root that holds the file, else the one path
of the listing that ends in the suffix. -/
def resolvePath (cfg : Config) (o : Oracle) (repo : Repo) (pathSuffix : Text) : Option Text :=
  if pathSuffix = [] then none
  else match (rootedPaths repo pathSuffix).find? fun path => (fileAt o repo path []).isSome with
    | some path => some path
    | none =>
      match (listFiles cfg o repo).filter (pathSuffix.isSuffixOf ·) with
      | [path] => some path
      | _ => none

/-- The version that the text of a version file declares, by the file's name. -/
def Config.declaredIn (cfg : Config) (name text : Text) : Option Text :=
  if ".json".toList.isSuffixOf name then parsePackageVersion cfg.str text
  else if ".properties".toList.isSuffixOf name || ".props".toList.isSuffixOf name then
    parsePropertiesVersion text
  else Pom.parsePomVersion cfg.fromstring text

/-- The version declared in the version file at `ref`; a value that does not parse as a version is
not returned. -/
def versionAt (cfg : Config) (o : Oracle) (repo : Repo) (ref : Text) : Option Text := do
  let text ← fileAt o repo repo.versionFile ref
  let raw ← cfg.declaredIn repo.versionFile text
  if (parse cfg.pattern raw).isSome then some raw else none

/-- Did a commit touch the version file? By the basename. -/
def touchesVersionFile (paths : List Text) (versionFile : Text) : Bool :=
  let target := Text.afterLast '/' versionFile
  target ≠ [] && paths.any fun path => Text.afterLast '/' path = target

end ResidentCrm.Dlt
