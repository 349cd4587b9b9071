import Mathlib.Data.List.Dedup
import Mathlib.Data.List.Find
import Mathlib.Data.List.Infix
import Mathlib.Data.List.ReduceOption
import ResidentCrm.Dlt.FixDeployed

/-!
# Reads that fail

A repository of which some reads fail (`Oracle.without`) ought to weaken the verdict at most: what
was `v` is `v` or `UNKNOWN`. A failed listing of a mapped file's commits does that. A failed read
of a candidate is passed over by the loop, and lowers the version required; a failed probe of a
source root or page of the listing moves a frame to another file or to none.

`Harmless` says of the reads themselves when that does no harm: the check stops, or no commit that
is looked at keeps its reads, or what is found of the frames' files and of their commits' versions
is what was found with every read answered (`weakens_iff_harmless`). On the way there the verdict is
taken apart: it depends on the repository through its `Standing` alone.
-/

namespace ResidentCrm.Dlt

/-! ## The versions a build can be behind of -/

namespace Version

variable {a b x : Version}

/-- A version as what may be behind it sees it: no counter is behind a missing one or behind 0. -/
def grade (v : Version) : (List ℕ ×ₗ Bool) ×ₗ ℕ := toLex (v.rank.key, v.build.getD 0)

/-- The least version, `0-SNAPSHOT`. -/
def least : Version := { raw := "0-SNAPSHOT".toList, core := [0], qualifier := "SNAPSHOT".toList,
                         snapshot := true, build := none }

theorem grade_lt_iff : a.grade < b.grade ↔
    a.rank.key < b.rank.key ∨ a.rank.key = b.rank.key ∧ a.build.getD 0 < b.build.getD 0 :=
  Prod.Lex.toLex_lt_toLex

theorem Behind.of_grade_le (h : x.Behind a) (hab : a.grade ≤ b.grade) : x.Behind b := by
  rcases Prod.Lex.toLex_le_toLex.1 hab with hk | ⟨hk, hc⟩
  · exact .inl (lt_of_le_of_lt (Rank.Behind.key_le h) hk)
  · dsimp only at hk hc
    rcases h with h | ⟨hx, m, hm, n, hn, hmn⟩
    · exact .inl (hk ▸ h)
    · change n ∈ a.build at hn
      rw [Option.mem_def] at hn
      rw [hn, Option.getD_some] at hc
      cases hb : b.build with
      | none =>
        rw [hb, Option.getD_none] at hc
        omega
      | some p =>
        rw [hb, Option.getD_some] at hc
        exact .inr ⟨hx.trans hk, m, hm, p, hb, by omega⟩

/-- Below a higher grade there is a version that is not below a lower one. -/
theorem exists_behind_of_grade_lt (h : a.grade < b.grade) :
    ∃ x : Version, x.Behind b ∧ ¬ x.Behind a := by
  rcases grade_lt_iff.1 h with hk | ⟨hk, hc⟩
  · exact ⟨a, .inl hk, not_behind_self a⟩
  · cases hb : b.build with
    | none =>
      rw [hb, Option.getD_none] at hc
      omega
    | some n =>
      rw [hb, Option.getD_some] at hc
      refine ⟨{ b with build := some (a.build.getD 0) }, ?_, ?_⟩
      · exact .inr ⟨rfl, _, rfl, n, hb, hc⟩
      · rintro (hlt | ⟨-, m, hm, n', hn', hmn⟩)
        · exact lt_irrefl _ (hk ▸ hlt : b.rank.key < b.rank.key)
        · cases hm
          change n' ∈ a.build at hn'
          rw [Option.mem_def] at hn'
          rw [hn', Option.getD_some] at hmn
          omega

theorem Behind.grade_lt (h : a.Behind b) : a.grade < b.grade := by
  refine grade_lt_iff.2 (h.imp_right ?_)
  rintro ⟨hk, m, hm, n, hn, hmn⟩
  refine ⟨hk, ?_⟩
  change m ∈ a.build at hm
  change n ∈ b.build at hn
  rw [Option.mem_def] at hm hn
  rw [hm, hn]
  exact hmn

theorem least_grade_le (v : Version) : least.grade ≤ v.grade := by
  by_contra hlt
  rcases grade_lt_iff.1 (not_le.1 hlt) with hk | ⟨-, hc⟩
  · rcases Prod.Lex.toLex_lt_toLex.1 hk with hk | ⟨-, hk⟩
    · exact List.not_lt_nil _ hk
    · exact absurd (Bool.lt_iff.1 hk).2 (by decide)
  · exact Nat.not_lt_zero _ hc

theorem not_behind_of_grade_eq_least (h : b.grade = least.grade) : ¬ a.Behind b :=
  fun hab => absurd (h ▸ hab.grade_lt) (not_lt.2 (least_grade_le a))

theorem exists_behind_of_grade_ne_least (h : b.grade ≠ least.grade) : ∃ x : Version, x.Behind b :=
  (exists_behind_of_grade_lt (lt_of_le_of_ne (least_grade_le b) h.symm)).imp fun _ hx => hx.1

end Version

section

variable (cfg : Config) (o o' : Oracle)

/-- Calls that are answered with `None`: by what they ask, and of a listing the pages. -/
structure Lost where
  commits : Repo → Text → Bool := fun _ _ => false
  changes : Repo → Text → Bool := fun _ _ => false
  file : Repo → Text → Text → Bool := fun _ _ _ => false
  pages : Repo → ℕ → Bool := fun _ _ => false

/-- The repository without these answers. -/
def Oracle.without (lost : Lost) : Oracle where
  commits repo path := if lost.commits repo path then none else o.commits repo path
  changes repo id := if lost.changes repo id then none else o.changes repo id
  file repo path ref := if lost.file repo path ref then none else o.file repo path ref
  pages repo := (o.pages repo).mapIdx fun i page => if lost.pages repo i then none else page

/-- Whatever ran when the packet failed and whatever runs now, the verdict under `o'` is the one
under `o` or `UNKNOWN`. -/
def Weakens (failure : Failure) (failedAt : Option ℤ) : Prop :=
  ∀ baselines runnings,
    (evaluate cfg o' failure failedAt baselines runnings).verdict =
        (evaluate cfg o failure failedAt baselines runnings).verdict ∨
      (evaluate cfg o' failure failedAt baselines runnings).verdict = .unknown

/-- What failed reads may do to what is established: leave nothing decided (no file to ask about, a
file that cannot be read, no candidate resolved, only the least of all versions required), or leave
it as it was (no change; only changes in no version yet; a required version of the same grade). -/
inductive Spared : Standing → Standing → Prop
  | unknown {s : Standing} : Spared s .unknown
  | unresolved {s : Standing} : Spared s (.changed .unreadable)
  | least {s : Standing} {required : Text} {v : Version} : parse cfg.pattern required = some v →
      v.grade = Version.least.grade → Spared s (.changed (.version required))
  | noChange : Spared .noChange .noChange
  | uncut : Spared (.changed .uncut) (.changed .uncut)
  | version {required required' : Text} {v v' : Version} : parse cfg.pattern required = some v →
      parse cfg.pattern required' = some v' → v.grade = v'.grade →
      Spared (.changed (.version required)) (.changed (.version required'))

end

/-! ## The comparison as a function of the version required -/

section

variable {cfg : Config}

/-- Where the version required parses, the end of the check compares ranks. -/
theorem conclude_verdict_eq {required : Text} {v : Version}
    (hv : parse cfg.pattern required = some v) (baseline running : Option Version) :
    (conclude cfg [] required baseline running {}).verdict =
      match running, baseline with
      | none, _ => .unknown
      | some w, none => if w.Behind v then .notDeployed else .unknown
      | some w, some b =>
        if b.Behind v then (if w.Behind v then .notDeployed else .fixDeployed) else .unknown := by
  unfold conclude
  cases running with
  | none => rfl
  | some w =>
    have hat : atLeast cfg.pattern (.parsed w) (.text required) = some (decide ¬ w.Behind v) :=
      atLeast_of_read rfl hv
    cases baseline with
    | none =>
      by_cases hw : w.Behind v
      · simp [hat, hw]
      · simp [hat, hw, unknown]
    | some b =>
      have hahead : isAhead cfg.pattern (.text required) (.parsed b) = some (decide (b.Behind v)) :=
        isAhead_of_read hv rfl
      by_cases hb : b.Behind v
      · by_cases hw : w.Behind v
        · simp [hat, hahead, Option.filter, hb, hw]
        · simp [hat, hahead, Option.filter, hb, hw]
      · simp [hahead, Option.filter, hb, unknown]

def Standing.Parses (cfg : Config) (s : Standing) : Prop :=
  ∀ required, s = .changed (.version required) → ∃ v, parse cfg.pattern required = some v

theorem standingOf_parses {o : Oracle} {probes : List FrameProbe} :
    (standingOf cfg o probes).Parses cfg := by
  intro required h
  unfold standingOf at h
  split at h
  · cases h
  split at h
  · cases h
  split at h
  · cases h
  split at h
  · simp only [Standing.changed.injEq] at h
    obtain ⟨e, -, he⟩ := List.mem_map.1 (requiredBy_version cfg h).1
    exact parse_of_firstContaining he
  · cases h

theorem standing_parses {o : Oracle} {failure : Failure} {failedAt : Option ℤ} :
    (standing cfg o failure failedAt).Parses cfg := by
  unfold standing
  split
  · exact standingOf_parses
  · intro required h
    cases h

/-- The verdict under a standing is at most weakened under another, whatever ran and runs. -/
def Standing.WeakensTo (cfg : Config) (s s' : Standing) : Prop :=
  ∀ baseline running, s'.verdict cfg baseline running = s.verdict cfg baseline running ∨
    s'.verdict cfg baseline running = .unknown

theorem Spared.weakensTo {s s' : Standing} (h : Spared cfg s s') : s.WeakensTo cfg s' := by
  intro baseline running
  cases h with
  | unknown | unresolved => exact .inr rfl
  | noChange | uncut => exact .inl rfl
  | least hv hg =>
    refine .inr ?_
    rw [Standing.verdict, conclude_verdict_eq hv]
    cases running with
    | none => rfl
    | some w =>
      cases baseline with
      | none => exact if_neg (Version.not_behind_of_grade_eq_least hg)
      | some b => exact if_neg (Version.not_behind_of_grade_eq_least hg)
  | version hv hv' hg =>
    refine .inl ?_
    have hsame : ∀ x : Version, x.Behind _ ↔ x.Behind _ := fun x =>
      ⟨fun h => h.of_grade_le hg.ge, fun h => h.of_grade_le hg.le⟩
    rw [Standing.verdict, Standing.verdict, conclude_verdict_eq hv, conclude_verdict_eq hv']
    simp only [hsame]

/-- A version required that some version is behind of can be told from everything but its grade. -/
theorem spared_of_version {s : Standing} (hs : s.Parses cfg) {required' : Text} {v' : Version}
    (hv' : parse cfg.pattern required' = some v')
    (h : s.WeakensTo cfg (.changed (.version required'))) :
    Spared cfg s (.changed (.version required')) := by
  by_cases hleast : v'.grade = Version.least.grade
  · exact .least hv' hleast
  obtain ⟨b, hb⟩ := Version.exists_behind_of_grade_ne_least hleast
  have hnot : ∀ w, w.Behind v' →
      Standing.verdict cfg none (some w) (.changed (.version required')) = .notDeployed := by
    intro w hw
    rw [Standing.verdict, conclude_verdict_eq hv']
    exact if_pos hw
  have hfix : ∀ w, ¬ w.Behind v' →
      Standing.verdict cfg (some b) (some w) (.changed (.version required')) = .fixDeployed := by
    intro w hw
    rw [Standing.verdict, conclude_verdict_eq hv']
    simp only [hb, if_true, hw, if_false]
  cases s with
  | unknown | noChange =>
    have := h none (some b)
    rw [hnot b hb] at this
    rcases this with h | h <;> cases h
  | changed required =>
    cases required with
    | unreadable =>
      have := h none (some b)
      rw [hnot b hb] at this
      rcases this with h | h <;> cases h
    | uncut =>
      have := h (some b) (some v')
      rw [hfix v' (Version.not_behind_self v')] at this
      rcases this with h | h <;> cases h
    | version required =>
      obtain ⟨v, hv⟩ := hs required rfl
      rcases lt_trichotomy v.grade v'.grade with hlt | heq | hgt
      · -- a build behind `v'` and not behind `v` runs, and no failing build is known
        obtain ⟨x, hx', hx⟩ := Version.exists_behind_of_grade_lt hlt
        have := h none (some x)
        rw [hnot x hx', Standing.verdict, conclude_verdict_eq hv] at this
        simp only [hx, if_false] at this
        rcases this with h | h <;> cases h
      · exact .version hv hv' heq
      · -- a build behind `v` and not behind `v'` runs, and the failing one was behind both
        obtain ⟨x, hx, hx'⟩ := Version.exists_behind_of_grade_lt hgt
        have := h (some b) (some x)
        rw [hfix x hx', Standing.verdict, conclude_verdict_eq hv] at this
        simp only [hb.of_grade_le hgt.le, hx, if_true] at this
        rcases this with h | h <;> cases h

theorem spared_of_weakensTo {s s' : Standing} (hs : s.Parses cfg) (hs' : s'.Parses cfg)
    (h : s.WeakensTo cfg s') : Spared cfg s s' := by
  cases s' with
  | unknown => exact .unknown
  | noChange =>
    have := h none none
    cases s with
    | unknown => rcases this with h | h <;> cases h
    | noChange => exact .noChange
    | changed required => cases required <;> rcases this with h | h <;> cases h
  | changed required' =>
    cases required' with
    | unreadable => exact .unresolved
    | uncut =>
      have := h none none
      cases s with
      | unknown | noChange => rcases this with h | h <;> cases h
      | changed required =>
        cases required with
        | uncut => exact .uncut
        | _ => rcases this with h | h <;> cases h
    | version required' =>
      obtain ⟨v', hv'⟩ := hs' required' rfl
      exact spared_of_version hs hv' h

/-- Every reading of versions, or none, is the reading of some list. -/
theorem exists_lowest (pattern : Option Pattern) (version : Option Version) :
    ∃ values, lowest pattern values = version := by
  cases version with
  | none => exact ⟨[], rfl⟩
  | some v => exact ⟨[.parsed v], rfl⟩

theorem weakens_iff_weakensTo {o o' : Oracle} {failure : Failure} {failedAt : Option ℤ} :
    Weakens cfg o o' failure failedAt ↔
      (standing cfg o failure failedAt).WeakensTo cfg (standing cfg o' failure failedAt) := by
  unfold Weakens Standing.WeakensTo
  constructor
  · intro h baseline running
    obtain ⟨baselines, rfl⟩ := exists_lowest cfg.pattern baseline
    obtain ⟨runnings, rfl⟩ := exists_lowest cfg.pattern running
    have := h baselines runnings
    rwa [evaluate_verdict, evaluate_verdict] at this
  · intro h baselines runnings
    rw [evaluate_verdict, evaluate_verdict]
    exact h _ _

/-- Reads only weaken the verdict exactly where they spare what is established. -/
theorem weakens_iff_spared {o o' : Oracle} {failure : Failure} {failedAt : Option ℤ} :
    Weakens cfg o o' failure failedAt ↔
      Spared cfg (standing cfg o failure failedAt) (standing cfg o' failure failedAt) :=
  weakens_iff_weakensTo.trans
    ⟨spared_of_weakensTo standing_parses standing_parses, Spared.weakensTo⟩

end

/-! ## What is read -/

section

variable (cfg : Config) (o : Oracle) (failure : Failure) (failedAt : Option ℤ)

/-- The pages of a listing that are read: none from one on that is not answered, and none once there
are `maxListedFiles` files. -/
def pagesRead (pages : List (Option (List Text))) : List (List Text) :=
  let answered := (pages.takeWhile Option.isSome).reduceOption
  (answered.inits.find? fun read => maxListedFiles ≤ read.flatten.length).getD answered

/-- The path that ends in a suffix, as far as the reads tell: under the first source root where the
file is read, else the only one that is listed. -/
def pathRead (repo : Repo) (suffix : Text) : Option Text :=
  let listed := if cfg.cloud then [] else (pagesRead (o.pages repo)).flatten
  let ending := listed.filter (suffix.isSuffixOf ·)
  ((rootedPaths repo suffix).find? fun path => (o.file repo path repo.branch).isSome).or
    (if ending.length = 1 then ending.head? else none)

/-- The frames that have a file, each with its repository and path. -/
def mappedFrames (locations : List FrameLocation) : List (Text × Repo × Text) :=
  locations.filterMap fun location =>
    if location.sourcePathSuffix = [] then none
    else (frameRepo cfg location.classFqcn).bind fun repo =>
      (pathRead cfg o repo location.sourcePathSuffix).map fun path =>
        (location.target, repo, path)

/-- The files of the frames that are examined. -/
def frameFiles : List (Repo × Text) :=
  (mappedFrames cfg o (failure.located.take cfg.frames)).map Prod.snd

/-- The commits of a path since the failure, asked of the repository of the first file under it. -/
def commitsOf (files : List (Repo × Text)) (path : Text) : Option (List Commit) :=
  (files.find? (·.2 = path)).bind fun file =>
    (o.commits file.1 path).map (·.filter (keptSince failedAt))

def commitsRead (path : Text) : Option (List Commit) :=
  commitsOf o failedAt (frameFiles cfg o failure) path

def changedFiles : List (Repo × Text) :=
  (frameFiles cfg o failure).filter fun file =>
    (commitsRead cfg o failure failedAt file.2).getD [] ≠ []

/-- The commits that are looked at: of each changed file the newest, and each id once. -/
def lookedAt : List Commit :=
  (keepFirst [] ((changedFiles cfg o failure failedAt).flatMap fun file =>
    (((commitsRead cfg o failure failedAt file.2).getD []).take cfg.maxCandidates).map
      (file.2, ·))).map Prod.snd

/-- The version that the version file holds at a commit. -/
def declaredAt (repo : Repo) (ref : Text) : Option Text := do
  let text ← o.file repo repo.versionFile (orElse ref repo.branch)
  let version ← cfg.declaredIn repo.versionFile text
  if (parse cfg.pattern version).isSome then some version else none

/-- The version a commit is in, if it is in one yet, where every read it takes to know is answered:
the change set, and the version file at the commit or at the first later one that touched it. -/
def containing (repo : Repo) (c : Commit) : Option (Option Text) :=
  if c.id = [] then none
  else do
    let changed ← o.changes repo c.id
    if touchesVersionFile changed repo.versionFile then (declaredAt cfg o repo c.id).map some
    else do
      let touches ← o.commits repo repo.versionFile
      match (touches.filter (keptSince c.timestampMs)).getLast? with
      | none => some none
      | some oldest => (declaredAt cfg o repo oldest.id).map some

/-- The versions of the commits that are looked at, as far as they are in one. -/
def versionsRead (repo : Repo) : List Text :=
  (lookedAt cfg o failure failedAt).filterMap fun c => (containing cfg o repo c).join

/-- The check stops before it asks for versions: it is off, no frame has a file, a file's commits
are not read, or changed files are in several repositories. -/
def Stops : Prop :=
  ¬ Checks cfg failure ∨ frameFiles cfg o failure = [] ∨
    (∃ file ∈ frameFiles cfg o failure, commitsRead cfg o failure failedAt file.2 = none) ∨
    ∃ file ∈ changedFiles cfg o failure failedAt, ∃ other ∈ changedFiles cfg o failure failedAt,
      file.1.slug ≠ other.1.slug

/-- Every frame's file is read, and none has changed. -/
def Unchanged : Prop :=
  Checks cfg failure ∧ frameFiles cfg o failure ≠ [] ∧
    ∀ file ∈ frameFiles cfg o failure, commitsRead cfg o failure failedAt file.2 = some []

/-- Every frame's file is read, and those that changed are in one repository. -/
structure Asks (repo : Repo) : Prop where
  checks : Checks cfg failure
  read : ∀ file ∈ frameFiles cfg o failure, commitsRead cfg o failure failedAt file.2 ≠ none
  first : (changedFiles cfg o failure failedAt).head?.map Prod.fst = some repo
  alone : ∀ file ∈ changedFiles cfg o failure failedAt, file.1.slug = repo.slug

/-- No commit that is looked at is in a version, and one is known to be in none. -/
def Uncut (repo : Repo) : Prop :=
  versionsRead cfg o failure failedAt repo = [] ∧
    ∃ c ∈ lookedAt cfg o failure failedAt, containing cfg o repo c = some none

/-- The highest version that a commit looked at is in, the first of those that tie. -/
def Highest (repo : Repo) (v : Version) : Prop :=
  ∃ first rest, versionsRead cfg o failure failedAt repo = first :: rest ∧
    parse cfg.pattern (pick (Ahead cfg) first rest) = some v

end

/-- What failed reads may do: stop the check; leave no commit with its reads, or none in a version
that a build can be behind of; or change nothing of what is found: no change, only changes in no
version, or the highest version of a grade. -/
inductive Harmless (cfg : Config) (o o' : Oracle) (failure : Failure) (failedAt : Option ℤ) : Prop
  | stops : Stops cfg o' failure failedAt → Harmless cfg o o' failure failedAt
  | unread {repo : Repo} : Asks cfg o' failure failedAt repo →
      (∀ c ∈ lookedAt cfg o' failure failedAt, containing cfg o' repo c = none) →
      Harmless cfg o o' failure failedAt
  | least {repo : Repo} {v : Version} : Asks cfg o' failure failedAt repo →
      Highest cfg o' failure failedAt repo v → v.grade = Version.least.grade →
      Harmless cfg o o' failure failedAt
  | unchanged : Unchanged cfg o failure failedAt → Unchanged cfg o' failure failedAt →
      Harmless cfg o o' failure failedAt
  | uncut {repo repo' : Repo} : Asks cfg o failure failedAt repo →
      Asks cfg o' failure failedAt repo' → Uncut cfg o failure failedAt repo →
      Uncut cfg o' failure failedAt repo' → Harmless cfg o o' failure failedAt
  | version {repo repo' : Repo} {v v' : Version} : Asks cfg o failure failedAt repo →
      Asks cfg o' failure failedAt repo' → Highest cfg o failure failedAt repo v →
      Highest cfg o' failure failedAt repo' v' → v.grade = v'.grade →
      Harmless cfg o o' failure failedAt

/-! ## The check by its reads -/

section

variable {cfg : Config} {o o' : Oracle} {failure : Failure} {failedAt : Option ℤ}

theorem versionFile_ne_nil {classFqcn : Text} {repo : Repo}
    (h : frameRepo cfg classFqcn = some repo) : repo.versionFile ≠ [] := by
  have hfor : ∀ repo, cfg.repoFor classFqcn = some repo → repo.versionFile ≠ [] := by
    intro repo h
    unfold Config.repoFor at h
    split at h
    · cases h
    simp only [Option.bind_eq_bind, Option.bind_eq_some_iff] at h
    obtain ⟨⟨_, spec⟩, -, h⟩ := h
    dsimp only at h
    by_cases hnames : Text.strip spec.project = [] ∨ Text.strip spec.repo = []
    · rw [if_pos hnames] at h
      cases h
    · rw [if_neg hnames] at h
      obtain rfl := Option.some.inj h
      unfold orElse
      dsimp only
      split
      · decide
      · assumption
  obtain ⟨repo', hrepo', rfl⟩ := Option.map_eq_some_iff.1 h
  have hne := hfor repo' hrepo'
  split
  · split
    · exact hne
    · exact hne
  · exact hne

theorem path_ne_nil {repo : Repo} {pathSuffix path : Text}
    (h : resolvePath cfg o repo pathSuffix = some path) : path ≠ [] := by
  unfold resolvePath at h
  split at h
  · cases h
  next hsuffix =>
  split at h
  · next found hfound =>
    obtain rfl := Option.some.inj h
    have hread := List.find?_some hfound
    rintro rfl
    cases hread
  · split at h
    · next found hfound =>
      obtain rfl := Option.some.inj h
      have hmem : found ∈ (listFiles cfg o repo).filter (pathSuffix.isSuffixOf ·) :=
        hfound ▸ List.mem_singleton_self found
      rintro rfl
      exact hsuffix (List.suffix_nil.1 (List.isSuffixOf_iff_suffix.1 (List.mem_filter.1 hmem).2))
    · cases h

theorem resolveFrame_ok {location : FrameLocation} {repo : Repo} {path : Text}
    (h : resolveFrame cfg o location = .ok (repo, path)) : path ≠ [] ∧ repo.versionFile ≠ [] := by
  unfold resolveFrame at h
  split at h
  · cases h
  next hrepo =>
  split at h
  · cases h
  next hpath =>
  obtain ⟨rfl, rfl⟩ := Prod.mk.inj (Except.ok.inj h)
  exact ⟨path_ne_nil hpath, versionFile_ne_nil hrepo⟩

theorem collectPages_eq (paths : List Text) (pages : List (Option (List Text))) :
    collectPages paths pages = paths ++
      (((pages.takeWhile Option.isSome).reduceOption.inits.find? fun read =>
        maxListedFiles ≤ paths.length + read.flatten.length).getD
          (pages.takeWhile Option.isSome).reduceOption).flatten := by
  induction pages generalizing paths with
  | nil => by_cases hfull : maxListedFiles ≤ paths.length <;> simp [collectPages, hfull]
  | cons page pages ih =>
    cases page with
    | none => by_cases hfull : maxListedFiles ≤ paths.length <;> simp [collectPages, hfull]
    | some values =>
      rw [collectPages, List.takeWhile_cons_of_pos rfl, List.reduceOption_cons_of_some,
        List.inits_cons]
      by_cases hfull : paths.length < maxListedFiles
      · have hlater : ((fun read : List (List Text) =>
            decide (maxListedFiles ≤ paths.length + read.flatten.length)) ∘ (values :: ·)) =
              fun read => decide (maxListedFiles ≤ (paths ++ values).length + read.flatten.length) := by
          funext read
          simp [Nat.add_assoc]
        rw [if_pos hfull, ih, List.find?_cons_of_neg (by simpa using hfull), List.find?_map, hlater,
          Option.getD_map (values :: ·), List.flatten_cons, List.append_assoc]
      · rw [if_neg hfull, List.find?_cons_of_pos (by simpa using hfull)]
        simp

theorem listFiles_eq_pagesRead (repo : Repo) :
    listFiles cfg o repo = if cfg.cloud then [] else (pagesRead (o.pages repo)).flatten := by
  unfold listFiles pagesRead
  rw [collectPages_eq]
  simp

theorem resolvePath_eq_pathRead {repo : Repo} {suffix : Text} (h : suffix ≠ []) :
    resolvePath cfg o repo suffix = pathRead cfg o repo suffix := by
  have hread : ∀ path ∈ rootedPaths repo suffix, (fileAt o repo path []).isSome =
      (o.file repo path repo.branch).isSome := by
    intro path hpath
    obtain ⟨root, -, rfl⟩ := List.mem_map.1 hpath
    rw [fileAt, if_neg]
    · rfl
    · split
      · exact h
      · simp
  unfold resolvePath pathRead
  rw [if_neg h, List.find?_congr hread, listFiles_eq_pagesRead]
  dsimp only
  cases (rootedPaths repo suffix).find? fun path => (o.file repo path repo.branch).isSome with
  | some path => rfl
  | none =>
    rw [Option.none_or]
    dsimp only
    split
    · next path heq => rw [heq]; rfl
    · next hother =>
      rw [if_neg]
      rw [List.length_eq_one_iff]
      rintro ⟨path, heq⟩
      exact hother path heq

theorem mappedFrames_eq (locations : List FrameLocation) :
    mappedFrames cfg o locations = locations.filterMap fun location =>
      (resolveFrame cfg o location).toOption.map (location.target, ·) := by
  refine List.filterMap_congr fun location _ => ?_
  unfold resolveFrame
  by_cases hsuffix : location.sourcePathSuffix = []
  · rw [if_pos hsuffix]
    cases frameRepo cfg location.classFqcn with
    | none => rfl
    | some repo => simp [hsuffix, resolvePath, Except.toOption]
  · rw [if_neg hsuffix]
    cases frameRepo cfg location.classFqcn with
    | none => rfl
    | some repo =>
      dsimp only
      rw [resolvePath_eq_pathRead hsuffix, Option.bind_some]
      cases pathRead cfg o repo location.sourcePathSuffix with
      | none => rfl
      | some path => rfl

theorem mappedFrames_cons_error {location : FrameLocation} {reason : FrameReason}
    (h : resolveFrame cfg o location = .error reason) (locations : List FrameLocation) :
    mappedFrames cfg o (location :: locations) = mappedFrames cfg o locations := by
  rw [mappedFrames_eq, mappedFrames_eq, List.filterMap_cons_none (by rw [h]; rfl)]

theorem mappedFrames_cons_ok {location : FrameLocation} {file : Repo × Text}
    (h : resolveFrame cfg o location = .ok file) (locations : List FrameLocation) :
    mappedFrames cfg o (location :: locations) =
      (location.target, file) :: mappedFrames cfg o locations := by
  rw [mappedFrames_eq, mappedFrames_eq, List.filterMap_cons_some (by rw [h]; rfl)]

/-- The probes that are mapped are the frames' files with their commits. -/
theorem filter_probePath (locations : List FrameLocation)
    (seen : List (Text × Option (List Commit))) :
    (probePath cfg o failedAt seen locations).filter FrameProbe.isMapped =
      (mappedFrames cfg o locations).map fun frame =>
        .mapped frame.1 frame.2.1 frame.2.2 ((seen.lookup frame.2.2).getD
          (commitsOf o failedAt ((mappedFrames cfg o locations).map Prod.snd) frame.2.2)) := by
  induction locations generalizing seen with
  | nil => rfl
  | cons location locations ih =>
    unfold probePath
    cases hframe : resolveFrame cfg o location with
    | error reason =>
      rw [mappedFrames_cons_error hframe]
      exact ih seen
    | ok file =>
      obtain ⟨repo, path⟩ := file
      have hpath := (resolveFrame_ok hframe).1
      rw [mappedFrames_cons_ok hframe, List.map_cons, List.map_cons]
      have hhead : commitsOf o failedAt
          ((repo, path) :: (mappedFrames cfg o locations).map Prod.snd) path =
            commitsTouching o repo path failedAt := by
        rw [commitsOf, List.find?_cons_of_pos (by simp), commitsTouching, if_neg hpath]
        rfl
      have htail : ∀ other, other ≠ path → commitsOf o failedAt
          ((repo, path) :: (mappedFrames cfg o locations).map Prod.snd) other =
            commitsOf o failedAt ((mappedFrames cfg o locations).map Prod.snd) other := by
        intro other hother
        rw [commitsOf, List.find?_cons_of_neg (by simpa using hother.symm), commitsOf]
      -- a path that was seen before keeps the commits it was seen with
      have hagree : ∀ (seen' : List (Text × Option (List Commit))),
          (∀ other, (seen'.lookup other).getD
              (commitsOf o failedAt ((mappedFrames cfg o locations).map Prod.snd) other) =
            (seen.lookup other).getD (commitsOf o failedAt
              ((repo, path) :: (mappedFrames cfg o locations).map Prod.snd) other)) →
          (probePath cfg o failedAt seen' locations).filter FrameProbe.isMapped =
            (mappedFrames cfg o locations).map fun frame =>
              .mapped frame.1 frame.2.1 frame.2.2 ((seen.lookup frame.2.2).getD
                (commitsOf o failedAt
                  ((repo, path) :: (mappedFrames cfg o locations).map Prod.snd) frame.2.2)) := by
        intro seen' h
        rw [ih seen']
        exact List.map_congr_left fun frame _ => by rw [h]
      dsimp only
      cases hseen : seen.lookup path with
      | some commits =>
        rw [List.filter_cons_of_pos rfl, hagree seen]
        · rw [Option.getD_some]
        · intro other
          by_cases hother : other = path
          · rw [hother, hseen]
            rfl
          · rw [htail other hother]
      | none =>
        rw [List.filter_cons_of_pos rfl, hagree]
        · rw [Option.getD_none, hhead]
        · intro other
          by_cases hother : other = path
          · rw [hother, hseen, Option.getD_none, hhead, List.lookup_cons_self, Option.getD_some]
          · rw [htail other hother, List.lookup_cons, beq_false_of_ne hother]

/-- The probe of a frame that has a file. -/
def FrameProbe.ofRead (cfg : Config) (o : Oracle) (failure : Failure) (failedAt : Option ℤ)
    (frame : Text × Repo × Text) : FrameProbe :=
  .mapped frame.1 frame.2.1 frame.2.2 (commitsRead cfg o failure failedAt frame.2.2)

theorem filter_callPath : (callPath cfg o failure failedAt).filter FrameProbe.isMapped =
    (mappedFrames cfg o (failure.located.take cfg.frames)).map
      (.ofRead cfg o failure failedAt) :=
  filter_probePath _ []

theorem changedProbes_callPath : changedProbes (callPath cfg o failure failedAt) =
    ((mappedFrames cfg o (failure.located.take cfg.frames)).filter fun frame =>
      (commitsRead cfg o failure failedAt frame.2.2).getD [] ≠ []).map
        (.ofRead cfg o failure failedAt) := by
  have hfound : ∀ frame, (FrameProbe.ofRead cfg o failure failedAt frame).commitsFound =
      (commitsRead cfg o failure failedAt frame.2.2).getD [] := by
    intro frame
    unfold FrameProbe.ofRead
    cases commitsRead cfg o failure failedAt frame.2.2 with
    | none => rfl
    | some commits => rfl
  unfold changedProbes
  rw [filter_callPath, List.filter_map]
  refine congrArg _ (List.filter_congr fun frame _ => ?_)
  rw [Function.comp_apply, hfound]

theorem changedFiles_eq : changedFiles cfg o failure failedAt =
    ((mappedFrames cfg o (failure.located.take cfg.frames)).filter fun frame =>
      (commitsRead cfg o failure failedAt frame.2.2).getD [] ≠ []).map Prod.snd := by
  unfold changedFiles frameFiles
  rw [List.filter_map]
  rfl

theorem filterMap_repo? : (changedProbes (callPath cfg o failure failedAt)).filterMap
    FrameProbe.repo? = (changedFiles cfg o failure failedAt).map Prod.fst := by
  rw [changedProbes_callPath, changedFiles_eq, List.filterMap_map, List.map_map]
  exact congrFun List.filterMap_eq_map _

theorem changedRepo_callPath : changedRepo (callPath cfg o failure failedAt) =
    (changedFiles cfg o failure failedAt).head?.map Prod.fst := by
  unfold changedRepo
  rw [changedProbes_callPath, changedFiles_eq, List.head?_map, List.head?_map]
  generalize ((mappedFrames cfg o (failure.located.take cfg.frames)).filter _).head? = frame
  cases frame with
  | none => rfl
  | some frame => rfl

theorem changedProbes_eq_nil : changedProbes (callPath cfg o failure failedAt) = [] ↔
    changedFiles cfg o failure failedAt = [] := by
  rw [changedProbes_callPath, changedFiles_eq, List.map_eq_nil_iff, List.map_eq_nil_iff]

theorem examined_callPath :
    (examined cfg (changedProbes (callPath cfg o failure failedAt))).map Prod.snd =
      lookedAt cfg o failure failedAt := by
  unfold examined lookedAt
  rw [changedProbes_callPath, changedFiles_eq, List.flatMap_map, List.flatMap_map]
  refine congrArg (fun entries => (keepFirst [] entries).map Prod.snd)
    (congrArg List.flatten (List.map_congr_left fun frame _ => ?_))
  unfold FrameProbe.ofRead
  cases commitsRead cfg o failure failedAt frame.2.2 with
  | none => rfl
  | some commits => rfl

/-- What the check makes of what is read of a commit. -/
def Containing.ofRead : Option (Option Text) → Containing
  | none => .unreadable
  | some none => .uncut
  | some (some text) => .version text

theorem versionAt_eq {repo : Repo} (hfile : repo.versionFile ≠ []) (ref : Text) :
    versionAt cfg o repo ref = declaredAt cfg o repo ref := by
  unfold versionAt declaredAt fileAt
  rw [if_neg hfile]

theorem firstContainingVersion_eq {repo : Repo} (hfile : repo.versionFile ≠ []) (c : Commit) :
    (firstContainingVersion cfg o repo c).1 = .ofRead (containing cfg o repo c) := by
  unfold firstContainingVersion containing changedPaths commitsTouching
  rw [if_neg hfile]
  by_cases hid : c.id = []
  · rw [if_pos hid, if_pos hid]
    rfl
  rw [if_neg hid, if_neg hid]
  cases o.changes repo c.id with
  | none => rfl
  | some changed =>
    simp only [Option.bind_eq_bind, Option.bind_some, versionAt_eq hfile]
    split
    · cases declaredAt cfg o repo c.id with
      | none => rfl
      | some text => rfl
    · cases o.commits repo repo.versionFile with
      | none => rfl
      | some touches =>
        simp only [Option.map_some, Option.bind_some]
        cases (touches.filter (keptSince c.timestampMs)).getLast? with
        | none => rfl
        | some oldest =>
          dsimp only
          cases declaredAt cfg o repo oldest.id with
          | none => rfl
          | some text => rfl

end

/-! ## What is established, by the reads -/

section

variable {cfg : Config} {o : Oracle} {failure : Failure} {failedAt : Option ℤ}

theorem mapped_eq_nil_iff : (callPath cfg o failure failedAt).filter FrameProbe.isMapped = [] ↔
    frameFiles cfg o failure = [] := by
  rw [filter_callPath, frameFiles, List.map_eq_nil_iff, List.map_eq_nil_iff]

theorem unread_ne_nil_iff :
    ((callPath cfg o failure failedAt).filter FrameProbe.isMapped).filter
        FrameProbe.isUnreadable ≠ [] ↔
      ∃ file ∈ frameFiles cfg o failure, commitsRead cfg o failure failedAt file.2 = none := by
  have hunread : ∀ frame, (FrameProbe.ofRead cfg o failure failedAt frame).isUnreadable = true ↔
      commitsRead cfg o failure failedAt frame.2.2 = none := by
    intro frame
    unfold FrameProbe.ofRead
    cases commitsRead cfg o failure failedAt frame.2.2 with
    | none => exact iff_of_true rfl rfl
    | some commits => exact iff_of_false Bool.false_ne_true (Option.some_ne_none commits)
  rw [filter_callPath, Ne, List.filter_eq_nil_iff]
  push Not
  simp only [List.mem_map, frameFiles, exists_exists_and_eq_and, hunread]

/-- The changed files are in the repository of the first. -/
theorem slugs_eq_singleton_iff {repo : Repo}
    (h : (changedFiles cfg o failure failedAt).head?.map Prod.fst = some repo) :
    (∃ slug, (((changedFiles cfg o failure failedAt).map Prod.fst).map Repo.slug).dedup = [slug]) ↔
      ∀ file ∈ changedFiles cfg o failure failedAt, file.1.slug = repo.slug := by
  generalize changedFiles cfg o failure failedAt = files at h
  cases files with
  | nil => cases h
  | cons first rest =>
    obtain rfl := Option.some.inj h
    constructor
    · rintro ⟨slug, hslug⟩ file hfile
      have hmem : ∀ file ∈ first :: rest, file.1.slug = slug := by
        intro file hfile
        rw [← List.mem_singleton, ← hslug, List.mem_dedup]
        exact List.mem_map_of_mem (List.mem_map_of_mem hfile)
      rw [hmem file hfile, hmem first List.mem_cons_self]
    · intro hsame
      refine ⟨first.1.slug, ?_⟩
      have hslugs : ∀ slug ∈ ((first :: rest).map Prod.fst).map Repo.slug,
          slug = first.1.slug := by
        intro slug hslug
        obtain ⟨_, hrepo, rfl⟩ := List.mem_map.1 hslug
        obtain ⟨file, hfile, rfl⟩ := List.mem_map.1 hrepo
        exact hsame file hfile
      rw [List.eq_replicate_of_mem hslugs]
      exact List.replicate_dedup (Nat.succ_ne_zero _)

theorem standing_of_stops (h : Stops cfg o failure failedAt) :
    standing cfg o failure failedAt = .unknown := by
  unfold standing
  split
  swap
  · rfl
  next hchecks =>
  unfold standingOf
  rcases h with h | h | h | ⟨file, hfile, other, hother, hslug⟩
  · exact absurd hchecks h
  · rw [if_pos (mapped_eq_nil_iff.2 h)]
  · rw [if_pos (unread_ne_nil_iff.2 h), ite_self]
  · split
    · rfl
    split
    · rfl
    split
    · next hchanged => exact absurd (changedProbes_eq_nil.1 hchanged) (List.ne_nil_of_mem hfile)
    · next first rest hchanged =>
      split
      · next repo slug hrepo hslugs =>
        have hhead : (changedFiles cfg o failure failedAt).head?.map Prod.fst = some repo := by
          rw [← changedRepo_callPath, changedRepo, hchanged]
          exact hrepo
        rw [← hchanged, filterMap_repo?] at hslugs
        have hsame := (slugs_eq_singleton_iff hhead).1 ⟨slug, hslugs⟩
        exact absurd ((hsame file hfile).trans (hsame other hother).symm) hslug
      · rfl

theorem standing_of_unchanged (h : Unchanged cfg o failure failedAt) :
    standing cfg o failure failedAt = .noChange := by
  obtain ⟨hchecks, hfiles, hread⟩ := h
  have hnone : changedFiles cfg o failure failedAt = [] := by
    refine List.filter_eq_nil_iff.2 fun file hfile => ?_
    rw [hread file hfile]
    simp
  have hanswered : ¬ ∃ file ∈ frameFiles cfg o failure,
      commitsRead cfg o failure failedAt file.2 = none := by
    rintro ⟨file, hfile, hunread⟩
    rw [hread file hfile] at hunread
    cases hunread
  unfold standing standingOf
  rw [if_pos hchecks, if_neg (mapped_eq_nil_iff.not.2 hfiles),
    if_neg (unread_ne_nil_iff.not.2 hanswered), changedProbes_eq_nil.2 hnone]

theorem Asks.versionFile_ne_nil {repo : Repo} (h : Asks cfg o failure failedAt repo) :
    repo.versionFile ≠ [] := by
  obtain ⟨file, hfile, rfl⟩ := Option.map_eq_some_iff.1 h.first
  have hmem := List.mem_of_mem_filter (List.mem_of_mem_head? hfile)
  obtain ⟨frame, hframe, rfl⟩ := List.mem_map.1 hmem
  rw [mappedFrames_eq] at hframe
  obtain ⟨location, -, hlocation⟩ := List.mem_filterMap.1 hframe
  cases hresolve : resolveFrame cfg o location with
  | error reason =>
    rw [hresolve] at hlocation
    cases hlocation
  | ok file =>
    rw [hresolve] at hlocation
    obtain rfl := Option.some.inj hlocation
    exact (resolveFrame_ok hresolve).2

theorem Asks.standing_eq {repo : Repo} (h : Asks cfg o failure failedAt repo) :
    standing cfg o failure failedAt = .changed (requiredBy cfg
      ((lookedAt cfg o failure failedAt).map (.ofRead ∘ containing cfg o repo))) := by
  have hne : changedFiles cfg o failure failedAt ≠ [] := by
    intro hnil
    have := h.first
    rw [hnil] at this
    cases this
  have hfiles : frameFiles cfg o failure ≠ [] := by
    intro hnil
    rw [changedFiles, hnil] at hne
    exact hne rfl
  have hread : ¬ ∃ file ∈ frameFiles cfg o failure,
      commitsRead cfg o failure failedAt file.2 = none := by
    rintro ⟨file, hfile, hunread⟩
    exact h.read file hfile hunread
  obtain ⟨slug, hslugs⟩ := (slugs_eq_singleton_iff h.first).2 h.alone
  have hrepo := changedRepo_callPath.trans h.first
  rw [← filterMap_repo?] at hslugs
  unfold standing standingOf
  rw [if_pos h.checks, if_neg (mapped_eq_nil_iff.not.2 hfiles),
    if_neg (unread_ne_nil_iff.not.2 hread)]
  cases hchanged : changedProbes (callPath cfg o failure failedAt) with
  | nil => exact absurd (changedProbes_eq_nil.1 hchanged) hne
  | cons first rest =>
    rw [changedRepo, hchanged] at hrepo
    rw [hchanged] at hslugs
    have hrepo : first.repo? = some repo := hrepo
    simp only [hrepo, hslugs, Standing.changed.injEq]
    rw [requiredOf, ← examined_callPath, hchanged, List.map_map]
    exact congrArg _ (List.map_congr_left fun e _ =>
      firstContainingVersion_eq h.versionFile_ne_nil e.2)

/-- The check stops, finds no change, or asks for versions. -/
theorem stops_or_unchanged_or_asks (cfg : Config) (o : Oracle) (failure : Failure)
    (failedAt : Option ℤ) : Stops cfg o failure failedAt ∨
      Unchanged cfg o failure failedAt ∨ ∃ repo, Asks cfg o failure failedAt repo := by
  by_cases hstops : Stops cfg o failure failedAt
  · exact .inl hstops
  unfold Stops at hstops
  push Not at hstops
  obtain ⟨hchecks, hfiles, hread, hslugs⟩ := hstops
  cases hchanged : changedFiles cfg o failure failedAt with
  | nil =>
    refine .inr (.inl ⟨hchecks, hfiles, fun file hfile => ?_⟩)
    obtain ⟨commits, hcommits⟩ := Option.ne_none_iff_exists'.1 (hread file hfile)
    have hnil := List.filter_eq_nil_iff.1 hchanged file hfile
    rw [hcommits] at hnil ⊢
    simpa using hnil
  | cons first rest =>
    refine .inr (.inr ⟨first.1, hchecks, hread, by rw [hchanged]; rfl, fun file hfile => ?_⟩)
    exact hslugs file hfile first (hchanged ▸ List.mem_cons_self)

theorem standing_unknown_iff :
    standing cfg o failure failedAt = .unknown ↔ Stops cfg o failure failedAt := by
  refine ⟨fun h => ?_, standing_of_stops⟩
  rcases stops_or_unchanged_or_asks cfg o failure failedAt with hstops | hunchanged | ⟨repo, hasks⟩
  · exact hstops
  · cases h.symm.trans (standing_of_unchanged hunchanged)
  · cases h.symm.trans hasks.standing_eq

theorem standing_noChange_iff :
    standing cfg o failure failedAt = .noChange ↔ Unchanged cfg o failure failedAt := by
  refine ⟨fun h => ?_, standing_of_unchanged⟩
  rcases stops_or_unchanged_or_asks cfg o failure failedAt with hstops | hunchanged | ⟨repo, hasks⟩
  · cases h.symm.trans (standing_of_stops hstops)
  · exact hunchanged
  · cases h.symm.trans hasks.standing_eq

theorem standing_changed_iff {required : Containing} :
    standing cfg o failure failedAt = .changed required ↔
      ∃ repo, Asks cfg o failure failedAt repo ∧ requiredBy cfg
        ((lookedAt cfg o failure failedAt).map (.ofRead ∘ containing cfg o repo)) =
          required := by
  constructor
  · intro h
    rcases stops_or_unchanged_or_asks cfg o failure failedAt with hstops | hunchanged | ⟨repo, hasks⟩
    · cases h.symm.trans (standing_of_stops hstops)
    · cases h.symm.trans (standing_of_unchanged hunchanged)
    · exact ⟨repo, hasks, Standing.changed.inj (hasks.standing_eq.symm.trans h)⟩
  · rintro ⟨repo, hasks, rfl⟩
    exact hasks.standing_eq

theorem requiredBy_ofRead (found : List (Option (Option Text))) :
    requiredBy cfg (found.map .ofRead) =
      match found.filterMap Option.join with
      | [] => if some none ∈ found then .uncut else .unreadable
      | first :: rest => .version (pick (Ahead cfg) first rest) := by
  have htext : (found.map .ofRead).filterMap Containing.text? = found.filterMap Option.join := by
    rw [List.filterMap_map]
    refine congrArg (List.filterMap · _) (funext fun version => ?_)
    rcases version with - | - | text <;> rfl
  have huncut : .uncut ∈ found.map Containing.ofRead ↔ some none ∈ found := by
    rw [List.mem_map]
    constructor
    · rintro ⟨version, hmem, hversion⟩
      rcases version with - | - | text
      · cases hversion
      · exact hmem
      · cases hversion
    · exact fun hmem => ⟨_, hmem, rfl⟩
  rw [requiredBy_eq, htext]
  cases found.filterMap Option.join with
  | nil =>
    by_cases hnone : some none ∈ found
    · exact (if_pos (huncut.2 hnone)).trans (if_pos hnone).symm
    · exact (if_neg (huncut.not.2 hnone)).trans (if_neg hnone).symm
  | cons first rest => rfl

theorem requiredBy_eq_unreadable {found : List (Option (Option Text))} :
    requiredBy cfg (found.map .ofRead) = .unreadable ↔ ∀ version ∈ found, version = none := by
  rw [requiredBy_ofRead]
  cases hfound : found.filterMap Option.join with
  | nil =>
    have hjoin := List.filterMap_eq_nil_iff.1 hfound
    dsimp only
    split
    · next hmem => exact iff_of_false nofun fun h => absurd (h _ hmem) nofun
    · next hmem =>
      refine iff_of_true rfl fun version hversion => ?_
      rcases version with - | - | text
      · rfl
      · exact absurd hversion hmem
      · cases hjoin _ hversion
  | cons first rest =>
    refine iff_of_false nofun fun h => ?_
    obtain ⟨version, hversion, hjoin⟩ :=
      List.mem_filterMap.1 (hfound ▸ List.mem_cons_self : first ∈ found.filterMap Option.join)
    rw [h version hversion] at hjoin
    cases hjoin

theorem requiredBy_eq_uncut {found : List (Option (Option Text))} :
    requiredBy cfg (found.map .ofRead) = .uncut ↔
      found.filterMap Option.join = [] ∧ some none ∈ found := by
  rw [requiredBy_ofRead]
  cases found.filterMap Option.join with
  | nil =>
    dsimp only
    split
    · next hmem => exact iff_of_true rfl ⟨rfl, hmem⟩
    · next hmem => exact iff_of_false nofun fun h => hmem h.2
  | cons first rest => exact iff_of_false nofun fun h => absurd h.1 (List.cons_ne_nil _ _)

theorem requiredBy_eq_version {found : List (Option (Option Text))} {required : Text} :
    requiredBy cfg (found.map .ofRead) = .version required ↔
      ∃ first rest, found.filterMap Option.join = first :: rest ∧
        pick (Ahead cfg) first rest = required := by
  rw [requiredBy_ofRead]
  cases found.filterMap Option.join with
  | nil =>
    refine iff_of_false ?_ (by simp)
    dsimp only
    split
    · intro h
      cases h
    · intro h
      cases h
  | cons first rest => simp

/-- The check knows nothing of any commit exactly where it keeps no commit's reads. -/
theorem unreadable_iff : standing cfg o failure failedAt = .changed .unreadable ↔
    ∃ repo, Asks cfg o failure failedAt repo ∧
      ∀ c ∈ lookedAt cfg o failure failedAt, containing cfg o repo c = none := by
  rw [standing_changed_iff]
  refine exists_congr fun repo => and_congr_right fun _ => ?_
  rw [← List.map_map, requiredBy_eq_unreadable, List.forall_mem_map]

theorem uncut_iff : standing cfg o failure failedAt = .changed .uncut ↔
    ∃ repo, Asks cfg o failure failedAt repo ∧ Uncut cfg o failure failedAt repo := by
  rw [standing_changed_iff]
  refine exists_congr fun repo => and_congr_right fun _ => ?_
  rw [← List.map_map, requiredBy_eq_uncut, List.filterMap_map, List.mem_map]
  rfl

theorem version_iff {v : Version} :
    (∃ required, standing cfg o failure failedAt = .changed (.version required) ∧
        parse cfg.pattern required = some v) ↔
      ∃ repo, Asks cfg o failure failedAt repo ∧ Highest cfg o failure failedAt repo v := by
  constructor
  · rintro ⟨required, hstanding, hv⟩
    obtain ⟨repo, hasks, hrequired⟩ := standing_changed_iff.1 hstanding
    rw [← List.map_map, requiredBy_eq_version, List.filterMap_map] at hrequired
    obtain ⟨first, rest, hfound, rfl⟩ := hrequired
    exact ⟨repo, hasks, first, rest, hfound, hv⟩
  · rintro ⟨repo, hasks, first, rest, hfound, hv⟩
    refine ⟨_, standing_changed_iff.2 ⟨repo, hasks, ?_⟩, hv⟩
    rw [← List.map_map, requiredBy_eq_version, List.filterMap_map]
    exact ⟨first, rest, hfound, rfl⟩

/-- What is established is spared exactly where the failed reads are harmless. -/
theorem spared_iff_harmless {o' : Oracle} :
    Spared cfg (standing cfg o failure failedAt) (standing cfg o' failure failedAt) ↔
      Harmless cfg o o' failure failedAt := by
  constructor
  · intro h
    generalize hs : standing cfg o failure failedAt = s at h
    generalize hs' : standing cfg o' failure failedAt = s' at h
    cases h with
    | unknown => exact .stops (standing_unknown_iff.1 hs')
    | unresolved =>
      obtain ⟨repo, hasks, hunread⟩ := unreadable_iff.1 hs'
      exact .unread hasks hunread
    | least hv hg =>
      obtain ⟨repo, hasks, hhighest⟩ := version_iff.1 ⟨_, hs', hv⟩
      exact .least hasks hhighest hg
    | noChange => exact .unchanged (standing_noChange_iff.1 hs) (standing_noChange_iff.1 hs')
    | uncut =>
      obtain ⟨repo, hasks, huncut⟩ := uncut_iff.1 hs
      obtain ⟨repo', hasks', huncut'⟩ := uncut_iff.1 hs'
      exact .uncut hasks hasks' huncut huncut'
    | version hv hv' hg =>
      obtain ⟨repo, hasks, hhighest⟩ := version_iff.1 ⟨_, hs, hv⟩
      obtain ⟨repo', hasks', hhighest'⟩ := version_iff.1 ⟨_, hs', hv'⟩
      exact .version hasks hasks' hhighest hhighest' hg
  · intro h
    cases h with
    | stops hstops =>
      rw [standing_unknown_iff.2 hstops]
      exact .unknown
    | unread hasks hunread =>
      rw [unreadable_iff.2 ⟨_, hasks, hunread⟩]
      exact .unresolved
    | least hasks hhighest hg =>
      obtain ⟨required, hs', hv⟩ := version_iff.2 ⟨_, hasks, hhighest⟩
      rw [hs']
      exact .least hv hg
    | unchanged hunchanged hunchanged' =>
      rw [standing_noChange_iff.2 hunchanged, standing_noChange_iff.2 hunchanged']
      exact .noChange
    | uncut hasks hasks' huncut huncut' =>
      rw [uncut_iff.2 ⟨_, hasks, huncut⟩, uncut_iff.2 ⟨_, hasks', huncut'⟩]
      exact .uncut
    | version hasks hasks' hhighest hhighest' hg =>
      obtain ⟨required, hs, hv⟩ := version_iff.2 ⟨_, hasks, hhighest⟩
      obtain ⟨required', hs', hv'⟩ := version_iff.2 ⟨_, hasks', hhighest'⟩
      rw [hs, hs']
      exact .version hv hv' hg

/-- **Failed reads only weaken the verdict exactly where they are harmless.** -/
theorem weakens_iff_harmless {lost : Lost} :
    Weakens cfg o (o.without lost) failure failedAt ↔
      Harmless cfg o (o.without lost) failure failedAt :=
  weakens_iff_spared.trans spared_iff_harmless

end

/-! ## A read that fails and a fix that seems deployed -/

/-- Both changes of the file bumped the version, to 1.0.1 (`early`) and to 1.0.2 (`late`). -/
def twoBumps : Oracle where
  commits _ path :=
    if path = pathOfB then
      some [{ id := "late".toList, timestampMs := some 300 },
        { id := "early".toList, timestampMs := some 200 }]
    else some []
  changes _ _ := some [pathOfB, svc.versionFile]
  file _ path ref :=
    if path = svc.versionFile then
      some (if ref = "early".toList then "version=1.0.1".toList else "version=1.0.2".toList)
    else if path = pathOfB then some [] else none
  pages _ := []

/-- The change set of the later commit cannot be read: `NOT_DEPLOYED` becomes `FIX_DEPLOYED`. -/
theorem failed_read_deploys :
    ¬ Weakens svcConfig twoBumps (twoBumps.without { changes := fun _ id => id = "late".toList })
      failureAtB (some 100) := by
  intro h
  have hbefore : (evaluate svcConfig twoBumps failureAtB (some 100) [.text "1.0.0".toList]
      [.text "1.0.1".toList]).verdict = .notDeployed := by decide
  have hafter : (evaluate svcConfig
      (twoBumps.without { changes := fun _ id => id = "late".toList }) failureAtB (some 100)
      [.text "1.0.0".toList] [.text "1.0.1".toList]).verdict = .fixDeployed := by decide
  rcases h [.text "1.0.0".toList] [.text "1.0.1".toList] with h | h
  · rw [hbefore, hafter] at h
    cases h
  · rw [hafter] at h
    cases h

end ResidentCrm.Dlt
