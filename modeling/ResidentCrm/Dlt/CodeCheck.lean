import ResidentCrm.Dlt.Bitbucket

/-!
# The code check

`dlt/code_check.py`: every application frame of the call path is resolved to a file and its commits
since the failure are read; the commits found are resolved to the versions that first contain them;
and the highest of these is compared with what is running.

A first-containing version is one of three answers, `Containing`, and the version required is
accumulated in one too: the source's `None`, `""` and a version.
-/

namespace ResidentCrm.Dlt

/-! ## Frames -/

/-- Where one application frame sits in the source. -/
structure FrameLocation where
  target : Text
  file : Option Text := none
deriving DecidableEq, Repr

namespace FrameLocation

variable (f : FrameLocation)

/-- The declaring class, inner-class marker included. -/
def classFqcn : Text := if '.' ∈ f.target then Text.beforeLast '.' f.target else f.target

def outer : Text := Text.before '$' f.classFqcn

def package : Text := if '.' ∈ f.outer then Text.beforeLast '.' f.outer else []

/-- The tail of the repository path, `com/foo/BarService.java`. -/
def sourcePathSuffix : Text :=
  let simple := Text.afterLast '.' f.outer
  let name := match f.file with
    | some file =>
      if ".java".toList.isSuffixOf file then file
      else if simple = [] then [] else simple ++ ".java".toList
    | none => if simple = [] then [] else simple ++ ".java".toList
  if name = [] then []
  else if f.package = [] then name else Text.replace '.' '/' f.package ++ '/' :: name

end FrameLocation

structure Failure where
  failureClass : Text
  locations : List FrameLocation
deriving DecidableEq, Repr

def Failure.located (failure : Failure) : List FrameLocation :=
  failure.locations.filter (·.target ≠ [])

/-! ## Verdicts -/

inductive Verdict where
  | noChange
  | notDeployed
  | fixDeployed
  | unknown
deriving DecidableEq, Repr

inductive FrameReason where
  | notInRepoMap (classFqcn : Text)
  | notFound (pathSuffix slug : Text)
deriving DecidableEq, Repr

/-- One frame of the call path, and what the repository said about it. -/
inductive FrameProbe where
  | unmapped (target : Text) (reason : FrameReason)
  | mapped (target : Text) (repo : Repo) (path : Text) (commits : Option (List Commit))
deriving DecidableEq, Repr

/-- The earliest version that carries a commit: it could not be read, none has been cut, or this
one. -/
inductive Containing where
  | unreadable
  | uncut
  | version (text : Text)
deriving DecidableEq, Repr

inductive ResolvedBy where
  | changeSetUnread
  | unreadAtFix
  | atFix
  | bumpsUnread
  | notCut
  | unreadAtBump
  | atBump (short : Text)
deriving DecidableEq, Repr

structure Candidate where
  commit : Text
  subject : Text
  path : Text
  timestampMs : Option ℤ
  firstContainingVersion : Option Text
  resolvedBy : ResolvedBy
deriving DecidableEq, Repr

/-- Why a verdict is what it is, with what its text names. -/
inductive Reason where
  | off
  | classNotChecked (failureClass : Text)
  | notConfigured
  | noLocation
  | noneMapped (reasons : List FrameReason)
  | unreadable (unread paths : ℕ)
  | nothingTouched (branch : Text) (paths unmapped : ℕ)
  | severalRepos (slugs : List Text)
  | noVersionCut (candidates : ℕ)
  | noVersionResolved (candidates : ℕ)
  | runningUnread (required : Text)
  | bumpSkipped (baseline required : Text)
  | cannotOrder (running required : Text)
  | noBaseline (running required : Text)
  | running (branch running required : Text)
  | behind (branch running required : Text)
deriving DecidableEq, Repr

structure Evidence where
  framesExamined : ℕ := 0
  framesResolved : ℕ := 0
  framesUnmapped : ℕ := 0
  repo : Option Text := none
  path : Option Text := none
  branch : Option Text := none
  pathsChecked : List Text := []
  baselineVersion : Option Text := none
  runningVersion : Option Text := none
  requiredVersion : Option Text := none
  candidates : List Candidate := []
deriving DecidableEq, Repr

structure CodeCheck where
  verdict : Verdict
  reason : Reason
  evidence : Evidence := {}
deriving DecidableEq, Repr

def checkedClasses : List Text := ["A".toList, "B".toList]

/-! ## Resolution -/

namespace FrameProbe

def path? : FrameProbe → Option Text
  | .unmapped .. => none
  | .mapped _ _ path _ => some path

def isMapped (p : FrameProbe) : Bool := p.path?.isSome

def isUnreadable : FrameProbe → Bool
  | .mapped _ _ _ none => true
  | _ => false

def commitsFound : FrameProbe → List Commit
  | .mapped _ _ _ (some commits) => commits
  | _ => []

def repo? : FrameProbe → Option Repo
  | .unmapped .. => none
  | .mapped _ repo _ _ => some repo

def reason? : FrameProbe → Option FrameReason
  | .unmapped _ reason => some reason
  | .mapped .. => none

end FrameProbe

section

variable (cfg : Config) (o : Oracle)

/-- The repository a class maps to, on the branch a global override names where its own is the
default. -/
def frameRepo (classFqcn : Text) : Option Repo :=
  (cfg.repoFor classFqcn).map fun repo =>
    match cfg.branchOverride with
    | some branch => if repo.branch = defaultBranch then { repo with branch := branch } else repo
    | none => repo

def resolveFrame (location : FrameLocation) : Except FrameReason (Repo × Text) :=
  match frameRepo cfg location.classFqcn with
  | none => .error (.notInRepoMap location.classFqcn)
  | some repo =>
    match resolvePath cfg o repo location.sourcePathSuffix with
    | none => .error (.notFound location.sourcePathSuffix repo.slug)
    | some path => .ok (repo, path)

/-- Resolve and query every frame of the call path, in order; a path is queried once. -/
def probePath (failedAt : Option ℤ) :
    List (Text × Option (List Commit)) → List FrameLocation → List FrameProbe
  | _, [] => []
  | seen, location :: locations =>
    match resolveFrame cfg o location with
    | .error reason => .unmapped location.target reason :: probePath failedAt seen locations
    | .ok (repo, path) =>
      match seen.lookup path with
      | some commits => .mapped location.target repo path commits :: probePath failedAt seen locations
      | none =>
        let commits := commitsTouching o repo path failedAt
        .mapped location.target repo path commits ::
          probePath failedAt ((path, commits) :: seen) locations

def callPath (failure : Failure) (failedAt : Option ℤ) : List FrameProbe :=
  probePath cfg o failedAt [] (failure.located.take cfg.frames)

/-- The earliest version that carries `commit`, and how it was determined. -/
def firstContainingVersion (repo : Repo) (commit : Commit) : Containing × ResolvedBy :=
  match changedPaths o repo commit.id with
  | none => (.unreadable, .changeSetUnread)
  | some changed =>
    if touchesVersionFile changed repo.versionFile then
      match versionAt cfg o repo commit.id with
      | none => (.unreadable, .unreadAtFix)
      | some version => (.version version, .atFix)
    else
      match commitsTouching o repo repo.versionFile commit.timestampMs with
      | none => (.unreadable, .bumpsUnread)
      | some bumps =>
        -- newest first: the last is the first bump after the commit
        match bumps.getLast? with
        | none => (.uncut, .notCut)
        | some oldest =>
          match versionAt cfg o repo oldest.id with
          | none => (.unreadable, .unreadAtBump)
          | some version => (.version version, .atBump oldest.short)

/-! ## The verdict -/

/-- The commits of the loop over candidates, each under the first path it is met on. -/
def keepFirst : List Text → List (Text × Commit) → List (Text × Commit)
  | _, [] => []
  | seen, (path, commit) :: rest =>
    if commit.id ∈ seen then keepFirst seen rest
    else (path, commit) :: keepFirst (commit.id :: seen) rest

/-- The commits examined: of each file the newest `maxCandidates`. -/
def examined (probes : List FrameProbe) : List (Text × Commit) :=
  keepFirst [] (probes.flatMap fun probe =>
    (probe.commitsFound.take cfg.maxCandidates).map (probe.path?.getD [], ·))

/-- One turn of the loop over candidates: the highest version so far is required. -/
def require (required : Containing) : Containing → Containing
  | .unreadable => required
  | .uncut => if required = .unreadable then .uncut else required
  | .version version =>
    match required with
    | .version text =>
      if (compare cfg.pattern (.text version) (.text text)).getD 0 > 0 then .version version
      else required
    | _ => .version version

def requiredBy (answers : List Containing) : Containing :=
  answers.foldl (require cfg) .unreadable

def candidateOf (repo : Repo) (entry : Text × Commit) : Candidate :=
  let (version, how) := firstContainingVersion cfg o repo entry.2
  { commit := entry.2.short
    subject := entry.2.subject.take 120
    path := entry.1
    timestampMs := entry.2.timestampMs
    firstContainingVersion := match version with
      | .version text => some text
      | _ => none
    resolvedBy := how }

def unknown (reason : Reason) (evidence : Evidence := {}) : CodeCheck :=
  { verdict := .unknown, reason, evidence }

def conclude (branch required : Text) (baseline running : Option Version) (evidence : Evidence) :
    CodeCheck :=
  let evidence := { evidence with requiredVersion := some required }
  match running with
  | none => unknown (.runningUnread required) evidence
  | some running =>
    match baseline.filter fun b =>
        isAhead cfg.pattern (.text required) (.parsed b) ≠ some true with
    | some b => unknown (.bumpSkipped b.raw required) evidence
    | none =>
      match atLeast cfg.pattern (.parsed running) (.text required) with
      | none => unknown (.cannotOrder running.raw required) evidence
      | some true =>
        if baseline.isNone then unknown (.noBaseline running.raw required) evidence
        else ⟨.fixDeployed, .running branch running.raw required, evidence⟩
      | some false => ⟨.notDeployed, .behind branch running.raw required, evidence⟩

def evaluate (failure : Failure) (failedAt : Option ℤ)
    (baselineVersions runningVersions : List Operand) : CodeCheck :=
  if !cfg.enabled then unknown .off
  else if failure.failureClass ∉ checkedClasses then
    unknown (.classNotChecked failure.failureClass)
  else if !cfg.configured then unknown .notConfigured
  else
    if failure.located = [] then unknown .noLocation
    else
      let probes := callPath cfg o failure failedAt
      let mapped := probes.filter FrameProbe.isMapped
      let unmapped := probes.length - mapped.length
      let evidence : Evidence :=
        { framesExamined := probes.length
          framesResolved := mapped.length
          framesUnmapped := unmapped }
      match mapped with
      | [] => unknown (.noneMapped ((probes.filterMap FrameProbe.reason?).take 3)) evidence
      | site :: _ =>
        let paths := (mapped.filterMap FrameProbe.path?).reverse.dedup.reverse
        let branch := (site.repo?.map Repo.branch).getD []
        let evidence := { evidence with
          repo := site.repo?.map Repo.slug
          path := site.path?
          branch := some branch
          pathsChecked := paths }
        let unread := mapped.filter FrameProbe.isUnreadable
        if unread ≠ [] then
          unknown (.unreadable (unread.filterMap FrameProbe.path?).dedup.length paths.length)
            evidence
        else
          let baseline := lowest cfg.pattern baselineVersions
          let running := lowest cfg.pattern runningVersions
          let evidence := { evidence with
            baselineVersion := baseline.map Version.raw
            runningVersion := running.map Version.raw }
          match mapped.filter (·.commitsFound ≠ []) with
          | [] => ⟨.noChange, .nothingTouched branch paths.length unmapped, evidence⟩
          | first :: rest =>
            let repos := ((first :: rest).filterMap FrameProbe.repo?).map Repo.slug |>.dedup
            match first.repo?, repos with
            | some repo, [_] =>
              let entries := examined cfg (first :: rest)
              let answers := entries.map fun e => (firstContainingVersion cfg o repo e.2).1
              let evidence := { evidence with candidates := entries.map (candidateOf cfg o repo) }
              match requiredBy cfg answers with
              | .uncut => ⟨.notDeployed, .noVersionCut entries.length, evidence⟩
              | .unreadable => unknown (.noVersionResolved entries.length) evidence
              | .version required =>
                conclude cfg repo.branch required baseline running evidence
            | _, slugs => unknown (.severalRepos slugs) evidence

/-! ## The version required -/

def Containing.text? : Containing → Option Text
  | .version text => some text
  | _ => none

def Ahead (x y : Text) : Prop := isAhead cfg.pattern (.text x) (.text y) = some true

instance : DecidableRel (Ahead cfg) := fun _ _ => inferInstanceAs (Decidable (_ = _))

theorem ahead_iff {x y : Text} : Ahead cfg x y ↔
    ∃ a b, parse cfg.pattern x = some a ∧ parse cfg.pattern y = some b ∧ b.Behind a :=
  isAhead_eq_some_true

theorem not_ahead_self (x : Text) : ¬ Ahead cfg x x := by
  intro h
  obtain ⟨a, b, ha, hb, hab⟩ := (ahead_iff cfg).1 h
  rw [ha, Option.some.injEq] at hb
  exact Version.not_behind_self a (hb ▸ hab)

theorem ahead_trans {x y z : Text} (h : Ahead cfg x y) (h' : Ahead cfg y z) : Ahead cfg x z := by
  obtain ⟨a, b, ha, hb, hab⟩ := (ahead_iff cfg).1 h
  obtain ⟨b', c, hb', hc, hbc⟩ := (ahead_iff cfg).1 h'
  rw [hb, Option.some.injEq] at hb'
  exact (ahead_iff cfg).2 ⟨a, c, ha, hc, hbc.trans (hb' ▸ hab)⟩

theorem ahead_iff_compare {x y : Text} :
    Ahead cfg x y ↔ (compare cfg.pattern (.text x) (.text y)).getD 0 > 0 := by
  unfold Ahead isAhead
  cases compare cfg.pattern (.text x) (.text y) with
  | none => simp
  | some n => simp

theorem require_version (kept version : Text) :
    require cfg (.version kept) (.version version) =
      .version (if Ahead cfg version kept then version else kept) := by
  by_cases h : Ahead cfg version kept
  · rw [if_pos h]
    exact if_pos ((ahead_iff_compare cfg).1 h)
  · rw [if_neg h]
    exact if_neg fun hc => h ((ahead_iff_compare cfg).2 hc)

/-- From a version on, the loop keeps the highest version of its answers. -/
theorem foldl_require_version (kept : Text) (answers : List Containing) :
    answers.foldl (require cfg) (.version kept) =
      .version (pick (Ahead cfg) kept (answers.filterMap Containing.text?)) := by
  induction answers generalizing kept with
  | nil => rfl
  | cons answer answers ih =>
    cases answer with
    | unreadable => exact ih kept
    | uncut => exact ih kept
    | version text =>
      rw [List.foldl_cons, require_version, ih]
      rfl

theorem foldl_require_uncut (answers : List Containing) :
    answers.foldl (require cfg) .uncut =
      match answers.filterMap Containing.text? with
      | [] => .uncut
      | first :: rest => .version (pick (Ahead cfg) first rest) := by
  induction answers with
  | nil => rfl
  | cons answer answers ih =>
    cases answer with
    | unreadable => exact ih
    | uncut => exact ih
    | version text => exact foldl_require_version cfg text answers

/-- **The version required** is the highest one an answer names, none cut where some answer says
so and none names a version, and unknown where no answer says anything. -/
theorem requiredBy_eq (answers : List Containing) :
    requiredBy cfg answers =
      match answers.filterMap Containing.text? with
      | [] => if .uncut ∈ answers then .uncut else .unreadable
      | first :: rest => .version (pick (Ahead cfg) first rest) := by
  unfold requiredBy
  induction answers with
  | nil => rfl
  | cons answer answers ih =>
    cases answer with
    | unreadable =>
      have hmem : Containing.uncut ∈ Containing.unreadable :: answers ↔ .uncut ∈ answers := by
        simp
      simp only [hmem]
      exact ih
    | uncut =>
      have hmem : Containing.uncut ∈ Containing.uncut :: answers := List.mem_cons_self
      simp only [hmem, if_true]
      exact foldl_require_uncut cfg answers
    | version text => exact foldl_require_version cfg text answers

theorem requiredBy_version {answers : List Containing} {required : Text}
    (h : requiredBy cfg answers = .version required) :
    .version required ∈ answers ∧
      ∀ text, .version text ∈ answers → ¬ Ahead cfg text required := by
  rw [requiredBy_eq] at h
  have hmem : ∀ text, .version text ∈ answers ↔ text ∈ answers.filterMap Containing.text? := by
    intro text
    simp only [List.mem_filterMap]
    constructor
    · intro ht
      exact ⟨_, ht, rfl⟩
    · rintro ⟨a, ha, hat⟩
      cases a with
      | version t =>
        cases hat
        exact ha
      | _ => cases hat
  cases hf : answers.filterMap Containing.text? with
  | nil =>
    rw [hf] at h
    dsimp only at h
    split at h <;> cases h
  | cons first rest =>
    rw [hf] at h
    simp only [Containing.version.injEq] at h
    subst h
    refine ⟨(hmem _).2 (hf ▸ pick_mem first rest), ?_⟩
    intro text ht
    exact not_before_pick (not_ahead_self cfg) (fun _ _ _ => ahead_trans cfg) first rest text
      (hf ▸ (hmem text).1 ht)

/-! ## What the repository establishes -/

def changedProbes (probes : List FrameProbe) : List FrameProbe :=
  (probes.filter FrameProbe.isMapped).filter (·.commitsFound ≠ [])

/-- What is known before any version that runs is read. -/
inductive Standing where
  | unknown
  | noChange
  | changed (required : Containing)
deriving DecidableEq, Repr

def Checks (failure : Failure) : Prop :=
  cfg.enabled = true ∧ failure.failureClass ∈ checkedClasses ∧ cfg.configured = true ∧
    failure.located ≠ []

instance (failure : Failure) : Decidable (Checks cfg failure) :=
  inferInstanceAs (Decidable (_ ∧ _))

def requiredOf (repo : Repo) (probes : List FrameProbe) : Containing :=
  requiredBy cfg ((examined cfg probes).map fun e => (firstContainingVersion cfg o repo e.2).1)

def standingOf (probes : List FrameProbe) : Standing :=
  if probes.filter FrameProbe.isMapped = [] then .unknown
  else if (probes.filter FrameProbe.isMapped).filter FrameProbe.isUnreadable ≠ [] then .unknown
  else
    match changedProbes probes with
    | [] => .noChange
    | first :: rest =>
      match first.repo?, ((first :: rest).filterMap FrameProbe.repo?).map Repo.slug |>.dedup with
      | some repo, [_] => .changed (requiredOf cfg o repo (first :: rest))
      | _, _ => .unknown

def standing (failure : Failure) (failedAt : Option ℤ) : Standing :=
  if Checks cfg failure then standingOf cfg o (callPath cfg o failure failedAt) else .unknown

def Standing.verdict (baseline running : Option Version) : Standing → Verdict
  | .unknown => .unknown
  | .noChange => .noChange
  | .changed .unreadable => .unknown
  | .changed .uncut => .notDeployed
  | .changed (.version required) => (conclude cfg [] required baseline running {}).verdict

theorem conclude_verdict (branch required : Text) (baseline running : Option Version)
    (evidence : Evidence) :
    (conclude cfg branch required baseline running evidence).verdict =
      (conclude cfg [] required baseline running {}).verdict := by
  unfold conclude
  cases running with
  | none => rfl
  | some running =>
    dsimp only
    split
    · rfl
    · split <;> try rfl
      split <;> rfl

theorem conclude_fixDeployed {required : Text} {baseline running : Option Version}
    (h : (conclude cfg [] required baseline running {}).verdict = .fixDeployed) :
    ∃ b v, baseline = some b ∧ running = some v ∧
      isAhead cfg.pattern (.text required) (.parsed b) = some true ∧
      atLeast cfg.pattern (.parsed v) (.text required) = some true := by
  unfold conclude at h
  cases running with
  | none => cases h
  | some v =>
    cases baseline with
    | none =>
      dsimp only [Option.filter] at h
      split at h <;> cases h
    | some b =>
      dsimp only at h
      split at h
      · cases h
      · next hb =>
        have hahead : isAhead cfg.pattern (.text required) (.parsed b) = some true := by
          simpa [Option.filter] using hb
        split at h
        · cases h
        · next hat => exact ⟨b, v, rfl, rfl, hahead, hat⟩
        · cases h

/-- **The verdict depends on the repository only through what it establishes.** -/
theorem evaluate_verdict (failure : Failure) (failedAt : Option ℤ)
    (baselineVersions runningVersions : List Operand) :
    (evaluate cfg o failure failedAt baselineVersions runningVersions).verdict =
      (standing cfg o failure failedAt).verdict cfg (lowest cfg.pattern baselineVersions)
        (lowest cfg.pattern runningVersions) := by
  unfold evaluate
  split
  · next h => rw [standing, if_neg fun hc => by simp [hc.1] at h]; rfl
  split
  · next h => rw [standing, if_neg fun hc => h hc.2.1]; rfl
  split
  · next h => rw [standing, if_neg fun hc => by simp [hc.2.2.1] at h]; rfl
  split
  · next h => rw [standing, if_neg fun hc => hc.2.2.2 h]; rfl
  next h1 h2 h3 h4 =>
  have hchecks : Checks cfg failure := ⟨by simpa using h1, not_not.1 h2, by simpa using h3, h4⟩
  rw [standing, if_pos hchecks]
  unfold standingOf changedProbes
  generalize callPath cfg o failure failedAt = probes
  dsimp only
  cases probes.filter FrameProbe.isMapped with
  | nil => rfl
  | cons site sites =>
    simp only [reduceCtorEq, if_false]
    split
    · rfl
    · cases (site :: sites).filter (·.commitsFound ≠ []) with
      | nil => rfl
      | cons first rest =>
        dsimp only
        split
        · unfold requiredOf
          split
          · next hr => rw [hr]; rfl
          · next hr => rw [hr]; rfl
          · next hr => rw [hr]; exact conclude_verdict ..
        · rfl

end

end ResidentCrm.Dlt
