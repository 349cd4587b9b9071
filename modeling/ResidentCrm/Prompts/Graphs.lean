import ResidentCrm.Lib.Json
import ResidentCrm.Lib.Machine
import Mathlib.Data.List.Sort

/-!
# The prompts in use and the graphs built from them

`utils/prompt_store.py` under `PROMPT_SOURCE=langfuse` and the graph of each lane:
`get_agent` and `_build_agent` of `core/agent_orchestrator.py`, `get_dlt_agent` and
`_build_dlt_agent` of `dlt/orchestrator.py`, with the catalog of tools of `tools/mcp_client.py` that
both are built from. Any number of threads each put the latest prompts in use, get the graph of
their lane and run it. A step is one access to what they share; a section under a lock that alone
writes one variable is one step, and so is `current_catalog`, whose first look at the catalog
decides as its last would.

Of Langfuse it is taken that it answers each request anyhow, of a tool server that its listing
comes or fails, and of `_build_agent` that it may raise until its graph is compiled. `check_texts`
and the hash are any functions.
-/

namespace ResidentCrm.Prompts

/-! ## Snapshots -/

/-- `_Snapshot`. -/
structure Snapshot where
  texts : List (Text × Text)
  versions : List (Text × ℕ)
deriving DecidableEq

/-- What `_fetch_one` returns: the text and the version, or why there is none. -/
abbrev Answer := Except Text (Text × ℕ)

/-- What `_fetch_snapshot` has of the prompts so far. -/
structure Fetched where
  texts : List (Text × Text) := []
  versions : List (Text × ℕ) := []
  failures : List Text := []

def Fetched.add (fetched : Fetched) (name : Text) : Answer → Fetched
  | .error failure => { fetched with failures := fetched.failures ++ [failure] }
  | .ok (text, version) =>
    { fetched with
      texts := fetched.texts ++ [(name, text)]
      versions := fetched.versions ++ [(name, version)] }

def Fetched.addAll (fetched : Fetched) (entries : List Text) (answers : Text → Answer) : Fetched :=
  entries.foldl (fun fetched name => Fetched.add fetched name (answers name)) fetched

/-- `_fetch_snapshot`, of the prompts in the catalog's order. -/
def fetchSnapshot (entries : List Text) (answers : Text → Answer) : Except (List Text) Snapshot :=
  let fetched := Fetched.addAll {} entries answers
  if fetched.failures = [] then .ok ⟨fetched.texts, fetched.versions⟩ else .error fetched.failures

/-- A snapshot has every prompt of the catalog, in its order. -/
def Snapshot.Covers (snapshot : Snapshot) (entries : List Text) : Prop :=
  snapshot.texts.map Prod.fst = entries ∧ snapshot.versions.map Prod.fst = entries

theorem failures_addAll (answers : Text → Answer) (entries : List Text) (fetched : Fetched) :
    fetched.failures <+: (fetched.addAll entries answers).failures := by
  induction entries generalizing fetched with
  | nil => exact List.prefix_rfl
  | cons name entries ih =>
    refine List.IsPrefix.trans ?_ (ih (fetched.add name (answers name)))
    cases answers name with
    | error failure => exact List.prefix_append _ _
    | ok answer => exact List.prefix_rfl

theorem names_addAll (answers : Text → Answer) (entries : List Text) (fetched : Fetched)
    (h : (fetched.addAll entries answers).failures = []) :
    (fetched.addAll entries answers).texts.map Prod.fst =
        fetched.texts.map Prod.fst ++ entries ∧
      (fetched.addAll entries answers).versions.map Prod.fst =
        fetched.versions.map Prod.fst ++ entries := by
  induction entries generalizing fetched with
  | nil => exact ⟨(List.append_nil _).symm, (List.append_nil _).symm⟩
  | cons name entries ih =>
    have h : ((fetched.add name (answers name)).addAll entries answers).failures = [] := h
    obtain ⟨htexts, hversions⟩ := ih _ h
    change ((fetched.add name (answers name)).addAll entries answers).texts.map Prod.fst = _ ∧
      ((fetched.add name (answers name)).addAll entries answers).versions.map Prod.fst = _
    rw [htexts, hversions]
    cases hanswer : answers name with
    | error failure =>
      have hfailures := failures_addAll answers entries (fetched.add name (answers name))
      rw [h, hanswer, List.prefix_nil] at hfailures
      exact absurd hfailures (List.append_ne_nil_of_right_ne_nil _ (List.cons_ne_nil _ _))
    | ok answer => simp [Fetched.add]

theorem covers_of_fetchSnapshot {entries : List Text} {answers : Text → Answer}
    {snapshot : Snapshot} (h : fetchSnapshot entries answers = .ok snapshot) :
    snapshot.Covers entries := by
  rw [fetchSnapshot] at h
  split at h
  · next hfailures =>
    obtain ⟨htexts, hversions⟩ := names_addAll answers entries {} hfailures
    cases h
    exact ⟨htexts, hversions⟩
  · cases h

/-- `_Snapshot.revision`, of the hash `sha256`. -/
def Snapshot.revision (sha256 : Text → Text) (snapshot : Snapshot) : Text :=
  let line := fun entry : Text × ℕ => entry.1 ++ '\t' :: Text.ofNat entry.2 ++ ['\n']
  let sorted := snapshot.versions.insertionSort fun a b => a.1 ≤ b.1
  "langfuse:".toList ++ (sha256 (sorted.flatMap line)).take 16

/-! ## The machine -/

/-- The two lanes, each with a graph of its own. -/
inductive Lane where
  | rejection
  | dlt
deriving DecidableEq

/-- What the process is started with, and the lane of each thread. -/
structure Site (S ι : Type*) where
  entries : List Text
  checkTexts : List (Text × Text) → List Text
  sha256 : Text → Text
  servers : List S
  /-- `AGENT_MCP_RETRY_SECONDS`. -/
  retry : ℕ
  retry_pos : 0 < retry
  lane : ι → Lane

/-- `Catalog`, its tools and failures by name. -/
structure Catalog (S : Type*) where
  servers : List S
  tools : List Text
  failures : List Text
  loadedAt : ℕ

def Catalog.complete {S : Type*} (catalog : Catalog S) : Bool := catalog.failures.isEmpty

/-- A build of a graph: the catalog and the number of the snapshot it is built from. -/
structure Build (S : Type*) where
  catalog : Catalog S
  snapshot : ℕ

/-- What the module of a lane holds. The graphs are known by their build, and so is what
`_agent_catalog` and `_agent_prompts` were set to; `builtFrom` is the lane's part of
`_built_from`. -/
structure Cache (S ι : Type*) where
  builds : List (Build S)
  agent : Option ℕ
  agentCatalog : Option ℕ
  agentPrompts : Option ℕ
  builtFrom : ℕ → Option ℕ
  /-- Who holds `_agent_lock`. -/
  lock : Option ι

/-- A build begins: the DLT lane sets `_agent_catalog` before it has the graph. -/
def Cache.begin {S ι : Type*} (cache : Cache S ι) (ℓ : Lane) (build : Build S) : Cache S ι :=
  let begun := { cache with builds := cache.builds ++ [build] }
  match ℓ with
  | .rejection => begun
  | .dlt => { begun with agentCatalog := some cache.builds.length }

/-- Where a thread is. -/
inductive Phase where
  | idle
  /-- In `refresh`. -/
  | refreshing
  | fetched (snapshot : Snapshot)
  | checked (snapshot : Snapshot)
  | refreshed
  /-- `prompts` is read. -/
  | asked
  | agentSeen
  | catalogFresh (build : Option ℕ)
  | promptsMatch (build : ℕ)
  | waiting
  /-- In the section under `_agent_lock`. -/
  | holding
  | rechecked
  | pinning
  | pinned (snapshot : ℕ)
  | building (build : ℕ)
  | agentSet (build : ℕ)
  | catalogSet (build : ℕ)
  | promptsSet (build : ℕ)
  /-- The graph is the caller's. -/
  | returned (build : ℕ)
  /-- Under `pinned_to`, with the number of the snapshot pinned. -/
  | running (build snapshot : ℕ)
  | ended
  | raised
deriving DecidableEq

/-- A thread: where it is, when it called and of which build the lane's catalog was then, and which
snapshot was in use when it read `prompts`. -/
structure Call where
  phase : Phase
  began : ℕ := 0
  beside : Option ℕ := none
  asked : ℕ := 0

/-- The state of the process. `used` holds every snapshot put in use, the last of which is
`_active`; `listed` is the catalog of tools. -/
structure State (S ι : Type*) where
  used : List Snapshot
  listed : Option (Catalog S)
  now : ℕ
  caches : Lane → Cache S ι
  calls : ι → Call

/-- What is outside the process answers: Langfuse for each prompt, and each tool server. -/
structure Replies where
  prompts : Text → Answer
  tools : List Text
  failures : List Text

section

variable {S ι : Type*} [DecidableEq S] [DecidableEq ι] (site : Site S ι)

/-- `_checked(_fetch_snapshot())` -/
def fetchChecked (answers : Text → Answer) : Option Snapshot :=
  match fetchSnapshot site.entries answers with
  | .ok snapshot => if site.checkTexts snapshot.texts = [] then some snapshot else none
  | .error _ => none

/-- `is_stale` -/
def isStale (now : ℕ) : Option (Catalog S) → Bool
  | none => false
  | some catalog =>
    catalog.servers ≠ site.servers || (!catalog.complete && catalog.loadedAt + site.retry ≤ now)

namespace State

variable (s : State S ι)

def use (snapshot : Snapshot) : State S ι := { s with used := s.used ++ [snapshot] }

def setCache (ℓ : Lane) (cache : Cache S ι) : State S ι :=
  { s with caches := Function.update s.caches ℓ cache }

def setCall (i : ι) (call : Call) : State S ι :=
  { s with calls := Function.update s.calls i call }

/-- The revision of a snapshot put in use. -/
def revision (n : ℕ) : Option Text := s.used[n]?.map (Snapshot.revision site.sha256)

/-- `_snapshot()` where none is pinned: the number of the snapshot in use, the first of all put in
use if there is none. -/
def read (answers : Text → Answer) : Option (State S ι × ℕ) :=
  match s.used with
  | [] => (fetchChecked site answers).map fun snapshot => (s.use snapshot, 0)
  | _ :: _ => some (s, s.used.length - 1)

/-- `current_catalog` -/
def currentCatalog (replies : Replies) : State S ι × Catalog S :=
  let loaded := ⟨site.servers, replies.tools, replies.failures, s.now⟩
  match s.listed with
  | some catalog =>
    if isStale site s.now (some catalog) then ({ s with listed := some loaded }, loaded)
    else (s, catalog)
  | none => ({ s with listed := some loaded }, loaded)

/-- The catalog and the revision that a lane's graph is found beside. -/
def agentCatalog (ℓ : Lane) : Option (Catalog S) :=
  (s.caches ℓ).agentCatalog.bind fun n => (s.caches ℓ).builds[n]?.map Build.catalog

def agentPrompts (ℓ : Lane) : Option Text :=
  (s.caches ℓ).agentPrompts.bind fun n =>
    (s.caches ℓ).builds[n]?.bind fun build => s.revision site build.snapshot

end State

/-- A thread goes on. `none`: it waits. -/
def advance (s : State S ι) (i : ι) (replies : Replies) (call : Call) :
    Option (State S ι × Call) :=
  let ℓ := site.lane i
  let cache := s.caches ℓ
  let goes (phase : Phase) := some (s, { call with phase := phase })
  -- out of the section, to the caller or with an exception
  let leaves (cache : Cache S ι) (phase : Phase) :=
    some (s.setCache ℓ { cache with lock := none }, { call with phase := phase })
  match call.phase with
  | .refreshing =>
    match fetchSnapshot site.entries replies.prompts with
    | .ok snapshot => goes (.fetched snapshot)
    | .error _ => goes .raised
  | .fetched snapshot =>
    if (s.used.getLast?.map Snapshot.versions) = some snapshot.versions then goes .refreshed
    else if site.checkTexts snapshot.texts = [] then goes (.checked snapshot)
    else goes .raised
  | .checked snapshot =>
    if (s.used.getLast?.map Snapshot.versions) = some snapshot.versions then goes .refreshed
    else some (s.use snapshot, { call with phase := .refreshed })
  | .refreshed =>
    match s.read site replies.prompts with
    | some (s, n) => some (s, { call with phase := .asked, asked := n })
    | none => goes .raised
  | .asked => if cache.agent.isSome then goes .agentSeen else goes .waiting
  | .agentSeen =>
    if isStale site s.now (s.agentCatalog ℓ) then goes .waiting
    else goes (.catalogFresh cache.agentCatalog)
  | .catalogFresh _ =>
    match cache.agentPrompts with
    | some n =>
      if s.agentPrompts site ℓ = s.revision site call.asked then goes (.promptsMatch n)
      else goes .waiting
    | none => goes .waiting
  | .promptsMatch _ => cache.agent.bind fun n => goes (.returned n)
  | .waiting =>
    match cache.lock with
    | none => some (s.setCache ℓ { cache with lock := some i }, { call with phase := .holding })
    | some _ => none
  | .holding =>
    if cache.agent.isSome && !isStale site s.now (s.agentCatalog ℓ) then goes .rechecked
    else goes .pinning
  | .rechecked =>
    match s.read site replies.prompts with
    | some (s, n) =>
      if s.agentPrompts site ℓ = s.revision site n then
        cache.agent.bind fun m =>
          some (s.setCache ℓ { cache with lock := none }, { call with phase := .returned m })
      else some (s, { call with phase := .pinning })
    | none => leaves cache .raised
  | .pinning =>
    match s.read site replies.prompts with
    | some (s, n) => some (s, { call with phase := .pinned n })
    | none => leaves cache .raised
  | .pinned snapshot =>
    let (s, catalog) := s.currentCatalog site replies
    some (s.setCache ℓ (cache.begin ℓ ⟨catalog, snapshot⟩),
      { call with phase := .building cache.builds.length })
  | .building n =>
    some (s.setCache ℓ { cache with agent := some n }, { call with phase := .agentSet n })
  | .agentSet n =>
    match ℓ with
    | .rejection =>
      some (s.setCache ℓ { cache with agentCatalog := some n },
        { call with phase := .catalogSet n })
    | .dlt => goes (.catalogSet n)
  | .catalogSet n =>
    some (s.setCache ℓ { cache with agentPrompts := some n },
      { call with phase := .promptsSet n })
  | .promptsSet n =>
    leaves { cache with
      builtFrom := Function.update cache.builtFrom n (cache.builds[n]?.map Build.snapshot) }
      (.returned n)
  | .returned n =>
    match cache.builtFrom n with
    | some snapshot => goes (.running n snapshot)
    | none =>
      match s.read site replies.prompts with
      | some (s, snapshot) => some (s, { call with phase := .running n snapshot })
      | none => goes .raised
  | .running _ _ => goes .ended
  | .idle | .ended | .raised => none

/-- What may happen: the API boots, time passes, a thread calls, goes on, or fails while it builds
its graph. -/
inductive Action (ι : Type*) where
  | activate (answers : Text → Answer)
  | tick (d : ℕ)
  | call (i : ι)
  | next (i : ι) (replies : Replies)
  | fail (i : ι)

def step (s : State S ι) : Action ι → Option (State S ι)
  | .activate answers => (fetchChecked site answers).map s.use
  | .tick d => some { s with now := s.now + d }
  | .call i =>
    match (s.calls i).phase with
    | .idle =>
      some (s.setCall i ⟨.refreshing, s.now, (s.caches (site.lane i)).agentCatalog, 0⟩)
    | _ => none
  | .next i replies =>
    (advance site s i replies (s.calls i)).map fun (s, call) => s.setCall i call
  | .fail i =>
    match (s.calls i).phase with
    | .building _ =>
      let cache := s.caches (site.lane i)
      some ((s.setCache (site.lane i) { cache with lock := none }).setCall i
        { s.calls i with phase := .raised })
    | _ => none

/-- Nothing is in use and no thread has called. -/
def AtStart (s : State S ι) : Prop :=
  s.used = [] ∧ s.listed = none ∧ (∀ i, s.calls i = { phase := .idle }) ∧
    ∀ ℓ, s.caches ℓ = ⟨[], none, none, none, fun _ => none, none⟩

def graphs : Machine (State S ι) (Action ι) where
  start := AtStart
  step := step site

end

end ResidentCrm.Prompts
