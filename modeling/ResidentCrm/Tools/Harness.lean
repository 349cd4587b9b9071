import ResidentCrm.Tools.Evidence

/-!
# Evidence from the harness

`evidence_from_harness` of `tools/mcp_client.py`. The harness calls a tool by the name of its
server, an underscore and its own name; which server it was is told by the first name of a tools
server that the call starts with. `names_tool_iff`: the tool's own name is found exactly when no
tools server has a name that, with an underscore, begins the name of the tool's server.
-/

namespace ResidentCrm.Tools

inductive Kind where
  | tools
  | docs
deriving DecidableEq

/-- `ServerConfig`, as far as naming goes. -/
structure ServerConfig where
  name : Text
  kind : Kind
deriving DecidableEq

def isLower (c : Char) : Bool := 'a' ≤ c && c ≤ 'z'

/-- `^[a-z][a-z0-9_]{0,31}$`, whose end may stand before a last line break. -/
def isServerName (name : Text) : Bool :=
  match if name.getLast? = some '\n' then name.dropLast else name with
  | [] => false
  | c :: rest =>
    isLower c && rest.all (fun c => isLower c || ('0' ≤ c && c ≤ '9') || c = '_') &&
      rest.length ≤ 31

/-- The servers of `AGENT_MCP_SERVERS`, by name. -/
structure Document where
  servers : List ServerConfig
  nodup : (servers.map ServerConfig.name).Nodup

/-- `_parse_servers`, which refuses a name that is against the rule. -/
def parseServers (document : Document) : Option (List ServerConfig) :=
  if document.servers.all (isServerName ·.name) then
    some (document.servers.mergeSort fun a b => a.name ≤ b.name)
  else none

def ofKind (configured : List ServerConfig) (kind : Kind) : List ServerConfig :=
  configured.filter (·.kind = kind)

/-- `RemoteTool.opencode_name` -/
def opencodeName (server : ServerConfig) (tool : Text) : Text := server.name ++ '_' :: tool

/-- A tool call of an opencode task. -/
structure Call where
  tool : Text
  input : Json
  output : Text

/-- The record of a call, where the call is to one of the servers. -/
def evidenceOf (toolServers : List ServerConfig) (call : Call) : Option Evidence :=
  (toolServers.find? fun server => (server.name ++ ['_']).isPrefixOf call.tool).map fun server =>
    { tool := call.tool.drop (server.name.length + 1)
      args := match call.input with
        | .object items => items
        | _ => []
      result := bounded call.output maxRecordedResultChars }

def evidenceFromHarness (servers : List ServerConfig) (calls : List Call) : List Evidence :=
  calls.filterMap (evidenceOf (ofKind servers .tools))

/-! ## The first server a call starts with -/

section

variable {a b : Text} {server other : ServerConfig} {tool : Text}

theorem lt_of_isPrefix (h : a ++ ['_'] <+: b) : a < b := by
  obtain ⟨rest, rfl⟩ := h
  rw [List.append_assoc]
  refine lt_of_le_of_ne (not_lt.1 List.le_append_left) fun heq => ?_
  have hlength := congrArg List.length heq
  simp at hlength

/-- Of two servers a call may be to, the name of one begins the name of the other. -/
theorem prefix_of_longer (ha : a ++ ['_'] <+: b ++ '_' :: tool) (hlength : a.length < b.length) :
    a ++ ['_'] <+: b :=
  List.prefix_of_prefix_length_le ha (List.prefix_append _ _) (by
    rw [List.length_append, List.length_singleton]
    exact hlength)

/-- A call to a tool of a server starts with its name. -/
theorem prefix_opencodeName (server : ServerConfig) (tool : Text) :
    server.name ++ ['_'] <+: opencodeName server tool := by
  have hparts : opencodeName server tool = (server.name ++ ['_']) ++ tool := by simp [opencodeName]
  rw [hparts]
  exact List.prefix_append _ _

theorem eq_of_starts (ha : a ++ ['_'] <+: b ++ '_' :: tool) (hlength : a.length = b.length) :
    a = b := by
  have hprefix : a <+: b ++ '_' :: tool := (List.prefix_append _ _).trans ha
  exact (List.prefix_of_prefix_length_le hprefix (List.prefix_append _ _)
    (Nat.le_of_eq hlength)).eq_of_length hlength

theorem prefix_of_shorter (ha : a ++ ['_'] <+: opencodeName server tool)
    (hlength : server.name.length < a.length) : server.name ++ ['_'] <+: a := by
  refine List.prefix_of_prefix_length_le (prefix_opencodeName server tool)
    ((List.prefix_append _ _).trans ha) ?_
  rw [List.length_append, List.length_singleton]
  exact hlength

/-- What is found first in a sorted list is before all else that could be. -/
theorem find?_pairwise {α : Type*} {r : α → α → Prop} {p : α → Bool} {l : List α} {x : α}
    (hsorted : l.Pairwise r) (h : l.find? p = some x) {y : α} (hy : y ∈ l) (hp : p y = true) :
    x = y ∨ r x y := by
  induction l with
  | nil => cases hy
  | cons z l ih =>
    rw [List.pairwise_cons] at hsorted
    rw [List.find?_cons] at h
    split at h
    · obtain rfl := Option.some.inj h
      rcases List.mem_cons.1 hy with rfl | hy
      · exact .inl rfl
      · exact .inr (hsorted.1 y hy)
    · next hz =>
      rcases List.mem_cons.1 hy with rfl | hy
      · rw [hp] at hz
        cases hz
      · exact ih hsorted.2 h hy

theorem pairwise_servers {document : Document} {servers : List ServerConfig}
    (h : parseServers document = some servers) :
    (ofKind servers .tools).Pairwise (·.name < ·.name) := by
  rw [parseServers] at h
  split_ifs at h
  obtain rfl := Option.some.inj h
  have hsorted : (document.servers.mergeSort fun a b => a.name ≤ b.name).Pairwise
      fun a b => decide (a.name ≤ b.name) = true := List.pairwise_mergeSort
    (fun a b c hab hbc => by simp at *; exact le_trans hab hbc)
    (fun a b => by simpa using le_total a.name b.name) document.servers
  have hnodup : (document.servers.mergeSort fun a b => a.name ≤ b.name).Pairwise
      (·.name ≠ ·.name) :=
    List.pairwise_map.1 (((List.mergeSort_perm _ _).map _).nodup_iff.2 document.nodup)
  refine ((hsorted.and hnodup).imp fun hab => ?_).filter _
  exact lt_of_le_of_ne (by simpa using hab.1) hab.2

end

/-! ## The tool that is named -/

section

variable {document : Document} {servers : List ServerConfig}

theorem evidence_single (servers : List ServerConfig) (call : Call) :
    evidenceFromHarness servers [call] = (evidenceOf (ofKind servers .tools) call).toList := by
  rw [evidenceFromHarness]
  cases hcall : evidenceOf (ofKind servers .tools) call with
  | none => simp [hcall]
  | some record => simp [hcall]

theorem evidenceOf_eq_none_iff {toolServers : List ServerConfig} {call : Call} :
    evidenceOf toolServers call = none ↔
      ∀ server ∈ toolServers, ¬ server.name ++ ['_'] <+: call.tool := by
  rw [evidenceOf, Option.map_eq_none_iff, List.find?_eq_none]
  simp only [List.isPrefixOf_iff_prefix]

/-- A record tells of the first of the servers the call starts with. -/
theorem evidenceOf_eq_some {toolServers : List ServerConfig} {call : Call} {record : Evidence}
    (hsorted : toolServers.Pairwise (·.name < ·.name))
    (h : evidenceOf toolServers call = some record) :
    ∃ found ∈ toolServers, found.name ++ ['_'] <+: call.tool ∧
      record.tool = call.tool.drop (found.name.length + 1) ∧
      ∀ server ∈ toolServers, server.name ++ ['_'] <+: call.tool →
        found = server ∨ found.name < server.name := by
  obtain ⟨found, hfind, rfl⟩ := Option.map_eq_some_iff.1 h
  have hfound := List.find?_some hfind
  refine ⟨found, List.mem_of_find?_eq_some hfind, List.isPrefixOf_iff_prefix.1 hfound, rfl,
    fun server hserver hstarts => ?_⟩
  exact find?_pairwise hsorted hfind hserver (List.isPrefixOf_iff_prefix.2 hstarts)

/-- **A call to a tool is recorded under its own name exactly when the name of no tools server, with
an underscore, begins its server's.** -/
theorem named_iff (h : parseServers document = some servers) {server : ServerConfig}
    (hserver : server ∈ ofKind servers .tools) (tool : Text) (input : Json) (output : Text) :
    (∃ record, evidenceFromHarness servers [⟨opencodeName server tool, input, output⟩] = [record] ∧
      record.tool = tool) ↔
      ∀ other ∈ ofKind servers .tools, ¬ other.name ++ ['_'] <+: server.name := by
  have hsorted := pairwise_servers h
  have hown := prefix_opencodeName server tool
  rw [evidence_single]
  cases hevidence :
      evidenceOf (ofKind servers .tools) ⟨opencodeName server tool, input, output⟩ with
  | none => exact absurd hown (evidenceOf_eq_none_iff.1 hevidence server hserver)
  | some record =>
    obtain ⟨found, hfound, hstarts, htool, hfirst⟩ := evidenceOf_eq_some hsorted hevidence
    simp only [Option.toList_some, List.cons.injEq, and_true, exists_eq_left']
    constructor
    · rintro rfl other hother hbegins
      have hotherStarts : other.name ++ ['_'] <+: opencodeName server record.tool :=
        hbegins.trans (List.prefix_append _ _)
      have hbefore : found.name < server.name := by
        rcases hfirst other hother hotherStarts with rfl | hlt
        · exact lt_of_isPrefix hbegins
        · exact hlt.trans (lt_of_isPrefix hbegins)
      have hlength : found.name.length = server.name.length := by
        have hle := hstarts.length_le
        have heq := congrArg List.length htool
        simp only [opencodeName, List.length_append, List.length_cons, List.length_nil,
          List.length_drop] at hle heq
        omega
      exact hbefore.ne (eq_of_starts hstarts hlength)
    · intro hnone
      have hfoundServer : found.name.length = server.name.length := by
        rcases hfirst server hserver hown with rfl | hlt
        · rfl
        · rcases Nat.lt_trichotomy found.name.length server.name.length with hless | heq | hmore
          · exact absurd (prefix_of_longer hstarts hless) (hnone found hfound)
          · exact heq
          · exact absurd (lt_of_isPrefix (prefix_of_shorter hstarts hmore)) hlt.asymm
      have hparts : opencodeName server tool = (server.name ++ ['_']) ++ tool := by
        simp [opencodeName]
      rw [htool, hfoundServer, hparts]
      exact List.drop_left' List.length_append

theorem unrecorded_iff {servers : List ServerConfig} {call : Call} :
    evidenceFromHarness servers [call] = [] ↔
      ∀ server ∈ ofKind servers .tools, ¬ server.name ++ ['_'] <+: call.tool := by
  rw [evidence_single, Option.toList_eq_nil_iff, evidenceOf_eq_none_iff]

/-- **Evidence from the harness names the tool that was called exactly when the name of no tools
server, with an underscore, begins its server's name**, and a call of a documentation server is left
out exactly when none begins what it was called by. What is called by the name of no tools server is
always left out. -/
theorem harness_evidence_iff (h : parseServers document = some servers) (input : Json)
    (output : Text) :
    (∀ server ∈ ofKind servers .tools, ∀ tool,
      (∃ record, evidenceFromHarness servers [⟨opencodeName server tool, input, output⟩] =
        [record] ∧ record.tool = tool) ↔
      ∀ other ∈ ofKind servers .tools, ¬ other.name ++ ['_'] <+: server.name) ∧
    (∀ server ∈ ofKind servers .docs, ∀ tool,
      evidenceFromHarness servers [⟨opencodeName server tool, input, output⟩] = [] ↔
      ∀ other ∈ ofKind servers .tools, ¬ other.name ++ ['_'] <+: opencodeName server tool) ∧
    ∀ name, (∀ server ∈ ofKind servers .tools, ∀ tool, name ≠ opencodeName server tool) →
      evidenceFromHarness servers [⟨name, input, output⟩] = [] := by
  refine ⟨fun server hserver tool => named_iff h hserver tool input output,
    fun server _ tool => unrecorded_iff, fun name hname => unrecorded_iff.2 ?_⟩
  rintro server hserver ⟨tool, rfl⟩
  exact hname server hserver tool (by simp [opencodeName])

end

/-- Two tools servers, one named before an underscore in the other's name. -/
def crmAndLogs : Document where
  servers := [⟨"crm".toList, .tools⟩, ⟨"crm_logs".toList, .tools⟩]
  nodup := by decide

theorem parseServers_crmAndLogs : parseServers crmAndLogs = some crmAndLogs.servers := by
  have hsorted : crmAndLogs.servers.Pairwise fun a b => decide (a.name ≤ b.name) = true := by decide
  rw [parseServers, if_pos (by decide), List.mergeSort_of_pairwise hsorted]

theorem crm_named :
    ∃ record, evidenceFromHarness crmAndLogs.servers
      [⟨opencodeName ⟨"crm".toList, .tools⟩ "status".toList, .object [], []⟩] = [record] ∧
      record.tool = "status".toList :=
  ((harness_evidence_iff parseServers_crmAndLogs (.object []) []).1 _ (by decide) _).2 (by decide)

/-- A tool of the second server is recorded under another name. -/
theorem logs_search_misnamed :
    parseServers crmAndLogs = some crmAndLogs.servers ∧
    ¬ ∃ record, evidenceFromHarness crmAndLogs.servers
      [⟨opencodeName ⟨"crm_logs".toList, .tools⟩ "search".toList, .object [], []⟩] = [record] ∧
      record.tool = "search".toList := by
  refine ⟨parseServers_crmAndLogs, fun h => ?_⟩
  have hnone := (named_iff parseServers_crmAndLogs (by decide) _ _ _).1 h
    ⟨"crm".toList, .tools⟩ (by decide)
  exact hnone (by decide)

end ResidentCrm.Tools
