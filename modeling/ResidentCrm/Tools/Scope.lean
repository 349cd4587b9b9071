import ResidentCrm.Services.Packs
import ResidentCrm.Tools.Harness

/-!
# The tools of an agent

`tools/mcp_client.py`: the catalog of what the servers list, the tools that a role gets for a packet
of a service, and the opencode agents made of them; the scopes are those of
`utils/service_registry.py`, and `_task_agent` of `utils/opencode_runner.py` picks the agent of a
task. What a server lists is given, and so is why it could not be listed.

The descriptions, the schemas and the guidance of the tools, which no selection reads, are left out,
and so are the addresses and headers of the servers.
-/

namespace ResidentCrm.Tools

open Services (Registry Entry defaultPack)

/-- `AGENT_ROLES` -/
inductive Role where
  | investigator
  | reviewer
  | synthesis
  | logFilter
  | dltInvestigator
  | dltReviewer
  | dltSynthesis
deriving DecidableEq

namespace Role

def name : Role → Text
  | investigator => "investigator".toList
  | reviewer => "reviewer".toList
  | synthesis => "synthesis".toList
  | logFilter => "log_filter".toList
  | dltInvestigator => "dlt_investigator".toList
  | dltReviewer => "dlt_reviewer".toList
  | dltSynthesis => "dlt_synthesis".toList

/-- `SERVICE_ROLES` -/
def serviceRoles : List Role := [investigator, reviewer, synthesis, logFilter]

/-- `DLT_ROLES` -/
def dltRoles : List Role := [dltInvestigator, dltReviewer, dltSynthesis]

def agentRoles : List Role := serviceRoles ++ dltRoles

/-- `HARNESS_ROLES` -/
def harnessRoles : List Role := [investigator, reviewer, dltInvestigator, dltReviewer]

def ofName (text : Text) : Option Role := agentRoles.find? (·.name = text)

end Role

/-- `ALL_SERVICES` -/
def allServices : Text := "*".toList

/-! ## Settings -/

/-- The parts of a list that commas separate. -/
def parts (raw : Text) : List Text := ((raw.splitOn ',').map Text.strip).filter (· ≠ [])

/-- `docs_roles`, which raises where a role is named that there is not. -/
def docsRoles (raw : Text) : Option (List Role) :=
  if raw.strip = [] then some Role.agentRoles
  else if raw.strip.lower = "none".toList then some []
  else if (parts raw).all fun part => (Role.ofName part).isSome then
    some (Role.agentRoles.filter (·.name ∈ parts raw))
  else none

/-- The environment: `AGENT_TOOLS_COMMON`, `AGENT_TOOLS_<ROLE>` and `AGENT_DOCS_ROLES`, which is
checked at boot. -/
structure Settings where
  common : Text
  roleTools : Role → Text
  docs : Text
  docsValid : (docsRoles docs).isSome = true

def Settings.docsRoles (settings : Settings) : List Role :=
  (Tools.docsRoles settings.docs).get settings.docsValid

/-- `_common_names` -/
def commonNames (settings : Settings) : List Text := parts settings.common

/-- `_override` -/
def override (settings : Settings) (role : Role) : Option (List Text) :=
  let raw := (settings.roleTools role).strip
  if raw = [] then none
  else if raw.lower = "none".toList then some []
  else some (parts raw).eraseDups

/-! ## The packs -/

/-- The `tools` section of the document of a pack. -/
structure ToolsSection where
  included : List Text := []
  excluded : List Text := []

/-- The registry with the `tools` sections of the documents. A default pack that includes a tool is
not registered. -/
structure Packs where
  registry : Registry
  tools : Text → ToolsSection
  nothingByDefault : (tools defaultPack).included = []

namespace Packs

def isRegistered (packs : Packs) (name : Text) : Bool :=
  name ≠ [] && name ≠ defaultPack && (packs.registry.packs.lookup name).isSome

def toolPrefix (packs : Packs) (service : Text) : Option Text :=
  (packs.registry.packs.lookup service).bind (·.toolPrefix)

/-- `tool_scope` -/
def toolScope (packs : Packs) (name : Text) : ToolsSection :=
  if name ≠ [] ∧ (packs.registry.packs.lookup name).isSome then packs.tools name else {}

/-- `scopes` -/
def scopes (packs : Packs) : List Text := packs.registry.services ++ [defaultPack]

end Packs

/-- `service_slug` -/
def serviceSlug (name : Text) : Text :=
  if name = defaultPack then "default".toList
  else name.map fun c => if Services.isLower c || Services.isDigit c then c else '_'

inductive PrefixError where
  /-- Scoped to `owner` alone, the tool must start with its prefix. -/
  | notOfOwner (tool owner toolPrefix : Text)
  /-- The prefix of `service` is not for a tool of these services. -/
  | claims (tool service toolPrefix : Text) (services : List Text)

/-- The tool's name starts with the prefix. -/
def carries (tool toolPrefix : Text) : Bool := (toolPrefix ++ ['_']).isPrefixOf tool

/-- The error of a tool that carries the prefix of a service. -/
def claimError (packs : Packs) (tool : Text) (services : List Text) (service : Text) :
    Option PrefixError :=
  ((packs.toolPrefix service).filter fun toolPrefix => toolPrefix ≠ [] && carries tool toolPrefix).map
    (.claims tool service · services)

/-- `tool_prefix_error` -/
def toolPrefixError (packs : Packs) (tool : Text) (services : List Text) : Option PrefixError :=
  if services = [] then none
  else
    match services.filter (· ≠ allServices), decide (allServices ∈ services) with
    | [owner], false =>
      if packs.isRegistered owner then
        let toolPrefix := (packs.toolPrefix owner).getD "None".toList
        if carries tool toolPrefix then none else some (.notOfOwner tool owner toolPrefix)
      else none
    | _, _ => packs.registry.services.findSome? (claimError packs tool services)

/-! ## The catalog -/

structure RemoteTool where
  server : ServerConfig
  name : Text
  toolset : Option Text
  agents : List Role
  services : List Text
deriving DecidableEq

def RemoteTool.opencodeName (tool : RemoteTool) : Text := Tools.opencodeName tool.server tool.name

def RemoteTool.isDocs (tool : RemoteTool) : Bool := tool.server.kind = .docs

/-- A tool as its server lists it. -/
structure Listed where
  name : Text
  metadata : Json

def docsToolset : Text := "Service documentation".toList

/-- The elements of a JSON list. -/
def elements : Json → List Json
  | .array l => l
  | _ => []

/-- `_remote_tool` -/
def remoteTool (settings : Settings) (server : ServerConfig) (tool : Listed) : RemoteTool :=
  let toolset := (tool.metadata.item "uidai.crm/toolset".toList).string
  if server.kind = .docs then
    { server := server
      name := tool.name
      toolset := if (toolset.getD []).strip = [] then some docsToolset else toolset
      agents := settings.docsRoles
      services := [allServices] }
  else
    { server := server
      name := tool.name
      toolset := toolset
      agents := (elements (tool.metadata.item "uidai.crm/agents".toList)).filterMap
        fun role => role.string.bind Role.ofName
      services := (((elements (tool.metadata.item "uidai.crm/services".toList)).filterMap
        Json.string).map Text.strip |>.filter (· ≠ [])).eraseDups }

structure Catalog where
  servers : List ServerConfig
  tools : List RemoteTool
  /-- Why a server could not be listed. -/
  failures : List (Text × Text)

def Catalog.complete (catalog : Catalog) : Bool := catalog.failures.isEmpty

/-- `RESERVED_TOOL_NAMES` -/
def reservedToolNames : List Text :=
  ["write_todos", "ls", "read_file", "write_file", "edit_file", "glob", "grep", "execute", "task",
    "queue_for_replay", "add_learning_rule"].map String.toList

section

variable (packs : Packs) (settings : Settings)

/-- A listed tool is kept where its name is free and keeps the prefix rule. -/
def addTool (tools : List RemoteTool) (remote : RemoteTool) : List RemoteTool :=
  if remote.name ∈ reservedToolNames then tools
  else if remote.name ∈ tools.map RemoteTool.name then tools
  else if (toolPrefixError packs remote.name remote.services).isSome then tools
  else tools ++ [remote]

def addServer (list : ServerConfig → Except Text (List Listed)) (catalog : Catalog)
    (server : ServerConfig) : Catalog :=
  match list server with
  | .error error => { catalog with failures := catalog.failures ++ [(server.name, error)] }
  | .ok listed =>
    let remote := listed.map (remoteTool settings server)
    { catalog with tools := remote.foldl (addTool packs) catalog.tools }

/-- `load_catalog` -/
def loadCatalog (configured : List ServerConfig)
    (list : ServerConfig → Except Text (List Listed)) : Catalog :=
  configured.foldl (addServer packs settings list) ⟨configured, [], []⟩

/-! ## The selection -/

/-- `in_scope` -/
def inScope (tool : RemoteTool) (service : Text) : Bool :=
  let scope := packs.toolScope service
  if tool.name ∈ scope.excluded then false
  else if tool.name ∈ scope.included ∨ allServices ∈ tool.services then true
  else if service ≠ defaultPack ∧ service ∈ tool.services then true
  else tool.services = [] && tool.name ∈ commonNames settings

inductive SelectionError where
  | unscoped (role : Role)
  | noDefaultPack (role : Role)
  /-- Documentation tools are not chosen by `AGENT_TOOLS_<ROLE>`. -/
  | docsNamed (role : Role) (names : List Text)
  | unserved (role : Role) (unknown served : List Text)

/-- `_check_scope` -/
def checkScope (role : Role) (service : Option Text) : Except SelectionError Unit :=
  if role ∈ Role.serviceRoles ∧ service.getD [] = [] then .error (.unscoped role)
  else if role ∈ Role.dltRoles ∧ service = some defaultPack then .error (.noDefaultPack role)
  else .ok ()

/-- `_order` of the first is not behind that of the second. -/
def orderLe (a b : RemoteTool) : Bool :=
  let (s, t) := (a.toolset.getD [], b.toolset.getD [])
  s < t || (s = t && a.name ≤ b.name)

variable (catalog : Catalog)

def docs : List RemoteTool := catalog.tools.filter (·.isDocs)

def served : List RemoteTool := catalog.tools.filter (!·.isDocs)

/-- The tool of a name, where the tools servers serve it. -/
def known (name : Text) : Option RemoteTool := (served catalog).reverse.find? (·.name = name)

/-- The tools of the tools servers that a role gets. -/
def choose (role : Role) : Except SelectionError (List RemoteTool) :=
  match override settings role with
  | none => .ok ((served catalog).filter (role ∈ ·.agents))
  | some names =>
    let namedDocs := names.filter (· ∈ (docs catalog).map RemoteTool.name)
    let unknown := names.filter fun name => (known catalog name).isNone
    if namedDocs ≠ [] then .error (.docsNamed role namedDocs)
    else if unknown ≠ [] ∧ catalog.complete then
      .error (.unserved role unknown
        (((served catalog).map RemoteTool.name).mergeSort fun a b => a ≤ b))
    else .ok (names.filterMap (known catalog))

/-- `selection` -/
def selection (role : Role) (service : Option Text) : Except SelectionError (List RemoteTool) := do
  checkScope role service
  let chosen ← choose settings catalog role
  let all := chosen.mergeSort orderLe ++
    ((docs catalog).filter (role ∈ ·.agents)).mergeSort orderLe
  return match service with
    | none => all
    | some service => all.filter (inScope packs settings · service)

/-! ## opencode -/

/-- `opencode_agent` -/
def opencodeAgent (role : Role) (service : Option Text) : Text :=
  let agent := "crm_".toList ++ role.name
  let service := service.filter (· ≠ [])
  if role ∈ Role.serviceRoles then
    agent ++ "__".toList ++ serviceSlug (service.getD defaultPack)
  else match service with
    | some service => agent ++ "__".toList ++ serviceSlug service
    | none => agent

/-- The `mcp` and `agent` blocks: the names of the servers, and which tools each agent may use. -/
structure Config where
  mcp : List Text
  agents : List (Text × List (Text × Bool))

/-- The scopes that a harness role has agents for. -/
def harnessScopes (role : Role) : List (Option Text) :=
  if role ∈ Role.serviceRoles then packs.scopes.map some
  else none :: packs.registry.services.map some

/-- The tools an agent may use, all others of the servers switched off. -/
def agentTools (servers : List ServerConfig) (chosen : List RemoteTool) : List (Text × Bool) :=
  chosen.foldl (fun tools tool => if tool.isDocs then tools else setItem tool.opencodeName true tools)
    (dictOf (servers.map fun server => (server.name ++ "_*".toList, false)))

/-- The agents with that of one more role and scope. -/
def addAgent (agents : List (Text × List (Text × Bool))) (task : Role × Option Text) :
    Except SelectionError (List (Text × List (Text × Bool))) := do
  let chosen ← selection packs settings catalog task.1 task.2
  return setItem (opencodeAgent task.1 task.2)
    (agentTools (ofKind catalog.servers .tools) chosen) agents

/-- The role and the scope of each agent. -/
def harnessTasks : List (Role × Option Text) :=
  Role.harnessRoles.flatMap fun role => (harnessScopes packs role).map (role, ·)

/-- `opencode_config` -/
def opencodeConfig : Except SelectionError Config :=
  let servers := ofKind catalog.servers .tools
  if servers = [] then .ok ⟨[], []⟩
  else do
    let agents ← (harnessTasks packs).foldlM (addAgent packs settings catalog) []
    return ⟨servers.map ServerConfig.name, agents⟩

/-- `_harness_config`: without tools where they cannot be worked out. -/
def harnessConfig : Config :=
  match opencodeConfig packs settings catalog with
  | .ok config => config
  | .error _ => ⟨[], []⟩

/-- `OpencodeUnavailable`: there is no agent for the node and the service. -/
structure Unavailable where
  node : Role
  service : Option Text

/-- `_task_agent` -/
def taskAgent (node : Role) (service : Option Text) (config : Config) :
    Except Unavailable (Option Text) :=
  let candidates := opencodeAgent node service ::
    if node ∈ Role.serviceRoles then [opencodeAgent node (some defaultPack)] else []
  match candidates.find? (· ∈ config.agents.map Prod.fst) with
  | some agent => .ok (some agent)
  | none => if config.mcp ≠ [] then .error ⟨node, service⟩ else .ok none

end

end ResidentCrm.Tools
