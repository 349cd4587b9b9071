import ResidentCrm.Tools.Isolation

/-!
# The agents of the harness

`opencode_config` makes one agent for each harness role and scope, and `_task_agent` picks the one a
task runs as. Where the names of the services are on one line, the agents have names of their own,
and each may use exactly the tools that its role is given for its scope (`agents_exact`). A task
whose service the server was started without runs as the agent for no service, and what that one may
use is in scope for the service but for what its pack excludes (`task_in_scope`).
-/

namespace ResidentCrm.Tools

open Services

/-! ## The names of the agents -/

/-- A name that a pack can be registered under, on one line. -/
def Legal (name : Text) : Prop :=
  name = defaultPack ∨ isServiceName name = true ∧ name ≠ "default".toList ∧ '\n' ∉ name

/-- What `service_slug` did to a name of a service, undone. -/
def unslug (slug : Text) : Text := slug.map fun c => if c = '_' then '-' else c

theorem unslug_serviceSlug {name : Text} (hne : name ≠ defaultPack) (h : isServiceName name = true)
    (hline : '\n' ∉ name) : unslug (serviceSlug name) = name := by
  have hend : atEnd name = name := by
    rw [atEnd, if_neg fun hlast => hline (List.mem_of_getLast? hlast)]
  have hchars : ∀ c ∈ name, (Services.isLower c || isDigit c) = true ∨ c = '-' := by
    unfold isServiceName at h
    rw [hend] at h
    intro c hc
    split at h
    · next d rest _ =>
      simp only [Bool.and_eq_true, List.all_eq_true, Bool.or_eq_true, decide_eq_true_eq] at h
      rcases List.mem_cons.1 hc with rfl | hc
      · exact .inl (Bool.or_eq_true_iff.2 (.inl h.1.1))
      · rcases h.2 c hc with hplain | hdash
        · exact .inl (Bool.or_eq_true_iff.2 hplain)
        · exact .inr hdash
    · cases h
  rw [serviceSlug, if_neg hne, unslug, List.map_map, List.map_congr_left, List.map_id]
  intro c hc
  rcases hchars c hc with hplain | rfl
  · have hscore : c ≠ '_' := by
      rintro rfl
      exact absurd hplain (by decide)
    rw [Function.comp_apply, if_pos hplain, if_neg hscore]
    rfl
  · rfl

theorem serviceSlug_inj {name other : Text} (h : Legal name) (h' : Legal other)
    (heq : serviceSlug name = serviceSlug other) : name = other := by
  have hdefault : ∀ {name : Text}, name ≠ defaultPack → isServiceName name = true →
      '\n' ∉ name → serviceSlug name = serviceSlug defaultPack → name = "default".toList := by
    intro name hne hname hline heq
    rw [← unslug_serviceSlug hne hname hline, heq]
    decide
  by_cases hname : name = defaultPack
  · by_cases hother : other = defaultPack
    · rw [hname, hother]
    · obtain ⟨hlegal, hreserved, hline⟩ := h'.resolve_left hother
      exact absurd (hdefault hother hlegal hline (by rw [← heq, hname])) hreserved
  · obtain ⟨hlegal, hreserved, hline⟩ := h.resolve_left hname
    by_cases hother : other = defaultPack
    · exact absurd (hdefault hname hlegal hline (by rw [heq, hother])) hreserved
    · obtain ⟨hlegal', -, hline'⟩ := h'.resolve_left hother
      rw [← unslug_serviceSlug hname hlegal hline, heq, unslug_serviceSlug hother hlegal' hline']

/-- A scope as `opencode_agent` reads it: a role of the rejection lane without one has the default
pack's. -/
def normal (role : Role) (service : Option Text) : Option Text :=
  if role ∈ Role.serviceRoles then some (service.getD defaultPack) else service

/-- The ending of an agent's name. -/
def ending (scope : Option Text) : Text := scope.elim [] fun name => "__".toList ++ serviceSlug name

theorem opencodeAgent_eq {role : Role} {service : Option Text} (h : ∀ s ∈ service, s ≠ []) :
    opencodeAgent role service = "crm_".toList ++ (role.name ++ ending (normal role service)) := by
  have hfilter : service.filter (· ≠ []) = service := by
    cases service with
    | none => rfl
    | some s => exact Option.filter_some_pos (decide_eq_true (h s rfl))
  unfold opencodeAgent normal
  rw [hfilter]
  split
  · simp [ending, List.append_assoc]
  · cases service with
    | none => simp [ending]
    | some s => simp [ending, List.append_assoc]

theorem Legal.ne_nil {name : Text} (h : Legal name) : name ≠ [] := by
  rcases h with rfl | h
  · decide
  · exact isServiceName_ne_nil h.1

/-- Two agents of the harness with one name are of one role and scope. -/
theorem opencodeAgent_inj {role other : Role} {service scope : Option Text}
    (hrole : role ∈ Role.harnessRoles) (hother : other ∈ Role.harnessRoles)
    (hservice : ∀ s ∈ service, Legal s) (hscope : ∀ s ∈ scope, Legal s)
    (h : opencodeAgent role service = opencodeAgent other scope) :
    role = other ∧ normal role service = normal other scope := by
  rw [opencodeAgent_eq fun s hs => (hservice s hs).ne_nil,
    opencodeAgent_eq fun s hs => (hscope s hs).ne_nil] at h
  have hname := List.append_cancel_left h
  have hlength : ∀ role ∈ Role.harnessRoles, 5 ≤ role.name.length := by decide
  have htake : role.name.take 5 = other.name.take 5 := by
    have := congrArg (List.take 5) hname
    rwa [List.take_append_of_le_length (hlength role hrole),
      List.take_append_of_le_length (hlength other hother)] at this
  have hroles : ∀ role ∈ Role.harnessRoles, ∀ other ∈ Role.harnessRoles,
      role.name.take 5 = other.name.take 5 → role = other := by decide
  obtain rfl := hroles role hrole other hother htake
  refine ⟨rfl, ?_⟩
  have hlegal : ∀ {service : Option Text}, (∀ s ∈ service, Legal s) →
      ∀ s ∈ normal role service, Legal s := by
    intro service hservice s hs
    unfold normal at hs
    split at hs
    · obtain rfl := Option.mem_some_iff.1 hs
      cases service with
      | none => exact .inl rfl
      | some s => exact hservice s rfl
    · exact hservice s hs
  have hending := List.append_cancel_left hname
  have hfirst := hlegal hservice
  have hsecond := hlegal hscope
  revert hending hfirst hsecond
  cases normal role service with
  | none =>
    cases normal role scope with
    | none => exact fun _ _ _ => rfl
    | some s => exact fun hending => absurd hending (by simp [ending])
  | some s =>
    cases normal role scope with
    | none => exact fun hending => absurd hending (by simp [ending])
    | some t =>
      intro hending hfirst hsecond
      have hslug : serviceSlug s = serviceSlug t := List.append_cancel_left hending
      rw [serviceSlug_inj (hfirst s rfl) (hsecond t rfl) hslug]

/-! ## What an agent may use -/

/-- An agent may use the tools it is given, and every server's others are switched off. -/
theorem lookup_agentTools (servers : List ServerConfig) (chosen : List RemoteTool) (name : Text) :
    (agentTools servers chosen).lookup name =
      if name ∈ (chosen.filter (!·.isDocs)).map RemoteTool.opencodeName then some true
      else if name ∈ servers.map fun server => server.name ++ "_*".toList then some false
      else none := by
  have hchosen : ∀ (chosen : List RemoteTool) (tools : List (Text × Bool)),
      (chosen.foldl (fun tools tool =>
        if tool.isDocs then tools else setItem tool.opencodeName true tools) tools).lookup name =
      if name ∈ (chosen.filter (!·.isDocs)).map RemoteTool.opencodeName then some true
      else tools.lookup name := by
    intro chosen
    induction chosen with
    | nil => simp
    | cons tool chosen ih =>
      intro tools
      rw [List.foldl_cons, ih, List.filter_cons]
      cases tool.isDocs with
      | true => simp
      | false =>
        by_cases hmem : name ∈ (chosen.filter (!·.isDocs)).map RemoteTool.opencodeName
        · simp [hmem]
        · simp [hmem, lookup_setItem]
  have hservers : ∀ (servers : List ServerConfig) (tools : List (Text × Bool)),
      ((servers.map fun server => (server.name ++ "_*".toList, false)).foldl
        (fun tools pair => setItem pair.1 pair.2 tools) tools).lookup name =
      if name ∈ servers.map fun server => server.name ++ "_*".toList then some false
      else tools.lookup name := by
    intro servers
    induction servers with
    | nil => simp
    | cons server servers ih =>
      intro tools
      rw [List.map_cons, List.foldl_cons, ih]
      by_cases hmem : name ∈ servers.map fun server => server.name ++ "_*".toList
      · simp only [hmem, if_true, List.map_cons, List.mem_cons, or_true]
      · simp only [hmem, if_false, List.map_cons, List.mem_cons, or_false, lookup_setItem]
  unfold agentTools dictOf
  rw [hchosen, hservers]
  rfl

section

variable {packs : Packs} {settings : Settings} {catalog : Catalog}

/-- Adding the agents of some tasks with names of their own gives each its tools, and leaves the
others as they are. -/
theorem addAgents_spec : ∀ {tasks : List (Role × Option Text)}
    {agents out : List (Text × List (Text × Bool))},
    tasks.foldlM (addAgent packs settings catalog) agents = .ok out →
    (tasks.map fun task => opencodeAgent task.1 task.2).Nodup →
    (∀ task ∈ tasks, ∃ chosen, selection packs settings catalog task.1 task.2 = .ok chosen ∧
      out.lookup (opencodeAgent task.1 task.2) =
        some (agentTools (ofKind catalog.servers .tools) chosen)) ∧
    ∀ name ∉ tasks.map fun task => opencodeAgent task.1 task.2, out.lookup name = agents.lookup name
  | [], agents, out, h, _ => by
    obtain rfl : agents = out := Except.ok.inj h
    exact ⟨fun task htask => absurd htask List.not_mem_nil, fun name _ => rfl⟩
  | task :: tasks, agents, out, h, hnodup => by
    rw [List.foldlM_cons] at h
    rw [List.map_cons, List.nodup_cons] at hnodup
    cases hselection : selection packs settings catalog task.1 task.2 with
    | error e =>
      rw [addAgent, hselection] at h
      cases h
    | ok chosen =>
      rw [addAgent, hselection] at h
      obtain ⟨hrest, hothers⟩ := addAgents_spec h hnodup.2
      refine ⟨?_, ?_⟩
      · intro other hother
        rcases List.mem_cons.1 hother with rfl | hother
        · exact ⟨chosen, hselection, by rw [hothers _ hnodup.1, lookup_setItem, if_pos rfl]⟩
        · exact hrest other hother
      · intro name hname
        rw [List.map_cons, List.mem_cons, not_or] at hname
        rw [hothers name hname.2, lookup_setItem, if_neg hname.1]

/-- The names of the registered services are on one line. -/
def OneLine (packs : Packs) : Prop := ∀ name ∈ packs.registry.services, '\n' ∉ name

theorem legal_of_mem_services (hlawful : AllLawful packs.registry) (hline : OneLine packs)
    {name : Text} (h : name ∈ packs.registry.services) : Legal name := by
  obtain ⟨hne, pack, hpack⟩ := mem_services.1 h
  obtain ⟨hname, hreserved⟩ := (hlawful name pack hpack).named.resolve_left hne
  exact .inr ⟨hname, hreserved, hline name h⟩

theorem nodup_services : packs.registry.services.Nodup :=
  (List.perm_insertionSort _ _).nodup_iff.2 (packs.registry.packs.nodupKeys.filter _)

theorem mem_harnessTasks {role : Role} {scope : Option Text} :
    (role, scope) ∈ harnessTasks packs ↔
      role ∈ Role.harnessRoles ∧ scope ∈ harnessScopes packs role := by
  simp [harnessTasks]

theorem legal_of_mem_harnessScopes (hlawful : AllLawful packs.registry) (hline : OneLine packs)
    {role : Role} {scope : Option Text} (h : scope ∈ harnessScopes packs role) :
    (∀ s ∈ scope, Legal s) ∧ normal role scope = scope := by
  unfold harnessScopes at h
  split at h
  · next hrole =>
    obtain ⟨name, hname, rfl⟩ := List.mem_map.1 h
    refine ⟨?_, by rw [normal, if_pos hrole, Option.getD_some]⟩
    intro s hs
    obtain rfl := Option.mem_some_iff.1 hs
    rcases List.mem_append.1 hname with hname | hname
    · exact legal_of_mem_services hlawful hline hname
    · exact .inl (List.mem_singleton.1 hname)
  · next hrole =>
    refine ⟨?_, by rw [normal, if_neg hrole]⟩
    rcases List.mem_cons.1 h with rfl | h
    · intro s hs
      cases hs
    · obtain ⟨name, hname, rfl⟩ := List.mem_map.1 h
      intro s hs
      obtain rfl := Option.mem_some_iff.1 hs
      exact legal_of_mem_services hlawful hline hname

/-- Each role and scope has an agent of its own. -/
theorem nodup_agents (hlawful : AllLawful packs.registry) (hline : OneLine packs) :
    ((harnessTasks packs).map fun task => opencodeAgent task.1 task.2).Nodup := by
  have hscopes : ∀ role, (harnessScopes packs role).Nodup := by
    intro role
    have hservices : packs.registry.services.Nodup := nodup_services
    unfold harnessScopes
    split
    · apply List.Nodup.map (Option.some_injective _)
      apply hservices.append (List.nodup_singleton _)
      intro name hname hdefault
      exact (mem_services.1 hname).1 (List.mem_singleton.1 hdefault)
    · exact List.nodup_cons.2 ⟨by simp, hservices.map (Option.some_injective _)⟩
  have htasks : (harnessTasks packs).Nodup := by
    apply List.nodup_flatMap.2
    refine ⟨fun role _ => (hscopes role).map (Prod.mk_right_injective role), ?_⟩
    have hroles : Role.harnessRoles.Nodup := by decide
    apply hroles.imp
    intro role other hne task htask htask'
    obtain ⟨scope, -, rfl⟩ := List.mem_map.1 htask
    obtain ⟨scope', -, heq⟩ := List.mem_map.1 htask'
    exact hne (congrArg Prod.fst heq).symm
  apply htasks.map_on
  intro task htask other hother heq
  obtain ⟨hrole, hscope⟩ := mem_harnessTasks.1 htask
  obtain ⟨hrole', hscope'⟩ := mem_harnessTasks.1 hother
  obtain ⟨hlegal, hnormal⟩ := legal_of_mem_harnessScopes hlawful hline hscope
  obtain ⟨hlegal', hnormal'⟩ := legal_of_mem_harnessScopes hlawful hline hscope'
  obtain ⟨hroles, hscopes⟩ := opencodeAgent_inj hrole hrole' hlegal hlegal' heq
  rw [hnormal, hnormal'] at hscopes
  exact Prod.ext hroles hscopes

/-- The config of the harness has an agent for every role and scope, with the tools selected, and no
other agent. -/
theorem opencodeConfig_spec (hlawful : AllLawful packs.registry) (hline : OneLine packs)
    (hservers : ofKind catalog.servers .tools ≠ []) {config : Config}
    (h : opencodeConfig packs settings catalog = .ok config) :
    config.mcp ≠ [] ∧
    (∀ task ∈ harnessTasks packs, ∃ chosen,
      selection packs settings catalog task.1 task.2 = .ok chosen ∧
      config.agents.lookup (opencodeAgent task.1 task.2) =
        some (agentTools (ofKind catalog.servers .tools) chosen)) ∧
    ∀ name, (config.agents.lookup name).isSome → ∃ task ∈ harnessTasks packs,
      opencodeAgent task.1 task.2 = name := by
  unfold opencodeConfig at h
  dsimp only at h
  rw [if_neg hservers] at h
  cases hagents : (harnessTasks packs).foldlM (addAgent packs settings catalog) [] with
  | error e =>
    rw [hagents] at h
    cases h
  | ok agents =>
    rw [hagents] at h
    obtain rfl := Except.ok.inj h
    obtain ⟨hown, hothers⟩ := addAgents_spec hagents (nodup_agents hlawful hline)
    refine ⟨by simpa using hservers, hown, ?_⟩
    intro name hname
    by_contra hnone
    have hnotMem : name ∉ (harnessTasks packs).map fun task => opencodeAgent task.1 task.2 := by
      intro hmem
      obtain ⟨task, htask, heq⟩ := List.mem_map.1 hmem
      exact hnone ⟨task, htask, heq⟩
    rw [hothers name hnotMem] at hname
    cases hname

end

section

variable {packs : Packs} {settings : Settings} {configured : List ServerConfig}
  {list : ServerConfig → Except Text (List Listed)} {compile : Text → Option Pattern}
  {lower : Text → Text} {entries : List Entry}

/-- A tool that is served is of a configured tools server. -/
theorem server_of_served {tool : RemoteTool}
    (h : tool ∈ served (loadCatalog packs settings configured list)) :
    tool.server ∈ ofKind configured .tools := by
  obtain ⟨htool, hdocs⟩ := List.mem_filter.1 h
  obtain ⟨-, server, hserver, listed, heq⟩ := listing_loadCatalog tool htool
  have hserved : tool.server = server := by
    rw [heq, remoteTool]
    split <;> rfl
  rw [hserved]
  refine List.mem_filter.2 ⟨hserver, decide_eq_true ?_⟩
  rw [RemoteTool.isDocs, hserved] at hdocs
  cases hkind : server.kind with
  | tools => rfl
  | docs => simp [hkind] at hdocs

/-- Where the name of no tools server, with an underscore, begins another's, opencode knows the
tools apart. -/
theorem eq_of_opencodeName
    (hnone : ∀ a ∈ ofKind configured .tools, ∀ b ∈ ofKind configured .tools,
      ¬ a.name ++ ['_'] <+: b.name) {tool other : RemoteTool}
    (htool : tool ∈ served (loadCatalog packs settings configured list))
    (hother : other ∈ served (loadCatalog packs settings configured list))
    (h : tool.opencodeName = other.opencodeName) : tool = other := by
  have hstarts : tool.server.name ++ ['_'] <+: other.opencodeName :=
    h ▸ prefix_opencodeName tool.server tool.name
  have hlength : tool.server.name.length = other.server.name.length := by
    rcases Nat.lt_trichotomy tool.server.name.length other.server.name.length with
      hless | heq | hmore
    · exact absurd (prefix_of_longer hstarts hless)
        (hnone _ (server_of_served htool) _ (server_of_served hother))
    · exact heq
    · exact absurd (prefix_of_shorter hstarts hmore)
        (hnone _ (server_of_served hother) _ (server_of_served htool))
  have hserver := eq_of_starts hstarts hlength
  have hname : tool.name = other.name := by
    rw [RemoteTool.opencodeName, RemoteTool.opencodeName, opencodeName, opencodeName, hserver] at h
    exact List.cons_injective (List.append_cancel_left h)
  exact List.inj_on_of_nodup_map nodup_loadCatalog (List.mem_filter.1 htool).1
    (List.mem_filter.1 hother).1 hname

/-- **Each harness role and scope has an agent of its own, which may use exactly the tools that the
role is given for that scope**, by their names in opencode; all else that the tools servers serve is
switched off. Where the name of no tools server, with an underscore, begins another's, that tells
every served tool. -/
theorem agents_exact (hbuild : packs.registry = build compile lower entries)
    (hline : OneLine packs) (hservers : ofKind configured .tools ≠ []) {config : Config}
    (h : opencodeConfig packs settings (loadCatalog packs settings configured list) = .ok config)
    {role : Role} (hrole : role ∈ Role.harnessRoles) {scope : Option Text}
    (hscope : scope ∈ harnessScopes packs role) :
    ((harnessTasks packs).map fun task => opencodeAgent task.1 task.2).Nodup ∧ ∃ chosen tools,
      selection packs settings (loadCatalog packs settings configured list) role scope =
        .ok chosen ∧
      config.agents.lookup (opencodeAgent role scope) = some tools ∧
      (∀ name, tools.lookup name = some true ↔
        ∃ tool ∈ chosen, tool.isDocs = false ∧ tool.opencodeName = name) ∧
      (∀ server ∈ ofKind configured .tools, (tools.lookup (server.name ++ "_*".toList)).isSome) ∧
      ((∀ a ∈ ofKind configured .tools, ∀ b ∈ ofKind configured .tools,
          ¬ a.name ++ ['_'] <+: b.name) →
        ∀ tool ∈ served (loadCatalog packs settings configured list),
          (tools.lookup tool.opencodeName = some true ↔ tool ∈ chosen)) := by
  have hlawful : AllLawful packs.registry := hbuild ▸ lawful_build entries
  have hkinds : ofKind (loadCatalog packs settings configured list).servers .tools =
      ofKind configured .tools := by rw [servers_loadCatalog]
  obtain ⟨-, hown, -⟩ := opencodeConfig_spec hlawful hline (by rwa [hkinds]) h
  obtain ⟨chosen, hselection, hlookup⟩ := hown (role, scope) (mem_harnessTasks.2 ⟨hrole, hscope⟩)
  have hnames : ∀ name,
      (agentTools (ofKind (loadCatalog packs settings configured list).servers .tools)
        chosen).lookup name = some true ↔
      ∃ tool ∈ chosen, tool.isDocs = false ∧ tool.opencodeName = name := by
    intro name
    rw [lookup_agentTools]
    constructor
    · intro htrue
      split at htrue
      · next hmem =>
        obtain ⟨tool, htool, heq⟩ := List.mem_map.1 hmem
        obtain ⟨hchosen, hdocs⟩ := List.mem_filter.1 htool
        exact ⟨tool, hchosen, by simpa using hdocs, heq⟩
      · split at htrue <;> cases htrue
    · rintro ⟨tool, hchosen, hdocs, heq⟩
      rw [if_pos (List.mem_map.2 ⟨tool, List.mem_filter.2 ⟨hchosen, by rw [hdocs]; rfl⟩, heq⟩)]
  refine ⟨nodup_agents hlawful hline, chosen, _, hselection, hlookup, hnames, ?_, ?_⟩
  · intro server hserver
    rw [lookup_agentTools, hkinds]
    split
    · rfl
    · rw [if_pos (List.mem_map_of_mem hserver)]
      rfl
  · intro hnone tool htool
    rw [hnames]
    constructor
    · rintro ⟨other, hother, hdocs, heq⟩
      have hserved : other ∈ served (loadCatalog packs settings configured list) :=
        List.mem_filter.2 ⟨(mem_selection hselection hother).1, by rw [hdocs]; rfl⟩
      exact eq_of_opencodeName hnone hserved htool heq ▸ hother
    · intro hchosen
      exact ⟨tool, hchosen, by simpa using (List.mem_filter.1 htool).2, rfl⟩

/-! ## The agent of a task -/

/-- What a packet without a service may use is in scope for a service, but for what its pack
excludes. -/
theorem inScope_of_default {tool : RemoteTool}
    (h : inScope packs settings tool defaultPack = true) (later : Packs) (service : Text) :
    inScope later settings tool service = true ↔
      tool.name ∉ (later.toolScope service).excluded := by
  refine ⟨fun hin => (inScope_cases hin).1, fun hexcluded => ?_⟩
  obtain ⟨-, hcases⟩ := inScope_cases h
  unfold inScope
  dsimp only
  rw [if_neg hexcluded]
  rcases hcases with hincluded | hall | hown | ⟨hnil, hcommon⟩
  · rw [included_default] at hincluded
    cases hincluded
  · rw [if_pos (.inr hall)]
  · exact absurd rfl hown.1
  · split
    · rfl
    · split
      · rfl
      · simp [hnil, hcommon]

theorem mem_keys_iff {α : Type} {name : Text} {items : List (Text × α)} :
    name ∈ items.map Prod.fst ↔ (items.lookup name).isSome := by
  rw [List.lookup_isSome_iff, List.mem_map]
  constructor
  · rintro ⟨item, hitem, heq⟩
    exact ⟨item, hitem, by simpa using heq.symm⟩
  · rintro ⟨item, hitem, heq⟩
    exact ⟨item, hitem, (by simpa using heq : name = item.1).symm⟩

theorem opencodeAgent_normal {role : Role} {service : Option Text} (h : ∀ s ∈ service, s ≠ []) :
    opencodeAgent role (normal role service) = opencodeAgent role service := by
  have hnormal : ∀ s ∈ normal role service, s ≠ [] := by
    intro s hs
    unfold normal at hs
    split at hs
    · obtain rfl := Option.mem_some_iff.1 hs
      cases service with
      | none => decide
      | some s => exact h s rfl
    · exact h s hs
  have htwice : normal role (normal role service) = normal role service := by
    unfold normal
    split <;> rfl
  rw [opencodeAgent_eq hnormal, opencodeAgent_eq h, htwice]

theorem taskAgent_eq_some {node : Role} {service : Option Text} {config : Config} {agent : Text}
    (h : taskAgent node service config = .ok (some agent)) :
    agent ∈ config.agents.map Prod.fst ∧
      (agent = opencodeAgent node service ∨
        opencodeAgent node service ∉ config.agents.map Prod.fst ∧ node ∈ Role.serviceRoles ∧
          agent = opencodeAgent node (some defaultPack)) := by
  unfold taskAgent at h
  dsimp only at h
  split at h
  · next found hfind =>
    obtain rfl := Option.some.inj (Except.ok.inj h)
    refine ⟨of_decide_eq_true (List.find?_some hfind :), ?_⟩
    rw [List.find?_cons] at hfind
    split at hfind
    · exact .inl (Option.some.inj hfind).symm
    · next hown =>
      have hmem := List.mem_of_find?_eq_some hfind
      split at hmem
      · next hnode => exact .inr ⟨of_decide_eq_false hown, hnode, List.mem_singleton.1 hmem⟩
      · cases hmem
  · split at h <;> cases h

theorem taskAgent_of_none {node : Role} {service : Option Text} {config : Config}
    (h : ∀ agent, taskAgent node service config ≠ .ok (some agent)) :
    opencodeAgent node service ∉ config.agents.map Prod.fst ∧
      (node ∈ Role.serviceRoles →
        opencodeAgent node (some defaultPack) ∉ config.agents.map Prod.fst) ∧
      taskAgent node service config =
        if config.mcp ≠ [] then .error ⟨node, service⟩ else .ok none := by
  unfold taskAgent at h ⊢
  dsimp only at h ⊢
  split at h
  · next found hfind => exact absurd rfl (h found)
  · next hfind =>
    have hnone := List.find?_eq_none.1 hfind
    refine ⟨fun hmem => hnone _ List.mem_cons_self (decide_eq_true hmem), ?_, ?_⟩
    · intro hnode hmem
      refine hnone _ (List.mem_cons_of_mem _ ?_) (decide_eq_true hmem)
      rw [if_pos hnode]
      exact List.mem_singleton.2 rfl
    · rfl

/-- A task is refused where it has no agent and the server knows of a tools server. -/
theorem taskAgent_eq_error_iff {node : Role} {service : Option Text} {config : Config}
    {refused : Unavailable} :
    taskAgent node service config = .error refused ↔
      refused = ⟨node, service⟩ ∧ config.mcp ≠ [] ∧
        opencodeAgent node service ∉ config.agents.map Prod.fst ∧
          (node ∈ Role.serviceRoles →
            opencodeAgent node (some defaultPack) ∉ config.agents.map Prod.fst) := by
  constructor
  · intro h
    obtain ⟨hown, hdefault, heq⟩ := taskAgent_of_none fun agent hagent => by
      rw [h] at hagent
      cases hagent
    rw [h] at heq
    split at heq
    · next hmcp => exact ⟨Except.error.inj heq, hmcp, hown, hdefault⟩
    · cases heq
  · rintro ⟨rfl, hmcp, hown, hdefault⟩
    obtain ⟨-, -, heq⟩ := taskAgent_of_none fun agent hagent => by
      obtain ⟨hmem, rfl | ⟨-, hrole, rfl⟩⟩ := taskAgent_eq_some hagent
      · exact hown hmem
      · exact hdefault hrole hmem
    rw [heq, if_pos hmcp]

/-- Without a config a task runs as the default agent. -/
theorem taskAgent_empty (node : Role) (service : Option Text) :
    taskAgent node service ⟨[], []⟩ = .ok none := by
  obtain ⟨-, -, heq⟩ := taskAgent_of_none fun agent
    (h : taskAgent node service ⟨[], []⟩ = .ok (some agent)) =>
      absurd (taskAgent_eq_some h).1 List.not_mem_nil
  rw [heq, if_neg fun h => h rfl]

/-- **A task of the harness runs with the tools of its own scope, or, where the server was started
without its service, with those for no service**, which are in scope for it but for what its pack
excludes now. A task of a dead-lettered record has no such agent to run as: it is refused, unless the
server knows of no tools server, and only then does a task run without an agent. -/
theorem task_in_scope (hbuild : packs.registry = build compile lower entries)
    (hline : OneLine packs) {config : Config}
    (hconfig : config =
      harnessConfig packs settings (loadCatalog packs settings configured list))
    {node : Role} (hnode : node ∈ Role.harnessRoles) {service : Option Text}
    (hlegal : ∀ s ∈ service, Legal s) :
    (∀ agent, taskAgent node service config = .ok (some agent) → ∃ scope chosen,
      agent = opencodeAgent node scope ∧
      selection packs settings (loadCatalog packs settings configured list) node scope =
        .ok chosen ∧
      config.agents.lookup agent = some (agentTools (ofKind configured .tools) chosen) ∧
      (scope = normal node service ∨
        node ∈ Role.serviceRoles ∧ normal node service ∉ harnessScopes packs node ∧
        scope = some defaultPack ∧ ∀ (later : Packs) (s : Text), ∀ tool ∈ chosen,
          (inScope later settings tool s = true ↔ tool.name ∉ (later.toolScope s).excluded))) ∧
    (taskAgent node service config = .ok none ↔ config.mcp = []) ∧
    ∀ refused, taskAgent node service config = .error refused ↔
      refused = ⟨node, service⟩ ∧ config.mcp ≠ [] ∧
        node ∉ Role.serviceRoles ∧ normal node service ∉ harnessScopes packs node := by
  by_cases hnothing : config = ⟨[], []⟩
  · rw [hnothing, taskAgent_empty]
    refine ⟨fun agent h => ?_, iff_of_true rfl rfl, fun refused => iff_of_false (fun h => ?_) ?_⟩
    · cases h
    · cases h
    · rintro ⟨-, hmcp, -⟩
      exact hmcp rfl
  have hlawful : AllLawful packs.registry := hbuild ▸ lawful_build entries
  cases hopencode : opencodeConfig packs settings (loadCatalog packs settings configured list) with
  | error e => exact absurd (by rw [hconfig, harnessConfig, hopencode]) hnothing
  | ok made =>
    obtain rfl : config = made := by rw [hconfig, harnessConfig, hopencode]
    have hservers : ofKind (loadCatalog packs settings configured list).servers .tools ≠ [] := by
      intro hnil
      rw [opencodeConfig, if_pos hnil] at hopencode
      exact hnothing (Except.ok.inj hopencode).symm
    obtain ⟨hmcp, hown, hothers⟩ := opencodeConfig_spec hlawful hline hservers hopencode
    rw [servers_loadCatalog] at hown
    have hservice : ∀ s ∈ service, s ≠ [] := fun s hs => (hlegal s hs).ne_nil
    -- The agent of the task's own scope is there exactly if its service was.
    have hkey : opencodeAgent node service ∈ config.agents.map Prod.fst ↔
        normal node service ∈ harnessScopes packs node := by
      rw [mem_keys_iff]
      constructor
      · intro hsome
        obtain ⟨⟨role, scope⟩, htask, heq⟩ := hothers _ hsome
        obtain ⟨hrole, hscope⟩ := mem_harnessTasks.1 htask
        obtain ⟨hlegal', hnormal⟩ := legal_of_mem_harnessScopes hlawful hline hscope
        obtain ⟨rfl, hscopes⟩ := opencodeAgent_inj hrole hnode hlegal' hlegal heq
        rwa [← hscopes, hnormal]
      · intro hscope
        obtain ⟨chosen, -, hlookup⟩ := hown _ (mem_harnessTasks.2 ⟨hnode, hscope⟩)
        rw [← opencodeAgent_normal hservice, hlookup]
        rfl
    have hdefault : node ∈ Role.serviceRoles →
        (node, some defaultPack) ∈ harnessTasks packs := by
      intro hrole
      apply mem_harnessTasks.2
      refine ⟨hnode, ?_⟩
      rw [harnessScopes, if_pos hrole]
      exact List.mem_map_of_mem (List.mem_append_right _ (List.mem_singleton.2 rfl))
    refine ⟨?_, ?_, ?_⟩
    · intro agent hagent
      obtain ⟨hmem, rfl | ⟨hnotMem, hrole, rfl⟩⟩ := taskAgent_eq_some hagent
      · obtain ⟨chosen, hselection, hlookup⟩ := hown _ (mem_harnessTasks.2 ⟨hnode, hkey.1 hmem⟩)
        rw [opencodeAgent_normal hservice] at hlookup
        exact ⟨_, chosen, (opencodeAgent_normal hservice).symm, hselection, hlookup, .inl rfl⟩
      · obtain ⟨chosen, hselection, hlookup⟩ := hown _ (hdefault hrole)
        refine ⟨_, chosen, rfl, hselection, hlookup,
          .inr ⟨hrole, fun hscope => hnotMem (hkey.2 hscope), rfl, ?_⟩⟩
        intro later s tool htool
        exact inScope_of_default ((mem_selection hselection htool).2 _ rfl) later s
    · refine iff_of_false (fun hnone => ?_) hmcp
      obtain ⟨-, -, heq⟩ := taskAgent_of_none fun agent h => by
        rw [hnone] at h
        cases h
      rw [hnone, if_pos hmcp] at heq
      cases heq
    · intro refused
      have hdefaultMem : node ∈ Role.serviceRoles →
          opencodeAgent node (some defaultPack) ∈ config.agents.map Prod.fst := by
        intro hrole
        obtain ⟨chosen, -, hlookup⟩ := hown _ (hdefault hrole)
        rw [mem_keys_iff, hlookup]
        rfl
      rw [taskAgent_eq_error_iff, hkey]
      constructor
      · rintro ⟨rfl, hmcp, hscope, hno⟩
        exact ⟨rfl, hmcp, fun hrole => hno hrole (hdefaultMem hrole), hscope⟩
      · rintro ⟨rfl, hmcp, hrole, hscope⟩
        exact ⟨rfl, hmcp, hscope, fun hin => absurd hin hrole⟩

end

/-! ## A server with a tool of one service -/

theorem registry_enuPacks : enuPacks.registry = build literal Text.lower twoPacks := rfl

theorem oneLine_enuPacks : OneLine enuPacks := by
  have hservices : enuPacks.registry.services = ["enu-biometric".toList] := by decide +kernel
  intro name hname
  rw [hservices] at hname
  obtain rfl := List.mem_singleton.1 hname
  decide

theorem exists_enuConfig : ∃ config, opencodeConfig enuPacks unset enuCatalog = .ok config := by
  have hok : (opencodeConfig enuPacks unset enuCatalog).isOk = true := by decide +kernel
  cases hconfig : opencodeConfig enuPacks unset enuCatalog with
  | ok config => exact ⟨config, rfl⟩
  | error e =>
    rw [hconfig] at hok
    cases hok

/-- The investigator of the service may use it. -/
theorem enu_agent_exact : ∃ config chosen tools,
    opencodeConfig enuPacks unset enuCatalog = .ok config ∧
    selection enuPacks unset enuCatalog .investigator (some "enu-biometric".toList) = .ok chosen ∧
    config.agents.lookup (opencodeAgent .investigator (some "enu-biometric".toList)) =
      some tools ∧
    tools.lookup enuTool.opencodeName = some true := by
  obtain ⟨config, hconfig⟩ := exists_enuConfig
  have hscope : some "enu-biometric".toList ∈ harnessScopes enuPacks .investigator := by
    decide +kernel
  obtain ⟨-, chosen, tools, hselection, hlookup, -, -, htools⟩ := agents_exact
    registry_enuPacks oneLine_enuPacks (by decide) hconfig (by decide) hscope
  have hin : enuTool ∈ [enuTool].filter (inScope enuPacks unset · "enu-biometric".toList) := by
    decide +kernel
  have hchosen : enuTool ∈ chosen := by
    rw [show loadCatalog enuPacks unset [crm] (fun _ => .ok [enuStatus]) = enuCatalog from rfl,
      selection_enuCatalog _ (by decide)] at hselection
    exact Except.ok.inj hselection ▸ hin
  have hserved : enuTool ∈ served enuCatalog := by
    rw [served, tools_enuCatalog]
    decide
  exact ⟨config, chosen, tools, hconfig, hselection, hlookup,
    (htools (by decide) enuTool hserved).2 hchosen⟩

/-- A task of a service that was registered later runs as the agent for no service. -/
theorem later_service_in_scope : ∃ scope chosen,
    (taskAgent .investigator (some "enu-document".toList)
      (harnessConfig enuPacks unset enuCatalog)).toOption =
        some (some (opencodeAgent .investigator (some defaultPack))) ∧
    selection enuPacks unset enuCatalog .investigator scope = .ok chosen ∧
    (harnessConfig enuPacks unset enuCatalog).agents.lookup
      (opencodeAgent .investigator (some defaultPack)) =
        some (agentTools (ofKind [crm] .tools) chosen) := by
  have hagent : (taskAgent .investigator (some "enu-document".toList)
      (harnessConfig enuPacks unset enuCatalog)).toOption =
        some (some (opencodeAgent .investigator (some defaultPack))) := by decide +kernel
  have hlegal : ∀ s ∈ some "enu-document".toList, Legal s := by
    intro s hs
    obtain rfl := Option.mem_some_iff.1 hs
    exact .inr ⟨by decide, by decide, by decide⟩
  cases htask : taskAgent .investigator (some "enu-document".toList)
      (harnessConfig enuPacks unset enuCatalog) with
  | error refused =>
    rw [htask] at hagent
    cases hagent
  | ok agent =>
    rw [htask] at hagent
    obtain rfl := Option.some.inj hagent
    obtain ⟨scope, chosen, -, hselection, hlookup, -⟩ :=
      (task_in_scope registry_enuPacks oneLine_enuPacks rfl (by decide) hlegal).1 _ htask
    exact ⟨scope, chosen, rfl, hselection, hlookup⟩

end ResidentCrm.Tools
