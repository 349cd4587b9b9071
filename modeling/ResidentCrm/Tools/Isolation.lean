import ResidentCrm.Services.Unambiguous
import ResidentCrm.Tools.Scope

/-!
# Tools of other services

In a registry that validates, a tool that carries the prefix of a service is offered for another
service's packets only where the configuration names it, whatever the servers list and whatever
`AGENT_TOOLS_<ROLE>` says (`prefixed_tools_scoped`).
-/

namespace ResidentCrm

namespace Tools

open Services

/-! ## Names and prefixes of the registered services -/

theorem underscore_notMem {toolPrefix : Text} (h : isToolPrefix toolPrefix = true) :
    '_' ∉ toolPrefix := by
  have hend : '_' ∉ atEnd toolPrefix := by
    unfold isToolPrefix at h
    split at h
    · next c rest heq =>
      rw [heq]
      simp only [Bool.and_eq_true, List.all_eq_true] at h
      rintro (_ | hmem)
      · exact absurd h.1.1.1 (by decide)
      · exact absurd (h.2 '_' (by assumption)) (by decide)
    · cases h
  unfold atEnd at hend
  split at hend
  · next hlast =>
    intro hmem
    have hne : toolPrefix ≠ [] := List.ne_nil_of_mem hmem
    rw [← List.dropLast_append_getLast hne] at hmem
    rcases List.mem_append.1 hmem with hmem | hmem
    · exact hend hmem
    · rw [List.getLast?_eq_some_getLast hne] at hlast
      rw [List.mem_singleton.1 hmem |>.symm] at hlast
      exact absurd hlast (by decide)
  · exact hend

theorem eq_of_carries {tool p q : Text} (hp : '_' ∉ p) (hq : '_' ∉ q)
    (h : carries tool p = true) (h' : carries tool q = true) : p = q := by
  obtain ⟨x, rfl⟩ := List.isPrefixOf_iff_prefix.1 h
  obtain ⟨y, heq⟩ := List.isPrefixOf_iff_prefix.1 h'
  rw [List.append_assoc, List.append_assoc] at heq
  exact (Text.append_cons_inj hq hp heq).1.symm

/-- What `_parse_pack` has made sure of a pack that is registered under a name. -/
structure Lawful (name : Text) (pack : ServicePack) : Prop where
  named : name = defaultPack ∨ isServiceName name = true ∧ name ≠ "default".toList
  prefixed : name = defaultPack ∨
    ∃ toolPrefix, pack.toolPrefix = some toolPrefix ∧ isToolPrefix toolPrefix = true

theorem lawful_of_nameErrors {label name : Text} {document : Json} {pack : ServicePack}
    (h : nameErrors label name document = [])
    (howns : pack.toolPrefix = if name = defaultPack then none else
      (document.item "tool_prefix".toList).string) : Lawful name pack := by
  by_cases hdefault : name = defaultPack
  · exact ⟨.inl hdefault, .inl hdefault⟩
  · rw [if_neg hdefault] at howns
    simp only [nameErrors, List.append_eq_nil_iff, errorIf_eq_nil, hdefault, if_false,
      not_false_eq_true, true_and, not_or, not_and, Bool.not_eq_false, hasDefaultSlug,
      decide_eq_true_eq] at h
    obtain ⟨⟨⟨hname, hslug⟩, -⟩, hall, hsome⟩ := h
    obtain ⟨toolPrefix, hstring⟩ := Option.ne_none_iff_exists'.1 hsome
    refine ⟨.inr ⟨hname, hslug hname⟩, .inr ⟨toolPrefix, howns.trans hstring, ?_⟩⟩
    rw [hstring] at hall
    exact hall

section

variable {compile : Text → Option Pattern} {lower : Text → Text}

theorem parsePack_lawful {entry : Entry} {label : Text} {document : Json} {p : ServicePack}
    (h : parsePack compile lower entry label document = (some p, [])) : Lawful p.name p := by
  simp only [parsePack] at h
  split at h
  · cases h
  split at h
  · cases h
  split at h
  · cases h
  obtain ⟨hpack, herrors⟩ := Prod.mk.inj h
  obtain rfl := Option.some.inj hpack
  simp only [List.append_eq_nil_iff] at herrors
  exact lawful_of_nameErrors herrors.1.1.1.1.1.2 rfl

/-- Every pack of the registry is lawful. -/
def AllLawful (r : Registry) : Prop := ∀ name pack, r.packs.lookup name = some pack →
  Lawful name pack

theorem AllLawful.addEntry {r : Registry} (h : AllLawful r) (entry : Entry) :
    AllLawful (addEntry compile lower r entry) := by
  unfold Services.addEntry
  dsimp only
  split
  · exact h
  · next document _ =>
    cases hparse : parsePack compile lower entry (entry.name ++ "/service.json".toList) document with
    | mk pack found =>
      cases pack with
      | none => exact h
      | some p =>
        dsimp only
        split
        · next hnil =>
          intro name pack hlookup
          obtain rfl : found = [] := (List.append_eq_nil_iff.1 hnil).1
          by_cases hname : name = p.name
          · subst hname
            rw [AList.lookup_insert] at hlookup
            obtain rfl := Option.some.inj hlookup
            exact parsePack_lawful hparse
          · rw [AList.lookup_insert_ne hname] at hlookup
            exact h name pack hlookup
        · exact h

theorem lawful_build (entries : List Entry) : AllLawful (build compile lower entries) := by
  have hfold : ∀ (entries : List Entry) (r : Registry), AllLawful r →
      AllLawful (entries.foldl (Services.addEntry compile lower) r) := by
    intro entries
    induction entries with
    | nil => exact fun r h => h
    | cons entry entries ih => exact fun r h => ih _ (h.addEntry entry)
  apply hfold entries ⟨∅, []⟩
  intro name pack hlookup
  cases hlookup

end

variable {packs : Packs}

theorem mem_services {name : Text} : name ∈ packs.registry.services ↔
    name ≠ defaultPack ∧ ∃ pack, packs.registry.packs.lookup name = some pack := by
  rw [Registry.services, List.mem_insertionSort, List.mem_filter, ← AList.mem_keys,
    ← AList.lookup_isSome, Option.isSome_iff_exists, decide_eq_true_eq, and_comm]

theorem mem_servicePacks {name : Text} {pack : ServicePack}
    (hname : name ∈ packs.registry.services)
    (hlookup : packs.registry.packs.lookup name = some pack) :
    (name, pack) ∈ Registry.servicePacks packs.registry.packs packs.registry.services :=
  List.mem_filterMap.2 ⟨name, hname, by rw [hlookup, Option.map_some]⟩

theorem eq_of_length_le_one {α : Type*} {l : List α} (h : l.length ≤ 1) {a b : α} (ha : a ∈ l)
    (hb : b ∈ l) : a = b := by
  cases l with
  | nil => cases ha
  | cons x l =>
    obtain rfl : l = [] := List.length_eq_zero_iff.1 (by rw [List.length_cons] at h; omega)
    rw [List.mem_singleton.1 ha, List.mem_singleton.1 hb]

/-- Two services do not have one prefix. -/
theorem owner_unique (hvalid : checkRegistry packs.registry.packs = []) {owner other p : Text}
    (howner : owner ∈ packs.registry.services) (hother : other ∈ packs.registry.services)
    (hp : packs.toolPrefix owner = some p) (hq : packs.toolPrefix other = some p) :
    owner = other := by
  simp only [checkRegistry, List.append_eq_nil_iff] at hvalid
  have hone := sharedErrors_eq_nil hvalid.1.1.1.1.2 p
  obtain ⟨pack, hpack, howns⟩ := Option.bind_eq_some_iff.1 hp
  obtain ⟨pack', hpack', howns'⟩ := Option.bind_eq_some_iff.1 hq
  have heq := eq_of_length_le_one hone
    (List.mem_filter.2 ⟨mem_servicePacks howner hpack, by simp [howns]⟩)
    (List.mem_filter.2 ⟨mem_servicePacks hother hpack', by simp [howns']⟩)
  exact congrArg Prod.fst heq

/-! ## The prefix rule -/

/-- A tool that keeps the rule and carries the prefix of a service is not for every service: it
declares no scope, that service, or one that is not registered. -/
theorem services_of_carries (hlawful : AllLawful packs.registry)
    (hvalid : checkRegistry packs.registry.packs = []) {owner p tool : Text}
    {services : List Text} (howner : owner ∈ packs.registry.services)
    (hp : packs.toolPrefix owner = some p) (hcarries : carries tool p = true)
    (hkept : toolPrefixError packs tool services = none) :
    allServices ∉ services ∧ (services = [] ∨ services = [owner] ∨
      ∃ other, services = [other] ∧ packs.isRegistered other = false) := by
  have plain : ∀ {name q : Text}, name ∈ packs.registry.services →
      packs.toolPrefix name = some q → '_' ∉ q ∧ q ≠ [] := by
    intro name q hname hq
    obtain ⟨hne, pack, hpack⟩ := mem_services.1 hname
    obtain ⟨pack', hpack', howns⟩ := Option.bind_eq_some_iff.1 hq
    obtain rfl := Option.some.inj (hpack.symm.trans hpack')
    obtain ⟨q', hq', htool⟩ := (hlawful name pack hpack).prefixed.resolve_left hne
    obtain rfl := Option.some.inj (howns.symm.trans hq')
    exact ⟨underscore_notMem htool, by rintro rfl; cases htool⟩
  unfold toolPrefixError at hkept
  split at hkept
  · next hnil =>
    subst hnil
    exact ⟨List.not_mem_nil, .inl rfl⟩
  · split at hkept
    · next other hnamed hall =>
      have hall : allServices ∉ services := of_decide_eq_false hall
      refine ⟨hall, .inr ?_⟩
      have hservices : services = [other] := by
        rw [← hnamed, List.filter_eq_self.2]
        intro service hservice
        exact decide_eq_true fun heq => hall (heq ▸ hservice)
      split at hkept
      · next hregistered =>
        have hother : other ∈ packs.registry.services := by
          simp only [Packs.isRegistered, Bool.and_eq_true, decide_eq_true_eq,
            Option.isSome_iff_exists] at hregistered
          exact mem_services.2 ⟨hregistered.1.2, hregistered.2⟩
        obtain ⟨hne, pack, hpack⟩ := mem_services.1 hother
        obtain ⟨q, hq, -⟩ := (hlawful other pack hpack).prefixed.resolve_left hne
        have howns : packs.toolPrefix other = some q := by
          rw [Packs.toolPrefix, hpack, Option.bind_some, hq]
        simp only [howns, Option.getD_some] at hkept
        split at hkept
        · next hcarries' =>
          obtain rfl := eq_of_carries (plain howner hp).1 (plain hother howns).1 hcarries hcarries'
          exact .inl (by rw [hservices, owner_unique hvalid howner hother hp howns])
        · cases hkept
      · next hregistered =>
        exact .inr ⟨other, hservices, by simpa using hregistered⟩
    · have hclaim := List.findSome?_eq_none_iff.1 hkept owner howner
      rw [claimError, hp, Option.filter_some_pos (by simp [(plain howner hp).2, hcarries])] at hclaim
      cases hclaim

/-! ## The catalog -/

section

variable {settings : Settings} {configured : List ServerConfig}
  {list : ServerConfig → Except Text (List Listed)}

/-- What is in a catalog keeps the prefix rule, and is what a configured server lists. -/
def Listing (packs : Packs) (settings : Settings) (configured : List ServerConfig)
    (tools : List RemoteTool) : Prop :=
  ∀ tool ∈ tools, toolPrefixError packs tool.name tool.services = none ∧
    ∃ server ∈ configured, ∃ listed, tool = remoteTool settings server listed

theorem Listing.addTool {tools : List RemoteTool} {server : ServerConfig} {listed : Listed}
    (h : Listing packs settings configured tools) (hserver : server ∈ configured) :
    Listing packs settings configured
      (addTool packs tools (remoteTool settings server listed)) := by
  unfold Tools.addTool
  split
  · exact h
  split
  · exact h
  split
  · exact h
  · next hkept =>
    intro tool htool
    rcases List.mem_append.1 htool with htool | htool
    · exact h tool htool
    · obtain rfl := List.mem_singleton.1 htool
      exact ⟨Option.not_isSome_iff_eq_none.1 hkept, server, hserver, listed, rfl⟩

theorem Listing.addServer {catalog : Catalog} {server : ServerConfig}
    (h : Listing packs settings configured catalog.tools) (hserver : server ∈ configured) :
    Listing packs settings configured (addServer packs settings list catalog server).tools := by
  unfold Tools.addServer
  cases list server with
  | error => exact h
  | ok listed =>
    simp only
    generalize catalog.tools = tools at h
    induction listed generalizing tools with
    | nil => exact h
    | cons tool listed ih =>
      rw [List.map_cons, List.foldl_cons]
      exact ih _ (h.addTool hserver)

theorem listing_loadCatalog :
    Listing packs settings configured (loadCatalog packs settings configured list).tools := by
  have hfold : ∀ (servers : List ServerConfig) (catalog : Catalog),
      (∀ server ∈ servers, server ∈ configured) →
      Listing packs settings configured catalog.tools →
      Listing packs settings configured
        (servers.foldl (Tools.addServer packs settings list) catalog).tools := by
    intro servers
    induction servers with
    | nil => exact fun catalog _ h => h
    | cons server servers ih =>
      intro catalog hin h
      rw [List.foldl_cons]
      apply ih _ (fun s hs => hin s (List.mem_cons_of_mem _ hs))
      exact h.addServer (hin server List.mem_cons_self)
  apply hfold configured _ (fun _ h => h)
  intro tool htool
  cases htool

theorem servers_loadCatalog :
    (loadCatalog packs settings configured list).servers = configured := by
  have hfold : ∀ (servers : List ServerConfig) (catalog : Catalog),
      (servers.foldl (Tools.addServer packs settings list) catalog).servers = catalog.servers := by
    intro servers
    induction servers with
    | nil => exact fun catalog => rfl
    | cons server servers ih =>
      intro catalog
      rw [List.foldl_cons, ih]
      unfold Tools.addServer
      split <;> rfl
  exact hfold configured _

/-- No two tools of a catalog have one name. -/
theorem nodup_loadCatalog :
    ((loadCatalog packs settings configured list).tools.map RemoteTool.name).Nodup := by
  have hadd : ∀ (remote : List RemoteTool) (tools : List RemoteTool),
      (tools.map RemoteTool.name).Nodup →
      ((remote.foldl (Tools.addTool packs) tools).map RemoteTool.name).Nodup := by
    intro remote
    induction remote with
    | nil => exact fun tools h => h
    | cons tool remote ih =>
      intro tools h
      rw [List.foldl_cons]
      apply ih
      unfold Tools.addTool
      split
      · exact h
      split
      · exact h
      split
      · exact h
      · next hfree _ =>
        rw [List.map_append, List.nodup_append]
        refine ⟨h, List.nodup_singleton _, ?_⟩
        intro a ha b hb heq
        exact hfree (List.mem_singleton.1 hb ▸ heq ▸ ha)
  have hfold : ∀ (servers : List ServerConfig) (catalog : Catalog),
      (catalog.tools.map RemoteTool.name).Nodup →
      ((servers.foldl (Tools.addServer packs settings list) catalog).tools.map
        RemoteTool.name).Nodup := by
    intro servers
    induction servers with
    | nil => exact fun catalog h => h
    | cons server servers ih =>
      intro catalog h
      rw [List.foldl_cons]
      apply ih
      unfold Tools.addServer
      split
      · exact h
      · exact hadd _ _ h
  exact hfold configured _ List.nodup_nil

theorem mem_choose {catalog : Catalog} {role : Role} {chosen : List RemoteTool}
    (h : choose settings catalog role = .ok chosen) {tool : RemoteTool} (htool : tool ∈ chosen) :
    tool ∈ served catalog := by
  unfold choose at h
  split at h
  · obtain rfl := Except.ok.inj h
    exact (List.mem_filter.1 htool).1
  · dsimp only at h
    split at h
    · cases h
    · split at h
      · cases h
      · obtain rfl := Except.ok.inj h
        obtain ⟨name, -, hknown⟩ := List.mem_filterMap.1 htool
        exact List.mem_reverse.1 (List.mem_of_find?_eq_some hknown)

/-- What is chosen comes in order, the documentation after it, and the scope applies to both. -/
theorem selection_eq {catalog : Catalog} {role : Role} {service : Option Text}
    {chosen : List RemoteTool} (hscope : checkScope role service = .ok ())
    (hchoose : choose settings catalog role = .ok chosen) :
    selection packs settings catalog role service = .ok
      (let all := chosen.mergeSort orderLe ++
        ((docs catalog).filter (role ∈ ·.agents)).mergeSort orderLe
      match service with
      | none => all
      | some service => all.filter (inScope packs settings · service)) := by
  unfold selection
  rw [hscope, hchoose]
  cases service <;> rfl

/-- A selected tool is in the catalog, and in scope. -/
theorem mem_selection {catalog : Catalog} {role : Role} {service : Option Text}
    {chosen : List RemoteTool} (h : selection packs settings catalog role service = .ok chosen)
    {tool : RemoteTool} (htool : tool ∈ chosen) :
    tool ∈ catalog.tools ∧ ∀ s ∈ service, inScope packs settings tool s = true := by
  cases hscope : checkScope role service with
  | error e =>
    rw [selection, hscope] at h
    cases h
  | ok u =>
    cases hchoose : choose settings catalog role with
    | error e =>
      rw [selection, hscope, hchoose] at h
      cases h
    | ok served =>
      rw [selection_eq hscope hchoose] at h
      have hall : ∀ tool ∈ served.mergeSort orderLe ++
          ((docs catalog).filter (role ∈ ·.agents)).mergeSort orderLe, tool ∈ catalog.tools := by
        intro tool htool
        rcases List.mem_append.1 htool with htool | htool
        · exact (List.mem_filter.1 (mem_choose hchoose (List.mem_mergeSort.1 htool))).1
        · exact (List.mem_filter.1 (List.mem_filter.1 (List.mem_mergeSort.1 htool)).1).1
      obtain rfl := Except.ok.inj h
      cases service with
      | none =>
        refine ⟨hall tool htool, ?_⟩
        intro s hs
        cases hs
      | some service =>
        obtain ⟨hmem, hin⟩ := List.mem_filter.1 htool
        refine ⟨hall tool hmem, ?_⟩
        intro s hs
        obtain rfl := Option.mem_some_iff.1 hs
        exact hin

/-- What brings a tool into scope. -/
theorem inScope_cases {tool : RemoteTool} {service : Text}
    (h : inScope packs settings tool service = true) :
    tool.name ∉ (packs.toolScope service).excluded ∧
      (tool.name ∈ (packs.toolScope service).included ∨ allServices ∈ tool.services ∨
        service ≠ defaultPack ∧ service ∈ tool.services ∨
        tool.services = [] ∧ tool.name ∈ commonNames settings) := by
  unfold inScope at h
  dsimp only at h
  split at h
  · cases h
  · next hexcluded =>
    refine ⟨hexcluded, ?_⟩
    split at h
    · next hin => exact hin.elim .inl fun hall => .inr (.inl hall)
    · split at h
      · next hservice => exact .inr (.inr (.inl hservice))
      · simp only [Bool.and_eq_true, decide_eq_true_eq] at h
        exact .inr (.inr (.inr h))

/-! ## What is offered -/

theorem isRegistered_of_mem {service : Text} (hlawful : AllLawful packs.registry)
    (h : service ∈ packs.registry.services) : packs.isRegistered service = true := by
  obtain ⟨hne, pack, hpack⟩ := mem_services.1 h
  have hnil := isServiceName_ne_nil ((hlawful service pack hpack).named.resolve_left hne).1
  simp [Packs.isRegistered, hne, hpack, hnil]

/-- Nothing is included for a packet that no service was found for. -/
theorem included_default : (packs.toolScope defaultPack).included = [] := by
  unfold Packs.toolScope
  split
  · exact packs.nothingByDefault
  · rfl

variable {compile : Text → Option Pattern} {lower : Text → Text} {entries : List Entry}

/-- **In a registry that validates, a tool that carries the prefix of a service is offered for the
packets of another, or of none, only where that pack includes it by name, or it declares no service
and `AGENT_TOOLS_COMMON` lists it.** -/
theorem prefixed_tools_scoped (hbuild : packs.registry = build compile lower entries)
    (hvalid : packs.registry.errors = []) {owner toolPrefix : Text}
    (howner : owner ∈ packs.registry.services) (howns : packs.toolPrefix owner = some toolPrefix)
    {role : Role} {service : Text} (hservice : service ∈ packs.scopes) {chosen : List RemoteTool}
    (h : selection packs settings (loadCatalog packs settings configured list) role
      (some service) = .ok chosen) {tool : RemoteTool} (htool : tool ∈ chosen)
    (hcarries : carries tool.name toolPrefix = true) :
    tool.name ∉ (packs.toolScope service).excluded ∧
      (service = owner ∨
        service ≠ defaultPack ∧ tool.name ∈ (packs.toolScope service).included ∨
        tool.services = [] ∧ tool.name ∈ commonNames settings) := by
  have hlawful : AllLawful packs.registry := hbuild ▸ lawful_build entries
  have hcheck : checkRegistry packs.registry.packs = [] := by
    rw [hbuild] at hvalid ⊢
    exact (List.append_eq_nil_iff.1 hvalid).2
  obtain ⟨hmem, hin⟩ := mem_selection h htool
  obtain ⟨hexcluded, hcases⟩ := inScope_cases (hin service rfl)
  obtain ⟨hall, hservices⟩ :=
    services_of_carries hlawful hcheck howner howns hcarries (listing_loadCatalog tool hmem).1
  refine ⟨hexcluded, ?_⟩
  rcases hcases with hincluded | hevery | ⟨hne, hnamed⟩ | hcommon
  · refine .inr (.inl ⟨?_, hincluded⟩)
    rintro rfl
    rw [included_default] at hincluded
    cases hincluded
  · exact absurd hevery hall
  · rcases hservices with hnil | hown | ⟨other, hother, hunregistered⟩
    · rw [hnil] at hnamed
      cases hnamed
    · rw [hown] at hnamed
      exact .inl (List.mem_singleton.1 hnamed)
    · rw [hother] at hnamed
      obtain rfl := List.mem_singleton.1 hnamed
      have hregistered : service ∈ packs.registry.services := by
        rcases List.mem_append.1 hservice with hservice | hservice
        · exact hservice
        · exact absurd (List.mem_singleton.1 hservice) hne
      rw [isRegistered_of_mem hlawful hregistered] at hunregistered
      cases hunregistered
  · exact .inr (.inr hcommon)

end

/-! ## A tool of one service -/

/-- The packs of two services, none of which includes or excludes a tool. -/
def enuPacks : Packs := ⟨build literal Text.lower twoPacks, fun _ => {}, rfl⟩

def crm : ServerConfig := ⟨"crm".toList, .tools⟩

/-- A tool of `enu-biometric` for its investigator. -/
def enuStatus : Listed where
  name := "enu_status".toList
  metadata := .object [("uidai.crm/agents".toList, .array [.text "investigator".toList]),
    ("uidai.crm/services".toList, .array [.text "enu-biometric".toList])]

def enuTool : RemoteTool :=
  ⟨crm, "enu_status".toList, none, [.investigator], ["enu-biometric".toList]⟩

theorem docsRoles_unset : (docsRoles []).isSome = true := rfl

/-- Nothing is configured. -/
def unset : Settings := ⟨[], fun _ => [], [], docsRoles_unset⟩

def enuCatalog : Catalog := loadCatalog enuPacks unset [crm] fun _ => .ok [enuStatus]

theorem tools_enuCatalog : enuCatalog.tools = [enuTool] := by decide +kernel

theorem choose_enuCatalog : choose unset enuCatalog .investigator = .ok [enuTool] := by
  have hserved : served enuCatalog = [enuTool] := by rw [served, tools_enuCatalog]; rfl
  unfold choose
  rw [show override unset .investigator = none from rfl, hserved]
  rfl

/-- What the investigator of a service gets. -/
theorem selection_enuCatalog (service : Text) (h : service ≠ []) :
    selection enuPacks unset enuCatalog .investigator (some service) =
      .ok ([enuTool].filter (inScope enuPacks unset · service)) := by
  have hscope : checkScope .investigator (some service) = .ok () := by
    rw [checkScope, if_neg fun hrole => h hrole.2, if_neg fun hrole => absurd hrole.1 (by decide)]
  have hdocs : docs enuCatalog = [] := by rw [docs, tools_enuCatalog]; rfl
  rw [selection_eq hscope choose_enuCatalog, hdocs]
  simp

/-- The service's own packets have it. -/
theorem enu_tools_scoped : ∃ chosen,
    selection enuPacks unset enuCatalog .investigator (some "enu-biometric".toList) = .ok chosen ∧
      enuTool ∈ chosen ∧ enuTool.name ∉ (enuPacks.toolScope "enu-biometric".toList).excluded ∧
      ("enu-biometric".toList = "enu-biometric".toList ∨
        "enu-biometric".toList ≠ defaultPack ∧
          enuTool.name ∈ (enuPacks.toolScope "enu-biometric".toList).included ∨
        enuTool.services = [] ∧ enuTool.name ∈ commonNames unset) := by
  have hin : enuTool ∈ [enuTool].filter (inScope enuPacks unset · "enu-biometric".toList) := by
    decide +kernel
  have hselection := selection_enuCatalog "enu-biometric".toList (by decide)
  have howner : enuPacks.toolPrefix "enu-biometric".toList = some "enu".toList := by decide +kernel
  exact ⟨_, hselection, hin, prefixed_tools_scoped rfl twoPacks_valid (by decide +kernel) howner
    (by decide +kernel) hselection hin (by decide)⟩

end Tools

end ResidentCrm
