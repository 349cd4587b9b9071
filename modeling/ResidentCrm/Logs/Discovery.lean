import ResidentCrm.Logs.Types
import Mathlib.Data.Int.ConditionallyCompleteOrder
import Mathlib.Data.List.Sort
import Mathlib.Order.ConditionallyCompleteLattice.Finset
import Mathlib.Order.WithBot

/-!
# Pod discovery

`discover_for_service`, `_merge_round_robin` and `discover_targets` of
`log_pipeline/sources/k8s/discovery.py`, from what the API lists on. No container is read twice
(`discoverTargets_nodup`), and what discovery lacks it announces as a cap or as a service that could
not be searched (`discoverTargets_gaps`).
-/

namespace ResidentCrm.Logs

/-- A pod as it is listed: its phase, its start, its containers and the restarts of some of them. -/
structure Pod where
  name : Text
  phase : Text
  startTime : Option Moment
  containers : List Text
  restarts : List (Text × ℕ)
  named : name ≠ []
  distinct : containers.Nodup

/-- The pods of one namespace that match a service. -/
structure Listing where
  podNamespace : Text
  pods : List Pod
  distinct : (pods.map Pod.name).Nodup

structure DiscoveryResult where
  targets : List PodTarget := []
  gaps : List EvidenceGap := []
  ok : Bool := true
  reason : Option Text := none

/-! ## One service -/

section

variable (denied : List Text) (maxPods : ℕ)

/-- `select_containers`: all of them where every one is denied. -/
def selectContainers (pod : Pod) : List Text :=
  let kept := pod.containers.filter (· ∉ denied)
  if kept = [] then pod.containers else kept

def restartCount (pod : Pod) (container : Text) : ℕ := (pod.restarts.lookup container).getD 0

/-- `_sort_key`: a pod without a start is the oldest. -/
def sortKey (pod : Pod) : WithBot ℤ := pod.startTime.map Moment.instant

/-- The pods that are read, the most recently started first, and how many there were before the
cap. -/
def eligible (listing : Listing) : List Pod :=
  (listing.pods.filter fun pod => pod.phase ≠ "Pending".toList).insertionSort
    fun a b => sortKey b ≤ sortKey a

def podTargets (podNamespace : Text) (pod : Pod) : List PodTarget :=
  (selectContainers denied pod).map fun container =>
    { podNamespace := podNamespace
      podName := pod.name
      container := container
      restartCount := restartCount pod container
      startTime := pod.startTime }

def fanOutCapped (podNamespace : Text) (matched : ℕ) : EvidenceGap where
  gapType := .truncated
  detail := Text.ofNat matched ++ " pods matched but only the ".toList ++ Text.ofNat maxPods ++
    " most recently started were read (K8S_MAX_PODS).".toList
  context := [("matched".toList, .nat matched), ("cap".toList, .nat maxPods),
    ("namespace".toList, .text podNamespace)]

/-- `discover_for_service`, where the namespace was read and its pods were listed. -/
def discoverForService (listing : Listing) : DiscoveryResult where
  targets :=
    ((eligible listing).take maxPods).flatMap (podTargets denied listing.podNamespace)
  gaps :=
    if maxPods < (eligible listing).length then
      [fanOutCapped maxPods listing.podNamespace (eligible listing).length]
    else []

end

/-! ## Every service -/

/-- A target joins those of its pod. -/
def addToPod (target : PodTarget) : List (List PodTarget) → List (List PodTarget)
  | [] => [[target]]
  | group :: groups =>
    if group.head?.map PodTarget.podKey = some target.podKey then (group ++ [target]) :: groups
    else group :: addToPod target groups

/-- The targets of each pod, in the order the pods come first. -/
def byPod (targets : List PodTarget) : List (List PodTarget) :=
  targets.foldl (fun groups target => addToPod target groups) []

structure Merge where
  merged : List PodTarget := []
  seenPods : List (Text × Text) := []
  capped : Bool := false

/-- One pod of the round; a total cap of zero is none. -/
def Merge.add (totalCap : ℕ) (m : Merge) (group : List PodTarget) : Merge :=
  match group with
  | [] => m
  | target :: _ =>
    if m.capped ∨ target.podKey ∈ m.seenPods then m
    else if totalCap ≠ 0 ∧ totalCap ≤ m.seenPods.length then { m with capped := true }
    else { m with merged := m.merged ++ group, seenPods := target.podKey :: m.seenPods }

/-- The pods in rounds, one of each service a round. -/
def rounds (grouped : List (List (List PodTarget))) : List (List PodTarget) :=
  (List.range (grouped.map List.length).sum).flatMap fun index => grouped.filterMap (·[index]?)

/-- `_merge_round_robin`. -/
def mergeRoundRobin (totalCap : ℕ) (perService : List DiscoveryResult) : Merge :=
  (rounds (perService.map fun result => byPod result.targets)).foldl (Merge.add totalCap) {}

def serviceUnavailable (service reason : Text) : EvidenceGap where
  gapType := .serviceUnavailable
  detail := "service '".toList ++ service ++ "' could not be searched: ".toList ++ reason ++
    ". Any part of this packet's journey through it is missing from these logs.".toList
  context := [("app".toList, .text service), ("reason".toList, .text reason)]

def totalCapped (totalCap : ℕ) (searched : List Text) : EvidenceGap where
  gapType := .truncated
  detail := "pods from ".toList ++ Text.ofNat searched.length ++
    " services were capped at ".toList ++ Text.ofNat totalCap ++
    " in total (K8S_MAX_TOTAL_PODS).".toList
  context := [("cap".toList, .nat totalCap), ("services".toList, .array (searched.map .text))]

/-- What the search of a service came to: why it could not be, or the pods that were listed. -/
structure Searched where
  service : Text
  answer : Except Text Listing

/-- The limits of `discovery.py`. -/
structure Limits where
  denied : List Text
  maxPods : ℕ
  totalCap : ℕ

namespace Limits

variable (limits : Limits)

def serviceGaps (s : Searched) : List EvidenceGap :=
  match s.answer with
  | .error reason => [serviceUnavailable s.service reason]
  | .ok listing => (discoverForService limits.denied limits.maxPods listing).gaps

def serviceResult (s : Searched) : Option DiscoveryResult :=
  match s.answer with
  | .error _ => none
  | .ok listing => some (discoverForService limits.denied limits.maxPods listing)

def failureOf (s : Searched) : Option Text :=
  match s.answer with
  | .error reason => some reason
  | .ok _ => none

def searchedName (s : Searched) : Option Text :=
  match s.answer with
  | .error _ => none
  | .ok _ => some s.service

/-- `discover_targets`. -/
def discoverTargets (services : List Searched) : DiscoveryResult :=
  let perService := services.filterMap limits.serviceResult
  let gaps := services.flatMap limits.serviceGaps
  if perService = [] then
    { ok := false
      reason := some (((services.filterMap failureOf).head?).getD
        "no service could be searched".toList)
      gaps := gaps }
  else
    let m := mergeRoundRobin limits.totalCap perService
    { targets := m.merged
      gaps :=
        if m.capped then gaps ++ [totalCapped limits.totalCap (services.filterMap searchedName)]
        else gaps }

end Limits

/-! ## No container is read twice -/

theorem selectContainers_nodup (denied : List Text) (pod : Pod) :
    (selectContainers denied pod).Nodup := by
  unfold selectContainers
  dsimp only
  split
  · exact pod.distinct
  · exact pod.distinct.filter _

theorem discoverForService_nodup (denied : List Text) (maxPods : ℕ) (listing : Listing) :
    ((discoverForService denied maxPods listing).targets.map PodTarget.targetKey).Nodup := by
  have hread : (((eligible listing).take maxPods).map Pod.name).Nodup := by
    have hlisted : ((eligible listing).map Pod.name).Nodup := by
      refine ((List.perm_insertionSort _ _).map Pod.name).nodup_iff.2 ?_
      exact (List.filter_sublist.map Pod.name).nodup listing.distinct
    exact ((List.take_sublist maxPods _).map Pod.name).nodup hlisted
  unfold discoverForService
  rw [List.map_flatMap]
  refine List.nodup_flatMap.2 ⟨fun pod _ => ?_, ?_⟩
  · unfold podTargets
    rw [List.map_map]
    refine (selectContainers_nodup denied pod).map fun a b hab => ?_
    exact (Prod.mk.inj (Prod.mk.inj hab).2).2
  · refine (List.pairwise_map.1 hread).imp fun {a b} hab => ?_
    apply List.disjoint_left.2
    intro key ha hb
    unfold podTargets at ha hb
    simp only [List.map_map, List.mem_map, Function.comp_apply] at ha hb
    obtain ⟨c, -, rfl⟩ := ha
    obtain ⟨d, -, hd⟩ := hb
    exact hab (Prod.mk.inj (Prod.mk.inj hd).2).1.symm

/-- The targets of one pod. -/
def OfOnePod (group : List PodTarget) : Prop :=
  ∀ target ∈ group.head?, ∀ other ∈ group, other.podKey = target.podKey

theorem addToPod_spec (target : PodTarget) {groups : List (List PodTarget)}
    (h : ∀ group ∈ groups, OfOnePod group) :
    (addToPod target groups).flatten.Perm (target :: groups.flatten) ∧
      ∀ group ∈ addToPod target groups, OfOnePod group := by
  induction groups with
  | nil =>
    refine ⟨List.Perm.refl _, fun group hgroup => ?_⟩
    obtain rfl := List.mem_singleton.1 hgroup
    intro first hfirst other hother
    rw [List.mem_singleton.1 hother, ← Option.some.inj hfirst]
  | cons group groups ih =>
    have hhead := h group List.mem_cons_self
    have hrest := fun g hg => h g (List.mem_cons_of_mem _ hg)
    unfold addToPod
    split
    · next hkey =>
      constructor
      · simp only [List.flatten_cons, List.append_assoc, List.singleton_append]
        exact List.perm_middle
      · intro g hg
        rcases List.mem_cons.1 hg with rfl | hg
        · obtain ⟨first, hfirst, hfirstKey⟩ := Option.map_eq_some_iff.1 hkey
          intro t ht other hother
          have hne : group ≠ [] := by
            rintro rfl
            cases hfirst
          rw [List.head?_append_of_ne_nil _ hne, hfirst] at ht
          obtain rfl := Option.some.inj ht
          rcases List.mem_append.1 hother with hother | hother
          · exact hhead first hfirst other hother
          · rw [List.mem_singleton.1 hother, hfirstKey]
        · exact hrest g hg
    · obtain ⟨hperm, hall⟩ := ih hrest
      constructor
      · simp only [List.flatten_cons]
        exact (hperm.append_left group).trans List.perm_middle
      · intro g hg
        rcases List.mem_cons.1 hg with rfl | hg
        · exact hhead
        · exact hall g hg

/-- Grouping by pod keeps the targets, and each group is of one pod. -/
theorem byPod_spec (targets : List PodTarget) :
    (byPod targets).flatten.Perm targets ∧ ∀ group ∈ byPod targets, OfOnePod group := by
  have hrun : ∀ (rest : List PodTarget) (groups : List (List PodTarget)),
      (∀ group ∈ groups, OfOnePod group) →
      (rest.foldl (fun groups target => addToPod target groups) groups).flatten.Perm
          (rest ++ groups.flatten) ∧
        ∀ group ∈ rest.foldl (fun groups target => addToPod target groups) groups,
          OfOnePod group := by
    intro rest
    induction rest with
    | nil => exact fun groups h => ⟨List.Perm.refl _, h⟩
    | cons target rest ih =>
      intro groups h
      obtain ⟨hperm, hall⟩ := addToPod_spec target h
      obtain ⟨hrest, hresult⟩ := ih _ hall
      refine ⟨hrest.trans ?_, hresult⟩
      exact (hperm.append_left rest).trans List.perm_middle
  have hempty := hrun targets [] nofun
  rwa [List.flatten_nil, List.append_nil] at hempty

/-- No container stands twice in what is merged, and the pods of it were seen. -/
structure Merge.Inv (m : Merge) : Prop where
  nodup : (m.merged.map PodTarget.targetKey).Nodup
  seen : ∀ target ∈ m.merged, target.podKey ∈ m.seenPods

theorem Merge.Inv.add {m : Merge} (h : m.Inv) (totalCap : ℕ) {group : List PodTarget}
    (hpod : OfOnePod group) (hnodup : (group.map PodTarget.targetKey).Nodup) :
    (m.add totalCap group).Inv := by
  unfold Merge.add
  split
  · exact h
  · next target rest =>
    split_ifs with hskip hcap
    · exact h
    · exact ⟨h.nodup, h.seen⟩
    · have hkey : ∀ other ∈ target :: rest, other.podKey = target.podKey :=
        fun other hother => hpod target rfl other hother
      constructor
      · rw [List.map_append]
        refine List.Nodup.append h.nodup hnodup fun key hmerged hgroup => hskip (.inr ?_)
        obtain ⟨old, hold, rfl⟩ := List.mem_map.1 hmerged
        obtain ⟨new, hnew, heq⟩ := List.mem_map.1 hgroup
        have hsame : new.podKey = old.podKey := by
          have hfields := Prod.mk.inj heq
          exact Prod.ext hfields.1 (Prod.mk.inj hfields.2).1
        rw [← hkey new hnew, hsame]
        exact h.seen old hold
      · intro other hother
        rcases List.mem_append.1 hother with hother | hother
        · exact List.mem_cons_of_mem _ (h.seen other hother)
        · rw [hkey other hother]
          exact List.mem_cons_self

theorem mem_rounds {grouped : List (List (List PodTarget))} {group : List PodTarget}
    (h : group ∈ rounds grouped) : ∃ groups ∈ grouped, group ∈ groups := by
  obtain ⟨index, -, hgroup⟩ := List.mem_flatMap.1 h
  obtain ⟨groups, hgroups, hat⟩ := List.mem_filterMap.1 hgroup
  exact ⟨groups, hgroups, List.mem_of_getElem? hat⟩

theorem mergeRoundRobin_inv (totalCap : ℕ) {perService : List DiscoveryResult}
    (h : ∀ result ∈ perService, (result.targets.map PodTarget.targetKey).Nodup) :
    (mergeRoundRobin totalCap perService).Inv := by
  have hgroups : ∀ group ∈ rounds (perService.map fun result => byPod result.targets),
      OfOnePod group ∧ (group.map PodTarget.targetKey).Nodup := by
    intro group hgroup
    obtain ⟨groups, hmem, hgroup⟩ := mem_rounds hgroup
    obtain ⟨result, hresult, rfl⟩ := List.mem_map.1 hmem
    obtain ⟨hperm, hall⟩ := byPod_spec result.targets
    refine ⟨hall group hgroup, ?_⟩
    have hflat := ((hperm.map PodTarget.targetKey).nodup_iff).2 (h result hresult)
    exact ((List.sublist_flatten_of_mem hgroup).map _).nodup hflat
  unfold mergeRoundRobin
  generalize rounds (perService.map fun result => byPod result.targets) = groups at hgroups
  have hrun : ∀ m : Merge, m.Inv → (groups.foldl (Merge.add totalCap) m).Inv := by
    induction groups with
    | nil => exact fun m hm => hm
    | cons group groups ih =>
      intro m hm
      obtain ⟨hpod, hnodup⟩ := hgroups group List.mem_cons_self
      exact ih (fun g hg => hgroups g (List.mem_cons_of_mem _ hg)) _ (hm.add totalCap hpod hnodup)
  exact hrun {} ⟨List.nodup_nil, nofun⟩

/-- **No container is discovered twice.** -/
theorem discoverTargets_nodup (limits : Limits) (services : List Searched) :
    ((limits.discoverTargets services).targets.map PodTarget.targetKey).Nodup := by
  unfold Limits.discoverTargets
  dsimp only
  split
  · exact List.nodup_nil
  · refine (mergeRoundRobin_inv limits.totalCap fun result hresult => ?_).nodup
    obtain ⟨s, -, hs⟩ := List.mem_filterMap.1 hresult
    unfold Limits.serviceResult at hs
    split at hs
    · cases hs
    · obtain rfl := Option.some.inj hs
      exact discoverForService_nodup _ _ _

theorem add_subset (totalCap : ℕ) (m : Merge) (group : List PodTarget) :
    ∀ target ∈ (m.add totalCap group).merged, target ∈ m.merged ∨ target ∈ group := by
  intro target ht
  unfold Merge.add at ht
  split at ht
  · exact .inl ht
  · split_ifs at ht
    · exact .inl ht
    · exact .inl ht
    · exact List.mem_append.1 ht

/-- What is discovered was listed. -/
theorem mem_discoverTargets {limits : Limits} {services : List Searched} {target : PodTarget}
    (h : target ∈ (limits.discoverTargets services).targets) :
    ∃ s ∈ services, ∃ listing, s.answer = .ok listing ∧
      target ∈ (discoverForService limits.denied limits.maxPods listing).targets := by
  unfold Limits.discoverTargets at h
  dsimp only at h
  split at h
  · cases h
  · have hrun : ∀ (groups : List (List PodTarget)) (m : Merge),
        ∀ target ∈ (groups.foldl (Merge.add limits.totalCap) m).merged,
          target ∈ m.merged ∨ ∃ group ∈ groups, target ∈ group := by
      intro groups
      induction groups with
      | nil => exact fun m target ht => .inl ht
      | cons group groups ih =>
        intro m target ht
        rcases ih _ target ht with ht | ⟨g, hg, ht⟩
        · exact (add_subset _ _ _ target ht).imp_right fun ht => ⟨group, List.mem_cons_self, ht⟩
        · exact .inr ⟨g, List.mem_cons_of_mem _ hg, ht⟩
    obtain hnil | ⟨group, hgroup, ht⟩ := hrun _ _ target h
    · cases hnil
    · obtain ⟨groups, hgroups, hmem⟩ := mem_rounds hgroup
      obtain ⟨result, hresult, rfl⟩ := List.mem_map.1 hgroups
      have hlisted := (byPod_spec result.targets).1.mem_iff.1 (List.mem_flatten.2 ⟨group, hmem, ht⟩)
      obtain ⟨s, hs, hanswer⟩ := List.mem_filterMap.1 hresult
      unfold Limits.serviceResult at hanswer
      split at hanswer
      · cases hanswer
      · next listing hlisting =>
        obtain rfl := Option.some.inj hanswer
        exact ⟨s, hs, listing, hlisting, hlisted⟩

/-- A discovered pod has a name. -/
theorem discoverTargets_named {limits : Limits} {services : List Searched} {target : PodTarget}
    (h : target ∈ (limits.discoverTargets services).targets) : target.podName ≠ [] := by
  obtain ⟨-, -, listing, -, ht⟩ := mem_discoverTargets h
  unfold discoverForService at ht
  obtain ⟨pod, -, hpod⟩ := List.mem_flatMap.1 ht
  obtain ⟨container, -, rfl⟩ := List.mem_map.1 hpod
  exact pod.named

/-- **What discovery lacks is a cap or a service that could not be searched.** -/
theorem discoverTargets_gaps (limits : Limits) (services : List Searched) :
    ∀ gap ∈ (limits.discoverTargets services).gaps,
      gap.gapType = .truncated ∨ gap.gapType = .serviceUnavailable := by
  have hservices : ∀ gap ∈ services.flatMap limits.serviceGaps,
      gap.gapType = .truncated ∨ gap.gapType = .serviceUnavailable := by
    intro gap hgap
    obtain ⟨s, -, hs⟩ := List.mem_flatMap.1 hgap
    unfold Limits.serviceGaps discoverForService at hs
    split at hs
    · rw [List.mem_singleton.1 hs]
      exact .inr rfl
    · dsimp only at hs
      split at hs
      · rw [List.mem_singleton.1 hs]
        exact .inl rfl
      · cases hs
  unfold Limits.discoverTargets
  dsimp only
  split_ifs with hnone hcapped
  · exact hservices
  · intro gap hgap
    rcases List.mem_append.1 hgap with hgap | hgap
    · exact hservices gap hgap
    · rw [List.mem_singleton.1 hgap]
      exact .inl rfl
  · exact hservices

end ResidentCrm.Logs
