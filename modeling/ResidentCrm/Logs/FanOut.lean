import ResidentCrm.Lib.CreateOnly
import ResidentCrm.Logs.Discovery

/-!
# The pods that are read

`_merge_round_robin` of `log_pipeline/sources/k8s/discovery.py` takes the pods of the services in
turns. `merges_exactly`: it chooses the first pods of the turns up to the cap, each with the targets
the service whose turn it was lists for it, and reports a cap exactly when there are more pods. What
another service lists for the same pod is left out (`other_container_left_out`).
-/

namespace ResidentCrm.Logs

open CreateOnly

/-! ## Turns -/

/-- The pods of a service, in the order in which they are listed first. -/
def podKeys (result : DiscoveryResult) : List (Text × Text) :=
  firsts some (result.targets.map PodTarget.podKey)

/-- A pod in the turn of a service. -/
structure Turn where
  result : DiscoveryResult
  pod : Text × Text

namespace Turn

def key (turn : Turn) : Option (Text × Text) := some turn.pod

/-- What the service lists for the pod. -/
def targets (turn : Turn) : List PodTarget := turn.result.targets.filter (·.podKey = turn.pod)

end Turn

/-- First the first pod of each service, then the second of each, and so on. -/
def turns (perService : List DiscoveryResult) : List Turn :=
  (List.range (perService.map fun result => (podKeys result).length).sum).flatMap fun index =>
    perService.filterMap fun result => (podKeys result)[index]?.map fun pod => ⟨result, pod⟩

/-- The pods of all services. -/
def allPods (perService : List DiscoveryResult) : Finset (Text × Text) :=
  ((perService.flatMap DiscoveryResult.targets).map PodTarget.podKey).toFinset

section

variable {targets : List PodTarget} {target : PodTarget} {pods : List (Text × Text)}

/-- A target joins the group of its pod, or begins one. -/
theorem addToPod_map (group : Text × Text → List PodTarget) (hnodup : pods.Nodup)
    (hgroup : ∀ pod ∈ pods, (group pod).head?.map PodTarget.podKey = some pod) :
    addToPod target (pods.map group) =
      if target.podKey ∈ pods then
        pods.map fun pod => group pod ++ if pod = target.podKey then [target] else []
      else pods.map group ++ [[target]] := by
  induction pods with
  | nil => rfl
  | cons pod pods ih =>
    obtain ⟨hpod, hnodup⟩ := List.nodup_cons.1 hnodup
    have hrest := ih hnodup fun pod hpod => hgroup pod (List.mem_cons_of_mem _ hpod)
    rw [List.map_cons, addToPod, hgroup pod List.mem_cons_self]
    by_cases hkey : pod = target.podKey
    · have hothers : ∀ other ∈ pods, other ≠ target.podKey := by
        rintro other hother rfl
        exact hpod (hkey ▸ hother)
      rw [if_pos (by rw [hkey]), if_pos (by simp [hkey]), List.map_cons, if_pos hkey]
      congr 1
      refine List.map_congr_left fun other hother => ?_
      rw [if_neg (hothers other hother), List.append_nil]
    · rw [if_neg (by simpa using hkey), hrest]
      by_cases hmem : target.podKey ∈ pods
      · rw [if_pos hmem, if_pos (List.mem_cons_of_mem _ hmem), List.map_cons, if_neg hkey,
          List.append_nil]
      · rw [if_neg hmem, if_neg (by
          rw [List.mem_cons, not_or]
          exact ⟨Ne.symm hkey, hmem⟩)]
        rfl

theorem mem_firsts_some {l : List (Text × Text)} {pod : Text × Text} :
    pod ∈ firsts some l ↔ pod ∈ l := by
  have hkeys : keys some (firsts some l) = keys some l := keys_firsts
  have hmem : ∀ l : List (Text × Text), pod ∈ keys some l ↔ pod ∈ l := by
    intro l
    simp [keys]
  rw [← hmem, hkeys, hmem]

theorem nodup_firsts_some (l : List (Text × Text)) : (firsts some l).Nodup := by
  induction l using List.reverseRecOn with
  | nil => exact List.nodup_nil
  | append_singleton l pod ih =>
    rw [firsts_concat]
    rcases insertNew_cases some (firsts some l) pod with ⟨-, -, -, heq⟩ | ⟨hfree, heq⟩
    · rw [heq]
      exact ih
    · rw [heq, List.nodup_append]
      refine ⟨ih, List.nodup_singleton _, fun a ha b hb hab => ?_⟩
      rw [List.mem_singleton.1 hb] at hab
      exact hfree pod rfl (mem_keys.2 ⟨a, ha, congrArg some hab⟩)

theorem head?_filter_podKey {pod : Text × Text} (h : pod ∈ targets.map PodTarget.podKey) :
    (targets.filter (·.podKey = pod)).head?.map PodTarget.podKey = some pod := by
  obtain ⟨first, hfirst, rfl⟩ := List.mem_map.1 h
  have hmem : first ∈ targets.filter (·.podKey = first.podKey) :=
    List.mem_filter.2 ⟨hfirst, decide_eq_true rfl⟩
  cases hgroup : targets.filter (·.podKey = first.podKey) with
  | nil =>
    rw [hgroup] at hmem
    cases hmem
  | cons head rest =>
    have hhead : head ∈ targets.filter (·.podKey = first.podKey) := by
      rw [hgroup]
      exact List.mem_cons_self
    simpa using (List.mem_filter.1 hhead).2

/-- **The targets by pod.** -/
theorem byPod_eq (targets : List PodTarget) : byPod targets =
    (firsts some (targets.map PodTarget.podKey)).map fun pod =>
      targets.filter (·.podKey = pod) := by
  induction targets using List.reverseRecOn with
  | nil => rfl
  | append_singleton targets target ih =>
    have hstep : byPod (targets ++ [target]) = addToPod target (byPod targets) := by
      simp only [byPod, List.foldl_append, List.foldl_cons, List.foldl_nil]
    have hgroups : ∀ pod ∈ firsts some (targets.map PodTarget.podKey),
        (targets.filter (·.podKey = pod)).head?.map PodTarget.podKey = some pod :=
      fun pod hpod => head?_filter_podKey (mem_firsts_some.1 hpod)
    rw [hstep, ih, addToPod_map _ (nodup_firsts_some _) hgroups, List.map_append,
      List.map_singleton, firsts_concat]
    have hfilter : ∀ pod, (targets ++ [target]).filter (·.podKey = pod) =
        targets.filter (·.podKey = pod) ++ if pod = target.podKey then [target] else [] := by
      intro pod
      by_cases hpod : target.podKey = pod
      · simp [hpod]
      · simp [hpod, Ne.symm hpod]
    rcases insertNew_cases some (firsts some (targets.map PodTarget.podKey)) target.podKey with
      ⟨pod, hpod, hkey, heq⟩ | ⟨hfree, heq⟩
    · obtain ⟨other, hother, hsome⟩ := mem_keys.1 hpod
      obtain rfl : target.podKey = pod := Option.some.inj hkey
      obtain rfl : other = target.podKey := Option.some.inj hsome
      rw [heq, if_pos hother]
      exact List.map_congr_left fun pod _ => (hfilter pod).symm
    · have hnew : target.podKey ∉ firsts some (targets.map PodTarget.podKey) :=
        fun hmem => hfree _ rfl (mem_keys.2 ⟨_, hmem, rfl⟩)
      have hnone : targets.filter (·.podKey = target.podKey) = [] := by
        refine List.filter_eq_nil_iff.2 fun other hother hsame => hnew (mem_firsts_some.2 ?_)
        rw [← of_decide_eq_true hsame]
        exact List.mem_map_of_mem hother
      rw [heq, if_neg hnew, List.map_append, List.map_singleton, hfilter, hnone, if_pos rfl]
      congr 1
      refine List.map_congr_left fun pod hpod => ?_
      have hne : pod ≠ target.podKey := fun h => hnew (h ▸ hpod)
      rw [hfilter, if_neg hne, List.append_nil]

end

/-! ## The turns that are taken -/

section

variable {perService : List DiscoveryResult}

theorem rounds_eq (perService : List DiscoveryResult) :
    rounds (perService.map fun result => byPod result.targets) =
      (turns perService).map Turn.targets := by
  have hlength : ∀ result : DiscoveryResult,
      (byPod result.targets).length = (podKeys result).length := by
    intro result
    rw [byPod_eq, List.length_map, podKeys]
  rw [rounds, turns, List.map_flatMap, List.map_map]
  have hcount : (perService.map (List.length ∘ fun result => byPod result.targets)).sum =
      (perService.map fun result => (podKeys result).length).sum :=
    congrArg List.sum (List.map_congr_left fun result _ => hlength result)
  rw [hcount]
  refine List.flatMap_congr fun index _ => ?_
  rw [List.filterMap_map, List.map_filterMap]
  refine List.filterMap_congr fun result _ => ?_
  rw [Function.comp_apply, byPod_eq, List.getElem?_map, Option.map_map]
  rfl

theorem podKey_of_turn {turn : Turn} (h : turn ∈ turns perService) :
    turn.result ∈ perService ∧ turn.pod ∈ turn.result.targets.map PodTarget.podKey := by
  obtain ⟨index, -, hturn⟩ := List.mem_flatMap.1 h
  obtain ⟨result, hresult, hat⟩ := List.mem_filterMap.1 hturn
  obtain ⟨pod, hpod, rfl⟩ := Option.map_eq_some_iff.1 hat
  exact ⟨hresult, mem_firsts_some.1 (List.mem_of_getElem? hpod)⟩

theorem le_sum_of_mem {l : List ℕ} {n : ℕ} (h : n ∈ l) : n ≤ l.sum := by
  induction l with
  | nil => cases h
  | cons m l ih =>
    rw [List.sum_cons]
    rcases List.mem_cons.1 h with rfl | h
    · exact Nat.le_add_right _ _
    · exact Nat.le_trans (ih h) (Nat.le_add_left _ _)

/-- Every pod has a turn. -/
theorem keys_turns (perService : List DiscoveryResult) :
    keys Turn.key (turns perService) = allPods perService := by
  ext pod
  simp only [mem_keys, allPods, List.mem_toFinset, List.mem_map, List.mem_flatMap]
  constructor
  · rintro ⟨turn, hturn, hkey⟩
    obtain ⟨hresult, hpod⟩ := podKey_of_turn hturn
    obtain ⟨target, htarget, heq⟩ := List.mem_map.1 hpod
    exact ⟨target, ⟨turn.result, hresult, htarget⟩, heq.trans (Option.some.inj hkey)⟩
  · rintro ⟨target, ⟨result, hresult, htarget⟩, rfl⟩
    obtain ⟨index, hindex, hat⟩ :=
      List.mem_iff_getElem.1 (mem_firsts_some.2 (List.mem_map_of_mem htarget))
    have hlast : index < (perService.map fun result => (podKeys result).length).sum := by
      exact Nat.lt_of_lt_of_le hindex (le_sum_of_mem (List.mem_map.2 ⟨result, hresult, rfl⟩))
    refine ⟨⟨result, target.podKey⟩, List.mem_flatMap.2 ⟨index, List.mem_range.2 hlast, ?_⟩, rfl⟩
    refine List.mem_filterMap.2 ⟨result, hresult, ?_⟩
    rw [podKeys, List.getElem?_eq_getElem hindex, hat]
    rfl

/-- The merge that takes these turns, up to the cap. -/
def capAt (totalCap : ℕ) (l : List Turn) : Merge where
  merged := (l.take totalCap).flatMap Turn.targets
  seenPods := ((l.take totalCap).map Turn.pod).reverse
  capped := decide (totalCap < l.length)

theorem capAt_of_le {totalCap : ℕ} {l : List Turn} (h : l.length ≤ totalCap) :
    capAt totalCap l = ⟨l.flatMap Turn.targets, (l.map Turn.pod).reverse, false⟩ := by
  rw [capAt, List.take_of_length_le h, decide_eq_false (Nat.not_lt.2 h)]

/-- Turns after the cap change nothing but that there is one. -/
theorem capAt_concat_of_ge {totalCap : ℕ} {l : List Turn} (turn : Turn) (h : totalCap ≤ l.length) :
    capAt totalCap (l ++ [turn]) = { capAt totalCap l with capped := true } := by
  have hmore : totalCap < (l ++ [turn]).length := by
    rw [List.length_append, List.length_singleton]
    omega
  rw [capAt, List.take_append_of_le_length h, decide_eq_true hmore]
  rfl

/-- A turn is taken unless its pod was, or the cap is reached. -/
theorem add_turn {totalCap : ℕ} {m : Merge} {turn : Turn}
    (hturn : turn.targets.head?.map PodTarget.podKey = some turn.pod) :
    m.add totalCap turn.targets =
      if m.capped ∨ turn.pod ∈ m.seenPods then m
      else if totalCap ≠ 0 ∧ totalCap ≤ m.seenPods.length then { m with capped := true }
      else
        { m with
          merged := m.merged ++ turn.targets
          seenPods := turn.pod :: m.seenPods } := by
  cases htargets : turn.targets with
  | nil =>
    rw [htargets] at hturn
    cases hturn
  | cons target rest =>
    rw [htargets] at hturn
    rw [← Option.some.inj hturn]
    rfl

theorem add_capAt {totalCap : ℕ} (hcap : 0 < totalCap) {l : List Turn} {turn : Turn}
    (hturn : turn.targets.head?.map PodTarget.podKey = some turn.pod) :
    (capAt totalCap (firsts Turn.key l)).add totalCap turn.targets =
      capAt totalCap (firsts Turn.key (l ++ [turn])) := by
  have hnew := insertNew_cases Turn.key (firsts Turn.key l) turn
  rw [add_turn hturn, firsts_concat]
  generalize firsts Turn.key l = chosen at hnew
  rcases Nat.lt_or_ge totalCap chosen.length with hmore | hle
  · -- what comes after the cap is passed over
    have hcapped : (capAt totalCap chosen).capped = true := decide_eq_true hmore
    rw [if_pos (.inl hcapped)]
    rcases hnew with ⟨pod, -, -, heq⟩ | ⟨-, heq⟩
    · rw [heq]
    · rw [heq, capAt_concat_of_ge turn (Nat.le_of_lt hmore), ← hcapped]
  · have hseen : turn.pod ∈ (capAt totalCap chosen).seenPods ↔ turn.pod ∈ keys Turn.key chosen := by
      rw [capAt_of_le hle, List.mem_reverse, List.mem_map, mem_keys]
      exact ⟨fun ⟨first, hfirst, heq⟩ => ⟨first, hfirst, congrArg some heq⟩,
        fun ⟨first, hfirst, heq⟩ => ⟨first, hfirst, Option.some.inj heq⟩⟩
    have hcapped : ¬ (capAt totalCap chosen).capped = true := by
      rw [capAt_of_le hle]
      exact Bool.false_ne_true
    have hlength : (capAt totalCap chosen).seenPods.length = chosen.length := by
      rw [capAt_of_le hle, List.length_reverse, List.length_map]
    rcases hnew with ⟨pod, hpod, hkey, heq⟩ | ⟨hfree, heq⟩
    · obtain rfl : turn.pod = pod := Option.some.inj hkey
      rw [if_pos (.inr (hseen.2 hpod)), heq]
    · rw [if_neg (not_or.2 ⟨hcapped, fun h => hfree _ rfl (hseen.1 h)⟩), hlength, heq]
      rcases Nat.lt_or_eq_of_le hle with hlt | hfull
      · have hroom : (chosen ++ [turn]).length ≤ totalCap := by
          rw [List.length_append, List.length_singleton]
          exact hlt
        rw [if_neg fun h => absurd h.2 (Nat.not_le.2 hlt), capAt_of_le hle, capAt_of_le hroom]
        simp
      · rw [if_pos ⟨Nat.pos_iff_ne_zero.1 hcap, Nat.le_of_eq hfull.symm⟩,
          capAt_concat_of_ge turn (Nat.le_of_eq hfull.symm)]

/-- The merge takes the first turn of each pod. -/
theorem mergeRoundRobin_eq {totalCap : ℕ} (hcap : 0 < totalCap)
    (perService : List DiscoveryResult) :
    mergeRoundRobin totalCap perService =
      capAt totalCap (firsts Turn.key (turns perService)) := by
  have hrun : ∀ l : List Turn,
      (∀ turn ∈ l, turn.targets.head?.map PodTarget.podKey = some turn.pod) →
      (l.map Turn.targets).foldl (Merge.add totalCap) {} = capAt totalCap (firsts Turn.key l) := by
    intro l
    induction l using List.reverseRecOn with
    | nil =>
      intro _
      rw [firsts_nil, capAt_of_le (Nat.zero_le _)]
      rfl
    | append_singleton l turn ih =>
      intro h
      rw [List.map_append, List.foldl_append, ih fun t ht => h t (List.mem_append_left _ ht)]
      exact add_capAt hcap (h turn (List.mem_append_right _ (List.mem_singleton_self turn)))
  rw [mergeRoundRobin, rounds_eq]
  exact hrun _ fun turn hturn => head?_filter_podKey (podKey_of_turn hturn).2

/-- There are as many first turns as pods. -/
theorem length_firsts_turns (perService : List DiscoveryResult) :
    (firsts Turn.key (turns perService)).length = (allPods perService).card := by
  have hcount := countP_firsts Turn.key (fun _ => true) (turns perService)
  have hnone : (turns perService).countP (fun turn => (Turn.key turn).isNone && true) = 0 :=
    List.countP_eq_zero.2 fun turn _ => by simp [Turn.key]
  rw [List.countP_true, hnone, Nat.add_zero] at hcount
  rw [hcount, distinct, ← keys_turns]
  congr 1
  refine Finset.filter_true_of_mem fun pod hpod => ?_
  obtain ⟨turn, hturn⟩ := Option.isSome_iff_exists.1 (first_isSome.2 hpod)
  rw [hturn]
  rfl

theorem nodup_pods_firsts (l : List Turn) : ((firsts Turn.key l).map Turn.pod).Nodup := by
  induction l using List.reverseRecOn with
  | nil => exact List.nodup_nil
  | append_singleton l turn ih =>
    rw [firsts_concat]
    rcases insertNew_cases Turn.key (firsts Turn.key l) turn with ⟨-, -, -, heq⟩ | ⟨hfree, heq⟩
    · rw [heq]
      exact ih
    · rw [heq, List.map_append, List.map_singleton, List.nodup_append]
      refine ⟨ih, List.nodup_singleton _, fun pod hpod other hother hsame => ?_⟩
      obtain ⟨first, hfirst, rfl⟩ := List.mem_map.1 hpod
      rw [List.mem_singleton.1 hother] at hsame
      exact hfree _ rfl (mem_keys.2 ⟨first, hfirst, congrArg some hsame⟩)

/-- **The first pods of the turns are read, as many as the cap allows**, each with the targets of
the service whose turn it was, and a cap is reported exactly when there are more pods. -/
theorem merges_exactly (perService : List DiscoveryResult) {totalCap : ℕ} (hcap : 0 < totalCap) :
    let chosen := (firsts Turn.key (turns perService)).take
      (min totalCap (allPods perService).card)
    let merge := mergeRoundRobin totalCap perService
    merge.merged = chosen.flatMap Turn.targets ∧
    merge.seenPods.reverse = chosen.map Turn.pod ∧
    (chosen.map Turn.pod).Nodup ∧
    chosen.length = min totalCap (allPods perService).card ∧
    (merge.capped = true ↔ totalCap < (allPods perService).card) := by
  intro chosen merge
  have hmerge : merge = capAt totalCap (firsts Turn.key (turns perService)) :=
    mergeRoundRobin_eq hcap perService
  have hchosen : chosen = (firsts Turn.key (turns perService)).take totalCap := by
    show (firsts Turn.key (turns perService)).take _ = _
    rw [← length_firsts_turns, ← List.take_take, List.take_length]
  have hlength : chosen.length = min totalCap (allPods perService).card := by
    rw [hchosen, List.length_take, length_firsts_turns]
  refine ⟨?_, ?_, ?_, hlength, ?_⟩
  · rw [hmerge, hchosen, capAt]
  · rw [hmerge, hchosen, capAt, List.reverse_reverse]
  · exact (nodup_pods_firsts _).sublist ((List.take_sublist _ _).map _)
  · rw [hmerge, capAt, decide_eq_true_eq, length_firsts_turns]

end

/-- One target of the pod `a`. -/
def targetOfA (container : Text) : PodTarget where
  podNamespace := "crm".toList
  podName := "a".toList
  container := container
  restartCount := 0
  startTime := none

/-- One target of another pod. -/
def targetOf (podName container : Text) : PodTarget :=
  { targetOfA container with podName := podName }

/-- A service that lists one pod, and one that lists it and two others. -/
def twoServices : List DiscoveryResult :=
  [{ targets := [targetOfA "app".toList] },
    { targets := [targetOfA "app".toList, targetOf "b".toList "app".toList,
      targetOf "b".toList "sidecar".toList, targetOf "c".toList "app".toList] }]

theorem merges_exactly_two :
    let merge := mergeRoundRobin 2 twoServices
    merge.merged = [targetOfA "app".toList, targetOf "b".toList "app".toList,
      targetOf "b".toList "sidecar".toList] ∧
    merge.merged = ((firsts Turn.key (turns twoServices)).take
      (min 2 (allPods twoServices).card)).flatMap Turn.targets ∧
    (merge.capped = true ↔ 2 < (allPods twoServices).card) :=
  have hmerge := merges_exactly twoServices Nat.two_pos
  ⟨by decide, hmerge.1, hmerge.2.2.2.2⟩

/-- A container that only the second service lists for a pod of both is left out. -/
theorem other_container_left_out :
    let first : DiscoveryResult := { targets := [targetOfA "app".toList] }
    let second : DiscoveryResult := { targets := [targetOfA "sidecar".toList] }
    ("crm".toList, "a".toList) ∈ (mergeRoundRobin 5 [first, second]).seenPods ∧
    targetOfA "sidecar".toList ∈ second.targets ∧
    (targetOfA "sidecar".toList).podKey = ("crm".toList, "a".toList) ∧
    targetOfA "sidecar".toList ∉ (mergeRoundRobin 5 [first, second]).merged := by
  decide

end ResidentCrm.Logs
