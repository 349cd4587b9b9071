import ResidentCrm.Dlt.Versions

/-!
# The floor of several versions

What `lowest` of `dlt/versions.py` promises while a rollout goes on: the version it names is at
least a required one exactly where every version in the list is. A version without a build counter
ties with every build of its core, so it stands for them only where they have no counter either
(`isFloor_iff`).
-/

namespace ResidentCrm.Dlt

variable (pattern : Option Pattern)

/-- `at_least(lowest(values), required)`. -/
def lowestAtLeast (values : List Operand) (required : Operand) : Option Bool :=
  (lowest pattern values).bind fun low => atLeast pattern (.parsed low) required

/-- The lowest version answers for all of them, and whichever way they are listed. -/
structure IsFloor (values : List Operand) : Prop where
  exact : ∀ required, (required.read pattern).isSome →
    lowestAtLeast pattern values required =
      some (decide (∀ x ∈ values, atLeast pattern x required = some true))
  unordered : ∀ values', values'.Perm values → ∀ required, (required.read pattern).isSome →
    lowestAtLeast pattern values' required = lowestAtLeast pattern values required

/-- Of the versions whose core and snapshot flag are the lowest, all carry a build counter or none
does. -/
def CountersAgree (values : List Operand) : Prop :=
  Rank.OneKind ((values.filterMap (Operand.read pattern)).map Version.rank)

instance (values : List Operand) : Decidable (CountersAgree pattern values) :=
  inferInstanceAs (Decidable (Rank.OneKind _))

variable {pattern} {values : List Operand}

/-! ## What the pass keeps -/

theorem mapM_read (hread : ∀ x ∈ values, (x.read pattern).isSome) :
    values.mapM (Operand.read pattern) = some (values.filterMap (Operand.read pattern)) := by
  induction values with
  | nil => rfl
  | cons x values ih =>
    obtain ⟨v, hv⟩ := Option.isSome_iff_exists.1 (hread x List.mem_cons_self)
    have ih := ih fun y hy => hread y (List.mem_cons_of_mem _ hy)
    rw [List.mapM_cons, hv, ih, List.filterMap_cons_some hv]
    rfl

theorem exists_lowest_of_ne_nil (hne : values ≠ []) (hread : ∀ x ∈ values, (x.read pattern).isSome) :
    ∃ low, lowest pattern values = some low := by
  obtain ⟨x, values, rfl⟩ := List.exists_cons_of_ne_nil hne
  obtain ⟨v, hv⟩ := Option.isSome_iff_exists.1 (hread x List.mem_cons_self)
  rw [lowest, mapM_read hread, List.filterMap_cons_some hv]
  exact ⟨_, rfl⟩

theorem lowestAtLeast_eq {low r : Version} {required : Operand}
    (hlow : lowest pattern values = some low) (hr : required.read pattern = some r) :
    lowestAtLeast pattern values required = some (decide ¬ low.Behind r) := by
  rw [lowestAtLeast, hlow, Option.bind_some, atLeast_of_read rfl hr]

theorem all_atLeast_iff {r : Version} {required : Operand}
    (hread : ∀ x ∈ values, (x.read pattern).isSome) (hr : required.read pattern = some r) :
    (∀ x ∈ values, atLeast pattern x required = some true) ↔
      ¬ ∃ v ∈ values.filterMap (Operand.read pattern), v.Behind r := by
  simp only [List.mem_filterMap, not_exists, not_and]
  constructor
  · rintro h v ⟨x, hx, hv⟩
    have hleast := h x hx
    rw [atLeast_of_read hv hr, Option.some.injEq, decide_eq_true_eq] at hleast
    exact hleast
  · intro h x hx
    obtain ⟨v, hv⟩ := Option.isSome_iff_exists.1 (hread x hx)
    rw [atLeast_of_read hv hr, Option.some.injEq, decide_eq_true_eq]
    exact h v ⟨x, hx, hv⟩

/-- Where the counters agree the version that is kept answers for every one. -/
theorem lowestAtLeast_of_countersAgree (hne : values ≠ [])
    (hread : ∀ x ∈ values, (x.read pattern).isSome) (hagree : CountersAgree pattern values)
    {required : Operand} (hrequired : (required.read pattern).isSome) :
    lowestAtLeast pattern values required =
      some (decide (∀ x ∈ values, atLeast pattern x required = some true)) := by
  obtain ⟨low, hlow⟩ := exists_lowest_of_ne_nil hne hread
  obtain ⟨r, hr⟩ := Option.isSome_iff_exists.1 hrequired
  obtain ⟨⟨x, hx, hxlow⟩, hnone⟩ := lowest_spec hlow
  have hmem : low.rank ∈ (values.filterMap (Operand.read pattern)).map Version.rank :=
    List.mem_map_of_mem (List.mem_filterMap.2 ⟨x, hx, hxlow⟩)
  have hfirst : ∀ b ∈ (values.filterMap (Operand.read pattern)).map Version.rank,
      ¬ b.Behind low.rank := by
    simp only [List.mem_map, List.mem_filterMap, forall_exists_index, and_imp]
    rintro b v y hy hv rfl
    obtain ⟨w, hw, hbehind⟩ := hnone y hy
    rw [hv, Option.some.injEq] at hw
    exact hw ▸ hbehind
  have hiff : low.Behind r ↔ ∃ v ∈ values.filterMap (Operand.read pattern), v.Behind r := by
    rw [Version.Behind, Rank.behind_iff_exists_behind hagree hmem hfirst]
    simp only [List.mem_map, exists_exists_and_eq_and]
    rfl
  rw [lowestAtLeast_eq hlow hr, Option.some.injEq, decide_eq_decide, all_atLeast_iff hread hr, hiff]

theorem CountersAgree.perm {values' : List Operand} (hperm : values'.Perm values)
    (hagree : CountersAgree pattern values) : CountersAgree pattern values' := by
  have hmem : ∀ a, a ∈ (values'.filterMap (Operand.read pattern)).map Version.rank ↔
      a ∈ (values.filterMap (Operand.read pattern)).map Version.rank :=
    fun a => ((hperm.filterMap _).map _).mem_iff
  intro a ha b hb hla hlb
  exact hagree a ((hmem a).1 ha) b ((hmem b).1 hb) (fun c hc => hla c ((hmem c).2 hc))
    fun c hc => hlb c ((hmem c).2 hc)

/-! ## A bare version listed first -/

/-- A version of the lowest core that has no counter is kept where it is listed first. -/
theorem lowest_cons_bare {x : Operand} {v : Version} (hv : x.read pattern = some v)
    (hread : ∀ y ∈ values, (y.read pattern).isSome) (hbare : v.build = none)
    (hlowest : Rank.Lowest ((values.filterMap (Operand.read pattern)).map Version.rank) v.rank) :
    lowest pattern (x :: values) = some v := by
  have hall : ∀ y ∈ x :: values, (y.read pattern).isSome := by
    intro y hy
    rcases List.mem_cons.1 hy with rfl | hy
    · rw [hv]
      rfl
    · exact hread y hy
  have hkept : lowestFrom v (values.filterMap (Operand.read pattern)) = v := by
    rw [Version.lowestFrom_eq]
    exact pick_eq_self fun w hw =>
      Rank.not_behind_of_bare hlowest hbare (List.mem_map_of_mem hw)
  rw [lowest, mapM_read hall, List.filterMap_cons_some hv]
  exact congrArg some hkept

theorem Version.behind_next {v : Version} {m : ℕ} (hm : v.build = some m) :
    v.Behind { v with build := some (m + 1) } :=
  .inr ⟨rfl, m, hm, m + 1, rfl, Nat.lt_succ_self m⟩

/-- Behind a counter of one core, a bare version is not. -/
theorem Version.not_behind_of_bare {v w : Version} (hkey : v.rank.key = w.rank.key)
    (hbare : v.build = none) : ¬ v.Behind w := by
  rintro (h | ⟨-, m, hm, -⟩)
  · exact absurd hkey h.ne
  · have hnone : v.rank.counter = none := hbare
    rw [hnone] at hm
    cases hm

/-- A bare version and a counted one of the lowest core: listed with the bare one first, the lowest
version is at least the build after the counted one. -/
theorem exists_perm_lowest_bare (hread : ∀ x ∈ values, (x.read pattern).isSome)
    (hagree : ¬ CountersAgree pattern values) :
    ∃ v w m, w ∈ values.filterMap (Operand.read pattern) ∧ w.build = some m ∧
      v.rank.key = w.rank.key ∧ v.build = none ∧
      ∃ values', values'.Perm values ∧ lowest pattern values' = some v := by
  have hmixed : ∃ v ∈ values.filterMap (Operand.read pattern),
      ∃ w ∈ values.filterMap (Operand.read pattern),
        Rank.Lowest ((values.filterMap (Operand.read pattern)).map Version.rank) v.rank ∧
        Rank.Lowest ((values.filterMap (Operand.read pattern)).map Version.rank) w.rank ∧
        v.build = none ∧ w.build.isSome := by
    simp only [CountersAgree, Rank.OneKind, not_forall, List.mem_map] at hagree
    obtain ⟨_, ⟨a, ha, rfl⟩, _, ⟨b, hb, rfl⟩, hla, hlb, hne⟩ := hagree
    change a.build.isSome ≠ b.build.isSome at hne
    cases hab : a.build with
    | none =>
      rw [hab, Option.isSome_none, ne_eq, eq_comm, Bool.not_eq_false] at hne
      exact ⟨a, ha, b, hb, hla, hlb, hab, hne⟩
    | some m =>
      rw [hab, Option.isSome_some, ne_eq, eq_comm, Bool.not_eq_true, Option.isSome_eq_false_iff,
        Option.isNone_iff_eq_none] at hne
      exact ⟨b, hb, a, ha, hlb, hla, hne, by rw [hab]; rfl⟩
  obtain ⟨v, hv, w, hw, hlv, hlw, hbare, hcounted⟩ := hmixed
  obtain ⟨m, hm⟩ := Option.isSome_iff_exists.1 hcounted
  obtain ⟨x, hx, hxv⟩ := List.mem_filterMap.1 hv
  have hperm := (List.perm_cons_erase hx).symm
  have hsub : ∀ y ∈ values.erase x, y ∈ values := fun y => List.mem_of_mem_erase
  refine ⟨v, w, m, hw, hm, ?_, hbare, x :: values.erase x, hperm, ?_⟩
  · exact le_antisymm (hlv _ (List.mem_map_of_mem hw)) (hlw _ (List.mem_map_of_mem hv))
  · refine lowest_cons_bare hxv (fun y hy => hread y (hsub y hy)) hbare fun b hb => hlv b ?_
    obtain ⟨u, hu, rfl⟩ := List.mem_map.1 hb
    obtain ⟨y, hy, hyu⟩ := List.mem_filterMap.1 hu
    exact List.mem_map_of_mem (List.mem_filterMap.2 ⟨y, hsub y hy, hyu⟩)

/-! ## The floor -/

/-- **`lowest` is a floor exactly where the counters agree.** -/
theorem isFloor_iff (hne : values ≠ []) (hread : ∀ x ∈ values, (x.read pattern).isSome) :
    IsFloor pattern values ↔ CountersAgree pattern values := by
  constructor
  · intro hfloor
    by_contra hagree
    obtain ⟨v, w, m, hw, hm, hkey, hbare, values', hperm, hlow⟩ :=
      exists_perm_lowest_bare hread hagree
    have hr : (Operand.parsed { w with build := some (m + 1) }).read pattern = some _ := rfl
    have hsome : ((Operand.parsed { w with build := some (m + 1) }).read pattern).isSome := rfl
    have htrue := lowestAtLeast_eq hlow hr
    rw [hfloor.unordered values' hperm _ hsome, hfloor.exact _ hsome, Option.some.injEq,
      decide_eq_decide, all_atLeast_iff hread hr] at htrue
    exact htrue.2 (Version.not_behind_of_bare hkey hbare) ⟨w, hw, Version.behind_next hm⟩
  · intro hagree
    refine ⟨fun required => lowestAtLeast_of_countersAgree hne hread hagree, ?_⟩
    intro values' hperm required hrequired
    have hne' : values' ≠ [] := fun h => hne (List.nil_perm.1 (h ▸ hperm))
    have hread' : ∀ x ∈ values', (x.read pattern).isSome :=
      fun x hx => hread x (hperm.mem_iff.1 hx)
    rw [lowestAtLeast_of_countersAgree hne hread hagree hrequired,
      lowestAtLeast_of_countersAgree hne' hread' (hagree.perm hperm) hrequired]
    simp only [hperm.mem_iff]

/-- Two pods mid-rollout, one of which reports no build. -/
def mixedBuilds : List Operand := [.text "1.0.0".toList, .text "1.0.0-release.41".toList]

theorem floor_hides_build :
    lowestAtLeast none mixedBuilds (.text "1.0.0-release.42".toList) = some true ∧
      atLeast none (.text "1.0.0-release.41".toList) (.text "1.0.0-release.42".toList) =
        some false ∧
      lowestAtLeast none mixedBuilds.reverse (.text "1.0.0-release.42".toList) = some false := by
  decide

/-- Two builds of one core. -/
theorem isFloor_two_builds :
    IsFloor none [.text "1.0.0-release.43".toList, .text "1.0.0-release.42".toList] :=
  (isFloor_iff (by decide) (by decide)).2 (by decide)

end ResidentCrm.Dlt
