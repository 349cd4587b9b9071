import ResidentCrm.Services.Packs

/-!
# Which service a piece of evidence names

The lookups of the registry, from a stage, a topic, a consumer group or the frames of a trace to the
services that claim it, and what validation makes of them: where the registry reports no error, a
stage, a consumer group and a trace name one service at most (`byStage_length_le`,
`byConsumerGroup_length_le`, `byJavaPackage_length_le`). Topics are patterns, whose overlap nothing
rules out.
-/

namespace ResidentCrm

namespace Services

namespace ServicePack

def matchesStage (p : ServicePack) (stage : Text) (subStage : Option Text) : Bool :=
  stage ∈ p.stages && (p.subStages = [] || subStage.any (· ∈ p.subStages))

def matchesTopic (p : ServicePack) (topic : Text) : Bool := p.sourceTopics.any (· topic)

def matchesOriginalTopic (p : ServicePack) (topic : Text) : Bool := p.originalTopics.any (· topic)

/-- The frame is the package, or sits in it. -/
def within (frame package : Text) : Bool := frame = package || (package ++ ['.']) <+: frame

/-- The length of the longest of the pack's Java packages the frame sits in, or 0. -/
def packageMatch (p : ServicePack) (frame : Text) : ℕ :=
  ((p.javaPackages.filter (within frame)).map List.length).foldr max 0

end ServicePack

namespace Registry

/-- The services whose pack has `p`. -/
def having (r : Registry) (p : ServicePack → Bool) : List Text :=
  r.services.filter fun name => (r.packs.lookup name).any p

def byStage (r : Registry) (stage : Text) (subStage : Option Text) : List Text :=
  r.having (·.matchesStage stage subStage)

def byTopic (r : Registry) (topic : Text) : List Text := r.having (·.matchesTopic topic)

def byConsumerGroup (r : Registry) (group : Text) : List Text :=
  r.having fun p => group ∈ p.consumerGroups

def byOriginalTopic (r : Registry) (topic : Text) : List Text :=
  r.having (·.matchesOriginalTopic topic)

/-- The services that own a frame by the longest package, and how long it is. -/
def longest (r : Registry) (frame : Text) : ℕ :=
  ((servicePacks r.packs r.services).map fun p => p.2.packageMatch frame).foldr max 0

/-- The services owning the first frame that any pack's Java packages claim, and the frame. -/
def byJavaPackage (r : Registry) : List Text → List Text × Option Text
  | [] => ([], none)
  | frame :: frames =>
    let best := r.longest frame
    if best ≠ 0 then (r.having fun p => p.packageMatch frame = best, some frame)
    else r.byJavaPackage frames

/-- The service whose documentation file has this stem; a file with no pack is its own service. -/
def serviceForDocsFile (r : Registry) (stem : Text) : Text :=
  ((r.having fun p => p.reasonCodeDocsFile = stem).head?).getD stem

end Registry

/-! ## Errors, where two services claim one thing -/

theorem errorIf_eq_nil {p : Prop} [Decidable p] {e : PackError} : errorIf p e = [] ↔ ¬ p := by
  unfold errorIf
  split <;> simp [*]

theorem mem_dedup_insertionSort {l : List Text} {x : Text} :
    x ∈ l.dedup.insertionSort (· ≤ ·) ↔ x ∈ l := by
  rw [List.mem_insertionSort, List.mem_dedup]

section

variable {a b : Text × ServicePack} {packs : List (Text × ServicePack)}

/-- Two services without an error share no stage and sub-stage. -/
theorem sharedStages_eq_nil (h : sharedStages a b = []) {stage : Text} {subStage : Option Text}
    (ha : a.2.matchesStage stage subStage = true) : b.2.matchesStage stage subStage = false := by
  by_contra hb
  simp only [ServicePack.matchesStage, Bool.and_eq_true, Bool.or_eq_true, decide_eq_true_eq,
    Bool.not_eq_false] at ha hb
  have hshared : stage ∈ (a.2.stages.filter (· ∈ b.2.stages)).dedup.insertionSort (· ≤ ·) := by
    rw [mem_dedup_insertionSort, List.mem_filter]
    exact ⟨ha.1, by simpa using hb.1⟩
  have herrors := List.flatMap_eq_nil_iff.1 h stage hshared
  split at herrors
  · cases herrors
  · next hnarrow =>
    rw [not_or] at hnarrow
    obtain ⟨sub, hsub, hmem⟩ := (Option.any_eq_true _ _).1 (ha.2.resolve_left hnarrow.1)
    obtain ⟨sub', hsub', hmem'⟩ := (Option.any_eq_true _ _).1 (hb.2.resolve_left hnarrow.2)
    obtain rfl : sub = sub' := Option.some.inj (hsub.symm.trans hsub')
    refine errorIf_eq_nil.1 herrors fun hnil => ?_
    have : sub ∈ (a.2.subStages.filter (· ∈ b.2.subStages)).dedup.insertionSort (· ≤ ·) := by
      rw [mem_dedup_insertionSort, List.mem_filter]
      exact ⟨by simpa using hmem, by simpa using hmem'⟩
    rw [hnil] at this
    cases this

theorem stageErrors_eq_nil (h : stageErrors packs = []) :
    packs.Pairwise fun a b => sharedStages a b = [] := by
  induction packs with
  | nil => exact .nil
  | cons first rest ih =>
    obtain ⟨hfirst, hrest⟩ := List.append_eq_nil_iff.1 h
    exact .cons (List.flatMap_eq_nil_iff.1 hfirst) (ih hrest)

theorem length_filter_le_owners (values : ServicePack → List Text) (value : Text) :
    (packs.filter fun p => value ∈ values p.2).length ≤ (owners values packs value).length := by
  induction packs with
  | nil => exact le_rfl
  | cons p packs ih =>
    unfold owners at ih ⊢
    rw [List.filter_cons, List.flatMap_cons, List.length_append, List.length_replicate]
    split
    · next hmem =>
      have : 0 < (values p.2).count value := List.count_pos_iff.2 (by simpa using hmem)
      rw [List.length_cons]
      omega
    · omega

/-- Without an error, one service at most gives a value. -/
theorem sharedErrors_eq_nil {kind : String} {values : ServicePack → List Text}
    (h : sharedErrors kind values packs = []) (value : Text) :
    (packs.filter fun p => value ∈ values p.2).length ≤ 1 := by
  by_cases hvalue : value ∈ packs.flatMap fun p => values p.2
  · have herror := List.flatMap_eq_nil_iff.1 h value (mem_dedup_insertionSort.2 hvalue)
    exact (length_filter_le_owners values value).trans (not_lt.1 (errorIf_eq_nil.1 herror))
  · rw [List.filter_eq_nil_iff.2 fun p hp hmem =>
      hvalue (List.mem_flatMap.2 ⟨p, hp, by simpa using hmem⟩)]
    exact Nat.zero_le 1

theorem length_filter_le_one {α : Type*} {l : List α} {p : α → Bool}
    (h : l.Pairwise fun a b => p a = true → p b = false) : (l.filter p).length ≤ 1 := by
  induction h with
  | nil => exact Nat.zero_le 1
  | @cons a l ha _ ih =>
    rw [List.filter_cons]
    split
    · next hpa =>
      rw [List.filter_eq_nil_iff.2 fun b hb => by simp [ha b hb hpa]]
      exact le_rfl
    · exact ih

end

/-! ## One service at most -/

namespace Registry

variable {r : Registry}

theorem having_eq (p : ServicePack → Bool) :
    r.having p = ((servicePacks r.packs r.services).filter fun x => p x.2).map Prod.fst := by
  unfold having servicePacks
  induction r.services with
  | nil => rfl
  | cons name names ih =>
    rw [List.filter_cons, List.filterMap_cons, ih]
    cases hlookup : r.packs.lookup name with
    | none => simp
    | some pack =>
      rw [Option.map_some, Option.any_some, List.filter_cons]
      split <;> simp

theorem length_having (p : ServicePack → Bool) :
    (r.having p).length = ((servicePacks r.packs r.services).filter fun x => p x.2).length := by
  rw [having_eq, List.length_map]

theorem byStage_length_le (h : checkRegistry r.packs = []) (stage : Text)
    (subStage : Option Text) : (r.byStage stage subStage).length ≤ 1 := by
  simp only [checkRegistry, List.append_eq_nil_iff] at h
  rw [byStage, length_having]
  refine length_filter_le_one ((stageErrors_eq_nil h.1.1.1.1.1.2).imp fun hab => ?_)
  exact sharedStages_eq_nil hab

theorem byConsumerGroup_length_le (h : checkRegistry r.packs = []) (group : Text) :
    (r.byConsumerGroup group).length ≤ 1 := by
  simp only [checkRegistry, List.append_eq_nil_iff] at h
  rw [byConsumerGroup, length_having]
  exact sharedErrors_eq_nil h.1.1.2 group

theorem mem_of_foldr_max {l : List ℕ} {n : ℕ} (h : l.foldr max 0 = n) (hn : n ≠ 0) : n ∈ l := by
  induction l with
  | nil => exact absurd h.symm hn
  | cons m l ih =>
    rw [List.foldr_cons] at h
    rcases le_total m (l.foldr max 0) with hle | hle
    · exact List.mem_cons_of_mem _ (ih (by rwa [max_eq_right hle] at h))
    · rw [max_eq_left hle] at h
      exact h ▸ List.mem_cons_self

theorem within_take {frame package : Text} (h : ServicePack.within frame package = true) :
    frame.take package.length = package := by
  simp only [ServicePack.within, Bool.or_eq_true, decide_eq_true_eq] at h
  rcases h with rfl | h
  · exact List.take_length
  · exact (List.prefix_iff_eq_take.1 ((List.prefix_append _ _).trans h)).symm

/-- A pack that claims a frame does so by the text the frame starts with. -/
theorem mem_javaPackages {p : ServicePack} {frame : Text} {n : ℕ} (h : p.packageMatch frame = n)
    (hn : n ≠ 0) : frame.take n ∈ p.javaPackages := by
  obtain ⟨package, hpackage, rfl⟩ := List.mem_map.1 (mem_of_foldr_max h hn)
  obtain ⟨hmem, hwithin⟩ := List.mem_filter.1 hpackage
  rwa [within_take hwithin]

theorem byJavaPackage_length_le (h : checkRegistry r.packs = []) (frames : List Text) :
    (r.byJavaPackage frames).1.length ≤ 1 := by
  induction frames with
  | nil => exact Nat.zero_le 1
  | cons frame frames ih =>
    simp only [byJavaPackage]
    split
    · next hbest =>
      have hshared := h
      simp only [checkRegistry, List.append_eq_nil_iff] at hshared
      rw [length_having]
      refine le_trans (List.Sublist.length_le ?_) (sharedErrors_eq_nil hshared.1.2
        (frame.take (r.longest frame)))
      refine List.monotone_filter_right _ fun x hx => ?_
      simpa using mem_javaPackages (by simpa using hx) hbest
    · exact ih

end Registry

end Services

end ResidentCrm
