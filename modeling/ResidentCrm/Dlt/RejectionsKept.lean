import ResidentCrm.Dlt.ReplaysVetted
import ResidentCrm.Dlt.ReviewLoop

/-!
# What becomes of a Reviewer's rejection

The machine of replays with the graph behind each analysis, and beside its state a history: of every
finding that was vetted, the own verdict of the last review it rests on, also where it was served
from a group's record (`Audit`). A rejection is kept if the finding is stamped with it wherever it
comes from, and nothing that rests on one is replayed or parked (`Audit.Kept`). That is so in the
runs whose findings leave the graph of undisguised reviews, and in no others (`kept_iff_fair`).
-/

namespace ResidentCrm.Dlt

open Review (Value)

structure Audit (ι R : Type*) where
  state : State ι R
  /-- What the recommendation of a group rests on, and of the record an analysis would serve. -/
  cached : Text → Option Review.Verdict
  served : ι → Option Review.Verdict
  vetted : List (Basis R × Option Review.Verdict)

inductive AuditAct (ι R : Type*) where
  | take (i : ι) (fingerprint : Text) (loads : Bool)
  | refresh (i : ι) (again : Bool)
  /-- The graph is not run to its end where the budget runs out. -/
  | finish (i : ι) (a : Analysis R) (graph : Option (GraphRun R))
  | release (enabled : Bool) (r : Release R)

variable {ι R : Type*}

/-- The recommendation has the stamp of a finding that was vetted on the verdict. -/
def Stems (vetted : List (Basis R × Option Review.Verdict)) (recommendation : Option (Finding R))
    (v : Option Review.Verdict) : Prop :=
  v = none ∨ ∀ f ∈ recommendation, ∃ b, (b, v) ∈ vetted ∧
    b.given.reviewerApproved = f.reviewerApproved

theorem Stems.append {vetted : List (Basis R × Option Review.Verdict)}
    {recommendation : Option (Finding R)} {v : Option Review.Verdict}
    (h : Stems vetted recommendation v) (more : List (Basis R × Option Review.Verdict)) :
    Stems (vetted ++ more) recommendation v := by
  rcases h with hnone | h
  · exact .inl hnone
  · refine .inr fun f hf => ?_
    obtain ⟨b, hb, hstamp⟩ := h f hf
    exact ⟨b, List.mem_append_left more hb, hstamp⟩

variable [LinearOrder R] [One R]

theorem reviewed_of_qualifies {mul : Num R → Num R → Num R} {b : Basis R}
    {refId : Option Text} (h : AutoReplay.Qualifies b.replay (b.finding mul) refId) :
    b.given.reviewerApproved ≠ some false :=
  fun hrejected => h.reviewed (unreviewed_mem hrejected)

variable [Zero R]

/-- The analysis with the lane its graph leaves. -/
def Analysis.under (a : Analysis R) (graph : Option (GraphRun R)) : Analysis R :=
  { a with lane := match graph with
    | none => .outOfTime
    | some g => g.lane }

def AuditAct.act : AuditAct ι R → Act ι R
  | .take i fingerprint loads => .take i fingerprint loads
  | .refresh i again => .refresh i again
  | .finish i a graph => .finish i (a.under graph)
  | .release enabled r => .release enabled r

/-- The verdict behind the finding an analysis vets. -/
def Analysis.behind (a : Analysis R) (h : Held R) (graph : Option (GraphRun R))
    (served : Option Review.Verdict) : Option Review.Verdict :=
  match a.decision h with
  | .canned => none
  | .reuseGroup => served
  | .llmRequired => (graph.bind GraphRun.leaves).map Prod.snd

namespace Audit

/-- The history an analysis leaves. -/
def finished (s : Audit ι R) (t : State ι R) (i : ι) (h : Held R) (a : Analysis R)
    (graph : Option (GraphRun R)) : Audit ι R :=
  match (a.under graph).vetted h with
  | none => { s with state := t }
  | some (b, provenance) =>
    let verdict := a.behind h graph (s.served i)
    { s with
      state := t
      cached := if a.caches provenance then Function.update s.cached h.fingerprint verdict
        else s.cached
      vetted := s.vetted ++ [(b, verdict)] }

theorem finished_vetted {s : Audit ι R} {i : ι} {h : Held R} {a : Analysis R}
    {graph : Option (GraphRun R)} {t : State ι R} {b : Basis R}
    {provenance : Provenance} (hv : (a.under graph).vetted h = some (b, provenance)) :
    s.finished t i h a graph =
      { s with
        state := t
        cached := if a.caches provenance then
            Function.update s.cached h.fingerprint (a.behind h graph (s.served i)) else s.cached
        vetted := s.vetted ++ [(b, a.behind h graph (s.served i))] } := by
  simp only [finished, hv]

theorem finished_unvetted {s : Audit ι R} {i : ι} {h : Held R} {a : Analysis R}
    {graph : Option (GraphRun R)} {t : State ι R} (hv : (a.under graph).vetted h = none) :
    s.finished t i h a graph = { s with state := t } := by
  simp only [finished, hv]

/-- Nothing that is known to rest on a rejection. -/
def Rests (s : Audit ι R) (b : Basis R) : Prop :=
  (∃ v, (b, v) ∈ s.vetted) ∧ ∀ v, (b, v) ∈ s.vetted → v ≠ some .rejected

/-- Every rejection is stamped on the findings that rest on it, and these are neither replayed nor
parked. -/
structure Kept (s : Audit ι R) : Prop where
  honest : ∀ b v, (b, v) ∈ s.vetted → Honest v b.given.reviewerApproved
  replayed : ∀ x ∈ s.state.attempts, s.Rests x.basis
  parked : ∀ e ∈ s.state.parked, s.Rests e.basis

/-- A finding that the graph can synthesise left it of undisguised reviews. -/
def Fair (s : Audit ι R) : AuditAct ι R → Prop
  | .finish i a graph => ∀ h ∈ s.state.held i, a.decision h = .llmRequired →
      ∀ g ∈ graph, g.Answered → Undisguised g.limit 0 g.rounds
  | _ => True

structure Inv (mul : Num R → Num R → Num R) (s : Audit ι R) : Prop where
  qualifies : ∀ e ∈ s.state.parked, Vetted mul e
  reviewed : ∀ x ∈ s.state.attempts, x.basis.given.reviewerApproved ≠ some false
  attempted : ∀ x ∈ s.state.attempts, ∃ v, (x.basis, v) ∈ s.vetted
  parked : ∀ e ∈ s.state.parked, ∃ v, (e.basis, v) ∈ s.vetted
  cached : ∀ fingerprint,
    Stems s.vetted (s.state.groups fingerprint).recommendation (s.cached fingerprint)
  served : ∀ i, ∀ h ∈ s.state.held i, Stems s.vetted h.served.recommendation (s.served i)

/-! ## The stamps -/

section

variable {mul : Num R → Num R → Num R} {s : Audit ι R} {i : ι} {h : Held R} {a : Analysis R}
  {graph : Option (GraphRun R)}

theorem given_of_leaves {g : GraphRun R} {f : Finding R} {v : Review.Verdict}
    (hd : a.decision h = .llmRequired) (hl : g.leaves = some (f, v)) :
    (a.under (some g)).given h = some (f, .agent) := by
  obtain ⟨st, x, hloop, -, hsyn⟩ := GraphRun.leaves_eq hl
  have hd' : (a.under (some g)).decision h = .llmRequired := hd
  have hlane : (a.under (some g)).lane = .replied st.reviewerFeedback g.reply g.repair := by
    simp only [Analysis.under, GraphRun.lane, hloop]
  simp only [Analysis.given, hd', hlane, hsyn, Option.map_some]

theorem given_eq {b : Basis R} {provenance : Provenance}
    (hv : (a.under graph).vetted h = some (b, provenance)) :
    (a.under graph).given h = some (b.given, provenance) := by
  obtain ⟨x, hx, heq⟩ := Option.map_eq_some_iff.1 hv
  obtain ⟨rfl, rfl⟩ := Prod.mk.inj heq
  exact hx

/-- A finding is stamped with the verdict it rests on, if it left the graph of undisguised
reviews. -/
theorem honest_given_iff (hs : s.Inv mul) (hheld : s.state.held i = some h)
    (hhonest : ∀ b v, (b, v) ∈ s.vetted → Honest v b.given.reviewerApproved)
    {b : Basis R} {provenance : Provenance}
    (hv : (a.under graph).vetted h = some (b, provenance)) :
    Honest (a.behind h graph (s.served i)) b.given.reviewerApproved ↔
      (a.decision h = .llmRequired → ∀ g ∈ graph, g.Answered → Undisguised g.limit 0 g.rounds) := by
  have hgiven := given_eq hv
  have hdecision : (a.under graph).decision h = a.decision h := rfl
  unfold Analysis.behind
  cases hd : a.decision h with
  | canned => exact iff_of_true honest_none nofun
  | reuseGroup =>
    refine iff_of_true ?_ nofun
    simp only [Analysis.given, hdecision, hd] at hgiven
    obtain ⟨f, hf, heq⟩ := Option.map_eq_some_iff.1 hgiven
    obtain ⟨rfl, rfl⟩ := Prod.mk.inj heq
    rcases hs.served i h hheld with hnone | hstems
    · rw [hnone]
      exact honest_none
    · obtain ⟨b', hb', hstamp⟩ := hstems b.given (Option.filter_eq_some_iff.1 hf).1
      exact hstamp ▸ hhonest b' _ hb'
  | llmRequired =>
    cases graph with
    | none => exact iff_of_true honest_none (by simp)
    | some g =>
      simp only [true_imp_iff, Option.mem_some_iff, forall_eq', Option.bind_some]
      rw [← GraphRun.honest_iff]
      cases hl : g.leaves with
      | none => exact iff_of_true honest_none fun f v => nofun
      | some y =>
        obtain ⟨f, v⟩ := y
        rw [given_of_leaves hd hl] at hgiven
        obtain ⟨rfl, -⟩ := Prod.mk.inj (Option.some.inj hgiven)
        simp only [Option.map_some, Option.some.injEq, Prod.mk.injEq]
        constructor
        · rintro hhonest f v ⟨rfl, rfl⟩
          exact hhonest
        · intro hall
          exact hall _ _ ⟨rfl, rfl⟩

/-- Where nothing is vetted, no finding left the graph. -/
theorem fair_of_unvetted (hv : (a.under graph).vetted h = none) (hd : a.decision h = .llmRequired) :
    ∀ g ∈ graph, g.Answered → Undisguised g.limit 0 g.rounds := by
  rintro g rfl
  rw [← GraphRun.honest_iff]
  intro f v hl
  have hgiven : (a.under (some g)).given h = none := by simpa [Analysis.vetted] using hv
  rw [given_of_leaves hd hl] at hgiven
  cases hgiven

omit [Zero R] in
/-- Nothing that rests on a rejection is replayed or parked where the stamps are honest. -/
theorem kept_iff_honest (hs : s.Inv mul) :
    s.Kept ↔ ∀ b v, (b, v) ∈ s.vetted → Honest v b.given.reviewerApproved := by
  constructor
  · exact Kept.honest
  · intro hhonest
    refine ⟨hhonest, fun x hx => ⟨hs.attempted x hx, fun v hv hrej => ?_⟩,
      fun e he => ⟨hs.parked e he, fun v hv hrej => ?_⟩⟩
    · exact hs.reviewed x hx ((hhonest _ v hv).rejected hrej)
    · exact reviewed_of_qualifies (hs.qualifies e he) ((hhonest _ v hv).rejected hrej)

end

variable [DecidableEq ι]

/-- The history of an action that leads to `t`. -/
def after (s : Audit ι R) (t : State ι R) : AuditAct ι R → Audit ι R
  | .take i fingerprint loads => { s with
      state := t
      served := Function.update s.served i (if loads then s.cached fingerprint else none) }
  | .refresh i _ => { s with
      state := t
      served := Function.update s.served i
        ((s.state.held i).bind fun h => s.cached h.fingerprint) }
  | .finish i a graph =>
    match s.state.held i with
    | none => { s with state := t }
    | some h => s.finished t i h a graph
  | .release .. => { s with state := t }

end Audit

section

variable [Sub R] (mul : Num R → Num R → Num R)

def audit (ι : Type*) [DecidableEq ι] : Machine (Audit ι R) (AuditAct ι R) where
  start s := (replays mul ι).start s.state ∧ (∀ fingerprint, s.cached fingerprint = none) ∧
    (∀ i, s.served i = none) ∧ s.vetted = []
  step s x := ((replays mul ι).step s.state x.act).map fun t => s.after t x

end

/-! ## Where the findings come from -/

variable [DecidableEq ι]

section

variable {mul : Num R → Num R → Num R}

theorem Analysis.finish_vetted {a : Analysis R} {s : State ι R} {i : ι} {h : Held R} {b : Basis R}
    {provenance : Provenance} (hv : a.vetted h = some (b, provenance)) :
    a.finish mul s i h =
      { groups := if a.caches provenance then Function.update s.groups h.fingerprint
            (attachRecommendation (b.finding mul) a.corroboration) else s.groups
        held := Function.update s.held i none
        parked := (maybePark a.policy.park a.policy.replay a.store s.parked a.caseId a.refId a.check
          (b.finding mul) a.now b).2
        attempts := s.attempts ++ a.attempts mul b } := by
  simp only [Analysis.finish, hv]

theorem Analysis.finish_unvetted {a : Analysis R} {s : State ι R} {i : ι} {h : Held R}
    (hv : a.vetted h = none) : a.finish mul s i h = s.hold i none := by
  simp only [Analysis.finish, hv]

end

namespace Audit

section

variable {mul : Num R → Num R → Num R} {s : Audit ι R} {i : ι} {h : Held R} {a : Analysis R}
  {graph : Option (GraphRun R)}

/-- An analysis at its end. -/
theorem inv_finished (hs : s.Inv mul) (hheld : s.state.held i = some h)
    (hq : ∀ e ∈ ((a.under graph).finish mul s.state i h).parked, Vetted mul e) :
    (s.finished ((a.under graph).finish mul s.state i h) i h a graph).Inv mul := by
  have hothers : ∀ j, ∀ h' ∈ Function.update s.state.held i none j,
      Stems s.vetted h'.served.recommendation (s.served j) := by
    intro j h' hh'
    by_cases hj : j = i
    · subst hj
      rw [Function.update_self] at hh'
      cases hh'
    · rw [Function.update_of_ne hj] at hh'
      exact hs.served j h' hh'
  cases hv : (a.under graph).vetted h with
  | none =>
    rw [finished_unvetted hv, Analysis.finish_unvetted hv]
    exact ⟨hs.qualifies, hs.reviewed, hs.attempted, hs.parked, hs.cached, hothers⟩
  | some x =>
    obtain ⟨b, provenance⟩ := x
    rw [Analysis.finish_vetted hv] at hq ⊢
    rw [finished_vetted hv]
    have hnew : ∃ v, (b, v) ∈ s.vetted ++ [(b, a.behind h graph (s.served i))] :=
      ⟨_, List.mem_append_right _ List.mem_cons_self⟩
    refine ⟨hq, ?_, ?_, ?_, ?_, ?_⟩
    · intro x hx
      rcases List.mem_append.1 hx with hx | hx
      · exact hs.reviewed x hx
      · unfold Analysis.attempts at hx
        split at hx
        · next hclears =>
          obtain rfl := List.mem_singleton.1 hx
          exact reviewed_of_qualifies (Analysis.clears_iff.1 hclears).1
        · cases hx
    · intro x hx
      rcases List.mem_append.1 hx with hx | hx
      · obtain ⟨v, hv⟩ := hs.attempted x hx
        exact ⟨v, List.mem_append_left _ hv⟩
      · unfold Analysis.attempts at hx
        split at hx
        · obtain rfl := List.mem_singleton.1 hx
          exact hnew
        · cases hx
    · intro e he
      rcases mem_maybePark he with he | ⟨rfl, -⟩
      · obtain ⟨v, hv⟩ := hs.parked e he
        exact ⟨v, List.mem_append_left _ hv⟩
      · exact hnew
    · intro fingerprint
      have hold := (hs.cached fingerprint).append [(b, a.behind h graph (s.served i))]
      by_cases hcaches : a.caches provenance = true
      · have hcaches' : (a.under graph).caches provenance = true := hcaches
        simp only [hcaches, hcaches', if_true]
        by_cases hf : fingerprint = h.fingerprint
        · subst hf
          rw [Function.update_self, Function.update_self]
          refine .inr fun f hf => ?_
          obtain rfl : b.finding mul = f := Option.some.inj hf
          exact ⟨b, List.mem_append_right _ List.mem_cons_self, rfl⟩
        · rw [Function.update_of_ne hf, Function.update_of_ne hf]
          exact hold
      · have hcaches' : ¬ (a.under graph).caches provenance = true := hcaches
        simp only [hcaches, hcaches']
        exact hold
    · intro j h' hh'
      exact (hothers j h' hh').append _

theorem inv_step {t : Audit ι R} {x : AuditAct ι R} [Sub R] (hs : s.Inv mul)
    (hstep : (audit mul ι).step s x = some t) : t.Inv mul := by
  obtain ⟨u, hu, rfl⟩ := Option.map_eq_some_iff.1 hstep
  have hq := vetted_step hs.qualifies hu
  cases x with
  | take i fingerprint loads =>
    obtain rfl := Option.some.inj hu
    refine ⟨hq, hs.reviewed, hs.attempted, hs.parked, hs.cached, fun j h hh => ?_⟩
    simp only [after, State.hold] at hh ⊢
    by_cases hj : j = i
    · subst hj
      rw [Function.update_self] at hh ⊢
      obtain rfl := Option.some.inj hh
      cases loads with
      | true => exact hs.cached fingerprint
      | false => exact .inl rfl
    · rw [Function.update_of_ne hj] at hh ⊢
      exact hs.served j h hh
  | refresh i again =>
    obtain ⟨held, hheld, rfl⟩ := Option.map_eq_some_iff.1 hu
    refine ⟨hq, hs.reviewed, hs.attempted, hs.parked, hs.cached, fun j h hh => ?_⟩
    simp only [after, State.hold, hheld, Option.bind_some] at hh ⊢
    by_cases hj : j = i
    · subst hj
      rw [Function.update_self] at hh ⊢
      obtain rfl := Option.some.inj hh
      exact hs.cached held.fingerprint
    · rw [Function.update_of_ne hj] at hh ⊢
      exact hs.served j h hh
  | finish i a graph =>
    obtain ⟨held, hheld, rfl⟩ := Option.map_eq_some_iff.1 hu
    simp only [after, hheld]
    exact inv_finished hs hheld hq
  | release enabled r =>
    obtain rfl := Option.some.inj hu
    refine ⟨hq, ?_, ?_, ?_, hs.cached, hs.served⟩
    · intro x hx
      rcases List.mem_append.1 hx with hx | hx
      · exact hs.reviewed x hx
      · obtain ⟨e, he, rfl⟩ := List.mem_map.1 hx
        exact reviewed_of_qualifies (hs.qualifies e (mem_replayed.1 he).2.1)
    · intro x hx
      rcases List.mem_append.1 hx with hx | hx
      · exact hs.attempted x hx
      · obtain ⟨e, he, rfl⟩ := List.mem_map.1 hx
        exact hs.parked e (mem_replayed.1 he).2.1
    · intro e he
      obtain ⟨e, hmem, rfl⟩ := List.mem_map.1 he
      rw [(mark_eq r e).2]
      exact hs.parked e hmem

theorem inv_start [Sub R] (hs : (audit mul ι).start s) : s.Inv mul := by
  obtain ⟨⟨hheld, hparked, hattempts⟩, hcached, hserved, -⟩ := hs
  refine ⟨by simp [hparked], by simp [hattempts], by simp [hattempts], by simp [hparked],
    fun fingerprint => .inl (hcached fingerprint), fun i h hh => ?_⟩
  rw [hheld i] at hh
  cases hh

end

/-! ## Runs -/

section

variable {mul : Num R → Num R → Num R} {s : Audit ι R}

theorem honest_step_iff [Sub R] {t : Audit ι R} {x : AuditAct ι R} (hs : s.Inv mul)
    (hstep : (audit mul ι).step s x = some t) :
    (∀ b v, (b, v) ∈ t.vetted → Honest v b.given.reviewerApproved) ↔
      (∀ b v, (b, v) ∈ s.vetted → Honest v b.given.reviewerApproved) ∧ s.Fair x := by
  obtain ⟨u, hu, rfl⟩ := Option.map_eq_some_iff.1 hstep
  cases x with
  | take i fingerprint loads => exact (and_iff_left trivial).symm
  | refresh i again => exact (and_iff_left trivial).symm
  | release enabled r => exact (and_iff_left trivial).symm
  | finish i a graph =>
    obtain ⟨held, hheld, rfl⟩ := Option.map_eq_some_iff.1 hu
    simp only [Fair, hheld, Option.mem_some_iff, forall_eq']
    have hafter : s.after ((a.under graph).finish mul s.state i held) (.finish i a graph) =
        s.finished ((a.under graph).finish mul s.state i held) i held a graph := by
      simp only [after, hheld]
    rw [hafter]
    cases hv : (a.under graph).vetted held with
    | none =>
      rw [finished_unvetted hv]
      exact (and_iff_left fun hd => fair_of_unvetted hv hd).symm
    | some x =>
      obtain ⟨b, provenance⟩ := x
      rw [finished_vetted hv]
      constructor
      · intro hall
        have hold : ∀ b v, (b, v) ∈ s.vetted → Honest v b.given.reviewerApproved :=
          fun b v hb => hall b v (List.mem_append_left _ hb)
        exact ⟨hold, (honest_given_iff hs hheld hold hv).1
          (hall _ _ (List.mem_append_right _ List.mem_cons_self))⟩
      · rintro ⟨hold, hfair⟩ b' v hb'
        rcases List.mem_append.1 hb' with hb' | hb'
        · exact hold b' v hb'
        · obtain ⟨rfl, rfl⟩ := Prod.mk.inj (List.mem_singleton.1 hb')
          exact (honest_given_iff hs hheld hold hv).2 hfair

end

end Audit

/-- **A run keeps every rejection exactly where all its findings leave the graph of undisguised
reviews.** -/
theorem kept_iff_fair [Sub R] {mul : Num R → Num R → Num R} {s t : Audit ι R}
    {acts : List (AuditAct ι R)} (hs : (audit mul ι).start s)
    (h : (audit mul ι).run s acts = some t) :
    t.Kept ↔ (audit mul ι).Meets Audit.Fair s acts := by
  have hinv := Audit.inv_start hs
  have hstep : ∀ s x t, s.Inv mul → (audit mul ι).step s x = some t →
      (t.Kept ↔ s.Kept ∧ s.Fair x) := by
    intro s x t hs h
    rw [Audit.kept_iff_honest (Audit.inv_step hs h), Audit.kept_iff_honest hs]
    exact Audit.honest_step_iff hs h
  rw [Machine.keeps_iff_meets (I := fun s => s.Inv mul) (P := Audit.Kept)
    (fun s x t => Audit.inv_step) hstep hinv h]
  refine and_iff_right ((Audit.kept_iff_honest hinv).2 ?_)
  simp [hs.2.2.2]

/-! ## A rejection worded as an approval -/

/-- One round, reviewed by the harness, and a model that would redrive and says it was approved. -/
def reviewedOnce (verdict feedback : String) : GraphRun ℤ where
  limit := 3
  rounds := [
    { evidence := "evidence".toList
      harness := none
      analysis := "analysis".toList
      reply :=
        { harness := some ⟨some (.text verdict.toList), some (.text feedback.toList)⟩
          content := .blank } }]
  reply := some
    { action := .redriveAfterRecovery, confidence := some (some 1), reviewerApproved := some true }
  repair := none

def analyzeOnce (verdict feedback : String) : List (AuditAct ℕ ℤ) :=
  [.take 0 "f".toList true,
    .finish 0 { awaitsBuild with check := unknown .off } (some (reviewedOnce verdict feedback))]

def unaudited : Audit ℕ ℤ := ⟨untouched, fun _ => none, fun _ => none, []⟩

theorem unaudited_start : (audit times ℕ).start unaudited :=
  ⟨untouched_start, fun _ => rfl, fun _ => rfl, rfl⟩

theorem kept_iff_fair_approved : ∃ t : Audit ℕ ℤ, t.state.attempts.length = 1 ∧
    (t.Kept ↔ (audit times ℕ).Meets Audit.Fair unaudited (analyzeOnce "APPROVED" "Fine.")) := by
  obtain ⟨t, ht, hone⟩ := Option.map_eq_some_iff.1
    (by decide : ((audit times ℕ).run unaudited (analyzeOnce "APPROVED" "Fine.")).map
      (·.state.attempts.length) = some 1)
  exact ⟨t, hone, kept_iff_fair unaudited_start ht⟩

/-- The harness's Reviewer rejects the finding, and the packet is replayed on it. -/
theorem replayed_on_a_rejection : ∃ t : Audit ℕ ℤ, (audit times ℕ).Reachable t ∧ ¬ t.Kept := by
  obtain ⟨t, ht, hp⟩ := (audit times ℕ).exists_reachable_run unaudited_start
    (analyzeOnce "REJECTED" "Approved. Except that the outage is not over.")
    (fun t => t.state.attempts.any fun x => t.vetted.contains (x.basis, some .rejected))
    (by decide)
  obtain ⟨x, hx, hmem⟩ := List.any_eq_true.1 hp
  refine ⟨t, ht, fun h => ?_⟩
  exact (h.replayed x hx).2 _ (by simpa using hmem) rfl

end ResidentCrm.Dlt
