import Mathlib.Logic.Relation
import Mathlib.Tactic.Common

/-!
# Machines with labelled steps

A `Machine` has start states and, for each action, at most one next state; concurrency is the
choice of the action. `Reach C s`: some run from a start state leads to `s` and every step of it
met the condition `C`, which reads the state before the step and the action taken. `Later C s t`:
such a run leads from `s` to `t`. With `C := Machine.anyStep` these are the runs of the machine
itself.

An invariant is proved once for the start states and once for a step (`Reach.invariant`), a
relation between the ends of a run once for a step (`Later.relate`), and a refinement once for a
step (`Simulates.reach`).
-/

namespace ResidentCrm

universe u v w x

/-- Start states, and the state each action leads to where it is enabled. -/
structure Machine (σ : Type u) (α : Type v) where
  start : σ → Prop
  step : σ → α → Option σ

namespace Machine

variable {σ : Type u} {α : Type v} (M : Machine σ α)

def anyStep (_ : σ) (_ : α) : Prop := True

/-- `s` is reached from a start state by steps that meet `C`. -/
inductive Reach (C : σ → α → Prop) : σ → Prop
  | start {s : σ} : M.start s → Reach C s
  | step {s t : σ} {a : α} : Reach C s → C s a → M.step s a = some t → Reach C t

/-- `t` is reached from `s` by steps that meet `C`. -/
inductive Later (C : σ → α → Prop) (s : σ) : σ → Prop
  | refl : Later C s s
  | step {t u : σ} {a : α} : Later C s t → C t a → M.step t a = some u → Later C s u

abbrev Reachable : σ → Prop := M.Reach anyStep

variable {M}

/-- **The invariant rule.** -/
theorem Reach.invariant {C : σ → α → Prop} {I : σ → Prop} (h₀ : ∀ s, M.start s → I s)
    (h : ∀ s a t, I s → C s a → M.step s a = some t → I t) {s : σ} (hs : M.Reach C s) : I s := by
  induction hs with
  | start h => exact h₀ _ h
  | step _ hc ht ih => exact h _ _ _ ih hc ht

theorem Reach.mono {C D : σ → α → Prop} (hCD : ∀ s a, C s a → D s a) {s : σ}
    (hs : M.Reach C s) : M.Reach D s := by
  induction hs with
  | start h => exact .start h
  | step _ hc ht ih => exact .step ih (hCD _ _ hc) ht

theorem Reach.reachable {C : σ → α → Prop} {s : σ} (hs : M.Reach C s) : M.Reachable s :=
  hs.mono fun _ _ _ => trivial

/-- **The relation rule**: a reflexive relation that a step extends holds between the ends of a
run. -/
theorem Later.relate {C : σ → α → Prop} {R : σ → σ → Prop} {s t : σ} (h₀ : R s s)
    (h : ∀ t a u, M.Later C s t → R s t → C t a → M.step t a = some u → R s u)
    (hst : M.Later C s t) : R s t := by
  induction hst with
  | refl => exact h₀
  | step ht hc hu ih => exact h _ _ _ ht ih hc hu

/-! ## Running a list of actions -/

/-- The state a list of actions leads to, each of them checked against `c` where it is taken. -/
def runWhere (M : Machine σ α) (c : σ → α → Bool) : σ → List α → Option σ
  | s, [] => some s
  | s, a :: as => if c s a then (M.step s a).bind (runWhere M c · as) else none

def run (M : Machine σ α) : σ → List α → Option σ := M.runWhere fun _ _ => true

theorem reach_runWhere {C : σ → α → Prop} {c : σ → α → Bool} (hc : ∀ s a, c s a = true → C s a) :
    ∀ {as : List α} {s t : σ}, M.Reach C s → M.runWhere c s as = some t → M.Reach C t
  | [], s, t, hs, h => by
    simp only [runWhere, Option.some.injEq] at h
    exact h ▸ hs
  | a :: as, s, t, hs, h => by
    simp only [runWhere] at h
    split at h
    · next hca =>
      obtain ⟨u, hu, ht⟩ := Option.bind_eq_some_iff.1 h
      exact reach_runWhere hc (.step hs (hc s a hca) hu) ht
    · cases h

/-- A checked run whose last state passes the test `p` reaches a state that passes it. -/
theorem exists_reach_runWhere {C : σ → α → Prop} {c : σ → α → Bool}
    (hc : ∀ s a, c s a = true → C s a) {s : σ} (hs : M.start s) (as : List α) (p : σ → Bool)
    (h : (M.runWhere c s as).map p = some true) : ∃ t, M.Reach C t ∧ p t = true := by
  obtain ⟨t, ht, hp⟩ := Option.map_eq_some_iff.1 h
  exact ⟨t, reach_runWhere hc (.start hs) ht, hp⟩

/-- A run whose last state passes the test `p` reaches a state that passes it. -/
theorem exists_reachable_run {s : σ} (hs : M.start s) (as : List α) (p : σ → Bool)
    (h : (M.run s as).map p = some true) : ∃ t, M.Reachable t ∧ p t = true :=
  exists_reach_runWhere (C := anyStep) (fun _ _ _ => trivial) hs as p h

theorem Later.of_run : ∀ {as : List α} {r s t : σ}, M.Later anyStep r s → M.run s as = some t →
    M.Later anyStep r t
  | [], r, s, t, hs, h => by
    obtain rfl : s = t := Option.some.inj h
    exact hs
  | a :: as, r, s, t, hs, h => by
    obtain ⟨u, hu, ht⟩ := Option.bind_eq_some_iff.1 h
    exact Later.of_run (hs.step trivial hu) ht

theorem Later.of_runWhere {C : σ → α → Prop} {c : σ → α → Bool}
    (hc : ∀ s a, c s a = true → C s a) :
    ∀ {as : List α} {r s t : σ}, M.Later C r s → M.runWhere c s as = some t → M.Later C r t
  | [], r, s, t, hs, h => by
    obtain rfl : s = t := Option.some.inj h
    exact hs
  | a :: as, r, s, t, hs, h => by
    simp only [runWhere] at h
    split at h
    · next hca =>
      obtain ⟨u, hu, ht⟩ := Option.bind_eq_some_iff.1 h
      exact Later.of_runWhere hc (hs.step (hc s a hca) hu) ht
    · cases h

/-- A checked run from `s` whose last state passes the test `p` reaches, from `s`, one that does. -/
theorem exists_later_runWhere {C : σ → α → Prop} {c : σ → α → Bool}
    (hc : ∀ s a, c s a = true → C s a) {s : σ} (as : List α) (p : σ → Bool)
    (h : (M.runWhere c s as).map p = some true) : ∃ t, M.Later C s t ∧ p t = true := by
  obtain ⟨t, ht, hp⟩ := Option.map_eq_some_iff.1 h
  exact ⟨t, Later.of_runWhere hc .refl ht, hp⟩

theorem exists_later_run {s : σ} (as : List α) (p : σ → Bool)
    (h : (M.run s as).map p = some true) : ∃ t, M.Later anyStep s t ∧ p t = true := by
  obtain ⟨t, ht, hp⟩ := Option.map_eq_some_iff.1 h
  exact ⟨t, Later.of_run .refl ht, hp⟩

/-- Every step that a list of actions takes meets `C`. -/
def Meets (M : Machine σ α) (C : σ → α → Prop) : σ → List α → Prop
  | _, [] => True
  | s, a :: as => C s a ∧ ∀ t ∈ M.step s a, M.Meets C t as

instance decidableMeets {C : σ → α → Prop} [∀ s a, Decidable (C s a)] :
    ∀ (s : σ) (as : List α), Decidable (M.Meets C s as)
  | _, [] => isTrue trivial
  | s, a :: as =>
    match h : M.step s a with
    | none => decidable_of_iff (C s a) (by simp [Meets, h])
    | some t =>
      have := decidableMeets (C := C) t as
      decidable_of_iff (C s a ∧ M.Meets C t as) (by simp [Meets, h])

theorem Reach.of_meets {C : σ → α → Prop} :
    ∀ {as : List α} {s t : σ}, M.Reach C s → M.run s as = some t → M.Meets C s as → M.Reach C t
  | [], s, t, hs, h, _ => by
    obtain rfl : s = t := Option.some.inj h
    exact hs
  | a :: as, s, t, hs, h, hm => by
    obtain ⟨u, hu, ht⟩ := Option.bind_eq_some_iff.1 h
    exact Reach.of_meets (hs.step hm.1 hu) ht (hm.2 u hu)

theorem Later.of_meets {C : σ → α → Prop} :
    ∀ {as : List α} {r s t : σ}, M.Later C r s → M.run s as = some t → M.Meets C s as →
      M.Later C r t
  | [], _, s, t, hs, h, _ => by
    obtain rfl : s = t := Option.some.inj h
    exact hs
  | a :: as, r, s, t, hs, h, hm => by
    obtain ⟨u, hu, ht⟩ := Option.bind_eq_some_iff.1 h
    exact Later.of_meets (hs.step hm.1 hu) ht (hm.2 u hu)

/-- **The exactness rule**: what a step keeps exactly where it meets `C`, a run keeps exactly where
all its steps do. -/
theorem keeps_iff_meets {C : σ → α → Prop} {I P : σ → Prop}
    (hI : ∀ s a t, I s → M.step s a = some t → I t)
    (hP : ∀ s a t, I s → M.step s a = some t → (P t ↔ P s ∧ C s a)) :
    ∀ {as : List α} {s t : σ}, I s → M.run s as = some t → (P t ↔ P s ∧ M.Meets C s as)
  | [], s, t, _, h => by
    obtain rfl : s = t := Option.some.inj h
    simp only [Meets, and_true]
  | a :: as, s, t, hs, h => by
    obtain ⟨u, hu, ht⟩ := Option.bind_eq_some_iff.1 h
    rw [keeps_iff_meets hI hP (hI s a u hs hu) ht, hP s a u hs hu]
    simp only [Meets, hu, Option.mem_some_iff, forall_eq', and_assoc]

/-- Every state of the run has the property. -/
def Always (M : Machine σ α) (P : σ → Prop) : σ → List α → Prop
  | s, [] => P s
  | s, a :: as => P s ∧ ∀ t ∈ M.step s a, M.Always P t as

/-- **The upkeep rule**: where a step leads from a good state to a good one exactly if it meets `C`,
a run stays good exactly if all its steps do. -/
theorem always_iff_meets {C : σ → α → Prop} {I P : σ → Prop}
    (hI : ∀ s a t, I s → P s → C s a → M.step s a = some t → I t)
    (hP : ∀ s a t, I s → P s → M.step s a = some t → (P t ↔ C s a)) :
    ∀ {as : List α} {s t : σ}, I s → P s → M.run s as = some t →
      (M.Always P s as ↔ M.Meets C s as)
  | [], _, _, _, hs, _ => by simp only [Always, Meets, hs]
  | a :: as, s, t, hinv, hs, h => by
    obtain ⟨u, hu, ht⟩ := Option.bind_eq_some_iff.1 h
    simp only [Always, Meets, hu, Option.mem_some_iff, forall_eq', hs, true_and]
    constructor
    · intro halways
      have hgood : P u := by cases as <;> [exact halways; exact halways.1]
      have hc := (hP s a u hinv hs hu).1 hgood
      exact ⟨hc, (always_iff_meets hI hP (hI s a u hinv hs hc hu) hgood ht).1 halways⟩
    · rintro ⟨hc, hmeets⟩
      have hgood := (hP s a u hinv hs hu).2 hc
      exact (always_iff_meets hI hP (hI s a u hinv hs hc hu) hgood ht).2 hmeets

/-! ## Runs without an end -/

/-- The states of an infinite run and its actions. -/
structure IsRun (M : Machine σ α) (states : ℕ → σ) (actions : ℕ → α) : Prop where
  start : M.start (states 0)
  step : ∀ n, M.step (states n) (actions n) = some (states (n + 1))

theorem IsRun.reachable {states : ℕ → σ} {actions : ℕ → α} (h : M.IsRun states actions) (n : ℕ) :
    M.Reachable (states n) := by
  induction n with
  | zero => exact .start h.start
  | succ n ih => exact .step ih trivial (h.step n)

/-- What a step keeps from some point on holds from that point on. -/
theorem IsRun.keeps {states : ℕ → σ} {actions : ℕ → α} (h : M.IsRun states actions) {P : σ → Prop}
    {n : ℕ} (hn : P (states n)) (hstep : ∀ m, n ≤ m → P (states m) →
      M.step (states m) (actions m) = some (states (m + 1)) → P (states (m + 1))) :
    ∀ m, n ≤ m → P (states m) := by
  intro m hm
  obtain ⟨k, rfl⟩ := Nat.exists_eq_add_of_le hm
  induction k with
  | zero => exact hn
  | succ k ih => exact hstep _ (Nat.le_add_right n k) (ih (Nat.le_add_right n k)) (h.step _)

/-- **The descent rule**: what never grows does not shrink again and again. -/
theorem not_always_again {f : ℕ → ℕ} {n : ℕ} (hle : ∀ m, n ≤ m → f (m + 1) ≤ f m) :
    ¬ ∀ k, n ≤ k → ∃ m, k ≤ m ∧ f (m + 1) < f m := by
  intro hagain
  have hanti : ∀ k m, n ≤ k → k ≤ m → f m ≤ f k := by
    intro k m hk hkm
    obtain ⟨j, rfl⟩ := Nat.exists_eq_add_of_le hkm
    induction j with
    | zero => exact Nat.le_refl _
    | succ j ih =>
      have hkj := Nat.le_add_right k j
      exact Nat.le_trans (hle _ (Nat.le_trans hk hkj)) (ih hkj)
  have hbelow : ∀ v k, n ≤ k → f k = v → False := by
    intro v
    induction v using Nat.strongRecOn with
    | _ v ih =>
      intro k hk hv
      obtain ⟨m, hkm, hlt⟩ := hagain k hk
      have hm := hanti k m hk hkm
      exact ih (f (m + 1)) (by omega) (m + 1) (by omega) rfl
  exact hbelow (f n) n (Nat.le_refl n) rfl

/-! ## Refinement -/

/-- `N` does, between the abstractions of the states, what `M` does: a step of `M` that meets `C`
from a state in `I` is a relation `R` of `N`'s states. -/
structure Simulates {τ : Type w} (M : Machine σ α) (C : σ → α → Prop) (I : σ → Prop)
    (R : τ → τ → Prop) (init : τ → Prop) (abs : σ → τ) : Prop where
  start : ∀ s, M.start s → I s ∧ init (abs s)
  inv : ∀ s a t, I s → C s a → M.step s a = some t → I t
  step : ∀ s a t, I s → C s a → M.step s a = some t → R (abs s) (abs t)

/-- An invariant of the abstract relation holds of the abstraction of every state reached. -/
theorem Simulates.reach {τ : Type w} {C : σ → α → Prop} {I : σ → Prop} {R : τ → τ → Prop}
    {init : τ → Prop} {abs : σ → τ} (h : Simulates M C I R init abs) {J : τ → Prop}
    (h₀ : ∀ x, init x → J x) (hR : ∀ x y, J x → R x y → J y) {s : σ} (hs : M.Reach C s) :
    I s ∧ J (abs s) := by
  refine hs.invariant (I := fun s => I s ∧ J (abs s)) (fun s hs => ?_) fun s a t hI hc ht => ?_
  · exact ⟨(h.start s hs).1, h₀ _ (h.start s hs).2⟩
  · exact ⟨h.inv s a t hI.1 hc ht, hR _ _ hI.2 (h.step s a t hI.1 hc ht)⟩

end Machine

end ResidentCrm
