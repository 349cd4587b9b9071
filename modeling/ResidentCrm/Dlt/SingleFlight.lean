import ResidentCrm.Lib.Machine
import Mathlib.Data.Set.Card

/-!
# One investigation per fingerprint

The gate of `dlt/single_flight.py` on one event loop: calls of `flight` enter, wait for the lock of
their fingerprint's entry, go on with it or, timed out, without it, and leave. A step is what runs
between two suspension points. Of `asyncio.wait_for` it is taken that it returns with the lock
acquired or, timed out or cancelled, leaves it not acquired by its call.

The calls between entry and exit all use the entry that the table has for their fingerprint, which
counts them, and its lock is locked while one of them holds it (`Inv`, `reachable_inv`).
-/

namespace ResidentCrm.Dlt.SingleFlight

/-- `_Entry`. -/
structure Entry where
  locked : Bool := false
  refs : ℤ := 0

/-- `Flight`, without how long the call waited. -/
structure Flight where
  acquired : Bool
  waited : Bool

/-- Where a call of `flight` is. Entries are objects, known by a number. -/
inductive Phase
  | outside
  /-- In `wait_for`. -/
  | waiting (entry : ℕ) (waited : Bool)
  /-- In `wait_for`, which has acquired the lock. -/
  | granted (entry : ℕ) (waited : Bool)
  /-- In the block. -/
  | inside (entry : ℕ) (flight : Flight)
  | left
  /-- `release` found the lock not locked. -/
  | raised

namespace Phase

/-- The entry of a call between entry and exit. -/
def entry : Phase → Option ℕ
  | waiting id _ | granted id _ | inside id _ => some id
  | _ => none

/-- The call has acquired the lock and not released it. -/
def holds : Phase → Bool
  | granted _ _ => true
  | inside _ flight => flight.acquired
  | _ => false

theorem entry_of_holds {p : Phase} (h : p.holds = true) : ∃ id, p.entry = some id := by
  cases p with
  | granted id | inside id => exact ⟨id, rfl⟩
  | _ => cases h

end Phase

variable {F ι : Type*} [DecidableEq ι]

/-- The state of the loop: `_entries`, the entries and the next one's number, the calls, and how
often each has acquired a lock and released it. -/
structure Loop (F ι : Type*) where
  entries : F → Option ℕ
  heap : ℕ → Entry
  next : ℕ
  calls : ι → Phase
  acquisitions : ι → ℕ
  releases : ι → ℕ

namespace Loop

def setCall (s : Loop F ι) (i : ι) (p : Phase) : Loop F ι :=
  { s with calls := Function.update s.calls i p }

def setEntry (s : Loop F ι) (id : ℕ) (e : Entry) : Loop F ι :=
  { s with heap := Function.update s.heap id e }

/-- `lock.acquire()` on a lock that is free. -/
def acquire (s : Loop F ι) (i : ι) (id : ℕ) : Loop F ι :=
  { s.setEntry id { s.heap id with locked := true } with
    acquisitions := Function.update s.acquisitions i (s.acquisitions i + 1) }

/-- `lock.release()` on a lock that is locked. -/
def release (s : Loop F ι) (i : ι) (id : ℕ) : Loop F ι :=
  { s.setEntry id { s.heap id with locked := false } with
    releases := Function.update s.releases i (s.releases i + 1) }

variable [DecidableEq F]

/-- The entry of a fingerprint, a new one if there is none. -/
def find (s : Loop F ι) (f : F) : ℕ × Loop F ι :=
  match s.entries f with
  | some id => (id, s)
  | none =>
    (s.next, { s.setEntry s.next {} with
      entries := Function.update s.entries f (some s.next), next := s.next + 1 })

variable (fingerprint : ι → F)

/-- `flight` up to the wait. -/
def enter (s : Loop F ι) (i : ι) : Loop F ι :=
  let (id, s) := s.find (fingerprint i)
  let entry := s.heap id
  (s.setEntry id { entry with refs := entry.refs + 1 }).setCall i (.waiting id entry.locked)

/-- The end of the `finally`: the entry is counted down and, with no call left, deleted. -/
def countDown (s : Loop F ι) (i : ι) (id : ℕ) : Loop F ι :=
  let entry := s.heap id
  let s' := s.setEntry id { entry with refs := entry.refs - 1 }
  let entries := if entry.refs - 1 ≤ 0 ∧ s.entries (fingerprint i) = some id then
    Function.update s.entries (fingerprint i) none else s.entries
  { s' with entries := entries }.setCall i .left

/-- The `finally`. -/
def finish (s : Loop F ι) (i : ι) (id : ℕ) (acquired : Bool) : Loop F ι :=
  if acquired then
    if (s.heap id).locked then (s.release i id).countDown fingerprint i id
    else s.setCall i .raised
  else s.countDown fingerprint i id

end Loop

/-- What may happen to a call: it enters, is granted the lock, goes on with it, times out, is
cancelled, or comes to the end of its block or to an exception there. -/
inductive Action (ι : Type*)
  | enter (i : ι)
  | grant (i : ι)
  | resume (i : ι)
  | timeOut (i : ι)
  | cancel (i : ι)
  | leave (i : ι)

section

variable [DecidableEq F] (fingerprint : ι → F)

def step (s : Loop F ι) : Action ι → Option (Loop F ι)
  | .enter i =>
    match s.calls i with
    | .outside => some (s.enter fingerprint i)
    | _ => none
  | .grant i =>
    match s.calls i with
    | .waiting id waited =>
      if (s.heap id).locked then none else some ((s.acquire i id).setCall i (.granted id waited))
    | _ => none
  | .resume i =>
    match s.calls i with
    | .granted id waited => some (s.setCall i (.inside id ⟨true, waited⟩))
    | _ => none
  | .timeOut i =>
    match s.calls i with
    | .waiting id waited => some (s.setCall i (.inside id ⟨false, waited⟩))
    -- `wait_for` gives the lock back
    | .granted id waited => some ((s.release i id).setCall i (.inside id ⟨false, waited⟩))
    | _ => none
  | .cancel i =>
    match s.calls i with
    | .waiting id _ => some (s.finish fingerprint i id false)
    | .granted id _ => some ((s.release i id).finish fingerprint i id false)
    | .inside id flight => some (s.finish fingerprint i id flight.acquired)
    | _ => none
  | .leave i =>
    match s.calls i with
    | .inside id flight => some (s.finish fingerprint i id flight.acquired)
    | _ => none

/-- No call has entered. -/
def AtRest (s : Loop F ι) : Prop :=
  (∀ f, s.entries f = none) ∧ ∀ i, s.calls i = .outside ∧ s.acquisitions i = 0 ∧ s.releases i = 0

def gate : Machine (Loop F ι) (Action ι) where
  start := AtRest
  step := step fingerprint

end

variable (fingerprint : ι → F)

/-! ## The invariant -/

/-- The calls of a fingerprint between entry and exit. -/
def Loop.inFlight (s : Loop F ι) (f : F) : Set ι :=
  {i | fingerprint i = f ∧ ∃ id, (s.calls i).entry = some id}

/-- The calls in flight use the entry of their fingerprint, which counts them. -/
structure Sound (s : Loop F ι) : Prop where
  own : ∀ {i id}, (s.calls i).entry = some id → s.entries (fingerprint i) = some id
  old : ∀ {f id}, s.entries f = some id → id < s.next
  apart : ∀ {f g id}, s.entries f = some id → s.entries g = some id → f = g
  used : ∀ {f id}, s.entries f = some id → (s.inFlight fingerprint f).Finite ∧
    (s.heap id).refs = (s.inFlight fingerprint f).ncard
  locked : ∀ {f id}, s.entries f = some id →
    ((s.heap id).locked = true ↔ ∃ i, fingerprint i = f ∧ (s.calls i).holds = true)
  one : ∀ {i j}, fingerprint i = fingerprint j → (s.calls i).holds = true →
    (s.calls j).holds = true → i = j
  counted : ∀ i, s.acquisitions i = s.releases i + if (s.calls i).holds then 1 else 0
  unraised : ∀ i, s.calls i ≠ .raised

/-- And no entry is without a call. -/
structure Inv (s : Loop F ι) : Prop extends Sound fingerprint s where
  present : ∀ {f id}, s.entries f = some id → (s.inFlight fingerprint f).Nonempty

variable {fingerprint}

omit [DecidableEq ι] in
theorem AtRest.inv {s : Loop F ι} (h : AtRest s) : Inv fingerprint s where
  own {i id} hid := by
    rw [(h.2 i).1] at hid
    cases hid
  old {f id} hf := by
    rw [h.1 f] at hf
    cases hf
  apart {f g id} hf := by
    rw [h.1 f] at hf
    cases hf
  used {f id} hf := by
    rw [h.1 f] at hf
    cases hf
  locked {f id} hf := by
    rw [h.1 f] at hf
    cases hf
  one {i j} _ hi := by
    rw [(h.2 i).1] at hi
    cases hi
  counted i := by
    rw [(h.2 i).1, (h.2 i).2.1, (h.2 i).2.2]
    rfl
  unraised i := by
    rw [(h.2 i).1]
    exact Phase.noConfusion
  present {f id} hf := by
    rw [h.1 f] at hf
    cases hf

variable {s : Loop F ι} {i j : ι} {id : ℕ}

theorem calls_setCall {p : Phase} : (s.setCall i p).calls j = if j = i then p else s.calls j :=
  Function.update_apply _ _ _ _

/-! ## Calls that go on -/

/-- A property of phases that a call keeps is of each call what it was. -/
theorem map_setCall {α : Type*} (f : Phase → α) {p : Phase} (hp : f p = f (s.calls i)) (j : ι) :
    f ((s.setCall i p).calls j) = f (s.calls j) := by
  rw [calls_setCall]
  split
  · next h => rw [h, hp]
  · rfl

theorem inFlight_setCall {p : Phase} (hp : p.entry = (s.calls i).entry) (f : F) :
    (s.setCall i p).inFlight fingerprint f = s.inFlight fingerprint f := by
  simp only [Loop.inFlight, map_setCall Phase.entry hp]

theorem inFlight_setCall_of_ne {p : Phase} {f : F} (hf : f ≠ fingerprint i) :
    (s.setCall i p).inFlight fingerprint f = s.inFlight fingerprint f := by
  ext j
  refine and_congr_right fun hj => ?_
  rw [calls_setCall, if_neg]
  rintro rfl
  exact hf hj.symm

theorem inFlight_joined {p : Phase} (hp : p.entry = some id) :
    (s.setCall i p).inFlight fingerprint (fingerprint i) =
      insert i (s.inFlight fingerprint (fingerprint i)) := by
  ext j
  by_cases hj : j = i
  · simp [Loop.inFlight, calls_setCall, hj, hp]
  · simp [Loop.inFlight, calls_setCall, hj]

theorem inFlight_left {p : Phase} (hp : p.entry = none) :
    (s.setCall i p).inFlight fingerprint (fingerprint i) =
      s.inFlight fingerprint (fingerprint i) \ {i} := by
  ext j
  by_cases hj : j = i
  · simp [Loop.inFlight, calls_setCall, hj, hp]
  · simp [Loop.inFlight, calls_setCall, hj]

/-- A call goes on, on its entry, with the lock or without it as before. -/
theorem Inv.goesOn (h : Inv fingerprint s) {p : Phase} (hentry : p.entry = (s.calls i).entry)
    (hholds : p.holds = (s.calls i).holds) (hp : p ≠ .raised) :
    Inv fingerprint (s.setCall i p) where
  own hid := h.own ((map_setCall Phase.entry hentry _).symm.trans hid)
  old := h.old
  apart := h.apart
  used hf := by
    rw [inFlight_setCall hentry]
    exact h.used hf
  locked hf := by
    simp only [map_setCall Phase.holds hholds]
    exact h.locked hf
  one heq hi hj :=
    h.one heq ((map_setCall Phase.holds hholds _).symm.trans hi)
      ((map_setCall Phase.holds hholds _).symm.trans hj)
  counted j := by
    rw [map_setCall Phase.holds hholds]
    exact h.counted j
  unraised j := by
    rw [calls_setCall]
    split
    · exact hp
    · exact h.unraised j
  present hf := by
    rw [inFlight_setCall hentry]
    exact h.present hf

/-- A call locks its entry or unlocks it, while no other of its fingerprint holds the lock. -/
theorem Inv.locks (h : Inv fingerprint s) (hi : (s.calls i).entry = some id)
    (halone : ∀ j, fingerprint j = fingerprint i → (s.calls j).holds = true → j = i) {p : Phase}
    (hp : p.entry = some id) (acquisitions releases : ι → ℕ)
    (hcount : acquisitions i = releases i + if p.holds then 1 else 0)
    (hothers : ∀ j, j ≠ i → acquisitions j = s.acquisitions j ∧ releases j = s.releases j) :
    Inv fingerprint { (s.setEntry id { s.heap id with locked := p.holds }).setCall i p with
      acquisitions := acquisitions, releases := releases } := by
  have hentry : p.entry = (s.calls i).entry := hp.trans hi.symm
  have hown : s.entries (fingerprint i) = some id := h.own hi
  have hrefs : ∀ id', (Function.update s.heap id { s.heap id with locked := p.holds } id').refs =
      (s.heap id').refs := fun id' => by
    rw [Function.update_apply]
    split
    · next heq => rw [heq]
    · rfl
  -- the holders of another fingerprint are who they were, and of this one it is the call alone
  have hcalls : ∀ j, j ≠ i → (s.setCall i p).calls j = s.calls j := fun j hne => by
    rw [calls_setCall, if_neg hne]
  have hself : (s.setCall i p).calls i = p := by rw [calls_setCall, if_pos rfl]
  have honly : ∀ j, fingerprint j = fingerprint i → ((s.setCall i p).calls j).holds = true →
      j = i := fun j hj hholds => by
    by_contra hne
    rw [hcalls j hne] at hholds
    exact hne (halone j hj hholds)
  have hflights : ∀ f, (s.setCall i p).inFlight fingerprint f = s.inFlight fingerprint f :=
    inFlight_setCall hentry
  refine ⟨⟨fun hid => h.own ((map_setCall Phase.entry hentry _).symm.trans hid), h.old, h.apart,
    fun {f id'} hf => ?_, fun {f id'} hf => ?_, fun {j k} heq hj hk => ?_, fun j => ?_,
    fun j => ?_⟩, fun {f id'} hf => (hflights f).symm ▸ h.present hf⟩
  · obtain ⟨hfinite, hcard⟩ := h.used hf
    exact ⟨(hflights f).symm ▸ hfinite, (hrefs id').trans ((hflights f).symm ▸ hcard)⟩
  · show (Function.update s.heap id _ id').locked = true ↔
      ∃ j, fingerprint j = f ∧ ((s.setCall i p).calls j).holds = true
    by_cases hid : id' = id
    · obtain rfl : f = fingerprint i := h.apart (hid ▸ hf) hown
      rw [hid, Function.update_self]
      constructor
      · exact fun hlocked => ⟨i, rfl, by rwa [hself]⟩
      · rintro ⟨j, hj, hholds⟩
        rw [honly j hj hholds, hself] at hholds
        exact hholds
    · rw [Function.update_of_ne hid, h.locked hf]
      refine exists_congr fun j => and_congr_right fun hj => ?_
      have hne : j ≠ i := by
        rintro rfl
        have hf : s.entries f = some id' := hf
        rw [← hj, hown] at hf
        exact hid (Option.some.inj hf).symm
      rw [hcalls j hne]
  · by_cases hji : fingerprint j = fingerprint i
    · rw [honly j hji hj, honly k (heq ▸ hji) hk]
    · have hj' : j ≠ i := fun h => hji (congrArg fingerprint h)
      have hk' : k ≠ i := fun h => hji (heq.trans (congrArg fingerprint h))
      exact h.one heq (hcalls j hj' ▸ hj) (hcalls k hk' ▸ hk)
  · show acquisitions j = releases j + if ((s.setCall i p).calls j).holds then 1 else 0
    by_cases hji : j = i
    · rw [hji, hself, hcount]
    · rw [hcalls j hji, (hothers j hji).1, (hothers j hji).2, h.counted j]
  · show (s.setCall i p).calls j ≠ .raised
    by_cases hji : j = i
    · rw [hji, hself]
      rintro rfl
      cases hp
    · rw [hcalls j hji]
      exact h.unraised j

/-- A waiting call acquires the lock while it is free. -/
theorem Inv.acquires (h : Inv fingerprint s) {waited : Bool} (hi : s.calls i = .waiting id waited)
    (hfree : ¬ (s.heap id).locked = true) :
    Inv fingerprint ((s.acquire i id).setCall i (.granted id waited)) := by
  have hentry : (s.calls i).entry = some id := by rw [hi]; rfl
  have hcount := h.counted i
  rw [hi] at hcount
  refine h.locks hentry (fun j hj hholds => ?_) (p := .granted id waited) rfl
    (Function.update s.acquisitions i (s.acquisitions i + 1)) s.releases ?_ fun j hj => ?_
  · exact absurd ((h.locked (h.own hentry)).2 ⟨j, hj, hholds⟩) hfree
  · rw [Function.update_self, hcount]
    rfl
  · exact ⟨Function.update_of_ne hj _ _, rfl⟩

/-- A call that holds the lock releases it. -/
theorem Inv.releases (h : Inv fingerprint s) (hi : (s.calls i).entry = some id)
    (hholds : (s.calls i).holds = true) {p : Phase} (hp : p.entry = some id)
    (hfree : p.holds = false) : Inv fingerprint ((s.release i id).setCall i p) := by
  have hcount := h.counted i
  rw [hholds] at hcount
  have hlocks := h.locks hi (fun j hj hj' => h.one hj hj' hholds) hp s.acquisitions
    (Function.update s.releases i (s.releases i + 1))
    (by rw [Function.update_self, hcount, hfree]; rfl)
    fun j hj => ⟨rfl, Function.update_of_ne hj _ _⟩
  rw [hfree] at hlocks
  exact hlocks

/-! ## Entering and leaving -/

/-- A call that does not hold a lock comes or goes: what is left to see is that the entries in the
table count the calls in flight. -/
theorem Sound.recounts (h : Sound fingerprint s) (hholds : (s.calls i).holds = false) {p : Phase}
    (hp : p.holds = false) (hraised : p ≠ .raised) {entries : F → Option ℕ}
    (hold : ∀ {g id}, entries g = some id → s.entries g = some id) (id : ℕ) (refs : ℤ)
    (hown : ∀ {j id}, ((s.setCall i p).calls j).entry = some id →
      entries (fingerprint j) = some id)
    (hused : ∀ {g id'}, entries g = some id' →
      ((s.setCall i p).inFlight fingerprint g).Finite ∧
        (Function.update s.heap id { s.heap id with refs := refs } id').refs =
          ((s.setCall i p).inFlight fingerprint g).ncard) :
    Sound fingerprint
      ({ s.setEntry id { s.heap id with refs := refs } with entries := entries }.setCall i p) := by
  have hsame : ∀ j, ((s.setCall i p).calls j).holds = (s.calls j).holds :=
    map_setCall Phase.holds (hp.trans hholds.symm)
  have hlocked : ∀ id', (Function.update s.heap id { s.heap id with refs := refs } id').locked =
      (s.heap id').locked := fun id' => by
    rw [Function.update_apply]
    split
    · next heq => rw [heq]
    · rfl
  refine ⟨hown, fun hg => h.old (hold hg), fun hg hg' => h.apart (hold hg) (hold hg'), hused,
    fun {g id'} hg => ?_,
    fun heq hj hk => h.one heq ((hsame _).symm.trans hj) ((hsame _).symm.trans hk), fun j => ?_,
    fun j => ?_⟩
  · show (Function.update s.heap id _ id').locked = true ↔
      ∃ j, fingerprint j = g ∧ ((s.setCall i p).calls j).holds = true
    rw [hlocked]
    simp only [hsame]
    exact h.locked (hold hg)
  · show s.acquisitions j = s.releases j + if ((s.setCall i p).calls j).holds then 1 else 0
    rw [hsame]
    exact h.counted j
  · show (s.setCall i p).calls j ≠ .raised
    rw [calls_setCall]
    split
    · exact hraised
    · exact h.unraised j

/-- A call joins the entry of its fingerprint. -/
theorem Sound.joins (h : Sound fingerprint s) (hi : (s.calls i).entry = none)
    (hholds : (s.calls i).holds = false) (hid : s.entries (fingerprint i) = some id)
    (hpresent : ∀ {g id}, g ≠ fingerprint i → s.entries g = some id →
      (s.inFlight fingerprint g).Nonempty) (waited : Bool) :
    Inv fingerprint ((s.setEntry id { s.heap id with refs := (s.heap id).refs + 1 }).setCall i
      (.waiting id waited)) := by
  have hjoined : (s.setCall i (.waiting id waited)).inFlight fingerprint (fingerprint i) =
      insert i (s.inFlight fingerprint (fingerprint i)) := inFlight_joined rfl
  have hnew : i ∉ s.inFlight fingerprint (fingerprint i) := fun hin => by
    obtain ⟨-, id', hid'⟩ := hin
    rw [hi] at hid'
    cases hid'
  refine ⟨h.recounts hholds rfl Phase.noConfusion (fun hg => hg) id _ (fun {j id'} hj => ?_)
    fun {g id'} hg => ?_, fun {g id'} hg => ?_⟩
  · rw [calls_setCall] at hj
    split at hj
    · next heq =>
      rw [heq]
      exact hid.trans hj
    · exact h.own hj
  · by_cases hgi : g = fingerprint i
    · obtain rfl : id' = id := Option.some.inj (Eq.trans (hgi ▸ hg).symm hid)
      obtain ⟨hfinite, hcard⟩ := h.used hid
      rw [hgi, hjoined, Function.update_self, Set.ncard_insert_of_notMem hnew hfinite, hcard]
      exact ⟨hfinite.insert i, rfl⟩
    · have hne : id' ≠ id := fun heq => hgi (h.apart (heq ▸ hg) hid)
      rw [inFlight_setCall_of_ne hgi, Function.update_of_ne hne]
      exact h.used hg
  · show ((s.setCall i (.waiting id waited)).inFlight fingerprint g).Nonempty
    by_cases hgi : g = fingerprint i
    · rw [hgi, hjoined]
      exact Set.insert_nonempty _ _
    · rw [inFlight_setCall_of_ne hgi]
      exact hpresent hgi hg

section EntryAndExit

variable [DecidableEq F]

omit [DecidableEq ι] in
/-- An entry is new: no call of its fingerprint is in flight. -/
theorem Inv.created (h : Inv fingerprint s) {f : F} (hf : s.entries f = none) :
    Sound fingerprint { s.setEntry s.next {} with
      entries := Function.update s.entries f (some s.next), next := s.next + 1 } := by
  have hnone : ∀ j, fingerprint j = f → (s.calls j).entry = none := fun j hj => by
    cases hid : (s.calls j).entry with
    | none => rfl
    | some id =>
      rw [← hj, h.own hid] at hf
      cases hf
  have hempty : s.inFlight fingerprint f = ∅ := by
    refine Set.eq_empty_iff_forall_notMem.2 ?_
    rintro j ⟨hj, id, hid⟩
    rw [hnone j hj] at hid
    cases hid
  -- an entry of the new table is the new one or one of the old
  have hcases : ∀ g id, Function.update s.entries f (some s.next) g = some id →
      g = f ∧ id = s.next ∨ g ≠ f ∧ s.entries g = some id ∧ id < s.next := fun g id hg => by
    by_cases hgf : g = f
    · rw [hgf, Function.update_self] at hg
      exact .inl ⟨hgf, (Option.some.inj hg).symm⟩
    · rw [Function.update_of_ne hgf] at hg
      exact .inr ⟨hgf, hg, h.old hg⟩
  have hheap : ∀ id, id < s.next → Function.update s.heap s.next {} id = s.heap id :=
    fun id hid => Function.update_of_ne (Nat.ne_of_lt hid) _ _
  refine ⟨fun {j id} hid => ?_, fun {g id} hg => ?_, fun {g g' id} hg hg' => ?_,
    fun {g id} hg => ?_, fun {g id} hg => ?_, h.one, h.counted, h.unraised⟩
  · have hid : (s.calls j).entry = some id := hid
    refine (Function.update_of_ne (fun hj => ?_) _ _).trans (h.own hid)
    rw [hnone j hj] at hid
    cases hid
  · rcases hcases g id hg with ⟨-, rfl⟩ | ⟨-, -, hlt⟩
    · exact Nat.lt_succ_self _
    · exact Nat.lt_succ_of_lt hlt
  · rcases hcases g id hg with ⟨rfl, hid⟩ | ⟨hne, hold, hlt⟩ <;>
      rcases hcases g' id hg' with ⟨rfl, hid'⟩ | ⟨hne', hold', hlt'⟩
    · rfl
    · omega
    · omega
    · exact h.apart hold hold'
  · rcases hcases g id hg with ⟨rfl, rfl⟩ | ⟨-, hold, hlt⟩
    · have hsame : Loop.inFlight fingerprint s g = ∅ := hempty
      refine ⟨hsame.symm ▸ Set.finite_empty, ?_⟩
      show (Function.update s.heap s.next {} s.next).refs = ((s.inFlight fingerprint g).ncard : ℤ)
      rw [Function.update_self, hsame, Set.ncard_empty]
      rfl
    · show _ ∧ (Function.update s.heap s.next {} id).refs = _
      rw [hheap id hlt]
      exact h.used hold
  · rcases hcases g id hg with ⟨rfl, rfl⟩ | ⟨-, hold, hlt⟩
    · show (Function.update s.heap s.next {} s.next).locked = true ↔ _
      rw [Function.update_self]
      refine iff_of_false Bool.false_ne_true ?_
      rintro ⟨j, hj, hholds⟩
      obtain ⟨id, hid⟩ := Phase.entry_of_holds hholds
      have hid : (s.calls j).entry = some id := hid
      rw [hnone j hj] at hid
      cases hid
    · show (Function.update s.heap s.next {} id).locked = true ↔ _
      rw [hheap id hlt]
      exact h.locked hold

theorem Inv.enter (h : Inv fingerprint s) (hi : s.calls i = .outside) :
    Inv fingerprint (s.enter fingerprint i) := by
  have hentry : (s.calls i).entry = none := by rw [hi]; rfl
  have hholds : (s.calls i).holds = false := by rw [hi]; rfl
  rw [Loop.enter, Loop.find]
  cases hf : s.entries (fingerprint i) with
  | some id => exact h.joins hentry hholds hf (fun _ hg => h.present hg) _
  | none =>
    refine (h.created hf).joins hentry hholds (Function.update_self _ _ _)
      (fun {g id} hne hg => ?_) _
    exact h.present ((Function.update_of_ne hne _ _).symm.trans hg)

/-- What the table keeps when a call leaves: its entry exactly while another call is on it. -/
theorem entries_countDown {s : Loop F ι} {i : ι} {id : ℕ}
    (hid : s.entries (fingerprint i) = some id) (g : F) :
    (s.countDown fingerprint i id).entries g =
      if g = fingerprint i ∧ (s.heap id).refs ≤ 1 then none else s.entries g := by
  show (if (s.heap id).refs - 1 ≤ 0 ∧ s.entries (fingerprint i) = some id then
    Function.update s.entries (fingerprint i) none else s.entries) g = _
  by_cases hlast : (s.heap id).refs ≤ 1
  · rw [if_pos ⟨by omega, hid⟩, Function.update_apply]
    simp only [hlast, and_true]
  · rw [if_neg fun h => hlast (by omega), if_neg fun h => hlast h.2]

/-- A call that does not hold the lock leaves. -/
theorem Inv.countDown (h : Inv fingerprint s) (hi : (s.calls i).entry = some id)
    (hholds : (s.calls i).holds = false) : Inv fingerprint (s.countDown fingerprint i id) := by
  have hown : s.entries (fingerprint i) = some id := h.own hi
  obtain ⟨hfinite, hcard⟩ := h.used hown
  have hin : i ∈ s.inFlight fingerprint (fingerprint i) := ⟨rfl, id, hi⟩
  have hleft : (s.setCall i .left).inFlight fingerprint (fingerprint i) =
      s.inFlight fingerprint (fingerprint i) \ {i} := inFlight_left rfl
  have hrest := Set.ncard_sdiff_singleton_add_one hin hfinite
  have hentries : ∀ g, (s.countDown fingerprint i id).entries g =
      if g = fingerprint i ∧ (s.heap id).refs ≤ 1 then none else s.entries g :=
    entries_countDown hown
  have hold : ∀ {g id'}, (s.countDown fingerprint i id).entries g = some id' →
      s.entries g = some id' := fun {g id'} hg => by
    rw [hentries] at hg
    split at hg
    · cases hg
    · exact hg
  refine ⟨h.recounts hholds rfl Phase.noConfusion hold id _ (fun {j id'} hj => ?_)
    fun {g id'} hg => ?_, fun {g id'} hg => ?_⟩
  · rw [calls_setCall] at hj
    split at hj
    · cases hj
    · next hne =>
      refine ((hentries _).trans (if_neg ?_)).trans (h.own hj)
      rintro ⟨hji, hfew⟩
      have hmany := (Set.one_lt_ncard hfinite).2 ⟨i, hin, j, ⟨hji, id', hj⟩, Ne.symm hne⟩
      omega
  · by_cases hgi : g = fingerprint i
    · obtain rfl : id' = id := Option.some.inj (Eq.trans (hgi ▸ hold hg).symm hown)
      rw [hgi, hleft, Function.update_self]
      refine ⟨hfinite.sdiff, ?_⟩
      simp only
      omega
    · have hne : id' ≠ id := fun heq => hgi (h.apart (heq ▸ hold hg) hown)
      rw [inFlight_setCall_of_ne hgi, Function.update_of_ne hne]
      exact h.used (hold hg)
  · show ((s.setCall i .left).inFlight fingerprint g).Nonempty
    by_cases hgi : g = fingerprint i
    · rw [hgi, hleft]
      refine Set.nonempty_of_ncard_ne_zero fun hzero => ?_
      rw [hentries, if_pos ⟨hgi, by omega⟩] at hg
      cases hg
    · rw [inFlight_setCall_of_ne hgi]
      exact h.present (hold hg)

theorem countDown_setCall (s : Loop F ι) (i : ι) (id : ℕ) (p : Phase) :
    (s.setCall i p).countDown fingerprint i id = s.countDown fingerprint i id := by
  have hcalls : Function.update (Function.update s.calls i p) i .left =
      Function.update s.calls i .left := Function.update_idem _ _ _
  exact congrArg (fun calls => { s.countDown fingerprint i id with calls := calls }) hcalls

/-- A call releases the lock it holds and leaves. -/
theorem Inv.releasesAndLeaves (h : Inv fingerprint s) (hi : (s.calls i).entry = some id)
    (hholds : (s.calls i).holds = true) :
    Inv fingerprint ((s.release i id).countDown fingerprint i id) := by
  rw [← countDown_setCall _ _ _ (.waiting id false)]
  have hcall : ((s.release i id).setCall i (.waiting id false)).calls i = .waiting id false := by
    rw [calls_setCall, if_pos rfl]
  exact (h.releases hi hholds rfl rfl).countDown (by rw [hcall]; rfl) (by rw [hcall]; rfl)

theorem Inv.finish (h : Inv fingerprint s) (hi : (s.calls i).entry = some id) :
    Inv fingerprint (s.finish fingerprint i id (s.calls i).holds) := by
  rw [Loop.finish]
  cases hholds : (s.calls i).holds with
  | false => exact h.countDown hi hholds
  | true =>
    have hlocked : (s.heap id).locked = true := (h.locked (h.own hi)).2 ⟨i, rfl, hholds⟩
    rw [if_pos rfl, if_pos hlocked]
    exact h.releasesAndLeaves hi hholds

/-- **Every step keeps the invariant.** -/
theorem Inv.step {t : Loop F ι} (h : Inv fingerprint s) {a : Action ι}
    (ht : step fingerprint s a = some t) : Inv fingerprint t := by
  cases a with
  | enter i =>
    simp only [SingleFlight.step] at ht
    split at ht
    · next hi => exact Option.some.inj ht ▸ h.enter hi
    · cases ht
  | grant i =>
    simp only [SingleFlight.step] at ht
    split at ht
    · next id waited hi =>
      split at ht
      · cases ht
      · next hfree => exact Option.some.inj ht ▸ h.acquires hi hfree
    · cases ht
  | resume i =>
    simp only [SingleFlight.step] at ht
    split at ht
    · next id waited hi =>
      exact Option.some.inj ht ▸ h.goesOn (by rw [hi]; rfl) (by rw [hi]; rfl) Phase.noConfusion
    · cases ht
  | timeOut i =>
    simp only [SingleFlight.step] at ht
    split at ht
    · next id waited hi =>
      exact Option.some.inj ht ▸ h.goesOn (by rw [hi]; rfl) (by rw [hi]; rfl) Phase.noConfusion
    · next id waited hi =>
      exact Option.some.inj ht ▸ h.releases (by rw [hi]; rfl) (by rw [hi]; rfl) rfl rfl
    · cases ht
  | cancel i =>
    simp only [SingleFlight.step] at ht
    split at ht
    · next id waited hi =>
      have hfinish := h.finish (i := i) (by rw [hi]; rfl)
      rw [hi] at hfinish
      exact Option.some.inj ht ▸ hfinish
    · next id waited hi =>
      exact Option.some.inj ht ▸ h.releasesAndLeaves (by rw [hi]; rfl) (by rw [hi]; rfl)
    · next id flight hi =>
      have hfinish := h.finish (i := i) (by rw [hi]; rfl)
      rw [hi] at hfinish
      exact Option.some.inj ht ▸ hfinish
    · cases ht
  | leave i =>
    simp only [SingleFlight.step] at ht
    split at ht
    · next id flight hi =>
      have hfinish := h.finish (i := i) (by rw [hi]; rfl)
      rw [hi] at hfinish
      exact Option.some.inj ht ▸ hfinish
    · cases ht

theorem reachable_inv (h : (gate fingerprint).Reachable s) : Inv fingerprint s :=
  h.invariant (fun _ => AtRest.inv) fun _ _ _ hs _ => hs.step

end EntryAndExit

/-! ## What the gate gives -/

/-- The call is in its block with the lock. -/
def Loop.Leads (s : Loop F ι) (i : ι) : Prop :=
  ∃ id flight, s.calls i = .inside id flight ∧ flight.acquired = true

omit [DecidableEq ι] in
theorem Loop.Leads.holds (h : s.Leads i) : (s.calls i).holds = true := by
  obtain ⟨id, flight, hi, hacquired⟩ := h
  rw [hi]
  exact hacquired

/-- **The gate is exclusive and leaves nothing behind.** At most one call of a fingerprint leads.
The calls in flight are on the entry that the table has for their fingerprint; it counts them, it is
there exactly while there is one, and its lock is locked only while one of them holds it. Every lock
acquired is released once, and the release finds it locked. -/
theorem flight_exclusive [DecidableEq F] (h : (gate fingerprint).Reachable s) :
    (∀ i j, fingerprint i = fingerprint j → s.Leads i → s.Leads j → i = j) ∧
      (∀ i id, (s.calls i).entry = some id → s.entries (fingerprint i) = some id) ∧
      (∀ f id, s.entries f = some id → (s.inFlight fingerprint f).Finite ∧
        (s.heap id).refs = (s.inFlight fingerprint f).ncard) ∧
      (∀ f, s.entries f = none ↔ s.inFlight fingerprint f = ∅) ∧
      (∀ f id, s.entries f = some id → (s.heap id).locked = true →
        ∃ i, fingerprint i = f ∧ (s.calls i).holds = true) ∧
      ∀ i, s.acquisitions i = s.releases i + (if (s.calls i).holds then 1 else 0) ∧
        s.calls i ≠ .raised := by
  have hinv := reachable_inv h
  refine ⟨fun i j hij hi hj => hinv.one hij hi.holds hj.holds, fun i id => hinv.own,
    fun f id => hinv.used, fun f => ⟨fun hf => ?_, fun hf => ?_⟩,
    fun f id hf => (hinv.locked hf).1, fun i => ⟨hinv.counted i, hinv.unraised i⟩⟩
  · refine Set.eq_empty_iff_forall_notMem.2 ?_
    rintro i ⟨rfl, id, hid⟩
    rw [hinv.own hid] at hf
    cases hf
  · cases hid : s.entries f with
    | none => rfl
    | some id => exact absurd hf (hinv.present hid).ne_empty

/-- One call leads, one has timed out beside it, and one has left; the two that are in flight are
counted. -/
theorem flight_exclusive_after_timeOut : ∃ s : Loop Unit ℕ,
    (gate fun _ : ℕ => ()).Reachable s ∧ (s.calls 0).holds = true ∧ (s.heap 0).refs = 2 ∧
      ((s.heap 0).refs = (s.inFlight (fun _ : ℕ => ()) ()).ncard) := by
  let empty : Loop Unit ℕ := ⟨fun _ => none, fun _ => {}, 0, fun _ => .outside, 0, 0⟩
  have hrest : (gate fun _ : ℕ => ()).start empty := ⟨fun _ => rfl, fun _ => ⟨rfl, rfl, rfl⟩⟩
  obtain ⟨s, hs, htest⟩ := Machine.exists_reachable_run hrest
    [.enter 0, .enter 1, .grant 0, .enter 2, .resume 0, .timeOut 1, .cancel 2]
    (fun s => (s.calls 0).holds && (s.heap 0).refs == 2 && s.entries () == some 0) (by decide)
  simp only [Bool.and_eq_true, beq_iff_eq] at htest
  obtain ⟨⟨hholds, hrefs⟩, hentry⟩ := htest
  exact ⟨s, hs, hholds, hrefs, ((flight_exclusive hs).2.2.1 () 0 hentry).2⟩

end ResidentCrm.Dlt.SingleFlight
