import ResidentCrm.Lib.Machine
import Mathlib.Data.List.Perm.Subperm
import Mathlib.Logic.Function.Basic

/-!
# Model calls

The model-call slots of `utils/resilience.py`, and what an abandoned run may still do
(`core/run_control.py`, the middleware of `core/agent_factory.py`). Before a model call a thread
checks that its run goes on, takes one of the slots, which are made where they are first asked for,
and gives it back after the call; while all are taken it waits, and checks again each time the wait
runs out. A tool call is checked the same way. A step is what a thread does between two accesses of
what the threads share.

Whatever the threads do, one semaphore is made, and no more calls are under way than it has slots
(`slots_bounded`); a thread of an abandoned run begins one more call at most, and only where it was
past its check (`abandoned_begins_one`).
-/

namespace ResidentCrm.Agents

/-- `threading.BoundedSemaphore` -/
structure Semaphore where
  limit : ℕ
  free : ℕ
deriving DecidableEq

/-- What a thread asks for the slots for: to take one, or to give back the one it holds. -/
inductive Use where
  | acquire
  | release (held : ℕ)
deriving DecidableEq

inductive Kind where
  | model
  | tool
deriving DecidableEq

/-- Where a thread is. -/
inductive Phase where
  | idle
  /-- Past the check of `CancellationMiddleware`. -/
  | cleared (kind : Kind)
  /-- In `_slots`: before the first look. -/
  | reading (use : Use)
  | locking (use : Use)
  /-- With the lock, before the second look. -/
  | locked (use : Use)
  | making (use : Use)
  | leaving (use : Use)
  | rereading (use : Use)
  /-- In `acquire_model_call_slot`, before the attempt that does not wait. -/
  | trying (id : ℕ)
  | waiting (id : ℕ)
  /-- In the model call. -/
  | calling (id : ℕ)
  | usingTool
  /-- The semaphore was released more often than acquired. -/
  | overReleased
deriving DecidableEq

namespace Phase

/-- The thread holds a slot. -/
def holds : Phase → Bool
  | calling _ => true
  | reading (.release _) | locking (.release _) | locked (.release _) | making (.release _)
  | leaving (.release _) | rereading (.release _) => true
  | _ => false

/-- The thread is past its check and has not begun the call. -/
def pending : Phase → Bool
  | cleared _ | trying _ | waiting _ => true
  | reading .acquire | locking .acquire | locked .acquire | making .acquire
  | leaving .acquire | rereading .acquire => true
  | _ => false

end Phase

/-- `_model_call_slots`, its lock, the semaphores made, the runs that are abandoned, where the
threads are, and how many calls each has begun. -/
structure State (ι R : Type*) where
  slots : Option ℕ
  lock : Option ι
  semaphores : List Semaphore
  abandoned : R → Bool
  threads : ι → Phase
  begun : ι → ℕ

inductive Action (ι R : Type*) where
  /-- The caller of the run stops waiting for it. -/
  | abandon (r : R)
  /-- An agent is about to make a call. -/
  | request (i : ι) (kind : Kind)
  | next (i : ι)
  /-- The wait for a slot runs out. -/
  | timeOut (i : ι)
  /-- The task that waits is cancelled. -/
  | cancel (i : ι)

section

variable {ι R : Type*} [DecidableEq ι] [DecidableEq R]

namespace State

def goto (s : State ι R) (i : ι) (p : Phase) : State ι R :=
  { s with threads := Function.update s.threads i p }

/-- The thread goes on to its call. -/
def goOn (s : State ι R) (i : ι) (p : Phase) : State ι R :=
  { s.goto i p with begun := Function.update s.begun i (s.begun i + 1) }

/-- The semaphore gives a slot, if it has one. -/
def take (s : State ι R) (i : ι) (id : ℕ) : Option (State ι R) :=
  match s.semaphores[id]? with
  | some sem =>
    if sem.free = 0 then none
    else some { s.goOn i (.calling id) with
      semaphores := s.semaphores.set id { sem with free := sem.free - 1 } }
  | none => none

/-- `BoundedSemaphore.release` -/
def giveBack (s : State ι R) (i : ι) (id : ℕ) : State ι R :=
  match s.semaphores[id]? with
  | some sem =>
    if sem.free < sem.limit then
      { s.goto i .idle with semaphores := s.semaphores.set id { sem with free := sem.free + 1 } }
    else s.goto i .overReleased
  | none => s.goto i .overReleased

/-- What a thread does with the slots. -/
def withSlots (s : State ι R) (i : ι) (use : Use) (id : ℕ) : State ι R :=
  match use with
  | .acquire => s.goto i (.trying id)
  | .release _ => s.giveBack i id

end State

-- the run of each thread, and `max_concurrent_model_calls`
variable (run : ι → Option R) (limit : ℕ)

/-- `cancelled` -/
def cancelled (s : State ι R) (i : ι) : Bool := (run i).any s.abandoned

/-- What a thread does next. -/
def advance (s : State ι R) (i : ι) : Option (State ι R) :=
  match s.threads i with
  | .idle => none
  | .cleared .tool => some (s.goOn i .usingTool)
  | .cleared .model => some (s.goto i (.reading .acquire))
  | .reading use =>
    match s.slots with
    | none => some (s.goto i (.locking use))
    | some id => some (s.withSlots i use id)
  | .locking use =>
    if s.lock = none then some { s.goto i (.locked use) with lock := some i } else none
  | .locked use =>
    match s.slots with
    | none => some (s.goto i (.making use))
    | some _ => some (s.goto i (.leaving use))
  | .making use =>
    some { s.goto i (.leaving use) with
      slots := some s.semaphores.length
      semaphores := s.semaphores ++ [⟨limit, limit⟩] }
  | .leaving use => some { s.goto i (.rereading use) with lock := none }
  | .rereading use => s.slots.map (s.withSlots i use)
  | .trying id => some ((s.take i id).getD (s.goto i (.waiting id)))
  | .waiting id => s.take i id
  | .calling id => some (s.goto i (.reading (.release id)))
  | .usingTool => some (s.goto i .idle)
  | .overReleased => none

def step (s : State ι R) : Action ι R → Option (State ι R)
  | .abandon r => some { s with abandoned := Function.update s.abandoned r true }
  | .request i kind =>
    if s.threads i = .idle then
      some (if cancelled run s i then s else s.goto i (.cleared kind))
    else none
  | .next i => advance limit s i
  | .timeOut i =>
    match s.threads i with
    | .waiting _ => some (if cancelled run s i then s.goto i .idle else s)
    | _ => none
  | .cancel i =>
    match s.threads i with
    | .waiting _ => some (s.goto i .idle)
    | _ => none

def AtStart (s : State ι R) : Prop :=
  s.slots = none ∧ s.lock = none ∧ s.semaphores = [] ∧ ∀ i, s.threads i = .idle

def modelCalls : Machine (State ι R) (Action ι R) where
  start := AtStart
  step := step run limit

end

/-! ## One semaphore -/

section

variable {ι R : Type*}

/-- A thread that is to give a slot back has it from the semaphore there is. -/
def Use.Known (s : State ι R) : Use → Prop
  | .acquire => True
  | .release id => s.slots = some 0 ∧ id = 0

/-- What a thread may take for granted where it is. -/
def Fits (s : State ι R) (i : ι) : Phase → Prop
  | .idle | .cleared _ | .usingTool => True
  | .reading use | .locking use => use.Known s
  | .locked use => s.lock = some i ∧ use.Known s
  | .making use => s.lock = some i ∧ s.slots = none ∧ use.Known s
  | .leaving use => s.lock = some i ∧ s.slots = some 0 ∧ use.Known s
  | .rereading use => s.slots = some 0 ∧ use.Known s
  | .trying id | .waiting id | .calling id => s.slots = some 0 ∧ id = 0
  | .overReleased => False

/-- The threads with a slot, each once, and the free slots make up the limit. -/
def Balanced (limit : ℕ) (s : State ι R) : Prop :=
  s.slots = none ∧ s.semaphores = [] ∨
    s.slots = some 0 ∧ ∃ (free : ℕ) (holders : List ι), s.semaphores = [⟨limit, free⟩] ∧ holders.Nodup ∧
      (∀ i, i ∈ holders ↔ (s.threads i).holds = true) ∧ holders.length + free = limit

structure Inv (limit : ℕ) (s : State ι R) : Prop where
  fits : ∀ i, Fits s i (s.threads i)
  balanced : Balanced limit s

/-- What is shared goes on for a thread that does not move. -/
theorem Fits.mono {s t : State ι R} {i : ι} {p : Phase} (h : Fits s i p)
    (hlock : s.lock = some i → t.lock = some i)
    (hslots : s.slots = some 0 → t.slots = some 0)
    (hnone : s.lock = some i → s.slots = none → t.slots = none) : Fits t i p := by
  have hknown : ∀ {use : Use}, use.Known s → use.Known t := by
    intro use huse
    cases use with
    | acquire => trivial
    | release id => exact ⟨hslots huse.1, huse.2⟩
  cases p with
  | idle | cleared | usingTool => trivial
  | reading | locking => exact hknown h
  | locked => exact ⟨hlock h.1, hknown h.2⟩
  | making => exact ⟨hlock h.1, hnone h.1 h.2.1, hknown h.2.2⟩
  | leaving => exact ⟨hlock h.1, hslots h.2.1, hknown h.2.2⟩
  | rereading => exact ⟨hslots h.1, hknown h.2⟩
  | trying | waiting | calling => exact ⟨hslots h.1, h.2⟩
  | overReleased => exact h

/-- No thread holds a slot before there is a semaphore. -/
theorem Fits.holds_of_none {s : State ι R} {i : ι} {p : Phase} (h : Fits s i p)
    (hs : s.slots = none) : p.holds = false := by
  have hne : s.slots ≠ some 0 := by simp [hs]
  have hknown : ∀ {use : Use}, use.Known s → use = .acquire := by
    intro use huse
    cases use with
    | acquire => rfl
    | release id => exact absurd huse.1 hne
  cases p with
  | idle | cleared | usingTool | trying | waiting | overReleased => rfl
  | calling id => exact absurd h.1 hne
  | reading use | locking use => rw [hknown h]; rfl
  | locked use | rereading use => rw [hknown h.2]; rfl
  | making use | leaving use => rw [hknown h.2.2]; rfl

/-! ## One step -/

section

variable [DecidableEq ι] {limit : ℕ} {s t : State ι R} {i : ι} {p : Phase}

/-- The thread that moves finds its place, and the others keep theirs. -/
theorem Inv.moves (h : Inv limit s) (hthreads : t.threads = Function.update s.threads i p)
    (hp : Fits t i p) (hothers : ∀ j, j ≠ i → Fits s j (s.threads j) → Fits t j (s.threads j))
    (hbalanced : Balanced limit t) : Inv limit t := by
  refine ⟨fun j => ?_, hbalanced⟩
  rw [hthreads]
  by_cases hj : j = i
  · subst hj
    rw [Function.update_self]
    exact hp
  · rw [Function.update_of_ne hj]
    exact hothers j hj (h.fits j)

/-- The slots are shared out as before where no thread takes one or gives one back. -/
theorem Balanced.moves (h : Balanced limit s)
    (hthreads : t.threads = Function.update s.threads i p) (hslots : t.slots = s.slots)
    (hsemaphores : t.semaphores = s.semaphores) (hholds : p.holds = (s.threads i).holds) :
    Balanced limit t := by
  have hsame : ∀ j, (t.threads j).holds = (s.threads j).holds := by
    intro j
    rw [hthreads]
    by_cases hj : j = i
    · subst hj
      rw [Function.update_self, hholds]
    · rw [Function.update_of_ne hj]
  unfold Balanced at h ⊢
  rw [hslots, hsemaphores]
  simpa only [hsame] using h

omit [DecidableEq ι] in
theorem Inv.slot_zero (h : Inv limit s) {id : ℕ} (hslots : s.slots = some id) : id = 0 := by
  rcases h.balanced with ⟨hnone, -⟩ | ⟨hsome, -⟩
  · rw [hslots] at hnone
    cases hnone
  · exact Option.some.inj (hslots.symm.trans hsome)

theorem Inv.goto (h : Inv limit s) (hp : Fits s i p) (hholds : p.holds = (s.threads i).holds) :
    Inv limit (s.goto i p) :=
  h.moves rfl (hp.mono id id fun _ hs => hs) (fun _ _ hj => hj.mono id id fun _ hs => hs)
    (h.balanced.moves rfl rfl rfl hholds)

/-- A thread begins a call that takes no slot. -/
theorem Inv.goOn (h : Inv limit s) (hp : Fits s i p) (hholds : p.holds = (s.threads i).holds) :
    Inv limit (s.goOn i p) :=
  h.moves rfl (hp.mono id id fun _ hs => hs) (fun _ _ hj => hj.mono id id fun _ hs => hs)
    (h.balanced.moves rfl rfl rfl hholds)

/-- Taking the lock. -/
theorem Inv.locks (h : Inv limit s) {use : Use} (hi : s.threads i = .locking use)
    (hlock : s.lock = none) :
    Inv limit { s.goto i (.locked use) with lock := some i } := by
  have hfits := h.fits i
  rw [hi] at hfits
  refine h.moves rfl ⟨rfl, ?_⟩ (fun j _ hj => hj.mono ?_ id fun _ hs => hs)
    (h.balanced.moves rfl rfl rfl (by rw [hi]; cases use <;> rfl))
  · cases use with
    | acquire => trivial
    | release id => exact hfits
  · intro hj
    rw [hlock] at hj
    cases hj

theorem Inv.unlocks (h : Inv limit s) {use : Use} (hi : s.threads i = .leaving use) :
    Inv limit { s.goto i (.rereading use) with lock := none } := by
  have hfits := h.fits i
  rw [hi] at hfits
  refine h.moves rfl ⟨hfits.2.1, ?_⟩ (fun j hne hj => hj.mono ?_ id fun _ hs => hs)
    (h.balanced.moves rfl rfl rfl (by rw [hi]; cases use <;> rfl))
  · cases use with
    | acquire => trivial
    | release id => exact hfits.2.2
  · intro hj
    rw [hfits.1] at hj
    exact absurd (Option.some.inj hj).symm hne

/-- The semaphore is made where there is none, with all its slots free. -/
theorem Inv.makes (h : Inv limit s) {use : Use} (hi : s.threads i = .making use) :
    Inv limit { s.goto i (.leaving use) with
      slots := some s.semaphores.length, semaphores := s.semaphores ++ [⟨limit, limit⟩] } := by
  have hfits := h.fits i
  rw [hi] at hfits
  obtain ⟨hlock, hnone, -⟩ := hfits
  have hacquire : use = .acquire := by
    have hholds := (h.fits i).holds_of_none hnone
    rw [hi] at hholds
    cases use with
    | acquire => rfl
    | release id => cases hholds
  subst hacquire
  have hnil : s.semaphores = [] := by
    rcases h.balanced with ⟨-, hnil⟩ | ⟨hsome, -⟩
    · exact hnil
    · rw [hnone] at hsome
      cases hsome
  refine h.moves rfl ⟨hlock, by rw [hnil]; rfl, trivial⟩ (fun j hne hj => hj.mono id ?_ ?_)
    (.inr ⟨by rw [hnil]; rfl, limit, [], by rw [hnil]; rfl, List.nodup_nil, fun j => ?_, ?_⟩)
  · intro hsome
    rw [hnone] at hsome
    cases hsome
  · intro hj
    rw [hlock] at hj
    exact absurd (Option.some.inj hj).symm hne
  · have hnotHolds : ((Function.update s.threads i (.leaving .acquire)) j).holds = false := by
      by_cases hj : j = i
      · subst hj
        rw [Function.update_self]
        rfl
      · rw [Function.update_of_ne hj]
        exact (h.fits j).holds_of_none hnone
    simp only [State.goto, hnotHolds, List.not_mem_nil, Bool.false_eq_true]
  · simp

/-- A slot is taken from the free ones. -/
theorem Inv.take (h : Inv limit s) {id : ℕ} (hp : s.slots = some 0 ∧ id = 0)
    (hi : (s.threads i).holds = false) (ht : s.take i id = some t) : Inv limit t := by
  obtain ⟨hslots, rfl⟩ := hp
  obtain ⟨hnone, -⟩ | ⟨-, free, holders, hsems, hnodup, hholders, hsum⟩ := h.balanced
  · rw [hslots] at hnone
    cases hnone
  unfold State.take at ht
  simp only [hsems, List.getElem?_cons_zero] at ht
  split at ht
  · cases ht
  · next hfree =>
    obtain rfl := Option.some.inj ht
    refine h.moves rfl ⟨hslots, rfl⟩ (fun _ _ hj => hj.mono id id fun _ hs => hs)
      (.inr ⟨hslots, free - 1, i :: holders, rfl, ?_, fun j => ?_, ?_⟩)
    · refine List.nodup_cons.2 ⟨?_, hnodup⟩
      rw [hholders, hi]
      exact Bool.noConfusion
    · simp only [State.goOn, State.goto, List.mem_cons]
      by_cases hj : j = i
      · subst hj
        simp [Phase.holds]
      · rw [Function.update_of_ne hj, hholders]
        simp [hj]
    · rw [List.length_cons]
      omega

/-- A slot that is given back was taken, so it is one below the limit. -/
theorem Inv.giveBack (h : Inv limit s) {id : ℕ} (hp : s.slots = some 0 ∧ id = 0)
    (hi : (s.threads i).holds = true) : Inv limit (s.giveBack i id) := by
  obtain ⟨hslots, rfl⟩ := hp
  obtain ⟨hnone, -⟩ | ⟨-, free, holders, hsems, hnodup, hholders, hsum⟩ := h.balanced
  · rw [hslots] at hnone
    cases hnone
  have hmem : i ∈ holders := (hholders i).2 hi
  have hlength := List.length_erase_of_mem hmem
  have hpos := List.length_pos_of_mem hmem
  unfold State.giveBack
  simp only [hsems, List.getElem?_cons_zero]
  rw [if_pos (by omega)]
  refine h.moves rfl trivial (fun _ _ hj => hj.mono id id fun _ hs => hs)
    (.inr ⟨hslots, free + 1, holders.erase i, rfl, hnodup.erase i, fun j => ?_, by omega⟩)
  simp only [State.goto]
  by_cases hj : j = i
  · subst hj
    rw [Function.update_self]
    simp [hnodup.not_mem_erase, Phase.holds]
  · rw [Function.update_of_ne hj, List.mem_erase_of_ne hj, hholders]

theorem Inv.withSlots (h : Inv limit s) {use : Use} (hslots : s.slots = some 0)
    (hknown : use.Known s) (hholds : (s.threads i).holds = decide (use ≠ .acquire)) :
    Inv limit (s.withSlots i use 0) := by
  cases use with
  | acquire => exact h.goto ⟨hslots, rfl⟩ hholds.symm
  | release id => exact h.giveBack ⟨hslots, rfl⟩ hholds

/-- What a thread does next keeps the invariant. -/
theorem Inv.advance (h : Inv limit s) (ht : advance limit s i = some t) : Inv limit t := by
  have hfits := h.fits i
  unfold Agents.advance at ht
  cases hi : s.threads i with
  | idle | overReleased =>
    rw [hi] at ht
    cases ht
  | cleared kind =>
    rw [hi] at ht
    cases kind with
    | tool =>
      obtain rfl := Option.some.inj ht
      exact h.goOn trivial (by rw [hi]; rfl)
    | model =>
      obtain rfl := Option.some.inj ht
      exact h.goto trivial (by rw [hi]; rfl)
  | reading use =>
    rw [hi] at ht hfits
    have hholds : (s.threads i).holds = decide (use ≠ .acquire) := by rw [hi]; cases use <;> rfl
    cases hslots : s.slots with
    | none =>
      simp only [hslots] at ht
      obtain rfl := Option.some.inj ht
      exact h.goto hfits (by rw [hi]; cases use <;> rfl)
    | some id =>
      simp only [hslots] at ht
      obtain rfl := Option.some.inj ht
      obtain rfl := h.slot_zero hslots
      exact h.withSlots hslots hfits hholds
  | locking use =>
    rw [hi] at ht
    dsimp only at ht
    split at ht
    · next hlock =>
      obtain rfl := Option.some.inj ht
      exact h.locks hi hlock
    · cases ht
  | locked use =>
    rw [hi] at ht hfits
    cases hslots : s.slots with
    | none =>
      simp only [hslots] at ht
      obtain rfl := Option.some.inj ht
      exact h.goto ⟨hfits.1, hslots, hfits.2⟩ (by rw [hi]; cases use <;> rfl)
    | some id =>
      simp only [hslots] at ht
      obtain rfl := Option.some.inj ht
      obtain rfl := h.slot_zero hslots
      exact h.goto ⟨hfits.1, hslots, hfits.2⟩ (by rw [hi]; cases use <;> rfl)
  | making use =>
    rw [hi] at ht
    obtain rfl := Option.some.inj ht
    exact h.makes hi
  | leaving use =>
    rw [hi] at ht
    obtain rfl := Option.some.inj ht
    exact h.unlocks hi
  | rereading use =>
    rw [hi] at ht hfits
    simp only [hfits.1, Option.map_some] at ht
    obtain rfl := Option.some.inj ht
    exact h.withSlots hfits.1 hfits.2 (by rw [hi]; cases use <;> rfl)
  | trying id =>
    rw [hi] at ht hfits
    dsimp only at ht
    obtain rfl := Option.some.inj ht
    cases htake : s.take i id with
    | none => exact h.goto hfits (by rw [hi]; rfl)
    | some u => exact h.take hfits (by rw [hi]; rfl) htake
  | waiting id =>
    rw [hi] at ht hfits
    exact h.take hfits (by rw [hi]; rfl) ht
  | calling id =>
    rw [hi] at ht hfits
    obtain rfl := Option.some.inj ht
    exact h.goto hfits (by rw [hi]; rfl)
  | usingTool =>
    rw [hi] at ht
    obtain rfl := Option.some.inj ht
    exact h.goto trivial (by rw [hi]; rfl)

variable [DecidableEq R] {run : ι → Option R}

theorem Inv.step {a : Action ι R} (h : Inv limit s) (ht : step run limit s a = some t) :
    Inv limit t := by
  cases a with
  | abandon r =>
    obtain rfl := Option.some.inj ht
    exact ⟨fun i => (h.fits i).mono id id fun _ hs => hs, h.balanced⟩
  | request i kind =>
    simp only [Agents.step] at ht
    split at ht
    · next hi =>
      obtain rfl := Option.some.inj ht
      split
      · exact h
      · exact h.goto trivial (by rw [hi]; rfl)
    · cases ht
  | next i => exact h.advance ht
  | timeOut i =>
    simp only [Agents.step] at ht
    split at ht
    · next id hi =>
      obtain rfl := Option.some.inj ht
      split
      · exact h.goto trivial (by rw [hi]; rfl)
      · exact h
    · cases ht
  | cancel i =>
    simp only [Agents.step] at ht
    split at ht
    · next id hi =>
      obtain rfl := Option.some.inj ht
      exact h.goto trivial (by rw [hi]; rfl)
    · cases ht

omit [DecidableEq ι] [DecidableEq R] in
theorem AtStart.inv (h : AtStart s) : Inv limit s := by
  obtain ⟨hslots, -, hnil, hidle⟩ := h
  refine ⟨fun i => ?_, .inl ⟨hslots, hnil⟩⟩
  rw [hidle i]
  trivial

/-! ## Every interleaving -/

/-- **The slots bound the model calls.** Whatever the threads do, from the first look at the slots
on: one semaphore at most is made; the threads in a model call are no more than its limit; no slot
is given back that was not taken; and the slots that are not free are those of threads in a call or
on their way to give theirs back. -/
theorem slots_bounded (hs : (modelCalls run limit).Reachable s) :
    s.semaphores.length ≤ 1 ∧
    (∀ calls : List ι, calls.Nodup → (∀ i ∈ calls, ∃ id, s.threads i = .calling id) →
      calls.length ≤ limit) ∧
    (∀ i, s.threads i ≠ .overReleased) ∧
    ∀ sem ∈ s.semaphores, sem.limit = limit ∧ ∃ holders : List ι, holders.Nodup ∧
      (∀ i, i ∈ holders ↔ (s.threads i).holds = true) ∧ holders.length + sem.free = limit := by
  have hinv : Inv limit s :=
    hs.invariant (I := Inv limit) (fun _ h => AtStart.inv h) fun _ _ _ h _ ht => Inv.step h ht
  have hover : ∀ i, s.threads i ≠ .overReleased := by
    intro i hi
    have hfits := hinv.fits i
    rw [hi] at hfits
    exact hfits
  rcases hinv.balanced with ⟨hslots, hnil⟩ | ⟨-, free, holders, hsems, hnodup, hholders, hsum⟩
  · refine ⟨by simp [hnil], fun calls _ hcalls => ?_, hover, by simp [hnil]⟩
    cases calls with
    | nil => exact Nat.zero_le limit
    | cons i calls =>
      obtain ⟨id, hi⟩ := hcalls i List.mem_cons_self
      have hnone := (hinv.fits i).holds_of_none hslots
      rw [hi] at hnone
      cases hnone
  · refine ⟨by simp [hsems], fun calls hcallsNodup hcalls => ?_, hover, ?_⟩
    · have hsubset : calls ⊆ holders := by
        intro i hi
        obtain ⟨id, hcalling⟩ := hcalls i hi
        rw [hholders, hcalling]
        rfl
      have hlength := (hcallsNodup.subperm hsubset).length_le
      omega
    · intro sem hsem
      rw [hsems] at hsem
      obtain rfl := List.mem_singleton.1 hsem
      exact ⟨rfl, holders, hnodup, hholders, hsum⟩

end

/-! ## Two threads and one slot -/

def fresh : State Bool Unit := ⟨none, none, [], fun _ => false, fun _ => .idle, fun _ => 0⟩

theorem fresh_start : AtStart fresh := ⟨rfl, rfl, rfl, fun _ => rfl⟩

/-- Both threads find no slots; one makes them and begins its call, the other waits. -/
def twoCallers : List (Action Bool Unit) :=
  [.request false .model, .request true .model] ++
    [false, true, false, true, false, false, false, false, false, true, true, true, true].map .next ++
    [.next false, .next true]

def ofOneRun (_ : Bool) : Option Unit := some ()

theorem exists_twoCallers : ∃ s : State Bool Unit, (modelCalls ofOneRun 1).Reachable s ∧
    s.threads false = .calling 0 ∧ s.threads true = .waiting 0 ∧ s.semaphores = [⟨1, 0⟩] := by
  obtain ⟨s, hs, hp⟩ := (modelCalls ofOneRun 1).exists_reachable_run fresh_start twoCallers
    (fun s => s.threads false = .calling 0 ∧ s.threads true = .waiting 0 ∧
      s.semaphores = [⟨1, 0⟩]) (by decide)
  exact ⟨s, hs, of_decide_eq_true hp⟩

theorem twoCallers_bounded : ∃ s : State Bool Unit, (modelCalls ofOneRun 1).Reachable s ∧
    s.threads false = .calling 0 ∧ s.semaphores.length ≤ 1 ∧
    (∀ calls : List Bool, calls.Nodup → (∀ i ∈ calls, ∃ id, s.threads i = .calling id) →
      calls.length ≤ 1) ∧
    ∀ i, s.threads i ≠ .overReleased := by
  obtain ⟨s, hs, hcalling, -, -⟩ := exists_twoCallers
  obtain ⟨hone, hcalls, hover, -⟩ := slots_bounded hs
  exact ⟨s, hs, hcalling, hone, hcalls, hover⟩

/-! ## An abandoned run -/

/-- The call that a thread is past its check for. -/
def owed (p : Phase) : ℕ := if p.pending then 1 else 0

theorem owed_pending {p : Phase} (h : p.pending = true) : owed p = 1 := if_pos h

/-- The thread has moved, and has not begun more than it was past its check for. -/
def Moved [DecidableEq ι] (s : State ι R) (i : ι) (t : State ι R) : Prop :=
  ∃ p n, t.threads = Function.update s.threads i p ∧ t.begun = Function.update s.begun i n ∧
    s.begun i ≤ n ∧ n + owed p ≤ s.begun i + owed (s.threads i) ∧ t.abandoned = s.abandoned

section

variable [DecidableEq ι] {limit : ℕ} {s t : State ι R} {i : ι} {p : Phase}

theorem moved_of (hthreads : t.threads = Function.update s.threads i p) (hbegun : t.begun = s.begun)
    (habandoned : t.abandoned = s.abandoned) (h : owed p ≤ owed (s.threads i)) : Moved s i t :=
  ⟨p, s.begun i, hthreads, by rw [hbegun, Function.update_eq_self], Nat.le_refl _,
    by omega, habandoned⟩

theorem moved_goto (h : owed p ≤ owed (s.threads i)) : Moved s i (s.goto i p) :=
  moved_of rfl rfl rfl h

theorem moved_goOn (h : (s.threads i).pending = true) (hp : owed p = 0) :
    Moved s i (s.goOn i p) := by
  have howed := owed_pending h
  exact ⟨p, s.begun i + 1, rfl, rfl, Nat.le_succ _, by omega, rfl⟩

theorem moved_take {id : ℕ} (h : (s.threads i).pending = true) (ht : s.take i id = some t) :
    Moved s i t := by
  unfold State.take at ht
  split at ht
  · split at ht
    · cases ht
    · obtain rfl := Option.some.inj ht
      exact ⟨.calling id, s.begun i + 1, rfl, rfl, Nat.le_succ _,
        by rw [owed_pending h]; exact Nat.le_refl _, rfl⟩
  · cases ht

theorem moved_withSlots {use : Use} {id : ℕ}
    (h : use = .acquire → (s.threads i).pending = true) :
    Moved s i (s.withSlots i use id) := by
  cases use with
  | acquire => exact moved_goto (by rw [owed_pending (h rfl)]; exact Nat.le_refl _)
  | release held =>
    unfold State.withSlots State.giveBack
    dsimp only
    split
    · split
      · exact moved_of rfl rfl rfl (p := .idle) (Nat.zero_le _)
      · exact moved_goto (Nat.zero_le _)
    · exact moved_goto (Nat.zero_le _)

/-- What a thread does next begins no call but one that it was past its check for. -/
theorem moved_advance (ht : advance limit s i = some t) : Moved s i t := by
  unfold Agents.advance at ht
  cases hi : s.threads i with
  | idle | overReleased =>
    rw [hi] at ht
    cases ht
  | cleared kind =>
    rw [hi] at ht
    cases kind with
    | tool =>
      obtain rfl := Option.some.inj ht
      exact moved_goOn (by rw [hi]; rfl) rfl
    | model =>
      obtain rfl := Option.some.inj ht
      exact moved_goto (by rw [hi]; decide)
  | reading use =>
    rw [hi] at ht
    cases hslots : s.slots with
    | none =>
      simp only [hslots] at ht
      obtain rfl := Option.some.inj ht
      exact moved_goto (by rw [hi]; cases use <;> exact Nat.le_refl _)
    | some id =>
      simp only [hslots] at ht
      obtain rfl := Option.some.inj ht
      exact moved_withSlots fun huse => by rw [hi, huse]; rfl
  | locking use =>
    rw [hi] at ht
    dsimp only at ht
    split at ht
    · obtain rfl := Option.some.inj ht
      exact moved_of rfl rfl rfl (p := .locked use) (by rw [hi]; cases use <;> exact Nat.le_refl _)
    · cases ht
  | locked use =>
    rw [hi] at ht
    cases hslots : s.slots with
    | none =>
      simp only [hslots] at ht
      obtain rfl := Option.some.inj ht
      exact moved_goto (by rw [hi]; cases use <;> exact Nat.le_refl _)
    | some id =>
      simp only [hslots] at ht
      obtain rfl := Option.some.inj ht
      exact moved_goto (by rw [hi]; cases use <;> exact Nat.le_refl _)
  | making use =>
    rw [hi] at ht
    obtain rfl := Option.some.inj ht
    exact moved_of rfl rfl rfl (p := .leaving use) (by rw [hi]; cases use <;> exact Nat.le_refl _)
  | leaving use =>
    rw [hi] at ht
    obtain rfl := Option.some.inj ht
    exact moved_of rfl rfl rfl (p := .rereading use)
      (by rw [hi]; cases use <;> exact Nat.le_refl _)
  | rereading use =>
    rw [hi] at ht
    obtain ⟨id, -, rfl⟩ := Option.map_eq_some_iff.1 ht
    exact moved_withSlots fun huse => by rw [hi, huse]; rfl
  | trying id =>
    rw [hi] at ht
    obtain rfl := Option.some.inj ht
    cases htake : s.take i id with
    | none => exact moved_goto (by rw [hi]; exact Nat.le_refl _)
    | some u => exact moved_take (by rw [hi]; rfl) htake
  | waiting id =>
    rw [hi] at ht
    exact moved_take (by rw [hi]; rfl) ht
  | calling id | usingTool =>
    rw [hi] at ht
    obtain rfl := Option.some.inj ht
    exact moved_goto (by rw [hi]; exact Nat.le_refl _)

variable [DecidableEq R] {run : ι → Option R}

/-- A thread of an abandoned run begins no call but one that it is past its check for, whatever a
step does. -/
theorem owed_step {a : Action ι R} (hcancelled : cancelled run s i = true)
    (ht : step run limit s a = some t) : cancelled run t i = true ∧
      s.begun i ≤ t.begun i ∧
        t.begun i + owed (t.threads i) ≤ s.begun i + owed (s.threads i) := by
  have hmoved : ∀ {j : ι} {t : State ι R}, Moved s j t → cancelled run t i = true ∧
      s.begun i ≤ t.begun i ∧
        t.begun i + owed (t.threads i) ≤ s.begun i + owed (s.threads i) := by
    intro j t hmoved
    obtain ⟨p, n, hthreads, hbegun, hmore, hle, habandoned⟩ := hmoved
    refine ⟨by rwa [cancelled, habandoned], ?_⟩
    rw [hthreads, hbegun]
    by_cases hj : i = j
    · subst hj
      rw [Function.update_self, Function.update_self]
      exact ⟨hmore, hle⟩
    · rw [Function.update_of_ne hj, Function.update_of_ne hj]
      exact ⟨Nat.le_refl _, Nat.le_refl _⟩
  cases a with
  | abandon r =>
    obtain rfl := Option.some.inj ht
    refine ⟨?_, Nat.le_refl _, Nat.le_refl _⟩
    unfold cancelled at hcancelled ⊢
    cases hrun : run i with
    | none =>
      rw [hrun] at hcancelled
      cases hcancelled
    | some r' =>
      rw [hrun, Option.any_some] at hcancelled
      rw [Option.any_some]
      dsimp only
      by_cases hr : r' = r
      · subst hr
        exact Function.update_self ..
      · rwa [Function.update_of_ne hr]
  | request j kind =>
    simp only [Agents.step] at ht
    split at ht
    · next hj =>
      obtain rfl := Option.some.inj ht
      split
      · exact ⟨hcancelled, Nat.le_refl _, Nat.le_refl _⟩
      · next hgoesOn =>
        have hne : i ≠ j := by
          rintro rfl
          exact hgoesOn hcancelled
        refine ⟨hcancelled, ?_⟩
        simp [State.goto, Function.update_of_ne hne]
    · cases ht
  | next j => exact hmoved (moved_advance ht)
  | timeOut j =>
    simp only [Agents.step] at ht
    split at ht
    · obtain rfl := Option.some.inj ht
      split
      · exact hmoved (moved_goto (i := j) (p := .idle) (Nat.zero_le _))
      · exact ⟨hcancelled, Nat.le_refl _, Nat.le_refl _⟩
    · cases ht
  | cancel j =>
    simp only [Agents.step] at ht
    split at ht
    · obtain rfl := Option.some.inj ht
      exact hmoved (moved_goto (i := j) (p := .idle) (Nat.zero_le _))
    · cases ht

/-- **A thread of an abandoned run begins at most one more call, and none where it was not past its
check.** What it is past its check for it may still begin, and where it waits for a slot it stops
when the wait runs out. -/
theorem abandoned_begins_one (hcancelled : cancelled run s i = true)
    (hst : (modelCalls run limit).Later Machine.anyStep s t) :
    t.begun i ≤ s.begun i + 1 ∧
    ((s.threads i).pending = false → t.begun i = s.begun i ∧ (t.threads i).pending = false) ∧
    ∀ u, step run limit t (.timeOut i) = some u → u.threads i = .idle := by
  obtain ⟨hcancelled', hmore, hle⟩ := hst.relate
    (R := fun s t => cancelled run s i = true → cancelled run t i = true ∧
      s.begun i ≤ t.begun i ∧ t.begun i + owed (t.threads i) ≤ s.begun i + owed (s.threads i))
    (fun h => ⟨h, Nat.le_refl _, Nat.le_refl _⟩)
    (fun t a u _ ih _ hu h => by
      obtain ⟨ht, hmore, hle⟩ := ih h
      obtain ⟨hu, hmore', hle'⟩ := owed_step ht hu
      exact ⟨hu, Nat.le_trans hmore hmore', Nat.le_trans hle' hle⟩) hcancelled
  refine ⟨?_, fun hpending => ?_, fun u hu => ?_⟩
  · have hone : owed (s.threads i) ≤ 1 := by unfold owed; split <;> omega
    omega
  · have hzero : owed (s.threads i) = 0 := by simp [owed, hpending]
    have hzero' : owed (t.threads i) = 0 := by omega
    refine ⟨by omega, ?_⟩
    by_contra hpending'
    rw [owed_pending (by simpa using hpending')] at hzero'
    cases hzero'
  · simp only [step] at hu
    split at hu
    · rw [if_pos hcancelled'] at hu
      obtain rfl := Option.some.inj hu
      exact Function.update_self ..
    · cases hu

end

end

/-- The run is abandoned while its second thread waits. -/
def abandonedWait : State Bool Unit :=
  { fresh with
    slots := some 0
    semaphores := [⟨1, 0⟩]
    abandoned := fun _ => true
    threads := fun i => if i then .waiting 0 else .calling 0 }

/-- The first thread's call ends and the second begins its own. -/
theorem abandonedWait_begins_one : ∃ t : State Bool Unit,
    (modelCalls ofOneRun 1).Later Machine.anyStep abandonedWait t ∧
    t.threads true = .calling 0 ∧ t.begun true ≤ abandonedWait.begun true + 1 := by
  obtain ⟨t, ht, hp⟩ := (modelCalls ofOneRun 1).exists_later_run (s := abandonedWait)
    [.next false, .next false, .next true] (fun t => t.threads true = .calling 0) (by decide)
  exact ⟨t, ht, of_decide_eq_true hp, (abandoned_begins_one (i := true) rfl ht).1⟩

end ResidentCrm.Agents
