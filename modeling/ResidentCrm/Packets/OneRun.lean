import ResidentCrm.Lib.Periods
import ResidentCrm.Packets.Claims
import Mathlib.Algebra.Ring.Int.Defs
import Mathlib.Data.Set.Basic

/-!
# One winning call between two abandonments

`create_json` is atomic; the takeover is a load, a decision and a plain save, and it is decided by
comparing the `claimed_at` of one file with the `abandoned_at` of another. The claim does what it is
for (`Tenure`) in the runs that are `InTurn`: a takeover still finds the claim it loaded, and a
winner read its clock after the stamp recorded when it wins (`Desk.one_win_each`). Two calls that
have loaded the same dead claim both win otherwise (`Desk.two_takeovers`).
-/

namespace ResidentCrm

namespace Packets

open Storage

namespace Desk

variable {ι T : Type*}

theorem abandonedAt_writes {s : Desk ι T} {f : File} {v : Status} {x : T}
    (hx : x ∈ Desk.abandonedAt { s with files := s.files.save ⟨v, none⟩ f }) :
    x ∈ s.abandonedAt := by
  cases f with
  | status => exact hx
  | casebook =>
    simp only [abandonedAt, Files.save_casebook_casebook] at hx
    split at hx <;> cases hx

/-- `t` may follow `s`: claims stay, and a stamp is new only with a new abandonment. -/
structure Follows (s t : Desk ι T) : Prop where
  claim : s.claim ≠ none → t.claim ≠ none
  period : s.abandonments ≤ t.abandonments
  stamp : t.abandonments = s.abandonments → ∀ x ∈ t.abandonedAt, x ∈ s.abandonedAt

theorem Follows.of_files {s t : Desk ι T} (hc : t.claim = s.claim ∨ t.claim ≠ none)
    (hf : t.files = s.files) (ha : t.abandonments = s.abandonments) : Follows s t where
  claim h := by
    rcases hc with hc | hc
    · exact hc ▸ h
    · exact hc
  period := ha.symm.le
  stamp _ x hx := by
    simp only [abandonedAt, hf] at hx
    exact hx

variable [LinearOrder T]

/-- `now` is after the abandonment that is recorded, if one is. -/
def After (s : Desk ι T) (now : T) : Prop := ∀ stamp ∈ s.abandonedAt, stamp < now

/-! ## The invariant -/

/-- A claim that was taken before the last abandonment, or after its stamp. -/
def Dated (s : Desk ι T) (r : ClaimRecord T) : Prop :=
  r.period ≤ s.abandonments ∧ (r.period = s.abandonments → s.After r.claimedAt)

/-- What a call knows at each of its steps. -/
def Sound (s : Desk ι T) : ClaimPhase T → Prop
  | .loading _ => s.claim ≠ none
  | .readingAbandonment c => ∃ r, c.existing = some r ∧ s.Dated r
  | .takingOver c => ∃ r, c.existing = some r ∧ r.period < s.abandonments
  | .reclaimingStale _ => False
  | _ => True

structure Inv (s : Desk ι T) : Prop where
  unheld : s.claim = none → s.wins = []
  dated : ∀ r ∈ s.claim, s.Dated r
  latest : ∀ r ∈ s.claim, ∀ p ∈ s.wins, p ≤ r.period
  sound : ∀ call, s.Sound (s.calls call)

theorem Follows.dated {s t : Desk ι T} (h : Follows s t) {r : ClaimRecord T} (hr : s.Dated r) :
    t.Dated r := by
  refine ⟨hr.1.trans h.period, fun he stamp hst => ?_⟩
  have hsame : t.abandonments = s.abandonments :=
    le_antisymm (he ▸ hr.1) h.period
  exact hr.2 (he.trans hsame) stamp (h.stamp hsame stamp hst)

theorem Follows.sound {s t : Desk ι T} (h : Follows s t) {p : ClaimPhase T} (hp : s.Sound p) :
    t.Sound p := by
  cases p with
  | loading => exact h.claim hp
  | readingAbandonment c =>
    obtain ⟨r, hr, hd⟩ := hp
    exact ⟨r, hr, h.dated hd⟩
  | takingOver c =>
    obtain ⟨r, hr, hlt⟩ := hp
    exact ⟨r, hr, lt_of_lt_of_le hlt h.period⟩
  | reclaimingStale => exact hp
  | idle | creating | checkingFinished | answered => trivial

/-- What a takeover in turn replaces was taken before the last abandonment, and nobody has won
since. -/
theorem Inv.unwon {s : Desk ι T} (hI : s.Inv) {call : ι} {c : Held T}
    (hp : s.calls call = .takingOver c) (hc : s.claim = c.existing) :
    ∀ p ∈ s.wins, p < s.abandonments := by
  have hs := hI.sound call
  rw [hp] at hs
  obtain ⟨r, hr, hlt⟩ := hs
  exact fun p hp => lt_of_le_of_lt (hI.latest r (hc.trans hr) p hp) hlt

theorem inv_unclaimed {s : Desk ι T} (h : Unclaimed s) : s.Inv where
  unheld _ := h.2.2.2.2
  dated r hr := by simp [h.1] at hr
  latest r hr := by simp [h.1] at hr
  sound call := by
    rw [h.2.1 call]
    trivial

/-- A call that reads that the holder was abandoned holds a claim from before the abandonment. -/
theorem sound_afterAbandonment [Zero T] {s : Desk ι T} {c : Held T}
    (hc : s.Sound (.readingAbandonment c)) {abandoned : Option T}
    (hread : ∀ x ∈ abandoned, x ∈ s.abandonedAt) : s.Sound (afterAbandonment c abandoned) := by
  obtain ⟨r, hr, hle, hafter⟩ := hc
  unfold afterAbandonment
  split
  · next h =>
    obtain ⟨stamp, hst, hcl⟩ := (Option.any_eq_true _ _).1 h
    refine ⟨r, hr, lt_of_le_of_ne hle fun he => ?_⟩
    have hclaimed : c.claimedAt = r.claimedAt := by simp [Held.claimedAt, hr]
    have hcl' : r.claimedAt ≤ stamp := hclaimed ▸ of_decide_eq_true hcl
    exact absurd (hafter he stamp (hread stamp hst)) (not_lt.2 hcl')
  · trivial

theorem sound_setCall [DecidableEq ι] {s t : Desk ι T}
    (h : ∀ call, s.Sound (s.calls call)) (ht : Follows s t) {call : ι} {p : ClaimPhase T}
    (hp : t.Sound p) (hcalls : t.calls = Function.update s.calls call p) :
    ∀ other, t.Sound (t.calls other) := by
  intro other
  rw [hcalls]
  by_cases ho : other = call
  · subst ho
    rwa [Function.update_self]
  · rw [Function.update_of_ne ho]
    exact ht.sound (h other)

theorem Inv.setCall [DecidableEq ι] {s : Desk ι T} (hI : s.Inv) (call : ι)
    {p : ClaimPhase T} (hp : s.Sound p) : (s.setCall call p).Inv := by
  have hf : Follows s (s.setCall call p) := .of_files (.inl rfl) rfl rfl
  exact {
    unheld := hI.unheld
    dated := fun r hr => hf.dated (hI.dated r hr)
    latest := hI.latest
    sound := sound_setCall hI.sound hf (hf.sound hp) rfl }

theorem Inv.take [DecidableEq ι] {s : Desk ι T} (hI : s.Inv) (call : ι) {now : T} {o : Outcome}
    (hnow : s.After now) (hlt : ∀ p ∈ s.wins, p < s.abandonments) : (s.take call now o).Inv := by
  have hf : Follows s (s.take call now o) := .of_files (.inr (by simp [Desk.take])) rfl rfl
  refine {
    unheld := fun h => by simp [Desk.take] at h
    dated := ?_
    latest := ?_
    sound := sound_setCall hI.sound hf (p := .answered o) trivial rfl }
  · intro r hr
    obtain rfl : _ = r := Option.some.inj hr
    exact ⟨le_rfl, fun _ => hnow⟩
  · intro r hr p hp
    obtain rfl : _ = r := Option.some.inj hr
    rcases List.mem_cons.1 hp with rfl | hp
    · exact le_rfl
    · exact (hlt p hp).le

variable [Sub T] [Zero T] {ttl : T}

/-- A claim is saved in turn: the winner's clock read is after the stamp recorded, and a takeover
replaces the claim the call loaded. A claim found by a call has not reached its time to live. -/
def InTurn (ttl : T) (s : Desk ι T) : ClaimAction ι T → Prop
  | .creates call => ∀ now, s.calls call = .creating now → s.claim = none → s.After now
  | .takesOver call =>
    ∀ c, s.calls call = .takingOver c → s.claim = c.existing ∧ s.After c.now
  | .checksFinished call _ =>
    ∀ c, s.calls call = .checkingFinished c → ¬ ttl < c.now - c.claimedAt
  | _ => True

def turnTest (ttl : T) (s : Desk ι T) : ClaimAction ι T → Bool
  | .creates call =>
    match s.calls call with
    | .creating now => s.abandonedAt.all (· < now)
    | _ => true
  | .takesOver call =>
    match s.calls call with
    | .takingOver c => decide (s.claim = c.existing) && s.abandonedAt.all (· < c.now)
    | _ => true
  | .checksFinished call _ =>
    match s.calls call with
    | .checkingFinished c => decide (¬ ttl < c.now - c.claimedAt)
    | _ => true
  | _ => true

theorem inTurn_of_turnTest (s : Desk ι T) (a : ClaimAction ι T) (h : s.turnTest ttl a = true) :
    s.InTurn ttl a := by
  have hafter : ∀ {now : T}, s.abandonedAt.all (· < now) = true → s.After now :=
    fun h stamp hst => of_decide_eq_true ((Option.all_eq_true _ _).1 h stamp hst)
  cases a with
  | creates call =>
    intro now hp _
    simp only [turnTest, hp] at h
    exact hafter h
  | takesOver call =>
    intro c hp
    simp only [turnTest, hp, Bool.and_eq_true] at h
    exact ⟨of_decide_eq_true h.1, hafter h.2⟩
  | checksFinished call ok =>
    intro c hp
    simp only [turnTest, hp] at h
    exact of_decide_eq_true h
  | starts | loads | readsAbandonment | reclaims | abandons | writes => trivial

/-! ## What a step does -/

variable [DecidableEq ι]

inductive Steps (ttl : T) (s : Desk ι T) : ClaimAction ι T → Desk ι T → Prop
  | starts (call : ι) (now : T) :
      Steps ttl s (.starts call now) (s.setCall call (.creating now))
  | wins {call : ι} {now : T} (hp : s.calls call = .creating now) (hc : s.claim = none) :
      Steps ttl s (.creates call) (s.take call now .won)
  | loses {call : ι} {now : T} (hc : s.claim ≠ none) :
      Steps ttl s (.creates call) (s.setCall call (.loading now))
  | loads {call : ι} {now : T} (hp : s.calls call = .loading now) :
      Steps ttl s (.loads call) (s.setCall call (.readingAbandonment ⟨now, s.claim⟩))
  | readsAbandonment {call : ι} {c : Held T} {ok : Bool}
      (hp : s.calls call = .readingAbandonment c) :
      Steps ttl s (.readsAbandonment call ok)
        (s.setCall call (afterAbandonment c (if ok then s.abandonedAt else none)))
  | takesOver {call : ι} {c : Held T} (hp : s.calls call = .takingOver c) :
      Steps ttl s (.takesOver call) (s.take call c.now .reclaimed)
  | checksFinished {call : ι} {c : Held T} {ok : Bool}
      (hp : s.calls call = .checkingFinished c) :
      Steps ttl s (.checksFinished call ok)
        (s.setCall call (afterFinished ttl c (ok && s.isFinished)))
  | reclaims {call : ι} {c : Held T} (hp : s.calls call = .reclaimingStale c) :
      Steps ttl s (.reclaims call) (s.take call c.now .reclaimed)
  | abandons (stamp : T) :
      Steps ttl s (.abandons stamp)
        { s with
          files := s.files.save ⟨.failedShutdown, some stamp⟩ .casebook
          abandonments := s.abandonments + 1 }
  | writes (f : File) (v : Status) :
      Steps ttl s (.writes f v) { s with files := s.files.save ⟨v, none⟩ f }

theorem steps_of_step {s t : Desk ι T} {a : ClaimAction ι T} (h : s.step ttl a = some t) :
    s.Steps ttl a t := by
  cases a with
  | abandons stamp =>
    cases h
    exact .abandons stamp
  | writes f v =>
    cases h
    exact .writes f v
  | starts call now =>
    simp only [step] at h
    split at h <;> cases h
    exact .starts call now
  | creates call =>
    simp only [step] at h
    split at h
    · next now hp =>
      split at h <;> cases h
      · next hc => exact .wins hp hc
      · next hc => exact .loses hc
    · cases h
  | loads call =>
    simp only [step] at h
    split at h <;> cases h
    next hp => exact .loads hp
  | readsAbandonment call ok =>
    simp only [step] at h
    split at h <;> cases h
    next hp => exact .readsAbandonment hp
  | takesOver call =>
    simp only [step] at h
    split at h <;> cases h
    next hp => exact .takesOver hp
  | checksFinished call ok =>
    simp only [step] at h
    split at h <;> cases h
    next hp => exact .checksFinished hp
  | reclaims call =>
    simp only [step] at h
    split at h <;> cases h
    next hp => exact .reclaims hp

theorem Inv.steps {s t : Desk ι T} {a : ClaimAction ι T} (hI : s.Inv) (ha : s.InTurn ttl a)
    (h : s.Steps ttl a t) :
    t.Inv ∧ (Tenure.mk s.abandonments s.wins).Moves ⟨t.abandonments, t.wins⟩ := by
  cases h with
  | starts call now => exact ⟨hI.setCall call trivial, .rests⟩
  | @wins call now hp hc =>
    have hnone : ∀ p ∈ s.wins, p < s.abandonments := by simp [hI.unheld hc]
    exact ⟨hI.take call (ha now hp hc) hnone, .taken hnone⟩
  | @loses call now hc => exact ⟨hI.setCall call (p := .loading now) hc, .rests⟩
  | @loads call now hp =>
    have hs := hI.sound call
    rw [hp] at hs
    obtain ⟨r, hr⟩ := Option.ne_none_iff_exists'.1 hs
    refine ⟨hI.setCall call (p := .readingAbandonment ⟨now, s.claim⟩) ⟨r, hr, ?_⟩, .rests⟩
    exact hI.dated r hr
  | @readsAbandonment call c ok hp =>
    have hs := hI.sound call
    rw [hp] at hs
    refine ⟨hI.setCall call (sound_afterAbandonment hs fun x hx => ?_), .rests⟩
    -- A store that raises answers nothing.
    cases ok with
    | true => exact hx
    | false => cases hx
  | @takesOver call c hp =>
    obtain ⟨hc, hnow⟩ := ha c hp
    have hlt := hI.unwon hp hc
    exact ⟨hI.take call hnow hlt, .taken hlt⟩
  | @checksFinished call c ok hp =>
    refine ⟨hI.setCall call ?_, .rests⟩
    -- The claim has not reached its time to live.
    unfold afterFinished
    split
    · trivial
    · rw [if_neg (ha c hp)]
      trivial
  | @reclaims call c hp =>
    have hs := hI.sound call
    rw [hp] at hs
    exact hs.elim
  | abandons stamp =>
    have hf : Follows s { s with
        files := s.files.save ⟨.failedShutdown, some stamp⟩ .casebook
        abandonments := s.abandonments + 1 } :=
      ⟨id, Nat.le_succ _, fun he => absurd he (Nat.succ_ne_self _)⟩
    exact ⟨⟨hI.unheld, fun r hr => hf.dated (hI.dated r hr), hI.latest,
      fun call => hf.sound (hI.sound call)⟩, .abandoned⟩
  | writes f v =>
    have hf : Follows s { s with files := s.files.save ⟨v, none⟩ f } :=
      ⟨id, le_rfl, fun _ _ hx => abandonedAt_writes hx⟩
    exact ⟨⟨hI.unheld, fun r hr => hf.dated (hI.dated r hr), hI.latest,
      fun call => hf.sound (hI.sound call)⟩, .rests⟩

/-- In turn, the calls do with the claim what it is for. -/
theorem simulates : (machine ι ttl).Simulates (InTurn ttl) Inv Tenure.Moves (· = ⟨0, []⟩)
    fun s => ⟨s.abandonments, s.wins⟩ where
  start s hs := ⟨inv_unclaimed hs, by rw [hs.2.2.2.1, hs.2.2.2.2]⟩
  inv _ _ _ hI ha ht := (hI.steps ha (steps_of_step ht)).1
  step _ _ _ hI ha ht := (hI.steps ha (steps_of_step ht)).2

theorem reach_inv {s : Desk ι T} (hs : (machine ι ttl).Reach (InTurn ttl) s) :
    s.Inv ∧ Tenure.OneEach ⟨s.abandonments, s.wins⟩ := by
  refine simulates.reach (J := Tenure.OneEach) ?_ (fun _ _ h hm => h.moves hm) hs
  rintro x rfl
  exact ⟨List.nodup_nil, fun p hp => by cases hp⟩

/-- **One call wins between two abandonments, and a claim taken after the last one stays.** -/
theorem one_win_each {s : Desk ι T} (hs : (machine ι ttl).Reach (InTurn ttl) s) :
    s.wins.Nodup ∧ ∀ a t, s.InTurn ttl a → s.step ttl a = some t →
      ∀ r ∈ s.claim, r.period = s.abandonments → t.claim = some r := by
  obtain ⟨hI, hone⟩ := reach_inv hs
  refine ⟨hone.1, fun a t ha ht r hr hp => ?_⟩
  cases steps_of_step ht with
  | starts | loses | loads | readsAbandonment | checksFinished | abandons | writes => exact hr
  | wins _ hc => simp [hc] at hr
  | @takesOver call c hcall =>
    have hs := hI.sound call
    rw [hcall] at hs
    obtain ⟨r', hr', hlt⟩ := hs
    obtain rfl : r = r' := Option.some.inj (hr.symm.trans ((ha c hcall).1.trans hr'))
    exact absurd hp hlt.ne
  | @reclaims call c hcall =>
    have hs := hI.sound call
    rw [hcall] at hs
    exact hs.elim

def unclaimed : Desk ℕ ℤ := ⟨none, ⟨none, none⟩, fun _ => .idle, 0, []⟩

theorem unclaimed_start : Unclaimed unclaimed := ⟨rfl, fun _ => rfl, rfl, rfl, rfl⟩

/-- What call `i` does from reading the clock to reading when the run was abandoned. -/
def readsUp (i : ℕ) (now : ℤ) : List (ClaimAction ℕ ℤ) :=
  [.starts i now, .creates i, .loads i, .readsAbandonment i true]

/-- A run is abandoned, the redelivery takes the claim over, its duplicate does not. -/
theorem one_win_each_redelivered : ∃ s : Desk ℕ ℤ, (machine ℕ 3600).Reach (InTurn 3600) s ∧
    s.wins = [1, 0] ∧ s.wins.Nodup ∧ ∀ a t, s.InTurn 3600 a → s.step 3600 a = some t →
      ∀ r ∈ s.claim, r.period = s.abandonments → t.claim = some r := by
  obtain ⟨s, hs, hp⟩ := (machine ℕ (3600 : ℤ)).exists_reach_runWhere
    (C := InTurn 3600) (c := turnTest 3600) inTurn_of_turnTest unclaimed_start
    ([.starts 0 1, .creates 0, .abandons 2] ++ readsUp 1 3 ++ [.takesOver 1] ++
      readsUp 2 4 ++ [.checksFinished 2 true])
    (fun s => decide (s.wins = [1, 0])) (by decide)
  exact ⟨s, hs, of_decide_eq_true hp, one_win_each hs⟩

/-- Two redeliveries load the abandoned run's claim before either saves its own. -/
theorem two_takeovers : ∃ s : Desk ℕ ℤ, (machine ℕ 3600).Reachable s ∧
    s.wins = [1, 1, 0] ∧ ¬ s.wins.Nodup := by
  obtain ⟨s, hs, hp⟩ := (machine ℕ (3600 : ℤ)).exists_reachable_run unclaimed_start
    ([.starts 0 1, .creates 0, .abandons 2] ++ readsUp 1 3 ++ readsUp 2 4 ++
      [.takesOver 1, .takesOver 2])
    (fun s => decide (s.wins = [1, 1, 0])) (by decide)
  have hw : s.wins = [1, 1, 0] := of_decide_eq_true hp
  exact ⟨s, hs, hw, by rw [hw]; decide⟩

end Desk

end Packets

end ResidentCrm
