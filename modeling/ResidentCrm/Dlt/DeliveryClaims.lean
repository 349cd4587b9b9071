import ResidentCrm.Dlt.GroupCutover
import ResidentCrm.Storage.CreateJson

/-!
# The claim of a dead-lettered record

`_claim` and `holder_of` of `dlt/claims.py`, and the two lanes of `api/dlt_routes.py` that ask them,
for any number of deliveries of one record over the local storage: the claim file is the
`Storage.Local.Directory` of its calls, so each call of the file system is a step of its own. No
operation raises and no claim grows too old.

A delivery that is refused the claim loads it, and takes it over where it reads no holder. It reads
none while the winner has not written yet, and two deliveries hold the claim one after the other;
where nobody reads that early, one delivery is analysed (`one_analysed`).
-/

namespace ResidentCrm.Dlt.DeliveryClaims

open GroupStore Storage.Local

universe u

/-! ## Claims -/

/-- A reading of a clock, as JSON has it. -/
def Instant := { n : Number // isNumberText n.repr = true }

/-- A delivery: the refId it came under, and what its `_claim` reads of the clock, measures and
stamps. -/
structure Delivery where
  refId : Option Text
  now : Instant
  age : Instant
  stamp : Text

/-- The deliveries of one record, whose case id is valid. -/
structure Deliveries (ι : Type u) where
  caseId : Text
  valid : isValidCaseId caseId = true
  digest : Text → Text
  delivery : ι → Delivery

/-- What a delivery is about to ask the storage for the claim file. -/
inductive Stage where
  /-- `create_json` of `_claim`. -/
  | create
  /-- `load` of `_claim`. -/
  | load
  /-- `save` of `_claim`. -/
  | save
  /-- `load` of `holder_of`. -/
  | check
deriving DecidableEq

/-- Where a delivery is. -/
inductive Lane where
  | waiting
  | creating
  | loading
  | reclaiming
  /-- Fetched, and in the queue of the analysis lane. -/
  | queued
  | checking
  | analysing
  | analysed
  /-- Answered as `already_processed`, in either lane. -/
  | skipped
deriving DecidableEq

def Lane.stage : Lane → Option Stage
  | .creating => some .create
  | .loading => some .load
  | .reclaiming => some .save
  | .checking => some .check
  | _ => none

inductive Outcome where
  | won
  | sameDelivery
  | reclaimed
  | duplicate
deriving DecidableEq

/-- `(found or {}).get("ref_id")`, where it is a text that is not empty. -/
def holderOf (found : Option Json) : Option Text :=
  ((found.map (Json.item "ref_id".toList)).bind Json.string).filter (· ≠ [])

/-- `_claim` after a refused `create_json`. -/
def outcome (refId : Text) (existing : Option Json) (finished : Text → Bool) (expired : Bool) :
    Outcome :=
  match holderOf existing with
  | some holder =>
    if holder = refId then .sameDelivery
    else if finished holder then .duplicate
    else if expired then .reclaimed
    else .duplicate
  | none => .reclaimed

variable {ι : Type u}

namespace Deliveries

variable (c : Deliveries ι)

def record (i : ι) : DltRecord := ⟨c.caseId, (c.delivery i).refId⟩

/-- `message.ref_id or case_id`. -/
def refId (i : ι) : Text := (c.record i).delivery

def key (i : ι) : Text := storageKey c.digest (c.delivery i).refId c.caseId

/-- The key of `_is_finished`. -/
def keyOf (holder : Text) : Text :=
  if holder = c.caseId then c.caseId else storageKey c.digest (some holder) c.caseId

/-- The claim that `create_json` writes. -/
def claim (i : ι) : Document where
  json := .object [("case_id".toList, .text c.caseId), ("ref_id".toList, .text (c.refId i)),
    ("claimed_at".toList, .scalar (.number (c.delivery i).now.1)),
    ("schema_version".toList, .text "1.3".toList)]
  valid := ⟨by simp, trivial, trivial, (c.delivery i).now.2, trivial, trivial⟩
  isObject := rfl

/-- The claim that `save` writes over one without a holder. -/
def reclaim (i : ι) : Document where
  json := .object [("case_id".toList, .text c.caseId), ("ref_id".toList, .text (c.refId i)),
    ("claimed_at".toList, .scalar (.number (c.delivery i).now.1)),
    ("reclaimed_from".toList, .scalar .null),
    ("reclaimed_after_seconds".toList, .scalar (.number (c.delivery i).age.1)),
    ("schema_version".toList, .text "1.3".toList),
    ("casebook_metadata".toList, .object [("last_updated".toList,
      .text (c.delivery i).stamp)])]
  valid := ⟨by simp, trivial, trivial, (c.delivery i).now.2, trivial, (c.delivery i).age.2, trivial,
    ⟨by simp, trivial, trivial⟩, trivial⟩
  isObject := rfl

/-- The calls on `claim.json`, at most one of each kind for a delivery. -/
def calls : ι × Stage → Call
  | (i, .create) => .create (c.claim i)
  | (_, .load) => .load
  | (i, .save) => .save (c.reclaim i)
  | (_, .check) => .load

end Deliveries

/-! ## The lanes -/

/-- The claim file, the storage keys with a terminal status, and the deliveries. -/
structure Claims (ι : Type u) where
  dir : Directory (ι × Stage)
  terminal : Text → Bool
  lane : ι → Lane

inductive Act (ι : Type u) where
  /-- The next operation of the storage call a delivery is in. -/
  | store (i : ι)
  | write (i : ι) (n : ℕ)
  /-- A delivery goes on, with what its call has returned, or its analysis ends. -/
  | goesOn (i : ι)

section

variable [DecidableEq ι] (c : Deliveries ι)

def Claims.goto (s : Claims ι) (i : ι) (l : Lane) : Claims ι :=
  { s with lane := Function.update s.lane i l }

/-- What a `create_json` has returned. -/
def won (log : List (Event (ι × Stage))) (k : ι × Stage) : Option Bool :=
  log.findSome? fun
    | .created j w => if j = k then some w else none
    | _ => none

/-- What a `load` has found. -/
def found (log : List (Event (ι × Stage))) (k : ι × Stage) : Option (Option Json) :=
  log.findSome? fun
    | .read j f => if j = k then some f else none
    | _ => none

/-- The fetch lane after the claim. -/
def Outcome.lane : Outcome → Lane
  | .won | .sameDelivery => .queued
  | .reclaimed => .reclaiming
  | .duplicate => .skipped

/-- `holder and holder != delivery`. -/
def checked (refId : Text) (existing : Option Json) : Lane :=
  match holderOf existing with
  | some holder => if holder ≠ refId then .skipped else .analysing
  | none => .analysing

/-- Where a delivery goes on, once the call it is in has returned. -/
def Claims.next (s : Claims ι) (i : ι) : Stage → Option Lane
  | .create => (won s.dir.log (i, .create)).map fun w => if w then Outcome.lane .won else .loading
  | .load => (found s.dir.log (i, .load)).map fun f =>
      (outcome (c.refId i) f (fun holder => s.terminal (c.keyOf holder)) false).lane
  | .save => some (Outcome.lane .won)
  | .check => (found s.dir.log (i, .check)).map (checked (c.refId i))

/-- A delivery goes on. -/
def Claims.goesOn (s : Claims ι) (i : ι) : Option (Claims ι) :=
  match s.lane i with
  | .waiting => some (s.goto i (if s.terminal (c.key i) then .skipped else .creating))
  | .queued => some (s.goto i (if s.terminal (c.key i) then .skipped else .checking))
  | .creating | .loading | .reclaiming | .checking =>
    (s.lane i).stage.bind fun stage => match s.dir.phase (i, stage) with
      | .done => (s.next c i stage).map (s.goto i)
      | _ => none
  | .analysing =>
    some ({ s with terminal := Function.update s.terminal (c.key i) true }.goto i .analysed)
  | .analysed | .skipped => none

def Claims.step (s : Claims ι) : Act ι → Option (Claims ι)
  | .store i => (s.lane i).stage.bind fun stage =>
      (s.dir.next c.calls (i, stage) true).map fun dir => { s with dir }
  | .write i n => (s.lane i).stage.bind fun stage =>
      (s.dir.step c.calls (.write (i, stage) n)).map fun dir => { s with dir }
  | .goesOn i => s.goesOn c i

/-- The record has not been delivered before. -/
def deliveries : Machine (Claims ι) (Act ι) where
  start s := s.dir.Fresh ∧ s.dir.name = none ∧ (∀ key, s.terminal key = false) ∧
    ∀ i, s.lane i = .waiting
  step := Claims.step c

end

/-! ## What is promised, and when -/

/-- The delivery has passed the holder check. -/
def Lane.Passed : Lane → Prop
  | .analysing | .analysed => True
  | _ => False

/-- The delivery has been answered. -/
def Lane.Answered : Lane → Prop
  | .analysing | .analysed | .skipped => True
  | _ => False

/-- All deliveries that are analysed came under one refId, every one under another is skipped, and
once all that have come are answered, there is one. -/
structure Claims.Once (c : Deliveries ι) (s : Claims ι) : Prop where
  one : ∀ i j, (s.lane i).Passed → (s.lane j).Passed → c.refId i = c.refId j
  rest : ∀ i j, (s.lane i).Passed → c.refId j ≠ c.refId i → (s.lane j).Answered →
    s.lane j = .skipped
  some : (∀ i, s.lane i = .waiting ∨ (s.lane i).Answered) → ∀ i, s.lane i ≠ .waiting →
    ∃ j, (s.lane j).Passed

/-- Nobody reads a claim that has not been written. -/
def ReadsWritten (s : Claims ι) : Act ι → Prop
  | .store i => ∀ stage ∈ (s.lane i).stage, match s.dir.phase (i, stage) with
    | .reading x => ¬ (s.dir.file x).Unfinished
    | _ => True
  | _ => True

instance (s : Claims ι) : (a : Act ι) → Decidable (ReadsWritten s a)
  | .write _ _ | .goesOn _ => isTrue trivial
  | .store i => by
    unfold ReadsWritten
    have hphase : ∀ stage, Decidable (match s.dir.phase (i, stage) with
        | .reading x => ¬ (s.dir.file x).Unfinished
        | _ => True) := fun stage => by split <;> infer_instance
    infer_instance

/-! ## One operation on the claim file -/

/-- The phases that a call goes through where nothing raises and nothing is saved. -/
def Fits : Call → Phase → Prop
  | .create _, .start | .create _, .writing _ | .create _, .done => True
  | .load, .start | .load, .locking | .load, .opening | .load, .reading _ | .load, .unlocking
  | .load, .done => True
  | .save _, .start | .update _, .start => True
  | _, _ => False

section

variable {κ : Type u} [DecidableEq κ] {calls : κ → Call} {d t : Directory κ} {k : κ}

/-- What one operation of a `create_json` or a `load` does, and its phase after it. -/
inductive Effect (calls : κ → Call) (d t : Directory κ) (k : κ) : Phase → Prop
  /-- It makes the file. -/
  | makes {p : Phase} (x : Document) : calls k = .create x → d.name = none → t.name ≠ none →
      t.log = .made k x.json :: d.log → Effect calls d t k p
  /-- `create_json` returns. -/
  | returns (won : Bool) : t.name = d.name → t.log = .created k won :: d.log →
      (won = true → ∃ x, d.phase k = .writing x) → Effect calls d t k .done
  /-- A `load` has read. -/
  | reads {p : Phase} (found : Option Json) (log : List (Event κ)) : calls k = .load →
      t.name = d.name → (log = d.log ∨ log = .looked k :: d.log) → t.log = .read k found :: log →
      (∀ x, p ≠ .writing x) → Effect calls d t k p
  | quiet {p : Phase} : t.name = d.name → (t.log = d.log ∨ t.log = .looked k :: d.log) →
      (∀ x, p ≠ .writing x) → Effect calls d t k p

theorem next_effect (hcall : (∃ x, calls k = .create x) ∨ calls k = .load)
    (hfits : Fits (calls k) (d.phase k)) (ht : d.next calls k true = some t) :
    ∃ p, t.phase = Function.update d.phase k p ∧ Fits (calls k) p ∧ Effect calls d t k p := by
  rcases hcall with ⟨x, hcall⟩ | hcall
  · cases hphase : d.phase k with
    | start =>
      simp only [Directory.next, hphase, hcall, if_true, Option.some.injEq] at ht
      subst ht
      unfold Directory.create
      rw [hcall]
      split
      · exact ⟨.done, rfl, trivial, .returns false rfl rfl nofun⟩
      · next hname => exact ⟨.writing d.size, rfl, trivial, .makes x hcall hname nofun rfl⟩
    | writing y =>
      simp only [Directory.next, hphase, Bool.not_true, Bool.false_eq_true, if_false] at ht
      split at ht <;> cases ht
      rw [hcall]
      exact ⟨.done, rfl, trivial, .returns true rfl rfl fun _ => ⟨y, hphase⟩⟩
    | done =>
      simp only [Directory.next, hphase] at ht
      cases ht
    | _ =>
      rw [hcall, hphase] at hfits
      exact hfits.elim
  · cases hphase : d.phase k with
    | start =>
      simp only [Directory.next, hphase, hcall, Bool.not_true, Bool.false_eq_true, if_false,
        Option.some.injEq] at ht
      subst ht
      rw [hcall]
      split
      · exact ⟨.locking, rfl, trivial, .quiet rfl (.inr rfl) nofun⟩
      · exact ⟨.done, rfl, trivial, .reads none _ hcall rfl (.inr rfl) rfl nofun⟩
    | locking =>
      simp only [Directory.next, hphase, Bool.not_true, Bool.false_eq_true, if_false] at ht
      split at ht <;> cases ht
      rw [hcall]
      exact ⟨.opening, rfl, trivial, .quiet rfl (.inl rfl) nofun⟩
    | opening =>
      simp only [Directory.next, hphase, if_true] at ht
      have hresume : ∀ f, (calls k).resume f = .unlocking := fun f => by rw [hcall]; rfl
      split at ht <;> cases ht
      · next x hx =>
        rw [hcall]
        exact ⟨.reading x, rfl, trivial, .quiet rfl (.inl rfl) nofun⟩
      · refine ⟨.unlocking, ?_, hcall ▸ trivial, .reads none _ hcall rfl (.inl rfl) rfl nofun⟩
        rw [← hresume none]
        rfl
    | reading x =>
      simp only [Directory.next, hphase, if_true, Option.some.injEq] at ht
      have hresume : ∀ f, (calls k).resume f = .unlocking := fun f => by rw [hcall]; rfl
      subst ht
      refine ⟨.unlocking, ?_, hcall ▸ trivial, .reads _ _ hcall rfl (.inl rfl) rfl nofun⟩
      rw [← hresume (loads (d.file x).content)]
      rfl
    | unlocking =>
      simp only [Directory.next, hphase, Option.some.injEq] at ht
      subst ht
      rw [hcall]
      exact ⟨.done, rfl, trivial, .quiet rfl (.inl rfl) nofun⟩
    | done =>
      simp only [Directory.next, hphase] at ht
      cases ht
    | _ =>
      rw [hcall, hphase] at hfits
      exact hfits.elim

end

/-! ## Where the deliveries stand -/

section

variable [DecidableEq ι] {c : Deliveries ι} {s t : Claims ι} {i j : ι} {l : Lane}

/-- Where a delivery may be, given the claim: it is never taken over. -/
def Claims.Stands (c : Deliveries ι) (s : Claims ι) (i : ι) : Lane → Prop
  | .waiting => s.dir.phase (i, .create) = .start
  | .creating => True
  | .loading => .created (i, .create) false ∈ s.dir.log
  | .reclaiming => False
  | .queued | .checking | .analysing | .analysed =>
    ∃ d ∈ documents s.dir.log, holderOf (some d) = some (c.refId i)
  | .skipped => (∃ d ∈ documents s.dir.log, holderOf (some d) ≠ some (c.refId i)) ∨
      ∃ j, (s.lane j).Passed ∧ c.key j = c.key i

/-- The invariant of the runs in which claims are read when they are written. -/
structure Claims.Inv (c : Deliveries ι) (s : Claims ι) : Prop where
  dir : s.dir.Inv none
  fair : ReadFairly none s.dir.log
  fits : ∀ k, Fits (c.calls k) (s.dir.phase k)
  named : s.dir.name = none → documents s.dir.log = []
  made : ∀ d ∈ documents s.dir.log, ∃ i, .made (i, .create) d ∈ s.dir.log ∧ d = (c.claim i).json
  single : ∀ d ∈ documents s.dir.log, ∀ d' ∈ documents s.dir.log, d = d'
  wrote : ∀ i, ((∃ x, s.dir.phase (i, .create) = .writing x) ∨
    .created (i, .create) true ∈ s.dir.log) → (c.claim i).json ∈ documents s.dir.log
  read : ∀ k f, .read k f ∈ s.dir.log → ∃ d ∈ documents s.dir.log, f = some d
  lanes : ∀ i, s.Stands c i (s.lane i)
  ended : ∀ key, s.terminal key = true → ∃ j, (s.lane j).Passed ∧ c.key j = key

omit [DecidableEq ι] in
theorem refId_ne_nil (c : Deliveries ι) (i : ι) : c.refId i ≠ [] := by
  unfold Deliveries.refId Deliveries.record DltRecord.delivery
  cases hfilter : (c.delivery i).refId.filter (· ≠ []) with
  | none =>
    intro hnil
    have hvalid := c.valid
    rw [show c.caseId = [] from hnil] at hvalid
    exact absurd hvalid (by decide)
  | some r =>
    have hr := (Option.filter_eq_some_iff.1 hfilter).2
    simpa using hr

omit [DecidableEq ι] in
theorem holderOf_claim (c : Deliveries ι) (i : ι) :
    holderOf (some (c.claim i).json) = some (c.refId i) := by
  have hget : ((some (c.claim i).json).map (Json.item "ref_id".toList)).bind Json.string =
      some (c.refId i) := rfl
  rw [holderOf, hget]
  simp [refId_ne_nil]

/-- The claim file names the delivery that made it. -/
theorem Claims.Inv.holder (hs : s.Inv c) {d : Json} (hd : d ∈ documents s.dir.log) :
    ∃ i, .made (i, .create) d ∈ s.dir.log ∧ holderOf (some d) = some (c.refId i) := by
  obtain ⟨i, hmade, rfl⟩ := hs.made d hd
  exact ⟨i, hmade, holderOf_claim c i⟩

/-- Of two deliveries that hold the claim, the refIds are the same. -/
theorem Claims.Inv.same (hs : s.Inv c) {d d' : Json} {r r' : Text} (hd : d ∈ documents s.dir.log)
    (hd' : d' ∈ documents s.dir.log) (hr : holderOf (some d) = some r)
    (hr' : holderOf (some d') = some r') : r = r' := by
  rw [hs.single d hd d' hd', hr'] at hr
  exact (Option.some.inj hr).symm

/-! ## An operation of the storage -/

/-- Who reads no claim that has not been written reads fairly. -/
theorem readsWhole_of_readsWritten {stage : Stage} (hs : s.Inv c)
    (hstage : (s.lane i).stage = some stage) (h : ReadsWritten s (.store i)) :
    ReadsWhole c.calls s.dir (.next (i, stage) true) := by
  have hread := h stage hstage
  have hstands := hs.dir.stands (i, stage)
  simp only [ReadsWhole]
  cases hphase : s.dir.phase (i, stage) with
  | start => cases hcall : c.calls (i, stage) <;> first | trivial | exact fun _ => hs.named
  | looking => exact fun _ => hs.named
  | opening =>
    rw [hphase] at hstands
    exact ⟨trivial, fun hname => hstands.2 (current_eq_none.2 ⟨hs.named hname, rfl⟩)⟩
  | reading x =>
    rw [hphase] at hread
    exact ⟨trivial, hread⟩
  | _ => trivial

theorem fair_subset {κ : Type u} [DecidableEq κ] {k : κ} {log : List (Event κ)} {d : Json}
    (h : d ∈ Storage.Local.fair none k log) : d ∈ documents log := by
  induction log with
  | nil => cases h
  | cons e log ih =>
    cases e with
    | looked j =>
      unfold Storage.Local.fair at h
      split at h
      · rw [current, Option.or_none, Option.mem_toList] at h
        exact List.mem_of_mem_head? h
      · exact ih h
    | made j d' =>
      rcases List.mem_cons.1 h with rfl | h
      · exact List.mem_cons_self
      · exact List.mem_cons_of_mem _ (ih h)
    | replaced j d' =>
      rcases List.mem_cons.1 h with rfl | h
      · exact List.mem_cons_self
      · exact List.mem_cons_of_mem _ (ih h)
    | created j w => exact ih h
    | read j f => exact ih h

omit [DecidableEq ι] in
/-- The lanes stand where they stood when the storage has moved on. -/
theorem stands_dir {dir : Directory (ι × Stage)} (hgrow : ∀ e ∈ s.dir.log, e ∈ dir.log)
    (hdocs : ∀ d ∈ documents s.dir.log, d ∈ documents dir.log)
    (hphase : l = .waiting → dir.phase (i, .create) = s.dir.phase (i, .create))
    (h : s.Stands c i l) : ({ s with dir } : Claims ι).Stands c i l := by
  cases l with
  | waiting => exact (hphase rfl).trans h
  | creating => trivial
  | loading => exact hgrow _ h
  | reclaiming => exact h
  | skipped => exact h.imp_left fun ⟨d, hd, hne⟩ => ⟨d, hdocs d hd, hne⟩
  | _ =>
    obtain ⟨d, hd, hholder⟩ := h
    exact ⟨d, hdocs d hd, hholder⟩

/-- A delivery that reads the claim knows that there is one. -/
theorem Claims.Inv.documents_ne_nil {stage : Stage} (hs : s.Inv c)
    (hstage : (s.lane i).stage = some stage) (hload : c.calls (i, stage) = .load) :
    documents s.dir.log ≠ [] := by
  have hlane := hs.lanes i
  cases h : s.lane i with
  | loading =>
    rw [h] at hlane
    exact fun hnil => (hs.dir.lost _ hlane).1 (current_eq_none.2 ⟨hnil, rfl⟩)
  | checking =>
    rw [h] at hlane
    obtain ⟨d, hd, -⟩ := hlane
    exact List.ne_nil_of_mem hd
  | creating =>
    rw [h] at hstage
    cases hstage
    cases hload
  | reclaiming =>
    rw [h] at hstage
    cases hstage
    cases hload
  | _ =>
    rw [h] at hstage
    cases hstage

/-- A log that has at most gained that somebody has looked. -/
theorem grown_by_look {κ : Type u} {log log' : List (Event κ)} {k : κ}
    (h : log' = log ∨ log' = .looked k :: log) :
    documents log' = documents log ∧ (∀ e ∈ log, e ∈ log') ∧
      ∀ e ∈ log', (∀ k, e ≠ .looked k) → e ∈ log := by
  rcases h with rfl | rfl
  · exact ⟨rfl, fun _ => id, fun _ he _ => he⟩
  · refine ⟨rfl, fun _ => List.mem_cons_of_mem _, ?_⟩
    intro e he hne
    exact (List.mem_cons.1 he).resolve_left (hne _)

section

variable {dir : Directory (ι × Stage)} (hs : s.Inv c) (hdir : dir.Inv none)
  (hfair : ReadFairly none dir.log) (hfits : ∀ k, Fits (c.calls k) (dir.phase k))
  (hwaiting : ∀ j, s.lane j = .waiting → dir.phase (j, .create) = s.dir.phase (j, .create))

include hs hdir hfair hfits hwaiting

/-- The claim file is as it was, or still absent. -/
theorem Claims.Inv.kept (hname : dir.name = s.dir.name)
    (hdocs : documents dir.log = documents s.dir.log) (hgrow : ∀ e ∈ s.dir.log, e ∈ dir.log)
    (hwrote : ∀ j, (∃ x, dir.phase (j, .create) = .writing x) ∨
      .created (j, .create) true ∈ dir.log → (c.claim j).json ∈ documents s.dir.log)
    (hread : ∀ k f, .read k f ∈ dir.log → ∃ d ∈ documents s.dir.log, f = some d) :
    ({ s with dir } : Claims ι).Inv c := by
  refine ⟨hdir, hfair, hfits, fun h => ?_, fun d hd => ?_, fun d hd d' hd' => ?_, fun j hj => ?_,
    fun k f hk => ?_, fun j => ?_, hs.ended⟩
  · exact hdocs.trans (hs.named (hname.symm.trans h))
  · obtain ⟨j, hmade, heq⟩ := hs.made d (hdocs ▸ hd)
    exact ⟨j, hgrow _ hmade, heq⟩
  · exact hs.single d (hdocs ▸ hd) d' (hdocs ▸ hd')
  · exact hdocs.symm ▸ hwrote j hj
  · exact hdocs.symm ▸ hread k f hk
  · exact stands_dir hgrow (fun d hd => hdocs.symm ▸ hd) (hwaiting j) (hs.lanes j)

/-- The claim of one delivery has become the claim file. -/
theorem Claims.Inv.claimed (hname : s.dir.name = none) (hname' : dir.name ≠ none)
    (hlog : dir.log = .made (i, .create) (c.claim i).json :: s.dir.log)
    (hwriting : ∀ j x, j ≠ i → dir.phase (j, .create) = .writing x →
      s.dir.phase (j, .create) = .writing x) :
    ({ s with dir } : Claims ι).Inv c := by
  have hnil := hs.named hname
  have hdocs : documents dir.log = [(c.claim i).json] := by
    rw [hlog, documents, hnil]
  have hnew : ∀ e, (∀ k d, e ≠ .made k d) → e ∈ dir.log → e ∈ s.dir.log := by
    intro e he hmem
    rw [hlog] at hmem
    exact (List.mem_cons.1 hmem).resolve_left (he _ _)
  refine ⟨hdir, hfair, hfits, fun h => absurd h hname', fun d hd => ?_, fun d hd d' hd' => ?_,
    fun j hj => ?_, fun k f hk => ?_, fun j => ?_, hs.ended⟩
  · rw [hdocs] at hd
    obtain rfl := List.mem_singleton.1 hd
    exact ⟨i, hlog ▸ List.mem_cons_self, rfl⟩
  · rw [hdocs] at hd hd'
    rw [List.mem_singleton.1 hd, List.mem_singleton.1 hd']
  · by_cases hji : j = i
    · rw [hji, hdocs]
      exact List.mem_singleton_self _
    · have hold := hs.wrote j (hj.imp (fun ⟨x, hx⟩ => ⟨x, hwriting j x hji hx⟩) (hnew _ nofun))
      rw [hnil] at hold
      cases hold
  · obtain ⟨d, hd, -⟩ := hs.read k f (hnew _ nofun hk)
    rw [hnil] at hd
    cases hd
  · exact stands_dir (fun e he => hlog ▸ List.mem_cons_of_mem _ he) (by rw [hnil]; nofun)
      (hwaiting j) (hs.lanes j)

end

/-- An operation of the storage keeps the invariant. -/
theorem Claims.Inv.store {stage : Stage} {dir : Directory (ι × Stage)} (hs : s.Inv c)
    (hstage : (s.lane i).stage = some stage) (hc : ReadsWritten s (.store i))
    (ht : s.dir.next c.calls (i, stage) true = some dir) :
    ({ s with dir } : Claims ι).Inv c := by
  have hlane := hs.lanes i
  have hcall : (∃ x, c.calls (i, stage) = .create x) ∨ c.calls (i, stage) = .load := by
    cases stage with
    | create => exact .inl ⟨_, rfl⟩
    | load => exact .inr rfl
    | check => exact .inr rfl
    | save =>
      -- a claim that was written is never taken over
      cases h : s.lane i <;> rw [h] at hstage hlane <;> first | exact hlane.elim | cases hstage
  obtain ⟨p, hphase, hfits, heffect⟩ := next_effect hcall (hs.fits (i, stage)) ht
  have hdir := inv_next hs.dir ht
  have hfair := (readFairly_next hs.dir ht).2 ⟨hs.fair, readsWhole_of_readsWritten hs hstage hc⟩
  have hallfit : ∀ k, Fits (c.calls k) (dir.phase k) := by
    rw [hphase]
    exact phase_update (P := fun k p => Fits (c.calls k) p) hfits fun k _ => hs.fits k
  have hwaiting : ∀ j, s.lane j = .waiting → dir.phase (j, .create) = s.dir.phase (j, .create) := by
    intro j hj
    rw [hphase, Function.update_of_ne]
    rintro ⟨⟩
    rw [hj] at hstage
    cases hstage
  have hwriting : ∀ j x, (j, .create) ≠ (i, stage) ∨ p ≠ .writing x →
      dir.phase (j, .create) = .writing x → s.dir.phase (j, .create) = .writing x := by
    intro j x hor hx
    rw [hphase] at hx
    by_cases hj : (j, Stage.create) = (i, stage)
    · rw [hj, Function.update_self] at hx
      exact absurd hx (hor.resolve_left fun hne => hne hj)
    · rwa [Function.update_of_ne hj] at hx
  have hkept := hs.kept hdir hfair hallfit hwaiting
  cases heffect with
  | makes x hx hname hname' hlog =>
    obtain ⟨rfl, rfl⟩ : stage = .create ∧ c.claim i = x := by
      cases stage <;> cases hx
      exact ⟨rfl, rfl⟩
    refine hs.claimed hdir hfair hallfit hwaiting hname hname' hlog fun j x hji => ?_
    exact hwriting j x (.inl fun h => hji (Prod.mk.inj h).1)
  | returns w hname hlog hw =>
    refine hkept hname (by rw [hlog]; rfl) (fun e he => hlog ▸ List.mem_cons_of_mem _ he)
      (fun j hj => ?_) fun k f hk => ?_
    · rcases hj with ⟨x, hx⟩ | hj
      · exact hs.wrote j (.inl ⟨x, hwriting j x (.inr nofun) hx⟩)
      · rw [hlog] at hj
        rcases List.mem_cons.1 hj with heq | hj
        · cases heq
          exact hs.wrote i (.inl (hw rfl))
        · exact hs.wrote j (.inr hj)
    · rw [hlog] at hk
      exact hs.read k f ((List.mem_cons.1 hk).resolve_left nofun)
  | reads f log hload hname hold hlog hp =>
    obtain ⟨hsame, hgrow, hback⟩ := grown_by_look hold
    refine hkept hname (by rw [hlog]; exact hsame)
      (fun e he => hlog ▸ List.mem_cons_of_mem _ (hgrow e he)) (fun j hj => ?_) fun k f' hk => ?_
    · refine hs.wrote j (hj.imp (fun ⟨x, hx⟩ => ⟨x, hwriting j x (.inr (hp x)) hx⟩) fun hmem => ?_)
      rw [hlog] at hmem
      exact hback _ ((List.mem_cons.1 hmem).resolve_left nofun) nofun
    · rw [hlog] at hk
      rcases List.mem_cons.1 hk with heq | hk
      · cases heq
        rw [hlog] at hfair
        have hmine : Fair none log (i, stage) f := hfair.1
        cases f with
        | none =>
          have hnil := (current_eq_none.1 hmine.1).1
          exact absurd (hsame.symm.trans hnil) (hs.documents_ne_nil hstage hload)
        | some d => exact ⟨d, hsame ▸ fair_subset hmine, rfl⟩
      · exact hs.read k f' (hback _ hk nofun)
  | quiet hname hlog hp =>
    obtain ⟨hsame, hgrow, hback⟩ := grown_by_look hlog
    refine hkept hname hsame hgrow (fun j hj => ?_) fun k f hk => hs.read k f (hback _ hk nofun)
    exact hs.wrote j (hj.imp (fun ⟨x, hx⟩ => ⟨x, hwriting j x (.inr (hp x)) hx⟩)
      fun hmem => hback _ hmem nofun)

theorem write_frame {κ : Type u} [DecidableEq κ] {calls : κ → Call} {d dir : Directory κ} {k : κ}
    {n : ℕ} (ht : d.step calls (.write k n) = some dir) :
    dir.log = d.log ∧ dir.phase = d.phase ∧ dir.name = d.name := by
  have hextend : ∀ x, d.extend x n = some dir →
      dir.log = d.log ∧ dir.phase = d.phase ∧ dir.name = d.name := by
    intro x hx
    unfold Directory.extend at hx
    split at hx <;> cases hx
    exact ⟨rfl, rfl, rfl⟩
  simp only [Directory.step] at ht
  split at ht
  · exact hextend _ ht
  · exact hextend _ ht
  · cases ht

theorem Claims.Inv.write {k : ι × Stage} {n : ℕ} {dir : Directory (ι × Stage)} (hs : s.Inv c)
    (ht : s.dir.step c.calls (.write k n) = some dir) : ({ s with dir } : Claims ι).Inv c := by
  obtain ⟨hlog, hphase, hname⟩ := write_frame ht
  have hdir := inv_step hs.dir ht
  refine ⟨hdir, ?_, ?_, ?_, ?_, ?_, ?_, ?_, fun j => ?_, hs.ended⟩
  · exact hlog.symm ▸ hs.fair
  · exact hphase.symm ▸ hs.fits
  · exact hlog.symm ▸ hname.symm ▸ hs.named
  · exact hlog.symm ▸ hs.made
  · exact hlog.symm ▸ hs.single
  · exact hlog.symm ▸ hphase.symm ▸ hs.wrote
  · exact hlog.symm ▸ hs.read
  · exact stands_dir (fun e he => hlog.symm ▸ he) (fun d hd => hlog.symm ▸ hd)
      (fun _ => by rw [hphase]) (hs.lanes j)

/-! ## A delivery goes on -/

/-- A delivery goes on to another place. -/
theorem Claims.Inv.goto (hs : s.Inv c) (hpassed : (s.lane i).Passed → l.Passed)
    (hstands : s.Stands c i l) : (s.goto i l).Inv c := by
  have hkept : ∀ j, (s.lane j).Passed → ((s.goto i l).lane j).Passed := by
    intro j hj
    by_cases hji : j = i
    · subst hji
      change (Function.update s.lane j l j).Passed
      rw [Function.update_self]
      exact hpassed hj
    · change (Function.update s.lane i l j).Passed
      rw [Function.update_of_ne hji]
      exact hj
  have hall : ∀ j l', s.Stands c j l' → (s.goto i l).Stands c j l' := by
    intro j l' hl'
    cases l' with
    | skipped => exact hl'.imp_right fun ⟨k, hk, hkey⟩ => ⟨k, hkept k hk, hkey⟩
    | _ => exact hl'
  refine ⟨hs.dir, hs.fair, hs.fits, hs.named, hs.made, hs.single, hs.wrote, hs.read, fun j => ?_,
    fun key hkey => ?_⟩
  · change (s.goto i l).Stands c j (Function.update s.lane i l j)
    by_cases hji : j = i
    · subst hji
      rw [Function.update_self]
      exact hall j l hstands
    · rw [Function.update_of_ne hji]
      exact hall j _ (hs.lanes j)
  · obtain ⟨j, hj, hjkey⟩ := hs.ended key hkey
    exact ⟨j, hkept j hj, hjkey⟩

theorem mem_of_won {log : List (Event (ι × Stage))} {k : ι × Stage} {w : Bool}
    (h : won log k = some w) : .created k w ∈ log := by
  obtain ⟨e, he, heq⟩ := List.exists_of_findSome?_eq_some h
  cases e with
  | created j w' =>
    simp only at heq
    split at heq <;> cases heq
    next hj => exact hj ▸ he
  | _ => cases heq

theorem mem_of_found {log : List (Event (ι × Stage))} {k : ι × Stage} {f : Option Json}
    (h : found log k = some f) : .read k f ∈ log := by
  obtain ⟨e, he, heq⟩ := List.exists_of_findSome?_eq_some h
  cases e with
  | read j f' =>
    simp only at heq
    split at heq <;> cases heq
    next hj => exact hj ▸ he
  | _ => cases heq

/-- What a delivery has found is the claim of a delivery. -/
theorem Claims.Inv.found (hs : s.Inv c) {stage : Stage} {f : Option Json}
    (h : found s.dir.log (i, stage) = some f) :
    ∃ d ∈ documents s.dir.log, ∃ j, holderOf f = some (c.refId j) ∧ f = some d := by
  obtain ⟨d, hd, rfl⟩ := hs.read _ f (mem_of_found h)
  obtain ⟨j, -, hj⟩ := hs.holder hd
  exact ⟨d, hd, j, hj, rfl⟩

/-- Where a delivery goes on to, it stands. -/
theorem Claims.Inv.next {stage : Stage} (hs : s.Inv c) (hstage : (s.lane i).stage = some stage)
    (hl : s.next c i stage = some l) : s.Stands c i l := by
  have hlane := hs.lanes i
  cases stage with
  | create =>
    obtain ⟨w, hw, rfl⟩ := Option.map_eq_some_iff.1 hl
    have hmem := mem_of_won hw
    cases w with
    | true => exact ⟨_, hs.wrote i (.inr hmem), holderOf_claim c i⟩
    | false => exact hmem
  | load =>
    obtain ⟨f, hf, rfl⟩ := Option.map_eq_some_iff.1 hl
    obtain ⟨d, hd, j, hholder, rfl⟩ := hs.found hf
    simp only [outcome, hholder]
    split
    · next heq =>
      rw [heq] at hholder
      exact ⟨d, hd, hholder⟩
    · next hne =>
      have hskipped : s.Stands c i .skipped := by
        refine .inl ⟨d, hd, fun h => hne ?_⟩
        rw [hholder] at h
        exact Option.some.inj h
      split
      · exact hskipped
      · exact hskipped
  | save =>
    cases h : s.lane i <;> rw [h] at hstage hlane <;> first | exact hlane.elim | cases hstage
  | check =>
    obtain ⟨f, hf, rfl⟩ := Option.map_eq_some_iff.1 hl
    obtain ⟨d, hd, j, hholder, rfl⟩ := hs.found hf
    have hchecking : s.Stands c i .checking := by
      cases h : s.lane i <;> rw [h] at hstage hlane <;> first | exact hlane | cases hstage
    obtain ⟨d', hd', hmine⟩ := hchecking
    have hsame := hs.same hd hd' hholder hmine
    simp only [checked, hholder]
    rw [if_neg (not_not_intro hsame)]
    exact ⟨d', hd', hmine⟩

theorem Claims.Inv.goesOn (hs : s.Inv c) (ht : s.goesOn c i = some t) : t.Inv c := by
  have hlane := hs.lanes i
  have hskips : s.terminal (c.key i) = true → s.Stands c i .skipped := fun h => .inr (hs.ended _ h)
  unfold Claims.goesOn at ht
  cases h : s.lane i with
  | waiting =>
    rw [h] at ht
    cases ht
    split
    · next hterminal => exact hs.goto (by rw [h]; nofun) (hskips hterminal)
    · exact hs.goto (by rw [h]; nofun) trivial
  | queued =>
    rw [h] at ht hlane
    cases ht
    split
    · next hterminal => exact hs.goto (by rw [h]; nofun) (hskips hterminal)
    · exact hs.goto (by rw [h]; nofun) hlane
  | analysing =>
    rw [h] at ht hlane
    cases ht
    have hanalysed : (s.goto i .analysed).Inv c := hs.goto (fun _ => trivial) hlane
    refine ⟨hs.dir, hs.fair, hs.fits, hs.named, hs.made, hs.single, hs.wrote, hs.read,
      hanalysed.lanes, fun key hkey => ?_⟩
    change Function.update s.terminal (c.key i) true key = true at hkey
    by_cases hkeys : key = c.key i
    · refine ⟨i, ?_, hkeys.symm⟩
      change (Function.update s.lane i .analysed i).Passed
      rw [Function.update_self]
      trivial
    · rw [Function.update_of_ne hkeys] at hkey
      exact hanalysed.ended key hkey
  | analysed =>
    rw [h] at ht
    cases ht
  | skipped =>
    rw [h] at ht
    cases ht
  | _ =>
    rw [h] at ht
    obtain ⟨stage, hstage, ht⟩ := Option.bind_eq_some_iff.1 ht
    split at ht
    · obtain ⟨l, hl, rfl⟩ := Option.map_eq_some_iff.1 ht
      exact hs.goto (by rw [h]; nofun) (hs.next (h ▸ hstage) hl)
    · cases ht

/-! ## A run -/

theorem inv_step {a : Act ι} (hs : s.Inv c) (hc : ReadsWritten s a) (ht : s.step c a = some t) :
    t.Inv c := by
  cases a with
  | store i =>
    obtain ⟨stage, hstage, ht⟩ := Option.bind_eq_some_iff.1 ht
    obtain ⟨dir, hdir, rfl⟩ := Option.map_eq_some_iff.1 ht
    exact hs.store hstage hc hdir
  | write i n =>
    obtain ⟨stage, hstage, ht⟩ := Option.bind_eq_some_iff.1 ht
    obtain ⟨dir, hdir, rfl⟩ := Option.map_eq_some_iff.1 ht
    exact hs.write hdir
  | goesOn i => exact hs.goesOn ht

theorem inv_start (hs : (deliveries c).start s) : s.Inv c := by
  obtain ⟨hfresh, hname, hterminal, hlanes⟩ := hs
  have hdir := inv_fresh hfresh
  have hdocument : s.dir.document = none := by
    rw [Directory.document, hname]
    rfl
  rw [hdocument] at hdir
  have hlog := hfresh.log
  refine ⟨hdir, ?_, fun k => ?_, fun _ => ?_, ?_, ?_, fun i h => ?_, ?_, fun i => ?_,
    fun key hkey => ?_⟩
  · rw [hlog]
    trivial
  · rw [hfresh.phase k]
    cases c.calls k <;> trivial
  · rw [hlog]
    rfl
  · rw [hlog]
    intro d hd
    cases hd
  · rw [hlog]
    intro d hd
    cases hd
  · rcases h with ⟨x, hx⟩ | h
    · rw [hfresh.phase] at hx
      cases hx
    · rw [hlog] at h
      cases h
  · rw [hlog]
    intro k f hk
    cases hk
  · rw [hlanes i]
    exact hfresh.phase _
  · rw [hterminal] at hkey
    cases hkey

/-- Where the invariant holds, one delivery is analysed. -/
theorem once_of_inv (hs : s.Inv c) : s.Once c := by
  have hholds : ∀ i, (s.lane i).Passed →
      ∃ d ∈ documents s.dir.log, holderOf (some d) = some (c.refId i) := by
    intro i hi
    have hlane := hs.lanes i
    cases h : s.lane i <;> rw [h] at hi hlane <;> first | exact hi.elim | exact hlane
  have hone : ∀ i j, (s.lane i).Passed → (s.lane j).Passed → c.refId i = c.refId j := by
    intro i j hi hj
    obtain ⟨d, hd, hdi⟩ := hholds i hi
    obtain ⟨d', hd', hdj⟩ := hholds j hj
    exact hs.same hd hd' hdi hdj
  refine ⟨hone, fun i j hi hne hj => ?_, fun hquiet i hi => ?_⟩
  · cases h : s.lane j with
    | skipped => rfl
    | analysing => exact absurd (hone j i (by rw [h]; trivial) hi) hne
    | analysed => exact absurd (hone j i (by rw [h]; trivial) hi) hne
    | _ =>
      rw [h] at hj
      exact hj.elim
  · have hanswered := (hquiet i).resolve_left hi
    have hlane := hs.lanes i
    cases h : s.lane i with
    | analysing => exact ⟨i, by rw [h]; trivial⟩
    | analysed => exact ⟨i, by rw [h]; trivial⟩
    | skipped =>
      rw [h] at hlane
      rcases hlane with ⟨d, hd, hother⟩ | ⟨j, hj, -⟩
      · -- the delivery that made the claim is not skipped for a claim under another refId
        obtain ⟨j, hmade, hholder⟩ := hs.holder hd
        have hmaker := hs.lanes j
        cases hj : s.lane j with
        | waiting =>
          rw [hj] at hmaker
          exact absurd hmaker (hs.dir.begun _ _ hmade)
        | analysing => exact ⟨j, by rw [hj]; trivial⟩
        | analysed => exact ⟨j, by rw [hj]; trivial⟩
        | skipped =>
          rw [hj] at hmaker
          refine hmaker.elim (fun ⟨d', hd', hne⟩ => ?_) fun ⟨k, hk, _⟩ => ⟨k, hk⟩
          rw [hs.single d' hd' d hd] at hne
          exact absurd hholder hne
        | _ =>
          rcases hquiet j with hwaiting | hdone
          · rw [hj] at hwaiting
            cases hwaiting
          · rw [hj] at hdone
            exact hdone.elim
      · exact ⟨j, hj⟩
    | _ =>
      rw [h] at hanswered
      exact hanswered.elim

/-- **One delivery is analysed, where nobody reads a claim that has not been written.** -/
theorem one_analysed (hs : (deliveries c).Reach ReadsWritten s) : s.Once c :=
  once_of_inv (hs.invariant (I := Claims.Inv c) (fun _ => inv_start) fun _ _ _ => inv_step)

end

/-! ## A claim that is read too early -/

def noon : Instant := ⟨.ofNat 12, by decide⟩

/-- Two deliveries of one record, under two refIds. -/
def twoKeys : Deliveries (Fin 2) where
  caseId := "dlt-t-0-1".toList
  valid := by decide
  digest := id
  delivery
    | 0 => ⟨some "a".toList, noon, noon, []⟩
    | 1 => ⟨some "b".toList, noon, noon, []⟩

def undelivered : Claims (Fin 2) where
  dir :=
    { file _ := ⟨[], twoKeys.claim 0, none⟩
      size := 0
      name := none
      tmp := none
      lock := none
      phase _ := .start
      log := [] }
  terminal _ := false
  lane _ := .waiting

theorem undelivered_start : (deliveries twoKeys).start undelivered :=
  ⟨⟨fun _ => rfl, rfl, rfl, fun _ h => absurd h (not_or_intro nofun nofun), nofun⟩, rfl,
    fun _ => rfl, fun _ => rfl⟩

/-- A delivery loads the claim, and goes on. -/
def loading (i : Fin 2) : List (Act (Fin 2)) := List.replicate 5 (.store i) ++ [.goesOn i]

/-- Two deliveries try to create the claim; the first one does. -/
def creating : List (Act (Fin 2)) :=
  [.goesOn 0, .store 0, .goesOn 1, .store 1, .goesOn 1]

/-- The winner writes its claim, and is queued. -/
def writing : List (Act (Fin 2)) :=
  [.write 0 (twoKeys.claim 0).dump.length, .store 0, .goesOn 0]

/-- The claim is taken over. -/
def saving : List (Act (Fin 2)) :=
  [.store 1, .store 1, .write 1 (twoKeys.reclaim 1).dump.length, .store 1, .store 1, .store 1,
    .goesOn 1]

/-- The second delivery loads the claim before the first has written it, and takes it over when that
one is being analysed. -/
def takenOver : List (Act (Fin 2)) :=
  creating ++ loading 1 ++ writing ++ .goesOn 0 :: loading 0 ++ saving ++ .goesOn 1 :: loading 1

/-- It loads the claim when it has been written. -/
def inOrder : List (Act (Fin 2)) := creating ++ writing ++ loading 1 ++ .goesOn 0 :: loading 0

def lanes (s : Claims (Fin 2)) : Lane × Lane := (s.lane 0, s.lane 1)

/-- Both are analysed. -/
theorem claim_taken_over : ∃ s, (deliveries twoKeys).Reachable s ∧ ¬ s.Once twoKeys := by
  obtain ⟨s, hs, hlanes⟩ := Machine.exists_reachable_run undelivered_start takenOver
    (lanes · = (.analysing, .analysing)) (by decide +kernel)
  refine ⟨s, hs, fun honce => ?_⟩
  obtain ⟨h₀, h₁⟩ := Prod.mk.inj (of_decide_eq_true hlanes)
  have hsame := honce.one 0 1 (by rw [h₀]; trivial) (by rw [h₁]; trivial)
  exact absurd hsame (by decide)

/-- The second delivery is skipped. -/
theorem claim_kept : ∃ s, (deliveries twoKeys).Reach ReadsWritten s ∧
    lanes s = (.analysing, .skipped) ∧ s.Once twoKeys := by
  obtain ⟨s, hs, hlanes⟩ := Machine.exists_reach_runWhere (c := fun s a => decide (ReadsWritten s a))
    (fun _ _ => of_decide_eq_true) undelivered_start inOrder (lanes · = (.analysing, .skipped))
    (by decide +kernel)
  exact ⟨s, hs, of_decide_eq_true hlanes, one_analysed hs⟩

end ResidentCrm.Dlt.DeliveryClaims
