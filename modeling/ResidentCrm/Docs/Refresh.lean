import ResidentCrm.Lib.Machine
import ResidentCrm.Lib.Text
import Mathlib.Data.List.Basic

/-!
# Refreshing the reason-code documents

`_download` and `_swap_in` of `utils/reason_code_docs.py`, one operation of the file system or of
the bucket a step. Any of them may raise, the process may die before any of them, and others look
into the services directory whenever they like. The old store is moved aside before the new one is
moved in; who looks between the two renames finds nothing, which the source accepts, but a process
that dies there, or a move back that fails, leaves nothing for good (`served_iff_undisturbed`).

The bodies of the files are of any type, and `valid` says of a store that `validate` finds no error
in it.
-/

namespace ResidentCrm.Docs

universe u

/-! ## The files of a store -/

/-- `reason_code_service_map.FILE_STEM`. -/
def mapStem : Text := "reason_code_services".toList

def isStemChar (c : Char) : Bool := c.isAlphanum || c = '.' || c = '_' || c = '-'

def isStem : Text → Bool
  | c :: s => c.isAlphanum && s.all isStemChar
  | [] => false

def suffix : Text := ".json".toList

/-- `s[:-1]` where it ends with a line feed, as `$` allows. -/
def atEnd (s : Text) : Text := if s.getLast? = some '\n' then s.dropLast else s

/-- The group of `_S3_SERVICE_KEY`, given the key after the prefix of the store. -/
def serviceStem (key : Text) : Option Text :=
  let folder := "services/".toList
  let name := atEnd (if folder.isPrefixOf key then key.drop folder.length else key)
  let stem := name.take (name.length - suffix.length)
  if suffix.isSuffixOf name && isStem stem then some stem else none

section

variable {β : Type u}

/-- The service files of a store, by stem. -/
abbrev Store (β : Type u) := List (Text × β)

/-- One object of the listing; `none` where two are one file. -/
def addObject (store : Store β) (object : Text × β) : Option (Store β) :=
  match serviceStem object.1 with
  | none => some store
  | some stem =>
    if stem = mapStem then some store
    else if stem ∈ store.map Prod.fst then none
    else some (store ++ [(stem, object.2)])

/-- The store that a listing is. -/
def storeOf (objects : List (Text × β)) : Option (Store β) := objects.foldlM addObject []

/-! ## The refresh -/

/-- What a refresh does next. -/
inductive Point (β : Type u) where
  | idle
  /-- `shutil.rmtree(staging)`, of a listing to be fetched. -/
  | clearing (objects : List (Text × β))
  /-- `mkdir` of the staging directory. -/
  | making (objects : List (Text × β))
  | fetching (left : List (Text × β))
  | checking
  /-- `shutil.rmtree(previous)`. -/
  | retiring
  /-- `current.rename(previous)`. -/
  | moving
  /-- `new_services.rename(current)`. -/
  | placing
  /-- `previous.rename(current)`, after that has raised. -/
  | restoring
  /-- `shutil.rmtree(previous, ignore_errors=True)`. -/
  | dropping
  /-- The `finally` of `_download`. -/
  | cleaning

/-- The directories, where a refresh stands, and what a reader just saw. -/
structure Refresh (β : Type u) where
  point : Point β
  /-- The listings of the refreshes so far, the last one first. -/
  listings : List (List (Text × β))
  current : Option (Store β)
  /-- The store moved aside, `none` in it where it is removed in part. -/
  previous : Option (Option (Store β))
  staging : Option (Store β)
  /-- The store that serves: the first one, or the last that was moved in. -/
  last : Option (Store β)
  seen : Option (Option (Store β))

inductive Action (β : Type u) where
  /-- A refresh starts, at start-up or later, with what the bucket lists. -/
  | begin (objects : List (Text × β))
  /-- The next operation returns, or raises. -/
  | next (ok : Bool)
  | crash
  /-- A reader looks into the services directory. -/
  | look

/-- The next operation. -/
def Refresh.next (valid : Store β → Bool) (s : Refresh β) (ok : Bool) : Option (Refresh β) :=
  match s.point with
  | .idle => none
  | .clearing objects =>
    if s.staging.isNone then some { s with point := .making objects }
    else if ok then some { s with point := .making objects, staging := none }
    else some { s with point := .idle }
  | .making objects =>
    if ok then some { s with point := .fetching objects, staging := some [] }
    else some { s with point := .idle }
  | .fetching [] => some { s with point := if ok then .checking else .cleaning }
  | .fetching (object :: left) =>
    match if ok then addObject (s.staging.getD []) object else none with
    | some store => some { s with point := .fetching left, staging := some store }
    | none => some { s with point := .cleaning }
  | .checking =>
    some { s with point :=
      if ok && s.staging.getD [] ≠ [] && valid (s.staging.getD []) then .retiring else .cleaning }
  | .retiring =>
    if ok then some { s with point := .moving, previous := none }
    else some { s with point := .cleaning, previous := s.previous.map fun _ => none }
  | .moving =>
    if ok then some { s with
      point := .placing, previous := s.current.map some, current := none }
    else some { s with point := .cleaning }
  | .placing =>
    if ok then some { s with
      point := .dropping, current := s.staging, staging := some [], last := s.staging }
    else some { s with point := .restoring }
  | .restoring =>
    match s.previous, s.current with
    | some kept, none =>
      if ok then some { s with point := .cleaning, current := kept, previous := none }
      else some { s with point := .cleaning }
    | _, _ => some { s with point := .cleaning }
  | .dropping =>
    some { s with
      point := .cleaning, previous := if ok then none else s.previous.map fun _ => none }
  | .cleaning => some { s with point := .idle, staging := if ok then none else s.staging }

def Refresh.step (valid : Store β → Bool) (s : Refresh β) : Action β → Option (Refresh β)
  | .begin objects =>
    match s.point with
    | .idle => some { s with
        point := .clearing objects, listings := objects :: s.listings, seen := none }
    | _ => none
  | .next ok => ({ s with seen := none } : Refresh β).next valid ok
  | .crash => some { s with
      point := .idle, seen := none
      previous := match s.point with
        | .retiring | .dropping => s.previous.map fun _ => none
        | _ => s.previous }
  | .look => some { s with seen := some s.current }

/-- A store or none is there, and none is left aside. -/
def refreshing (valid : Store β → Bool) : Machine (Refresh β) (Action β) where
  start s := s.point = .idle ∧ s.previous = none ∧ s.current = s.last ∧ s.seen = none
  step := Refresh.step valid

/-! ## The property and its condition -/

/-- A store is moved aside, and none stands in its place. -/
def Refresh.Swapping (s : Refresh β) : Prop :=
  match s.point with
  | .placing | .restoring => s.previous.isSome
  | _ => False

/-- The store is what a listing holds, complete and without an error. -/
def Fetched (valid : Store β → Bool) (listings : List (List (Text × β))) (store : Store β) : Prop :=
  store ≠ [] ∧ valid store = true ∧ ∃ objects ∈ listings, storeOf objects = some store

/-- The store that serves is the first one or one that was fetched, it is in place unless it is
being swapped, and a reader sees it. -/
structure Served (valid : Store β → Bool) (first : Option (Store β)) (s : Refresh β) : Prop where
  origin : s.last = first ∨ ∃ store, s.last = some store ∧ Fetched valid s.listings store
  inPlace : ¬ s.Swapping → s.current = s.last
  seen : ∀ store ∈ s.seen, store = s.last

/-- The process does not die, nobody looks, and a move back does not fail. -/
def Action.spares : Action β → Point β → Bool
  | .crash, _ => false
  | .look, _ => false
  | .next ok, .restoring => ok
  | _, _ => true

/-- While a store is moved aside, the swap is spared. -/
def Undisturbed (s : Refresh β) (a : Action β) : Prop := s.Swapping → a.spares s.point = true

instance (s : Refresh β) : Decidable s.Swapping :=
  match h : s.point with
  | .placing | .restoring =>
    decidable_of_iff (s.previous.isSome = true) (by simp [Refresh.Swapping, h])
  | .idle | .clearing _ | .making _ | .fetching _ | .checking | .retiring | .moving | .dropping
  | .cleaning => isFalse (by simp [Refresh.Swapping, h])

instance (s : Refresh β) (a : Action β) : Decidable (Undisturbed s a) :=
  inferInstanceAs (Decidable (_ → _))

/-! ## Where a refresh stands -/

/-- What is staged, and what is moved aside. -/
def Refresh.Stands (valid : Store β → Bool) (s : Refresh β) : Prop :=
  match s.point with
  | .fetching left => ∃ done store, s.listings.head? = some (done ++ left) ∧
      storeOf done = some store ∧ s.staging = some store
  | .checking => ∃ objects store, s.listings.head? = some objects ∧ storeOf objects = some store ∧
      s.staging = some store
  | .retiring => ∃ store, s.staging = some store ∧ Fetched valid s.listings store
  | .moving => (∃ store, s.staging = some store ∧ Fetched valid s.listings store) ∧
      s.previous = none
  | .placing | .restoring => (∃ store, s.staging = some store ∧ Fetched valid s.listings store) ∧
      s.current = none ∧ s.previous = s.last.map some
  | .clearing objects | .making objects => s.listings.head? = some objects
  | _ => True

variable {valid : Store β → Bool} {first : Option (Store β)} {s t : Refresh β}

theorem storeOf_concat {done : List (Text × β)} {object : Text × β} {store store' : Store β}
    (h : storeOf done = some store) (hadd : addObject store object = some store') :
    storeOf (done ++ [object]) = some store' := by
  rw [storeOf, List.foldlM_append]
  rw [storeOf] at h
  rw [h]
  simpa using hadd

theorem mem_of_head? {α : Type u} {l : List α} {a : α} (h : l.head? = some a) : a ∈ l :=
  List.mem_of_mem_head? h

/-- An operation leaves the refresh where it should stand. -/
theorem Refresh.Stands.next {ok : Bool} (h : s.Stands valid) (hserved : Served valid first s)
    (hnext : s.next valid ok = some t) : t.Stands valid := by
  have hplace := hserved.inPlace
  obtain ⟨point, listings, current, previous, staging, last, seen⟩ := s
  cases point with
  | idle => cases hnext
  | clearing objects =>
    simp only [Refresh.next] at hnext
    split at hnext
    · cases hnext
      exact h
    · split at hnext <;> cases hnext
      · exact h
      · trivial
  | making objects =>
    simp only [Refresh.next] at hnext
    split at hnext <;> cases hnext
    · exact ⟨[], [], h, rfl, rfl⟩
    · trivial
  | fetching left =>
    obtain ⟨done, store, hlisting, hstore, rfl⟩ := h
    cases left with
    | nil =>
      simp only [Refresh.next, Option.some.injEq] at hnext
      subst hnext
      cases ok with
      | true => exact ⟨done, store, by simpa using hlisting, hstore, rfl⟩
      | false => trivial
    | cons object left =>
      simp only [Refresh.next, Option.getD_some] at hnext
      split at hnext
      · next store' hadd =>
        cases hnext
        cases ok with
        | false => cases hadd
        | true => exact ⟨done ++ [object], store', by simpa using hlisting,
            storeOf_concat hstore hadd, rfl⟩
      · cases hnext
        trivial
  | checking =>
    obtain ⟨objects, store, hlisting, hstore, rfl⟩ := h
    simp only [Refresh.next, Option.getD_some, Option.some.injEq] at hnext
    subst hnext
    split
    · next hcheck =>
      simp only [Bool.and_eq_true, decide_eq_true_eq] at hcheck
      exact ⟨store, rfl, hcheck.1.2, hcheck.2, objects, mem_of_head? hlisting, hstore⟩
    · trivial
  | retiring =>
    simp only [Refresh.next] at hnext
    split at hnext <;> cases hnext
    · exact ⟨h, rfl⟩
    · trivial
  | moving =>
    simp only [Refresh.next] at hnext
    split at hnext <;> cases hnext
    · have hcurrent : current = last := hplace id
      exact ⟨h.1, rfl, by rw [hcurrent]⟩
    · trivial
  | placing =>
    simp only [Refresh.next] at hnext
    split at hnext <;> cases hnext
    · trivial
    · exact h
  | restoring =>
    simp only [Refresh.next] at hnext
    split at hnext
    · split at hnext <;> cases hnext <;> trivial
    · cases hnext
      trivial
  | dropping =>
    cases hnext
    trivial
  | cleaning =>
    cases hnext
    trivial

/-- Listings are only added. -/
theorem Fetched.mono {listings : List (List (Text × β))} {objects : List (Text × β)}
    {store : Store β} (h : Fetched valid listings store) :
    Fetched valid (objects :: listings) store := by
  obtain ⟨hne, hvalid, found, hfound, hstore⟩ := h
  exact ⟨hne, hvalid, found, List.mem_cons_of_mem _ hfound, hstore⟩

/-- The next operation is a rename of the services directory. -/
def Refresh.Renaming (s : Refresh β) : Prop :=
  match s.point with
  | .moving | .placing | .restoring => True
  | _ => False

theorem not_swapping_of_not_renaming (h : ¬ s.Renaming) : ¬ s.Swapping := by
  intro hswapping
  unfold Refresh.Swapping at hswapping
  split at hswapping <;> simp_all [Refresh.Renaming]

theorem next_last {ok : Bool} (hnext : s.next valid ok = some t) :
    t.listings = s.listings ∧ t.seen = s.seen := by
  unfold Refresh.next at hnext
  split at hnext
  all_goals first
    | cases hnext <;> exact ⟨rfl, rfl⟩
    | split at hnext <;> first
      | cases hnext <;> exact ⟨rfl, rfl⟩
      | split at hnext <;> cases hnext <;> exact ⟨rfl, rfl⟩

/-- Other operations leave the services directory alone. -/
theorem next_frame {ok : Bool} (h : ¬ s.Renaming) (hnext : s.next valid ok = some t) :
    t.current = s.current ∧ t.last = s.last := by
  unfold Refresh.next at hnext
  unfold Refresh.Renaming at h
  split at hnext
  case h_8 hpoint => rw [hpoint] at h; exact absurd trivial h
  case h_9 hpoint => rw [hpoint] at h; exact absurd trivial h
  case h_10 hpoint => rw [hpoint] at h; exact absurd trivial h
  all_goals first
    | cases hnext <;> exact ⟨rfl, rfl⟩
    | split at hnext <;> first
      | cases hnext <;> exact ⟨rfl, rfl⟩
      | split at hnext <;> cases hnext <;> exact ⟨rfl, rfl⟩

/-- An operation keeps the store in place exactly where it does not fail to move it back. -/
theorem served_next_iff {ok : Bool} (h : s.Stands valid) (hserved : Served valid first s)
    (hseen : s.seen = none) (hnext : s.next valid ok = some t) :
    Served valid first t ↔ Undisturbed s (.next ok) := by
  obtain ⟨horigin, hplace, -⟩ := hserved
  obtain ⟨hlistings, hseen'⟩ := next_last hnext
  rw [hseen] at hseen'
  have hquiet : t.last = s.last →
      (Served valid first t ↔ (¬ t.Swapping → t.current = t.last)) := by
    intro hlast
    refine ⟨fun hserved => hserved.inPlace, fun hplace => ⟨?_, hplace, ?_⟩⟩
    · rw [hlast, hlistings]
      exact horigin
    · rw [hseen']
      nofun
  by_cases hrenaming : s.Renaming
  · obtain ⟨point, listings, current, previous, staging, last, seen⟩ := s
    cases point with
    | moving =>
      have hcurrent : current = last := hplace id
      cases ok with
      | false =>
        cases hnext
        exact (hquiet rfl).trans ⟨fun _ hf => hf.elim, fun _ _ => hcurrent⟩
      | true =>
        cases hnext
        refine (hquiet rfl).trans ⟨fun _ hf => hf.elim, fun _ hswapping => ?_⟩
        -- nothing was moved aside, as there was no store
        subst hcurrent
        cases current with
        | none => rfl
        | some store => exact absurd rfl hswapping
    | placing =>
      obtain ⟨⟨store, rfl, hfetched⟩, hcurrent, hprevious⟩ := h
      cases ok with
      | false =>
        cases hnext
        refine (hquiet rfl).trans ⟨fun _ _ => rfl, fun _ hswapping => ?_⟩
        obtain rfl : current = none := hcurrent
        obtain rfl : previous = last.map some := hprevious
        cases last with
        | none => rfl
        | some store => exact absurd rfl hswapping
      | true =>
        cases hnext
        refine ⟨fun _ _ => rfl, fun _ => ⟨.inr ⟨store, rfl, hfetched⟩, fun _ => rfl, ?_⟩⟩
        rw [hseen']
        nofun
    | restoring =>
      obtain ⟨-, hcurrent, hprevious⟩ := h
      obtain rfl : current = none := hcurrent
      obtain rfl : previous = last.map some := hprevious
      cases last with
      | none =>
        cases hnext
        exact (hquiet rfl).trans ⟨fun _ hf => absurd hf Bool.false_ne_true, fun _ _ => rfl⟩
      | some store =>
        cases ok with
        | true =>
          cases hnext
          exact (hquiet rfl).trans ⟨fun _ _ => rfl, fun _ _ => rfl⟩
        | false =>
          cases hnext
          refine (hquiet rfl).trans ⟨fun hlost => ?_, fun hundisturbed => ?_⟩
          · exact absurd (hlost id) nofun
          · exact absurd (hundisturbed rfl) Bool.false_ne_true
    | _ => exact hrenaming.elim
  · have hstill := not_swapping_of_not_renaming hrenaming
    obtain ⟨hcurrent, hlast⟩ := next_frame hrenaming hnext
    refine (hquiet hlast).trans ⟨fun _ hswapping => (hstill hswapping).elim, fun _ _ => ?_⟩
    rw [hcurrent, hlast]
    exact hplace hstill

/-! ## A run -/

/-- While it is moved aside, the store that serves is not in place. -/
theorem lost_of_swapping (h : s.Stands valid) (hswapping : s.Swapping) :
    s.current = none ∧ s.last ≠ none := by
  obtain ⟨point, listings, current, previous, staging, last, seen⟩ := s
  have haside : current = none ∧ previous = last.map some ∧ previous.isSome := by
    cases point with
    | placing => exact ⟨h.2.1, h.2.2, hswapping⟩
    | restoring => exact ⟨h.2.1, h.2.2, hswapping⟩
    | _ => exact hswapping.elim
  refine ⟨haside.1, ?_⟩
  rintro rfl
  rw [haside.2.1] at haside
  exact absurd haside.2.2 Bool.false_ne_true

theorem stands_step {a : Action β} (h : s.Stands valid) (hserved : Served valid first s)
    (hstep : s.step valid a = some t) : t.Stands valid := by
  cases a with
  | begin objects =>
    simp only [Refresh.step] at hstep
    split at hstep <;> cases hstep
    rfl
  | next ok =>
    have hserved' : Served valid first ({ s with seen := none } : Refresh β) :=
      ⟨hserved.origin, hserved.inPlace, nofun⟩
    exact Refresh.Stands.next (s := { s with seen := none }) h hserved' hstep
  | crash =>
    cases hstep
    trivial
  | look =>
    cases hstep
    exact h

theorem served_step_iff {a : Action β} (h : s.Stands valid) (hserved : Served valid first s)
    (hstep : s.step valid a = some t) : Served valid first t ↔ Undisturbed s a := by
  have hplace := hserved.inPlace
  cases a with
  | begin objects =>
    simp only [Refresh.step] at hstep
    split at hstep <;> cases hstep
    next hidle =>
      have hstill : ¬ s.Swapping := by
        unfold Refresh.Swapping
        rw [hidle]
        exact id
      refine ⟨fun _ hswapping => (hstill hswapping).elim, fun _ => ⟨?_, fun _ => hplace hstill, nofun⟩⟩
      exact hserved.origin.imp_right fun ⟨store, hlast, hfetched⟩ => ⟨store, hlast, hfetched.mono⟩
  | next ok =>
    have hserved' : Served valid first ({ s with seen := none } : Refresh β) :=
      ⟨hserved.origin, hplace, nofun⟩
    exact served_next_iff (s := { s with seen := none }) h hserved' rfl hstep
  | crash =>
    cases hstep
    constructor
    · intro hserved hswapping
      obtain ⟨hcurrent, hlast⟩ := lost_of_swapping h hswapping
      exact absurd ((hserved.inPlace id).symm.trans hcurrent) hlast
    · intro hundisturbed
      by_cases hswapping : s.Swapping
      · exact absurd (hundisturbed hswapping) Bool.false_ne_true
      · exact ⟨hserved.origin, fun _ => hplace hswapping, nofun⟩
  | look =>
    cases hstep
    constructor
    · intro hserved hswapping
      obtain ⟨hcurrent, hlast⟩ := lost_of_swapping h hswapping
      exact absurd ((hserved.seen _ rfl).symm.trans hcurrent) hlast
    · intro hundisturbed
      by_cases hswapping : s.Swapping
      · exact absurd (hundisturbed hswapping) Bool.false_ne_true
      · refine ⟨hserved.origin, hplace, ?_⟩
        rintro _ ⟨⟩
        exact hplace hswapping

/-- **In a run every reader sees the old store or the new one exactly where no swap is disturbed.** -/
theorem served_iff_undisturbed {as : List (Action β)} (hstart : (refreshing valid).start s)
    (hrun : (refreshing valid).run s as = some t) :
    (refreshing valid).Always (Served valid s.last) s as ↔
      (refreshing valid).Meets Undisturbed s as := by
  obtain ⟨hidle, -, hplace, hseen⟩ := hstart
  have hstands : s.Stands valid := by
    unfold Refresh.Stands
    rw [hidle]
    trivial
  have hserved : Served valid s.last s := ⟨.inl rfl, fun _ => hplace, by rw [hseen]; nofun⟩
  exact Machine.always_iff_meets (I := Refresh.Stands valid)
    (fun _ _ _ h hs _ => stands_step h hs) (fun _ _ _ => served_step_iff) hstands hserved hrun

end

/-! ## A process that dies -/

/-- One file serves, and no refresh has begun. -/
def oldStore : Refresh ℕ where
  point := .idle
  listings := []
  current := some [("upi".toList, 1)]
  previous := none
  staging := none
  last := some [("upi".toList, 1)]
  seen := none

def newListing : List (Text × ℕ) := [("services/upi.json".toList, 2)]

/-- The operations of a refresh up to its second rename. -/
def upToPlacing : List (Action ℕ) := .begin newListing :: List.replicate 7 (.next true)

/-- The process does not live to see the second rename; a reader finds nothing when the next refresh
could not read the bucket, and one that could removes the old store before it has the new one. -/
theorem crash_loses_store :
    (refreshing fun _ : Store ℕ => true).start oldStore ∧
      ¬ (refreshing fun _ => true).Always (Served (fun _ => true) oldStore.last) oldStore
        (upToPlacing ++ [.crash]) ∧
      ((refreshing fun _ => true).run oldStore (upToPlacing ++ [.crash, .begin newListing,
        .next true, .next true, .next false, .next true, .look])).map (·.seen) = some (some none) ∧
      ((refreshing fun _ => true).run oldStore (upToPlacing ++ .crash :: upToPlacing.dropLast)).map
        (fun s => s.current.isNone && s.previous.isNone) = some true := by
  refine ⟨⟨rfl, rfl, rfl, rfl⟩, fun halways => ?_, by decide, by decide⟩
  have hrun := (served_iff_undisturbed (s := oldStore) ⟨rfl, rfl, rfl, rfl⟩ rfl).1 halways
  exact absurd hrun (by decide)

/-- A refresh whose second rename raises, with readers before and after it. -/
theorem failed_rename_serves :
    (refreshing fun _ => true).Always (Served (fun _ : Store ℕ => true) oldStore.last) oldStore
      (.look :: upToPlacing ++ [.next false, .next true, .look, .next true]) :=
  (served_iff_undisturbed ⟨rfl, rfl, rfl, rfl⟩ rfl).2 (by decide)

end ResidentCrm.Docs
