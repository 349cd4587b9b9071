import ResidentCrm.Dlt.GroupCalls
import Mathlib.Data.List.GetD

/-!
# A process reads its own writes

`load_group` and the writes of one process, one operation on the storage or the cache at a time. A
write puts its objects, drops the cached group, and reads the group back. A load reads the objects
one after another, and fills the cache last.

The store is the sequence of the objects put so far. What a load has read of each kind of object is
what a first stretch of them leaves, and it reflects a put that lies in this stretch. Every load
reflects the writes that had returned when it started, as long as none fills the cache with a group
that misses a write whose cached group is dropped already (`own_writes_seen`).
-/

namespace ResidentCrm.Dlt.GroupStore

open CreateOnly

universe u v w

/-- The kinds of objects of a fingerprint, in the order in which a load reads them. -/
inductive Part where
  | occurrences
  | checks
  | metaDoc
  | recommendation
  | codeCheck
  | legacy
deriving DecidableEq, Repr

def Part.index : Part → ℕ
  | .occurrences => 0
  | .checks => 1
  | .metaDoc => 2
  | .recommendation => 3
  | .codeCheck => 4
  | .legacy => 5

theorem Part.index_lt (p : Part) : p.index < 6 := by cases p <;> decide

variable {T : Type u} {F : Type v} {K : Type w}

/-- The kind of object that an operation puts. -/
def Stage.part : Stage T F K → Option Part
  | .create _ => some .occurrences
  | .loadMeta _ => none
  | .saveMeta .. => some .metaDoc
  | .saveRecommendation _ => some .recommendation
  | .saveCheck _ => some .codeCheck
  | .createCheck .. => some .checks

/-- How many puts the store had seen when each kind of object was read. -/
abbrev View := Part → ℕ

/-- The view of a load that read the kinds one after another. -/
def viewOf (seen : List ℕ) : View := fun p => seen.getD p.index 0

/-- A call under way. A write holds the puts it has made, by their places in the store; a load the
writes that had returned when it started, and, where it is the reading back of a write, its puts. -/
inductive Running (T : Type u) (F : Type v) (K : Type w) where
  | writing (stage : Stage T F K) (wrote : List ℕ)
  | invalidating (wrote : List ℕ)
  | reloading (wrote : List ℕ)
  | reading (need seen wrote : List ℕ)

/-- A load that has returned. -/
structure Loaded where
  need : List ℕ
  view : View

/-- One process and the store. `due` are the puts of the writes that have dropped the cached group,
`returned` those of the writes that have returned. -/
structure Process (T : Type u) (F : Type v) (K : Type w) where
  initial : Files T F K
  puts : List (Stage T F K) := []
  cache : Option (T × View) := none
  calls : List (Running T F K) := []
  due : List ℕ := []
  returned : List ℕ := []
  loads : List Loaded := []

inductive ProcessAct (T : Type u) (F : Type v) (K : Type w) where
  | call (c : Call T F K)
  | load (now : T)
  | advance (i : ℕ) (now : T)

section

variable [Zero T] [DecidableEq T]

/-- The objects after the first `n` puts. -/
def Process.filesAt (s : Process T F K) (n : ℕ) : Files T F K :=
  (s.puts.take n).foldl (fun p stage => (stage.run p).1) s.initial

def Process.files (s : Process T F K) : Files T F K := s.filesAt s.puts.length

/-- The objects as a view has them. -/
def Process.viewed (s : Process T F K) (v : View) : Files T F K where
  occurrences := (s.filesAt (v .occurrences)).occurrences
  checks := (s.filesAt (v .checks)).checks
  metaDoc := (s.filesAt (v .metaDoc)).metaDoc
  recommendation := (s.filesAt (v .recommendation)).recommendation
  codeCheck := (s.filesAt (v .codeCheck)).codeCheck
  legacy := (s.filesAt (v .legacy)).legacy

end

section

variable [LinearOrder T] [Sub T] [Zero T] (ttl : T)

def Process.cacheGet (s : Process T F K) (now : T) : Option View :=
  (s.cache.filter fun entry => now - entry.1 < ttl).map Prod.snd

/-- The next step of a call: the process, and the call if it has not returned. -/
def Process.proceed (s : Process T F K) (now : T) :
    Running T F K → Process T F K × Option (Running T F K)
  | .writing stage wrote =>
    let wrote' := if stage.part.isSome then s.puts.length :: wrote else wrote
    ({ s with puts := if stage.part.isSome then s.puts ++ [stage] else s.puts },
      some <| (stage.run s.files).2.elim (.invalidating wrote') (.writing · wrote'))
  | .invalidating wrote =>
    ({ s with cache := none, due := wrote ++ s.due }, some (.reloading wrote))
  | .reloading wrote =>
    match s.cacheGet ttl now with
    | some v =>
      ({ s with loads := ⟨s.returned, v⟩ :: s.loads, returned := wrote ++ s.returned }, none)
    | none => (s, some (.reading s.returned [] wrote))
  | .reading need seen wrote =>
    if seen.length < 6 then (s, some (.reading need (seen ++ [s.puts.length]) wrote))
    else
      ({ s with
          cache := some (now, viewOf seen)
          loads := ⟨need, viewOf seen⟩ :: s.loads
          returned := wrote ++ s.returned }, none)

/-- A load that is no reading back starts as the reading back of nothing. -/
def groupProcess (F : Type v) (K : Type w) : Machine (Process T F K) (ProcessAct T F K) where
  start s := s.puts = [] ∧ s.cache = none ∧ s.calls = [] ∧ s.due = [] ∧ s.returned = [] ∧
    s.loads = []
  step s
    | .call c => some { s with calls := s.calls ++ [.writing c.first []] }
    | .load now =>
      let (s', next) := s.proceed ttl now (.reloading [])
      some { s' with calls := s.calls ++ next.toList }
    | .advance i now => s.calls[i]?.map fun call =>
      let (s', next) := s.proceed ttl now call
      { s' with calls := resume s.calls i next }

end

/-- The view has every put. -/
def View.Covers (v : View) (puts : List (Stage T F K)) (places : List ℕ) : Prop :=
  ∀ i ∈ places, ∀ stage ∈ puts[i]?, ∀ p ∈ stage.part, i < v p

/-- A call fills the cache with nothing that misses a put whose cached group is dropped already. -/
def Process.Timely (s : Process T F K) : ProcessAct T F K → Prop
  | .advance i _ => ∀ need seen wrote, s.calls[i]? = some (.reading need seen wrote) →
      seen.length = 6 → (viewOf seen).Covers s.puts s.due
  | _ => True

def Process.isTimely (s : Process T F K) : ProcessAct T F K → Bool
  | .advance i _ => match s.calls[i]? with
    | some (.reading _ seen _) => seen.length < 6 || s.due.all fun j =>
      ((s.puts[j]?).bind Stage.part).all fun p => j < viewOf seen p
    | _ => true
  | _ => true

theorem Process.timely_of_isTimely {s : Process T F K} {a : ProcessAct T F K}
    (h : s.isTimely a = true) : s.Timely a := by
  cases a with
  | advance i now =>
    intro need seen wrote hcall hall j hj stage hstage p hp
    simp only [isTimely, hcall, hall, lt_irrefl, decide_false, Bool.false_or,
      List.all_eq_true] at h
    have hplace := h j hj
    rw [Option.mem_def.1 hstage, Option.bind_some, Option.mem_def.1 hp] at hplace
    simpa using hplace
  | call c => trivial
  | load now => trivial

/-! ## The invariant -/

/-- What a call under way holds, with `n` puts in the store. -/
def Running.Coherent (n : ℕ) (due : List ℕ) : Running T F K → Prop
  | .writing _ wrote | .invalidating wrote => ∀ i ∈ wrote, i < n
  | .reloading wrote => wrote ⊆ due
  | .reading need seen wrote => wrote ⊆ due ∧ seen.length ≤ 6 ∧ (∀ i ∈ need, i < n) ∧
      ∀ m ∈ seen, ∀ i ∈ need, i < m

/-- The cached group has every put whose write has dropped the cache, and a load those that it
needs. -/
structure Process.Coherent (s : Process T F K) : Prop where
  cached : ∀ e ∈ s.cache, e.2.Covers s.puts s.due
  placed : ∀ i ∈ s.due, i < s.puts.length
  returned : s.returned ⊆ s.due
  calls : ∀ c ∈ s.calls, c.Coherent s.puts.length s.due
  loads : ∀ l ∈ s.loads, (∀ i ∈ l.need, i < s.puts.length) ∧ l.view.Covers s.puts l.need

section

variable {v : View} {puts new : List (Stage T F K)} {places places' : List ℕ} {n n' : ℕ}
  {due due' : List ℕ}

theorem View.Covers.mono (h : v.Covers puts places) (hsub : places' ⊆ places) :
    v.Covers puts places' := fun i hi => h i (hsub hi)

theorem View.Covers.append (h : v.Covers puts places) (hplaced : ∀ i ∈ places, i < puts.length) :
    v.Covers (puts ++ new) places := by
  intro i hi stage hstage
  rw [List.getElem?_append_left (hplaced i hi)] at hstage
  exact h i hi stage hstage

/-- A load that has read every kind has the puts that were there before it began. -/
theorem covers_viewOf {seen : List ℕ} (hall : seen.length = 6)
    (hseen : ∀ m ∈ seen, ∀ i ∈ places, i < m) : (viewOf seen).Covers puts places := by
  intro i hi stage _ p _
  have hlt : p.index < seen.length := by
    rw [hall]
    exact p.index_lt
  have hmem : viewOf seen p ∈ seen := by
    rw [viewOf, List.getD_eq_getElem _ _ hlt]
    exact List.getElem_mem hlt
  exact hseen _ hmem i hi

theorem Running.Coherent.mono {c : Running T F K} (h : c.Coherent n due) (hn : n ≤ n')
    (hdue : due ⊆ due') : c.Coherent n' due' := by
  cases c with
  | writing stage wrote => exact fun i hi => (h i hi).trans_le hn
  | invalidating wrote => exact fun i hi => (h i hi).trans_le hn
  | reloading wrote => exact List.Subset.trans h hdue
  | reading need seen wrote =>
    obtain ⟨hwrote, hlength, hneed, hseen⟩ := h
    exact ⟨List.Subset.trans hwrote hdue, hlength, fun i hi => (hneed i hi).trans_le hn, hseen⟩

end

section

variable [LinearOrder T] [Sub T] [Zero T] {ttl now : T} {s t : Process T F K}
  {a : ProcessAct T F K} {call : Running T F K} {v : View}

omit [Zero T] in
theorem covers_of_cacheGet (hs : s.Coherent) (h : s.cacheGet ttl now = some v) :
    v.Covers s.puts s.due := by
  obtain ⟨entry, hentry, rfl⟩ := Option.map_eq_some_iff.1 h
  exact hs.cached entry (Option.filter_eq_some_iff.1 hentry).1

omit [LinearOrder T] [Sub T] [Zero T] in
/-- What is put has the next places. -/
theorem Process.Coherent.put (hs : s.Coherent) (new : List (Stage T F K)) :
    { s with puts := s.puts ++ new }.Coherent := by
  have hle : s.puts.length ≤ (s.puts ++ new).length := by
    rw [List.length_append]
    exact Nat.le_add_right _ _
  refine ⟨fun e he => (hs.cached e he).append hs.placed, fun i hi => ?_, hs.returned,
    fun c hc => (hs.calls c hc).mono hle (List.Subset.refl _), fun l hl => ⟨fun i hi => ?_, ?_⟩⟩
  · exact (hs.placed i hi).trans_le hle
  · exact ((hs.loads l hl).1 i hi).trans_le hle
  · exact (hs.loads l hl).2.append (hs.loads l hl).1

variable (ttl now call) in
/-- The next step of a call. -/
theorem proceed_spec (hs : s.Coherent) (hcall : call.Coherent s.puts.length s.due)
    (htimely : ∀ need seen wrote, call = .reading need seen wrote → seen.length = 6 →
      (viewOf seen).Covers s.puts s.due) :
    (s.proceed ttl now call).1.Coherent ∧ (s.proceed ttl now call).1.calls = s.calls ∧
      ∀ next ∈ (s.proceed ttl now call).2, next.Coherent
        (s.proceed ttl now call).1.puts.length (s.proceed ttl now call).1.due := by
  cases call with
  | writing stage wrote =>
    have hnext : ∀ (n : ℕ) (wrote' : List ℕ), (∀ i ∈ wrote', i < n) →
        ((stage.run s.files).2.elim (Running.invalidating wrote')
          (Running.writing · wrote')).Coherent n s.due := by
      intro n wrote' hplaced
      cases (stage.run s.files).2 <;> exact hplaced
    cases hpart : stage.part with
    | none =>
      simp only [Process.proceed, hpart, Option.isSome_none, Bool.false_eq_true, if_false]
      refine ⟨hs, trivial, ?_⟩
      rintro next ⟨⟩
      exact hnext _ _ hcall
    | some p =>
      simp only [Process.proceed, hpart, Option.isSome_some, if_true]
      refine ⟨hs.put [stage], trivial, ?_⟩
      rintro next ⟨⟩
      refine hnext _ _ fun i hi => ?_
      rw [List.length_append, List.length_singleton]
      rcases List.mem_cons.1 hi with rfl | hi
      · exact Nat.lt_succ_self _
      · exact (hcall i hi).trans (Nat.lt_succ_self _)
  | invalidating wrote =>
    have hsub : s.due ⊆ wrote ++ s.due := List.subset_append_right _ _
    refine ⟨⟨nofun, fun i hi => ?_, List.Subset.trans hs.returned hsub,
      fun c hc => (hs.calls c hc).mono le_rfl hsub, hs.loads⟩, rfl, ?_⟩
    · rcases List.mem_append.1 hi with hi | hi
      · exact hcall i hi
      · exact hs.placed i hi
    · rintro next ⟨⟩
      exact List.subset_append_left _ _
  | reloading wrote =>
    have hplaced : ∀ i ∈ s.returned, i < s.puts.length := fun i hi => hs.placed i (hs.returned hi)
    unfold Process.proceed
    cases hcache : s.cacheGet ttl now with
    | some v =>
      refine ⟨⟨hs.cached, hs.placed, List.append_subset.2 ⟨hcall, hs.returned⟩, hs.calls, ?_⟩, rfl,
        nofun⟩
      intro l hl
      rcases List.mem_cons.1 hl with rfl | hl
      · exact ⟨hplaced, (covers_of_cacheGet hs hcache).mono hs.returned⟩
      · exact hs.loads l hl
    | none =>
      refine ⟨hs, rfl, ?_⟩
      rintro next ⟨⟩
      exact ⟨hcall, Nat.zero_le _, hplaced, nofun⟩
  | reading need seen wrote =>
    obtain ⟨hwrote, hlength, hneed, hseen⟩ := hcall
    unfold Process.proceed
    by_cases hmore : seen.length < 6
    · simp only [if_pos hmore]
      refine ⟨hs, trivial, ?_⟩
      rintro next ⟨⟩
      refine ⟨hwrote, ?_, hneed, fun m hm i hi => ?_⟩
      · rw [List.length_append, List.length_singleton]
        exact hmore
      · rcases List.mem_append.1 hm with hm | hm
        · exact hseen m hm i hi
        · rw [List.mem_singleton.1 hm]
          exact hneed i hi
    · simp only [if_neg hmore]
      have hall : seen.length = 6 := by omega
      refine ⟨⟨?_, hs.placed, List.append_subset.2 ⟨hwrote, hs.returned⟩, hs.calls, ?_⟩, trivial,
        nofun⟩
      · rintro e ⟨⟩
        exact htimely need seen wrote rfl hall
      · intro l hl
        rcases List.mem_cons.1 hl with rfl | hl
        · exact ⟨hneed, covers_viewOf hall hseen⟩
        · exact hs.loads l hl

theorem coherent_step (hs : s.Coherent) (hC : s.Timely a)
    (h : (groupProcess ttl F K).step s a = some t) : t.Coherent := by
  have hset : ∀ {u : Process T F K} {calls : List (Running T F K)}, u.Coherent →
      (∀ c ∈ calls, c.Coherent u.puts.length u.due) → { u with calls }.Coherent :=
    fun hu hcalls => ⟨hu.cached, hu.placed, hu.returned, hcalls, hu.loads⟩
  cases a with
  | call c =>
    obtain rfl := Option.some.inj h
    refine hset hs fun c' hc' => ?_
    rcases List.mem_append.1 hc' with hc' | hc'
    · exact hs.calls c' hc'
    · rw [List.mem_singleton.1 hc']
      exact nofun
  | load now =>
    obtain rfl := Option.some.inj h
    obtain ⟨hnext, hcalls, hcall⟩ := proceed_spec ttl now (.reloading []) hs
      (List.nil_subset _) nofun
    refine hset hnext fun c hc => ?_
    rcases List.mem_append.1 hc with hc | hc
    · rw [← hcalls] at hc
      exact hnext.calls c hc
    · exact hcall c (Option.mem_toList.1 hc)
  | advance i now =>
    obtain ⟨call, hget, rfl⟩ := Option.map_eq_some_iff.1 h
    obtain ⟨hi, -⟩ := List.getElem?_eq_some_iff.1 hget
    obtain ⟨hnext, hcalls, hcall⟩ := proceed_spec ttl now call hs
      (hs.calls call (List.mem_of_getElem? hget)) fun need seen wrote heq hall =>
        hC need seen wrote (by rw [hget, heq]) hall
    refine hset hnext fun c hc => ?_
    rcases List.mem_append.1 ((resume_perm hi _).subset hc) with hc | hc
    · exact hcall c (Option.mem_toList.1 hc)
    · rw [← hcalls] at hc
      exact hnext.calls c (List.mem_of_mem_eraseIdx hc)

theorem coherent_of_reach (hs : (groupProcess ttl F K).Reach Process.Timely s) : s.Coherent := by
  refine hs.invariant (fun s hstart => ?_) fun s a t hs hC h => coherent_step hs hC h
  obtain ⟨hputs, hcache, hcalls, hdue, hreturned, hloads⟩ := hstart
  refine ⟨?_, ?_, ?_, ?_, ?_⟩
  · rw [hcache]
    exact nofun
  · rw [hdue]
    exact nofun
  · rw [hreturned]
    exact List.nil_subset _
  · rw [hcalls]
    exact nofun
  · rw [hloads]
    exact nofun

end

/-! ## What a load shows -/

/-- The objects show a put: the record created under its name, or the document saved, by this put or
by one of those after it. -/
def Files.Shows (p : Files T F K) (after : List (Stage T F K)) : Stage T F K → Prop
  | .create c => c.record.caseId ∈ keys Occurrence.key p.occurrences
  | .loadMeta _ => True
  | .saveMeta .. => p.metaDoc.isSome
  | .saveRecommendation doc => ∃ doc', p.recommendation = some doc' ∧
      (doc' = doc ∨ .saveRecommendation doc' ∈ after)
  | .saveCheck c => ∃ c', p.codeCheck = some c'.record ∧ (c' = c ∨ .saveCheck c' ∈ after)
  | .createCheck _ entry => entry ∈ p.checks ∨ ∃ k ∈ entry.key, k ∈ keys CheckEntry.key p.checks

section

variable [Zero T] [DecidableEq T] {s : Process T F K} {p : Files T F K}
  {stage stage' : Stage T F K} {after : List (Stage T F K)} {i n : ℕ}

theorem mem_keys_insertNew {α κ : Type*} [DecidableEq κ] {key : α → Option κ} {l : List α} {a : α}
    {k : κ} (h : k ∈ keys key l) : k ∈ keys key (insertNew key l a) := by
  obtain ⟨b, hb, hk⟩ := mem_keys.1 h
  exact mem_keys.2 ⟨b, mem_insertNew_of_mem hb, hk⟩

theorem shows_run_self (stage : Stage T F K) (p : Files T F K) (after : List (Stage T F K)) :
    (stage.run p).1.Shows after stage := by
  cases stage with
  | create c =>
    rcases insertNew_cases Occurrence.key p.occurrences c.record with
      ⟨k, hk, hkey, heq⟩ | ⟨-, heq⟩ <;> simp only [Stage.run, Files.Shows, heq]
    · obtain rfl : c.record.caseId = k := Option.some.inj hkey
      exact hk
    · exact mem_keys.2 ⟨c.record, List.mem_append_right _ (List.mem_singleton_self _), rfl⟩
  | loadMeta c => trivial
  | saveMeta c existing => rfl
  | saveRecommendation doc => exact ⟨doc, rfl, .inl rfl⟩
  | saveCheck c => exact ⟨c, rfl, .inl rfl⟩
  | createCheck c entry =>
    rcases insertNew_cases CheckEntry.key p.checks entry with
      ⟨k, hk, hkey, heq⟩ | ⟨-, heq⟩ <;> simp only [Stage.run, Files.Shows, heq]
    · exact .inr ⟨k, hkey, hk⟩
    · exact .inl (List.mem_append_right _ (List.mem_singleton_self _))

theorem shows_run (h : p.Shows after stage) (hmem : stage' ∈ after) :
    (stage'.run p).1.Shows after stage := by
  cases stage with
  | create c =>
    cases stage' with
    | create c' => exact mem_keys_insertNew h
    | _ => exact h
  | loadMeta c => trivial
  | saveMeta c existing =>
    cases stage' with
    | saveMeta c' existing' => rfl
    | _ => exact h
  | saveRecommendation doc =>
    cases stage' with
    | saveRecommendation doc' => exact ⟨doc', rfl, .inr hmem⟩
    | _ => exact h
  | saveCheck c =>
    cases stage' with
    | saveCheck c' => exact ⟨c', rfl, .inr hmem⟩
    | _ => exact h
  | createCheck c entry =>
    cases stage' with
    | createCheck c' entry' =>
      rcases h with h | ⟨k, hkey, hk⟩
      · exact .inl (mem_insertNew_of_mem h)
      · exact .inr ⟨k, hkey, mem_keys_insertNew hk⟩
    | _ => exact h

theorem filesAt_succ (s : Process T F K) (n : ℕ) :
    s.filesAt (n + 1) =
      (s.puts[n]?).elim (s.filesAt n) fun stage => (stage.run (s.filesAt n)).1 := by
  unfold Process.filesAt
  rw [List.take_add_one, List.foldl_append]
  cases s.puts[n]? <;> rfl

/-- After a put, every stretch of the store that has it shows it. -/
theorem shows_filesAt (hi : s.puts[i]? = some stage) (hn : i < n) :
    (s.filesAt n).Shows (s.puts.drop (i + 1)) stage := by
  induction n with
  | zero => exact absurd hn (Nat.not_lt_zero _)
  | succ n ih =>
    rw [filesAt_succ]
    rcases Nat.lt_succ_iff_lt_or_eq.1 hn with hlt | rfl
    · cases hput : s.puts[n]? with
      | none => exact ih hlt
      | some stage' =>
        refine shows_run (ih hlt) ?_
        refine List.mem_of_getElem? (i := n - (i + 1)) ?_
        rw [List.getElem?_drop, Nat.add_sub_cancel' hlt, hput]
    · rw [hi]
      exact shows_run_self ..

theorem shows_viewed {v : View} (hi : s.puts[i]? = some stage)
    (hv : ∀ p ∈ stage.part, i < v p) : (s.viewed v).Shows (s.puts.drop (i + 1)) stage := by
  cases stage with
  | loadMeta c => trivial
  | create c => exact shows_filesAt hi (hv _ rfl)
  | saveMeta c existing => exact shows_filesAt hi (hv _ rfl)
  | saveRecommendation doc => exact shows_filesAt hi (hv _ rfl)
  | saveCheck c => exact shows_filesAt hi (hv _ rfl)
  | createCheck c entry => exact shows_filesAt hi (hv _ rfl)

end

section

variable [LinearOrder T] [Sub T] [Zero T] {ttl : T} {s : Process T F K}

/-- The group that a load returned. -/
def Process.group (s : Process T F K) (l : Loaded) (cap : ℕ) (fingerprint : Text) :
    Option (GroupRecord T F K) := (s.viewed l.view).compose cap fingerprint

/-- **A load reflects the writes that had returned when it started**, in runs that fill the cache
with nothing older than what has been dropped from it; and after a recommendation was attached it
finds that one, or one attached since. -/
theorem own_writes_seen (hs : (groupProcess ttl F K).Reach Process.Timely s) {l : Loaded}
    (hl : l ∈ s.loads) : ∀ i ∈ l.need, ∀ stage ∈ s.puts[i]?,
      (∀ p ∈ stage.part, i < l.view p) ∧ (s.viewed l.view).Shows (s.puts.drop (i + 1)) stage ∧
      ∀ doc, stage = .saveRecommendation doc → ∃ doc' : RecommendationDoc F,
        (doc' = doc ∨ .saveRecommendation doc' ∈ s.puts.drop (i + 1)) ∧
        ∀ cap fingerprint, ∃ g ∈ s.group l cap fingerprint,
          g.recommendation = doc'.recommendation := by
  intro i hi stage hstage
  obtain ⟨-, hcovers⟩ := (coherent_of_reach hs).loads l hl
  have hshows := shows_viewed hstage (hcovers i hi stage hstage)
  refine ⟨hcovers i hi stage hstage, hshows, ?_⟩
  rintro doc rfl
  obtain ⟨doc', hdoc, hsince⟩ := hshows
  refine ⟨doc', hsince, fun cap fingerprint => ?_⟩
  have hblank : ¬ (s.viewed l.view).Blank := by
    rintro ⟨-, -, -, hnone, -, -⟩
    rw [hdoc] at hnone
    cases hnone
  obtain ⟨g, hg⟩ := Option.isSome_iff_exists.1
    (Files.compose_isSome (p := s.viewed l.view) hblank)
  obtain ⟨-, -, -, -, -, hrec⟩ := Files.of_compose hg
  refine ⟨g, hg, ?_⟩
  rw [hrec, Files.served, hdoc]
  rfl

end

/-! ## A slow reader -/

def leader : Call ℕ Text Unit :=
  .recommend ⟨some "restart".toList, "draft".toList, some "dlt-1".toList, none⟩

def oneCase : Process ℕ Text Unit where
  initial := { occurrences := [{ caseId := "dlt-1".toList, time := 1 }] }

/-- The leader's whole call, its reading back included. -/
def attaches (i : ℕ) : List (ProcessAct ℕ Text Unit) := List.replicate 10 (.advance i 0)

theorem own_writes_seen_leader : ∃ s : Process ℕ Text Unit, ∃ l ∈ s.loads, l.need = [0] ∧
    s.puts[0]? = some leader.first ∧ (s.viewed l.view).Shows [] leader.first := by
  obtain ⟨s, hs, htest⟩ := Machine.exists_reach_runWhere (M := groupProcess 5 Text Unit)
    (c := Process.isTimely) (fun _ _ => Process.timely_of_isTimely) (s := oneCase)
    ⟨rfl, rfl, rfl, rfl, rfl, rfl⟩ (.call leader :: attaches 0 ++ [.load 1])
    (fun s => s.puts.length = 1 ∧ s.puts[0]? = some leader.first ∧
      (s.loads.head?).map (·.need) = some [0]) (by decide)
  obtain ⟨hlength, hput, hhead⟩ := of_decide_eq_true htest
  obtain ⟨l, hl, hneed⟩ := Option.map_eq_some_iff.1 hhead
  have hmem : l ∈ s.loads := List.mem_of_mem_head? hl
  have hshows := (own_writes_seen hs hmem 0 (by simp [hneed]) leader.first hput).2.1
  rw [List.drop_eq_nil_of_le (by omega)] at hshows
  exact ⟨s, l, hmem, hneed, hput, hshows⟩

/-- A reader that read `recommendation.json` before the leader saved it fills the cache last; the
load after it finds no recommendation. -/
theorem waiter_finds_nothing : ∃ s : Process ℕ Text Unit, (groupProcess 5 Text Unit).Reachable s ∧
    ∃ l ∈ s.loads, 0 ∈ l.need ∧ s.puts[0]? = some leader.first ∧
      ∃ g ∈ s.group l 200 "fp".toList, g.recommendation = none := by
  obtain ⟨s, hs, htest⟩ := Machine.exists_reachable_run (M := groupProcess 5 Text Unit)
    (s := oneCase) ⟨rfl, rfl, rfl, rfl, rfl, rfl⟩
    (.load 0 :: List.replicate 4 (.advance 0 0) ++ .call leader :: attaches 1 ++
      List.replicate 3 (.advance 0 0) ++ [.load 1])
    (fun s => s.puts[0]? = some leader.first ∧ (s.loads.head?).map (fun l =>
      (l.need, (s.group l 200 "fp".toList).map (·.recommendation))) = some ([0], some none))
    (by decide)
  obtain ⟨hput, hhead⟩ := of_decide_eq_true htest
  obtain ⟨l, hl, hpair⟩ := Option.map_eq_some_iff.1 hhead
  obtain ⟨hneed, hgroup⟩ := Prod.mk.inj hpair
  obtain ⟨g, hg, hnone⟩ := Option.map_eq_some_iff.1 hgroup
  exact ⟨s, hs, l, List.mem_of_mem_head? hl, by simp [hneed], hput, g, hg, hnone⟩

end ResidentCrm.Dlt.GroupStore
