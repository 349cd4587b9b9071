import ResidentCrm.Logs.Reducer
import Mathlib.Order.Defs.LinearOrder

/-!
# The pages of an Elasticsearch fetch

`fetch_logs` of `log_pipeline/fetcher.py`, from its query on: the scan with `search_after`, newest
first, its three exits and the reversal. The search itself is a parameter, with what its
documentation says of it: the matching documents newest first, those after a place, so many of
them. Documents have distinct sort values and do not change under the scan.
-/

namespace ResidentCrm.Logs

universe u

/-- The `_source` of a hit: the fields that are asked for, and the whole as `str` shows it. -/
structure HitSource where
  timestamp : Option Text := none
  level : Option Text := none
  message : Option Text := none
  applicationName : Option Text := none
  str : Text := []

def HitSource.record (source : HitSource) : TraceRecord where
  timestamp := source.timestamp.getD "UNKNOWN_TIME".toList
  level := source.level.getD "INFO".toList
  message := source.message.getD source.str
  appName := source.applicationName.getD "unknown-service".toList

structure Hit (κ : Type u) where
  sort : κ
  source : HitSource

/-- What a fetch scans with: the search of its query, and its settings. -/
structure Scan (κ : Type u) where
  search : (size : ℕ) → (searchAfter : Option κ) → List (Hit κ)
  pageSize : ℕ := 500
  pageSize_pos : 0 < pageSize := by decide
  maxDocuments : ℤ := 50000

namespace Scan

variable {κ : Type u} (scan : Scan κ)

/-- The loop of `fetch_logs`: the records, newest first, and `truncated`. -/
def fetchPages : (fuel : ℕ) → (logs : List TraceRecord) → (searchAfterValues : Option κ) →
    Option (List TraceRecord × Bool)
  | 0, _, _ => none
  | fuel + 1, logs, searchAfterValues =>
    let hits := scan.search scan.pageSize searchAfterValues
    if hits.isEmpty then some (logs, false)
    else
      let logs := logs ++ hits.map (·.source.record)
      if scan.maxDocuments ≤ logs.length then some (pySlice logs 0 scan.maxDocuments, true)
      else if hits.length < scan.pageSize then some (logs, false)
      else fetchPages fuel logs (hits.getLast?.map Hit.sort)

/-- `fetch_logs`, with what it reports as `truncated`. -/
def fetchLogs (fuel : ℕ) : Option (List TraceRecord × Bool) :=
  (scan.fetchPages fuel [] none).map fun (logs, truncated) => (logs.reverse, truncated)

end Scan

/-- The documents that match. -/
structure Index (κ : Type u) where
  documents : List (Hit κ)
  distinct : (documents.map Hit.sort).Nodup

namespace Index

variable {κ : Type u} [LinearOrder κ] (index : Index κ)

def newest : List (Hit κ) := index.documents.mergeSort fun a b => b.sort ≤ a.sort

/-- What the search answers: the first of the documents after a place, newest first. -/
def Answers (search : ℕ → Option κ → List (Hit κ)) : Prop :=
  ∀ size searchAfter, search size searchAfter =
    (index.newest.filter fun hit => searchAfter.all (hit.sort < ·)).take size

/-- The records are those of the newest documents, so many, in ascending order; and older ones were
left out where it says so. -/
structure Newest (limit : ℤ) (logs : List TraceRecord) (truncated : Bool) (hits : List (Hit κ)) :
    Prop where
  records : logs = hits.map (·.source.record)
  ascending : hits.Pairwise (·.sort < ·.sort)
  matching : ∀ hit ∈ hits, hit ∈ index.documents
  latest : ∀ hit ∈ index.documents, hit ∉ hits → ∀ kept ∈ hits, hit.sort < kept.sort
  length : hits.length = (min (index.documents.length : ℤ) limit).toNat
  reported : truncated = true ↔ limit < index.documents.length

/-- The fetch ends, with the newest documents once each. -/
def FetchesNewest (scan : Scan κ) : Prop :=
  ∃ logs truncated hits, (∀ fuel, index.documents.length < fuel →
    scan.fetchLogs fuel = some (logs, truncated)) ∧
      index.Newest scan.maxDocuments logs truncated hits

/-! ## Pages -/

theorem newest_perm : index.newest.Perm index.documents := List.mergeSort_perm _ _

theorem length_newest : index.newest.length = index.documents.length := index.newest_perm.length_eq

theorem pairwise_newest : index.newest.Pairwise (fun a b => b.sort < a.sort) := by
  have hle : index.newest.Pairwise fun a b => decide (b.sort ≤ a.sort) = true :=
    List.pairwise_mergeSort (fun a b c hab hbc => by simp at *; exact le_trans hbc hab)
      (fun a b => by simp [le_total]) _
  have hne : (index.newest.map Hit.sort).Nodup :=
    (index.newest_perm.map Hit.sort).nodup_iff.2 index.distinct
  rw [List.Nodup, List.pairwise_map] at hne
  refine (hle.and hne).imp fun {a b} h => ?_
  exact lt_of_le_of_ne (of_decide_eq_true h.1) h.2.symm

/-- What stands after the last of the first documents. -/
theorem filter_after {read rest : List (Hit κ)}
    (h : (read ++ rest).Pairwise (fun a b => b.sort < a.sort)) :
    (read ++ rest).filter (fun hit => (read.getLast?.map Hit.sort).all (hit.sort < ·)) = rest := by
  rw [List.pairwise_append] at h
  obtain ⟨hread, -, hacross⟩ := h
  rcases List.eq_nil_or_concat read with rfl | ⟨earlier, last, rfl⟩
  · simp
  · rw [List.concat_eq_append] at *
    rw [List.filter_append, List.filter_eq_nil_iff.2, List.nil_append, List.filter_eq_self.2]
    · intro hit hhit
      simpa using hacross last (by simp) hit hhit
    · intro hit hhit
      rw [List.pairwise_append] at hread
      have hle : last.sort ≤ hit.sort := by
        rcases List.mem_append.1 hhit with hhit | hhit
        · exact (hread.2.2 hit hhit last (by simp)).le
        · rw [List.mem_singleton.1 hhit]
      simpa using hle

/-- The records of the newest documents, so many. -/
def read (k : ℕ) : List TraceRecord := (index.newest.take k).map (·.source.record)

/-- The sort values that the scan goes on after. -/
def place (k : ℕ) : Option κ := (index.newest.take k).getLast?.map Hit.sort

theorem length_read (k : ℕ) : (index.read k).length = min k index.documents.length := by
  rw [read, List.length_map, List.length_take, length_newest]

theorem take_read (m k : ℕ) : (index.read k).take m = index.read (min m k) := by
  rw [read, ← List.map_take, List.take_take, read]

theorem read_of_le {k : ℕ} (h : index.documents.length ≤ k) :
    index.read k = index.read index.documents.length := by
  rw [← index.length_newest] at h ⊢
  rw [read, read, List.take_of_length_le h, List.take_length]

theorem read_add (k size : ℕ) :
    index.read k ++ ((index.newest.drop k).take size).map (·.source.record) =
      index.read (k + size) := by
  rw [read, read, List.take_add, List.map_append]

theorem place_add {k size : ℕ} (h : (index.newest.drop k).take size ≠ []) :
    ((index.newest.drop k).take size).getLast?.map Hit.sort = index.place (k + size) := by
  rw [place, List.take_add, List.getLast?_append_of_ne_nil _ h]

variable {index} {scan : Scan κ}

theorem search_place (hsearch : index.Answers scan.search) (size k : ℕ) :
    scan.search size (index.place k) = (index.newest.drop k).take size := by
  have hsorted : (index.newest.take k ++ index.newest.drop k).Pairwise
      (fun a b => b.sort < a.sort) := by
    rw [List.take_append_drop]
    exact index.pairwise_newest
  have hfilter := filter_after hsorted
  rw [List.take_append_drop] at hfilter
  rw [hsearch, place, hfilter]

/-- One page, from any place. -/
theorem fetchPages_succ (hsearch : index.Answers scan.search) (fuel k : ℕ) :
    scan.fetchPages (fuel + 1) (index.read k) (index.place k) =
      if index.documents.length ≤ k then some (index.read k, false)
      else if scan.maxDocuments ≤ (min (k + scan.pageSize) index.documents.length : ℕ) then
        some (pySlice (index.read (k + scan.pageSize)) 0 scan.maxDocuments, true)
      else if index.documents.length < k + scan.pageSize then
        some (index.read (k + scan.pageSize), false)
      else scan.fetchPages fuel (index.read (k + scan.pageSize))
        (index.place (k + scan.pageSize)) := by
  have hpage := scan.pageSize_pos
  have hlength : ((index.newest.drop k).take scan.pageSize).length =
      min scan.pageSize (index.documents.length - k) := by
    rw [List.length_take, List.length_drop, length_newest]
  rw [Scan.fetchPages, search_place hsearch, read_add]
  dsimp only
  rw [length_read, hlength]
  by_cases hend : index.documents.length ≤ k
  · have hnil : (index.newest.drop k).take scan.pageSize = [] := by
      rw [← List.length_eq_zero_iff]
      omega
    rw [if_pos hend, hnil, List.isEmpty_nil, if_pos rfl]
  · have hne : (index.newest.drop k).take scan.pageSize ≠ [] := by
      rw [← List.length_pos_iff]
      omega
    have hshort : min scan.pageSize (index.documents.length - k) < scan.pageSize ↔
        index.documents.length < k + scan.pageSize := by omega
    rw [if_neg hend, if_neg (by simpa using hne), place_add _ hne]
    simp only [hshort]

theorem pySlice_zero {α : Type u} (l : List α) (stop : ℤ) :
    pySlice l 0 stop = l.take (if stop < 0 then stop + l.length else stop).toNat := rfl

theorem pySlice_read {limit : ℤ} (hlimit : 0 ≤ limit) {k : ℕ} (hk : limit ≤ k) :
    pySlice (index.read k) 0 limit = index.read limit.toNat := by
  rw [pySlice_zero, if_neg (by omega), take_read]
  congr 1
  omega

/-- **The whole scan**, with a cap that is not negative. -/
theorem fetchPages_eq (hsearch : index.Answers scan.search) (hmax : 0 ≤ scan.maxDocuments) :
    ∀ {fuel k : ℕ}, k ≤ index.documents.length → (k = 0 ∨ (k : ℤ) < scan.maxDocuments) →
      index.documents.length < fuel + k →
      scan.fetchPages fuel (index.read k) (index.place k) =
        some (if index.documents.length = 0 ∨ (index.documents.length : ℤ) < scan.maxDocuments then
          (index.read index.documents.length, false)
        else (index.read scan.maxDocuments.toNat, true))
  | 0, k, hk, _, hfuel => absurd hfuel (by omega)
  | fuel + 1, k, hk, hbelow, hfuel => by
    have hpage := scan.pageSize_pos
    rw [fetchPages_succ hsearch]
    by_cases hend : index.documents.length ≤ k
    · have hall : index.documents.length = k := le_antisymm hend hk
      rw [if_pos hend, if_pos (by omega), hall]
    rw [if_neg hend]
    by_cases hcap : scan.maxDocuments ≤ (min (k + scan.pageSize) index.documents.length : ℕ)
    · rw [if_pos hcap, if_neg (by omega), pySlice_read hmax (by omega)]
    rw [if_neg hcap]
    by_cases hshort : index.documents.length < k + scan.pageSize
    · rw [if_pos hshort, if_pos (by omega), read_of_le _ hshort.le]
    · rw [if_neg hshort]
      exact fetchPages_eq hsearch hmax (by omega) (by omega) (by omega)

/-- A cap below zero ends the scan with its first page. -/
theorem fetchPages_of_neg (hsearch : index.Answers scan.search) (hmax : scan.maxDocuments < 0)
    (fuel : ℕ) :
    scan.fetchPages (fuel + 1) (index.read 0) (index.place 0) =
      some (if index.documents.length = 0 then ([], false)
        else (index.read (scan.maxDocuments +
          (min scan.pageSize index.documents.length : ℕ)).toNat, true)) := by
  rw [fetchPages_succ hsearch]
  by_cases hnone : index.documents.length = 0
  · rw [if_pos (by omega), if_pos hnone, read, List.take_zero, List.map_nil]
  · rw [if_neg (by omega), if_pos (by omega), if_neg hnone, pySlice_zero, if_pos hmax, take_read,
      length_read, Nat.zero_add]
    congr 3
    omega

/-! ## The fetch -/

/-- How many documents a fetch keeps, and what it reports. -/
def kept (scan : Scan κ) (total : ℕ) : ℕ × Bool :=
  if total = 0 ∨ (total : ℤ) < scan.maxDocuments then (total, false)
  else if 0 ≤ scan.maxDocuments then (scan.maxDocuments.toNat, true)
  else ((scan.maxDocuments + (min scan.pageSize total : ℕ)).toNat, true)

omit [LinearOrder κ] in
theorem kept_le (scan : Scan κ) (total : ℕ) : (kept scan total).1 ≤ total := by
  rw [kept]
  split
  · exact le_rfl
  split
  · dsimp only
    omega
  · dsimp only
    omega

theorem fetchLogs_eq (hsearch : index.Answers scan.search) {fuel : ℕ}
    (hfuel : index.documents.length < fuel) :
    scan.fetchLogs fuel = some ((index.read (kept scan index.documents.length).1).reverse,
      (kept scan index.documents.length).2) := by
  have hstart : index.read 0 = [] ∧ index.place 0 = none := ⟨rfl, rfl⟩
  rw [Scan.fetchLogs, ← hstart.1, ← hstart.2, kept]
  by_cases hmax : 0 ≤ scan.maxDocuments
  · rw [fetchPages_eq hsearch hmax (Nat.zero_le _) (.inl rfl) hfuel, if_pos hmax]
    split <;> rfl
  · obtain ⟨fuel, rfl⟩ : ∃ n, fuel = n + 1 := ⟨fuel - 1, by omega⟩
    rw [fetchPages_of_neg hsearch (by omega), if_neg hmax]
    by_cases hnone : index.documents.length = 0
    · rw [if_pos hnone, if_pos (.inl hnone), hnone]
      rfl
    · rw [if_neg hnone, if_neg (by omega)]
      rfl

variable (index) in
theorem newest_read {limit : ℤ} {n : ℕ} {truncated : Bool}
    (hn : n = (min (index.documents.length : ℤ) limit).toNat)
    (htruncated : truncated = true ↔ limit < index.documents.length) :
    index.Newest limit (index.read n).reverse truncated (index.newest.take n).reverse where
  records := by rw [read, List.map_reverse]
  ascending := List.pairwise_reverse.2 (index.pairwise_newest.sublist (List.take_sublist _ _))
  matching hit hhit := index.newest_perm.mem_iff.1 (List.mem_of_mem_take (List.mem_reverse.1 hhit))
  latest hit hhit hout kept hkept := by
    have hpair := index.pairwise_newest
    rw [← index.newest.take_append_drop n, List.pairwise_append] at hpair
    have hmem := index.newest_perm.mem_iff.2 hhit
    rw [← index.newest.take_append_drop n, List.mem_append] at hmem
    exact hpair.2.2 kept (List.mem_reverse.1 hkept) hit
      (hmem.resolve_left fun hin => hout (List.mem_reverse.2 hin))
  length := by
    rw [List.length_reverse, List.length_take, length_newest]
    omega
  reported := htruncated

/-- The documents are none or not as many as the cap; or the cap is below zero and cuts off a page
as long as the first. -/
def CapMissed (scan : Scan κ) (total : ℕ) : Prop :=
  0 ≤ scan.maxDocuments ∧ ((total : ℤ) ≠ scan.maxDocuments ∨ total = 0) ∨
    scan.maxDocuments < 0 ∧ 0 < total ∧
      ((min scan.pageSize total : ℕ) : ℤ) ≤ -scan.maxDocuments

omit [LinearOrder κ] in
theorem kept_iff (scan : Scan κ) (total : ℕ) :
    ((kept scan total).1 = (min (total : ℤ) scan.maxDocuments).toNat ∧
        ((kept scan total).2 = true ↔ scan.maxDocuments < total)) ↔ CapMissed scan total := by
  have hpage := scan.pageSize_pos
  rw [kept, CapMissed]
  split
  · simp only [Bool.false_eq_true, false_iff]
    omega
  split
  · simp only [true_iff]
    omega
  · simp only [true_iff]
    omega

/-- **The newest documents once each**, and what was left out reported, exactly when the cap is not
met to the document. -/
theorem fetchesNewest_iff (hsearch : index.Answers scan.search) :
    index.FetchesNewest scan ↔ CapMissed scan index.documents.length := by
  rw [← kept_iff]
  constructor
  · rintro ⟨logs, truncated, hits, hfetch, hnewest⟩
    have heq := (fetchLogs_eq hsearch (Nat.lt_succ_self _)).symm.trans
      (hfetch _ (Nat.lt_succ_self _))
    simp only [Option.some.injEq, Prod.mk.injEq] at heq
    obtain ⟨hlogs, htruncated⟩ := heq
    have hlength : (index.read (kept scan index.documents.length).1).reverse.length =
        hits.length := by rw [hlogs, hnewest.records, List.length_map]
    rw [List.length_reverse, length_read, hnewest.length,
      Nat.min_eq_left (kept_le scan _)] at hlength
    exact ⟨hlength, htruncated ▸ hnewest.reported⟩
  · rintro ⟨hkept, htruncated⟩
    exact ⟨_, _, _, fun fuel hfuel => fetchLogs_eq hsearch hfuel,
      index.newest_read hkept htruncated⟩

/-- The search over an index that stands still. -/
def searchOf (index : Index κ) (size : ℕ) (searchAfter : Option κ) : List (Hit κ) :=
  (index.newest.filter fun hit => searchAfter.all (hit.sort < ·)).take size

/-- A trace of two lines. -/
def twoLines : Index ℕ where
  documents := [⟨1, { message := some "accepted".toList }⟩, ⟨2, { message := some "paid".toList }⟩]
  distinct := by decide

theorem twoLines_capped :
    twoLines.FetchesNewest { search := searchOf twoLines, maxDocuments := 1 } ↔
      CapMissed { search := searchOf twoLines, maxDocuments := 1 } 2 :=
  fetchesNewest_iff fun _ _ => rfl

/-- A trace exactly as long as the cap is reported as cut. -/
theorem whole_trace_reported_cut :
    ¬twoLines.FetchesNewest { search := searchOf twoLines, maxDocuments := 2 } := by
  rintro ⟨logs, truncated, hits, hfetch, hnewest⟩
  have hsearch : twoLines.Answers (searchOf twoLines) := fun _ _ => rfl
  have heq := (fetchLogs_eq hsearch (Nat.lt_succ_self _)).symm.trans (hfetch _ (Nat.lt_succ_self _))
  simp only [Option.some.injEq, Prod.mk.injEq] at heq
  have htruncated : truncated = true := heq.2.symm
  exact absurd (hnewest.reported.1 htruncated) (by decide)

end Index

end ResidentCrm.Logs
