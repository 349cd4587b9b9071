import ResidentCrm.Lib.JsonText
import ResidentCrm.Lib.Latest
import Mathlib.Data.List.Lex
import Mathlib.Data.Char

/-!
# Tool evidence

`tools/mcp_client.py`: the record of what a tool returned, and `merge_evidence`, which keeps one for
each tool and its arguments across the runs of a node. `merged_in_batches`: however the records are
batched, the last `MAX_EVIDENCE_RECORDS` of the latest of each are kept.
-/

namespace ResidentCrm

mutual

/-- `json.dumps(value, sort_keys=True)` -/
def Json.dumpsSorted : Json → Text
  | .scalar v => v.dumps
  | .array l => '[' :: (", ".toList.intercalate (Json.dumpsItems l) ++ [']'])
  | .object items =>
    let fields := (Json.dumpsFields items).mergeSort fun a b => a.1 ≤ b.1
    '{' :: (", ".toList.intercalate
      (fields.map fun (key, value) => quote key ++ ": ".toList ++ value) ++ ['}'])

def Json.dumpsItems : List Json → List Text
  | [] => []
  | v :: l => v.dumpsSorted :: Json.dumpsItems l

/-- Each key with the text of its value. -/
def Json.dumpsFields : List (Text × Json) → List (Text × Text)
  | [] => []
  | (key, v) :: items => (key, v.dumpsSorted) :: Json.dumpsFields items

end

namespace Tools

def maxRecordedResultChars : ℕ := 16000

def maxEvidenceRecords : ℕ := 30

/-- `_bounded` -/
def bounded (text : Text) (limit : ℕ) : Text :=
  if text.length ≤ limit then text
  else
    let marker := "\n... [".toList ++ Text.ofNat text.length ++
      " characters in total; the rest was cut]".toList
    text.take (limit - marker.length) ++ marker

/-- What one call of a tool returned. -/
structure Evidence where
  tool : Text
  args : List (Text × Json)
  result : Text

def evidenceKey (record : Evidence) : Text × Text :=
  (record.tool, (Json.object record.args).dumpsSorted)

/-- The records of a list; an entry that is no dict is `none`. -/
abbrev Entries := List (Option Evidence)

def mergeEvidence (existing new : Entries) : List Evidence :=
  let merged := new.foldl (fun merged entry => match entry with
    | none => merged
    | some record =>
      merged.filter (fun kept => evidenceKey kept ≠ evidenceKey record) ++ [record])
    (existing.filterMap id)
  merged.rtake maxEvidenceRecords

theorem mergeEvidence_eq (existing new : Entries) : mergeEvidence existing new =
    ((new.filterMap id).foldl (put evidenceKey) (existing.filterMap id)).rtake
      maxEvidenceRecords := by
  have hfold : ∀ (new : Entries) (merged : List Evidence),
      new.foldl (fun merged entry => match entry with
        | none => merged
        | some record =>
          merged.filter (fun kept => evidenceKey kept ≠ evidenceKey record) ++ [record]) merged =
      (new.filterMap id).foldl (put evidenceKey) merged := by
    intro new
    induction new with
    | nil => exact fun _ => rfl
    | cons entry new ih =>
      intro merged
      cases entry with
      | none => exact ih merged
      | some record => exact ih _
  rw [mergeEvidence, hfold]

/-- Batches merged one after another, from what is kept so far. -/
def mergeBatches (kept : List Evidence) (batches : List Entries) : List Evidence :=
  batches.foldl (fun kept batch => mergeEvidence (kept.map some) batch) kept

theorem filterMap_map_some (l : List Evidence) : (l.map some).filterMap id = l := by
  rw [List.filterMap_map]
  exact List.filterMap_some

/-- What is kept of some records, and of batches after them. -/
theorem mergeBatches_latest (records : List Evidence) (batches : List Entries) :
    mergeBatches ((latest evidenceKey records).rtake maxEvidenceRecords) batches =
      (latest evidenceKey (records ++ batches.flatten.filterMap id)).rtake maxEvidenceRecords := by
  induction batches generalizing records with
  | nil => simp [mergeBatches]
  | cons batch batches ih =>
    have hbatch : mergeEvidence (((latest evidenceKey records).rtake maxEvidenceRecords).map some)
        batch = (latest evidenceKey (records ++ batch.filterMap id)).rtake maxEvidenceRecords := by
      rw [mergeEvidence_eq, filterMap_map_some,
        rtake_foldl_put evidenceKey (nodup_latest evidenceKey records), foldl_put]
    rw [mergeBatches, List.foldl_cons, hbatch, ← mergeBatches, ih, List.flatten_cons,
      List.filterMap_append, List.append_assoc]

/-- Records kept for different keys, and no more of them than are kept, are merged into
themselves. -/
theorem mergeEvidence_self {kept : List Evidence} (h : (kept.map evidenceKey).Nodup)
    (hlength : kept.length ≤ maxEvidenceRecords) :
    mergeEvidence (kept.map some) (kept.map some) = kept := by
  have hself : kept.foldl (put evidenceKey) (kept ++ []) = [] ++ kept :=
    foldl_put_self evidenceKey h
  rw [List.append_nil] at hself
  rw [mergeEvidence_eq, filterMap_map_some, hself, List.nil_append, List.rtake,
    Nat.sub_eq_zero_of_le hlength, List.drop_zero]

/-- **The last records of the latest of each tool and its arguments are kept**, in one batch as in
many, and merging what is kept with itself changes nothing. -/
theorem merged_in_batches (batches : List Entries) :
    mergeBatches [] batches =
      (latest evidenceKey (batches.flatten.filterMap id)).rtake maxEvidenceRecords ∧
    mergeBatches [] batches = mergeEvidence [] batches.flatten ∧
    mergeEvidence ((mergeBatches [] batches).map some) ((mergeBatches [] batches).map some) =
      mergeBatches [] batches := by
  have hkept : mergeBatches [] batches =
      (latest evidenceKey (batches.flatten.filterMap id)).rtake maxEvidenceRecords :=
    mergeBatches_latest [] batches
  have hone : mergeEvidence [] batches.flatten =
      (latest evidenceKey (batches.flatten.filterMap id)).rtake maxEvidenceRecords := by
    rw [mergeEvidence_eq]
    exact congrArg (List.rtake · maxEvidenceRecords) (foldl_put evidenceKey [] _)
  refine ⟨hkept, hkept.trans hone.symm, mergeEvidence_self ?_ ?_⟩
  · rw [hkept]
    exact (nodup_latest evidenceKey _).sublist ((List.drop_suffix _ _).sublist.map evidenceKey)
  · rw [hkept, List.rtake, List.length_drop]
    omega

end Tools

end ResidentCrm
