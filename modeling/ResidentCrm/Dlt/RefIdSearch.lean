import ResidentCrm.Lib.Json
import ResidentCrm.Lib.LevelOrder

/-!
# The search for a refId

`extract_by_search` of `dlt/payload.py`: where no path to the identifier is configured, the payload
is searched breadth-first for one of the wanted keys with a scalar that can be an identifier. Of a
payload with no more containers than the search may take, it finds the first of those that are
nearest the root (`finds_shallowest`).
-/

namespace ResidentCrm.Dlt.Payload

open LevelOrder

def DEFAULT_REFID_KEYS : List Text := ["refId".toList, "ref_id".toList, "referenceId".toList]

/-- `_DENY_KEYS`. -/
def DENY_KEYS : List Text :=
  ["event_id".toList, "eventId".toList, "candidateRefId".toList, "candidate_ref_id".toList,
    "requestId".toList, "request_id".toList]

def MAX_SEARCH_DEPTH : ℤ := 8

def MAX_SEARCH_NODES : ℕ := 2000

/-- `refid_keys()`, of the environment variable's text. -/
def refidKeys (setting : Text) : List Text :=
  let raw := Text.strip setting
  if raw = [] then DEFAULT_REFID_KEYS
  else
    let parsed := ((raw.splitOn ',').map Text.strip).filter fun name =>
      name ≠ [] && !decide (name ∈ DENY_KEYS)
    if parsed = [] then DEFAULT_REFID_KEYS else parsed

/-- An `int`, of which nothing but digits and a sign is written. -/
def isInt (n : Number) : Bool := n.repr.all fun c => c.isDigit || c = '-'

/-- `_scalar`. -/
def scalar : Json → Option Text
  | .scalar (.string s) => some (Text.strip s) |>.filter (· ≠ [])
  | .scalar (.number n) => if isInt n then some (Text.strip n.repr) |>.filter (· ≠ []) else none
  | _ => none

def isContainer : Json → Bool
  | .array _ | .object _ => true
  | _ => false

/-- What the search puts into the queue for a node. -/
def children : Json → List Json
  | .object items => (items.map Prod.snd).filter isContainer
  | .array l => l.filter isContainer
  | _ => []

/-- The usable scalar that an object has under a key. -/
def usable (o : Json) (key : Text) : Option Text :=
  match o with
  | .object items => (items.lookup key).bind scalar
  | _ => none

/-- `extract_by_search`, with the text of `DLT_REFID_KEYS`. -/
def extractBySearch (setting : Text) (payload : Json) (keys : Option (List Text))
    (maxDepth : ℤ) : Option Text :=
  if payload.isNull then none
  else
    let wanted := (keys.filter (· ≠ [])).getD (refidKeys setting)
    search (fun node => wanted.findSome? (usable node)) children maxDepth MAX_SEARCH_NODES
      [(payload, 0)]

/-! ## Containers -/

mutual

/-- The arrays and objects of a value, itself included. -/
def containers : Json → ℕ
  | .scalar _ => 0
  | .array l => 1 + containersOfItems l
  | .object items => 1 + containersOfFields items

def containersOfItems : List Json → ℕ
  | [] => 0
  | v :: l => containers v + containersOfItems l

def containersOfFields : List (Text × Json) → ℕ
  | [] => 0
  | (_, v) :: items => containers v + containersOfFields items

end

theorem containersOfItems_eq (l : List Json) : containersOfItems l = (l.map containers).sum := by
  induction l with
  | nil => rfl
  | cons v l ih => rw [containersOfItems, List.map_cons, List.sum_cons, ih]

theorem containersOfFields_eq (items : List (Text × Json)) :
    containersOfFields items = ((items.map Prod.snd).map containers).sum := by
  induction items with
  | nil => rfl
  | cons item items ih =>
    rw [containersOfFields, List.map_cons, List.map_cons, List.sum_cons, ih]

/-- Scalars are no containers and have none. -/
theorem sum_containers_filter (l : List Json) :
    ((l.filter isContainer).map containers).sum = (l.map containers).sum := by
  induction l with
  | nil => rfl
  | cons v l ih =>
    cases v with
    | scalar v =>
      rw [List.filter_cons_of_neg (by simp [isContainer]), List.map_cons, List.sum_cons, ih,
        containers, Nat.zero_add]
    | array | object =>
      rw [List.filter_cons_of_pos (by rfl), List.map_cons, List.map_cons, List.sum_cons,
        List.sum_cons, ih]

/-- How many nodes the search takes at most from a node downwards. -/
def size (v : Json) : ℕ := if isContainer v then containers v else 1

theorem isContainer_of_mem_children {v w : Json} (h : w ∈ children v) : isContainer w = true := by
  cases v with
  | scalar => exact absurd h List.not_mem_nil
  | array | object => exact (List.mem_filter.1 h).2

theorem size_eq (v : Json) : size v = 1 + ((children v).map size).sum := by
  have hsizes : (children v).map size = (children v).map containers :=
    List.map_congr_left fun w hw => if_pos (isContainer_of_mem_children hw)
  rw [hsizes]
  cases v with
  | scalar => rfl
  | array l =>
    rw [children, sum_containers_filter, ← containersOfItems_eq]
    rfl
  | object items =>
    rw [children, sum_containers_filter, ← containersOfFields_eq]
    rfl

theorem size_le {payload : Json} (h : containers payload ≤ MAX_SEARCH_NODES) :
    size payload ≤ MAX_SEARCH_NODES := by
  rw [size]
  split
  · exact h
  · decide

/-! ## What is found -/

theorem extractBySearch_eq (setting : Text) {payload : Json} (keys : Option (List Text))
    (maxDepth : ℤ) (h : containers payload ≤ MAX_SEARCH_NODES) :
    extractBySearch setting payload keys maxDepth =
      searchLevels
        (fun node => ((keys.filter (· ≠ [])).getD (refidKeys setting)).findSome? (usable node))
        children (maxDepth + 1).toNat [payload] := by
  rw [extractBySearch, ← search_eq_searchLevels size_eq maxDepth (size_le h)]
  split
  · next hnull =>
    -- the search of a payload that is null finds nothing either
    obtain rfl : payload = .scalar .null := by
      unfold Json.isNull at hnull
      split at hnull
      · rfl
      · cases hnull
    have hnone : ∀ wanted : List Text, wanted.findSome? (usable (.scalar .null)) = none :=
      fun wanted => List.findSome?_eq_none_iff.2 fun _ _ => rfl
    rw [MAX_SEARCH_NODES, search, hnone, Option.none_or]
    split <;> rfl
  · rfl

/-- **The search finds the shallowest identifier**: of the first wanted key that is usable in the
first object, level by level, that has one; and nothing exactly where no object within the depth
has one. -/
theorem finds_shallowest (setting : Text) {payload : Json} (keys : Option (List Text))
    (maxDepth : ℤ)
    (h : containers payload ≤ MAX_SEARCH_NODES) :
    let wanted := (keys.filter (· ≠ [])).getD (refidKeys setting)
    (∀ x, extractBySearch setting payload keys maxDepth = some x ↔
      ∃ d : ℕ, d ≤ maxDepth ∧ ∃ before o after, level children [payload] d = before ++ o :: after ∧
        (∃ passed key rest, wanted = passed ++ key :: rest ∧ usable o key = some x ∧
          ∀ k ∈ passed, usable o k = none) ∧
        (∀ o' ∈ before, ∀ key ∈ wanted, usable o' key = none) ∧
          ∀ d', d' < d → ∀ o' ∈ level children [payload] d', ∀ key ∈ wanted,
            usable o' key = none) ∧
      (extractBySearch setting payload keys maxDepth = none ↔
        ∀ d : ℕ, d ≤ maxDepth → ∀ o ∈ level children [payload] d, ∀ key ∈ wanted,
          usable o key = none) := by
  intro wanted
  have hwithin : ∀ d : ℕ, d < (maxDepth + 1).toNat ↔ (d : ℤ) ≤ maxDepth := fun d => by omega
  rw [extractBySearch_eq setting keys maxDepth h]
  constructor
  · intro x
    simp only [searchLevels_eq_some_iff, List.findSome?_eq_some_iff, List.findSome?_eq_none_iff,
      hwithin]
    constructor
    · rintro ⟨d, before, o, after, hd, hfound⟩
      exact ⟨d, hd, before, o, after, hfound⟩
    · rintro ⟨d, hd, before, o, after, hfound⟩
      exact ⟨d, before, o, after, hd, hfound⟩
  · simp only [searchLevels_eq_none_iff, List.findSome?_eq_none_iff, hwithin]
    exact Iff.rfl

/-- The identifier at the top is found, and not the one of a candidate before it in the text. -/
theorem finds_top : extractBySearch []
    (.object [("candidates".toList, .array [.object [("refId".toList, .text "OTHER".toList)]]),
      ("referenceId".toList, .text " TOP ".toList)]) none MAX_SEARCH_DEPTH =
        some "TOP".toList := by
  refine ((finds_shallowest [] none MAX_SEARCH_DEPTH (by decide)).1 _).2
    ⟨0, by decide, [], _, [], rfl,
      ⟨["refId".toList, "ref_id".toList], "referenceId".toList, [], rfl, by decide, by decide⟩,
      ?_, ?_⟩
  · exact fun _ h => absurd h List.not_mem_nil
  · exact fun d' hd' => absurd hd' (Nat.not_lt_zero d')

end ResidentCrm.Dlt.Payload
