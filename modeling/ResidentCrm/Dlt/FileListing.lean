import ResidentCrm.Dlt.Bitbucket
import Mathlib.Data.Rat.Init
import Mathlib.Algebra.Order.Ring.Unbundled.Rat

/-!
# The listing of a repository

`list_files` of `dlt/bitbucket.py` request by request: which page is asked for, what ends the loop,
and what `_cached` keeps of it. The tree is listed in some order and served in pages of some size,
and some requests are not answered. A listing is the tree as far as its pages came
(`mem_listFilesOf`); one that stopped early is kept like any other.
-/

namespace ResidentCrm.Dlt

/-! ## The loop -/

/-- A page, as it is read out of the response. -/
structure Page where
  values : Option (List Text)
  isLastPage : Option Bool
  nextPageStart : Option ℕ
deriving DecidableEq, Repr

/-- The loop of `list_files` for so many requests; `read k start` answers the `k`-th. -/
def collect (read : ℕ → ℕ → Option Page) : ℕ → ℕ → List Text → ℕ → List Text
  | 0, _, paths, _ => paths
  | fuel + 1, k, paths, start =>
    if paths.length < maxListedFiles then
      match read k start with
      | none => paths
      | some data =>
        let paths := paths ++ data.values.getD []
        if data.isLastPage.getD true then paths
        else collect read fuel (k + 1) paths (data.nextPageStart.getD 0)
    else paths

/-- How a tree is served: the size of the page at an index, and the requests that fail. -/
structure Reads where
  pageSize : ℕ → ℕ
  pageSize_pos : ∀ start, 0 < pageSize start
  fails : ℕ → Bool

namespace Reads

variable (r : Reads) (tree : List Text)

def page (start : ℕ) : Page :=
  let next := start + r.pageSize start
  { values := some ((tree.drop start).take (r.pageSize start))
    isLastPage := some (decide (tree.length ≤ next))
    nextPageStart := if tree.length ≤ next then none else some next }

def read (k start : ℕ) : Option Page := if r.fails k then none else some (r.page tree start)

/-- Where the `k`-th page begins. -/
def start : ℕ → ℕ
  | 0 => 0
  | k + 1 => start k + r.pageSize (start k)

/-- The `k`-th page is asked for and comes: so did those before it, and the cap was not reached. -/
def Comes (k : ℕ) : Prop := ∀ j ≤ k, r.fails j = false ∧ r.start j < maxListedFiles

/-- The file stands on a page that comes. -/
def Listed (path : Text) : Prop := ∃ k, r.Comes k ∧ path ∈ tree.take (r.start (k + 1))

end Reads

/-- Each page has a file, so there are no more requests than the cap. -/
def listFilesOf (tree : List Text) (r : Reads) : List Text :=
  collect (r.read tree) maxListedFiles 0 [] 0

/-! ## How far it comes -/

section

variable {r : Reads} {tree : List Text}

theorem Reads.start_lt_succ (k : ℕ) : r.start k < r.start (k + 1) :=
  Nat.lt_add_of_pos_right (r.pageSize_pos _)

theorem Reads.start_mono {j k : ℕ} (h : j ≤ k) : r.start j ≤ r.start k := by
  induction h with
  | refl => exact le_rfl
  | step _ ih => exact ih.trans (Nat.le_of_lt (r.start_lt_succ _))

theorem take_append_page (k : ℕ) :
    tree.take (r.start k) ++ (tree.drop (r.start k)).take (r.pageSize (r.start k)) =
      tree.take (r.start (k + 1)) := by
  rw [Reads.start, List.take_add]

/-- The loop ends before a page that does not come, or after the last. -/
theorem collect_eq_take {fuel k : ℕ} (hk : r.start k ≤ tree.length)
    (hfuel : maxListedFiles ≤ fuel + r.start k) :
    ∃ m, k ≤ m ∧ collect (r.read tree) fuel k (tree.take (r.start k)) (r.start k) =
        tree.take (r.start m) ∧
      (∀ j, k ≤ j → j < m → r.fails j = false ∧ r.start j < maxListedFiles) ∧
      (tree.length ≤ r.start m ∨ r.fails m = true ∨ maxListedFiles ≤ r.start m) := by
  induction fuel generalizing k with
  | zero => exact ⟨k, le_rfl, rfl, fun j hj hlt => by omega, .inr (.inr (by omega))⟩
  | succ fuel ih =>
    have hlength : (tree.take (r.start k)).length = r.start k := by
      rw [List.length_take, Nat.min_eq_left hk]
    rw [collect, hlength]
    split
    · next hcap =>
      rw [Reads.read]
      cases hfails : r.fails k with
      | true => exact ⟨k, le_rfl, rfl, fun j hj hlt => by omega, .inr (.inl hfails)⟩
      | false =>
        simp only [Bool.false_eq_true, if_false, Reads.page, Option.getD_some, take_append_page,
          decide_eq_true_eq]
        have hthis : ∀ j, k ≤ j → j < k + 1 → r.fails j = false ∧ r.start j < maxListedFiles := by
          intro j hj hlt
          obtain rfl : j = k := by omega
          exact ⟨hfails, hcap⟩
        split
        · next hlast => exact ⟨k + 1, by omega, rfl, hthis, .inl hlast⟩
        · next hmore =>
          rw [Option.getD_some]
          have hstart := r.start_lt_succ k
          obtain ⟨m, hm, heq, hbefore, hend⟩ := ih (k := k + 1) (Nat.le_of_not_le hmore)
            (by omega)
          refine ⟨m, by omega, heq, fun j hj hlt => ?_, hend⟩
          rcases Nat.lt_or_ge j (k + 1) with hj' | hj'
          · exact hthis j hj hj'
          · exact hbefore j hj' hlt
    · next hcap => exact ⟨k, le_rfl, rfl, fun j hj hlt => by omega, .inr (.inr (by omega))⟩

theorem listFilesOf_eq_take (tree : List Text) (r : Reads) :
    ∃ m, listFilesOf tree r = tree.take (r.start m) ∧
      (∀ j, j < m → r.fails j = false ∧ r.start j < maxListedFiles) ∧
      (tree.length ≤ r.start m ∨ r.fails m = true ∨ maxListedFiles ≤ r.start m) := by
  obtain ⟨m, -, heq, hbefore, hend⟩ :=
    @collect_eq_take r tree maxListedFiles 0 (Nat.zero_le _) (Nat.le_add_right _ _)
  exact ⟨m, heq, fun j => hbefore j (Nat.zero_le _), hend⟩

/-- **A listing holds the files of the pages that come**, and nothing else. -/
theorem mem_listFilesOf {path : Text} : path ∈ listFilesOf tree r ↔ r.Listed tree path := by
  obtain ⟨m, heq, hbefore, hend⟩ := listFilesOf_eq_take tree r
  rw [heq]
  constructor
  · intro h
    cases m with
    | zero => exact absurd h List.not_mem_nil
    | succ m => exact ⟨m, fun j hj => hbefore j (Nat.lt_succ_of_le hj), h⟩
  · rintro ⟨k, hcomes, h⟩
    rcases Nat.lt_or_ge k m with hkm | hkm
    · exact (List.take_subset_take_left tree (r.start_mono hkm)) h
    · -- every page up to the end of the loop comes, so the loop ends with the tree
      obtain ⟨hfails, hcap⟩ := hcomes m hkm
      rcases hend with hall | hfail | hfull
      · rw [List.take_of_length_le hall]
        exact List.mem_of_mem_take h
      · exact absurd hfail (Bool.eq_false_iff.1 hfails)
      · exact absurd hcap (Nat.not_lt.2 hfull)

theorem listFilesOf_sublist (tree : List Text) (r : Reads) :
    (listFilesOf tree r).Sublist tree := by
  obtain ⟨m, heq, -⟩ := listFilesOf_eq_take tree r
  exact heq ▸ List.take_sublist _ _

end

/-! ## The pages as they were answered -/

/-- The answers up to the last page, or to the first that fails. -/
def Reads.answers (r : Reads) (tree : List Text) : ℕ → ℕ → ℕ → List (Option (List Text))
  | 0, _, _ => []
  | fuel + 1, k, start =>
    if r.fails k then [none]
    else
      some ((tree.drop start).take (r.pageSize start)) ::
        if tree.length ≤ start + r.pageSize start then []
        else answers r tree fuel (k + 1) (start + r.pageSize start)

theorem collectPages_answers (r : Reads) (tree : List Text) (fuel k start : ℕ)
    (paths : List Text) :
    collectPages paths (r.answers tree fuel k start) =
      collect (r.read tree) fuel k paths start := by
  induction fuel generalizing k start paths with
  | zero => rfl
  | succ fuel ih =>
    rw [Reads.answers, collect, Reads.read]
    cases r.fails k with
    | true =>
      simp only [if_true, ite_self]
      rfl
    | false =>
      simp only [Bool.false_eq_true, if_false, collectPages, Reads.page, Option.getD_some,
        decide_eq_true_eq]
      split
      · split
        · rfl
        · rw [ih, Option.getD_some]
      · rfl

/-- The listing of a repository whose pages are answered so. -/
theorem listFiles_eq {cfg : Config} (hserver : cfg.cloud = false) {o : Oracle} {repo : Repo}
    {tree : List Text} {r : Reads} (h : o.pages repo = r.answers tree maxListedFiles 0 0) :
    listFiles cfg o repo = listFilesOf tree r := by
  rw [listFiles, hserver, if_neg Bool.false_ne_true, h, collectPages_answers, listFilesOf]

/-! ## The cache -/

/-- `cache_ttl_seconds` and `negative_cache_ttl_seconds`. -/
structure CacheTtl where
  ttl : ℚ
  negative : ℚ

/-- What `_cached` holds for one repository, with the time it runs out. -/
abbrev FilesCache := Option (ℚ × List Text)

/-- The entry of the cache, unless it has run out. -/
def FilesCache.fresh (cache : FilesCache) (now : ℚ) : Option (List Text) :=
  (cache.filter (now < ·.1)).map (·.2)

/-- `_cached` of a listing: what is used, and the cache after it. -/
def cachedFiles (life : CacheTtl) (now : ℚ) (cache : FilesCache) (produced : List Text) :
    List Text × FilesCache :=
  if life.ttl ≤ 0 then (produced, cache)
  else match cache.fresh now with
    | some held => (held, cache)
    | none =>
      let ttl := if produced = [] then life.negative else life.ttl
      (produced, if 0 < ttl then some (now + ttl, produced) else cache)

end ResidentCrm.Dlt
