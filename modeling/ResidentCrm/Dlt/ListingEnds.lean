import ResidentCrm.Dlt.FileListing

/-!
# Which listings end

The loop of `list_files` of `dlt/bitbucket.py` goes on while it has too few paths, and what it asks
for next the server says. `requests` counts what it asks for. `listing_ends_iff`: the loop ends
exactly when a response ends it or the pages hold as many paths as the cap; a server that goes on
answering with pages of no paths is asked for ever (`empty_pages_never_end`).
-/

namespace ResidentCrm.Dlt

/-- The requests of the loop, of so many at most. -/
def requests (read : ℕ → ℕ → Option Page) : ℕ → ℕ → List Text → ℕ → ℕ
  | 0, _, _, _ => 0
  | fuel + 1, k, paths, start =>
    if paths.length < maxListedFiles then
      1 + match read k start with
        | none => 0
        | some data =>
          if data.isLastPage.getD true then 0
          else requests read fuel (k + 1) (paths ++ data.values.getD []) (data.nextPageStart.getD 0)
    else 0

/-- `list_files` asks a server of these responses for finitely many pages. -/
def ListingEnds (responses : ℕ → Option Page) : Prop :=
  ∃ n, ∀ fuel, requests (fun k _ => responses k) fuel 0 [] 0 ≤ n

/-- No response, or the last page. -/
def EndsListing (response : Option Page) : Prop := ∀ data ∈ response, data.isLastPage.getD true

/-- The paths of a response. -/
def pathsOf (response : Option Page) : ℕ := response.elim 0 fun data => (data.values.getD []).length

/-- The paths of so many responses. -/
def total (responses : ℕ → Option Page) : ℕ → ℕ
  | 0 => 0
  | k + 1 => total responses k + pathsOf (responses k)

section

variable {responses : ℕ → Option Page} {fuel k start : ℕ} {paths : List Text}

theorem requests_of_ends (h : EndsListing (responses k)) :
    requests (fun k _ => responses k) fuel k paths start ≤ 1 := by
  cases fuel with
  | zero => exact Nat.zero_le _
  | succ fuel =>
    rw [requests]
    split
    · cases hresponse : responses k with
      | none => exact Nat.le_refl _
      | some data =>
        have hlast : data.isLastPage.getD true = true := h data hresponse
        simp only [hlast, if_true]
        exact Nat.le_refl _
    · exact Nat.zero_le _

theorem requests_of_full (h : maxListedFiles ≤ paths.length) :
    requests (fun k _ => responses k) fuel k paths start = 0 := by
  cases fuel with
  | zero => rfl
  | succ fuel => rw [requests, if_neg (Nat.not_lt.2 h)]

/-- A page that does not end the listing is one request more than what comes after it. -/
theorem requests_of_more (hcap : paths.length < maxListedFiles)
    (h : ¬ EndsListing (responses k)) : ∃ paths' start',
      paths'.length = paths.length + pathsOf (responses k) ∧
      requests (fun k _ => responses k) (fuel + 1) k paths start =
        1 + requests (fun k _ => responses k) fuel (k + 1) paths' start' := by
  cases hresponse : responses k with
  | none => exact absurd (fun data hdata => by rw [hresponse] at hdata; cases hdata) h
  | some data =>
    have hlast : ¬ data.isLastPage.getD true = true := by
      intro hlast
      refine h fun data' hdata' => ?_
      rw [hresponse] at hdata'
      obtain rfl := Option.some.inj hdata'
      exact hlast
    refine ⟨paths ++ data.values.getD [], data.nextPageStart.getD 0, List.length_append, ?_⟩
    rw [requests, if_pos hcap]
    simp only [hresponse, hlast, Bool.false_eq_true, if_false]

/-- The loop asks for nothing after a page that ends the listing or fills it. -/
theorem requests_le {m : ℕ}
    (h : EndsListing (responses m) ∨ maxListedFiles ≤ total responses (m + 1)) (hkm : k ≤ m)
    (hpaths : paths.length = total responses k) :
    requests (fun k _ => responses k) fuel k paths start ≤ m + 1 - k := by
  induction fuel generalizing k paths start with
  | zero => exact Nat.zero_le _
  | succ fuel ih =>
    rcases Nat.lt_or_ge paths.length maxListedFiles with hcap | hcap
    · by_cases hends : EndsListing (responses k)
      · exact Nat.le_trans (requests_of_ends hends) (by omega)
      · obtain ⟨paths', start', hlength, hmore⟩ := requests_of_more hcap hends
        have htotal : paths'.length = total responses (k + 1) := by rw [hlength, hpaths, total]
        rw [hmore]
        rcases Nat.lt_or_eq_of_le hkm with hlt | rfl
        · have hrest : requests (fun k _ => responses k) fuel (k + 1) paths' start' ≤
              m + 1 - (k + 1) := ih hlt htotal
          omega
        · have hfull : maxListedFiles ≤ paths'.length := htotal ▸ h.resolve_left hends
          rw [requests_of_full hfull]
          omega
    · rw [requests_of_full hcap]
      exact Nat.zero_le _

/-- Where no page ends the listing and none fills it, the loop goes on. -/
theorem requests_eq_fuel (hends : ∀ k, ¬ EndsListing (responses k))
    (hcap : ∀ k, total responses k < maxListedFiles) (hpaths : paths.length = total responses k) :
    requests (fun k _ => responses k) fuel k paths start = fuel := by
  induction fuel generalizing k paths start with
  | zero => rfl
  | succ fuel ih =>
    obtain ⟨paths', start', hlength, hmore⟩ := requests_of_more (hpaths ▸ hcap k) (hends k)
    have htotal : paths'.length = total responses (k + 1) := by rw [hlength, hpaths, total]
    rw [hmore, ih htotal, Nat.add_comm]

/-- **The listing ends exactly when a page ends it or the pages hold as many paths as the cap.** -/
theorem listing_ends_iff (responses : ℕ → Option Page) : ListingEnds responses ↔
    (∃ k, EndsListing (responses k)) ∨ ∃ k, maxListedFiles ≤ total responses k := by
  constructor
  · rintro ⟨n, hn⟩
    by_contra hgoes
    obtain ⟨hends, hcap⟩ := not_or.1 hgoes
    have hall : requests (fun k _ => responses k) (n + 1) 0 [] 0 = n + 1 :=
      requests_eq_fuel (not_exists.1 hends) (fun k => Nat.lt_of_not_le (not_exists.1 hcap k)) rfl
    have := hn (n + 1)
    omega
  · rintro (⟨m, hends⟩ | ⟨m, hfull⟩)
    · exact ⟨m + 1, fun fuel => requests_le (.inl hends) (Nat.zero_le m) rfl⟩
    · cases m with
      | zero => exact absurd hfull (Nat.not_le.2 (show 0 < maxListedFiles by decide))
      | succ m => exact ⟨m + 1, fun fuel => requests_le (.inr hfull) (Nat.zero_le m) rfl⟩

end

/-- A page of no paths that says more are to come. -/
def emptyPage : Page := ⟨some [], some false, some 0⟩

theorem empty_pages_never_end : ¬ ListingEnds fun _ => some emptyPage := by
  have htotal : ∀ k, total (fun _ => some emptyPage) k = 0 := by
    intro k
    induction k with
    | zero => rfl
    | succ k ih => rw [total, ih]; rfl
  rintro ⟨n, hn⟩
  have hall : requests (fun _ _ => some emptyPage) (n + 1) 0 [] 0 = n + 1 := by
    refine requests_eq_fuel (fun k hends => ?_) (fun k => ?_) rfl
    · exact absurd (hends emptyPage rfl) (by decide)
    · rw [htotal]
      decide
  have hbound : requests (fun _ _ => some emptyPage) (n + 1) 0 [] 0 ≤ n := hn (n + 1)
  omega

end ResidentCrm.Dlt
