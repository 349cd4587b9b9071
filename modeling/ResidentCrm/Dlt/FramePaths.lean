import ResidentCrm.Dlt.FileListing
import Mathlib.Data.List.Nodup

/-!
# Frames and files

`resolve_path` of `dlt/bitbucket.py` over any run of calls that share the cached listing. A path
found by search is the frame's file, and the only one in the tree, exactly where the listing in use
tells it (`namesOnlyFile_iff`): a path whose characters end in the suffix need not have its
components, and a listing that stopped early does not show the second of two files.
-/

namespace ResidentCrm.Dlt

/-- The path's components end with those of the suffix. -/
def EndsIn (suffix path : Text) : Prop := suffix.splitOn '/' <:+ path.splitOn '/'

instance (suffix path : Text) : Decidable (EndsIn suffix path) :=
  inferInstanceAs (Decidable (_ <:+ _))

/-! ## One call after another -/

/-- One call: when it is made, what files read as, and how the tree is served if it is listed. -/
structure Search where
  now : ℚ
  o : Oracle
  reads : Reads
  pathSuffix : Text

/-- `resolve_path` with the listing given. -/
def resolveListed (o : Oracle) (repo : Repo) (listing : List Text) (pathSuffix : Text) :
    Option Text :=
  if pathSuffix = [] then none
  else match (rootedPaths repo pathSuffix).find? fun path => (fileAt o repo path []).isSome with
    | some path => some path
    | none =>
      match listing.filter (pathSuffix.isSuffixOf ·) with
      | [path] => some path
      | _ => none

/-- No source root holds the file. -/
def Unrooted (o : Oracle) (repo : Repo) (pathSuffix : Text) : Prop :=
  ∀ path ∈ rootedPaths repo pathSuffix, fileAt o repo path [] = none

instance (o : Oracle) (repo : Repo) (pathSuffix : Text) : Decidable (Unrooted o repo pathSuffix) :=
  inferInstanceAs (Decidable (∀ path ∈ _, _ = none))

section

variable (cfg : Config) (life : CacheTtl) (repo : Repo) (tree : List Text)

/-- `list_files`, and the cache after it. -/
def filesInUse (cache : FilesCache) (c : Search) : List Text × FilesCache :=
  if cfg.cloud then ([], cache)
  else cachedFiles life c.now cache (listFilesOf tree c.reads)

/-- `resolve_path`, and the cache after it: only a search lists the files. -/
def resolve (cache : FilesCache) (c : Search) : Option Text × FilesCache :=
  let (listing, cache') := filesInUse cfg life tree cache c
  (resolveListed c.o repo listing c.pathSuffix,
    if c.pathSuffix = [] ∨ ¬ Unrooted c.o repo c.pathSuffix then cache else cache')

/-- The cache after the calls. -/
def cacheAfter (calls : List Search) : FilesCache :=
  calls.foldl (fun cache c => (resolve cfg life repo tree cache c).2) none

/-- The files the call can see: those of the listing that is held, or those whose page comes. -/
def Seen (cache : FilesCache) (c : Search) (path : Text) : Prop :=
  cfg.cloud = false ∧
    match if life.ttl ≤ 0 then none else cache.fresh c.now with
    | some held => path ∈ held
    | none => c.reads.Listed tree path

end

/-! ## The property and its condition -/

/-- The path is the only file of the tree that ends with the components of the suffix. -/
def OnlyFile (tree : List Text) (suffix path : Text) : Prop :=
  path ∈ tree ∧ ∀ other ∈ tree, EndsIn suffix other ↔ other = path

/-- Whatever a search returns is the only file. -/
def NamesOnlyFile (tree : List Text) (suffix : Text) (found : Option Text) : Prop :=
  ∀ path ∈ found, OnlyFile tree suffix path

/-- Where a single file that is seen ends in the characters of the suffix, it ends in its components
and every file of the tree that does is seen. -/
def Tells (tree : List Text) (seen : Text → Prop) (suffix : Text) : Prop :=
  suffix ≠ [] → ∀ path, (∀ other, seen other ∧ suffix <:+ other ↔ other = path) →
    EndsIn suffix path ∧ ∀ other ∈ tree, EndsIn suffix other → seen other

/-! ## Characters and components -/

theorem endsIn_iff {suffix path : Text} :
    EndsIn suffix path ↔ path = suffix ∨ ∃ front, path = front ++ '/' :: suffix := by
  constructor
  · rintro ⟨components, h⟩
    have hsuffix : ['/'].intercalate (suffix.splitOn '/') = suffix := List.intercalate_splitOn '/'
    have hpath : ['/'].intercalate (path.splitOn '/') = path := List.intercalate_splitOn '/'
    rw [← h] at hpath
    clear h
    induction components generalizing path with
    | nil => exact .inl (hpath.symm.trans hsuffix)
    | cons component components ih =>
      have hne : components ++ suffix.splitOn '/' ≠ [] :=
        List.append_ne_nil_of_right_ne_nil _ (List.splitOnP_ne_nil _ _)
      rw [List.cons_append, List.intercalate_cons_of_ne_nil hne] at hpath
      rcases ih rfl with h | ⟨front, h⟩
      · exact .inr ⟨component, by rw [← hpath, h]; simp⟩
      · exact .inr ⟨component ++ '/' :: front, by rw [← hpath, h]; simp⟩
  · rintro (rfl | ⟨front, rfl⟩)
    · exact List.suffix_rfl
    · refine ⟨front.splitOn '/', ?_⟩
      simp only [List.splitOn_eq_splitOnP]
      exact (List.splitOnP_append_cons front suffix (p := (· == '/')) (beq_self_eq_true '/')).symm

theorem EndsIn.suffix {suffix path : Text} (h : EndsIn suffix path) : suffix <:+ path := by
  rcases endsIn_iff.1 h with rfl | ⟨front, rfl⟩
  · exact List.suffix_rfl
  · exact ⟨front ++ ['/'], by simp⟩

/-! ## The search -/

theorem resolvePath_eq (cfg : Config) (o : Oracle) (repo : Repo) (pathSuffix : Text) :
    resolvePath cfg o repo pathSuffix =
      resolveListed o repo (listFiles cfg o repo) pathSuffix := rfl

theorem filter_eq_singleton_iff {α : Type} {l : List α} (h : l.Nodup) {p : α → Bool} {a : α} :
    l.filter p = [a] ↔ ∀ b, b ∈ l ∧ p b = true ↔ b = a := by
  simp only [← List.mem_filter]
  constructor
  · intro heq b
    rw [heq, List.mem_singleton]
  · intro hmem
    have hperm := (List.perm_ext_iff_of_nodup (h.filter p) (List.nodup_singleton a)).2 fun b => by
      rw [hmem, List.mem_singleton]
    exact List.perm_singleton.1 hperm

theorem resolveListed_eq_some_iff {o : Oracle} {repo : Repo} {listing : List Text}
    (hnodup : listing.Nodup) {suffix path : Text} (hunrooted : Unrooted o repo suffix) :
    resolveListed o repo listing suffix = some path ↔
      suffix ≠ [] ∧ ∀ other, other ∈ listing ∧ suffix <:+ other ↔ other = path := by
  have hfind : (rootedPaths repo suffix).find? (fun path => (fileAt o repo path []).isSome) =
      none := by
    rw [List.find?_eq_none]
    intro candidate hcandidate
    simp [hunrooted candidate hcandidate]
  have hmatch := filter_eq_singleton_iff hnodup (p := (suffix.isSuffixOf ·)) (a := path)
  simp only [List.isSuffixOf_iff_suffix] at hmatch
  rw [← hmatch, resolveListed, hfind]
  split
  · next hnil => simp [hnil]
  · next hne =>
    simp only [hne, ne_eq, not_false_eq_true, true_and]
    split
    · next found heq => rw [heq, Option.some.injEq, List.singleton_inj]
    · next hother => exact ⟨nofun, fun heq => absurd heq (hother path)⟩

/-! ## What is held -/

section

variable {cfg : Config} {life : CacheTtl} {repo : Repo} {tree : List Text}

/-- What the cache holds was listed from the tree. -/
def HoldsTree (tree : List Text) (cache : FilesCache) : Prop :=
  ∀ entry ∈ cache, entry.2.Sublist tree

theorem FilesCache.mem_of_fresh {cache : FilesCache} {now : ℚ} {held : List Text}
    (h : cache.fresh now = some held) : ∃ ends, cache = some (ends, held) := by
  obtain ⟨entry, hentry, rfl⟩ := Option.map_eq_some_iff.1 h
  exact ⟨entry.1, (Option.filter_eq_some_iff.1 hentry).1⟩

theorem HoldsTree.filesInUse {cache : FilesCache} (h : HoldsTree tree cache) (c : Search) :
    (filesInUse cfg life tree cache c).1.Sublist tree ∧
      HoldsTree tree (filesInUse cfg life tree cache c).2 := by
  have hlisted := listFilesOf_sublist tree c.reads
  unfold Dlt.filesInUse cachedFiles
  split
  · exact ⟨List.nil_sublist _, h⟩
  · split
    · exact ⟨hlisted, h⟩
    · split
      · next held hheld =>
        obtain ⟨ends, hcache⟩ := FilesCache.mem_of_fresh hheld
        exact ⟨h _ hcache, h⟩
      · refine ⟨hlisted, ?_⟩
        generalize (if listFilesOf tree c.reads = [] then life.negative else life.ttl) = ttl
        change HoldsTree tree (if 0 < ttl then some (c.now + ttl, listFilesOf tree c.reads)
          else cache)
        split
        · rintro _ ⟨⟩
          exact hlisted
        · exact h

theorem HoldsTree.resolve {cache : FilesCache} (h : HoldsTree tree cache) (c : Search) :
    HoldsTree tree (resolve cfg life repo tree cache c).2 := by
  unfold Dlt.resolve
  simp only
  split
  · exact h
  · exact (h.filesInUse c).2

theorem holdsTree_cacheAfter (calls : List Search) :
    HoldsTree tree (cacheAfter cfg life repo tree calls) := by
  unfold cacheAfter
  generalize hstart : (none : FilesCache) = cache
  have hholds : HoldsTree tree cache := hstart ▸ nofun
  clear hstart
  induction calls generalizing cache with
  | nil => exact hholds
  | cons c calls ih => exact ih _ (hholds.resolve c)

theorem mem_filesInUse {cache : FilesCache} {c : Search} {path : Text} :
    path ∈ (filesInUse cfg life tree cache c).1 ↔ Seen cfg life tree cache c path := by
  unfold filesInUse cachedFiles Seen
  cases cfg.cloud with
  | true => simp
  | false =>
    simp only [Bool.false_eq_true, if_false, true_and]
    split
    · exact mem_listFilesOf
    · cases cache.fresh c.now with
      | some held => rfl
      | none => exact mem_listFilesOf

/-! ## What a search names -/

/-- **A search names the only file exactly where the listing in use tells it.** -/
theorem namesOnlyFile_iff (htree : tree.Nodup) (calls : List Search) (c : Search)
    (hunrooted : Unrooted c.o repo c.pathSuffix) :
    NamesOnlyFile tree c.pathSuffix
        (resolve cfg life repo tree (cacheAfter cfg life repo tree calls) c).1 ↔
      Tells tree (Seen cfg life tree (cacheAfter cfg life repo tree calls) c) c.pathSuffix := by
  generalize hcache : cacheAfter cfg life repo tree calls = cache
  have hholds : HoldsTree tree cache := hcache ▸ holdsTree_cacheAfter calls
  have hsub : (filesInUse cfg life tree cache c).1.Sublist tree := (hholds.filesInUse c).1
  have hfound : ∀ path, path ∈ (resolve cfg life repo tree cache c).1 ↔
      c.pathSuffix ≠ [] ∧
        ∀ other, Seen cfg life tree cache c other ∧ c.pathSuffix <:+ other ↔ other = path := by
    intro path
    simp only [← mem_filesInUse]
    exact resolveListed_eq_some_iff (htree.sublist hsub) hunrooted
  have hmem : ∀ path, Seen cfg life tree cache c path → path ∈ tree :=
    fun path hseen => hsub.subset (mem_filesInUse.2 hseen)
  unfold NamesOnlyFile Tells
  simp only [hfound]
  constructor
  · intro h hne path honly
    obtain ⟨hpath, hunique⟩ := h path ⟨hne, honly⟩
    refine ⟨(hunique path hpath).2 rfl, fun other hother hends => ?_⟩
    rw [(hunique other hother).1 hends]
    exact ((honly path).2 rfl).1
  · rintro h path ⟨hne, honly⟩
    obtain ⟨hends, hall⟩ := h hne path honly
    refine ⟨hmem path ((honly path).2 rfl).1, fun other hother => ⟨fun hother' => ?_, ?_⟩⟩
    · exact (honly other).1 ⟨hall other hother hother', hother'.suffix⟩
    · rintro rfl
      exact hends

end

/-! ## Two modules and two pages -/

def plainServer : Config where
  enabled := true
  reachable := true
  cloud := false
  repoMap := []
  branchOverride := none
  frames := 1
  frames_pos := Nat.one_pos
  maxCandidates := 1
  maxCandidates_pos := Nat.one_pos
  pattern := none
  fromstring _ := none
  str _ := []

def hourly : CacheTtl := ⟨3600, 900⟩

def authRepo : Repo :=
  ⟨"RC".toList, "auth".toList, defaultBranch, defaultVersionFile, defaultSourceRoots⟩

/-- A server that reads no file. -/
def noFiles : Oracle where
  commits _ _ := none
  changes _ _ := none
  file _ _ _ := none
  pages _ := []

/-- Pages of one file, of which the second may fail. -/
def pagesOfOne (fails : Bool) : Reads where
  pageSize _ := 1
  pageSize_pos _ := Nat.one_pos
  fails k := fails && k == 1

/-- A search for the class `in.gov.auth.Card`. -/
def cardSearch (now : ℚ) (fails : Bool) : Search :=
  ⟨now, noFiles, pagesOfOne fails, "in/gov/auth/Card.java".toList⟩

def pluginCard : Text := "modules/plugin/gov/auth/Card.java".toList
def coreCard : Text := "core/in/gov/auth/Card.java".toList
def otherCard : Text := "batch/in/gov/auth/Card.java".toList

/-- A directory whose name ends in the first component, and a second page that was not read, which
a later call with every page readable still misses. -/
theorem search_names_another :
    ¬ NamesOnlyFile [pluginCard] (cardSearch 0 false).pathSuffix
        (resolve plainServer hourly authRepo [pluginCard]
          (cacheAfter plainServer hourly authRepo [pluginCard] []) (cardSearch 0 false)).1 ∧
      ¬ NamesOnlyFile [coreCard, otherCard] (cardSearch 60 false).pathSuffix
        (resolve plainServer hourly authRepo [coreCard, otherCard]
          (cacheAfter plainServer hourly authRepo [coreCard, otherCard] [cardSearch 0 true])
          (cardSearch 60 false)).1 := by
  constructor
  · intro h
    obtain ⟨-, hunique⟩ := h pluginCard (by decide)
    exact absurd ((hunique pluginCard (by decide)).2 rfl) (by decide)
  · intro h
    obtain ⟨-, hunique⟩ := h coreCard (by decide +kernel)
    exact absurd ((hunique otherCard (by decide)).1 (by decide)) (by decide)

/-- Both pages are read, so neither of the two files is named. -/
theorem two_cards_untold :
    NamesOnlyFile [coreCard, otherCard] (cardSearch 60 false).pathSuffix
        (resolve plainServer hourly authRepo [coreCard, otherCard]
          (cacheAfter plainServer hourly authRepo [coreCard, otherCard] [cardSearch 0 false])
          (cardSearch 60 false)).1 := by
  refine (namesOnlyFile_iff (by decide) _ _ (by decide)).2 fun _ path honly => ?_
  have hheld : (cacheAfter plainServer hourly authRepo [coreCard, otherCard]
      [cardSearch 0 false]).fresh (cardSearch 60 false).now = some [coreCard, otherCard] := by
    decide +kernel
  have hseen : ∀ card ∈ [coreCard, otherCard], card = path := fun card hcard => by
    refine (honly card).1 ⟨⟨rfl, ?_⟩, ?_⟩
    · rw [if_neg (by decide), hheld]
      exact hcard
    · revert card
      decide
  exact absurd ((hseen coreCard (by decide)).trans (hseen otherCard (by decide)).symm)
    (by decide)

end ResidentCrm.Dlt
