import ResidentCrm.Lib.Machine
import ResidentCrm.Services.MapFile
import Mathlib.Logic.Function.Basic

/-!
# The map on disk

`current` and `_download` of `utils/reason_code_service_map.py`. Any number of threads ask for the
map, which is read again where the file's signature has changed; a download replaces the file, and
so does whoever edits it. A step is one access to `_cache`, to the file or to the bucket. A read is
of the whole file, and the staging file is no one else's.

The bytes and the signatures are of any type, and so are the maps until the last section, where
`parse` is that of the reason-code map. The disk is all that has been in the file's place, the
latest first, and a thread knows how much of it there was when its call began.
-/

namespace ResidentCrm.Services.MapOnDisk

/-- A file that is there: `(st_mtime_ns, st_size)` and its bytes. -/
structure File (σ κ : Type) where
  signature : σ
  content : κ

/-- An entry of `_cache`. -/
structure Entry (σ μ : Type) where
  signature : σ
  map : μ

/-- Where a thread is in `current`. -/
inductive Phase (σ μ : Type) where
  | idle
  | looked (cached : Option (Entry σ μ))
  /-- The file has another signature than the entry. -/
  | changed (cached : Option (Entry σ μ)) (signature : σ)
  | parsed (entry : Entry σ μ)
  | answered (map : μ)

/-- Where the download is. -/
inductive Download (κ : Type) where
  | idle
  /-- The body has been fetched, and validates. -/
  | fetched (body : κ)
  | staged (body : κ)

structure State (ι σ κ μ : Type) where
  disk : List (Option (File σ κ))
  cache : Option (Entry σ μ)
  threads : ι → Phase σ μ
  began : ι → ℕ
  download : Download κ

inductive Action (ι σ κ : Type) where
  /-- Somebody writes the file, or takes it away. -/
  | edit (file : Option (File σ κ))
  | call (i : ι)
  | stat (i : ι)
  | statFails (i : ι)
  | read (i : ι)
  | readFails (i : ι)
  | store (i : ι)
  | fetch (body : κ)
  /-- The file is compared with the body, which is staged where they differ. -/
  | compare
  | replace (signature : σ)
  | downloadFails

section

variable {ι σ κ μ : Type}

namespace State

/-- The file on disk. -/
def file (s : State ι σ κ μ) : Option (File σ κ) := s.disk.head?.join

/-- Something else takes the file's place. -/
def put (s : State ι σ κ μ) (file : Option (File σ κ)) : State ι σ κ μ :=
  { s with disk := file :: s.disk }

section

variable [DecidableEq ι]

def goto (s : State ι σ κ μ) (i : ι) (p : Phase σ μ) : State ι σ κ μ :=
  { s with threads := Function.update s.threads i p }

theorem goto_self (s : State ι σ κ μ) (i : ι) (p : Phase σ μ) : (s.goto i p).threads i = p := by
  simp only [goto, Function.update_self]

theorem goto_of_ne {i j : ι} (s : State ι σ κ μ) (p : Phase σ μ) (h : j ≠ i) :
    (s.goto i p).threads j = s.threads j := by
  simp only [goto, Function.update_of_ne h]

end

end State

-- `parse` where it finds no error, and `EMPTY`
variable (parse : κ → Option μ) (empty : μ)

/-- The last good map, `EMPTY` if there is none. -/
def kept (cached : Option (Entry σ μ)) : μ := cached.elim empty Entry.map

/-- What a thread has after its read. -/
def parsedOf (cached : Option (Entry σ μ)) (signature : σ) (file : Option (File σ κ)) :
    Entry σ μ :=
  ⟨signature, ((file.map File.content).bind parse).getD (kept empty cached)⟩

def step [DecidableEq ι] [DecidableEq σ] [DecidableEq κ] (s : State ι σ κ μ) :
    Action ι σ κ → Option (State ι σ κ μ)
  | .edit file => some (s.put file)
  | .call i =>
    match s.threads i with
    | .idle | .answered _ => some { s.goto i (.looked s.cache) with
        began := Function.update s.began i s.disk.length }
    | _ => none
  | .stat i =>
    match s.threads i with
    | .looked cached =>
      match s.file with
      | none => some (s.goto i (.answered empty))
      | some file =>
        match cached.filter (·.signature = file.signature) with
        | some entry => some (s.goto i (.answered entry.map))
        | none => some (s.goto i (.changed cached file.signature))
    | _ => none
  | .statFails i =>
    match s.threads i with
    | .looked cached => some (s.goto i (.answered (kept empty cached)))
    | _ => none
  | .read i =>
    match s.threads i with
    | .changed cached signature =>
      some (s.goto i (.parsed (parsedOf parse empty cached signature s.file)))
    | _ => none
  | .readFails i =>
    match s.threads i with
    | .changed cached signature => some (s.goto i (.parsed ⟨signature, kept empty cached⟩))
    | _ => none
  | .store i =>
    match s.threads i with
    | .parsed entry => some { s.goto i (.answered entry.map) with cache := some entry }
    | _ => none
  | .fetch body =>
    match s.download with
    | .idle =>
      if (parse body).isSome then some { s with download := .fetched body } else some s
    | _ => none
  | .compare =>
    match s.download with
    | .fetched body =>
      if s.file.map File.content = some body then some { s with download := .idle }
      else some { s with download := .staged body }
    | _ => none
  | .replace signature =>
    match s.download with
    | .staged body => some { s.put (some ⟨signature, body⟩) with download := .idle }
    | _ => none
  | .downloadFails => some { s with download := .idle }

/-- Nothing is cached and nobody has called. -/
def AtStart (s : State ι σ κ μ) : Prop :=
  s.disk.length = 1 ∧ s.cache = none ∧ (∀ i, s.threads i = .idle) ∧ s.download = .idle

def mapOnDisk (ι : Type) [DecidableEq ι] [DecidableEq σ] [DecidableEq κ] :
    Machine (State ι σ κ μ) (Action ι σ κ) where
  start := AtStart
  step := step parse empty

variable {parse : κ → Option μ} {empty : μ} {s t : State ι σ κ μ} {a : Action ι σ κ}

/-- The map that a thread has, if it has one. -/
def Phase.maps : Phase σ μ → List μ
  | .idle => []
  | .looked cached => (cached.map Entry.map).toList
  | .changed cached _ => (cached.map Entry.map).toList
  | .parsed entry => [entry.map]
  | .answered map => [map]

/-! ## Where an answer is from -/

/-- The map is that of some file that has been on disk, or `EMPTY`. -/
def Served (parse : κ → Option μ) (empty : μ) (s : State ι σ κ μ) (map : μ) : Prop :=
  map = empty ∨ ∃ file, some file ∈ s.disk ∧ parse file.content = some map

structure Vetted (parse : κ → Option μ) (empty : μ) (s : State ι σ κ μ) : Prop where
  cache : ∀ entry ∈ s.cache, Served parse empty s entry.map
  threads : ∀ i, ∀ map ∈ (s.threads i).maps, Served parse empty s map
  download : ∀ body, s.download = .fetched body ∨ s.download = .staged body → (parse body).isSome

theorem mem_disk_of_file {file : File σ κ} (h : s.file = some file) : some file ∈ s.disk := by
  unfold State.file at h
  cases hdisk : s.disk with
  | nil =>
    rw [hdisk] at h
    cases h
  | cons first rest =>
    rw [hdisk] at h
    have hfirst : first = some file := h
    rw [hfirst]
    exact List.mem_cons_self

theorem Vetted.put (h : Vetted parse empty s) (file : Option (File σ κ)) :
    Vetted parse empty (s.put file) := by
  have hserved : ∀ map, Served parse empty s map → Served parse empty (s.put file) map := by
    intro map hmap
    rcases hmap with hempty | ⟨old, hold, hparse⟩
    · exact .inl hempty
    · exact .inr ⟨old, List.mem_cons_of_mem _ hold, hparse⟩
  exact ⟨fun entry hentry => hserved _ (h.cache entry hentry),
    fun i map hmap => hserved _ (h.threads i map hmap), h.download⟩

theorem Vetted.goto [DecidableEq ι] (h : Vetted parse empty s) (i : ι) {p : Phase σ μ}
    (hp : ∀ map ∈ p.maps, Served parse empty s map) : Vetted parse empty (s.goto i p) := by
  refine ⟨h.cache, fun j map hmap => ?_, h.download⟩
  by_cases hj : j = i
  · subst hj
    rw [s.goto_self] at hmap
    exact hp map hmap
  · rw [s.goto_of_ne p hj] at hmap
    exact h.threads j map hmap

theorem served_kept {cached : Option (Entry σ μ)}
    (h : ∀ map ∈ (cached.map Entry.map).toList, Served parse empty s map) :
    Served parse empty s (kept empty cached) := by
  cases cached with
  | none => exact .inl rfl
  | some entry => exact h entry.map List.mem_cons_self

theorem served_parsedOf {cached : Option (Entry σ μ)} {signature : σ}
    (h : ∀ map ∈ (cached.map Entry.map).toList, Served parse empty s map) :
    Served parse empty s (parsedOf parse empty cached signature s.file).map := by
  cases hparse : (s.file.map File.content).bind parse with
  | none =>
    rw [parsedOf, hparse]
    exact served_kept h
  | some map =>
    rw [parsedOf, hparse]
    obtain ⟨content, hcontent, hmap⟩ := Option.bind_eq_some_iff.1 hparse
    obtain ⟨file, hfile, rfl⟩ := Option.map_eq_some_iff.1 hcontent
    exact .inr ⟨file, mem_disk_of_file hfile, hmap⟩

/-- The thread has one map now. -/
theorem Vetted.gotoOne [DecidableEq ι] (h : Vetted parse empty s) (i : ι) {p : Phase σ μ} {map : μ}
    (hp : p.maps = [map]) (hmap : Served parse empty s map) : Vetted parse empty (s.goto i p) := by
  refine h.goto i fun other hother => ?_
  rw [hp] at hother
  rw [List.mem_singleton.1 hother]
  exact hmap

theorem Vetted.idle (h : Vetted parse empty s) :
    Vetted parse empty { s with download := .idle } := by
  refine ⟨h.cache, h.threads, fun body hbody => ?_⟩
  rcases hbody with hbody | hbody
  · cases hbody
  · cases hbody

theorem Vetted.ofPhase (h : Vetted parse empty s) {i : ι} {p : Phase σ μ} (hp : s.threads i = p) :
    ∀ map ∈ p.maps, Served parse empty s map := by
  rw [← hp]
  exact h.threads i

theorem Vetted.step [DecidableEq ι] [DecidableEq σ] [DecidableEq κ]
    (h : Vetted parse empty s) (hstep : step parse empty s a = some t) :
    Vetted parse empty t := by
  cases a with
  | edit file =>
    obtain rfl := Option.some.inj hstep
    exact h.put file
  | call i =>
    have hcached : ∀ map ∈ (Phase.looked s.cache).maps, Served parse empty s map := by
      intro map hmap
      obtain ⟨entry, hentry, rfl⟩ := Option.map_eq_some_iff.1 (Option.mem_toList.1 hmap)
      exact h.cache entry hentry
    have hgoto := h.goto i hcached
    simp only [MapOnDisk.step] at hstep
    split at hstep
    · obtain rfl := Option.some.inj hstep
      exact ⟨hgoto.cache, hgoto.threads, hgoto.download⟩
    · obtain rfl := Option.some.inj hstep
      exact ⟨hgoto.cache, hgoto.threads, hgoto.download⟩
    · cases hstep
  | stat i =>
    simp only [MapOnDisk.step] at hstep
    split at hstep
    · next cached hphase =>
      have hcached := h.ofPhase hphase
      split at hstep
      · obtain rfl := Option.some.inj hstep
        exact h.gotoOne i rfl (.inl rfl)
      · split at hstep
        · next entry hentry =>
          obtain rfl := Option.some.inj hstep
          obtain ⟨hsome, -⟩ := Option.filter_eq_some_iff.1 hentry
          rw [hsome] at hcached
          exact h.gotoOne i rfl (hcached entry.map List.mem_cons_self)
        · obtain rfl := Option.some.inj hstep
          exact h.goto i hcached
    · cases hstep
  | statFails i =>
    simp only [MapOnDisk.step] at hstep
    split at hstep
    · next cached hphase =>
      obtain rfl := Option.some.inj hstep
      exact h.gotoOne i rfl (served_kept (h.ofPhase hphase))
    · cases hstep
  | read i =>
    simp only [MapOnDisk.step] at hstep
    split at hstep
    · next cached signature hphase =>
      obtain rfl := Option.some.inj hstep
      exact h.gotoOne i rfl (served_parsedOf (h.ofPhase hphase))
    · cases hstep
  | readFails i =>
    simp only [MapOnDisk.step] at hstep
    split at hstep
    · next cached signature hphase =>
      obtain rfl := Option.some.inj hstep
      exact h.gotoOne i rfl (served_kept (h.ofPhase hphase))
    · cases hstep
  | store i =>
    simp only [MapOnDisk.step] at hstep
    split at hstep
    · next entry hphase =>
      obtain rfl := Option.some.inj hstep
      have hentry : Served parse empty s entry.map := h.ofPhase hphase entry.map List.mem_cons_self
      have hgoto := h.gotoOne (p := .answered entry.map) i rfl hentry
      refine ⟨fun other hother => ?_, hgoto.threads, hgoto.download⟩
      obtain rfl := Option.mem_some_iff.1 hother
      exact hentry
    · cases hstep
  | fetch body =>
    simp only [MapOnDisk.step] at hstep
    split at hstep
    · split at hstep
      · next hbody =>
        obtain rfl := Option.some.inj hstep
        refine ⟨h.cache, h.threads, fun other hother => ?_⟩
        rcases hother with hother | hother
        · cases hother
          exact hbody
        · cases hother
      · obtain rfl := Option.some.inj hstep
        exact h
    · cases hstep
  | compare =>
    simp only [MapOnDisk.step] at hstep
    split at hstep
    · next body hdownload =>
      split at hstep
      · obtain rfl := Option.some.inj hstep
        exact h.idle
      · obtain rfl := Option.some.inj hstep
        refine ⟨h.cache, h.threads, fun other hother => ?_⟩
        rcases hother with hother | hother
        · cases hother
        · cases hother
          exact h.download body (.inl hdownload)
    · cases hstep
  | replace signature =>
    simp only [MapOnDisk.step] at hstep
    split at hstep
    · next body hdownload =>
      obtain rfl := Option.some.inj hstep
      exact (h.put (some ⟨signature, body⟩)).idle
    · cases hstep
  | downloadFails =>
    obtain rfl := Option.some.inj hstep
    exact h.idle

theorem AtStart.vetted (h : AtStart s) : Vetted parse empty s := by
  obtain ⟨-, hcache, hthreads, hdownload⟩ := h
  refine ⟨fun entry hentry => ?_, fun i map hmap => ?_, fun body hbody => ?_⟩
  · rw [hcache] at hentry
    cases hentry
  · rw [hthreads i] at hmap
    cases hmap
  · rw [hdownload] at hbody
    rcases hbody with hbody | hbody
    · cases hbody
    · cases hbody

theorem vetted [DecidableEq ι] [DecidableEq σ] [DecidableEq κ]
    (hs : (mapOnDisk parse empty ι).Reachable s) : Vetted parse empty s :=
  hs.invariant (fun _ hstart => AtStart.vetted hstart) fun s a t h _ hstep =>
    Vetted.step h (show step parse empty s a = some t from hstep)

/-- **Every answer is `EMPTY` or the map of a file that has been on disk and validates**, however
threads, downloads, edits and failures interleave; and where no one edits the file, what takes its
place validates. -/
theorem answers_served [DecidableEq ι] [DecidableEq σ] [DecidableEq κ]
    (hs : (mapOnDisk parse empty ι).Reachable s) :
    (∀ i map, s.threads i = .answered map →
      map = empty ∨ ∃ file, some file ∈ s.disk ∧ parse file.content = some map) ∧
    ∀ a t, step parse empty s a = some t → t.disk = s.disk ∨ (∃ file, a = .edit file) ∨
      ∃ file, t.disk = some file :: s.disk ∧ (parse file.content).isSome := by
  have h := vetted hs
  constructor
  · intro i map hphase
    exact h.threads i map (by rw [hphase]; exact List.mem_cons_self)
  · intro a t hstep
    cases a with
    | edit file => exact .inr (.inl ⟨file, rfl⟩)
    | replace signature =>
      simp only [step] at hstep
      split at hstep
      · next body hdownload =>
        obtain rfl := Option.some.inj hstep
        exact .inr (.inr ⟨⟨signature, body⟩, rfl, h.download body (.inr hdownload)⟩)
      · cases hstep
    | downloadFails =>
      obtain rfl := Option.some.inj hstep
      exact .inl rfl
    | _ =>
      left
      simp only [step] at hstep
      repeat' split at hstep
      all_goals first
        | cases hstep; done
        | (obtain rfl := Option.some.inj hstep; rfl)

/-! ## How fresh an answer is -/

/-- The signatures there have been. -/
def signatures (disk : List (Option (File σ κ))) : List σ :=
  disk.filterMap (Option.map File.signature)

/-- The map that a file, or no file, gives; of one that does not validate nothing is said. -/
structure Shows (parse : κ → Option μ) (empty : μ) (file : Option (File σ κ)) (map : μ) :
    Prop where
  absent : file = none → map = empty
  present : ∀ f, file = some f → ∀ m, parse f.content = some m → map = m

/-- The entry's signature has been on disk, and where the file has it, the entry is of it. -/
structure Right (parse : κ → Option μ) (disk : List (Option (File σ κ))) (entry : Entry σ μ) :
    Prop where
  known : entry.signature ∈ signatures disk
  current : ∀ file, disk.head?.join = some file → file.signature = entry.signature →
    ∀ map, parse file.content = some map → entry.map = map

/-- The map is of something that was in the file's place since there were `n` of them. -/
def Recent (parse : κ → Option μ) (empty : μ) (disk : List (Option (File σ κ))) (n : ℕ)
    (map : μ) : Prop :=
  ∃ file ∈ disk.take (disk.length + 1 - n), Shows parse empty file map

/-- What holds of a thread's phase, by how much there was when its call began. -/
def PhaseOk (parse : κ → Option μ) (empty : μ) (disk : List (Option (File σ κ))) (n : ℕ) :
    Phase σ μ → Prop
  | .idle => True
  | .looked cached => n ≤ disk.length ∧ ∀ entry ∈ cached, Right parse disk entry
  | .changed _ signature => n ≤ disk.length ∧ signature ∈ signatures disk
  | .parsed entry =>
    n ≤ disk.length ∧ Right parse disk entry ∧ Recent parse empty disk n entry.map
  | .answered map => n ≤ disk.length ∧ Recent parse empty disk n map

structure Fresh (parse : κ → Option μ) (empty : μ) (s : State ι σ κ μ) : Prop where
  disk : s.disk ≠ []
  cache : ∀ entry ∈ s.cache, Right parse s.disk entry
  threads : ∀ i, PhaseOk parse empty s.disk (s.began i) (s.threads i)

/-- The operating system answers, and what takes the file's place has a signature of its own. -/
def undisturbed [DecidableEq σ] (s : State ι σ κ μ) : Action ι σ κ → Bool
  | .statFails _ | .readFails _ => false
  | .read _ => s.file.isSome
  | .edit file => file.all fun f => f.signature ∉ signatures s.disk
  | .replace signature => signature ∉ signatures s.disk
  | _ => true

variable {disk : List (Option (File σ κ))} {file : Option (File σ κ)} {n : ℕ}

theorem Right.put {entry : Entry σ μ} (h : Right parse disk entry)
    (hfile : ∀ f ∈ file, f.signature ∉ signatures disk) : Right parse (file :: disk) entry := by
  constructor
  · obtain ⟨old, hold, hsame⟩ := List.mem_filterMap.1 h.known
    exact List.mem_filterMap.2 ⟨old, List.mem_cons_of_mem _ hold, hsame⟩
  · intro f hf hsame
    have hf' : file = some f := hf
    exact absurd (hsame ▸ h.known) (hfile f hf')

theorem Recent.put {map : μ} (hn : n ≤ disk.length) (h : Recent parse empty disk n map) :
    Recent parse empty (file :: disk) n map := by
  obtain ⟨old, hold, hshows⟩ := h
  refine ⟨old, ?_, hshows⟩
  have hlength : (file :: disk).length + 1 - n = disk.length + 1 - n + 1 := by
    rw [List.length_cons]
    omega
  rw [hlength, List.take_succ_cons]
  exact List.mem_cons_of_mem _ hold

theorem PhaseOk.put {p : Phase σ μ} (h : PhaseOk parse empty disk n p)
    (hfile : ∀ f ∈ file, f.signature ∉ signatures disk) :
    PhaseOk parse empty (file :: disk) n p := by
  have hle : n ≤ disk.length → n ≤ (file :: disk).length := by
    intro hn
    rw [List.length_cons]
    omega
  cases p with
  | idle => trivial
  | looked cached => exact ⟨hle h.1, fun entry hentry => (h.2 entry hentry).put hfile⟩
  | changed cached signature =>
    obtain ⟨old, hold, hsame⟩ := List.mem_filterMap.1 h.2
    exact ⟨hle h.1, List.mem_filterMap.2 ⟨old, List.mem_cons_of_mem _ hold, hsame⟩⟩
  | parsed entry => exact ⟨hle h.1, h.2.1.put hfile, h.2.2.put h.1⟩
  | answered map => exact ⟨hle h.1, h.2.put h.1⟩

theorem Fresh.put (h : Fresh parse empty s)
    (hfile : ∀ f ∈ file, f.signature ∉ signatures s.disk) : Fresh parse empty (s.put file) where
  disk := List.cons_ne_nil _ _
  cache entry hentry := (h.cache entry hentry).put hfile
  threads i := (h.threads i).put hfile

theorem Fresh.goto [DecidableEq ι] (h : Fresh parse empty s) (i : ι) {p : Phase σ μ}
    (hp : PhaseOk parse empty s.disk (s.began i) p) : Fresh parse empty (s.goto i p) := by
  refine ⟨h.disk, h.cache, fun j => ?_⟩
  by_cases hj : j = i
  · subst hj
    rw [s.goto_self]
    exact hp
  · rw [s.goto_of_ne p hj]
    exact h.threads j

/-- What is on disk now is recent for any call. -/
theorem recent_of_shows {map : μ} (hdisk : disk ≠ []) (hn : n ≤ disk.length)
    (h : Shows parse empty disk.head?.join map) : Recent parse empty disk n map := by
  cases disk with
  | nil => exact absurd rfl hdisk
  | cons first rest =>
    refine ⟨first, ?_, h⟩
    have hlength : (first :: rest).length + 1 - n = rest.length + 1 - n + 1 := by
      rw [List.length_cons] at hn ⊢
      omega
    rw [hlength, List.take_succ_cons]
    exact List.mem_cons_self

theorem mem_signatures {f : File σ κ} (h : some f ∈ disk) : f.signature ∈ signatures disk :=
  List.mem_filterMap.2 ⟨some f, h, rfl⟩

theorem Fresh.step [DecidableEq ι] [DecidableEq σ] [DecidableEq κ]
    (h : Fresh parse empty s) (ha : undisturbed s a = true)
    (hstep : step parse empty s a = some t) : Fresh parse empty t := by
  cases a with
  | edit file =>
    obtain rfl := Option.some.inj hstep
    refine h.put fun f hf => ?_
    obtain rfl := hf
    simpa [undisturbed] using ha
  | call i =>
    have hcall : Fresh parse empty { s.goto i (.looked s.cache) with
        began := Function.update s.began i s.disk.length } := by
      refine ⟨h.disk, h.cache, fun j => ?_⟩
      by_cases hj : j = i
      · subst hj
        show PhaseOk parse empty s.disk (Function.update s.began j s.disk.length j)
          ((s.goto j (.looked s.cache)).threads j)
        rw [s.goto_self, Function.update_self]
        exact ⟨Nat.le_refl _, h.cache⟩
      · show PhaseOk parse empty s.disk (Function.update s.began i s.disk.length j)
          ((s.goto i (.looked s.cache)).threads j)
        rw [s.goto_of_ne _ hj, Function.update_of_ne hj]
        exact h.threads j
    simp only [MapOnDisk.step] at hstep
    split at hstep
    · obtain rfl := Option.some.inj hstep
      exact hcall
    · obtain rfl := Option.some.inj hstep
      exact hcall
    · cases hstep
  | stat i =>
    simp only [MapOnDisk.step] at hstep
    split at hstep
    · next cached hphase =>
      have hok := h.threads i
      rw [hphase] at hok
      obtain ⟨hn, hcached⟩ := hok
      split at hstep
      · next hfile =>
        obtain rfl := Option.some.inj hstep
        refine h.goto i ⟨hn, recent_of_shows h.disk hn ⟨fun _ => rfl, fun f hf => ?_⟩⟩
        have hnone : s.disk.head?.join = none := hfile
        rw [hnone] at hf
        cases hf
      · next file hfile =>
        have hhead : s.disk.head?.join = some file := hfile
        split at hstep
        · next entry hentry =>
          obtain rfl := Option.some.inj hstep
          obtain ⟨hsome, hsame⟩ := Option.filter_eq_some_iff.1 hentry
          have hright := hcached entry hsome
          refine h.goto i ⟨hn, recent_of_shows h.disk hn ⟨fun hnone => ?_, fun f hf m hm => ?_⟩⟩
          · rw [hhead] at hnone
            cases hnone
          · rw [hhead] at hf
            obtain rfl := Option.some.inj hf
            exact hright.current file hhead (of_decide_eq_true hsame).symm m hm
        · obtain rfl := Option.some.inj hstep
          exact h.goto i ⟨hn, mem_signatures (mem_disk_of_file hfile)⟩
    · cases hstep
  | statFails i => cases ha
  | read i =>
    simp only [MapOnDisk.step] at hstep
    split at hstep
    · next cached signature hphase =>
      obtain rfl := Option.some.inj hstep
      have hok := h.threads i
      rw [hphase] at hok
      obtain ⟨hn, hknown⟩ := hok
      obtain ⟨file, hfile⟩ := Option.isSome_iff_exists.1 ha
      have hhead : s.disk.head?.join = some file := hfile
      have hmap : ∀ m, parse file.content = some m →
          (parsedOf parse empty cached signature s.file).map = m := by
        intro m hm
        rw [parsedOf, hfile, Option.map_some, Option.bind_some, hm]
        rfl
      refine h.goto i ⟨hn, ⟨hknown, fun f hf _ m hm => ?_⟩,
        recent_of_shows h.disk hn ⟨fun hnone => ?_, fun f hf m hm => ?_⟩⟩
      · rw [hhead] at hf
        obtain rfl := Option.some.inj hf
        exact hmap m hm
      · rw [hhead] at hnone
        cases hnone
      · rw [hhead] at hf
        obtain rfl := Option.some.inj hf
        exact hmap m hm
    · cases hstep
  | readFails i => cases ha
  | store i =>
    simp only [MapOnDisk.step] at hstep
    split at hstep
    · next entry hphase =>
      obtain rfl := Option.some.inj hstep
      have hok := h.threads i
      rw [hphase] at hok
      obtain ⟨hn, hright, hrecent⟩ := hok
      have hanswer : PhaseOk parse empty s.disk (s.began i) (.answered entry.map) := ⟨hn, hrecent⟩
      have hgoto := h.goto i hanswer
      refine ⟨hgoto.disk, fun other hother => ?_, hgoto.threads⟩
      obtain rfl := Option.mem_some_iff.1 hother
      exact hright
    · cases hstep
  | replace signature =>
    simp only [MapOnDisk.step] at hstep
    split at hstep
    · next body hdownload =>
      obtain rfl := Option.some.inj hstep
      have hnew : ∀ f ∈ some (File.mk signature body), f.signature ∉ signatures s.disk := by
        intro f hf
        obtain rfl := Option.mem_some_iff.1 hf
        exact of_decide_eq_true ha
      have hput := h.put hnew
      exact ⟨hput.disk, hput.cache, hput.threads⟩
    · cases hstep
  | fetch body =>
    simp only [MapOnDisk.step] at hstep
    split at hstep
    · split at hstep
      · obtain rfl := Option.some.inj hstep
        exact ⟨h.disk, h.cache, h.threads⟩
      · obtain rfl := Option.some.inj hstep
        exact h
    · cases hstep
  | compare =>
    simp only [MapOnDisk.step] at hstep
    split at hstep
    · split at hstep
      · obtain rfl := Option.some.inj hstep
        exact ⟨h.disk, h.cache, h.threads⟩
      · obtain rfl := Option.some.inj hstep
        exact ⟨h.disk, h.cache, h.threads⟩
    · cases hstep
  | downloadFails =>
    obtain rfl := Option.some.inj hstep
    exact ⟨h.disk, h.cache, h.threads⟩

theorem AtStart.fresh (h : AtStart s) : Fresh parse empty s := by
  obtain ⟨hdisk, hcache, hthreads, -⟩ := h
  refine ⟨?_, fun entry hentry => ?_, fun i => ?_⟩
  · intro hnil
    rw [hnil] at hdisk
    cases hdisk
  · rw [hcache] at hentry
    cases hentry
  · rw [hthreads i]
    trivial

/-- **Where every stat and read of the file is answered and no signature comes twice, each answer is
right for something that was in the file's place during the call**: the map of a file that
validates, `EMPTY` where there was none. -/
theorem answers_fresh [DecidableEq ι] [DecidableEq σ] [DecidableEq κ]
    (hs : (mapOnDisk parse empty ι).Reach (fun s a => undisturbed s a = true) s) {i : ι} {map : μ}
    (h : s.threads i = .answered map) :
    ∃ file ∈ s.disk.take (s.disk.length + 1 - s.began i), Shows parse empty file map := by
  have hfresh : Fresh parse empty s :=
    hs.invariant (fun _ hstart => AtStart.fresh hstart) fun s a t h ha hstep =>
      Fresh.step h ha (show step parse empty s a = some t from hstep)
  have hok := hfresh.threads i
  rw [h] at hok
  exact hok.2

end

/-! ## The reason-code map -/

section

variable {ι σ κ : Type} [DecidableEq ι] [DecidableEq σ] [DecidableEq κ]

def reasonCodeMap (decode : κ → Option Text) (digest : κ → Text) (ι : Type) [DecidableEq ι] :
    Machine (State ι σ κ MapFile) (Action ι σ κ) :=
  mapOnDisk (fun raw => (parse decode digest raw).1) EMPTY ι

variable {decode : κ → Option Text} {digest : κ → Text} {s : State ι σ κ MapFile}

/-- **Every map that `current` returns is `EMPTY` or that of a file that has been on disk and
validates**, however threads, downloads, edits and failures interleave; and what takes the file's
place validates, unless someone edits it. -/
theorem current_served (hs : (reasonCodeMap decode digest ι).Reachable s) :
    (∀ i map, s.threads i = .answered map → map = EMPTY ∨
      ∃ file, some file ∈ s.disk ∧ (parse decode digest file.content).1 = some map) ∧
    ∀ a t, (reasonCodeMap decode digest ι).step s a = some t →
      t.disk = s.disk ∨ (∃ file, a = .edit file) ∨
        ∃ file, t.disk = some file :: s.disk ∧ (parse decode digest file.content).1.isSome :=
  answers_served hs

/-- **Where every stat and read of the file is answered and no signature comes twice, what `current`
returns is right for something that was in the file's place during the call**: the map of a file
that validates, `EMPTY` where there was none. -/
theorem current_fresh
    (hs : (reasonCodeMap decode digest ι).Reach (fun s a => undisturbed s a = true) s) {i : ι}
    {map : MapFile} (h : s.threads i = .answered map) :
    ∃ file ∈ s.disk.take (s.disk.length + 1 - s.began i), (file = none → map = EMPTY) ∧
      ∀ f, file = some f → ∀ m, (parse decode digest f.content).1 = some m → map = m := by
  obtain ⟨file, hfile, hshows⟩ := answers_fresh hs h
  exact ⟨file, hfile, hshows.absent, hshows.present⟩

end

/-- The file as `_download` first finds it. -/
def asFound : State Unit ℕ Text MapFile :=
  ⟨[some ⟨1, twoOwners⟩], none, fun _ => .idle, fun _ => 0, .idle⟩

theorem atStart_asFound : AtStart asFound := ⟨rfl, rfl, fun _ => rfl, rfl⟩

/-- The code has one owner now. -/
def oneOwner : Text :=
  "\x7b\"schema_version\": 1, \"services\": \x7b\"qc\": [\"A\"]\x7d\x7d".toList

/-- The map is asked for before and after a download. -/
def refreshed : List (Action Unit ℕ Text) :=
  [.call (), .stat (), .read (), .store (), .fetch [], .fetch oneOwner, .compare, .replace 2,
    .call (), .stat (), .read (), .store ()]

def Phase.answer {σ μ : Type} : Phase σ μ → Option μ
  | .answered map => some map
  | _ => none

theorem eq_answered {σ μ : Type} {p : Phase σ μ} {map : μ} (h : p.answer = some map) :
    p = .answered map := by
  cases p with
  | answered other =>
    obtain rfl := Option.some.inj h
    rfl
  | idle => cases h
  | looked => cases h
  | changed => cases h
  | parsed => cases h

theorem exists_refreshed : ∃ s : State Unit ℕ Text MapFile,
    (reasonCodeMap some id Unit).Reach (fun s a => undisturbed s a = true) s ∧
    ∃ map, s.threads () = .answered map ∧ map.map.servicesFor (some ['A']) = ["qc".toList] ∧
      ∀ file ∈ s.disk.take (s.disk.length + 1 - s.began ()),
        ∃ f, file = some f ∧ f.content = oneOwner := by
  obtain ⟨s, hs, hp⟩ := (reasonCodeMap some id Unit).exists_reach_runWhere
    (C := fun s a => undisturbed s a = true) (c := undisturbed) (fun _ _ h => h) atStart_asFound
    refreshed (fun s => (s.threads ()).answer.any
      (·.map.servicesFor (some ['A']) = ["qc".toList]) &&
      (s.disk.take (s.disk.length + 1 - s.began ())).all (·.any (·.content = oneOwner)))
    (by decide +kernel)
  obtain ⟨hanswer, hwindow⟩ := Bool.and_eq_true_iff.1 hp
  obtain ⟨map, hmap, hservices⟩ := (Option.any_eq_true _ _).1 hanswer
  refine ⟨s, hs, map, eq_answered hmap, of_decide_eq_true hservices, fun file hfile => ?_⟩
  obtain ⟨f, hf, hcontent⟩ := (Option.any_eq_true _ _).1 (List.all_eq_true.1 hwindow file hfile)
  exact ⟨f, hf, of_decide_eq_true hcontent⟩

theorem refreshed_served : ∃ s : State Unit ℕ Text MapFile,
    (∃ map, s.threads () = .answered map ∧
      map.map.servicesFor (some ['A']) = ["qc".toList]) ∧
    (∀ i map, s.threads i = .answered map → map = EMPTY ∨
      ∃ file, some file ∈ s.disk ∧ (parse some id file.content).1 = some map) ∧
    ∀ a t, (reasonCodeMap some id Unit).step s a = some t →
      t.disk = s.disk ∨ (∃ file, a = .edit file) ∨
        ∃ file, t.disk = some file :: s.disk ∧ (parse some id file.content).1.isSome := by
  obtain ⟨s, hs, map, hanswer, hservices, -⟩ := exists_refreshed
  exact ⟨s, ⟨map, hanswer, hservices⟩, current_served hs.reachable⟩

theorem refreshed_fresh : ∃ (s : State Unit ℕ Text MapFile) (map : MapFile),
    map.map.servicesFor (some ['A']) = ["qc".toList] ∧
    ∃ file ∈ s.disk.take (s.disk.length + 1 - s.began ()), (file = none → map = EMPTY) ∧
      ∀ f, file = some f → ∀ m, (parse some id f.content).1 = some m → map = m := by
  obtain ⟨s, hs, map, hanswer, hservices, -⟩ := exists_refreshed
  exact ⟨s, map, hservices, current_fresh hs hanswer⟩

end ResidentCrm.Services.MapOnDisk
