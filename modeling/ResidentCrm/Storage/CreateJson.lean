import ResidentCrm.Lib.JsonRoundTrip
import ResidentCrm.Lib.Machine
import Mathlib.Logic.Function.Basic

/-!
# Create-only documents

`create_json`, `load`, `save` and `update_json` of `storage/local.py`, any number of calls on one
file name, one call of the file system a step. `save` and `update_json` write a temporary file under
a lock and rename it; `create_json` creates the file itself, and then writes to it without the lock.
A load in between finds a document that is cut short, and returns none (`atomic_iff_readsWhole`).

A file is known by a number, which stands for its inode: a rename gives the name to another file,
and who has opened the old one goes on with it.
-/

namespace ResidentCrm.Storage.Local

universe u

/-! ## Documents and calls -/

/-- A dict that can be written as JSON. -/
structure Document where
  json : Json
  valid : json.Valid
  isObject : json.isObject = true

/-- `json.dump(document, f, indent=4, ensure_ascii=False)`. -/
def Document.dump (d : Document) : Text := d.json.write indented 0

/-- A call with its document, stamped, or with its `mutate`, which may raise. -/
inductive Call where
  | create (d : Document)
  | load
  | save (d : Document)
  | update (mutate : Option Json → Option Document)

/-- What is in a file, the document that is written to it, and the `create_json` that made it. -/
structure File (ι : Type u) where
  content : Text
  document : Document
  creator : Option ι

/-- What has happened to the name, and what the calls have made of it. -/
inductive Event (ι : Type u) where
  /-- A call asks if there is such a file. -/
  | looked (i : ι)
  /-- The exclusive open of `create_json` made the file. -/
  | made (i : ι) (d : Json)
  /-- A rename gave the name to a file. -/
  | replaced (i : ι) (d : Json)
  /-- `create_json` returns. -/
  | created (i : ι) (won : Bool)
  /-- `load` returns what it found, or `update_json` goes on with it. -/
  | read (i : ι) (found : Option Json)

/-- What a call does next. -/
inductive Phase where
  | start
  /-- `FileLock` of `load`. -/
  | locking
  /-- `final_path.exists()` of `update_json`. -/
  | looking
  /-- `open(final_path)`. -/
  | opening
  | reading (x : ℕ)
  /-- `open(tmp_path, "w")`. -/
  | preparing (d : Document)
  | filling (y : ℕ) (d : Document)
  /-- `os.replace(tmp_path, final_path)`. -/
  | replacing (d : Document)
  /-- `json.dump` of `create_json`. -/
  | writing (x : ℕ)
  /-- `final_path.unlink()`. -/
  | unlinking
  /-- The end of `with FileLock`. -/
  | unlocking
  | done

/-- The files, which of them have the two names, who holds the lock, and the calls; as history, what
has happened, the last event first. -/
structure Directory (ι : Type u) where
  file : ℕ → File ι
  size : ℕ
  name : Option ℕ
  tmp : Option ℕ
  lock : Option ι
  phase : ι → Phase
  log : List (Event ι)

inductive Action (ι : Type u) where
  /-- The next operation of a call returns, or raises. -/
  | next (i : ι) (ok : Bool)
  /-- A call writes as far as the first `n` characters of its document. -/
  | write (i : ι) (n : ℕ)

variable {ι : Type u}

/-! ## The operations -/

section

variable [DecidableEq ι] (calls : ι → Call)

def Directory.goto (s : Directory ι) (i : ι) (p : Phase) : Directory ι :=
  { s with phase := Function.update s.phase i p }

def Directory.note (s : Directory ι) (e : Event ι) : Directory ι := { s with log := e :: s.log }

/-- Where a call that holds the lock goes on with what it has found. -/
def Call.resume (c : Call) (found : Option Json) : Phase :=
  match c with
  | .update mutate => (mutate found).elim .unlocking .preparing
  | _ => .unlocking

/-- A file is put in place of the `x`-th one. -/
def Directory.put (s : Directory ι) (x : ℕ) (f : File ι) : Directory ι :=
  { s with file := Function.update s.file x f, size := max s.size (x + 1) }

/-- `os.open(final_path, O_CREAT | O_EXCL | O_WRONLY)`. -/
def Directory.create (s : Directory ι) (i : ι) (d : Document) : Directory ι :=
  match s.name with
  | some _ => (s.goto i .done).note (.created i false)
  | none => (({ s with name := some s.size }.put s.size ⟨[], d, some i⟩).goto i
      (.writing s.size)).note (.made i d.json)

/-- `open(tmp_path, "w")`. -/
def Directory.prepare (s : Directory ι) (i : ι) (d : Document) : Directory ι :=
  let y := s.tmp.getD s.size
  ({ s with tmp := some y }.put y ⟨[], d, none⟩).goto i (.filling y d)

/-- What is read ends as `found`. -/
def Directory.found (s : Directory ι) (i : ι) (found : Option Json) : Directory ι :=
  (s.goto i ((calls i).resume found)).note (.read i found)

/-- The next operation of a call. -/
def Directory.next (s : Directory ι) (i : ι) (ok : Bool) : Option (Directory ι) :=
  match s.phase i with
  | .start =>
    match calls i with
    | .create d => some (if ok then s.create i d else s.goto i .done)
    | .load =>
      let s := s.note (.looked i)
      some <| if !ok then s.goto i .done
        else if s.name.isSome then s.goto i .locking
        else (s.goto i .done).note (.read i none)
    | .save d =>
      if !ok then some (s.goto i .done)
      else if s.lock.isNone then some ({ s with lock := some i }.goto i (.preparing d))
      else none
    | .update _ =>
      if !ok then some (s.goto i .done)
      else if s.lock.isNone then some ({ s with lock := some i }.goto i .looking)
      else none
  | .locking =>
    if !ok then some (s.goto i .done)
    else if s.lock.isNone then some ({ s with lock := some i }.goto i .opening)
    else none
  | .looking =>
    let s := s.note (.looked i)
    some <| if !ok then s.goto i .unlocking
      else if s.name.isSome then s.goto i .opening
      else s.found calls i none
  | .opening =>
    match if ok then s.name else none with
    | some x => some (s.goto i (.reading x))
    | none => some (s.found calls i none)
  | .reading x => some (s.found calls i (if ok then loads (s.file x).content else none))
  | .preparing d => some (if ok then s.prepare i d else s.goto i .unlocking)
  | .filling y d =>
    if !ok then some (s.goto i .unlocking)
    else if (s.file y).content = d.dump then some (s.goto i (.replacing d))
    else none
  | .replacing d =>
    match if ok then s.tmp else none with
    | some y => some (({ s with name := some y, tmp := none }.goto i .unlocking).note
        (.replaced i d.json))
    | none => some (s.goto i .unlocking)
  | .writing x =>
    if !ok then some (s.goto i .unlinking)
    else if (s.file x).content = (s.file x).document.dump then
      some ((s.goto i .done).note (.created i true))
    else none
  | .unlinking => some ({ s with name := if ok then none else s.name }.goto i .done)
  | .unlocking => some ({ s with lock := none }.goto i .done)
  | .done => none

/-- The file as far as its first `n` characters. -/
def File.upTo (f : File ι) (n : ℕ) : File ι := { f with content := f.document.dump.take n }

/-- A file is written further. -/
def Directory.extend (s : Directory ι) (x n : ℕ) : Option (Directory ι) :=
  if (s.file x).content.length < n ∧ n ≤ (s.file x).document.dump.length then
    some (s.put x ((s.file x).upTo n))
  else none

def Directory.step (s : Directory ι) : Action ι → Option (Directory ι)
  | .next i ok => s.next calls i ok
  | .write i n =>
    match s.phase i with
    | .filling y _ => s.extend y n
    | .writing x => s.extend x n
    | _ => none

/-- No call has begun, and the file is complete if there is one. A temporary file may have been
left behind. -/
structure Directory.Fresh (s : Directory ι) : Prop where
  phase : ∀ i, s.phase i = .start
  lock : s.lock = none
  log : s.log = []
  files : ∀ x, s.name = some x ∨ s.tmp = some x → x < s.size ∧ (s.file x).creator = none
  name : ∀ x, s.name = some x → s.tmp ≠ some x ∧
    (s.file x).content = (s.file x).document.dump

def directory : Machine (Directory ι) (Action ι) where
  start := Directory.Fresh
  step := Directory.step calls

end

/-! ## What is promised, and when -/

/-- The documents that the name has been given, the last one first. -/
def documents : List (Event ι) → List Json
  | [] => []
  | .made _ d :: log => d :: documents log
  | .replaced _ d :: log => d :: documents log
  | _ :: log => documents log

/-- The document under the name, which was `first` before. -/
def current (first : Option Json) (log : List (Event ι)) : Option Json :=
  (documents log).head?.or first

/-- The document that was under the name when a call looked, and those it was given since. -/
def fair [DecidableEq ι] (first : Option Json) (i : ι) : List (Event ι) → List Json
  | [] => []
  | .looked j :: log => if j = i then (current first log).toList else fair first i log
  | .made _ d :: log => d :: fair first i log
  | .replaced _ d :: log => d :: fair first i log
  | _ :: log => fair first i log

/-- A call finds nothing only if no write had begun, in particular if no `create_json` had been
refused; and else a document that was under the name while it looked. -/
def Fair [DecidableEq ι] (first : Option Json) (log : List (Event ι)) (i : ι) :
    Option Json → Prop
  | none => current first log = none ∧ ∀ j, .created j false ∉ log
  | some d => d ∈ fair first i log

/-- Whatever has been read was read fairly. -/
def ReadFairly [DecidableEq ι] (first : Option Json) : List (Event ι) → Prop
  | [] => True
  | .read i found :: log => Fair first log i found ∧ ReadFairly first log
  | _ :: log => ReadFairly first log

/-- At most one `create_json` returns true, and only one that finds no file; one does if no rename
came first and every one that made the file has returned; and all is read fairly. -/
structure Atomic [DecidableEq ι] (first : Option Json) (log : List (Event ι)) : Prop where
  one : ∀ i j, .created i true ∈ log → .created j true ∈ log → i = j
  absent : ∀ i, .created i true ∈ log → first = none
  exactly : first = none → ((∃ i d, .made i d ∈ log) ∨ ∀ i d, .replaced i d ∉ log) →
    (∀ i d, .made i d ∈ log → ∃ won, .created i won ∈ log) → (∃ i won, .created i won ∈ log) →
      ∃ i, .created i true ∈ log
  reads : ReadFairly first log

/-- A `create_json` has made the file and has not written all of it. -/
def File.Unfinished (f : File ι) : Prop := f.creator.isSome ∧ f.content ≠ f.document.dump

instance (f : File ι) : Decidable f.Unfinished := inferInstanceAs (Decidable (_ ∧ _))

/-- Where no file is found, none was ever written; a file that was found is there when it is opened,
and its `create_json` has written all of it when it is read; and neither raises. -/
def ReadsWhole (calls : ι → Call) (s : Directory ι) : Action ι → Prop
  | .write _ _ => True
  | .next i ok =>
    match s.phase i, calls i with
    | .start, .load => ok = true → s.name = none → documents s.log = []
    | .looking, _ => ok = true → s.name = none → documents s.log = []
    | .opening, _ => ok = true ∧ s.name ≠ none
    | .reading x, _ => ok = true ∧ ¬ (s.file x).Unfinished
    | _, _ => True

instance (calls : ι → Call) (s : Directory ι) : (a : Action ι) → Decidable (ReadsWhole calls s a)
  | .write _ _ => isTrue trivial
  | .next i ok => by
    unfold ReadsWhole
    dsimp only
    split <;> infer_instance

/-! ## What a file and a call may be found in -/

/-- What was written so far is the beginning of the document, and all of it where no `create_json`
writes. -/
def File.Sound (f : File ι) : Prop :=
  f.content <+: f.document.dump ∧ (f.creator = none → f.content = f.document.dump)

/-- A file that may be open for reading. -/
def Directory.Readable (s : Directory ι) (x : ℕ) : Prop :=
  x < s.size ∧ s.tmp ≠ some x ∧ (s.file x).Sound

/-- The call holds the lock. -/
def Phase.Holds : Phase → Prop
  | .looking | .opening | .reading _ | .preparing _ | .filling _ _ | .replacing _ | .unlocking =>
    True
  | .start | .locking | .writing _ | .unlinking | .done => False

/-- The call has made the file, and may yet remove it. -/
def Phase.Makes : Phase → Prop
  | .writing _ | .unlinking => True
  | _ => False

/-- Where a call `i` may be in the phase `p`. -/
def Directory.Stands [DecidableEq ι] (first : Option Json) (s : Directory ι) (i : ι) :
    Phase → Prop
  | .locking | .opening => .looked i ∈ s.log ∧ current first s.log ≠ none
  | .reading x => s.Readable x ∧ (s.file x).document.json ∈ fair first i s.log ∧
      current first s.log ≠ none
  | .filling y d => s.tmp = some y ∧ (s.file y).document = d
  | .replacing d => ∃ y, s.tmp = some y ∧ (s.file y).document = d ∧ (s.file y).content = d.dump
  | .writing x => s.Readable x ∧ (s.file x).creator = some i
  | _ => True

/-- The invariant of every run. -/
structure Directory.Inv [DecidableEq ι] (first : Option Json) (s : Directory ι) : Prop where
  held : ∀ i, (s.phase i).Holds → s.lock = some i
  stands : ∀ i, s.Stands first i (s.phase i)
  name : ∀ x, s.name = some x → s.Readable x ∧
    current first s.log = some (s.file x).document.json
  tmp : ∀ y, s.tmp = some y → y < s.size ∧ (s.file y).creator = none
  kept : first ≠ none → s.name ≠ none
  making : ∀ i, (s.phase i).Makes → s.name ≠ none ∧ first = none ∧
    (∀ j, .created j true ∉ s.log) ∧ ∀ j, (s.phase j).Makes → j = i
  won : ∀ i, .created i true ∈ s.log → s.name ≠ none ∧ first = none ∧
    ∀ j, .created j true ∈ s.log → j = i
  lost : ∀ i, .created i false ∈ s.log → current first s.log ≠ none ∧ ∀ d, .made i d ∉ s.log
  ended : ∀ i won, .created i won ∈ s.log → s.phase i = .done
  begun : ∀ i d, .made i d ∈ s.log → s.phase i ≠ .start

section

variable [DecidableEq ι] {calls : ι → Call} {first : Option Json} {s t : Directory ι} {i j : ι}
  {p : Phase} {x : ℕ} {log : List (Event ι)}

theorem mem_fair_of_current {d : Json} (hlooked : .looked i ∈ log)
    (h : current first log = some d) : d ∈ fair first i log := by
  induction log with
  | nil => cases hlooked
  | cons e log ih =>
    cases e with
    | looked j =>
      unfold fair
      split
      · exact Option.mem_toList.2 h
      · next hne =>
        refine ih ((List.mem_cons.1 hlooked).resolve_left ?_) h
        rintro ⟨⟩
        exact hne rfl
    | made j d' =>
      obtain rfl : d' = d := Option.some.inj h
      exact List.mem_cons_self
    | replaced j d' =>
      obtain rfl : d' = d := Option.some.inj h
      exact List.mem_cons_self
    | created j won => exact ih ((List.mem_cons.1 hlooked).resolve_left nofun) h
    | read j found => exact ih ((List.mem_cons.1 hlooked).resolve_left nofun) h

/-! ## One operation -/

/-- Where a call goes on without anything else. -/
theorem Directory.Inv.goto (hs : s.Inv first) (hi : s.phase i ≠ .done) (hp : p ≠ .start)
    (hholds : p.Holds → s.lock = some i) (hmakes : p.Makes → (s.phase i).Makes)
    (hstands : s.Stands first i p) : (s.goto i p).Inv first := by
  have hphase : ∀ j, j = i ∧ (s.goto i p).phase j = p ∨
      j ≠ i ∧ (s.goto i p).phase j = s.phase j := by
    intro j
    by_cases hj : j = i
    · subst hj
      exact .inl ⟨rfl, Function.update_self ..⟩
    · exact .inr ⟨hj, Function.update_of_ne hj ..⟩
  have hmaking : ∀ j, ((s.goto i p).phase j).Makes → (s.phase j).Makes := by
    intro j hj
    rcases hphase j with ⟨rfl, heq⟩ | ⟨-, heq⟩ <;> rw [heq] at hj
    · exact hmakes hj
    · exact hj
  refine ⟨fun j hj => ?_, fun j => ?_, hs.name, hs.tmp, hs.kept, fun j hj => ?_, hs.won, hs.lost,
    fun j won hj => ?_, fun j d hj => ?_⟩
  · rcases hphase j with ⟨rfl, heq⟩ | ⟨-, heq⟩ <;> rw [heq] at hj
    · exact hholds hj
    · exact hs.held j hj
  · rcases hphase j with ⟨rfl, heq⟩ | ⟨-, heq⟩ <;> rw [heq]
    · exact hstands
    · exact hs.stands j
  · obtain ⟨hname, hfirst, hnone, hone⟩ := hs.making j (hmaking j hj)
    exact ⟨hname, hfirst, hnone, fun k hk => hone k (hmaking k hk)⟩
  · rcases hphase j with ⟨rfl, -⟩ | ⟨-, heq⟩
    · exact absurd (hs.ended j won hj) hi
    · rw [heq]
      exact hs.ended j won hj
  · rcases hphase j with ⟨rfl, heq⟩ | ⟨-, heq⟩ <;> rw [heq]
    · exact hp
    · exact hs.begun j d hj

theorem stands_note {e : Event ι} (hcurrent : current first (e :: s.log) = current first s.log)
    (hfair : ∀ d ∈ fair first j s.log, d ∈ fair first j (e :: s.log))
    (h : s.Stands first j p) : (s.note e).Stands first j p := by
  cases p with
  | locking => exact ⟨List.mem_cons_of_mem _ h.1, hcurrent ▸ h.2⟩
  | opening => exact ⟨List.mem_cons_of_mem _ h.1, hcurrent ▸ h.2⟩
  | reading x => exact ⟨h.1, hfair _ h.2.1, hcurrent ▸ h.2.2⟩
  | filling y d => exact h
  | replacing d => exact h
  | writing x => exact h
  | _ => trivial

/-- What a call makes of the name is noted. -/
theorem Directory.Inv.note {e : Event ι} (hs : s.Inv first)
    (hcurrent : current first (e :: s.log) = current first s.log)
    (hstands : ∀ j, (s.note e).Stands first j (s.phase j)) (hmade : ∀ j d, e ≠ .made j d)
    (hwon : ∀ j, e = .created j true → s.name ≠ none ∧ first = none ∧
      (∀ k, .created k true ∉ s.log) ∧ ∀ k, ¬ (s.phase k).Makes)
    (hlost : ∀ j, e = .created j false → current first s.log ≠ none ∧ ∀ d, .made j d ∉ s.log)
    (hended : ∀ j won, e = .created j won → s.phase j = .done) : (s.note e).Inv first := by
  refine ⟨hs.held, hstands, fun x hx => ?_, hs.tmp, hs.kept, fun j hj => ?_, fun j hj => ?_,
    fun j hj => ?_, fun j won hj => ?_, fun j d hj => ?_⟩
  · obtain ⟨hreadable, hdoc⟩ := hs.name x hx
    exact ⟨hreadable, hcurrent.trans hdoc⟩
  · obtain ⟨hname, hfirst, hnone, hone⟩ := hs.making j hj
    refine ⟨hname, hfirst, fun k hk => ?_, hone⟩
    rcases List.mem_cons.1 hk with heq | hk
    · exact (hwon k heq.symm).2.2.2 j hj
    · exact hnone k hk
  · rcases List.mem_cons.1 hj with heq | hj
    · obtain ⟨hname, hfirst, hnone, -⟩ := hwon j heq.symm
      refine ⟨hname, hfirst, fun k hk => ?_⟩
      rcases List.mem_cons.1 hk with hk | hk
      · rw [← heq] at hk
        cases hk
        rfl
      · exact absurd hk (hnone k)
    · obtain ⟨hname, hfirst, hone⟩ := hs.won j hj
      refine ⟨hname, hfirst, fun k hk => ?_⟩
      rcases List.mem_cons.1 hk with heq | hk
      · exact absurd hj ((hwon k heq.symm).2.2.1 j)
      · exact hone k hk
  · rw [show current first (s.note e).log = _ from hcurrent]
    rcases List.mem_cons.1 hj with heq | hj
    · obtain ⟨hcur, hmine⟩ := hlost j heq.symm
      refine ⟨hcur, fun d hd => ?_⟩
      rcases List.mem_cons.1 hd with heq | hd
      · exact hmade j d heq.symm
      · exact hmine d hd
    · obtain ⟨hcur, hmine⟩ := hs.lost j hj
      refine ⟨hcur, fun d hd => ?_⟩
      rcases List.mem_cons.1 hd with heq | hd
      · exact hmade j d heq.symm
      · exact hmine d hd
  · rcases List.mem_cons.1 hj with heq | hj
    · exact hended j won heq.symm
    · exact hs.ended j won hj
  · rcases List.mem_cons.1 hj with heq | hj
    · exact absurd heq.symm (hmade j d)
    · exact hs.begun j d hj

/-- A call looks if there is a file. -/
theorem Directory.Inv.looked (hs : s.Inv first)
    (hi : s.phase i = .start ∨ s.phase i = .looking) : (s.note (.looked i)).Inv first := by
  refine hs.note rfl (fun j => ?_) nofun nofun nofun nofun
  by_cases hj : j = i
  · subst hj
    rcases hi with hi | hi <;> rw [hi] <;> trivial
  · refine stands_note rfl (fun d hd => ?_) (hs.stands j)
    rw [fair, if_neg (Ne.symm hj)]
    exact hd

theorem Directory.Inv.read (hs : s.Inv first) (found : Option Json) :
    (s.note (.read i found)).Inv first :=
  hs.note rfl (fun j => stands_note rfl (fun _ => id) (hs.stands j)) nofun nofun nofun nofun

/-- A call that holds the lock goes on with what it has found. -/
theorem Directory.Inv.found (hs : s.Inv first) (hi : (s.phase i).Holds) (found : Option Json) :
    (s.found calls i found).Inv first := by
  have hresume : (calls i).resume found = .unlocking ∨
      ∃ d, (calls i).resume found = .preparing d := by
    unfold Call.resume
    split
    · next mutate _ =>
      cases mutate found with
      | none => exact .inl rfl
      | some d => exact .inr ⟨d, rfl⟩
    · exact .inl rfl
  have hdone : s.phase i ≠ .done := by
    intro hdone
    rw [hdone] at hi
    exact hi
  refine Directory.Inv.read ?_ found
  have hlock := hs.held i hi
  rcases hresume with heq | ⟨d, heq⟩ <;> rw [heq]
  · exact hs.goto hdone nofun (fun _ => hlock) nofun trivial
  · exact hs.goto hdone nofun (fun _ => hlock) nofun trivial

/-- A call takes the lock. -/
theorem Directory.Inv.locks (hs : s.Inv first) (hlock : s.lock = none) (hi : s.phase i ≠ .done)
    (hp : p.Holds) (hmakes : ¬ p.Makes) (hstands : s.Stands first i p) :
    ({ s with lock := some i }.goto i p).Inv first := by
  have hfree : ∀ j, ¬ (s.phase j).Holds := fun j hj => by
    have hheld := hs.held j hj
    rw [hlock] at hheld
    cases hheld
  have hlocked : ({ s with lock := some i } : Directory ι).Inv first :=
    ⟨fun j hj => absurd hj (hfree j), hs.stands, hs.name, hs.tmp, hs.kept, hs.making, hs.won,
      hs.lost, hs.ended, hs.begun⟩
  refine hlocked.goto hi ?_ (fun _ => rfl) (fun h => absurd h hmakes) hstands
  rintro rfl
  exact hp

/-- A call gives the lock back. -/
theorem Directory.Inv.unlocks (hs : s.Inv first) (hi : s.phase i = .unlocking) :
    ({ s with lock := none }.goto i .done).Inv first := by
  have hdone : (s.goto i .done).Inv first :=
    hs.goto (by rw [hi]; nofun) nofun nofun nofun trivial
  refine ⟨fun j hj => ?_, hdone.stands, hdone.name, hdone.tmp, hdone.kept, hdone.making, hdone.won,
    hdone.lost, hdone.ended, hdone.begun⟩
  have hheld := hdone.held j hj
  have hmine := hs.held i (by rw [hi]; trivial)
  obtain rfl : i = j := Option.some.inj (hmine.symm.trans hheld)
  change (Function.update s.phase i .done i).Holds at hj
  rw [Function.update_self] at hj
  exact hj.elim

/-! ## One operation on the files -/

omit [DecidableEq ι] in
theorem readable_put {f : File ι} {z : ℕ} (h : s.Readable z) (hz : z ≠ x) :
    (s.put x f).Readable z := by
  refine ⟨Nat.lt_of_lt_of_le h.1 (Nat.le_max_left ..), h.2.1, ?_⟩
  change (Function.update s.file x f z).Sound
  rw [Function.update_of_ne hz]
  exact h.2.2

omit [DecidableEq ι] in
theorem readable_put_self {f : File ι} (htmp : s.tmp ≠ some x) (hf : f.Sound) :
    (s.put x f).Readable x := by
  refine ⟨Nat.lt_of_lt_of_le (Nat.lt_succ_self x) (Nat.le_max_right ..), htmp, ?_⟩
  change (Function.update s.file x f x).Sound
  rw [Function.update_self]
  exact hf

omit [DecidableEq ι] in
theorem put_of_ne {f : File ι} {z : ℕ} (hz : z ≠ x) : (s.put x f).file z = s.file z :=
  Function.update_of_ne hz ..

omit [DecidableEq ι] in
theorem put_self {f : File ι} : (s.put x f).file x = f := Function.update_self ..

/-- Whoever holds the lock holds it alone. -/
theorem Directory.Inv.alone (hs : s.Inv first) (hi : (s.phase i).Holds) (hj : (s.phase j).Holds) :
    j = i :=
  Option.some.inj ((hs.held j hj).symm.trans (hs.held i hi))

/-- A file is written further by the one that may. -/
theorem Directory.Inv.extend {n : ℕ} (hs : s.Inv first)
    (hi : s.phase i = .writing x ∨ ∃ d, s.phase i = .filling x d) (ht : s.extend x n = some t) :
    t.Inv first := by
  unfold Directory.extend at ht
  split at ht <;> cases ht
  have hstands := hs.stands i
  -- the call writes to a file that it has made, or to the temporary one
  have hwho : s.tmp = some x ∧ (∃ d, s.phase i = .filling x d) ∨
      s.Readable x ∧ (s.file x).creator = some i := by
    rcases hi with hi | ⟨d, hi⟩ <;> rw [hi] at hstands
    · exact .inr hstands
    · exact .inl ⟨hstands.1, d, hi⟩
  have hreadable : ∀ z, s.Readable z → (s.put x ((s.file x).upTo n)).Readable z := by
    intro z hz
    by_cases hzx : z = x
    · subst hzx
      rcases hwho with ⟨htmp, -⟩ | ⟨-, hcreator⟩
      · exact absurd htmp hz.2.1
      · refine readable_put_self hz.2.1 ⟨List.take_prefix .., fun hnone => ?_⟩
        exact absurd (hcreator.symm.trans hnone) nofun
    · exact readable_put hz hzx
  have hfile : ∀ z, ((s.put x ((s.file x).upTo n)).file z).document = (s.file z).document ∧
      ((s.put x ((s.file x).upTo n)).file z).creator = (s.file z).creator := by
    intro z
    by_cases hzx : z = x
    · subst hzx
      rw [put_self]
      exact ⟨rfl, rfl⟩
    · rw [put_of_ne hzx]
      exact ⟨rfl, rfl⟩
  refine ⟨hs.held, fun j => ?_, fun z hz => ?_, fun y hy => ?_, hs.kept, hs.making, hs.won, hs.lost,
    hs.ended, hs.begun⟩
  · have hj := hs.stands j
    change Directory.Stands first _ j (s.phase j)
    cases hphase : s.phase j with
    | locking =>
      rw [hphase] at hj
      exact hj
    | opening =>
      rw [hphase] at hj
      exact hj
    | reading z =>
      rw [hphase] at hj
      refine ⟨hreadable z hj.1, ?_, hj.2.2⟩
      rw [(hfile z).1]
      exact hj.2.1
    | filling y d =>
      rw [hphase] at hj
      exact ⟨hj.1, (hfile y).1.trans hj.2⟩
    | replacing d =>
      rw [hphase] at hj
      obtain ⟨y, htmp, hdoc, hcontent⟩ := hj
      refine ⟨y, htmp, (hfile y).1.trans hdoc, ?_⟩
      have hyx : y ≠ x := by
        rintro rfl
        rcases hwho with ⟨-, d', hi⟩ | ⟨hx, -⟩
        · have hij : j = i := hs.alone (by rw [hi]; trivial) (by rw [hphase]; trivial)
          rw [hij, hi] at hphase
          cases hphase
        · exact hx.2.1 htmp
      rw [put_of_ne hyx]
      exact hcontent
    | writing z =>
      rw [hphase] at hj
      exact ⟨hreadable z hj.1, (hfile z).2.trans hj.2⟩
    | _ => trivial
  · obtain ⟨hz, hdoc⟩ := hs.name z hz
    refine ⟨hreadable z hz, ?_⟩
    rw [(hfile z).1]
    exact hdoc
  · obtain ⟨hlt, hcreator⟩ := hs.tmp y hy
    exact ⟨Nat.lt_of_lt_of_le hlt (Nat.le_max_left ..), (hfile y).2.trans hcreator⟩

/-- A call stands where it stood, if what may be read stays, and nobody but the one that holds the
lock has touched the temporary file. -/
theorem stands_frame (hreadable : ∀ z, s.Readable z → t.Readable z ∧ t.file z = s.file z)
    (hlog : ∀ e ∈ s.log, e ∈ t.log) (hfair : ∀ d ∈ fair first j s.log, d ∈ fair first j t.log)
    (hcurrent : current first s.log ≠ none → current first t.log ≠ none)
    (htmp : p.Holds → t.tmp = s.tmp ∧ ∀ y, s.tmp = some y → t.file y = s.file y)
    (h : s.Stands first j p) : t.Stands first j p := by
  cases p with
  | locking => exact ⟨hlog _ h.1, hcurrent h.2⟩
  | opening => exact ⟨hlog _ h.1, hcurrent h.2⟩
  | reading z =>
    obtain ⟨hz, hfile⟩ := hreadable z h.1
    refine ⟨hz, ?_, hcurrent h.2.2⟩
    rw [hfile]
    exact hfair _ h.2.1
  | filling y d =>
    obtain ⟨hsame, hfile⟩ := htmp trivial
    exact ⟨hsame.trans h.1, (congrArg _ (hfile y h.1)).trans h.2⟩
  | replacing d =>
    obtain ⟨hsame, hfile⟩ := htmp trivial
    obtain ⟨y, hy, hdoc, hcontent⟩ := h
    refine ⟨y, hsame.trans hy, ?_, ?_⟩
    · rw [hfile y hy]
      exact hdoc
    · rw [hfile y hy]
      exact hcontent
  | writing z =>
    obtain ⟨hz, hfile⟩ := hreadable z h.1
    exact ⟨hz, (congrArg _ hfile).trans h.2⟩
  | _ => trivial

/-- The phases after one call has moved. -/
theorem phase_update {f : ι → Phase} {q : Phase} {P : ι → Phase → Prop} (hi : P i q)
    (hother : ∀ j, j ≠ i → P j (f j)) (j : ι) : P j (Function.update f i q j) := by
  by_cases hj : j = i
  · subst hj
    rw [Function.update_self]
    exact hi
  · rw [Function.update_of_ne hj]
    exact hother j hj

theorem create_of_none {d : Document} (hname : s.name = none) : s.create i d =
    (({ s with name := some s.size }.put s.size ⟨[], d, some i⟩).goto i (.writing s.size)).note
      (.made i d.json) := by
  unfold Directory.create
  rw [hname]

/-- A `create_json` makes the file. -/
theorem Directory.Inv.makes {d : Document} (hs : s.Inv first) (hi : s.phase i = .start)
    (hname : s.name = none) : (s.create i d).Inv first := by
  have hfirst : first = none := by
    by_contra hne
    exact hs.kept hne hname
  have hnone : ∀ j, ¬ (s.phase j).Makes := fun j hj => (hs.making j hj).1 hname
  have hnotwon : ∀ j, .created j true ∉ s.log := fun j hj => (hs.won j hj).1 hname
  have hsize : s.tmp ≠ some s.size := fun htmp => Nat.lt_irrefl _ (hs.tmp _ htmp).1
  rw [create_of_none hname]
  set made : Directory ι := (({ s with name := some s.size }.put s.size ⟨[], d, some i⟩).goto i
    (.writing s.size)).note (.made i d.json)
  have hreadable : ∀ z, s.Readable z → made.Readable z ∧ made.file z = s.file z := by
    intro z hz
    have hne := Nat.ne_of_lt hz.1
    exact ⟨readable_put (s := { s with name := some s.size }) hz hne, put_of_ne hne⟩
  have hnew : made.Readable s.size ∧ made.file s.size = ⟨[], d, some i⟩ :=
    ⟨readable_put_self (s := { s with name := some s.size }) hsize ⟨List.nil_prefix, nofun⟩,
      put_self⟩
  have htmp : ∀ y, s.tmp = some y → made.file y = s.file y := fun y hy =>
    put_of_ne (Nat.ne_of_lt (hs.tmp y hy).1)
  have hlog : made.log = .made i d.json :: s.log := rfl
  have hphase : made.phase = Function.update s.phase i (.writing s.size) := rfl
  have hcurrent : current first made.log = some d.json := rfl
  refine ⟨?_, ?_, fun z hz => ?_, fun y hy => ?_, fun h => absurd hfirst h, ?_, fun j hj => ?_,
    fun j hj => ?_, fun j won hj => ?_, fun j d' hj => ?_⟩
  · exact phase_update (P := fun j p => p.Holds → s.lock = some j) nofun fun j _ => hs.held j
  · rw [hphase]
    refine phase_update (P := fun j p => made.Stands first j p) ⟨hnew.1, ?_⟩ fun j _ => ?_
    · rw [hnew.2]
    · refine stands_frame hreadable (fun e => List.mem_cons_of_mem _)
        (fun d' => List.mem_cons_of_mem _) (fun _ => ?_) (fun _ => ⟨rfl, htmp⟩) (hs.stands j)
      rw [hcurrent]
      nofun
  · obtain rfl : s.size = z := Option.some.inj hz
    rw [hcurrent, hnew.2]
    exact ⟨hnew.1, rfl⟩
  · obtain ⟨hlt, hcreator⟩ := hs.tmp y hy
    exact ⟨Nat.lt_of_lt_of_le hlt (Nat.le_max_left ..), (congrArg _ (htmp y hy)).trans hcreator⟩
  · rw [hphase, hlog]
    have hmine : ∀ j, (Function.update s.phase i (.writing s.size) j).Makes → j = i :=
      phase_update (P := fun j p => p.Makes → j = i) (fun _ => rfl) fun j _ hj =>
        absurd hj (hnone j)
    refine fun j hj => ⟨nofun, hfirst, fun k hk => ?_, fun k hk => ?_⟩
    · exact hnotwon k ((List.mem_cons.1 hk).resolve_left nofun)
    · rw [hmine j hj, hmine k hk]
  · rw [hlog] at hj
    exact absurd ((List.mem_cons.1 hj).resolve_left nofun) (hnotwon j)
  · rw [hlog] at hj
    replace hj := (List.mem_cons.1 hj).resolve_left nofun
    refine ⟨by rw [hcurrent]; nofun, fun d' hd' => ?_⟩
    rw [hlog] at hd'
    rcases List.mem_cons.1 hd' with heq | hd'
    · cases heq
      exact absurd ((hs.ended i false hj).symm.trans hi) nofun
    · exact (hs.lost j hj).2 d' hd'
  · rw [hlog] at hj
    replace hj := hs.ended j won ((List.mem_cons.1 hj).resolve_left nofun)
    have hji : j ≠ i := by
      rintro rfl
      exact absurd (hj.symm.trans hi) nofun
    rw [hphase, Function.update_of_ne hji]
    exact hj
  · rw [hlog] at hj
    rw [hphase]
    by_cases hji : j = i
    · subst hji
      rw [Function.update_self]
      nofun
    · rw [Function.update_of_ne hji]
      refine hs.begun j d' ((List.mem_cons.1 hj).resolve_left ?_)
      rintro ⟨⟩
      exact hji rfl

/-- The temporary file is opened, or made. -/
theorem Directory.Inv.prepares {d : Document} (hs : s.Inv first) (hi : s.phase i = .preparing d) :
    (s.prepare i d).Inv first := by
  have hholds : (s.phase i).Holds := by
    rw [hi]
    trivial
  have hne : ∀ z, s.Readable z → z ≠ s.tmp.getD s.size := by
    rintro z hz rfl
    cases htmp : s.tmp with
    | none =>
      rw [htmp] at hz
      exact Nat.lt_irrefl _ hz.1
    | some y =>
      rw [htmp] at hz
      exact hz.2.1 htmp
  have hreadable : ∀ z, s.Readable z → (s.prepare i d).Readable z ∧
      (s.prepare i d).file z = s.file z := by
    intro z hz
    refine ⟨readable_put (s := { s with tmp := some (s.tmp.getD s.size) }) ⟨hz.1, ?_, hz.2.2⟩
      (hne z hz), put_of_ne (hne z hz)⟩
    intro heq
    exact hne z hz (Option.some.inj heq).symm
  have hmaking : ∀ j, ((s.prepare i d).phase j).Makes → (s.phase j).Makes :=
    phase_update (P := fun j p => p.Makes → (s.phase j).Makes) nofun fun j _ => id
  refine ⟨?_, ?_, fun z hz => ?_, fun y hy => ?_, hs.kept, fun j hj => ?_, hs.won, hs.lost, ?_, ?_⟩
  · exact phase_update (P := fun j p => p.Holds → s.lock = some j) (fun _ => hs.held i hholds)
      fun j _ => hs.held j
  · refine phase_update (P := fun j p => (s.prepare i d).Stands first j p) ⟨rfl, ?_⟩
      fun j hji => ?_
    · exact congrArg File.document put_self
    · exact stands_frame hreadable (fun _ => id) (fun _ => id) id
        (fun hj => absurd (hs.alone hholds hj) hji) (hs.stands j)
  · obtain ⟨hz', hdoc⟩ := hs.name z hz
    obtain ⟨hnow, hfile⟩ := hreadable z hz'
    rw [hfile]
    exact ⟨hnow, hdoc⟩
  · obtain rfl : s.tmp.getD s.size = y := Option.some.inj hy
    exact ⟨Nat.lt_of_lt_of_le (Nat.lt_succ_self _) (Nat.le_max_right ..),
      congrArg File.creator put_self⟩
  · obtain ⟨hname, hfirst, hnone, hone⟩ := hs.making j (hmaking j hj)
    exact ⟨hname, hfirst, hnone, fun k hk => hone k (hmaking k hk)⟩
  · refine phase_update (P := fun j p => ∀ won, .created j won ∈ s.log → p = .done)
      (fun won hwon => ?_) fun j _ => hs.ended j
    exact absurd ((hs.ended i won hwon).symm.trans hi) nofun
  · exact phase_update (q := .filling (s.tmp.getD s.size) d)
      (P := fun j p => ∀ d, .made j d ∈ s.log → p ≠ .start) nofun fun j _ => hs.begun j

/-- The temporary file is renamed. -/
theorem Directory.Inv.replaces {d : Document} {y : ℕ} (hs : s.Inv first)
    (hi : s.phase i = .replacing d) (hy : s.tmp = some y) :
    (({ s with name := some y, tmp := none }.goto i .unlocking).note
      (.replaced i d.json)).Inv first := by
  have hholds : (s.phase i).Holds := by
    rw [hi]
    trivial
  obtain ⟨y', hy', hdoc, hcontent⟩ : s.Stands first i (.replacing d) := hi ▸ hs.stands i
  obtain rfl : y' = y := Option.some.inj (hy'.symm.trans hy)
  obtain ⟨hlt, hcreator⟩ := hs.tmp y' hy
  have hmaking : ∀ j, (Function.update s.phase i .unlocking j).Makes → (s.phase j).Makes :=
    phase_update (P := fun j p => p.Makes → (s.phase j).Makes) nofun fun j _ => id
  refine ⟨?_, ?_, fun z hz => ?_, nofun, fun _ => nofun, fun j hj => ?_, fun j hj => ?_,
    fun j hj => ?_, fun j won hj => ?_, fun j d' hj => ?_⟩
  · exact phase_update (P := fun j p => p.Holds → s.lock = some j) (fun _ => hs.held i hholds)
      fun j _ => hs.held j
  · refine phase_update (q := .unlocking) (P := fun j p => (({ s with name := some y', tmp :=
      none }.goto i .unlocking).note (.replaced i d.json)).Stands first j p) trivial
      fun j hji => ?_
    exact stands_frame (s := s) (fun z hz => ⟨⟨hz.1, nofun, hz.2.2⟩, rfl⟩)
      (fun e he => List.mem_cons_of_mem _ he) (fun d' hd' => List.mem_cons_of_mem _ hd')
      (fun _ => nofun) (fun hj => absurd (hs.alone hholds hj) hji) (hs.stands j)
  · obtain rfl : y' = z := Option.some.inj hz
    refine ⟨⟨hlt, nofun, ?_, fun _ => ?_⟩, ?_⟩
    · change (s.file y').content <+: (s.file y').document.dump
      rw [hcontent, hdoc]
    · change (s.file y').content = (s.file y').document.dump
      rw [hcontent, hdoc]
    · exact congrArg (some ∘ Document.json) hdoc.symm
  · obtain ⟨-, hfirst, hnone, hone⟩ := hs.making j (hmaking j hj)
    exact ⟨nofun, hfirst, fun k hk => hnone k ((List.mem_cons.1 hk).resolve_left nofun),
      fun k hk => hone k (hmaking k hk)⟩
  · obtain ⟨-, hfirst, hone⟩ := hs.won j ((List.mem_cons.1 hj).resolve_left nofun)
    exact ⟨nofun, hfirst, fun k hk => hone k ((List.mem_cons.1 hk).resolve_left nofun)⟩
  · obtain ⟨-, hmine⟩ := hs.lost j ((List.mem_cons.1 hj).resolve_left nofun)
    exact ⟨nofun, fun d' hd' => hmine d' ((List.mem_cons.1 hd').resolve_left nofun)⟩
  · refine phase_update (P := fun j p => ∀ won, .created j won ∈ s.log → p = .done)
      (fun won hwon => ?_) (fun j _ => hs.ended j) j won ((List.mem_cons.1 hj).resolve_left nofun)
    exact absurd ((hs.ended i won hwon).symm.trans hi) nofun
  · exact phase_update (q := .unlocking) (P := fun j p => ∀ d, .made j d ∈ s.log → p ≠ .start)
      nofun (fun j _ => hs.begun j) j d' ((List.mem_cons.1 hj).resolve_left nofun)

/-- A `create_json` that could not write its document removes the file. -/
theorem Directory.Inv.unlinks {name : Option ℕ} (hs : s.Inv first) (hi : s.phase i = .unlinking)
    (hname : ∀ x, name = some x → s.name = some x) :
    ({ s with name := name }.goto i .done).Inv first := by
  obtain ⟨-, hfirst, hnone, hone⟩ := hs.making i (by rw [hi]; trivial)
  have hdone : (s.goto i .done).Inv first :=
    hs.goto (by rw [hi]; nofun) nofun nofun nofun trivial
  have hnobody : ∀ j, ¬ (Function.update s.phase i .done j).Makes :=
    phase_update (P := fun j p => ¬ p.Makes) id fun j hji hj => hji (hone j hj)
  exact ⟨hdone.held, hdone.stands, fun z hz => hdone.name z (hname z hz), hdone.tmp,
    fun hne => absurd hfirst hne, fun j hj => absurd hj (hnobody j),
    fun j hj => absurd hj (hnone j), hdone.lost, hdone.ended, hdone.begun⟩

/-- `create_json` finds a file. -/
theorem Directory.Inv.refused (hs : s.Inv first) (hi : s.phase i = .start) (hname : s.name = some x) :
    ((s.goto i .done).note (.created i false)).Inv first := by
  have hdone : (s.goto i .done).Inv first :=
    hs.goto (by rw [hi]; nofun) nofun nofun nofun trivial
  refine hdone.note rfl (fun j => stands_note rfl (fun _ => id) (hdone.stands j)) nofun nofun
    (fun j hj => ?_) fun j won hj => ?_
  · cases hj
    refine ⟨?_, fun d hd => hs.begun i d hd hi⟩
    rw [show current first (s.goto i .done).log = _ from (hs.name x hname).2]
    nofun
  · cases hj
    exact Function.update_self ..

/-- `create_json` has written its document. -/
theorem Directory.Inv.wins (hs : s.Inv first) (hi : s.phase i = .writing x) :
    ((s.goto i .done).note (.created i true)).Inv first := by
  obtain ⟨hname, hfirst, hnone, hone⟩ := hs.making i (by rw [hi]; trivial)
  have hdone : (s.goto i .done).Inv first :=
    hs.goto (by rw [hi]; nofun) nofun nofun nofun trivial
  refine hdone.note rfl (fun j => stands_note rfl (fun _ => id) (hdone.stands j)) nofun
    (fun j _ => ⟨hname, hfirst, hnone, ?_⟩) nofun fun j won hj => ?_
  · exact phase_update (P := fun j p => ¬ p.Makes) id fun j hji hj => hji (hone j hj)
  · cases hj
    exact Function.update_self ..

/-! ## A step -/

/-- The operations keep the invariant. -/
theorem inv_next {ok : Bool} (hs : s.Inv first) (ht : s.next calls i ok = some t) :
    t.Inv first := by
  have hi : ∀ {q}, s.phase i = q → q ≠ .done → s.phase i ≠ .done := fun h hq => h ▸ hq
  have hstands := hs.stands i
  have hheld := hs.held i
  have hlooked := hs.looked (i := i)
  unfold Directory.next at ht
  split at ht
  · next hphase =>
    have hi := hi hphase nofun
    split at ht
    · cases ht
      split
      · unfold Directory.create
        split
        · next x hname => exact hs.refused hphase hname
        · next hname =>
          have hmade := hs.makes (d := ‹Document›) hphase hname
          rwa [create_of_none hname] at hmade
      · exact hs.goto hi nofun nofun nofun trivial
    · have hlooked := hlooked (.inl hphase)
      cases ht
      split
      · exact hlooked.goto hi nofun nofun nofun trivial
      · split
        · next hname =>
          obtain ⟨x, hx⟩ := Option.isSome_iff_exists.1 hname
          refine hlooked.goto hi nofun nofun nofun ⟨List.mem_cons_self, ?_⟩
          rw [(hlooked.name x hx).2]
          nofun
        · exact (hlooked.goto (p := .done) hi nofun nofun nofun trivial).read none
    · split at ht
      · cases ht
        exact hs.goto hi nofun nofun nofun trivial
      · split at ht <;> cases ht
        next hlock =>
          exact hs.locks (Option.isNone_iff_eq_none.1 hlock) hi trivial id trivial
    · split at ht
      · cases ht
        exact hs.goto hi nofun nofun nofun trivial
      · split at ht <;> cases ht
        next hlock =>
          exact hs.locks (Option.isNone_iff_eq_none.1 hlock) hi trivial id trivial
  · next hphase =>
    have hi := hi hphase nofun
    rw [hphase] at hstands
    split at ht
    · cases ht
      exact hs.goto hi nofun nofun nofun trivial
    · split at ht <;> cases ht
      next hlock =>
        exact hs.locks (Option.isNone_iff_eq_none.1 hlock) hi trivial id hstands
  · next hphase =>
    have hi := hi hphase nofun
    have hlooked := hlooked (.inr hphase)
    have hlock : s.lock = some i := hheld (by rw [hphase]; trivial)
    cases ht
    split
    · exact hlooked.goto hi nofun (fun _ => hlock) nofun trivial
    · split
      · next hname =>
        obtain ⟨x, hx⟩ := Option.isSome_iff_exists.1 hname
        refine hlooked.goto hi nofun (fun _ => hlock) nofun ⟨List.mem_cons_self, ?_⟩
        rw [(hlooked.name x hx).2]
        nofun
      · exact hlooked.found (by change (s.phase i).Holds; rw [hphase]; trivial) none
  · next hphase =>
    have hi := hi hphase nofun
    have hlock : s.lock = some i := hheld (by rw [hphase]; trivial)
    rw [hphase] at hstands
    split at ht <;> cases ht
    · next x hx =>
      split at hx
      · obtain ⟨hreadable, hdoc⟩ := hs.name x hx
        exact hs.goto hi nofun (fun _ => hlock) nofun
          ⟨hreadable, mem_fair_of_current hstands.1 hdoc, hstands.2⟩
      · cases hx
    · exact hs.found (by rw [hphase]; trivial) none
  · next x hphase =>
    cases ht
    exact hs.found (by rw [hphase]; trivial) _
  · next d hphase =>
    have hlock : s.lock = some i := hheld (by rw [hphase]; trivial)
    cases ht
    split
    · exact hs.prepares hphase
    · exact hs.goto (hi hphase nofun) nofun (fun _ => hlock) nofun trivial
  · next y d hphase =>
    have hlock : s.lock = some i := hheld (by rw [hphase]; trivial)
    rw [hphase] at hstands
    split at ht
    · cases ht
      exact hs.goto (hi hphase nofun) nofun (fun _ => hlock) nofun trivial
    · split at ht <;> cases ht
      next hcontent =>
        exact hs.goto (hi hphase nofun) nofun (fun _ => hlock) nofun
          ⟨y, hstands.1, hstands.2, hcontent⟩
  · next d hphase =>
    have hlock : s.lock = some i := hheld (by rw [hphase]; trivial)
    split at ht <;> cases ht
    · next y hy =>
      split at hy
      · exact hs.replaces hphase hy
      · cases hy
    · exact hs.goto (hi hphase nofun) nofun (fun _ => hlock) nofun trivial
  · next x hphase =>
    split at ht
    · cases ht
      exact hs.goto (hi hphase nofun) nofun nofun (fun _ => by rw [hphase]; trivial) trivial
    · split at ht <;> cases ht
      exact hs.wins hphase
  · next hphase =>
    cases ht
    refine hs.unlinks hphase fun x hx => ?_
    split at hx
    · cases hx
    · exact hx
  · next hphase =>
    cases ht
    exact hs.unlocks hphase
  · cases ht

theorem inv_step {a : Action ι} (hs : s.Inv first) (ht : s.step calls a = some t) :
    t.Inv first := by
  cases a with
  | next i ok => exact inv_next hs ht
  | write i n =>
    simp only [Directory.step] at ht
    split at ht
    · next y d hphase => exact hs.extend (.inr ⟨d, hphase⟩) ht
    · next x hphase => exact hs.extend (.inl hphase) ht
    · cases ht

/-! ## What is read -/

omit [DecidableEq ι] in
theorem current_eq_none : current first log = none ↔ documents log = [] ∧ first = none := by
  rw [current, Option.or_eq_none_iff, List.head?_eq_none_iff]

/-- A call that looks finds nothing where there is no file, and fairly where there never was. -/
theorem fair_looked (hs : s.Inv first) (hname : s.name = none) :
    Fair first (.looked i :: s.log) i none ↔ documents s.log = [] := by
  have hfirst : first = none := by
    by_contra hne
    exact hs.kept hne hname
  constructor
  · intro h
    exact (current_eq_none.1 h.1).1
  · intro h
    refine ⟨current_eq_none.2 ⟨h, hfirst⟩, fun j hj => ?_⟩
    exact (hs.lost j ((List.mem_cons.1 hj).resolve_left nofun)).1 (current_eq_none.2 ⟨h, hfirst⟩)

theorem Document.dump_head (d : Document) : ∀ c ∈ d.dump.head?, c = '{' := by
  obtain ⟨json, hvalid, hobject⟩ := d
  cases json with
  | scalar v => cases hobject
  | array l => cases hobject
  | object items =>
    rintro c hc
    cases items with
    | nil => exact (Option.some.inj hc).symm
    | cons item items => exact (Option.some.inj hc).symm

theorem loads_dump (d : Document) : loads d.dump = some d.json := loads_write indented d.valid

/-- A document that is cut short is not read. -/
theorem loads_eq_none {d : Document} {content : Text} (h : content <+: d.dump)
    (hne : content ≠ d.dump) : loads content = none := by
  obtain ⟨rest, hrest⟩ := h
  have hwrite : d.dump = content ++ rest := hrest.symm
  refine loads_eq_none_of_cut d.valid hwrite ?_ fun c hc => ?_
  · rintro rfl
    exact hne ((List.append_nil content).symm.trans hrest)
  · refine .inr (.inr (d.dump_head c ?_))
    rw [← hrest, List.head?_append]
    rw [Option.mem_def.1 hc]
    rfl

/-- What is read of a file is its document, or nothing while it is unfinished. -/
theorem fair_loads (hx : s.Readable x) (hfair : (s.file x).document.json ∈ fair first i s.log)
    (hcurrent : current first s.log ≠ none) :
    Fair first s.log i (loads (s.file x).content) ↔ ¬ (s.file x).Unfinished := by
  by_cases hcontent : (s.file x).content = (s.file x).document.dump
  · rw [hcontent, loads_dump]
    exact iff_of_true hfair fun h => h.2 hcontent
  · rw [loads_eq_none hx.2.2.1 hcontent]
    refine iff_of_false (fun h => hcurrent h.1) fun h => h ⟨?_, hcontent⟩
    rw [Option.isSome_iff_ne_none]
    exact fun hnone => hcontent (hx.2.2.2 hnone)

/-- A look under the name, from which a call ends, finds a file, or finds none. -/
theorem readFairly_looked {ok : Bool} {ended found absent : Directory ι} (hs : s.Inv first)
    (hended : ended.log = .looked i :: s.log) (hfound : found.log = .looked i :: s.log)
    (habsent : absent.log = .read i none :: .looked i :: s.log) :
    ReadFairly first
        (if !ok then ended else if (s.note (.looked i)).name.isSome then found else absent).log ↔
      ReadFairly first s.log ∧ (ok = true → s.name = none → documents s.log = []) := by
  cases ok with
  | false =>
    rw [if_pos (by decide), hended]
    exact ⟨fun h => ⟨h, nofun⟩, And.left⟩
  | true =>
    rw [if_neg (by decide)]
    cases hname : s.name with
    | some x =>
      rw [if_pos (show (s.note (.looked i)).name.isSome = true from hname ▸ rfl), hfound]
      exact ⟨fun h => ⟨h, fun _ => nofun⟩, And.left⟩
    | none =>
      rw [if_neg (show ¬ (s.note (.looked i)).name.isSome = true from hname ▸ nofun), habsent]
      refine (and_comm.trans (and_congr Iff.rfl ?_))
      exact (fair_looked hs hname).trans ⟨fun h _ _ => h, fun h => h rfl rfl⟩

/-- A step reads fairly exactly if it reads whole. -/
theorem readFairly_next {ok : Bool} (hs : s.Inv first) (ht : s.next calls i ok = some t) :
    ReadFairly first t.log ↔ ReadFairly first s.log ∧ ReadsWhole calls s (.next i ok) := by
  have hstands := hs.stands i
  have hsame : ∀ {C : Prop}, C → (ReadFairly first s.log ↔ ReadFairly first s.log ∧ C) :=
    fun hc => ⟨fun h => ⟨h, hc⟩, And.left⟩
  unfold Directory.next at ht
  simp only [ReadsWhole]
  split at ht
  · next hphase =>
    rw [hphase]
    split at ht
    · next d hcall =>
      rw [hcall]
      refine Iff.trans ?_ (hsame trivial)
      cases ht
      split
      · unfold Directory.create
        split <;> exact Iff.rfl
      · exact Iff.rfl
    · next hcall =>
      rw [hcall]
      cases ht
      exact readFairly_looked hs rfl rfl rfl
    all_goals
      next hcall =>
        rw [hcall]
        split at ht
        · cases ht
          exact hsame trivial
        · split at ht <;> cases ht
          exact hsame trivial
  · next hphase =>
    rw [hphase]
    split at ht
    · cases ht
      exact hsame trivial
    · split at ht <;> cases ht
      exact hsame trivial
  · next hphase =>
    rw [hphase]
    cases ht
    exact readFairly_looked hs rfl rfl rfl
  · next hphase =>
    rw [hphase] at hstands
    rw [hphase]
    split at ht <;> cases ht
    · next x hx =>
      split at hx
      · next hok => exact hsame ⟨hok, by rw [hx]; nofun⟩
      · cases hx
    · next hx =>
      refine (and_comm.trans (and_congr Iff.rfl ?_))
      refine iff_of_false (fun h => hstands.2 h.1) fun h => ?_
      rw [if_pos h.1] at hx
      exact h.2 hx
  · next x hphase =>
    rw [hphase] at hstands
    rw [hphase]
    cases ht
    refine (and_comm.trans (and_congr Iff.rfl ?_))
    cases ok with
    | false => exact iff_of_false (fun h => hstands.2.2 h.1) nofun
    | true =>
      exact (fair_loads hstands.1 hstands.2.1 hstands.2.2).trans ⟨fun h => ⟨rfl, h⟩, And.right⟩
  · next d hphase =>
    rw [hphase]
    cases ht
    split <;> exact hsame trivial
  · next y d hphase =>
    rw [hphase]
    split at ht
    · cases ht
      exact hsame trivial
    · split at ht <;> cases ht
      exact hsame trivial
  · next d hphase =>
    rw [hphase]
    split at ht <;> cases ht <;> exact hsame trivial
  · next x hphase =>
    rw [hphase]
    split at ht
    · cases ht
      exact hsame trivial
    · split at ht <;> cases ht
      exact hsame trivial
  · next hphase =>
    rw [hphase]
    cases ht
    exact hsame trivial
  · next hphase =>
    rw [hphase]
    cases ht
    exact hsame trivial
  · cases ht

/-! ## A run -/

/-- The document under the name. -/
def Directory.document (s : Directory ι) : Option Json := s.name.map fun x => (s.file x).document.json

theorem inv_fresh (hs : s.Fresh) : s.Inv s.document := by
  have hphase := hs.phase
  have hlog := hs.log
  refine ⟨fun i => ?_, fun i => ?_, fun x hx => ⟨⟨(hs.files x (.inl hx)).1, (hs.name x hx).1, ?_⟩, ?_⟩,
    fun y hy => hs.files y (.inr hy), fun hne hname => ?_, fun i => ?_, fun i => ?_, fun i => ?_,
    fun i won => ?_, fun i d => ?_⟩
  · rw [hphase]
    nofun
  · rw [hphase]
    trivial
  · have hcontent := (hs.name x hx).2
    exact ⟨hcontent ▸ List.prefix_rfl, fun _ => hcontent⟩
  · rw [hlog, Directory.document, hx]
    rfl
  · rw [Directory.document, hname] at hne
    exact hne rfl
  · rw [hphase]
    nofun
  · rw [hlog]
    nofun
  · rw [hlog]
    nofun
  · rw [hlog]
    nofun
  · rw [hlog]
    nofun

omit [DecidableEq ι] in
/-- What was written was written by a call. -/
theorem exists_of_mem_documents {d : Json} (h : d ∈ documents log) :
    (∃ i, .made i d ∈ log) ∨ ∃ i, .replaced i d ∈ log := by
  have hcons : ∀ {e : Event ι} {l : List (Event ι)},
      ((∃ i, .made i d ∈ l) ∨ ∃ i, .replaced i d ∈ l) →
        (∃ i, .made i d ∈ e :: l) ∨ ∃ i, .replaced i d ∈ e :: l :=
    Or.imp (Exists.imp fun _ => List.mem_cons_of_mem _) (Exists.imp fun _ => List.mem_cons_of_mem _)
  induction log with
  | nil => cases h
  | cons e log ih =>
    cases e with
    | made i d' =>
      rcases List.mem_cons.1 h with rfl | h
      · exact .inl ⟨i, List.mem_cons_self⟩
      · exact hcons (ih h)
    | replaced i d' =>
      rcases List.mem_cons.1 h with rfl | h
      · exact .inr ⟨i, List.mem_cons_self⟩
      · exact hcons (ih h)
    | looked i => exact hcons (ih h)
    | created i won => exact hcons (ih h)
    | read i found => exact hcons (ih h)

/-- Whatever is read, `create_json` is atomic. -/
theorem atomic_of_reads (hs : s.Inv first) (hreads : ReadFairly first s.log) :
    Atomic first s.log := by
  refine ⟨fun i j hi hj => (hs.won j hj).2.2 i hi, fun i hi => (hs.won i hi).2.1,
    fun hfirst hway hreturn hsome => ?_, hreads⟩
  obtain ⟨i, won, hi⟩ := hsome
  cases won with
  | true => exact ⟨i, hi⟩
  | false =>
    -- the refused one found a file, which one that has returned had made
    have hmade : ∃ j d, .made j d ∈ s.log := by
      by_contra hnot
      have hnone := hway.resolve_left hnot
      have hwritten : documents s.log ≠ [] := fun hnil =>
        (hs.lost i hi).1 (current_eq_none.2 ⟨hnil, hfirst⟩)
      obtain ⟨d, hd⟩ := List.exists_mem_of_ne_nil _ hwritten
      rcases exists_of_mem_documents hd with ⟨j, hj⟩ | ⟨j, hj⟩
      · exact hnot ⟨j, d, hj⟩
      · exact hnone j d hj
    obtain ⟨j, d, hj⟩ := hmade
    obtain ⟨won, hwon⟩ := hreturn j d hj
    cases won with
    | true => exact ⟨j, hwon⟩
    | false => exact absurd hj ((hs.lost j hwon).2 d)

theorem readFairly_step {a : Action ι} (hs : s.Inv first) (ht : s.step calls a = some t) :
    ReadFairly first t.log ↔ ReadFairly first s.log ∧ ReadsWhole calls s a := by
  cases a with
  | next i ok => exact readFairly_next hs ht
  | write i n =>
    have hlog : t.log = s.log := by
      simp only [Directory.step] at ht
      split at ht
      · unfold Directory.extend at ht
        split at ht <;> cases ht
        rfl
      · unfold Directory.extend at ht
        split at ht <;> cases ht
        rfl
      · cases ht
    rw [hlog]
    exact ⟨fun h => ⟨h, trivial⟩, And.left⟩

/-- **The calls are atomic exactly where nobody reads a file that its `create_json` has not written,
or looks for one that it has removed.** -/
theorem atomic_iff_readsWhole {as : List (Action ι)} (hstart : (directory calls).start s)
    (hrun : (directory calls).run s as = some t) :
    Atomic s.document t.log ↔ (directory calls).Meets (ReadsWhole calls) s as := by
  have hs : s.Inv s.document := inv_fresh hstart
  have hrule := Machine.keeps_iff_meets (M := directory calls) (C := ReadsWhole calls)
    (I := Directory.Inv s.document) (P := fun u => ReadFairly s.document u.log)
    (fun _ _ _ h hu => inv_step h hu) (fun _ _ _ h hu => readFairly_step h hu) hs hrun
  have hreads : ReadFairly s.document s.log := by
    rw [hstart.log]
    trivial
  have hend : t.Inv s.document :=
    (Machine.Later.of_run .refl hrun).relate (R := fun _ u => u.Inv s.document) hs
      fun _ _ _ _ h _ hu => inv_step h hu
  constructor
  · intro h
    exact (hrule.1 h.reads).2
  · intro h
    exact atomic_of_reads hend (hrule.2 ⟨hreads, h⟩)

end

/-! ## A claim that is read too early -/

def emptyDict : Document where
  json := .object []
  valid := ⟨List.nodup_nil, trivial⟩
  isObject := rfl

/-- Two claims of one name, and the load of the one that is refused. -/
def claims : Fin 3 → Call
  | 0 | 1 => .create emptyDict
  | 2 => .load

/-- There is no file. -/
def absent : Directory (Fin 3) where
  file _ := ⟨[], emptyDict, none⟩
  size := 0
  name := none
  tmp := none
  lock := none
  phase _ := .start
  log := []

theorem absent_fresh : absent.Fresh :=
  ⟨fun _ => rfl, rfl, rfl, fun _ h => absurd h (not_or_intro nofun nofun), nofun⟩

def tooEarly : List (Action (Fin 3)) :=
  [.next 0 true, .next 1 true, .next 2 true, .next 2 true, .next 2 true, .next 2 true]

/-- What happens in it, the last event first. -/
def tooEarlyLog : List (Event (Fin 3)) :=
  [.read 2 none, .looked 2, .created 1 false, .made 0 (.object [])]

/-- The one that is refused finds nothing, as the one that is not has not written yet. -/
theorem early_load_finds_nothing : (directory claims).start absent ∧
    ((directory claims).run absent tooEarly).map Directory.log = some tooEarlyLog ∧
      ¬ Atomic absent.document tooEarlyLog := by
  refine ⟨absent_fresh, rfl, fun h => ?_⟩
  have hread : Fair absent.document tooEarlyLog.tail 2 none := h.reads.1
  exact hread.2 1 (by simp [tooEarlyLog])

/-- It looks early, but reads when the other one has written. -/
def inTime : List (Action (Fin 3)) :=
  [.next 0 true, .next 1 true, .next 2 true, .write 0 1, .next 2 true, .write 0 2, .next 2 true,
    .next 2 true, .next 0 true, .next 2 true]

def inTimeLog : List (Event (Fin 3)) :=
  [.created 0 true, .read 2 (some (.object [])), .looked 2, .created 1 false, .made 0 (.object [])]

theorem late_load_finds_claim :
    ((directory claims).run absent inTime).map Directory.log = some inTimeLog ∧
      Atomic absent.document inTimeLog := by
  have hlog : ((directory claims).run absent inTime).map Directory.log = some inTimeLog := rfl
  obtain ⟨t, ht, heq⟩ := Option.map_eq_some_iff.1 hlog
  exact ⟨hlog, heq ▸ (atomic_iff_readsWhole absent_fresh ht).2 (by decide)⟩

end ResidentCrm.Storage.Local
