import ResidentCrm.Dlt.GroupCalls

/-!
# What a group counts

Once the calls on a fingerprint have returned, the group reports the frozen count and histograms
with one contribution for each case, from the record that created it, and one for each verdict of
the code check: whatever the order (`counts_of_sound`).

The first time it was seen is another matter. `meta.json` keeps the stamp of whichever call dated
it, also where that call lost its case to another or the frozen record lists the case, and the
composition takes the least of this stamp and the others (`exists_dated_by`).
-/

namespace ResidentCrm.Dlt.GroupStore

open CreateOnly

universe u v w

variable {T : Type u} {F : Type v} {K : Type w}

/-! ## The counts -/

/-- The frozen count, and the cases recorded that the frozen record does not list. -/
def Group.counted (s : Group T F K) : ℤ :=
  s.files.legacy.elim 0 Legacy.count + distinct Occurrence.key (¬ s.files.Lists ·) s.recorded

/-- One contribution for each such case, from the record that created it. -/
def Group.corroborated (s : Group T F K) : Histogram :=
  Histogram.plus (s.files.legacy.elim (fun _ => none) Legacy.corroborationHistory) fun v =>
    distinct Occurrence.key (fun o => ¬ s.files.Lists o ∧ o.verdict = some v) s.recorded

/-- One contribution for each case with a verdict, from its first, and one for each verdict
attached without a case. -/
def Group.codeChecked (s : Group T F K) : Histogram :=
  Histogram.plus (s.files.legacy.elim (fun _ => none) Legacy.codeCheckHistory) fun v =>
    distinct CheckEntry.key (·.verdict = v) s.checked +
      s.checked.countP fun e => e.key.isNone && e.verdict = v

/-- The same calls, of which the same one came first for each case. -/
structure SameCalls (s t : Group T F K) : Prop where
  log : t.log.Perm s.log
  occurrences : ∀ c, first Occurrence.key t.recorded c = first Occurrence.key s.recorded c
  checks : ∀ c, first CheckEntry.key t.checked c = first CheckEntry.key s.checked c

section

variable {s t s₀ : Group T F K}

theorem distinct_of_key_isSome (p : Occurrence T → Bool) (l : List (Occurrence T)) :
    (firsts Occurrence.key l).countP p = distinct Occurrence.key p l := by
  rw [countP_firsts]
  simp [Occurrence.key]

theorem verdict_of_mem_checked {e : CheckEntry} (h : e ∈ s.checked) : e.verdict ≠ [] := by
  obtain ⟨call, -, hentry⟩ := List.mem_filterMap.1 h
  cases call with
  | check c =>
    obtain ⟨verdict, hverdict, rfl⟩ := Option.map_eq_some_iff.1 hentry
    simpa using (Option.filter_eq_some_iff.1 hverdict).2
  | record c => cases hentry
  | recommend doc => cases hentry

theorem counts_of_sound (hs : Sound s₀ s) : s.files.occurrenceCount = s.counted ∧
    s.files.corroborationHistory = s.corroborated ∧ s.files.codeCheckHistory = s.codeChecked := by
  refine ⟨?_, ?_, ?_⟩
  · unfold Files.occurrenceCount Group.counted
    rw [Files.length_fresh, hs.occurrences, distinct_of_key_isSome]
  · unfold Files.corroborationHistory Group.corroborated
    rw [Histogram.tally_eq_plus]
    congr 1
    funext v
    rw [Files.count_fresh, hs.occurrences, distinct_of_key_isSome]
  · unfold Files.codeCheckHistory Group.codeChecked
    rw [Histogram.tally_eq_plus]
    congr 1
    funext v
    have hall : (s.files.checks.map CheckEntry.verdict).filter (· ≠ []) =
        s.files.checks.map CheckEntry.verdict := by
      refine List.filter_eq_self.2 fun verdict hverdict => ?_
      obtain ⟨e, he, rfl⟩ := List.mem_map.1 hverdict
      rw [hs.checks] at he
      simpa using verdict_of_mem_checked (mem_of_mem_firsts he)
    rw [hall, hs.checks, ← countP_firsts, List.count, List.countP_map]
    exact List.countP_congr fun e _ => by simp

/-- **The counts do not depend on the order.** -/
theorem counts_of_sameCalls (hs : Sound s₀ s) (ht : Sound s₀ t) (h : SameCalls s t) :
    t.counted = s.counted ∧ t.corroborated = s.corroborated ∧ t.codeChecked = s.codeChecked := by
  have hrecorded : t.recorded.Perm s.recorded := h.log.filterMap _
  have hchecked : t.checked.Perm s.checked := h.log.filterMap _
  have hlegacy : t.files.legacy = s.files.legacy := ht.legacy.trans hs.legacy.symm
  have hlists : ∀ o, t.files.Lists o ↔ s.files.Lists o := Files.lists_congr hlegacy
  refine ⟨?_, ?_, ?_⟩
  · simp only [Group.counted, hlegacy, hlists, distinct_congr hrecorded h.occurrences]
  · simp only [Group.corroborated, hlegacy, hlists, distinct_congr hrecorded h.occurrences]
  · simp only [Group.codeChecked, hlegacy, distinct_congr hchecked h.checks,
      hchecked.countP_eq]

end

/-! ## The dates -/

section

variable [LinearOrder T] {s t s₀ : Group T F K}

/-- The dates of a group beside its `meta.json`. -/
def Files.dates (p : Files T F K) : List T :=
  (p.legacy.bind Legacy.firstSeen).toList ++ p.fresh.map Occurrence.time

omit [LinearOrder T] in
theorem Files.starts_eq (p : Files T F K) :
    p.starts = (p.metaDoc.bind MetaDoc.firstSeen).toList ++ p.dates := List.append_assoc ..

/-- No call is stamped before every other date of the group, or all bear one stamp. -/
def Group.DatedAlike (s : Group T F K) : Prop :=
  (∀ o ∈ s.recorded, ∃ d ∈ s.files.dates, d ≤ o.time) ∨
    ∀ o ∈ s.recorded, ∀ o' ∈ s.recorded, o.time = o'.time

theorem min?_congr {l l' : List T} (h : ∀ x, x ∈ l ↔ x ∈ l') : l.min? = l'.min? := by
  cases hl : l'.min? with
  | none =>
    obtain rfl := List.min?_eq_none_iff.1 hl
    have hnil : l = [] := List.eq_nil_iff_forall_not_mem.2 fun x hx => by simpa using (h x).1 hx
    rw [hnil, List.min?_nil]
  | some m =>
    obtain ⟨hmem, hle⟩ := List.min?_eq_some_iff.1 hl
    exact List.min?_eq_some_iff.2 ⟨(h m).2 hmem, fun x hx => hle x ((h x).1 hx)⟩

theorem max?_congr {l l' : List T} (h : ∀ x, x ∈ l ↔ x ∈ l') : l.max? = l'.max? := by
  cases hl : l'.max? with
  | none =>
    obtain rfl := List.max?_eq_none_iff.1 hl
    have hnil : l = [] := List.eq_nil_iff_forall_not_mem.2 fun x hx => by simpa using (h x).1 hx
    rw [hnil, List.max?_nil]
  | some m =>
    obtain ⟨hmem, hle⟩ := List.max?_eq_some_iff.1 hl
    exact List.max?_eq_some_iff.2 ⟨(h m).2 hmem, fun x hx => hle x ((h x).1 hx)⟩

omit [LinearOrder T] in
theorem mem_fresh_of_sameCalls (hs : Sound s₀ s) (ht : Sound s₀ t) (h : SameCalls s t)
    (o : Occurrence T) : o ∈ t.files.fresh ↔ o ∈ s.files.fresh := by
  have hlegacy : t.files.legacy = s.files.legacy := ht.legacy.trans hs.legacy.symm
  have hmem : ∀ {u : Group T F K}, Sound s₀ u →
      (o ∈ u.files.occurrences ↔ first Occurrence.key u.recorded o.caseId = some o) := by
    intro u hu
    rw [hu.occurrences]
    refine ⟨fun ho => first_of_mem_firsts ho rfl, fun ho => ?_⟩
    rw [← first_firsts] at ho
    exact mem_of_first ho
  simp only [Files.fresh, List.mem_filter, hmem hs, hmem ht, h.occurrences,
    Files.lists_congr hlegacy o]

omit [LinearOrder T] in
theorem mem_dates_of_sameCalls (hs : Sound s₀ s) (ht : Sound s₀ t) (h : SameCalls s t) (d : T) :
    d ∈ t.files.dates ↔ d ∈ s.files.dates := by
  have hlegacy : t.files.legacy = s.files.legacy := ht.legacy.trans hs.legacy.symm
  simp only [Files.dates, hlegacy, List.mem_append, List.mem_map, mem_fresh_of_sameCalls hs ht h]

/-- Once the calls have returned, `meta.json` bears the stamp of one of them. -/
theorem firstSeen_of_quiet (hs : Sound s₀ s) (hquiet : s.running = []) :
    (s.recorded = [] ∧ s.files.firstSeen = s.files.dates.min?) ∨
      ∃ o ∈ s.recorded, s.files.firstSeen = (o.time :: s.files.dates).min? := by
  unfold Files.firstSeen
  rw [Files.starts_eq]
  cases hmeta : s.files.metaDoc with
  | none =>
    refine .inl ⟨?_, rfl⟩
    rcases hs.saved with hsome | hpending
    · rw [hmeta] at hsome
      cases hsome
    · refine List.eq_nil_iff_forall_not_mem.2 fun o ho => ?_
      obtain ⟨stage, hmem, -⟩ := hpending o ho
      rw [hquiet] at hmem
      cases hmem
  | some doc =>
    obtain ⟨o, ho, htime⟩ := hs.dated doc hmeta
    refine .inr ⟨o, ho, ?_⟩
    simp only [Option.bind_some, htime, Option.toList_some, List.singleton_append]

theorem min?_cons_of_le {l : List T} {x d : T} (hd : d ∈ l) (hle : d ≤ x) :
    (x :: l).min? = l.min? := by
  obtain ⟨m, hm⟩ := Option.isSome_iff_exists.1 (List.isSome_min?_of_mem hd)
  obtain ⟨hmem, hleast⟩ := List.min?_eq_some_iff.1 hm
  rw [hm]
  refine List.min?_eq_some_iff.2 ⟨List.mem_cons_of_mem _ hmem, fun y hy => ?_⟩
  rcases List.mem_cons.1 hy with rfl | hy
  · exact (hleast d hd).trans hle
  · exact hleast y hy

theorem min?_cons_of_lt {l : List T} {x : T} (h : ∀ d ∈ l, x < d) : (x :: l).min? = some x :=
  List.min?_eq_some_iff.2 ⟨List.mem_cons_self, fun y hy => by
    rcases List.mem_cons.1 hy with rfl | hy
    · exact le_rfl
    · exact (h y hy).le⟩

theorem seen_of_datedAlike (hs : Sound s₀ s) (ht : Sound s₀ t) (hquiet : s.running = [])
    (hquiet' : t.running = []) (h : SameCalls s t) (hd : s.DatedAlike) :
    t.files.firstSeen = s.files.firstSeen ∧ t.files.lastSeen = s.files.lastSeen := by
  have hdates := mem_dates_of_sameCalls hs ht h
  have hrecorded : t.recorded.Perm s.recorded := h.log.filterMap _
  have hmin : t.files.dates.min? = s.files.dates.min? := min?_congr hdates
  have hfirst : t.files.firstSeen = s.files.firstSeen := by
    rcases firstSeen_of_quiet hs hquiet with ⟨hnil, heq⟩ | ⟨o, ho, heq⟩ <;>
      rcases firstSeen_of_quiet ht hquiet' with ⟨hnil', heq'⟩ | ⟨o', ho', heq'⟩ <;> rw [heq, heq']
    · exact hmin
    · rw [hnil] at hrecorded
      rw [hrecorded.eq_nil] at ho'
      cases ho'
    · rw [hnil'] at hrecorded
      rw [hrecorded.symm.eq_nil] at ho
      cases ho
    · have ho'' : o' ∈ s.recorded := hrecorded.subset ho'
      rcases hd with hold | hsame
      · obtain ⟨d, hd, hle⟩ := hold o ho
        obtain ⟨d', hd', hle'⟩ := hold o' ho''
        rw [min?_cons_of_le hd hle, min?_cons_of_le ((hdates d').2 hd') hle', hmin]
      · rw [hsame o ho o' ho'']
        exact min?_congr fun x => by simp only [List.mem_cons, hdates]
  refine ⟨hfirst, ?_⟩
  have hlegacy : t.files.legacy = s.files.legacy := ht.legacy.trans hs.legacy.symm
  have hends : t.files.ends.max? = s.files.ends.max? := max?_congr fun x => by
    simp only [Files.ends, hlegacy, List.mem_append, List.mem_map, mem_fresh_of_sameCalls hs ht h]
  rw [Files.lastSeen, Files.lastSeen, hends, hfirst]

end

/-! ## A run that dates the group by a given call -/

section

variable [Zero T] [DecidableEq T] {s t s₀ : Group T F K}

/-- The state `t` can be reached once the group has come from `s₀` to `s`. -/
abbrev Leads (s₀ s : Group T F K) : Prop := (groupCalls T F K).Later Machine.anyStep s₀ s

omit [Zero T] [DecidableEq T] in
theorem resume_append (P Q : List (Stage T F K)) (stage : Stage T F K)
    (next : Option (Stage T F K)) :
    resume (P ++ stage :: Q) P.length next = P ++ next.toList ++ Q := by
  cases next with
  | none => simp [resume, List.eraseIdx_append_of_length_le]
  | some next => simp [resume]

theorem Leads.advance (h : Leads s₀ s) {P Q : List (Stage T F K)} {x : Stage T F K}
    (hrunning : s.running = P ++ x :: Q) :
    Leads s₀ ⟨(x.run s.files).1, P ++ (x.run s.files).2.toList ++ Q, s.log ++ x.logs⟩ := by
  refine h.step (a := .advance P.length) trivial ?_
  have hget : s.running[P.length]? = some x := by simp [hrunning]
  simp only [groupCalls]
  rw [hget, Option.map_some, hrunning, resume_append]

/-- The call that dates the group: once it has taken effect on what is counted, it has still to do
so. -/
def Call.recordCall : Call T F K → Option (RecordCall T)
  | .record c => some c
  | _ => none

def Call.loads (c : Call T F K) : List (Stage T F K) := c.recordCall.toList.map Stage.loadMeta

omit [Zero T] [DecidableEq T] in
theorem flatMap_loads (log : List (Call T F K)) :
    log.flatMap Call.loads = (log.filterMap Call.recordCall).map Stage.loadMeta := by
  induction log with
  | nil => rfl
  | cons c log ih =>
    rw [List.flatMap_cons, ih, Call.loads]
    cases hc : c.recordCall <;> simp [hc]

/-- A call can take effect, `meta.json` aside, before any other goes on. -/
theorem Leads.land (h : Leads s₀ s) (c : Call T F K) : ∃ u, Leads s₀ u ∧
    u.log = s.log ++ [c] ∧ u.running = s.running ++ c.loads ∧
      u.files.metaDoc = s.files.metaDoc := by
  have hcall : Leads s₀ { s with running := s.running ++ [c.first] } :=
    h.step (a := .call c) trivial rfl
  have hfirst := hcall.advance (P := s.running) (Q := []) rfl
  cases c with
  | record c =>
    refine ⟨_, hfirst, rfl, ?_, rfl⟩
    simp [Stage.run, Call.first, Call.loads, Call.recordCall]
  | recommend doc =>
    refine ⟨_, hfirst, rfl, ?_, rfl⟩
    simp [Stage.run, Call.first, Call.loads, Call.recordCall]
  | check c =>
    cases hentry : c.entry with
    | none =>
      refine ⟨_, hfirst, ?_, ?_, rfl⟩
      · simp [Stage.logs, Call.first, hentry]
      · simp [Stage.run, Call.first, Call.loads, Call.recordCall, hentry]
    | some entry =>
      have hsecond := hfirst.advance (P := s.running) (Q := []) (x := .createCheck c entry)
        (by simp [Stage.run, Call.first, hentry])
      refine ⟨_, hsecond, ?_, ?_, rfl⟩
      · simp [Stage.logs, Call.first, hentry]
      · simp [Stage.run, Call.loads, Call.recordCall]

theorem Leads.land_all (h : Leads s₀ s) (log : List (Call T F K)) : ∃ u, Leads s₀ u ∧
    u.log = s.log ++ log ∧ u.running = s.running ++ log.flatMap Call.loads ∧
      u.files.metaDoc = s.files.metaDoc := by
  induction log generalizing s with
  | nil => exact ⟨s, h, by simp, by simp, rfl⟩
  | cons c log ih =>
    obtain ⟨u, hu, hlog, hrunning, hmeta⟩ := h.land c
    obtain ⟨v, hv, hlog', hrunning', hmeta'⟩ := ih hu
    refine ⟨v, hv, ?_, ?_, hmeta'.trans hmeta⟩
    · rw [hlog', hlog, List.append_assoc, List.singleton_append]
    · rw [hrunning', hrunning, List.append_assoc, List.flatMap_cons]

/-- Calls that have still to date the group can do so one after another. -/
theorem Leads.drain (h : Leads s₀ s) {P Q : List (Stage T F K)} (calls : List (RecordCall T))
    (hrunning : s.running = P ++ calls.map Stage.loadMeta ++ Q) : ∃ u, Leads s₀ u ∧
    u.log = s.log ∧ u.running = P ++ Q := by
  induction calls generalizing s with
  | nil => exact ⟨s, h, rfl, by simpa using hrunning⟩
  | cons c calls ih =>
    rw [List.map_cons, List.append_assoc, List.cons_append] at hrunning
    have hloaded := h.advance hrunning
    have hsaved := hloaded.advance (P := P) (Q := calls.map Stage.loadMeta ++ Q)
      (x := .saveMeta c s.files.metaDoc) (by simp [Stage.run])
    obtain ⟨u, hu, hlog, hrest⟩ := ih hsaved (by simp [Stage.run])
    exact ⟨u, hu, by simpa [Stage.logs] using hlog, hrest⟩

/-- **Any call may be the one that dates the group**: it reads `meta.json` before any is saved, and
saves it after all the others. -/
theorem exists_dated_by (h₀ : (groupCalls T F K).start s₀) (log : List (Call T F K))
    {o : Occurrence T} (ho : o ∈ log.filterMap Call.occurrence) : ∃ u, Leads s₀ u ∧ u.log = log ∧
    u.running = [] ∧ u.files.metaDoc.bind MetaDoc.firstSeen = some o.time := by
  obtain ⟨-, -, hnone, hidle, hempty⟩ := h₀
  have hcall : ∃ c ∈ log.filterMap Call.recordCall, c.record = o := by
    obtain ⟨call, hcall, hrecord⟩ := List.mem_filterMap.1 ho
    cases call with
    | record c =>
      exact ⟨c, List.mem_filterMap.2 ⟨_, hcall, rfl⟩, Option.some.inj hrecord⟩
    | recommend doc => cases hrecord
    | check c => cases hrecord
  obtain ⟨c, hc, rfl⟩ := hcall
  obtain ⟨before, after, hcalls⟩ := List.append_of_mem hc
  have h₀ : Leads s₀ s₀ := .refl
  obtain ⟨u₁, h₁, hlog₁, hrunning₁, hmeta₁⟩ := h₀.land_all log
  rw [hidle, List.nil_append, flatMap_loads, hcalls, List.map_append, List.map_cons] at hrunning₁
  have h₂ := h₁.advance hrunning₁
  have hread : Stage.run u₁.files (.loadMeta c) = (u₁.files, some (.saveMeta c none)) := by
    simp only [Stage.run, hmeta₁, hnone]
  simp only [hread] at h₂
  obtain ⟨u₃, h₃, hlog₃, hrunning₃⟩ := h₂.drain before (P := [])
    (Q := .saveMeta c none :: after.map Stage.loadMeta) (by simp)
  obtain ⟨u₄, h₄, hlog₄, hrunning₄⟩ := h₃.drain after (P := [.saveMeta c none])
    (Q := []) (by simpa using hrunning₃)
  have h₅ := h₄.advance (P := []) (Q := []) hrunning₄
  refine ⟨_, h₅, ?_, rfl, rfl⟩
  rw [hlog₄, hlog₃, hlog₁, hempty]
  simp [Stage.logs]

end

/-! ## What `load_group` reports -/

section

variable [LinearOrder T] [Zero T] {s t s₀ : Group T F K} {cap : ℕ} {fingerprint : Text}

def Group.report (s : Group T F K) (cap : ℕ) (fingerprint : Text) : Option (GroupRecord T F K) :=
  s.files.compose cap fingerprint

omit [Zero T] in
/-- A group with an occurrence, or with a frozen record, is on file. -/
theorem report_isSome (hs : Sound s₀ s) (h : s.recorded ≠ [] ∨ s.files.legacy.isSome) :
    (s.report cap fingerprint).isSome := by
  refine Files.compose_isSome ?_
  rcases h with h | h
  · rintro ⟨hocc, -⟩
    obtain ⟨o, ho⟩ := List.exists_mem_of_ne_nil _ h
    have hkey : o.caseId ∈ keys Occurrence.key s.recorded := mem_keys.2 ⟨o, ho, rfl⟩
    rw [← keys_firsts, ← hs.occurrences, hocc] at hkey
    obtain ⟨o', ho', -⟩ := mem_keys.1 hkey
    cases ho'
  · exact Files.not_blank_of_legacy h

theorem datedAlike_of_order_free (h₀ : (groupCalls T F K).start s₀) (hs : Leads s₀ s)
    (h : ∀ t, Leads s₀ t → t.running = [] → SameCalls s t →
      t.files.firstSeen = s.files.firstSeen) : s.DatedAlike := by
  by_contra hnot
  simp only [Group.DatedAlike, not_or, not_forall, not_exists, not_and, not_le] at hnot
  obtain ⟨⟨o, ho, hbefore⟩, o₁, ho₁, o₂, ho₂, hne⟩ := hnot
  have hsound := sound_of_later h₀ hs
  -- the run in which a given call dates the group
  have hrun : ∀ o ∈ s.recorded, s.files.firstSeen = (o.time :: s.files.dates).min? := by
    intro o ho
    obtain ⟨t, ht, hlog, hquiet, hdated⟩ := exists_dated_by h₀ s.log ho
    have hsame : SameCalls s t := by
      refine ⟨?_, fun c => ?_, fun c => ?_⟩ <;> simp only [Group.recorded, Group.checked, hlog]
      exact List.Perm.refl _
    have hdates := mem_dates_of_sameCalls hsound (sound_of_later h₀ ht) hsame
    rw [← h t ht hquiet hsame, Files.firstSeen, Files.starts_eq, hdated]
    exact min?_congr fun x => by simp [hdates]
  have hearly : s.files.firstSeen = some o.time := by rw [hrun o ho, min?_cons_of_lt hbefore]
  -- a call with another stamp would have dated it otherwise
  have hother : ∀ o' ∈ s.recorded, o'.time = o.time := by
    intro o' ho'
    have hmin := (hrun o' ho').symm.trans hearly
    rcases List.mem_cons.1 (List.min?_eq_some_iff.1 hmin).1 with heq | hmem
    · exact heq.symm
    · exact absurd (hbefore _ hmem) (lt_irrefl _)
  exact hne ((hother o₁ ho₁).trans (hother o₂ ho₂).symm)

/-- **What a group reports once its calls have returned.** The count and the histograms are those of
the first record for each case, in any order; and so are the dates exactly where no call is stamped
before every other date of the group, or all are stamped alike. -/
theorem composed_iff_datedAlike (h₀ : (groupCalls T F K).start s₀) (hs : Leads s₀ s)
    (hquiet : s.running = []) (cap : ℕ) (fingerprint : Text) :
    (s.recorded ≠ [] ∨ s.files.legacy.isSome → (s.report cap fingerprint).isSome) ∧
    s.files.legacy = s₀.files.legacy ∧
    (∀ g ∈ s.report cap fingerprint, g.occurrenceCount = s.counted ∧
      g.corroborationHistory = s.corroborated ∧ g.codeCheckHistory = s.codeChecked) ∧
    (∀ t, Leads s₀ t → t.running = [] → SameCalls s t →
      ∀ g ∈ s.report cap fingerprint, ∀ g' ∈ t.report cap fingerprint,
        g'.occurrenceCount = g.occurrenceCount ∧
        g'.corroborationHistory = g.corroborationHistory ∧
        g'.codeCheckHistory = g.codeCheckHistory) ∧
    ((∀ t, Leads s₀ t → t.running = [] → SameCalls s t →
      ∀ g ∈ s.report cap fingerprint, ∀ g' ∈ t.report cap fingerprint,
        g'.firstSeen = g.firstSeen ∧ g'.lastSeen = g.lastSeen) ↔ s.DatedAlike) := by
  have hsound := sound_of_later h₀ hs
  have hcounts := counts_of_sound hsound
  refine ⟨report_isSome hsound, hsound.legacy, fun g hg => ?_, ?_, ?_, ?_⟩
  · obtain ⟨hcount, hcorroboration, hchecks, -⟩ := Files.of_compose hg
    exact ⟨hcount.trans hcounts.1, hcorroboration.trans hcounts.2.1, hchecks.trans hcounts.2.2⟩
  · intro t ht _ hsame g hg g' hg'
    have htsound := sound_of_later h₀ ht
    have htcounts := counts_of_sound htsound
    obtain ⟨heq, heq', heq''⟩ := counts_of_sameCalls hsound htsound hsame
    obtain ⟨hcount, hcorroboration, hchecks, -⟩ := Files.of_compose hg
    obtain ⟨hcount', hcorroboration', hchecks', -⟩ := Files.of_compose hg'
    rw [hcount, hcount', hcorroboration, hcorroboration', hchecks, hchecks', hcounts.1, htcounts.1,
      hcounts.2.1, htcounts.2.1, hcounts.2.2, htcounts.2.2]
    exact ⟨heq, heq', heq''⟩
  · intro h
    by_cases hempty : s.recorded = []
    · refine .inl fun o ho => ?_
      rw [hempty] at ho
      cases ho
    refine datedAlike_of_order_free h₀ hs fun t ht htquiet hsame => ?_
    have hrecorded : t.recorded.Perm s.recorded := hsame.log.filterMap _
    have htempty : t.recorded ≠ [] := by
      intro hnil
      rw [hnil] at hrecorded
      exact hempty hrecorded.symm.eq_nil
    have hreported : (s.report cap fingerprint).isSome := report_isSome hsound (.inl hempty)
    have hreported' : (t.report cap fingerprint).isSome :=
      report_isSome (sound_of_later h₀ ht) (.inl htempty)
    obtain ⟨g, hg⟩ := Option.isSome_iff_exists.1 hreported
    obtain ⟨g', hg'⟩ := Option.isSome_iff_exists.1 hreported'
    obtain ⟨-, -, -, hfirst, -⟩ := Files.of_compose hg
    obtain ⟨-, -, -, hfirst', -⟩ := Files.of_compose hg'
    rw [← hfirst, ← hfirst']
    exact (h t ht htquiet hsame g hg g' hg').1
  · intro hd t ht htquiet hsame g hg g' hg'
    obtain ⟨-, -, -, hfirst, hlast, -⟩ := Files.of_compose hg
    obtain ⟨-, -, -, hfirst', hlast', -⟩ := Files.of_compose hg'
    rw [hfirst, hfirst', hlast, hlast']
    exact seen_of_datedAlike hsound (sound_of_later h₀ ht) hquiet htquiet hsame hd

end

/-! ## Two deliveries of one case -/

def delivered (time : ℕ) : RecordCall ℕ where
  record := { caseId := "dlt-1".toList, time }

def noGroup : Group ℕ Unit Unit where
  files := {}

/-- The later stamp wins the case, and then the delivery `first` is the first to date the group. -/
def deliveries (first : ℕ) : List (Act ℕ Unit Unit) :=
  [.call (.record (delivered 1)), .call (.record (delivered 2)), .advance 1, .advance 0,
    .advance first, .advance first, .advance 0, .advance 0]

theorem exists_deliveries (first : ℕ) (hfirst : first < 2) : ∃ s : Group ℕ Unit Unit,
    Leads noGroup s ∧ s.running = [] ∧
      s.log = [.record (delivered 2), .record (delivered 1)] ∧
      ∃ g ∈ s.report 200 "fp".toList, g.firstSeen = some (first + 1) := by
  obtain ⟨s, hs, htest⟩ := Machine.exists_later_run (M := groupCalls ℕ Unit Unit) (s := noGroup)
    (deliveries first) (fun s => s.running = [] ∧
      s.log = [.record (delivered 2), .record (delivered 1)] ∧
      ((s.report 200 "fp".toList).map (·.firstSeen)) = some (some (first + 1)))
    (by
      obtain rfl | rfl : first = 0 ∨ first = 1 := by omega
      all_goals decide)
  obtain ⟨hquiet, hlog, hseen⟩ := of_decide_eq_true htest
  obtain ⟨g, hg, hfirst⟩ := Option.map_eq_some_iff.1 hseen
  exact ⟨s, hs, hquiet, hlog, g, hg, hfirst⟩

theorem composed_iff_datedAlike_deliveries : ∃ s : Group ℕ Unit Unit,
    s.log = [.record (delivered 2), .record (delivered 1)] ∧
    ((∀ t, Leads noGroup t → t.running = [] → SameCalls s t →
      ∀ g ∈ s.report 200 "fp".toList, ∀ g' ∈ t.report 200 "fp".toList,
        g'.firstSeen = g.firstSeen ∧ g'.lastSeen = g.lastSeen) ↔ s.DatedAlike) := by
  obtain ⟨s, hs, hquiet, hlog, -⟩ := exists_deliveries 0 (by decide)
  have hstart : (groupCalls ℕ Unit Unit).start noGroup := ⟨rfl, rfl, rfl, rfl, rfl⟩
  exact ⟨s, hlog, (composed_iff_datedAlike hstart hs hquiet 200 "fp".toList).2.2.2.2⟩

/-- The same two calls, the same winner, and two dates for the group. -/
theorem order_dates_the_group : ∃ s t : Group ℕ Unit Unit, Leads noGroup s ∧ Leads noGroup t ∧
    s.running = [] ∧ t.running = [] ∧ SameCalls s t ∧
    ∃ g ∈ s.report 200 "fp".toList, ∃ g' ∈ t.report 200 "fp".toList,
      g'.firstSeen ≠ g.firstSeen := by
  obtain ⟨s, hs, hquiet, hlog, g, hg, hfirst⟩ := exists_deliveries 0 (by decide)
  obtain ⟨t, ht, hquiet', hlog', g', hg', hfirst'⟩ := exists_deliveries 1 (by decide)
  refine ⟨s, t, hs, ht, hquiet, hquiet', ⟨?_, fun c => ?_, fun c => ?_⟩, g, hg, g', hg', ?_⟩
  · rw [hlog, hlog']
  · rw [Group.recorded, Group.recorded, hlog, hlog']
  · rw [Group.checked, Group.checked, hlog, hlog']
  · rw [hfirst, hfirst']
    decide

end ResidentCrm.Dlt.GroupStore
