import ResidentCrm.Dlt.ParkedQueue

/-!
# A parked packet is queued once

A pass queues a packet and then marks its entry. As long as these marks are written no case is
queued twice; and where one is not, the entry is still parked, and the same pass queues it again
(`queued_once_iff`).
-/

namespace ResidentCrm.Dlt

variable {R γ : Type*} [LinearOrder R] [Sub R] [Zero R]

/-- Every entry whose replay a pass queues is marked. -/
def Marked (s : ParkedQueue R γ) : QueueAct R γ → Prop
  | .park .. => True
  | .pass p => ∀ c ∈ p.queues s.entries, p.release.marks c = true

/-- No case is queued twice, and one that was queued has an entry, which is not parked. -/
structure ParkedQueue.Settled (s : ParkedQueue R γ) : Prop where
  keys : (s.entries.map Entry.caseId).Nodup
  once : s.queued.Nodup
  recorded : ∀ c ∈ s.queued, ∃ e ∈ s.entries, e.caseId = c
  done : ∀ e ∈ s.entries, e.caseId ∈ s.queued → e.status ≠ .parked

section

variable {s t : ParkedQueue R γ} {p : Pass R} {a : QueueAct R γ}

theorem map_mark_caseId (p : Pass R) (entries : List (Entry R γ)) :
    (entries.map p.mark).map Entry.caseId = entries.map Entry.caseId := by
  rw [List.map_map]
  exact List.map_congr_left fun e _ => Pass.mark_caseId p e

theorem nodup_queues {entries : List (Entry R γ)} (h : (entries.map Entry.caseId).Nodup)
    (p : Pass R) : (p.queues entries).Nodup := by
  unfold Pass.queues Release.replayed
  split
  · exact List.nodup_nil
  have hsorted : ((listParked (entries.filter p.sees)).map Entry.caseId).Nodup := by
    have hperm := (List.perm_insertionSort (fun e e' : Entry R γ => e.parkedAt ≤ e'.parkedAt)
      ((entries.filter p.sees).filter (·.status = .parked))).map Entry.caseId
    refine hperm.nodup_iff.2 ?_
    exact h.sublist ((List.filter_sublist.trans List.filter_sublist).map _)
  exact hsorted.sublist ((List.filter_sublist.trans List.filter_sublist).map _)

/-- Queued, an entry that is marked is released. -/
theorem mark_of_queued {e : Entry R γ} (hsees : p.sees e = true) (hdry : p.release.dryRun = false)
    (hparked : e.status = .parked) (hready : p.standing e = .ready) (href : e.refId ≠ [])
    (hqueues : p.release.queues e.caseId = true) :
    (p.mark e).status = if p.release.marks e.caseId then .released else .parked := by
  unfold Pass.standing at hready
  simp only [Pass.mark, hsees, if_true, Release.mark, hdry, hparked, hready, href, hqueues,
    Bool.false_eq_true, ne_eq, not_true_eq_false, not_false_eq_true, false_or, and_self]
  cases p.release.marks e.caseId <;> simp [hparked]

theorem nodup_append_queues (hs : s.Settled) (p : Pass R) :
    (s.queued ++ p.queues s.entries).Nodup := by
  refine List.nodup_append.2 ⟨hs.once, nodup_queues hs.keys p, ?_⟩
  rintro c hc c' hc' rfl
  obtain ⟨-, e, he, rfl, -, hparked, -⟩ := mem_queues.1 hc'
  exact hs.done e he hc hparked

theorem settled_step (hs : s.Settled) (hm : Marked s a)
    (h : (parkedQueue R γ).step s a = some t) : t.Settled := by
  cases a with
  | park cap store caseId refId check now basis =>
    obtain rfl := Option.some.inj h
    rcases park_cases cap store s.entries caseId refId check now basis with
      hsame | ⟨new, hnew, -, hfresh, -⟩
    · rw [hsame]
      exact hs
    have hunqueued : new.caseId ∉ s.queued := by
      intro hc
      obtain ⟨e, he, hcase⟩ := hs.recorded _ hc
      exact hfresh e he hcase
    rw [hnew]
    refine ⟨?_, hs.once, fun c hc => ?_, fun e he hc => ?_⟩
    · exact nodup_map_concat hs.keys hfresh
    · obtain ⟨e, he, hcase⟩ := hs.recorded c hc
      exact ⟨e, List.mem_append_left _ he, hcase⟩
    · rcases List.mem_append.1 he with he | he
      · exact hs.done e he hc
      · obtain rfl := List.mem_singleton.1 he
        exact absurd hc hunqueued
  | pass p =>
    obtain rfl := Option.some.inj h
    refine ⟨?_, nodup_append_queues hs p, ?_, ?_⟩
    · rw [map_mark_caseId]
      exact hs.keys
    · intro c hc
      have hold : ∃ e ∈ s.entries, e.caseId = c := by
        rcases List.mem_append.1 hc with hc | hc
        · exact hs.recorded c hc
        · obtain ⟨-, e, he, hcase, -⟩ := mem_queues.1 hc
          exact ⟨e, he, hcase⟩
      obtain ⟨e, he, rfl⟩ := hold
      exact ⟨p.mark e, List.mem_map_of_mem he, Pass.mark_caseId p e⟩
    · intro e' he' hc
      obtain ⟨e, he, rfl⟩ := List.mem_map.1 he'
      rw [Pass.mark_caseId] at hc
      rcases List.mem_append.1 hc with hc | hc
      · have hdone := hs.done e he hc
        rw [(Pass.mark_spec he).1.finished hdone]
        exact hdone
      · obtain ⟨hdry, e', he', hcase, hsees, hparked, hready, href, hqueues⟩ := mem_queues.1 hc
        obtain rfl : e' = e := List.inj_on_of_nodup_map hs.keys he' he hcase
        rw [mark_of_queued hsees hdry hparked hready href hqueues, if_pos (hm _ hc)]
        exact nofun

theorem settled_of_reach (hs : (parkedQueue R γ).Reach Marked s) : s.Settled := by
  refine hs.invariant (fun s hstart => ?_) fun s a t hs hm h => settled_step hs hm h
  obtain ⟨hkeys, hqueued⟩ := hstart
  exact ⟨hkeys, by simp [hqueued], by simp [hqueued], by simp [hqueued]⟩

/-- A pass that does not mark what it queues queues it again when it is repeated. -/
theorem queued_again (h : (parkedQueue R γ).step s (.pass p) = some t)
    {u : ParkedQueue R γ} (hu : (parkedQueue R γ).step t (.pass p) = some u)
    (hm : ¬ Marked s (.pass p)) : ¬ u.queued.Nodup := by
  obtain rfl := Option.some.inj h
  obtain rfl := Option.some.inj hu
  simp only [Marked, not_forall] at hm
  obtain ⟨c, hc, hmark⟩ := hm
  obtain ⟨hdry, e, he, rfl, hsees, hparked, hready, href, hqueues⟩ := mem_queues.1 hc
  -- the mark was not written, so the entry is as the first pass found it
  have hsame : p.mark e = e := by
    simp only [Pass.mark, hsees, if_true, Release.mark, hmark, or_true]
  have hagain : e.caseId ∈ p.queues (s.entries.map p.mark) :=
    mem_queues.2 ⟨hdry, e, List.mem_map.2 ⟨e, he, hsame⟩, rfl, hsees, hparked, hready, href,
      hqueues⟩
  intro hnodup
  have hdisjoint := (List.nodup_append.1 hnodup).2.2
  exact hdisjoint _ (List.mem_append_right _ hc) _ hagain rfl

end

/-- **No parked case is queued twice while what is queued is marked**, and a pass can be repeated
without queueing a case twice exactly where it has marked what it queued. -/
theorem queued_once_iff {s : ParkedQueue R γ} (hs : (parkedQueue R γ).Reach Marked s) :
    s.queued.Nodup ∧ ∀ p t u, (parkedQueue R γ).step s (.pass p) = some t →
      (parkedQueue R γ).step t (.pass p) = some u → (u.queued.Nodup ↔ Marked s (.pass p)) := by
  have hsettled := settled_of_reach hs
  refine ⟨hsettled.once, fun p t u ht hu => ⟨fun hnodup => ?_, fun hm => ?_⟩⟩
  · by_contra hm
    exact queued_again ht hu hm hnodup
  · have hnext := settled_step hsettled hm ht
    obtain rfl := Option.some.inj hu
    exact nodup_append_queues hnext p

/-! ## A mark that fails -/

def waitingFor101 : ParkedQueue ℤ Unit where
  entries := [⟨"dlt-1".toList, "ref-1".toList, "1.0.1".toList, 1, .parked, ()⟩]
  queued := []

def passAt101 (marks : Bool) : Pass ℤ where
  release := {
    cfg := ⟨true, 10, 0, none⟩
    running := [.text "1.0.1".toList]
    now := 2
    dryRun := false
    queues _ := true
    marks _ := marks }
  lists := true
  reads _ := true

theorem queued_once_iff_marked : ∃ s : ParkedQueue ℤ Unit, s.queued = ["dlt-1".toList] ∧
    s.queued.Nodup ∧ ∀ p t u, (parkedQueue ℤ Unit).step s (.pass p) = some t →
      (parkedQueue ℤ Unit).step t (.pass p) = some u → (u.queued.Nodup ↔ Marked s (.pass p)) := by
  obtain ⟨s, hs, hone⟩ := Machine.exists_reach_runWhere (M := parkedQueue ℤ Unit) (C := Marked)
    (c := fun s a => match a with
      | .park .. => true
      | .pass p => (p.queues s.entries).all (p.release.marks ·))
    (fun s a h => by cases a <;> simp_all [Marked])
    (s := waitingFor101) ⟨by decide, rfl⟩ [.pass (passAt101 true)]
    (fun s => s.queued = ["dlt-1".toList]) (by decide)
  exact ⟨s, by simpa using hone, queued_once_iff hs⟩

/-- Two passes, of which neither can write its mark. -/
theorem queued_twice : ∃ s : ParkedQueue ℤ Unit, (parkedQueue ℤ Unit).Reachable s ∧
    ¬ s.queued.Nodup := by
  obtain ⟨s, hs, htwice⟩ := (parkedQueue ℤ Unit).exists_reachable_run
    (s := waitingFor101) ⟨by decide, rfl⟩ [.pass (passAt101 false), .pass (passAt101 false)]
    (fun s => s.queued = ["dlt-1".toList, "dlt-1".toList]) (by decide)
  refine ⟨s, hs, ?_⟩
  rw [of_decide_eq_true htwice]
  decide

end ResidentCrm.Dlt
