import ResidentCrm.Lib.SlidingWindow
import ResidentCrm.Lib.Text
import Mathlib.Algebra.Order.Ring.Rat
import Mathlib.Data.List.AList

/-!
# The rate limiter

`rate_limiter` of `api/routes.py`: a client may have `RATE_LIMIT` requests accepted in
`RATE_WINDOW` seconds. The table of accepted times is pruned when a client asks again, and loses the
clients that have not asked for long once it is large. Clients in `RATE_LIMIT_EXEMPT_CIDRS` are not
limited at all.
-/

namespace ResidentCrm.RateLimiter

def RATE_WINDOW : ℚ := 60

/-- A request: `request.client.host`, if there is one, the header `x-forwarded-for`, and
`time.time()`. -/
structure Request where
  host : Option Text
  forwarded : Text
  time : ℚ

/-- The settings, with `_ip_in` of each list of networks, and the sizes of the table at which stale
clients are evicted: in the code, more than a thousand. -/
structure Config where
  rateLimit : ℤ
  trustedProxy : Text → Bool
  exempt : Text → Bool
  evictsAt : ℕ → Bool := fun size => 1000 < size

/-- `client_ip_for`. -/
def clientIpFor (c : Config) (r : Request) : Text :=
  let peer := r.host.getD []
  if c.trustedProxy peer ∧ r.forwarded ≠ [] then Text.strip (r.forwarded.takeWhile (· ≠ ','))
  else peer

/-- `_rate_limits`: the accepted times of each client. -/
abbrev Limits := AList fun _ : Text => List ℚ

/-- The times of a client, none if the table does not have it. -/
def timesOf (limits : Limits) (ip : Text) : List ℚ := (limits.lookup ip).getD []

def isStale (now : ℚ) (times : List ℚ) : Bool :=
  match times.max? with
  | none => true
  | some last => RATE_WINDOW < now - last

/-- The table without its stale clients. -/
def evict (now : ℚ) (limits : Limits) : Limits :=
  let stale := (limits.entries.filter fun e => isStale now e.2).map Sigma.fst
  stale.foldl (fun limits ip => limits.erase ip) limits

inductive Reply
  | accepted
  | tooManyRequests
  deriving DecidableEq

theorem Reply.eq_of_accepted_iff {a b : Reply} (h : a = accepted ↔ b = accepted) : a = b := by
  cases a <;> cases b <;> simp_all

/-- `rate_limiter`: the table after it, and whether it raised. -/
def rateLimiter (c : Config) (limits : Limits) (r : Request) : Limits × Reply :=
  let ip := clientIpFor c r
  if c.exempt ip then (limits, .accepted)
  else
    let limits := if c.evictsAt limits.entries.length then evict r.time limits else limits
    let limits := if ip ∈ limits then limits else limits.insert ip []
    let kept := recent RATE_WINDOW r.time (timesOf limits ip)
    let limits := limits.insert ip kept
    if c.rateLimit ≤ kept.length then (limits, .tooManyRequests)
    else (limits.insert ip (timesOf limits ip ++ [r.time]), .accepted)

/-- Requests with the replies they got. -/
abbrev Log := List (Request × Reply)

/-- One request after another: the table and the log. -/
def run (c : Config) (requests : List Request) : Limits × Log :=
  requests.foldl (fun s r =>
    let (limits, reply) := rateLimiter c s.1 r
    (limits, s.2 ++ [(r, reply)])) (∅, [])

/-- When the requests of a client were accepted. -/
def acceptedTimes (c : Config) (ip : Text) (log : Log) : List ℚ :=
  (log.filter fun e => clientIpFor c e.1 = ip ∧ e.2 = .accepted).map fun e => e.1.time

/-! ## The table -/

theorem timesOf_insert (limits : Limits) (ip : Text) (times : List ℚ) :
    timesOf (limits.insert ip times) ip = times := by
  rw [timesOf, AList.lookup_insert]
  rfl

theorem timesOf_insert_of_ne {ip ip' : Text} (h : ip' ≠ ip) (limits : Limits) (times : List ℚ) :
    timesOf (limits.insert ip times) ip' = timesOf limits ip' := by
  rw [timesOf, AList.lookup_insert_ne h]
  rfl

/-- A client that is new to the table has no times before and none after. -/
theorem timesOf_init (limits : Limits) (ip ip' : Text) :
    timesOf (if ip ∈ limits then limits else limits.insert ip []) ip' = timesOf limits ip' := by
  split
  · rfl
  · next hnew =>
    by_cases h : ip' = ip
    · rw [h, timesOf_insert, timesOf, AList.lookup_eq_none.2 hnew]
      rfl
    · exact timesOf_insert_of_ne h limits []

theorem lookup_foldl_erase (ips : List Text) (limits : Limits) (ip : Text) :
    (ips.foldl (fun limits ip => limits.erase ip) limits).lookup ip =
      if ip ∈ ips then none else limits.lookup ip := by
  induction ips generalizing limits with
  | nil => rfl
  | cons ip' ips ih =>
    rw [List.foldl_cons, ih]
    by_cases h : ip = ip'
    · rw [h, AList.lookup_erase, ite_self, if_pos List.mem_cons_self]
    · simp [h, AList.lookup_erase_ne h]

/-- All times of a stale client are older than the window. -/
theorem lt_of_isStale {now : ℚ} {times : List ℚ} (h : isStale now times = true) :
    ∀ t ∈ times, RATE_WINDOW < now - t := by
  intro t ht
  rw [isStale] at h
  split at h
  · next hnone =>
    rw [List.max?_eq_none_iff.1 hnone] at ht
    exact absurd ht List.not_mem_nil
  · next last hlast =>
    have hle : t ≤ last := (List.max?_eq_some_iff.1 hlast).2 t ht
    exact lt_of_lt_of_le (of_decide_eq_true h) (sub_le_sub_left hle now)

/-- Eviction takes no time that is recent, now or later. -/
theorem recent_timesOf_evict {now later : ℚ} (h : now ≤ later) (limits : Limits) (ip : Text) :
    recent RATE_WINDOW later (timesOf (evict now limits) ip) =
      recent RATE_WINDOW later (timesOf limits ip) := by
  rw [timesOf, evict, lookup_foldl_erase]
  split
  · next hstale =>
    obtain ⟨⟨ip', times⟩, hentry, rfl⟩ := List.mem_map.1 hstale
    obtain ⟨hentry, hold⟩ := List.mem_filter.1 hentry
    have hlookup : limits.lookup ip' = some times := AList.mem_lookup_iff.2 hentry
    rw [timesOf, hlookup]
    exact (recent_eq_nil h (lt_of_isStale hold)).symm
  · rfl

/-- The table that a request finds once clients are evicted and its own is there. -/
def prepared (c : Config) (now : ℚ) (ip : Text) (limits : Limits) : Limits :=
  let limits := if c.evictsAt limits.entries.length then evict now limits else limits
  if ip ∈ limits then limits else limits.insert ip []

theorem recent_timesOf_prepared {now later : ℚ} (h : now ≤ later) (c : Config) (ip : Text)
    (limits : Limits) (ip' : Text) :
    recent RATE_WINDOW later (timesOf (prepared c now ip limits) ip') =
      recent RATE_WINDOW later (timesOf limits ip') := by
  rw [prepared, timesOf_init]
  split
  · exact recent_timesOf_evict h limits ip'
  · rfl

/-! ## One request -/

/-- What a request adds to the accepted times of a client. -/
def added (c : Config) (r : Request) (reply : Reply) (ip : Text) : List ℚ :=
  if clientIpFor c r = ip ∧ reply = .accepted then [r.time] else []

theorem acceptedTimes_concat (c : Config) (ip : Text) (log : Log) (r : Request) (reply : Reply) :
    acceptedTimes c ip (log ++ [(r, reply)]) = acceptedTimes c ip log ++ added c r reply ip := by
  rw [acceptedTimes, List.filter_append, List.map_append, List.filter_singleton, added]
  by_cases h : clientIpFor c r = ip ∧ reply = .accepted
  · rw [if_pos h, decide_eq_true h]
    rfl
  · rw [if_neg h, decide_eq_false h]
    rfl

theorem rateLimiter_of_exempt {c : Config} {r : Request} (h : c.exempt (clientIpFor c r) = true)
    (limits : Limits) : rateLimiter c limits r = (limits, .accepted) := by
  rw [rateLimiter, if_pos h]

/-- What `rate_limiter` does with a client that is limited. -/
theorem rateLimiter_cases {c : Config} {r : Request} (hlimited : c.exempt (clientIpFor c r) = false)
    (limits : Limits) :
    let ip := clientIpFor c r
    let found := prepared c r.time ip limits
    let kept := recent RATE_WINDOW r.time (timesOf limits ip)
    (c.rateLimit ≤ kept.length ∧
        rateLimiter c limits r = (found.insert ip kept, .tooManyRequests)) ∨
      (kept.length < c.rateLimit ∧
        rateLimiter c limits r =
          ((found.insert ip kept).insert ip (kept ++ [r.time]), .accepted)) := by
  intro ip found kept
  have hkept : recent RATE_WINDOW r.time (timesOf found ip) = kept :=
    recent_timesOf_prepared (le_refl r.time) c ip limits ip
  have hlimiter : rateLimiter c limits r =
      if c.rateLimit ≤ (recent RATE_WINDOW r.time (timesOf found ip)).length then
        (found.insert ip (recent RATE_WINDOW r.time (timesOf found ip)), .tooManyRequests)
      else
        ((found.insert ip (recent RATE_WINDOW r.time (timesOf found ip))).insert ip
          (timesOf (found.insert ip (recent RATE_WINDOW r.time (timesOf found ip))) ip ++ [r.time]),
            .accepted) := by
    rw [rateLimiter, if_neg (by rw [hlimited]; exact Bool.false_ne_true)]
    rfl
  rw [hlimiter, hkept, timesOf_insert]
  rcases lt_or_ge (kept.length : ℤ) c.rateLimit with hroom | hfull
  · exact Or.inr ⟨hroom, if_neg (Int.not_le.2 hroom)⟩
  · exact Or.inl ⟨hfull, if_pos hfull⟩

/-- A client that is limited is accepted while fewer than `RATE_LIMIT` of its times are recent. -/
theorem accepted_iff {c : Config} {r : Request} (hlimited : c.exempt (clientIpFor c r) = false)
    (limits : Limits) :
    (rateLimiter c limits r).2 = .accepted ↔
      (recent RATE_WINDOW r.time (timesOf limits (clientIpFor c r))).length < c.rateLimit := by
  rcases rateLimiter_cases hlimited limits with ⟨hfull, heq⟩ | ⟨hroom, heq⟩
  · rw [heq]
    exact iff_of_false (by simp) (Int.not_lt.2 hfull)
  · rw [heq]
    exact iff_of_true rfl hroom

/-- The recent times of a client after a request, as long as nothing is asked earlier: those before
it and what it added. -/
theorem recent_rateLimiter (c : Config) (limits : Limits) (r : Request) {ip : Text}
    (hip : c.exempt ip = false) {later : ℚ} (h : r.time ≤ later) :
    recent RATE_WINDOW later (timesOf (rateLimiter c limits r).1 ip) =
      recent RATE_WINDOW later (timesOf limits ip ++ added c r (rateLimiter c limits r).2 ip) := by
  by_cases hexempt : c.exempt (clientIpFor c r) = true
  · have hother : clientIpFor c r ≠ ip := fun heq => by simp [heq, hip] at hexempt
    simp [rateLimiter, hexempt, added, hother]
  have hfound := recent_timesOf_prepared h c (clientIpFor c r) limits ip
  rcases rateLimiter_cases (Bool.not_eq_true _ ▸ hexempt) limits with ⟨-, heq⟩ | ⟨-, heq⟩
  · rw [heq, added, if_neg (by simp), List.append_nil]
    by_cases hsame : ip = clientIpFor c r
    · rw [← hsame, timesOf_insert, recent_recent h]
    · rw [timesOf_insert_of_ne hsame, hfound]
  · rw [heq]
    by_cases hsame : ip = clientIpFor c r
    · rw [← hsame, timesOf_insert, added, if_pos ⟨hsame.symm, rfl⟩, recent_append, recent_append,
        recent_recent h]
    · rw [timesOf_insert_of_ne hsame, timesOf_insert_of_ne hsame, hfound, added,
        if_neg fun h => hsame h.1.symm, List.append_nil]

/-! ## A run -/

theorem run_concat (c : Config) (requests : List Request) (r : Request) :
    run c (requests ++ [r]) =
      ((rateLimiter c (run c requests).1 r).1,
        (run c requests).2 ++ [(r, (rateLimiter c (run c requests).1 r).2)]) := by
  rw [run, List.foldl_append]
  rfl

/-- The log only grows. -/
theorem log_append (c : Config) (before after : List Request) :
    ∃ log, (run c (before ++ after)).2 = (run c before).2 ++ log := by
  induction after using List.reverseRecOn with
  | nil => exact ⟨[], by rw [List.append_nil, List.append_nil]⟩
  | append_singleton after r ih =>
    obtain ⟨log, hlog⟩ := ih
    exact ⟨_, by rw [← List.append_assoc, run_concat, hlog, List.append_assoc]⟩

theorem mem_of_mem_acceptedTimes {c : Config} {requests : List Request} {ip : Text} {t : ℚ}
    (h : t ∈ acceptedTimes c ip (run c requests).2) : ∃ r ∈ requests, r.time = t := by
  induction requests using List.reverseRecOn with
  | nil => exact absurd h List.not_mem_nil
  | append_singleton requests r ih =>
    rw [run_concat, acceptedTimes_concat, List.mem_append] at h
    rcases h with h | h
    · obtain ⟨r', hr', rfl⟩ := ih h
      exact ⟨r', List.mem_append_left _ hr', rfl⟩
    · rw [added] at h
      split at h
      · exact ⟨r, List.mem_append_right _ List.mem_cons_self, (List.mem_singleton.1 h).symm⟩
      · exact absurd h List.not_mem_nil

/-- Arrivals in the order of their times. -/
def InOrder (requests : List Request) : Prop :=
  requests.Pairwise fun r r' => r.time ≤ r'.time

theorem InOrder.of_concat {requests : List Request} {r : Request} (h : InOrder (requests ++ [r])) :
    InOrder requests ∧ ∀ r' ∈ requests, r'.time ≤ r.time := by
  obtain ⟨hbefore, -, hlast⟩ := List.pairwise_append.1 h
  exact ⟨hbefore, fun r' hr' => hlast r' hr' r List.mem_cons_self⟩

/-- **The table has what is recent of the log**, whatever was pruned or evicted. -/
theorem recent_run {c : Config} {requests : List Request} (horder : InOrder requests) {ip : Text}
    (hip : c.exempt ip = false) {now : ℚ} (hnow : ∀ r ∈ requests, r.time ≤ now) :
    recent RATE_WINDOW now (timesOf (run c requests).1 ip) =
      recent RATE_WINDOW now (acceptedTimes c ip (run c requests).2) := by
  induction requests using List.reverseRecOn with
  | nil => rfl
  | append_singleton requests r ih =>
    have hr : r.time ≤ now := hnow r (List.mem_append_right _ List.mem_cons_self)
    have ih := ih horder.of_concat.1 fun r' hr' => hnow r' (List.mem_append_left _ hr')
    rw [run_concat, recent_rateLimiter c _ r hip hr, acceptedTimes_concat, recent_append, ih,
      ← recent_append]

/-- The reply to a client that is limited, in terms of the log. -/
theorem accepted_run_iff {c : Config} {requests : List Request} {r : Request}
    (horder : InOrder (requests ++ [r])) (hlimited : c.exempt (clientIpFor c r) = false) :
    (rateLimiter c (run c requests).1 r).2 = .accepted ↔
      (recent RATE_WINDOW r.time
        (acceptedTimes c (clientIpFor c r) (run c requests).2)).length < c.rateLimit := by
  rw [accepted_iff hlimited, recent_run horder.of_concat.1 hlimited horder.of_concat.2]

/-- Each request of a client was accepted while there was room. -/
theorem rationed_acceptedTimes {c : Config} {requests : List Request} (horder : InOrder requests)
    {ip : Text} (hip : c.exempt ip = false) :
    Rationed RATE_WINDOW c.rateLimit (acceptedTimes c ip (run c requests).2) := by
  induction requests using List.reverseRecOn with
  | nil => exact .nil
  | append_singleton requests r ih =>
    have ih := ih horder.of_concat.1
    rw [run_concat, acceptedTimes_concat, added]
    split
    · next h =>
      obtain ⟨rfl, haccepted⟩ := h
      exact .concat ih ((accepted_run_iff horder hip).1 haccepted)
    · rwa [List.append_nil]

/-- **Evicting stale clients changes no reply**, at whatever size of the table it is done. -/
theorem log_evictsAt {c : Config} {requests : List Request} (horder : InOrder requests)
    (evictsAt : ℕ → Bool) :
    (run { c with evictsAt := evictsAt } requests).2 = (run c requests).2 := by
  induction requests using List.reverseRecOn with
  | nil => rfl
  | append_singleton requests r ih =>
    have ih := ih horder.of_concat.1
    have hreply : (rateLimiter { c with evictsAt := evictsAt }
        (run { c with evictsAt := evictsAt } requests).1 r).2 =
          (rateLimiter c (run c requests).1 r).2 := by
      by_cases hexempt : c.exempt (clientIpFor c r) = true
      · have hexempt' := rateLimiter_of_exempt (c := { c with evictsAt := evictsAt }) hexempt
        rw [rateLimiter_of_exempt hexempt, hexempt']
      · have hlimited := Bool.not_eq_true _ ▸ hexempt
        have hleft := accepted_run_iff (c := { c with evictsAt := evictsAt }) horder hlimited
        rw [ih] at hleft
        exact Reply.eq_of_accepted_iff (hleft.trans (accepted_run_iff horder hlimited).symm)
    rw [run_concat, run_concat, ih, hreply]

/-- The accepted requests of a client less than the window before an arrival. -/
theorem filter_acceptedTimes {c : Config} {requests : List Request} {now : ℚ}
    (hnow : ∀ r ∈ requests, r.time ≤ now) (ip : Text) :
    ((acceptedTimes c ip (run c requests).2).filter fun t => now - RATE_WINDOW < t ∧ t ≤ now) =
      recent RATE_WINDOW now (acceptedTimes c ip (run c requests).2) := by
  refine List.filter_congr fun t ht => decide_eq_decide.2 ?_
  obtain ⟨r, hr, rfl⟩ := mem_of_mem_acceptedTimes ht
  rw [sub_lt_comm, and_iff_left (hnow r hr)]

/-- **A true sliding window** for every client that is not exempt: no half-open interval of the
window's length holds more than `RATE_LIMIT` of its accepted requests, it is refused exactly when
the window before its request holds that many, and eviction has no part in either. -/
theorem slides (c : Config) {requests : List Request} (horder : InOrder requests) :
    (∀ ip, c.exempt ip = false → ∀ start,
      ((acceptedTimes c ip (run c requests).2).filter fun t =>
          start ≤ t ∧ t < start + RATE_WINDOW).length ≤ max c.rateLimit 0 ∧
        ((acceptedTimes c ip (run c requests).2).filter fun t =>
          start < t ∧ t ≤ start + RATE_WINDOW).length ≤ max c.rateLimit 0) ∧
      (∀ before r after, requests = before ++ r :: after → c.exempt (clientIpFor c r) = false →
        ((∃ log, (run c requests).2 = (run c before).2 ++ (r, .accepted) :: log) ↔
          ((acceptedTimes c (clientIpFor c r) (run c before).2).filter fun t =>
            r.time - RATE_WINDOW < t ∧ t ≤ r.time).length < c.rateLimit)) ∧
      ∀ evictsAt, (run { c with evictsAt := evictsAt } requests).2 = (run c requests).2 := by
  refine ⟨fun ip hip start => ?_, fun before r after heq hlimited => ?_, log_evictsAt horder⟩
  · have hrationed := rationed_acceptedTimes horder hip
    exact ⟨hrationed.length_from_le start, hrationed.length_after_le start⟩
  · have hparts : requests = before ++ [r] ++ after := by
      rw [heq, List.append_assoc, List.singleton_append]
    have horder' : InOrder (before ++ [r]) := by
      rw [hparts] at horder
      exact horder.sublist (List.sublist_append_left _ _)
    obtain ⟨rest, hrest⟩ := log_append c (before ++ [r]) after
    rw [filter_acceptedTimes horder'.of_concat.2, ← accepted_run_iff horder' hlimited, hparts,
      hrest, run_concat, List.append_assoc, List.singleton_append]
    constructor
    · rintro ⟨log, hlog⟩
      exact congrArg Prod.snd (List.cons.inj (List.append_cancel_left hlog)).1
    · intro haccepted
      exact ⟨rest, by rw [haccepted]⟩

/-- A client that may ask once in a window. -/
def once : Config where
  rateLimit := 1
  trustedProxy := fun _ => false
  exempt := (· = "127.0.0.1".toList)

/-- The second request is refused; the third, a window after the first, is accepted. -/
theorem slides_once :
    (run once [⟨some "203.0.113.9".toList, [], 0⟩, ⟨some "203.0.113.9".toList, [], 59⟩,
        ⟨some "203.0.113.9".toList, [], 60⟩]).2.map Prod.snd =
      [.accepted, .tooManyRequests, .accepted] ∧
      ∀ start, ((acceptedTimes once "203.0.113.9".toList
        (run once [⟨some "203.0.113.9".toList, [], 0⟩, ⟨some "203.0.113.9".toList, [], 59⟩,
          ⟨some "203.0.113.9".toList, [], 60⟩]).2).filter
        fun t => start ≤ t ∧ t < start + RATE_WINDOW).length ≤ max once.rateLimit 0 :=
  ⟨by decide +kernel, fun start =>
    ((slides once (by unfold InOrder; decide +kernel)).1 _ (by decide) start).1⟩

/-- A loopback caller is exempt: it is accepted twice at once where one request is the limit. And
where the limit is negative, no client is below it. -/
theorem exempt_not_limited :
    (∃ r : Request, InOrder [r, r] ∧
      once.rateLimit <
        ((acceptedTimes once (clientIpFor once r) (run once [r, r]).2).filter fun t =>
          r.time ≤ t ∧ t < r.time + RATE_WINDOW).length) ∧
      ∃ c : Config, ¬ ((acceptedTimes c [] (run c []).2).length : ℤ) ≤ c.rateLimit :=
  ⟨⟨⟨some "127.0.0.1".toList, [], 0⟩, by unfold InOrder; decide +kernel, by decide +kernel⟩,
    { once with rateLimit := -1 }, by decide⟩

end ResidentCrm.RateLimiter
