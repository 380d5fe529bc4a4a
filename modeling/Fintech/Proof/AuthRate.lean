import Mathlib.Algebra.Order.Ring.Int
import Fintech.Library.FixedWindow
import Fintech.Model.AuthRate

/-!
# The limiter bounds every window

The counter of an address is a fixed-window counter of 60 seconds, whatever else Redis holds and whatever requests
come between.
-/

namespace Fintech.AuthRateGuard
open FixedWindow

/-- Every key holds a count, and carries an expiry. -/
def Windowed (r : Redis.Store) : Prop := ∀ key entry, r key = some entry → 1 ≤ entry.value ∧ entry.expiresAt.isSome

section Script
variable {r r' : Redis.Store} {key : String} {now : Time}

theorem get_eq_some {entry : Redis.Entry} (windowed : Windowed r) :
    Redis.get now key r = some entry ↔
      ∃ value e, entry = ⟨value, some e⟩ ∧ r key = some ⟨value, some e⟩ ∧ 1 ≤ value ∧ now < e := by
  rw [Redis.get, Option.filter_eq_some_iff]
  constructor
  · rintro ⟨found, running⟩
    obtain ⟨value, expiresAt⟩ := entry
    obtain ⟨positive, carries⟩ := windowed key _ found
    obtain ⟨e, rfl⟩ := Option.isSome_iff_exists.mp carries
    exact ⟨value, e, rfl, found, positive, by simpa using running⟩
  · rintro ⟨value, e, rfl, found, _, running⟩
    exact ⟨found, by simpa using running⟩

/-- The script counts in the running window, or opens one of 60 seconds. -/
theorem increment_eq_some {n : Nat} (windowed : Windowed r) (h : increment now key r = some (n, r')) :
    (∃ value e, r key = some ⟨value, some e⟩ ∧ now < e ∧ n = value + 1 ∧
        r' = Function.update r key (some ⟨value + 1, some e⟩)) ∨
      Redis.get now key r = none ∧ n = 1 ∧ r' = Function.update r key (some ⟨1, some (now + 60000)⟩) := by
  simp only [increment, Redis.incr, Option.bind_eq_bind, Option.bind_eq_some_iff, Option.pure_def, Option.some.injEq,
    Prod.mk.injEq, Option.ite_none_right_eq_some, Prod.exists] at h
  obtain ⟨count, store, ⟨_, rfl, rfl⟩, rfl, rfl⟩ := h
  cases found : Redis.get now key r with
  | none =>
      refine .inr ⟨rfl, rfl, ?_⟩
      have fresh : Redis.get now key (Function.update r key (some ⟨1, none⟩)) = some ⟨1, none⟩ := by
        simp [Redis.get]
      simp [Redis.expire, fresh]
  | some entry =>
      obtain ⟨value, e, rfl, there, positive, running⟩ := (get_eq_some windowed).mp found
      refine .inl ⟨value, e, there, running, rfl, ?_⟩
      rw [if_neg]
      · rfl
      · change ¬ value + 1 = 1
        omega

end Script

section
variable (sha256Hex : String → String) (limit : Nat) {r : Redis.Store} {key : String}

/-- The request is one that the counter of this key limits. -/
def counts (sha256Hex : String → String) (key : String) (q : AuthRequest) : Bool :=
  isLimited q && counterKey sha256Hex q.remoteAddress == key

/-- What a request of the counter does to Redis, and when it may be admitted. -/
inductive Outcome (limit : Nat) (key : String) (q : AuthRequest) (r : Redis.Store) (reply : Reply) (r' : Redis.Store) : Prop
  | missed : reply.admitted = false → r' = r → q.delivery = .unreached ∨ (Redis.get q.time key r).isSome →
      Outcome limit key q r reply r'
  | counted (value : Nat) (e : Time) : r key = some ⟨value, some e⟩ → q.time < e → (reply.admitted → value + 1 ≤ limit) →
      r' = Function.update r key (some ⟨value + 1, some e⟩) → Outcome limit key q r reply r'
  | opened : Redis.get q.time key r = none → (reply.admitted → 1 ≤ limit) →
      (q.delivery = .answered → 1 ≤ limit → reply.result = .ok true) →
      r' = Function.update r key (some ⟨1, some (q.time + 60000)⟩) → Outcome limit key q r reply r'

theorem increment_eq_none {now : Time} (h : increment now key r = none) : (Redis.get now key r).isSome := by
  cases found : Redis.get now key r with
  | some entry => rfl
  | none =>
      simp [increment, Redis.incr, found, Redis.maxInteger] at h

theorem outcome_of_counts {q : AuthRequest} (windowed : Windowed r) (mine : counts sha256Hex key q) :
    Outcome limit key q r (canActivate sha256Hex limit q r).1 (canActivate sha256Hex limit q r).2 := by
  simp only [counts, Bool.and_eq_true, beq_iff_eq] at mine
  obtain ⟨limited, rfl⟩ := mine
  rw [canActivate, if_neg (not_not.mpr limited), eval]
  generalize counterKey sha256Hex q.remoteAddress = key
  cases delivery : q.delivery with
  | unreached => exact .missed rfl rfl (.inl delivery)
  | answered =>
      cases ran : increment q.time key r with
      | none => exact .missed rfl rfl (.inr (increment_eq_none ran))
      | some answer =>
          obtain ⟨n, r'⟩ := answer
          rcases increment_eq_some windowed ran with ⟨value, e, there, running, rfl, rfl⟩ | ⟨none, rfl, rfl⟩
          · simp only [↓reduceIte]
            split
            · exact .counted value e there running (by simp [Reply.admitted]) rfl
            · rename_i within
              exact .counted value e there running (fun _ => not_lt.mp within) rfl
          · simp only [↓reduceIte]
            split
            · rename_i exceeds
              exact .opened none (by simp [Reply.admitted]) (fun _ positive => absurd positive exceeds.not_ge) rfl
            · rename_i within
              exact .opened none (fun _ => not_lt.mp within) (fun _ _ => rfl) rfl
  | lost =>
      cases ran : increment q.time key r with
      | none => exact .missed rfl rfl (.inr (increment_eq_none ran))
      | some answer =>
          obtain ⟨n, r'⟩ := answer
          rcases increment_eq_some windowed ran with ⟨value, e, there, running, rfl, rfl⟩ | ⟨none, rfl, rfl⟩
          · exact .counted value e there running (by simp [Reply.admitted]) rfl
          · exact .opened none (by simp [Reply.admitted]) (fun answered => by simp [delivery] at answered) rfl

theorem outcome_of_own {q : AuthRequest} (windowed : Windowed r) (limited : isLimited q) :
    Outcome limit (counterKey sha256Hex q.remoteAddress) q r (canActivate sha256Hex limit q r).1
      (canActivate sha256Hex limit q r).2 :=
  outcome_of_counts sha256Hex limit windowed (by simp [counts, limited])

/-- A request leaves the counters of other keys alone. -/
theorem other_key {q : AuthRequest} (windowed : Windowed r) (other : counts sha256Hex key q = false) :
    (canActivate sha256Hex limit q r).2 key = r key := by
  by_cases limited : isLimited q
  · have different : counterKey sha256Hex q.remoteAddress ≠ key := by simpa [counts, limited] using other
    have outcome := outcome_of_own sha256Hex limit windowed limited
    cases outcome with
    | missed _ same _ => rw [same]
    | counted value e _ _ _ now => rw [now, Function.update_of_ne different.symm]
    | opened _ _ _ now => rw [now, Function.update_of_ne different.symm]
  · rw [canActivate, if_pos limited]

theorem windowed_update {value : Nat} {e : Time} (windowed : Windowed r) (positive : 1 ≤ value) :
    Windowed (Function.update r key (some ⟨value, some e⟩)) := by
  intro key' entry found
  by_cases same : key' = key
  · subst same
    rw [Function.update_self, Option.some.injEq] at found
    subst found
    exact ⟨positive, rfl⟩
  · rw [Function.update_of_ne same] at found
    exact windowed key' entry found

theorem windowed_canActivate (windowed : Windowed r) (q : AuthRequest) :
    Windowed (canActivate sha256Hex limit q r).2 := by
  by_cases limited : isLimited q
  · have outcome := outcome_of_own sha256Hex limit windowed limited
    cases outcome with
    | missed _ same _ =>
        rw [same]
        exact windowed
    | counted value e _ _ _ now =>
        rw [now]
        exact windowed_update windowed (Nat.le_add_left 1 value)
    | opened _ _ _ now =>
        rw [now]
        exact windowed_update windowed (Nat.le_refl 1)
  · rw [canActivate, if_pos limited]
    exact windowed

/-! ## Runs -/

theorem windowed_empty : Windowed Redis.empty := by
  intro key entry found
  cases found

theorem windowed_served (windowed : Windowed r) (traffic : List AuthRequest) :
    Windowed (served sha256Hex limit traffic r) := by
  induction traffic generalizing r with
  | nil => exact windowed
  | cons q rest ih => exact ih (windowed_canActivate sha256Hex limit windowed q)

theorem served_concat (traffic : List AuthRequest) (q : AuthRequest) :
    served sha256Hex limit (traffic ++ [q]) r =
      (canActivate sha256Hex limit q (served sha256Hex limit traffic r)).2 := by
  rw [served, List.foldl_append]
  rfl

theorem map_fst_serve (traffic : List AuthRequest) : (serve sha256Hex limit traffic r).map Prod.fst = traffic := by
  induction traffic generalizing r with
  | nil => rfl
  | cons q rest ih => rw [serve, List.map_cons, ih]

/-- What the key holds, as a counter. -/
def counter (key : String) (r : Redis.Store) : Option (Counter Time) :=
  (r key).bind fun entry => entry.expiresAt.map fun e => ⟨entry.value, e⟩

theorem counter_update {value : Nat} {e : Time} :
    counter key (Function.update r key (some ⟨value, some e⟩)) = some ⟨value, e⟩ := by
  simp [counter]

/-- The times at which a counter was asked, and whether the request was admitted. -/
def hits (sha256Hex : String → String) (key : String) (log : List (AuthRequest × Reply)) : List (Time × Bool) :=
  (log.filter fun x => counts sha256Hex key x.1).map fun x => (x.1.time, x.2.admitted)

theorem not_live_of_get {now : Time} (none : Redis.get now key r = none) : ¬ Live (counter key r) now := by
  rintro ⟨n, e, running, lt⟩
  obtain ⟨entry, there, carries⟩ := Option.bind_eq_some_iff.mp running
  obtain ⟨e', expires, same⟩ := Option.map_eq_some_iff.mp carries
  cases same
  rw [Redis.get, there, Option.filter_some, expires] at none
  simp [lt] at none

/-- Every counter runs as a fixed-window counter of 60 seconds. -/
theorem run_of_serve (windowed : Windowed r) (traffic : List AuthRequest) :
    Run (60000 : Time) limit (counter key r) (hits sha256Hex key (serve sha256Hex limit traffic r)) := by
  induction traffic generalizing r with
  | nil => exact .nil _
  | cons q rest ih =>
      have later := ih (windowed_canActivate sha256Hex limit windowed q)
      cases mine : counts sha256Hex key q with
      | false =>
          have same : counter key (canActivate sha256Hex limit q r).2 = counter key r := by
            rw [counter, other_key sha256Hex limit windowed mine]
            rfl
          rw [same] at later
          rw [serve, hits, List.filter_cons_of_neg (by simp [mine])]
          exact later
      | true =>
          have outcome := outcome_of_counts sha256Hex limit windowed mine
          rw [serve, hits, List.filter_cons_of_pos (by exact mine), List.map_cons]
          cases outcome with
          | missed refused same _ =>
              rw [same] at later
              rw [refused, same]
              exact .missed later
          | counted value e there running within after =>
              have now : counter key r = some ⟨value, e⟩ := by simp [counter, there]
              rw [now]
              rw [after, counter_update] at later
              rw [after]
              exact .counted running within later
          | opened none within _ after =>
              rw [after, counter_update] at later
              rw [after]
              exact .opened (not_live_of_get none) within later

theorem ordered_hits {traffic : List AuthRequest} (ordered : traffic.Pairwise fun p q => p.time ≤ q.time) :
    Ordered (hits sha256Hex key (serve sha256Hex limit traffic r)) := by
  rw [← map_fst_serve sha256Hex limit (r := r) traffic, List.pairwise_map] at ordered
  exact List.pairwise_map.mpr (ordered.filter _)

/-- How many requests that the counter limits are admitted at a time of `P`. -/
def admitted (sha256Hex : String → String) (key : String) (P : Time → Prop) [DecidablePred P]
    (log : List (AuthRequest × Reply)) : Nat :=
  log.countP fun x => counts sha256Hex key x.1 && (x.2.admitted && decide (P x.1.time))

theorem admitted_eq_granted {P : Time → Prop} [DecidablePred P] {log : List (AuthRequest × Reply)} :
    admitted sha256Hex key P log = granted P (hits sha256Hex key log) := by
  rw [admitted, granted, hits, List.countP_map, List.countP_filter]
  apply List.countP_congr
  intro x _
  simp [and_comm]

/-- No request moves the expiry of a running window. -/
theorem expiry_kept {q : AuthRequest} {value : Nat} {e : Time} (windowed : Windowed r)
    (there : r key = some ⟨value, some e⟩) (running : counts sha256Hex key q → q.time < e) :
    ∃ value', (canActivate sha256Hex limit q r).2 key = some ⟨value', some e⟩ := by
  cases mine : counts sha256Hex key q with
  | false => exact ⟨value, (other_key sha256Hex limit windowed mine).trans there⟩
  | true =>
      have outcome := outcome_of_counts sha256Hex limit windowed mine
      cases outcome with
      | missed _ same _ => exact ⟨value, by rw [same, there]⟩
      | counted value' e' there' _ _ after =>
          cases there.symm.trans there'
          exact ⟨value + 1, by rw [after, Function.update_self]⟩
      | opened none _ _ _ =>
          have := (get_eq_some windowed).mpr
            ⟨value, e, rfl, there, (windowed key _ there).1, running mine⟩
          rw [none] at this
          cases this

theorem expiry_served {traffic : List AuthRequest} {value : Nat} {e : Time} (windowed : Windowed r)
    (there : r key = some ⟨value, some e⟩) (running : ∀ q ∈ traffic, counts sha256Hex key q → q.time < e) :
    ∃ value', served sha256Hex limit traffic r key = some ⟨value', some e⟩ := by
  induction traffic generalizing r value with
  | nil => exact ⟨value, there⟩
  | cons q rest ih =>
      obtain ⟨value', there'⟩ := expiry_kept sha256Hex limit windowed there (running q List.mem_cons_self)
      exact ih (windowed_canActivate sha256Hex limit windowed q) there' fun p hp => running p (List.mem_cons_of_mem _ hp)

/-- A request that finds no window running opens one, and is admitted when its answer arrives. -/
theorem opened_of_get {q : AuthRequest} (windowed : Windowed r) (mine : counts sha256Hex key q)
    (none : Redis.get q.time key r = none) (reached : q.delivery ≠ .unreached) :
    (canActivate sha256Hex limit q r).2 key = some ⟨1, some (q.time + 60000)⟩ ∧
      (q.delivery = .answered → 1 ≤ limit → (canActivate sha256Hex limit q r).1.result = .ok true) := by
  have outcome := outcome_of_counts sha256Hex limit windowed mine
  cases outcome with
  | missed _ _ why =>
      rcases why with unreached | running
      · exact absurd unreached reached
      · rw [none] at running
        cases running
  | counted value e there running _ _ =>
      have := (get_eq_some windowed).mpr ⟨value, e, rfl, there, (windowed key _ there).1, running⟩
      rw [none] at this
      cases this
  | opened _ _ admits after => exact ⟨by rw [after, Function.update_self], admits⟩

/-- In every ordered traffic, with `key` the counter of any address: one limit is admitted in a window, two in any 60
seconds; no request moves the expiry of a running window, and one that is turned away finds a window running; every key
carries an expiry; and the first request 60 seconds or more after the start of a window is admitted. -/
theorem limiter_bounds_windows (sha256Hex : String → String) {limit : Nat} (positive : 1 ≤ limit)
    {traffic : List AuthRequest} (ordered : traffic.Pairwise fun p q => p.time ≤ q.time)
    (key : String) :
    (∀ before q rest, traffic = before ++ q :: rest →
      Redis.get q.time key (served sha256Hex limit before Redis.empty) = none →
      admitted sha256Hex key (· < q.time + 60000)
        (serve sha256Hex limit (q :: rest) (served sha256Hex limit before Redis.empty)) ≤ limit) ∧
    (∀ s, admitted sha256Hex key (fun t => s ≤ t ∧ t ≤ s + 60000) (serve sha256Hex limit traffic Redis.empty) ≤ 2 * limit) ∧
    (∀ before q rest, traffic = before ++ q :: rest →
      (∀ entry, Redis.get q.time key (served sha256Hex limit before Redis.empty) = some entry →
        (served sha256Hex limit (before ++ [q]) Redis.empty key).map Redis.Entry.expiresAt = some entry.expiresAt) ∧
      (counts sha256Hex key q → q.delivery = .answered →
        (canActivate sha256Hex limit q (served sha256Hex limit before Redis.empty)).1.result ≠ .ok true →
        (Redis.get q.time key (served sha256Hex limit before Redis.empty)).isSome)) ∧
    (∀ before, before <+: traffic → ∀ k entry, served sha256Hex limit before Redis.empty k = some entry →
      entry.expiresAt.isSome) ∧
    (∀ before q between q' rest, traffic = before ++ q :: between ++ q' :: rest → counts sha256Hex key q →
      q.delivery ≠ .unreached → Redis.get q.time key (served sha256Hex limit before Redis.empty) = none →
      (∀ p ∈ between, counts sha256Hex key p → p.time < q.time + 60000) → q.time + 60000 ≤ q'.time →
      counts sha256Hex key q' → q'.delivery = .answered →
      (canActivate sha256Hex limit q' (served sha256Hex limit (before ++ q :: between) Redis.empty)).1.result = .ok true) := by
  have windowed (before : List AuthRequest) : Windowed (served sha256Hex limit before Redis.empty) :=
    windowed_served sha256Hex limit windowed_empty before
  refine ⟨fun before q rest split idle => ?_, fun s => ?_, fun before q rest split => ⟨fun entry running => ?_, ?_⟩,
    fun before _ k entry found => (windowed before k entry found).2, ?_⟩
  · subst split
    have later : (q :: rest).Pairwise fun p q => p.time ≤ q.time := (List.pairwise_append.mp ordered).2.1
    rw [admitted_eq_granted]
    apply (run_of_serve sha256Hex limit (windowed before) (q :: rest)).granted_idle (not_live_of_get idle) (ordered_hits sha256Hex limit later)
    · intro x hx
      obtain ⟨entry, mem, rfl⟩ := List.mem_map.mp hx
      have there := List.mem_map_of_mem (f := Prod.fst) (List.mem_of_mem_filter mem)
      rw [map_fst_serve, List.mem_cons] at there
      rcases there with same | there
      · exact (congrArg AuthRequest.time same).ge
      · exact List.rel_of_pairwise_cons later there
    · exact fun t within => within
  · rw [admitted_eq_granted]
    exact (run_of_serve sha256Hex limit windowed_empty traffic).granted_interval (by decide) (ordered_hits sha256Hex limit ordered) s
  · obtain ⟨value, e, rfl, there, _, lt⟩ := (get_eq_some (windowed before)).mp running
    obtain ⟨value', kept⟩ := expiry_kept sha256Hex limit (windowed before) there fun _ => lt
    rw [served_concat, kept]
    rfl
  · intro mine answered refused
    cases found : Redis.get q.time key (served sha256Hex limit before Redis.empty) with
    | some entry => rfl
    | none =>
        have opens := opened_of_get sha256Hex limit (windowed before) mine found (by simp [answered])
        exact absurd (opens.2 answered positive) refused
  · intro before q between q' rest _ mine reached idle within late mine' answered
    obtain ⟨opened, _⟩ := opened_of_get sha256Hex limit (windowed before) mine idle reached
    obtain ⟨value, there⟩ := expiry_served sha256Hex limit (windowed_canActivate sha256Hex limit (windowed before) q) opened within
    have state : served sha256Hex limit (before ++ q :: between) Redis.empty =
        served sha256Hex limit between (canActivate sha256Hex limit q (served sha256Hex limit before Redis.empty)).2 := by
      rw [served, List.foldl_append]
      rfl
    rw [← state] at there
    have idle' : Redis.get q'.time key (served sha256Hex limit (before ++ q :: between) Redis.empty) = none := by
      simp [Redis.get, there, late]
    exact (opened_of_get sha256Hex limit (windowed _) mine' idle' (by simp [answered])).2 answered positive

end

/-- A login and a registration in one window, and a login after it. -/
def sampleTraffic : List AuthRequest := [
  ⟨0, "AuthController", "login", some "203.0.113.7", .answered⟩,
  ⟨10, "AuthController", "register", some "203.0.113.7", .answered⟩,
  ⟨61500, "AuthController", "login", some "203.0.113.7", .answered⟩]

theorem limiter_bounds_windows_sample :
    admitted id "fintech:auth-rate:203.0.113.7" (fun t => 0 ≤ t ∧ t ≤ 0 + 60000) (serve id 1 sampleTraffic Redis.empty) ≤ 2 ∧
      (serve id 1 sampleTraffic Redis.empty).map (fun x => x.2.admitted) = [true, false, true] := by
  have ordered : sampleTraffic.Pairwise fun p q => p.time ≤ q.time := by decide
  have bounds := limiter_bounds_windows id (Nat.le_refl 1) ordered "fintech:auth-rate:203.0.113.7"
  exact ⟨bounds.2.1 0, by decide⟩

end Fintech.AuthRateGuard
