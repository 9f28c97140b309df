import CoxAgent.Auth.Gate
import Mathlib.Data.List.Infix
import Mathlib.Order.Basic

-- How the limiter is set up.
structure RateConfig where
  max        : Nat
  window     : Nat
  trustProxy : Bool
deriving DecidableEq, Repr

-- The limiter with the requests that it has seen, and with those that it has let pass.
structure FrontDoor where
  limiter  : RateLimiter
  seen     : List (HttpRequest × Int) := []
  admitted : List (HttpRequest × Int) := []

namespace FrontDoor

section Definitions

variable (cfg : RateConfig)

def step (f : FrontDoor) (e : HttpRequest × Int) : FrontDoor :=
  let answer := f.limiter.rateLimitMw cfg.max cfg.window cfg.trustProxy e.1 e.2
  { limiter  := answer.2
    seen     := f.seen ++ [e]
    admitted := if answer.1 then f.admitted ++ [e] else f.admitted }

def run (earliest : Int) (events : List (HttpRequest × Int)) : FrontDoor :=
  events.foldl (step cfg) { limiter := { earliest } }

def keyOf (e : HttpRequest × Int) : String :=
  (RateLimiter.bucket cfg.max cfg.trustProxy e.1).1

def limitOf (e : HttpRequest × Int) : Nat :=
  (RateLimiter.bucket cfg.max cfg.trustProxy e.1).2

-- Whether a request counts for the bucket.
def concerns (key : String) (e : HttpRequest × Int) : Bool :=
  RateLimiter.isLimited e.1 && keyOf cfg e = key

def times (key : String) (events : List (HttpRequest × Int)) : List Int :=
  (events.filter (concerns cfg key)).map Prod.snd

-- No more than the limit of the bucket come in the window that ends with the request.
def Within (past : List (HttpRequest × Int)) (e : HttpRequest × Int) : Prop :=
  RateLimiter.isLimited e.1 →
    past.countP (fun e' => concerns cfg (keyOf cfg e) e' && e.2 - (cfg.window : Int) < e'.2) < limitOf cfg e

end Definitions

variable {cfg : RateConfig} {earliest latest : Int} {f : FrontDoor} {events past : List (HttpRequest × Int)}
  {e : HttpRequest × Int} {key : String}

section Deque

variable {l : List Int} {cutoff : Int}

-- In a queue that is in order, what is after the cutoff is what is behind the last instant before it.
theorem filter_eq_dropWhile (h : l.Pairwise (· ≤ ·)) : l.filter (cutoff < ·) = l.dropWhile (· ≤ cutoff) := by
  induction l
  case nil         => rfl
  case cons a l hi =>
    have ⟨ha, hl⟩ := List.pairwise_cons.mp h
    by_cases hc : a ≤ cutoff
    case pos =>
      rw [List.filter_cons_of_neg (by simpa using hc), List.dropWhile_cons_of_pos (by simpa using hc), hi hl]
    case neg =>
      have hall : ∀ t ∈ a :: l, decide (cutoff < t) :=
        fun t ht => decide_eq_true ((Int.not_le.mp hc).trans_le ((List.mem_cons.mp ht).elim (·.ge) (ha t)))
      rw [List.dropWhile_cons_of_neg (by simpa using hc), List.filter_eq_self.mpr hall]

end Deque

section Invariant

-- The limiter remembers the instants of each bucket, but for the oldest, which are out of every window to come.
structure Inv (cfg : RateConfig) (earliest latest : Int) (f : FrontDoor) : Prop where
  earliest : f.limiter.earliest = earliest
  ordered  : ∀ key, (times cfg key f.seen).Pairwise (· ≤ ·)
  until'   : ∀ key, ∀ t ∈ times cfg key f.seen, t ≤ latest
  kept     : ∀ key, ∃ dropped, times cfg key f.seen = dropped ++ f.limiter.hits key ∧
    ∀ t ∈ dropped, t + cfg.window ≤ latest

theorem Inv.init : Inv cfg earliest latest { limiter := { earliest } } where
  earliest    := rfl
  ordered _   := .nil
  until' _    := by simp [times]
  kept _      := ⟨[], rfl, by simp⟩

theorem Inv.later (h : Inv cfg earliest latest f) {later : Int} (hl : latest ≤ later) : Inv cfg earliest later f where
  earliest    := h.earliest
  ordered     := h.ordered
  until' k t  := fun ht => (h.until' k t ht).trans hl
  kept k      := (h.kept k).imp fun _ hd => ⟨hd.left, fun t ht => (hd.right t ht).trans hl⟩

theorem length_filter_times (after : Int) : ((times cfg key past).filter (after < ·)).length =
    past.countP (fun e => concerns cfg key e && after < e.2) := by
  rw [times, List.filter_map, List.length_map, List.filter_filter, ← List.countP_eq_length_filter]
  exact List.countP_congr fun e _ => by simp [and_comm]

theorem times_append :
    times cfg key (past ++ [e]) = times cfg key past ++ if concerns cfg key e then [e.2] else [] := by
  rw [times, List.filter_append, List.map_append, ← times]
  cases h : concerns cfg key e <;> simp [h]

-- The queue of a bucket when a request comes: the instants in the window that ends with it.
theorem Inv.dropWhile (h : Inv cfg earliest latest f) {now : Int} (hn : latest ≤ now) :
    (f.limiter.hits key).dropWhile (· ≤ now - cfg.window) =
      (times cfg key f.seen).filter (now - (cfg.window : Int) < ·) := by
  obtain ⟨dropped, htimes, hold⟩ := h.kept key
  have hord := h.ordered key
  rw [htimes, List.pairwise_append] at hord
  have hgone : dropped.filter (now - (cfg.window : Int) < ·) = [] := by
    rw [List.filter_eq_nil_iff]
    intro t ht
    have := hold t ht
    simp only [decide_eq_true_eq]
    omega
  rw [htimes, List.filter_append, hgone, List.nil_append, filter_eq_dropWhile hord.right.left]

theorem Inv.checkedSub (h : Inv cfg earliest latest f) (he : earliest + cfg.window ≤ e.2) :
    f.limiter.checkedSub e.2 cfg.window = some (e.2 - cfg.window) := by
  rw [RateLimiter.checkedSub, if_pos]
  rw [h.earliest]
  omega

theorem Inv.verdict (h : Inv cfg earliest latest f) (hn : latest ≤ e.2) (he : earliest + cfg.window ≤ e.2) :
    (f.limiter.rateLimitMw cfg.max cfg.window cfg.trustProxy e.1 e.2).1 ↔ Within cfg f.seen e := by
  unfold RateLimiter.rateLimitMw Within
  split
  case isFalse hl => simp [hl]
  case isTrue hl  =>
    simp only [RateLimiter.check, h.checkedSub he, Option.getD_some, hl, true_implies, decide_eq_true_eq,
      List.length_append, List.length_singleton]
    rw [h.dropWhile hn, length_filter_times]
    rfl

theorem Inv.hits_step (h : Inv cfg earliest latest f) (he : earliest + cfg.window ≤ e.2) :
    (f.step cfg e).limiter.hits key = if concerns cfg key e then
      (f.limiter.hits key).dropWhile (· ≤ e.2 - cfg.window) ++ [e.2] else f.limiter.hits key := by
  simp only [FrontDoor.step, RateLimiter.rateLimitMw, concerns]
  split
  case isFalse hl => simp [hl]
  case isTrue hl  =>
    simp only [RateLimiter.check, h.checkedSub he, Option.getD_some, hl, Bool.true_and, decide_eq_true_eq]
    by_cases hk : keyOf cfg e = key
    case pos =>
      subst hk
      rw [if_pos rfl]
      exact Function.update_self _ _ _
    case neg =>
      rw [if_neg hk]
      exact Function.update_of_ne (Ne.symm hk) _ _

theorem Inv.step (h : Inv cfg earliest latest f) (hn : latest ≤ e.2) (he : earliest + cfg.window ≤ e.2) :
    Inv cfg earliest e.2 (f.step cfg e) where
  earliest := by
    rw [← h.earliest]
    simp only [FrontDoor.step, RateLimiter.rateLimitMw]
    split <;> rfl
  ordered key := by
    rw [FrontDoor.step, times_append, List.pairwise_append]
    refine ⟨h.ordered key, by split <;> simp, fun t ht t' ht' => ?_⟩
    split at ht'
    case isTrue  => exact ((h.until' key t ht).trans hn).trans (List.mem_singleton.mp ht').ge
    case isFalse => simp at ht'
  until' key := by
    rw [FrontDoor.step, times_append]
    intro t ht
    cases List.mem_append.mp ht
    case inl ht => exact (h.until' key t ht).trans hn
    case inr ht =>
      split at ht
      case isTrue  => exact (List.mem_singleton.mp ht).le
      case isFalse => simp at ht
  kept key := by
    obtain ⟨dropped, htimes, hold⟩ := h.kept key
    rw [h.hits_step he]
    simp only [FrontDoor.step, times_append, htimes]
    split
    case isFalse =>
      exact ⟨dropped, List.append_nil _, fun t ht => (hold t ht).trans hn⟩
    case isTrue  =>
      -- What leaves the queue joins what has left it before.
      refine ⟨dropped ++ (f.limiter.hits key).takeWhile (· ≤ e.2 - cfg.window), ?_, fun t ht => ?_⟩
      · rw [List.append_assoc, List.append_assoc, ← List.append_assoc (List.takeWhile _ _),
          List.takeWhile_append_dropWhile]
      · cases List.mem_append.mp ht
        case inl ht => exact (hold t ht).trans hn
        case inr ht =>
          have := List.mem_takeWhile_imp ht
          simp only [decide_eq_true_eq] at this
          omega

end Invariant

section Runs

theorem run_concat : run cfg earliest (events ++ [e]) = (run cfg earliest events).step cfg e := by
  rw [run, List.foldl_append, List.foldl_cons, List.foldl_nil, run]

theorem seen_run : (run cfg earliest events).seen = events := by
  induction events using List.reverseRecOn
  case nil                        => rfl
  case append_singleton events e hi => rw [run_concat, step, hi]

-- The instants of the requests, which come one after another once the clock has run for a window.
structure Timely (cfg : RateConfig) (earliest : Int) (events : List (HttpRequest × Int)) : Prop where
  ordered : events.Pairwise (·.2 ≤ ·.2)
  started : ∀ e ∈ events, earliest + cfg.window ≤ e.2

theorem Timely.left (h : Timely cfg earliest (events ++ past)) : Timely cfg earliest events where
  ordered      := (List.pairwise_append.mp h.ordered).left
  started e he := h.started e (List.mem_append_left _ he)

theorem inv_run (h : Timely cfg earliest events) (hl : ∀ e ∈ events, e.2 ≤ latest) :
    Inv cfg earliest latest (run cfg earliest events) := by
  induction events using List.reverseRecOn generalizing latest
  case nil                          => exact .init
  case append_singleton events e hi =>
    have hord := (List.pairwise_append.mp h.ordered).right.right
    have hinv := hi h.left fun e' he' => hord e' he' e (List.mem_singleton_self e)
    rw [run_concat]
    exact (hinv.step le_rfl (h.started e (by simp))).later (hl e (by simp))

-- The answer to a request depends only on those before it.
theorem verdict_run (h : Timely cfg earliest (past ++ [e])) :
    ((run cfg earliest past).limiter.rateLimitMw cfg.max cfg.window cfg.trustProxy e.1 e.2).1 ↔ Within cfg past e := by
  have hord := (List.pairwise_append.mp h.ordered).right.right
  have hinv := inv_run h.left fun e' he' => hord e' he' e (List.mem_singleton_self e)
  have := hinv.verdict le_rfl (h.started e (by simp))
  rwa [seen_run] at this

theorem admitted_concat : (run cfg earliest (events ++ [e])).admitted =
    if ((run cfg earliest events).limiter.rateLimitMw cfg.max cfg.window cfg.trustProxy e.1 e.2).1
    then (run cfg earliest events).admitted ++ [e] else (run cfg earliest events).admitted := by
  rw [run_concat, step]

theorem admitted_sublist : (run cfg earliest events).admitted.Sublist events := by
  induction events using List.reverseRecOn
  case nil                          => exact .slnil
  case append_singleton events e hi =>
    rw [admitted_concat]
    split
    case isTrue  => exact hi.append_right [e]
    case isFalse => exact hi.trans (List.sublist_append_left events [e])

-- The requests that count for a bucket with the limit, and that come in the window that begins after the instant.
def inWindow (cfg : RateConfig) (key : String) (limit : Nat) (start : Int) (e : HttpRequest × Int) : Bool :=
  concerns cfg key e && limitOf cfg e ≤ limit && start < e.2 && e.2 ≤ start + cfg.window

-- The last one that was let pass saw the others in the window that ends with it.
theorem admitted_le (h : Timely cfg earliest events) (limit : Nat) (start : Int) :
    (run cfg earliest events).admitted.countP (inWindow cfg key limit start) ≤ limit := by
  induction events using List.reverseRecOn
  case nil                          => simp [run]
  case append_singleton events e hi =>
    rw [admitted_concat]
    split
    case isFalse        => exact hi h.left
    case isTrue hpass   =>
      rw [List.countP_append, List.countP_singleton]
      split
      case isFalse    => exact hi h.left
      case isTrue hin =>
        have hwithin := (verdict_run h).mp hpass
        simp only [inWindow, concerns, Bool.and_eq_true, decide_eq_true_eq] at hin
        obtain ⟨⟨⟨⟨hlimited, hkey⟩, hlimit⟩, -⟩, hend⟩ := hin
        have hseen := hwithin hlimited
        rw [hkey] at hseen
        have hcount : (run cfg earliest events).admitted.countP (inWindow cfg key limit start) ≤
            events.countP (inWindow cfg key limit start) := admitted_sublist.countP_le
        have hmono : events.countP (inWindow cfg key limit start) ≤
            events.countP (fun e' => concerns cfg key e' && e.2 - (cfg.window : Int) < e'.2) := by
          refine List.countP_mono_left fun e' _ h' => ?_
          simp only [inWindow, Bool.and_eq_true, decide_eq_true_eq] at h' ⊢
          exact ⟨h'.left.left.left, by omega⟩
        omega

end Runs

-- Once the clock has run for a window, a request to the sign-in endpoints passes exactly if fewer than its limit
-- came for its bucket in the window that ends with it, those that were refused included. So no window has more
-- requests let pass for a bucket than its limit.
theorem windowed (cfg : RateConfig) (earliest : Int) (events : List (HttpRequest × Int))
    (h : Timely cfg earliest events) :
    (∀ past e, (past ++ [e]) <+: events →
      (((run cfg earliest past).limiter.rateLimitMw cfg.max cfg.window cfg.trustProxy e.1 e.2).1 ↔
        Within cfg past e)) ∧
    (∀ key limit start, (run cfg earliest events).admitted.countP (inWindow cfg key limit start) ≤ limit) := by
  refine ⟨fun past e hpre => ?_, fun _ => admitted_le h⟩
  obtain ⟨rest, rfl⟩ := hpre
  exact verdict_run h.left

-- Two guesses, the second of which is refused, and the reads of the session, which have a bucket of their own.
theorem windowed_guesses :
    let login : HttpRequest := { method := .post, path := "/api/auth/login", peer := some "10.0.0.1" }
    let me : HttpRequest := { method := .get, path := "/api/auth/me", peer := some "10.0.0.1" }
    let cfg : RateConfig := { max := 1, window := 60, trustProxy := false }
    let events := [(login, 60), (me, 61), (login, 90), (me, 100)]
    (run cfg 0 events).admitted = [(login, 60), (me, 61), (me, 100)] ∧
    (run cfg 0 events).admitted.countP (inWindow cfg "10.0.0.1" 1 59) ≤ 1 :=
  ⟨by decide +kernel, (windowed _ 0 _ ⟨by decide, by decide⟩).right _ _ _⟩

end FrontDoor
