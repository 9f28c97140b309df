import CoxAgent.Lib.Lists
import CoxAgent.Lib.Rely
import CoxAgent.MergeLock.Lock

section

variable {J ι : Type} {c : LeaseCodec J} {w w' w'' : KvStore J} {key key' : String} {json : J}

@[simp]
theorem kvAsk_eq (q : Kv.Req J) : kvAsk q = .call q .done :=
  rfl

namespace KvStore

-- The lease that is stored at a key.
def leaseAt (c : LeaseCodec J) (w : KvStore J) (key : String) : Option LeaseDoc :=
  w.docs key |>.map Prod.fst |>.bind c.toLease

theorem saveExpecting_cases (w : KvStore J) (key : String) (json : J) (rev : Int) :
    (∃ e, w.saveExpecting key json rev = (.error e, w)) ∨
    w.saveExpecting key json rev = (.ok (), w.put key json) ∧
      (w.docs key = none ∨ w.revision key = rev) := by
  unfold saveExpecting
  split
  case h_1 h => exact .inr ⟨rfl, .inl h⟩
  case h_2 r h =>
    split
    case isTrue he  => exact .inr ⟨rfl, .inr (by simpa [revision, h] using he)⟩
    case isFalse he => exact .inl ⟨_, rfl⟩

theorem leaseAt_put_self : (w.put key json).leaseAt c key = c.toLease json := by
  simp [leaseAt, put]

theorem leaseAt_put_ne (h : key' ≠ key) : (w.put key json).leaseAt c key' = w.leaseAt c key' := by
  simp [leaseAt, put, h]

theorem revision_put : (w.put key json).revision key = w.revision key + 1 := by
  simp [revision, put]

-- The clock only moves forward, and a document that changes gets a newer revision.
structure Later (w w' : KvStore J) : Prop where
  clock : w.clock ≤ w'.clock
  docs  : ∀ key, w'.docs key = w.docs key ∨
            (w'.docs key).isSome ∧ w.revision key < w'.revision key

namespace Later

theorem refl : Later w w :=
  ⟨le_rfl, fun _ => .inl rfl⟩

theorem revision_le (h : Later w w') : w.revision key ≤ w'.revision key := by
  cases h.docs key
  case inl h => simp [revision, h]
  case inr h => exact h.right.le

theorem trans (h₁ : Later w w') (h₂ : Later w' w'') : Later w w'' := by
  refine ⟨h₁.clock.trans h₂.clock, fun key => ?_⟩
  cases h₂.docs key
  case inr h => exact .inr ⟨h.left, h₁.revision_le.trans_lt h.right⟩
  case inl h =>
    cases h₁.docs key
    case inl h' => exact .inl (h.trans h')
    case inr h' => exact .inr (by simpa only [revision, h] using h')

theorem now_le (h : Later w w') : w.nowUnix ≤ w'.nowUnix := by
  have := h.clock
  unfold nowUnix
  omega

theorem put : Later w (w.put key json) := by
  refine ⟨le_rfl, fun key' => ?_⟩
  by_cases hk : key' = key
  case neg => exact .inl (by simp [KvStore.put, hk])
  case pos =>
    subst hk
    exact .inr ⟨by simp [KvStore.put], by rw [revision_put]; omega⟩

-- If the document still has the revision it had at the start, then it has not changed in between.
theorem docs_eq (h₁ : Later w w') (h₂ : Later w' w'')
    (h : w''.docs key = none ∨ w''.revision key = w.revision key) :
    w''.docs key = w'.docs key := by
  cases h₂.docs key
  case inl h => exact h
  case inr h' =>
    cases h
    case inl h => simp [h] at h'
    case inr h =>
      have hle : w.revision key ≤ w'.revision key := h₁.revision_le
      omega

end Later

end KvStore

-- The lease that a runner was granted last at a key and has not released. An acquire returns `true`
-- right after its conditional write, and only a release writes blindly.
def held (c : LeaseCodec J) (key : String) : List (Entry (Kv.iface J) (Option ι)) → Option LeaseDoc :=
  List.foldl (fun lease e =>
    match e with
    | ⟨_, .saveExpecting k json _, .ok _⟩ => if key = k then c.toLease json else lease
    | ⟨_, .save k _, _⟩                   => if key = k then none else lease
    | _                                   => lease) none

variable [DecidableEq ι] {holder : ι → String} {i j : ι} {q : Kv.Req J}
variable {cfg cfg' : Config (Kv.iface J) (Option ι) (KvStore J)}

-- The lease of a runner is the one that is stored, or it has expired.
def LeasesKept (c : LeaseCodec J) (holder : ι → String)
    (cfg : Config (Kv.iface J) (Option ι) (KvStore J)) : Prop :=
  ∀ i key lease, held c key (cfg.past (some i)) = some lease → lease.holder = holder i ∧
    (cfg.world.leaseAt c key = some lease ∨ lease.expiresAtUnix < cfg.world.nowUnix)

-- Unexpired leases of others stay as they are.
def Spares (c : LeaseCodec J) (name : String) (w w' : KvStore J) : Prop :=
  ∀ key lease, w.leaseAt c key = some lease → lease.holder ≠ name →
    ¬ lease.expiresAtUnix < w.nowUnix → w'.leaseAt c key = some lease

-- When a release writes its tombstone, the revision is still the one that it started from.
def ReleaseFresh (i : Option ι) (key : String)
    (cfg : Config (Kv.iface J) (Option ι) (KvStore J)) : Prop :=
  ∀ rev json, [⟨i, .currentVersion key, rev⟩, ⟨i, .load key, json⟩] <:+ cfg.past i →
    rev = some (cfg.world.revision key)

def leaseProtocol (c : LeaseCodec J) (holder : ι → String) :
    Protocol (Kv.iface J) (Option ι) (KvStore J) where
  guar cfg cfg'   := (LeasesKept c holder cfg → LeasesKept c holder cfg') ∧
                       cfg.world.Later cfg'.world
  assume i q cfg  := ∀ key json, q = .save key json → ReleaseFresh i key cfg
  ensure i q cfg  := ∀ name ∈ i.map holder, Spares c name cfg.world (kv q cfg.world).2
  guar_refl _     := ⟨id, .refl⟩
  guar_trans h h' := ⟨h'.left ∘ h.left, h.right.trans h'.right⟩

-- Requests that change nothing.
def Kv.Reads : Kv.Req J → Prop
  | .now | .currentVersion _ | .load _ => True
  | _                                  => False

-- The lease at the key is the runner's own, or nobody's.
def Takeable (c : LeaseCodec J) (name : String) (key : String) (w : KvStore J) : Prop :=
  ∀ lease, w.leaseAt c key = some lease →
    lease.holder = name ∨ lease.expiresAtUnix < w.nowUnix

omit [DecidableEq ι] in
theorem spares_put {name : String} (h : Takeable c name key w) :
    Spares c name w (w.put key json) := by
  intro key' lease hl hn he
  by_cases hk : key' = key
  case neg => rwa [KvStore.leaseAt_put_ne hk]
  case pos =>
    subst hk
    cases h lease hl
    case inl h => contradiction
    case inr h => contradiction

-- The lease a runner has after a write of its own at the key.
theorem leasesKept_put (hi : holder.Injective) {lease : Option LeaseDoc}
    (ht : Takeable c (holder i) key cfg.world) (hq : (kv q cfg.world).2 = cfg.world.put key json)
    (hl : ∀ key', held c key' ((cfg.serve kv (some i) q).past (some i)) =
      if key' = key then lease else held c key' (cfg.past (some i)))
    (hn : ∀ l, lease = some l → l.holder = holder i ∧ c.toLease json = some l)
    (h : LeasesKept c holder cfg) : LeasesKept c holder (cfg.serve kv (some i) q) := by
  intro j key' l hh
  have hw : (cfg.serve kv (some i) q).world = cfg.world.put key json := hq
  have hnow : (cfg.world.put key json).nowUnix = cfg.world.nowUnix := rfl
  rw [hw, hnow]
  by_cases hj : j = i
  case pos =>
    subst hj
    rw [hl] at hh
    by_cases hk : key' = key
    case pos =>
      subst hk
      rw [if_pos rfl] at hh
      have ⟨ho, hs⟩ := hn l hh
      exact ⟨ho, .inl (KvStore.leaseAt_put_self.trans hs)⟩
    case neg =>
      rw [if_neg hk] at hh
      rw [KvStore.leaseAt_put_ne hk]
      exact h j key' l hh
  case neg =>
    rw [Config.past_serve_ne (by simpa using hj)] at hh
    have ⟨ho, hs⟩ := h j key' l hh
    refine ⟨ho, ?_⟩
    by_cases hk : key' = key
    case neg => rwa [KvStore.leaseAt_put_ne hk]
    case pos =>
      subst hk
      cases hs
      case inr hs => exact .inr hs
      case inl hs =>
        cases ht l hs
        case inl hm => exact absurd (hi (ho.symm.trans hm)) hj
        case inr he => exact .inr he

theorem kv_reads (h : Kv.Reads q) : (kv q w).2 = w := by
  cases q <;> first | rfl | contradiction

theorem leasesKept_same {i : Option ι} (hw : (kv q cfg.world).2 = cfg.world)
    (hl : ∀ key, held c key ((cfg.serve kv i q).past i) = held c key (cfg.past i))
    (h : LeasesKept c holder cfg) : LeasesKept c holder (cfg.serve kv i q) := by
  intro j key l hh
  have hp : held c key ((cfg.serve kv i q).past (some j)) = held c key (cfg.past (some j)) := by
    by_cases hj : some j = i
    case neg => rw [Config.past_serve_ne hj]
    case pos =>
      subst hj
      exact hl key
  have hw : (cfg.serve kv i q).world = cfg.world := hw
  rw [hw]
  exact h j key l (hp ▸ hh)

section Safe

open Protocol

variable {α : Type} {post : α → Config (Kv.iface J) (Option ι) (KvStore J) → Prop}

-- A step that changes neither the store nor what the runner holds.
theorem safe_same {i : Option ι} (hw : (kv q cfg.world).2 = cfg.world)
    (hl : ∀ key, held c key ((cfg.serve kv i q).past i) = held c key (cfg.past i)) :
    (leaseProtocol c holder).Allows kv i q cfg := by
  refine ⟨fun name _ key lease h _ _ => by rwa [hw], leasesKept_same hw hl, ?_⟩
  have hw : (cfg.serve kv i q).world = cfg.world := hw
  exact hw ▸ .refl

theorem safe_read {i : Option ι} {k : Kv.Rep q → KvProg J α} (hq : Kv.Reads q)
    (hk : ∀ cfg', (leaseProtocol c holder).Meanwhile i cfg cfg' →
      (leaseProtocol c holder).Safe kv i post (k (kv q cfg'.world).1) (cfg'.serve kv i q)) :
    (leaseProtocol c holder).Safe kv i post (.call q k) cfg := by
  intro cfg' hm _
  have h : (leaseProtocol c holder).Allows kv i q cfg' := by
    refine safe_same (kv_reads hq) fun key => ?_
    rw [Config.past_serve_self]
    cases q <;> first | contradiction | simp [held]
  exact ⟨h, hk cfg' hm⟩

-- A write of a runner at a key that it may take.
theorem safe_put (lease : Option LeaseDoc) (hi : holder.Injective)
    (ht : Takeable c (holder i) key cfg.world) (hq : (kv q cfg.world).2 = cfg.world.put key json)
    (hl : ∀ key', held c key' ((cfg.serve kv (some i) q).past (some i)) =
      if key' = key then lease else held c key' (cfg.past (some i)))
    (hn : ∀ l, lease = some l → l.holder = holder i ∧ c.toLease json = some l) :
    (leaseProtocol c holder).Allows kv (some i) q cfg := by
  refine ⟨fun name hm => ?_, leasesKept_put hi ht hq hl hn, ?_⟩
  · cases hm
    exact hq ▸ spares_put ht
  · have hw : (cfg.serve kv (some i) q).world = cfg.world.put key json := hq
    exact hw ▸ .put

theorem takeable_of_allowed {name : String} {now : Int} (hn : now ≤ w.nowUnix)
    (h : KvMergeLock.takeoverAllowed name now (w.leaseAt c key) = true) :
    Takeable c name key w := by
  intro lease hl
  rw [hl] at h
  simp only [KvMergeLock.takeoverAllowed, Bool.or_eq_true, decide_eq_true_eq] at h
  exact h.imp_right (·.trans_le hn)

-- The write of an acquire. If it goes through then the lease may be taken.
theorem safe_grant {doc : LeaseDoc} {rev : Int} (hi : holder.Injective)
    (hd : doc.holder = holder i)
    (ht : cfg.world.docs key = none ∨ cfg.world.revision key = rev →
      Takeable c (holder i) key cfg.world) :
    (leaseProtocol c holder).Allows kv (some i) (.saveExpecting key (c.ofLease doc) rev) cfg := by
  cases cfg.world.saveExpecting_cases key (c.ofLease doc) rev
  case inl he =>
    have ⟨e, he⟩ := he
    refine safe_same (congrArg Prod.snd he) fun key => ?_
    rw [Config.past_serve_self]
    simp [held, kv, he]
  case inr he =>
    have ⟨he, hr⟩ := he
    refine safe_put (some doc) hi (ht hr) (congrArg Prod.snd he) ?_ ?_
    · intro key'
      rw [Config.past_serve_self]
      simp [held, kv, he, c.toLease_ofLease]
    · intro l hl
      cases hl
      exact ⟨hd, c.toLease_ofLease doc⟩

-- The write of a release at a key with the runner's own lease.
theorem safe_clear {doc : LeaseDoc} (hi : holder.Injective)
    (ht : Takeable c (holder i) key cfg.world) :
    (leaseProtocol c holder).Allows kv (some i) (.save key (c.ofLease doc)) cfg := by
  refine safe_put none hi ht rfl ?_ nofun
  intro key'
  rw [Config.past_serve_self]
  simp [held]

variable {post : Except PortError Bool → Config (Kv.iface J) (Option ι) (KvStore J) → Prop}

theorem safe_tryAcquire {why : String} {ttlSecs : Nat} (hi : holder.Injective)
    (hp : ∀ a cfg, post a cfg) :
    (leaseProtocol c holder).Safe kv (some i) post
      (KvMergeLock.tryAcquire c key (holder i) why ttlSecs) cfg := by
  unfold KvMergeLock.tryAcquire KvMergeLock.readLease
  simp only [kvAsk_eq, Prog.call_bind, Prog.done_bind, Prog.pure_eq]
  refine safe_read trivial fun cfg₁ hm₁ => safe_read trivial fun cfg₂ hm₂ =>
    safe_read trivial fun cfg₃ hm₃ => ?_
  split
  case isFalse => exact fun _ _ => hp _ _
  case isTrue ht =>
    intro cfg₄ hm₄ _
    have h₁₂ : cfg₁.world.Later cfg₂.world := hm₂.right.right
    have h₂₃ : cfg₂.world.Later cfg₃.world := hm₃.right.right
    have h₃₄ : cfg₃.world.Later cfg₄.world := hm₄.right.right
    refine ⟨safe_grant hi rfl fun hr => ?_, ?_⟩
    · refine takeable_of_allowed (h₁₂.trans h₂₃ |>.trans h₃₄).now_le ?_
      unfold KvStore.leaseAt
      rw [h₂₃.docs_eq h₃₄ hr]
      exact ht
    · dsimp only [Prog.bind]
      split <;> exact fun _ _ => hp _ _

theorem safe_release (hi : holder.Injective) (hp : ∀ a cfg, post a cfg) :
    (leaseProtocol c holder).Safe kv (some i) post
      (KvMergeLock.release c key (holder i)) cfg := by
  unfold KvMergeLock.release KvMergeLock.readLease KvMergeLock.deleteDoc KvMergeLock.writeLease
  simp only [kvAsk_eq, Prog.call_bind, Prog.done_bind, Prog.pure_eq]
  refine safe_read trivial fun cfg₁ hm₁ => safe_read trivial fun cfg₂ hm₂ => ?_
  split
  case h_1 => exact fun _ _ => hp _ _
  case h_2 lease hl =>
    split
    case isTrue => exact fun _ _ => hp _ _
    case isFalse ho =>
      intro cfg₃ hm₃ ha
      have hr : some (cfg₁.world.revision key) = some (cfg₃.world.revision key) := by
        apply ha key _ rfl _ (cfg₂.world.docs key |>.map Prod.fst)
        rw [hm₃.left, Config.past_serve_self, hm₂.left, Config.past_serve_self, List.append_assoc]
        exact List.suffix_append ..
      have h₁₂ : cfg₁.world.Later cfg₂.world := hm₂.right.right
      have h₂₃ : cfg₂.world.Later cfg₃.world := hm₃.right.right
      have hd := h₁₂.docs_eq h₂₃ (.inr (Option.some.inj hr).symm)
      refine ⟨safe_clear hi fun l hl' => ?_, ?_⟩
      · unfold KvStore.leaseAt at hl'
        rw [hd] at hl'
        cases hl.symm.trans hl'
        exact .inl (by simpa using ho)
      · exact fun _ _ => hp (.ok true) _

theorem safe_session {prog : KvProg J Unit} (hi : holder.Injective)
    (h : LockSession c (holder i) prog) :
    (leaseProtocol c holder).Safe kv (some i) (fun _ _ => True) prog cfg := by
  induction h generalizing cfg
  case done           => exact fun _ _ => trivial
  case acquire _ hk   => exact .bind (safe_tryAcquire hi fun _ _ => hk _)
  case release _ hk   => exact .bind (safe_release hi fun _ _ => hk _)

theorem safe_ticks {secs : List Nat} :
    (leaseProtocol c holder).Safe kv none (fun _ _ => True) (ticks secs) cfg := by
  induction secs generalizing cfg
  case nil => exact fun _ _ => trivial
  case cons d secs hi =>
    intro cfg' _ _
    have hl : cfg'.world.Later (cfg'.serve kv none (.tick d)).world :=
      ⟨Nat.le_add_right .., fun _ => .inl rfl⟩
    refine ⟨⟨nofun, fun h j key l hh => ?_, hl⟩, hi⟩
    rw [Config.past_serve_ne (Option.some_ne_none j)] at hh
    have ⟨ho, hs⟩ := h j key l hh
    exact ⟨ho, hs.imp_right (·.trans_le hl.now_le)⟩

end Safe

-- A runner has a lease at the key that has not expired.
def Holds (c : LeaseCodec J) (s : Sys (Kv.iface J) (Option ι) (KvStore J) Unit) (i : ι)
    (key : String) : Prop :=
  ∃ lease, held c key (s.past (some i)) = some lease ∧
    ¬ lease.expiresAtUnix < s.world.nowUnix

-- The condition on a step of a system: if the step is the blind write of a release, then no other
-- write has happened since the release started.
def FreshRelease (s : Sys (Kv.iface J) (Option ι) (KvStore J) Unit) (i : Option ι) : Prop :=
  ∀ key json k, s.prog i = .call (.save key json) k → ReleaseFresh i key s.toConfig

-- If no release writes over a document that it has not read then no two runners hold a lease at the
-- same time, and no step of a runner touches an unexpired lease of another one.
theorem lease_exclusive {prog : ι → KvProg J Unit} {secs : List Nat} {sched : List (Option ι)}
    (hi : holder.Injective) (hp : ∀ i, LockSession c (holder i) (prog i))
    (hm : Sys.Meets kv FreshRelease (locking w prog secs) sched) :
    (∀ i j key, Holds c (Sys.run kv (locking w prog secs) sched) i key →
      Holds c (Sys.run kv (locking w prog secs) sched) j key → i = j) ∧
    (∀ i, FreshRelease (Sys.run kv (locking w prog secs) sched) (some i) →
      Spares c (holder i) (Sys.run kv (locking w prog secs) sched).world
        (Sys.step kv (Sys.run kv (locking w prog secs) sched) (some i)).world) := by
  have hs : (locking w prog secs).Safe (leaseProtocol c holder) kv fun _ _ _ => True
    | some i => safe_session hi (hp i)
    | none   => safe_ticks
  have ha {s : Sys (Kv.iface J) (Option ι) (KvStore J) Unit} {i : Option ι}
      (h : FreshRelease s i) : (leaseProtocol c holder).Assumed s i := by
    intro q k hk key json hq
    subst hq
    exact h key json k hk
  have ⟨hg, hs⟩ := hs.run (hm.mono fun _ _ => ha)
  have hk := hg.left nofun
  constructor
  · intro i j key ⟨l, hl, he⟩ ⟨l', hl', he'⟩
    have ⟨ho, hst⟩ := hk i key l hl
    have ⟨ho', hst'⟩ := hk j key l' hl'
    cases (hst.resolve_right he).symm.trans (hst'.resolve_right he')
    exact hi (ho.symm.trans ho')
  · intro i hf
    cases hq : (Sys.run kv (locking w prog secs) sched).prog (some i)
    case done =>
      rw [Sys.step_done hq]
      exact fun _ _ h _ _ => h
    case call q k =>
      rw [Sys.step_world hq]
      exact hs.ensure hq (ha hf q k hq) (holder i) rfl

namespace FreshRelease

variable {s : Sys (Kv.iface J) (Option ι) (KvStore J) Unit} {i : Option ι}

theorem of_ne {k : Kv.Rep q → KvProg J Unit} (h : s.prog i = .call q k)
    (hq : ∀ key json, q ≠ .save key json) : FreshRelease s i :=
  fun key json _ h' => absurd (Prog.call_inj h h') (hq key json)

theorem of_eq {k : Kv.Rep (.save key json) → KvProg J Unit} {rev : Option Int} {read : Option J}
    {l : List (Entry (Kv.iface J) (Option ι))} (h : s.prog i = .call (.save key json) k)
    (hp : s.past i = l ++ [⟨i, .currentVersion key, rev⟩, ⟨i, .load key, read⟩])
    (hr : rev = some (s.world.revision key)) : FreshRelease s i := by
  intro key' json' k' h' _ _ ⟨l', hs⟩
  rw [h] at h'
  cases h'
  rw [hp] at hs
  cases (List.append_inj' hs rfl).right
  exact hr

end FreshRelease

section Runners

def runner : Fin 3 → String
  | 0 => "ann"
  | 1 => "bob"
  | 2 => "cid"

theorem runner_injective : runner.Injective := by
  intro i j
  revert i j
  decide

-- The first runner takes a short lease and gives it back, the others take a long one.
def sweep : Fin 3 → KvProg LeaseDoc Unit
  | 0 => KvMergeLock.tryAcquire .plain "develop" "ann" "sweep" 1 >>= fun _ =>
    KvMergeLock.release .plain "develop" "ann" >>= fun _ => .done ()
  | 1 => KvMergeLock.tryAcquire .plain "develop" "bob" "sweep" 60 >>= fun _ => .done ()
  | 2 => KvMergeLock.tryAcquire .plain "develop" "cid" "sweep" 60 >>= fun _ => .done ()

theorem session_sweep : ∀ i, LockSession .plain (runner i) (sweep i)
  | 0 => .acquire fun _ => .release fun _ => .done
  | 1 => .acquire fun _ => .done
  | 2 => .acquire fun _ => .done

-- Without interference the lease goes from the first runner to the second, and the third one comes too
-- late.
def handover : List (Option (Fin 3)) :=
  [some 0, some 0, some 0, some 0, some 0, some 0, some 0, some 1, some 1, some 1, some 1, some 2,
    some 2, some 2]

theorem lease_exclusive_handover :
    Holds .plain (Sys.run kv (locking { clock := 1000 } sweep []) handover) 1 "develop" ∧
    ¬ Holds .plain (Sys.run kv (locking { clock := 1000 } sweep []) handover) 2 "develop" := by
  have h₁ : Holds .plain (Sys.run kv (locking { clock := 1000 } sweep []) handover) 1 "develop" :=
    ⟨⟨"bob", "sweep", 1000, 1060⟩, rfl, by decide⟩
  have hm : Sys.Meets kv FreshRelease (locking { clock := 1000 } sweep []) handover :=
    .cons (.of_ne rfl nofun) <| .cons (.of_ne rfl nofun) <| .cons (.of_ne rfl nofun) <|
      .cons (.of_ne rfl nofun) <| .cons (.of_ne rfl nofun) <| .cons (.of_ne rfl nofun) <|
      .cons (.of_eq (l := [_, _, _, _]) rfl rfl rfl) <| .cons (.of_ne rfl nofun) <|
      .cons (.of_ne rfl nofun) <| .cons (.of_ne rfl nofun) <| .cons (.of_ne rfl nofun) <|
      .cons (.of_ne rfl nofun) <| .cons (.of_ne rfl nofun) <| .cons (.of_ne rfl nofun) trivial
  refine ⟨h₁, fun h₂ => ?_⟩
  have := (lease_exclusive runner_injective session_sweep hm).left 1 2 "develop" h₁ h₂
  contradiction

-- The first runner's lease expires after its release has read it, the second runner takes over and
-- the release clears the new lease. The third runner gets one too.
theorem lease_not_exclusive :
    (¬ ∀ (w : KvStore LeaseDoc) (holder : Fin 3 → String) (prog : Fin 3 → KvProg LeaseDoc Unit)
      (secs : List Nat) (sched : List (Option (Fin 3))), holder.Injective →
      (∀ i, LockSession .plain (holder i) (prog i)) → ∀ i j key,
      Holds .plain (Sys.run kv (locking w prog secs) sched) i key →
      Holds .plain (Sys.run kv (locking w prog secs) sched) j key → i = j) ∧
    (¬ ∀ (w : KvStore LeaseDoc) (holder : Fin 3 → String) (prog : Fin 3 → KvProg LeaseDoc Unit)
      (secs : List Nat) (sched : List (Option (Fin 3))), holder.Injective →
      (∀ i, LockSession .plain (holder i) (prog i)) → ∀ i,
      Spares .plain (holder i) (Sys.run kv (locking w prog secs) sched).world
        (Sys.step kv (Sys.run kv (locking w prog secs) sched) (some i)).world) := by
  constructor
  · intro h
    have := h { clock := 1000 } runner sweep [2] [some 0, some 0, some 0, some 0, some 0, some 0,
      none, some 1, some 1, some 1, some 1, some 0, some 2, some 2, some 2, some 2]
      runner_injective session_sweep 1 2 "develop" ⟨⟨"bob", "sweep", 1002, 1062⟩, rfl, by decide⟩
      ⟨⟨"cid", "sweep", 1002, 1062⟩, rfl, by decide⟩
    contradiction
  · intro h
    have := h { clock := 1000 } runner sweep [2] [some 0, some 0, some 0, some 0, some 0, some 0,
      none, some 1, some 1, some 1, some 1] runner_injective session_sweep 0 "develop"
      ⟨"bob", "sweep", 1002, 1062⟩ rfl (by decide) (by decide)
    revert this
    decide

end Runners

end

variable {J : Type} {w : KvStore J} {key key' : String}

-- The document that a request is about.
def Kv.Req.key? : Kv.Req J → Option String
  | .now                   => none
  | .currentVersion key    => some key
  | .load key              => some key
  | .saveExpecting key _ _ => some key
  | .save key _            => some key
  | .tick _                => none

namespace KvStore

theorem docs_put_ne {json : J} (h : key' ≠ key) : (w.put key json).docs key' = w.docs key' := by
  simp [put, h]

theorem docs_saveExpecting_ne {json : J} {rev : Int} (h : key' ≠ key) :
    (w.saveExpecting key json rev).2.docs key' = w.docs key' := by
  unfold saveExpecting
  split
  case h_1 => exact docs_put_ne h
  case h_2 =>
    split
    case isTrue  => exact docs_put_ne h
    case isFalse => rfl

-- A request changes the document that it is about at most.
theorem docs_kv {q : Kv.Req J} (h : q.key? ≠ some key') : (kv q w).2.docs key' = w.docs key' := by
  cases q
  case now            => rfl
  case currentVersion => rfl
  case load           => rfl
  case tick           => rfl
  case saveExpecting  => exact docs_saveExpecting_ne fun he => h (congrArg some he.symm)
  case save           => exact docs_put_ne fun he => h (congrArg some he.symm)

end KvStore

namespace KvMergeLock

variable {a b : Char} {x y : String}

theorem encodeChar_of_plain (hp : a ≠ '%') (hc : a ≠ ':') : encodeChar a = [a] := by
  grind [encodeChar]

-- An escape starts with a percent sign, which no other character is kept as.
theorem encodeChar_cases (a : Char) :
    a = '%' ∧ encodeChar a = ['%', '2', '5'] ∨ a = ':' ∧ encodeChar a = ['%', '3', 'A'] ∨
    a ≠ '%' ∧ a ≠ ':' ∧ encodeChar a = [a] := by
  by_cases hp : a = '%'
  case pos =>
    subst hp
    exact .inl ⟨rfl, by decide⟩
  case neg =>
    by_cases hc : a = ':'
    case pos =>
      subst hc
      exact .inr (.inl ⟨rfl, by decide⟩)
    case neg => exact .inr (.inr ⟨hp, hc, encodeChar_of_plain hp hc⟩)

theorem encodeChar_free (h : encodeChar a <+: encodeChar b) : a = b := by
  rcases encodeChar_cases a with ⟨ha, hea⟩ | ⟨ha, hea⟩ | ⟨hap, hac, hea⟩ <;>
  rcases encodeChar_cases b with ⟨hb, heb⟩ | ⟨hb, heb⟩ | ⟨hbp, hbc, heb⟩ <;>
  rw [hea, heb] at h <;> simp_all [List.cons_prefix_cons]

def keyCode : PrefixCode Char Char where
  word       := encodeChar
  nonempty a := by
    rcases encodeChar_cases a with ⟨_, h⟩ | ⟨_, h⟩ | ⟨_, _, h⟩ <;> simp [h]
  free       := encodeChar_free

theorem toList_mergeLockKey : (mergeLockKey x).toList = keyPrefix.toList ++ keyCode.encode x.toList := by
  rw [mergeLockKey, String.toList_ofList]
  rfl

theorem mergeLockKey_inj (h : mergeLockKey x = mergeLockKey y) : x = y := by
  have hl := congrArg String.toList h
  rw [toList_mergeLockKey, toList_mergeLockKey, List.append_cancel_left_eq] at hl
  exact String.toList_injective (PrefixCode.encode_inj hl)

theorem colon_not_mem_encodeChar (a : Char) : ':' ∉ encodeChar a := by
  rcases encodeChar_cases a with ⟨_, h⟩ | ⟨_, h⟩ | ⟨_, hc, h⟩
  case inl     => simp [h]
  case inr.inl => simp [h]
  case inr.inr => simp [h, hc.symm]

theorem colon_not_mem_mergeLockKey (x : String) : ':' ∉ (mergeLockKey x).toList := by
  rw [toList_mergeLockKey, List.mem_append]
  rintro (h | h)
  case inl => simp [keyPrefix] at h
  case inr => exact PrefixCode.not_mem_encode (fun a _ => colon_not_mem_encodeChar a) h

theorem merge_lock_keys_apart : (∀ x y, mergeLockKey x = mergeLockKey y → x = y) ∧
    (∀ x, ':' ∉ (mergeLockKey x).toList) ∧
    ∀ (J : Type) (w : KvStore J) (q : Kv.Req J) (x y : String),
      x ≠ y → q.key? = some (mergeLockKey x) → (kv q w).2.docs (mergeLockKey y) = w.docs (mergeLockKey y) := by
  refine ⟨fun _ _ => mergeLockKey_inj, colon_not_mem_mergeLockKey, fun J w q x y hxy hq => ?_⟩
  refine KvStore.docs_kv fun hq' => hxy ?_
  rw [hq] at hq'
  exact mergeLockKey_inj (Option.some.inj hq')

end KvMergeLock
