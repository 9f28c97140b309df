import Mathlib.Data.List.Basic
import Mathlib.Logic.Function.Basic

-- The requests a program can make of a shared service, each with the type of its reply.
structure Iface where
  Req : Type
  Rep : Req → Type

-- A program whose only effects are requests. Everything it computes between two requests is pure, so
-- the requests are the only points at which programs that share a service can interleave.
inductive Prog (I : Iface) (α : Type) : Type
  | done (a : α)
  | call (q : I.Req) (k : I.Rep q → Prog I α)

-- A service answers one request atomically.
abbrev Service (I : Iface) (σ : Type) :=
  (q : I.Req) → σ → I.Rep q × σ

namespace Prog

variable {I : Iface} {α β σ : Type}

protected def bind : Prog I α → (α → Prog I β) → Prog I β
  | done a,   f => f a
  | call q k, f => call q fun r => (k r).bind f

instance : Monad (Prog I) where
  pure := done
  bind := Prog.bind

def request (q : I.Req) : Prog I (I.Rep q) :=
  call q done

@[simp]
theorem pure_eq (a : α) : (pure a : Prog I α) = done a :=
  rfl

@[simp]
theorem done_bind (a : α) (f : α → Prog I β) : done a >>= f = f a :=
  rfl

@[simp]
theorem call_bind (q : I.Req) (k : I.Rep q → Prog I α) (f : α → Prog I β) :
    call q k >>= f = call q fun r => k r >>= f :=
  rfl

theorem call_inj {p : Prog I α} {q q' : I.Req} {k : I.Rep q → Prog I α} {k' : I.Rep q' → Prog I α}
    (h : p = call q k) (h' : p = call q' k') : q = q' := by
  cases h.symm.trans h'
  rfl

-- The program running alone, from its first request to its result.
def eval (S : Service I σ) : Prog I α → σ → α × σ
  | done a,   w => (a, w)
  | call q k, w => (k (S q w).1).eval S (S q w).2

@[simp]
theorem eval_done (S : Service I σ) (a : α) (w : σ) : (done a : Prog I α).eval S w = (a, w) :=
  rfl

@[simp]
theorem eval_call (S : Service I σ) (q : I.Req) (k : I.Rep q → Prog I α) (w : σ) :
    (call q k).eval S w = (k (S q w).1).eval S (S q w).2 :=
  rfl

-- Every request the program can ever make satisfies `P`, whatever the replies.
def Calls (P : I.Req → Prop) : Prog I α → Prop
  | done _   => True
  | call q k => P q ∧ ∀ r, (k r).Calls P

section Calls

variable {P : I.Req → Prop}

@[simp]
theorem calls_done (a : α) : (done a : Prog I α).Calls P :=
  trivial

@[simp]
theorem calls_call (q : I.Req) (k : I.Rep q → Prog I α) :
    (call q k).Calls P ↔ P q ∧ ∀ r, (k r).Calls P :=
  .rfl

theorem Calls.bind {p : Prog I α} {f : α → Prog I β} (hp : p.Calls P) (hf : ∀ a, (f a).Calls P) :
    (p >>= f).Calls P := by
  induction p
  case done a      => exact hf a
  case call q k hi => exact ⟨hp.left, fun r => hi r (hp.right r)⟩

end Calls

end Prog

-- One request of one client, with the reply it got.
structure Entry (I : Iface) (ι : Type) where
  client : ι
  req    : I.Req
  rep    : I.Rep req

-- The shared state with the ghost record of all requests served so far, oldest first.
structure Config (I : Iface) (ι σ : Type) where
  world : σ
  log   : List (Entry I ι)

-- Clients `ι` that run their programs against one service.
structure Sys (I : Iface) (ι σ α : Type) extends Config I ι σ where
  prog : ι → Prog I α

namespace Config

variable {I : Iface} {ι σ : Type}

def serve (S : Service I σ) (cfg : Config I ι σ) (i : ι) (q : I.Req) : Config I ι σ where
  world := (S q cfg.world).2
  log   := cfg.log ++ [⟨i, q, (S q cfg.world).1⟩]

-- The requests of one client.
def past [DecidableEq ι] (cfg : Config I ι σ) (i : ι) : List (Entry I ι) :=
  cfg.log.filter (·.client = i)

variable [DecidableEq ι] {S : Service I σ} {cfg : Config I ι σ} {i j : ι} {q : I.Req}

theorem past_serve_self :
    (cfg.serve S i q).past i = cfg.past i ++ [⟨i, q, (S q cfg.world).1⟩] := by
  simp [past, serve]

theorem past_serve_ne (h : j ≠ i) : (cfg.serve S i q).past j = cfg.past j := by
  simp [past, serve, Ne.symm h]

end Config

namespace Sys

variable {I : Iface} {ι σ α : Type} [DecidableEq ι]

def init (w : σ) (prog : ι → Prog I α) : Sys I ι σ α where
  world := w
  prog  := prog
  log   := []

-- Client `i` makes its next request. A client that has returned does nothing when it is scheduled.
def step (S : Service I σ) (s : Sys I ι σ α) (i : ι) : Sys I ι σ α :=
  match s.prog i with
  | .done _   => s
  | .call q k => {
      toConfig := s.serve S i q
      prog     := Function.update s.prog i (k (S q s.world).1)
    }

-- A schedule names the client that takes each step, so a result for every schedule is a result for
-- every interleaving.
def run (S : Service I σ) (s : Sys I ι σ α) (sched : List ι) : Sys I ι σ α :=
  sched.foldl (step S) s

-- Every step of the run satisfies `C`, which sees the state before the step and who takes it.
def Meets (S : Service I σ) (C : Sys I ι σ α → ι → Prop) (s : Sys I ι σ α) : List ι → Prop
  | []      => True
  | i :: is => C s i ∧ Meets S C (step S s i) is

section Steps

variable {S : Service I σ} {s : Sys I ι σ α} {i j : ι} {sched : List ι}

theorem step_done {a : α} (h : s.prog i = .done a) : step S s i = s := by
  simp [step, h]

theorem step_call {q : I.Req} {k : I.Rep q → Prog I α} (h : s.prog i = .call q k) :
    step S s i = {
      toConfig := s.serve S i q
      prog     := Function.update s.prog i (k (S q s.world).1)
    } := by
  simp [step, h]

theorem step_world {q : I.Req} {k : I.Rep q → Prog I α} (h : s.prog i = .call q k) :
    (step S s i).world = (S q s.world).2 := by
  rw [step_call h]
  rfl

theorem step_prog_self {q : I.Req} {k : I.Rep q → Prog I α} (h : s.prog i = .call q k) :
    (step S s i).prog i = k (S q s.world).1 := by
  simp [step_call h]

theorem step_prog_ne (h : j ≠ i) : (step S s i).prog j = s.prog j := by
  cases hp : s.prog i
  case done => rw [step_done hp]
  case call => simp [step_call hp, h]

@[simp]
theorem run_nil : run S s [] = s :=
  rfl

@[simp]
theorem run_cons : run S s (i :: sched) = run S (step S s i) sched :=
  rfl

theorem run_inv {P : Sys I ι σ α → Prop} (h : P s) (hs : ∀ s i, P s → P (step S s i)) :
    P (run S s sched) := by
  induction sched generalizing s
  case nil          => exact h
  case cons i _ hi  => exact hi (hs s i h)

theorem Meets.cons {C : Sys I ι σ α → ι → Prop} (h : C s i) (hm : Meets S C (step S s i) sched) :
    Meets S C s (i :: sched) :=
  ⟨h, hm⟩

theorem Meets.mono {C C' : Sys I ι σ α → ι → Prop} (hm : Meets S C s sched)
    (h : ∀ s i, C s i → C' s i) : Meets S C' s sched := by
  induction sched generalizing s
  case nil         => trivial
  case cons i _ hi => exact ⟨h s i hm.left, hi hm.right⟩

theorem Meets.and {C C' : Sys I ι σ α → ι → Prop} (hm : Meets S C s sched) (hm' : Meets S C' s sched) :
    Meets S (fun s i => C s i ∧ C' s i) s sched := by
  induction sched generalizing s
  case nil         => trivial
  case cons i _ hi => exact ⟨⟨hm.left, hm'.left⟩, hi hm.right hm'.right⟩

theorem meets_append {C : Sys I ι σ α → ι → Prop} {sched' : List ι} :
    Meets S C s (sched ++ sched') ↔ Meets S C s sched ∧ Meets S C (run S s sched) sched' := by
  induction sched generalizing s
  case nil         => simp [Meets]
  case cons i _ hi => simp [Meets, hi, and_assoc]

theorem run_append {sched' : List ι} :
    run S s (sched ++ sched') = run S (run S s sched) sched' :=
  List.foldl_append

-- What every step of this kind preserves holds at the end of the run.
theorem Meets.inv {C : Sys I ι σ α → ι → Prop} {P : Sys I ι σ α → Prop} (hm : Meets S C s sched)
    (hs : ∀ s i, C s i → P s → P (step S s i)) (h : P s) : P (run S s sched) := by
  induction sched generalizing s
  case nil         => exact h
  case cons i _ hi => exact hi hm.right (hs s i hm.left h)

-- Nobody else writes the program of a client.
theorem run_prog_ne (h : i ∉ sched) : (run S s sched).prog i = s.prog i := by
  induction sched generalizing s
  case nil => rfl
  case cons j _ hi =>
    obtain ⟨hj, hn⟩ := not_or.mp (mt List.mem_cons.mpr h)
    rw [run_cons, hi hn, step_prog_ne hj]

theorem step_calls {P : I.Req → Prop} (h : ∀ i, (s.prog i).Calls P) (j : ι) :
    ((step S s i).prog j).Calls P := by
  by_cases hj : j = i
  case neg => simpa only [step_prog_ne hj] using h j
  case pos =>
    subst hj
    have hc := h j
    cases hp : s.prog j
    case done => simpa only [step_done hp] using hc
    case call q k =>
      rw [hp] at hc
      rw [step_prog_self hp]
      exact hc.right _

-- A client that is scheduled alone for long enough runs its program to the end.
theorem run_alone (i : ι) : ∃ n,
    (run S s (List.replicate n i)).world = ((s.prog i).eval S s.world).2 := by
  generalize hp : s.prog i = p
  induction p generalizing s
  case done => exact ⟨0, rfl⟩
  case call q k hi =>
    have ⟨n, hn⟩ := hi (S q s.world).1 (step_prog_self hp)
    refine ⟨n + 1, ?_⟩
    rw [List.replicate_succ, run_cons, hn, step_world hp]
    rfl

-- What every request the clients may make preserves holds of the shared state in every
-- interleaving.
theorem run_world_inv {P : I.Req → Prop} {J : σ → Prop} (hp : ∀ i, (s.prog i).Calls P)
    (hs : ∀ q w, P q → J w → J (S q w).2) (h : J s.world) : J (run S s sched).world := by
  let Q (s : Sys I ι σ α) := (∀ i, (s.prog i).Calls P) ∧ J s.world
  suffices h : Q (run S s sched) from h.right
  refine run_inv (P := Q) ⟨hp, h⟩ (fun s i ⟨hp, h⟩ => ⟨step_calls hp, ?_⟩)
  have hc := hp i
  cases hi : s.prog i
  case done => simpa only [step_done hi] using h
  case call q k =>
    rw [hi] at hc
    rw [step_world hi]
    exact hs q s.world hc.left h

end Steps

end Sys
