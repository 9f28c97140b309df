import CoxAgent.Lib.Interleaving

-- Rely-guarantee reasoning about clients of one service. The guarantee is what each step of each
-- client does to the shared state and the log, and with that also what a client can rely on between
-- its own steps. `assume` is what is taken for granted of a request when it is made, and `ensure` what
-- is to be shown of it.
structure Protocol (I : Iface) (ι σ : Type) where
  guar       : Config I ι σ → Config I ι σ → Prop
  assume     : ι → I.Req → Config I ι σ → Prop
  ensure     : ι → I.Req → Config I ι σ → Prop
  guar_refl  : ∀ cfg, guar cfg cfg
  guar_trans : ∀ {a b c}, guar a b → guar b c → guar a c

variable {I : Iface} {ι σ α β : Type} [DecidableEq ι]

namespace Protocol

-- What the other clients may have done to the configuration in the meantime.
def Meanwhile (P : Protocol I ι σ) (i : ι) (cfg cfg' : Config I ι σ) : Prop :=
  cfg'.past i = cfg.past i ∧ P.guar cfg cfg'

-- The request may be made.
structure Allows (P : Protocol I ι σ) (S : Service I σ) (i : ι) (q : I.Req) (cfg : Config I ι σ) :
    Prop where
  ensure : P.ensure i q cfg
  guar   : P.guar cfg (cfg.serve S i q)

-- Whatever the others do, each request of the program keeps the guarantee and is ensured, and the
-- result satisfies `post` when it is returned and from then on.
def Safe (P : Protocol I ι σ) (S : Service I σ) (i : ι) (post : α → Config I ι σ → Prop) :
    Prog I α → Config I ι σ → Prop
  | .done a,   cfg => ∀ cfg', P.Meanwhile i cfg cfg' → post a cfg'
  | .call q k, cfg => ∀ cfg', P.Meanwhile i cfg cfg' → P.assume i q cfg' →
      P.Allows S i q cfg' ∧ Safe P S i post (k (S q cfg'.world).1) (cfg'.serve S i q)

-- The condition on a step of a system: if the client makes a request then it may be assumed.
def Assumed (P : Protocol I ι σ) (s : Sys I ι σ α) (i : ι) : Prop :=
  ∀ q k, s.prog i = .call q k → P.assume i q s.toConfig

variable {P : Protocol I ι σ} {S : Service I σ} {i : ι} {post : α → Config I ι σ → Prop}
variable {p : Prog I α} {cfg cfg' cfg'' : Config I ι σ}

theorem Meanwhile.refl : P.Meanwhile i cfg cfg :=
  ⟨rfl, P.guar_refl cfg⟩

theorem Meanwhile.trans (h₁ : P.Meanwhile i cfg cfg') (h₂ : P.Meanwhile i cfg' cfg'') :
    P.Meanwhile i cfg cfg'' :=
  ⟨h₂.left.trans h₁.left, P.guar_trans h₁.right h₂.right⟩

namespace Safe

theorem stable (h : P.Safe S i post p cfg) (hm : P.Meanwhile i cfg cfg') :
    P.Safe S i post p cfg' := by
  cases p
  case done => exact fun cfg'' hm' => h cfg'' (hm.trans hm')
  case call => exact fun cfg'' hm' => h cfg'' (hm.trans hm')

theorem mono {post' : α → Config I ι σ → Prop} (h : P.Safe S i post p cfg)
    (hp : ∀ a cfg, post a cfg → post' a cfg) : P.Safe S i post' p cfg := by
  induction p generalizing cfg
  case done a      => exact fun cfg' hm => hp a cfg' (h cfg' hm)
  case call q k hi =>
    intro cfg' hm ha
    have ⟨hq, hs⟩ := h cfg' hm ha
    exact ⟨hq, hi _ hs⟩

theorem bind {f : α → Prog I β} {post : β → Config I ι σ → Prop}
    (h : P.Safe S i (fun a cfg => P.Safe S i post (f a) cfg) p cfg) :
    P.Safe S i post (p >>= f) cfg := by
  induction p generalizing cfg
  case done a      => exact h cfg .refl
  case call q k hi =>
    intro cfg' hm ha
    have ⟨hq, hs⟩ := h cfg' hm ha
    exact ⟨hq, hi _ hs⟩

-- A program is safe if all requests it can make are allowed.
theorem of_calls {Q : I.Req → Prop} (h : p.Calls Q)
    (ha : ∀ q cfg, Q q → P.assume i q cfg → P.Allows S i q cfg) :
    P.Safe S i (fun _ _ => True) p cfg := by
  induction p generalizing cfg
  case done        => exact fun _ _ => trivial
  case call q k hi => exact fun cfg' _ hq => ⟨ha q cfg' h.left hq, hi _ (h.right _)⟩

end Safe

end Protocol

namespace Sys

variable {P : Protocol I ι σ} {S : Service I σ} {i : ι} {s : Sys I ι σ α}
variable {post : ι → α → Config I ι σ → Prop} {sched : List ι}

-- Every client is safe.
def Safe (P : Protocol I ι σ) (S : Service I σ) (post : ι → α → Config I ι σ → Prop)
    (s : Sys I ι σ α) : Prop :=
  ∀ i, P.Safe S i (post i) (s.prog i) s.toConfig

theorem Safe.step (h : s.Safe P S post) (ha : P.Assumed s i) :
    P.guar s.toConfig (step S s i).toConfig ∧ (step S s i).Safe P S post := by
  cases hp : s.prog i
  case done =>
    rw [step_done hp]
    exact ⟨P.guar_refl _, h⟩
  case call q k =>
    have hi := h i
    rw [hp] at hi
    have ⟨⟨_, hg⟩, hi⟩ := hi s.toConfig .refl (ha q k hp)
    rw [step_call hp]
    refine ⟨hg, fun j => ?_⟩
    by_cases hj : j = i
    case pos =>
      subst hj
      simpa using hi
    case neg =>
      simp only [Function.update_of_ne hj]
      exact (h j).stable ⟨Config.past_serve_ne hj, hg⟩

-- If every client is safe then they all are to the end of the run, and the guarantee holds of it.
theorem Safe.run (h : s.Safe P S post) (hm : Meets S P.Assumed s sched) :
    P.guar s.toConfig (run S s sched).toConfig ∧ (run S s sched).Safe P S post := by
  induction sched generalizing s
  case nil => exact ⟨P.guar_refl _, h⟩
  case cons i sched hi =>
    have ⟨hg, hs⟩ := h.step hm.left
    have ⟨hg', hs'⟩ := hi hs hm.right
    exact ⟨P.guar_trans hg hg', hs'⟩

theorem Safe.returned {a : α} (h : s.Safe P S post) (hp : s.prog i = .done a) :
    post i a s.toConfig := by
  have hi := h i
  rw [hp] at hi
  exact hi _ .refl

theorem Safe.ensure {q : I.Req} {k : I.Rep q → Prog I α} (h : s.Safe P S post)
    (hp : s.prog i = .call q k) (ha : P.assume i q s.toConfig) : P.ensure i q s.toConfig := by
  have hi := h i
  rw [hp] at hi
  exact (hi _ .refl ha).left.ensure

end Sys
