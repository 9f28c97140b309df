import CoxAgent.Cycle.Incident
import CoxAgent.Lib.Run

namespace ProjectState

variable {s : ProjectState} {engine now role reason : String}

theorem hasEngineIncident_openEngineIncident :
    (s.openEngineIncident now engine role reason).hasEngineIncident engine := by
  have hgo (reason : String) (is : List EngineIncident) :
      (openEngineIncident.go now engine role reason is).any (·.engine = engine) := by
    induction is
    case nil          => simp [openEngineIncident.go]
    case cons i is hi => by_cases h : i.engine = engine <;> simp_all [openEngineIncident.go]
  exact hgo _ s.engineIncidents

theorem hasEngineIncident_congr {s' : ProjectState} (h : s'.engineIncidents = s.engineIncidents) :
    s'.hasEngineIncident engine = s.hasEngineIncident engine := by
  rw [hasEngineIncident, hasEngineIncident, h]

@[simp]
theorem hasEngineIncident_elsewhere {f : ProjectState → ProjectState} :
    (s.elsewhere f).hasEngineIncident engine = s.hasEngineIncident engine :=
  rfl

@[simp]
theorem hasEngineIncident_logActivity {agent action : String} {ticket : Option String} :
    (s.logActivity now agent action ticket).hasEngineIncident engine = s.hasEngineIncident engine :=
  hasEngineIncident_congr (by rw [logActivity])

@[simp]
theorem hasEngineIncident_postChatIn {id user body channel : String} {attachments : List Attachment} :
    (s.postChatIn id now user body channel attachments).hasEngineIncident engine =
      s.hasEngineIncident engine :=
  hasEngineIncident_congr (by rw [postChatIn])

end ProjectState

theorem PortError.not_blank_display (e : PortError) : ¬Text.Blank e.display := by
  cases e
  case notFound => exact Text.not_blank_append (c := 'n') (by decide) (by decide)
  case conflict => exact Text.not_blank_append (c := 'c') (by decide) (by decide)
  case corrupt  => exact Text.not_blank_append (c := 's') (by decide) (by decide)
  case backend  => exact Text.not_blank_append (c := 'b') (by decide) (by decide)

variable {l : Text.Lowercase} {engine : String} {mode : DevMode} {o : CycleRun} {s : ProjectState}

-- A call of the engine has come back with something that is no fault of the infrastructure.
def Answered (l : Text.Lowercase) (o : CycleRun) : Prop :=
  ∃ answer, .engine answer ∈ o.actions ∧ !EngineResult.isFault l answer

theorem Answered.act {c : CycleCall} (h : Answered l o) : Answered l (o.act c) := by
  obtain ⟨answer, hm, ha⟩ := h
  exact ⟨answer, by simp [hm], ha⟩

theorem answered_act {answer : EngineResult} (h : !EngineResult.isFault l answer) :
    Answered l (o.act (.engine answer)) :=
  ⟨answer, by simp, h⟩

theorem EngineResult.not_isFault_of_succeeded {answer : EngineResult}
    (h : EngineResult.succeeded answer) : !EngineResult.isFault l answer := by
  cases answer
  case ok outcome => simp_all [EngineResult.succeeded, EngineResult.isFault]
  case error e    => contradiction

namespace DevPass

variable {p : DevPass} {id : TicketId} {why error : String}

-- The ticket that the engine is asked about, if there is one, or the error of the store that comes first.
def target (p : DevPass) : Except PortError (Option TicketId) :=
  match p.boot with
  | .passed =>
    match p.load with
    | some e => .error e
    | none   =>
      match claimFirst p.claims, p.reload with
      | .ok (some _), some e => .error e
      | claimed, _           => claimed
  | _       => .ok none

-- The first attempt to repair the tree is made, and the others if it succeeds.
def healed (l : Text.Lowercase) (p : DevPass) : Bool :=
  match p.boot with
  | .red ((answer, _) :: _) => !EngineResult.isFault l answer
  | _                       => false

def resumed (l : Text.Lowercase) (p : DevPass) : Bool :=
  p.resume.any (!EngineResult.isFault l ·)

-- An error of the store is seen to be a fault of the infrastructure, and an engine that fails leaves a
-- text, unless it has answered before or the words around the missing text read as a fault.
def evident (l : Text.Lowercase) (p : DevPass) (ping : EngineResult) : Bool :=
  match p.target with
  | .error e      => isInfraFault l e.display
  | .ok none      => !EngineResult.silent ping || p.healed l
  | .ok (some id) => !EngineResult.silent p.run || p.resumed l || isInfraFault l (p.failedOn .bug id "")

end DevPass

namespace CycleIo

-- What a cycle that meets an open incident needs: it sees the incident, and its probe is evident.
def Evident (l : Text.Lowercase) (engine : String) (s : ProjectState) (io : CycleIo) : Prop :=
  modelAllowed io.allowlist io.model → !io.quiet → s.hasEngineIncident engine →
    io.sees ∧ io.pass.evident l io.ping

instance (s : ProjectState) (io : CycleIo) : Decidable (Evident l engine s io) :=
  inferInstanceAs (Decidable (_ → _ → _ → _))

end CycleIo

theorem AgentOutcome.failureDetail_of_blank {outcome : AgentOutcome}
    (h : Text.Blank outcome.failureDetail) : outcome.failureDetail = "" := by
  unfold failureDetail at h ⊢
  dsimp only at h ⊢
  split at h
  case isTrue he => exact absurd (by simpa [Text.Blank] using h) he
  case isFalse =>
    split at h
    case isTrue  => simp_all
    case isFalse => simp_all [Text.Blank]

namespace DevPass

variable {p : DevPass} {id : TicketId} {why error detail : String} {ping : EngineResult}

@[simp]
theorem actions_recordFailure : (p.recordFailure l engine mode id why o).actions = o.actions := by
  unfold recordFailure
  split <;> rfl

theorem hasEngineIncident_recordFailure (h : o.state.hasEngineIncident engine) :
    (p.recordFailure l engine mode id why o).state.hasEngineIncident engine := by
  unfold recordFailure
  split
  case isTrue =>
    rw [PortRun.state_edit]
    by_cases hf : p.failed.fails
    case pos =>
      rw [if_pos hf]
      exact h
    case neg =>
      rw [if_neg hf]
      dsimp only
      split <;> simp [ProjectState.hasEngineIncident_openEngineIncident]
  case isFalse =>
    rw [PortRun.state_edit]
    split <;> exact h

theorem failedOn_eq : p.failedOn mode id detail =
    "backend failure: " ++ s!"{mode.debug} engine failed on {id.asStr}: " ++ detail ++
      p.checkpointSuffix := by
  unfold failedOn PortError.display
  simp only [String.append_assoc, toString]

-- The error of a pass repeats the fault.
theorem isInfraFault_failedOn (hb : ¬Text.Blank detail) (h : isInfraFault l detail) :
    isInfraFault l (p.failedOn mode id detail) := by
  rw [failedOn_eq]
  exact isInfraFault_append _ _ hb h

theorem isInfraFault_failedWith {e : PortError} (h : isInfraFault l e.display) :
    isInfraFault l (p.failedWith e) := by
  unfold failedWith
  split
  case isTrue  => exact h
  case isFalse =>
    have ha := isInfraFault_append "backend failure: " p.checkpointSuffix e.not_blank_display h
    rwa [String.append_assoc] at ha

theorem not_blank_failedOn : ¬Text.Blank (p.failedOn mode id detail) := by
  unfold failedOn
  exact PortError.not_blank_display _

theorem not_blank_failedWith {e : PortError} : ¬Text.Blank (p.failedWith e) := by
  unfold failedWith
  split <;> exact PortError.not_blank_display _

theorem ask_state : (p.ask o).1.state = o.state := by
  unfold ask
  split
  case h_1 => dsimp only; split <;> rfl
  case h_2 => rfl

theorem ask_cases : Answered l (p.ask o).1 ∨
    (p.ask o).2 = p.run ∧ EngineResult.isFault l p.run ∧ !p.resumed l := by
  have run (o : CycleRun) (hr : !p.resumed l) : Answered l (o.act (.engine p.run)) ∨
      p.run = p.run ∧ EngineResult.isFault l p.run ∧ !p.resumed l := by
    cases hf : EngineResult.isFault l p.run
    case false => exact .inl (answered_act (by simp [hf]))
    case true  => exact .inr ⟨rfl, rfl, hr⟩
  unfold ask
  split
  case h_2 hn => exact run o (by simp [resumed, hn])
  case h_1 answer hs =>
    dsimp only
    split
    case isTrue hg  => exact .inl (answered_act (EngineResult.not_isFault_of_succeeded hg))
    case isFalse hg =>
      cases hf : EngineResult.isFault l answer
      case false => exact .inl (answered_act (by simp [hf])).act
      case true  => exact run _ (by simp [resumed, hs, hf])

-- A pass that no call of the engine has answered ends so: its error is seen to be a fault, or it has
-- nothing to show and the ping decides.
def Tells (l : Text.Lowercase) (ping : EngineResult) : Except String (Option TicketId) → Prop
  | .error e     => isInfraFault l e ∧ ¬Text.Blank e
  | .ok none     => !EngineResult.silent ping
  | .ok (some _) => False

theorem giveUp_tells (hs : o.state.hasEngineIncident engine) (hi : isInfraFault l error)
    (hb : ¬Text.Blank error) :
    (p.giveUp l engine mode id why error o).1.state.hasEngineIncident engine ∧
      Tells l ping (p.giveUp l engine mode id why error o).2 := by
  have hr := @hasEngineIncident_recordFailure l engine mode o p id why hs
  unfold giveUp
  dsimp only
  rw [ProjectState.hasEngineIncident_elsewhere]
  exact ⟨hr, hi, hb⟩

theorem work_actions : ∃ calls,
    (p.work l engine .bug id o).1.actions = (p.ask o).1.actions ++ calls := by
  unfold work
  dsimp only
  split
  case h_1 o' outcome ha =>
    rw [ha]
    split
    case isTrue  => exact ⟨p.rest.calls, rfl⟩
    case isFalse => exact ⟨[], by simp [giveUp]⟩
  case h_2 o' e ha =>
    rw [ha]
    exact ⟨[], by simp [giveUp]⟩

theorem work_cases (h : o.state.hasEngineIncident engine)
    (he : !EngineResult.silent p.run || p.resumed l || isInfraFault l (p.failedOn .bug id "")) :
    Answered l (p.work l engine .bug id o).1 ∨
      (p.work l engine .bug id o).1.state.hasEngineIncident engine ∧
        Tells l ping (p.work l engine .bug id o).2 := by
  cases @ask_cases l o p
  case inl ha =>
    obtain ⟨answer, hm, hf⟩ := ha
    obtain ⟨calls, hc⟩ := @work_actions l engine o p id
    exact .inl ⟨answer, by simp [hc, hm], hf⟩
  case inr hr =>
    obtain ⟨hrun, hfault, hres⟩ := hr
    rw [Bool.not_eq_true'] at hres
    have hs : (p.ask o).1.state.hasEngineIncident engine := by rwa [ask_state]
    -- The engine has failed, and the pass reports that.
    refine .inr ?_
    unfold work
    dsimp only
    rw [← hrun] at he hfault
    split
    case h_1 o' outcome ha =>
      rw [ha] at he hfault hs
      simp only [EngineResult.isFault, Bool.and_eq_true, Bool.not_eq_true'] at hfault
      rw [if_neg (by simp [hfault.left])]
      refine giveUp_tells hs ?_ not_blank_failedOn
      by_cases hb : Text.Blank outcome.failureDetail
      case neg => exact isInfraFault_failedOn hb hfault.right
      case pos =>
        have hsil : EngineResult.silent (.ok outcome) := by
          simp [EngineResult.silent, hfault.left, hb]
        rw [hsil, hres, Bool.not_true, Bool.false_or, Bool.false_or] at he
        rw [AgentOutcome.failureDetail_of_blank hb]
        exact he
    case h_2 o' e ha =>
      rw [ha] at hfault hs
      exact giveUp_tells hs (isInfraFault_failedWith hfault) not_blank_failedWith

theorem selfHealCompile_state {n : Nat} {attempts : List (EngineResult × Option Bool)} :
    (selfHealCompile o n attempts).state = o.state := by
  induction n generalizing o attempts
  case zero      => rfl
  case succ n hi =>
    cases attempts
    case nil => rfl
    case cons =>
      unfold selfHealCompile
      dsimp only
      split
      case isTrue  => exact hi
      case isFalse => rfl

theorem answered_selfHealCompile {n : Nat} {attempts : List (EngineResult × Option Bool)}
    (h : Answered l o) : Answered l (selfHealCompile o n attempts) := by
  induction n generalizing o attempts
  case zero      => exact h
  case succ n hi =>
    cases attempts
    case nil => exact h
    case cons =>
      unfold selfHealCompile
      dsimp only
      split
      case isTrue  => exact hi h.act
      case isFalse => exact h.act

theorem answered_of_healed {answer : EngineResult} {suite : Option Bool}
    {attempts : List (EngineResult × Option Bool)} (h : !EngineResult.isFault l answer) :
    Answered l (selfHealCompile o healAttempts ((answer, suite) :: attempts)) := by
  unfold healAttempts selfHealCompile
  dsimp only
  split
  case isTrue  => exact answered_selfHealCompile (answered_act h)
  case isFalse => exact answered_act h

theorem selfHealCompile_cases {attempts : List (EngineResult × Option Bool)}
    (hb : p.boot = .red attempts) (he : !EngineResult.silent ping || p.healed l) :
    Answered l (selfHealCompile o healAttempts attempts) ∨ !EngineResult.silent ping := by
  simp only [healed, hb] at he
  cases attempts
  case nil => exact .inr (by simpa using he)
  case cons attempt attempts =>
    cases hf : EngineResult.isFault l attempt.1
    case false => exact .inl (answered_of_healed (by simp [hf]))
    case true  => exact .inr (by simpa [hf] using he)

-- An incident that is open before the pass is open after it, unless the engine has answered.
theorem execute_cases (h : o.state.hasEngineIncident engine) (he : p.evident l ping) :
    Answered l (p.execute l engine .bug o).1 ∨
      (p.execute l engine .bug o).1.state.hasEngineIncident engine ∧
        Tells l ping (p.execute l engine .bug o).2 := by
  unfold execute
  unfold evident target at he
  cases hb : p.boot
  case stopped =>
    simp only [hb, healed, Bool.or_false] at he
    exact .inr ⟨h, he⟩
  case red attempts =>
    simp only [hb] at he
    exact (selfHealCompile_cases hb he).imp_right fun hs =>
      ⟨by simpa [selfHealCompile_state] using h, hs⟩
  case passed =>
    simp only [hb] at he ⊢
    cases hl : p.load
    case some e =>
      simp only [hl] at he
      exact .inr ⟨h, he, e.not_blank_display⟩
    case none =>
      simp only [hl] at he ⊢
      cases hc : claimFirst p.claims
      case error e =>
        simp only [hc] at he
        exact .inr ⟨h, he, e.not_blank_display⟩
      case ok claimed =>
        simp only [hc] at he ⊢
        cases claimed
        case none =>
          simp only [healed, hb, Bool.or_false] at he
          exact .inr ⟨h, he⟩
        case some id =>
          dsimp only at he ⊢
          have hs : ProjectState.hasEngineIncident (ProjectState.elsewhere p.hold
              (o.edit p.started fun s => s.logActivity p.started.now DevMode.bug.roleName
                "started implementing" (some id.asStr)).state) engine := by
            rw [ProjectState.hasEngineIncident_elsewhere, PortRun.state_edit]
            split
            case isTrue  => exact h
            case isFalse => simpa using h
          cases hr : p.reload
          case some e =>
            simp only [hr] at he
            exact .inr ⟨hs, he, e.not_blank_display⟩
          case none =>
            simp only [hr] at he
            exact work_cases hs he

end DevPass

namespace EngineResult

variable {outcome : AgentOutcome}

theorem isFault_ok (h : EngineResult.isFault l (.ok outcome)) :
    outcome.succeeded = false ∧ isInfraFault l outcome.failureDetail := by
  simpa [EngineResult.isFault] using h

end EngineResult

variable {io : CycleIo} {report : CycleReport}

-- The report says nothing that would close an incident.
def CycleReport.Grim (l : Text.Lowercase) (report : CycleReport) : Prop :=
  report.overBudget ∨ (∃ e ∈ report.errors, isInfraFault l e) ∨ !(report.outcome l).engineAlive

theorem CycleReport.grim_canary {e : String} (hb : ¬Text.Blank e) (h : isInfraFault l e) :
    (({} : CycleReport).fail s!"canary probe: {e}").Grim l := by
  have hi := isInfraFault_append "canary probe: " "" hb h
  rw [String.append_empty] at hi
  exact .inr (.inl ⟨_, List.mem_singleton_self _, hi⟩)

-- A ping that fails with a text keeps the incident.
theorem grim_pingReport {ping : EngineResult} (hf : EngineResult.isFault l ping)
    (hs : !EngineResult.silent ping) : (pingReport ping).Grim l := by
  cases ping
  case error e    => exact CycleReport.grim_canary e.not_blank_display hf
  case ok outcome =>
    have ⟨hfail, hi⟩ := EngineResult.isFault_ok hf
    have hb : ¬Text.Blank outcome.failureDetail := by
      simpa [EngineResult.silent, hfail] using hs
    unfold pingReport
    dsimp only
    rw [if_neg (by simp [hfail])]
    exact CycleReport.grim_canary hb hi

theorem runCanaryProbe_cases (h : o.state.hasEngineIncident engine)
    (he : io.pass.evident l io.ping) :
    Answered l (runCanaryProbe l engine io o).1 ∨
      (runCanaryProbe l engine io o).1.state.hasEngineIncident engine ∧
        (runCanaryProbe l engine io o).2.Grim l := by
  have hx := DevPass.execute_cases h he
  unfold runCanaryProbe
  split
  case h_1 o' done hp =>
    rw [hp] at hx
    exact .inl (hx.resolve_right And.right)
  case h_2 o' hp =>
    rw [hp] at hx
    cases hf : EngineResult.isFault l io.ping
    case false => exact .inl (answered_act (by simp [hf]))
    case true  =>
      cases hx
      case inl ha => exact .inl ha.act
      case inr hs => exact .inr ⟨hs.left, grim_pingReport hf hs.right⟩
  case h_3 o' e hp =>
    rw [hp] at hx
    cases hx
    case inl ha => exact .inl ha
    case inr hs => exact .inr ⟨hs.left, CycleReport.grim_canary hs.right.right hs.right.left⟩

theorem runCycle_cases (h : o.state.hasEngineIncident engine) (he : io.Evident l engine o.state) :
    Answered l (runCycle l engine io o).1 ∨
      (runCycle l engine io o).1.state.hasEngineIncident engine ∧
        (runCycle l engine io o).2.Grim l := by
  unfold runCycle
  split
  case isTrue =>
    refine .inr ⟨?_, .inl rfl⟩
    rw [PortRun.state_act, PortRun.state_edit]
    split
    case isTrue  => exact h
    case isFalse => simpa using h
  case isFalse hm =>
    split
    case isTrue =>
      refine .inr ⟨h, .inr (.inr ?_)⟩
      rfl
    case isFalse hq =>
      obtain ⟨hsees, hev⟩ := he (by simpa using hm) (by simpa using hq) h
      rw [if_pos (by simp [hsees, h])]
      exact runCanaryProbe_cases h hev

theorem announce_state {wasOpen : Bool} {outcome : CycleOutcome} {fault : Option String} :
    (announce l engine wasOpen outcome fault o).state = o.state := by
  unfold announce
  split
  case h_1 => dsimp only; split <;> rfl
  case h_2 => split <;> rfl

theorem answered_announce {wasOpen : Bool} {outcome : CycleOutcome} {fault : Option String}
    (h : Answered l o) : Answered l (announce l engine wasOpen outcome fault o) := by
  unfold announce
  split
  case h_1 =>
    dsimp only
    split
    case isTrue  => exact h.act
    case isFalse => exact h
  case h_2 =>
    split
    case isTrue  => exact h.act
    case isFalse => exact h

theorem hasEngineIncident_noteFault {now mint detail : String} {faults : Nat} :
    (noteFault l engine now mint detail faults s).hasEngineIncident engine := by
  unfold noteFault
  dsimp only
  split <;> simp [ProjectState.hasEngineIncident_openEngineIncident]

theorem answered_noteCycle {note : NoteIo} (h : Answered l o) :
    Answered l (noteCycle l engine note report o) := by
  unfold noteCycle
  split
  case isTrue  => exact h.act
  case isFalse => exact answered_announce h

-- The bookkeeping keeps an incident that the report says nothing against.
theorem hasEngineIncident_noteCycle {note : NoteIo} (h : o.state.hasEngineIncident engine)
    (hg : report.Grim l) : (noteCycle l engine note report o).state.hasEngineIncident engine := by
  unfold noteCycle
  split
  case isTrue => exact h
  case isFalse hb =>
    dsimp only
    rw [PortRun.state_edit, announce_state]
    split
    case isTrue  => exact h
    case isFalse =>
      split
      case h_1 => exact hasEngineIncident_noteFault
      case h_2 hn =>
        rw [List.find?_eq_none] at hn
        obtain ho | ⟨e, hm, hi⟩ | ha := hg
        case inl       => exact absurd ho hb
        case inr.inl   => exact absurd hi (hn e hm)
        case inr.inr   => rwa [if_neg (by simpa using ha)]

-- The incident of the engine is open before the cycle and not after it.
def Closes (l : Text.Lowercase) (engine : String) (s : ProjectState) (io : CycleIo) : Prop :=
  s.hasEngineIncident engine ∧ !(afterCycle l engine s io).hasEngineIncident engine

-- In every cycle of the run that closes the incident, the engine has answered.
def ClosedOnEvidence (l : Text.Lowercase) (engine : String) (s : ProjectState) (ios : List CycleIo) :
    Prop :=
  ∀ pre io post, ios = pre ++ io :: post → Closes l engine (pre.foldl (afterCycle l engine) s) io →
    Answered l (cycle l engine (pre.foldl (afterCycle l engine) s) io)

theorem Closes.answered (hc : Closes l engine s io) (he : io.Evident l engine s) :
    Answered l (cycle l engine s io) := by
  cases @runCycle_cases l engine { state := s } io hc.left he
  case inl ha => exact answered_noteCycle ha
  case inr hr =>
    have hs := @hasEngineIncident_noteCycle l engine _ _ io.note hr.left hr.right
    have hn := hc.right
    rw [afterCycle, cycle, hs] at hn
    contradiction

theorem closed_on_evidence {ios : List CycleIo}
    (hm : Run.Meets (afterCycle l engine) (CycleIo.Evident l engine) s ios) :
    ClosedOnEvidence l engine s ios := by
  rintro pre io post rfl hc
  exact hc.answered hm.of_append

-- The engine is out of quota.
def outage : ProjectState where
  engineIncidents :=
    [{ engine := "claude", reason := "quota exceeded", role := "CYCLE", since := "", hits := 1 }]

def refused : CycleIo where
  ping := .ok { stderr := "quota exceeded", exitCode := some 1 }

def answers : CycleIo where
  ping := .ok { stdout := "OK", exitCode := some 0 }

-- A probe meets the outage, and the next one an engine that answers.
theorem closed_on_evidence_answers :
    Answered .ascii (cycle .ascii "claude" (afterCycle .ascii "claude" outage refused) answers) := by
  have hc : ClosedOnEvidence .ascii "claude" outage [refused, answers] := closed_on_evidence (by decide)
  exact hc [refused] answers [] rfl ⟨by decide, by decide⟩

-- The store fails before the engine is asked anything.
def diskFull : CycleIo where
  pass := { load := some (.backend "disk full") }
  ping := .ok {}

theorem not_closed_on_evidence : ¬ClosedOnEvidence .ascii "claude" outage [diskFull] := by
  intro h
  have hc : Closes .ascii "claude" outage diskFull := ⟨by decide, by decide⟩
  obtain ⟨answer, hm, -⟩ := h [] diskFull [] rfl hc
  have ha : (cycle .ascii "claude" outage diskFull).actions =
      [.notify "engine_recovered" "claude is answering again — work resumes"] := by
    rfl
  rw [List.foldl_nil, ha, List.mem_singleton] at hm
  contradiction
