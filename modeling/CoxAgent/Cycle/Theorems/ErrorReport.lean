import CoxAgent.Cycle.Incident
import CoxAgent.Lib.Run

namespace ErrorFeed

section Definitions

variable (l : Text.Lowercase)

-- The errors that stand in the way of a further message about the same.
def lastErrors (prev : String) (c : CycleEnd) : String :=
  if c.overBudget then prev else joined l c.errors

def Changed (prev : String) (c : CycleEnd) : Prop :=
  !c.overBudget ∧ joined l c.errors ≠ "" ∧ joined l c.errors ≠ prev

-- A change is posted, as a part of the full report, and nothing else is.
structure Reported (c : CycleEnd) (o o' : ErrorFeed) : Prop where
  last   : o'.lastLogicErrors = lastErrors l o.lastLogicErrors c
  posted : Changed l o.lastLogicErrors c → ∃ msg : String,
             msg.toList <+: (fullReport (joined l c.errors)).toList ∧ msg.utf8ByteSize ≤ messageBytes ∧
               o'.state = post c.edit msg (c.between o.state)
  quiet  : ¬Changed l o.lastLogicErrors c → o'.state = c.between o.state

-- Whatever has happened before, the report of a cycle completes.
def Completes (o? : Option ErrorFeed) (c : CycleEnd) : Prop :=
  ∃ o o', o? = some o ∧ cycle l o c = some o' ∧ Reported l c o o'

def ErrorsReported (o : ErrorFeed) (cycles : List CycleEnd) : Prop :=
  Run.Meets (runForever l) (Completes l) (some o) cycles

def ReportCuttable (prev : String) (c : CycleEnd) : Prop :=
  Changed l prev c → Text.Cuttable messageBytes (fullReport (joined l c.errors))

end Definitions

variable {l : Text.Lowercase} {c : CycleEnd} {o o' : ErrorFeed} {prev : String} {cycles : List CycleEnd}

-- What a cycle does with its errors.
theorem cycle_of_changed (h : Changed l o.lastLogicErrors c) :
    cycle l o c = (Text.truncate messageBytes (fullReport (joined l c.errors))).map fun msg =>
      { lastLogicErrors := joined l c.errors, state := post c.edit msg (c.between o.state) } := by
  obtain ⟨hb, hne, hch⟩ := h
  rw [cycle, if_neg (by simpa using hb), report]
  simp only
  rw [if_pos ⟨hne, hch⟩]
  cases Text.truncate messageBytes (fullReport (joined l c.errors)) <;> rfl

theorem cycle_of_not_changed (h : ¬Changed l o.lastLogicErrors c) :
    cycle l o c = some { lastLogicErrors := lastErrors l o.lastLogicErrors c, state := c.between o.state } := by
  unfold cycle lastErrors
  by_cases hb : c.overBudget
  case pos => simp [hb]
  case neg =>
    have hj : ¬(joined l c.errors ≠ "" ∧ joined l c.errors ≠ o.lastLogicErrors) :=
      fun hj => h ⟨by simpa using hb, hj⟩
    rw [if_neg hb, if_neg hb, report]
    simp only
    rw [if_neg hj]
    split
    case isTrue he  => rw [he]
    case isFalse he =>
      have hl : joined l c.errors = o.lastLogicErrors := by_contra fun hl => hj ⟨he, hl⟩
      rw [hl]

theorem reported_of_cycle (h : cycle l o c = some o') : Reported l c o o' := by
  by_cases hc : Changed l o.lastLogicErrors c
  case pos =>
    rw [cycle_of_changed hc] at h
    obtain ⟨msg, hm, rfl⟩ := Option.map_eq_some_iff.mp h
    have ⟨hp, hs⟩ := Text.truncate_prefix hm
    have hb : ¬c.overBudget := by simpa using hc.left
    exact ⟨(if_neg hb).symm, fun _ => ⟨msg, hp, hs, rfl⟩, fun hn => absurd hc hn⟩
  case neg =>
    rw [cycle_of_not_changed hc] at h
    obtain rfl := Option.some.inj h
    exact ⟨rfl, fun hn => absurd hn hc, fun _ => rfl⟩

theorem cycle_isSome_iff : (cycle l o c).isSome ↔ ReportCuttable l o.lastLogicErrors c := by
  by_cases hc : Changed l o.lastLogicErrors c
  case pos =>
    rw [cycle_of_changed hc, Option.isSome_map, Text.truncate_isSome_iff]
    exact ⟨fun h _ => h, fun h => h hc⟩
  case neg =>
    rw [cycle_of_not_changed hc]
    exact ⟨fun _ h => absurd h hc, fun _ => rfl⟩

theorem completes_iff : Completes l (some o) c ↔ ReportCuttable l o.lastLogicErrors c := by
  rw [← cycle_isSome_iff, Option.isSome_iff_exists]
  constructor
  case mp =>
    rintro ⟨_, o', ho, hc, -⟩
    obtain rfl := Option.some.inj ho
    exact ⟨o', hc⟩
  case mpr =>
    rintro ⟨o', hc⟩
    exact ⟨o, o', rfl, hc, reported_of_cycle hc⟩

-- The loop goes on as long as each report that it has to cut can be cut.
theorem errors_reported_iff : ErrorsReported l o cycles ↔
    Run.Meets (lastErrors l) (ReportCuttable l) o.lastLogicErrors cycles := by
  induction cycles generalizing o
  case nil            => simp [ErrorsReported, Run.Meets]
  case cons c cycles hi =>
    rw [ErrorsReported, Run.Meets, Run.Meets, completes_iff]
    refine and_congr_right fun hc => ?_
    obtain ⟨o', ho⟩ := Option.isSome_iff_exists.mp (cycle_isSome_iff.mpr hc)
    rw [runForever, Option.bind_some, ho, ← (reported_of_cycle ho).last]
    exact hi

section Accents

-- Letters of two bytes, after a head of an odd number of bytes.
def accents (n : Nat) : String :=
  .ofList (List.replicate n 'é')

theorem chars_accents (before : List Char) (n : Nat) :
    Text.Lowercase.ascii.chars before (List.replicate n 'é') = List.replicate n 'é' := by
  induction n generalizing before
  case zero      => rfl
  case succ n hi =>
    rw [List.replicate_succ, Text.Lowercase.chars, hi]
    rfl

theorem not_isInfraFault_accents (n : Nat) : ¬isInfraFault .ascii (accents (n + 1)) := by
  have hb : ¬Text.Blank (accents (n + 1) ++ "") :=
    Text.not_blank_append (c := 'é') (by simp [accents]) (by decide)
  rw [String.append_empty] at hb
  have hpatterns : infraFaults.all fun p => p.toList.any fun c => c != 'é' := by decide
  rw [isInfraFault, if_neg hb, List.any_eq_true]
  rintro ⟨p, hp, hc⟩
  obtain ⟨c, hcp, hne⟩ := List.any_eq_true.mp (List.all_eq_true.mp hpatterns p hp)
  have hin := Text.contains_iff.mp hc
  rw [Text.Lowercase.toLowercase, accents, String.toList_ofList, String.toList_ofList, chars_accents] at hin
  exact bne_iff_ne.mp hne (List.eq_of_mem_replicate (hin.subset hcp))

theorem joined_accents (n : Nat) : joined .ascii [accents (n + 1)] = accents (n + 1) := by
  have h : isInfraFault .ascii (accents (n + 1)) = false := by simpa using not_isInfraFault_accents n
  simp [joined, h]

theorem accents_ne (n : Nat) : accents (n + 1) ≠ "" := by
  intro h
  have hl := congrArg String.toList h
  rw [accents, String.toList_ofList, List.replicate_succ] at hl
  contradiction

theorem toList_fullReport_accents (n : Nat) :
    (fullReport (accents n)).toList = reportHead.toList ++ List.replicate n 'é' := by
  rw [fullReport, String.toList_append, accents, String.toList_ofList]

theorem not_cuttable_accents : ¬Text.Cuttable messageBytes (fullReport (accents 290)) := by
  rw [Text.Cuttable, ← Text.byteSize_toList, toList_fullReport_accents, not_or]
  constructor
  case left =>
    rw [Text.byteSize_append, Text.byteSize_replicate]
    decide +kernel
  case right =>
    have hnone : Text.bytePrefix messageBytes (reportHead.toList ++ List.replicate 290 'é') = none := by
      decide +kernel
    rintro ⟨p, hp⟩
    rw [Text.bytePrefix_eq_some.mpr hp] at hnone
    contradiction

def accented : CycleEnd where
  errors := [accents 290]

theorem not_errors_reported : ¬∀ (l : Text.Lowercase) (o : ErrorFeed) (cycles : List CycleEnd),
    ErrorsReported l o cycles := by
  intro h
  have hcut := (errors_reported_iff.mp (h .ascii { state := default } [accented])).left
  have hj : joined .ascii accented.errors = accents 290 := joined_accents 289
  have hne : accents 290 ≠ "" := accents_ne 289
  have hc := hcut ⟨rfl, hj ▸ hne, hj ▸ hne⟩
  rw [hj] at hc
  exact not_cuttable_accents hc

end Accents

end ErrorFeed
