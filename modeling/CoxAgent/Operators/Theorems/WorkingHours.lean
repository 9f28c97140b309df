import CoxAgent.Operators.WorkingHours
import Mathlib.Data.List.Nodup
import Mathlib.Data.List.Pairwise

open WorkingHours

namespace Weekday

variable {d : Weekday} {n : Nat}

theorem index_lt (d : Weekday) : d.index < 7 := by
  cases d <;> decide

theorem eq_ofIndex_iff (h : n < 7) : d = ofIndex n ↔ d.index = n := by
  match n with
  | 0 | 1 | 2 | 3 | 4 | 5 | 6 => cases d <;> decide

end Weekday

namespace WorkingWindow

variable {w w₁ w₂ : WorkingWindow} {now : Int} {o : UtcOffset}

-- The minutes of the week.
def weekStart (w : WorkingWindow) : Nat :=
  w.weekday.index * 1440 + minutesOf w.start

def weekEnd (w : WorkingWindow) : Nat :=
  w.weekday.index * 1440 + minutesOf w.end'

theorem week_bounds (w : WorkingWindow) : w.weekStart < w.weekEnd ∧ w.weekEnd < 10080 := by
  have hi := w.weekday.index_lt
  have ho := w.ordered
  have hh := w.end'.hour_lt
  have hm := w.end'.minute_lt
  simp only [weekStart, weekEnd, minutesOf] at *
  omega

-- The minute of the week that the instant is read as.
def weekMinute (now : Int) (o : UtcOffset) : Int :=
  ((now + o.seconds) / 60 + 4320) % 10080

theorem weekMinute_eq : weekMinute now o =
    ((now + o.seconds) / 86400 + 3) % 7 * 1440 + (now + o.seconds) % 86400 / 60 := by
  unfold weekMinute
  generalize now + o.seconds = x
  have hx : x / 60 = x / 86400 * 1440 + x % 86400 / 60 := by omega
  have hm : 0 ≤ x % 86400 / 60 ∧ x % 86400 / 60 < 1440 := by omega
  rw [hx]
  generalize x / 86400 = day at *
  generalize x % 86400 / 60 = minutes at *
  omega

theorem minutesOf_lt (t : Time) : minutesOf t < 1440 := by
  have hh := t.hour_lt
  have hm := t.minute_lt
  unfold minutesOf
  omega

theorem covers_iff : w.covers (localWeekday now o) (localMinutes now o) ↔
    (w.weekStart : Int) ≤ weekMinute now o ∧ weekMinute now o < w.weekEnd := by
  have hi := w.weekday.index_lt
  have hs := minutesOf_lt w.start
  have he := minutesOf_lt w.end'
  have hd : 0 ≤ ((now + o.seconds) / 86400 + 3) % 7 ∧ ((now + o.seconds) / 86400 + 3) % 7 < 7 := by omega
  have hm : 0 ≤ (now + o.seconds) % 86400 / 60 ∧ (now + o.seconds) % 86400 / 60 < 1440 := by omega
  have hw : w.weekday = localWeekday now o ↔ w.weekday.index = (((now + o.seconds) / 86400 + 3) % 7).toNat :=
    Weekday.eq_ofIndex_iff (by omega)
  rw [covers, Bool.and_eq_true, Bool.and_eq_true, decide_eq_true_iff, decide_eq_true_iff, decide_eq_true_iff, hw,
    weekMinute_eq, weekStart, weekEnd, localMinutes]
  generalize ((now + o.seconds) / 86400 + 3) % 7 = day at *
  generalize (now + o.seconds) % 86400 / 60 = minutes at *
  omega

-- A minute of the window is an hour before a minute of the other one.
def HourBefore (w₁ w₂ : WorkingWindow) : Prop :=
  ∃ wrap ∈ [0, 10080], w₂.weekStart + wrap < w₁.weekEnd + 60 ∧ w₁.weekStart + 60 < w₂.weekEnd + wrap

instance : Decidable (HourBefore w₁ w₂) :=
  inferInstanceAs (Decidable (∃ wrap ∈ [0, 10080], _))

-- In the last hour of the week the minute is one of the next week.
theorem hourBefore_iff : HourBefore w₁ w₂ ↔ ∃ m : Int, ((w₁.weekStart : Int) ≤ m ∧ m < w₁.weekEnd) ∧
    (w₂.weekStart : Int) ≤ (m + 60) % 10080 ∧ (m + 60) % 10080 < w₂.weekEnd := by
  have h₁ := w₁.week_bounds
  have h₂ := w₂.week_bounds
  constructor
  case mp =>
    rintro ⟨wrap, hw, hs, he⟩
    have hw : wrap = 0 ∨ wrap = 10080 := by simpa using hw
    refine ⟨max w₁.weekStart (w₂.weekStart + wrap - 60), ?_⟩
    omega
  case mpr =>
    rintro ⟨m, hm₁, hm₂⟩
    by_cases hw : m + 60 < 10080
    case pos => exact ⟨0, by simp, by omega⟩
    case neg => exact ⟨10080, by simp, by omega⟩

theorem weekMinute_hour {o' : UtcOffset} (h : o'.seconds = o.seconds + 3600) :
    weekMinute now o' = (weekMinute now o + 60) % 10080 := by
  simp only [weekMinute, h]
  omega

end WorkingWindow

namespace WorkingHours

variable {decl : OperatorWorkingHours} {now : Int} {o o' : UtcOffset} {candidates : List UtcOffset}
variable {w w₁ w₂ : WorkingWindow} {picked l : List WorkingWindow} {p : WorkingWindow → Bool}

section Resolve

theorem mem_pick : w ∈ l.foldl (fun picked w => if p w && !picked.contains w then picked ++ [w] else picked) picked ↔
    w ∈ picked ∨ w ∈ l ∧ p w := by
  induction l generalizing picked
  case nil => simp
  case cons w' l hi =>
    rw [List.foldl_cons, hi]
    by_cases hp : p w'
    case neg =>
      have hn : w = w' → ¬p w := fun he => he ▸ hp
      simp only [hp, Bool.false_and, Bool.false_eq_true, if_false, List.mem_cons]
      grind
    case pos =>
      by_cases hm : w' ∈ picked
      case pos => simp [hp, hm]; grind
      case neg => simp [hp, hm]; grind

theorem nodup_pick (h : picked.Nodup) :
    (l.foldl (fun picked w => if p w && !picked.contains w then picked ++ [w] else picked) picked).Nodup := by
  induction l generalizing picked
  case nil => exact h
  case cons w l hi =>
    rw [List.foldl_cons]
    split
    case isFalse   => exact hi h
    case isTrue hw =>
      rw [Bool.and_eq_true, Bool.not_eq_true', List.contains_eq_mem, decide_eq_false_iff_not] at hw
      refine hi (h.append (List.nodup_singleton w) ?_)
      simpa using hw.2

theorem mem_resolveWindows : w ∈ resolveWindows decl now candidates ↔
    w ∈ decl.windows ∧ ∃ c ∈ candidates, w.covers (localWeekday now c) (localMinutes now c) := by
  suffices h : ∀ picked : List WorkingWindow, w ∈ candidates.foldl (fun picked c =>
      decl.windows.foldl (fun picked w =>
        if w.covers (localWeekday now c) (localMinutes now c) && !picked.contains w then picked ++ [w] else picked)
        picked) picked ↔
      w ∈ picked ∨ w ∈ decl.windows ∧ ∃ c ∈ candidates, w.covers (localWeekday now c) (localMinutes now c) by
    exact (h []).trans (by simp)
  intro picked
  induction candidates generalizing picked
  case nil => simp
  case cons c candidates hi =>
    rw [List.foldl_cons, hi, mem_pick]
    simp only [List.mem_cons, exists_eq_or_imp]
    grind

theorem nodup_resolveWindows : (resolveWindows decl now candidates).Nodup := by
  suffices h : ∀ picked : List WorkingWindow, picked.Nodup → (candidates.foldl (fun picked c =>
      decl.windows.foldl (fun picked w =>
        if w.covers (localWeekday now c) (localMinutes now c) && !picked.contains w then picked ++ [w] else picked)
        picked) picked).Nodup from h [] .nil
  intro picked hn
  induction candidates generalizing picked
  case nil                => exact hn
  case cons c candidates hi => exact hi _ (nodup_pick hn)

end Resolve
section Boundary

open WorkingWindow

-- No minute is in two of the windows.
def Separate (windows : List WorkingWindow) : Prop :=
  windows.Pairwise fun w₁ w₂ => ∀ weekday minutes, ¬(w₁.covers weekday minutes ∧ w₂.covers weekday minutes)

def HourApart (o o' : UtcOffset) : Prop :=
  o'.seconds = o.seconds + 3600 ∨ o.seconds = o'.seconds + 3600

-- No two windows with less than an hour in between, of which the second goes on for longer than that.
def Spaced (windows : List WorkingWindow) : Prop :=
  ∀ w₁ ∈ windows, ∀ w₂ ∈ windows, w₁ ≠ w₂ → ¬HourBefore w₁ w₂

instance (windows : List WorkingWindow) : Decidable (Spaced windows) :=
  inferInstanceAs (Decidable (∀ w₁ ∈ windows, ∀ w₂ ∈ windows, w₁ ≠ w₂ → ¬HourBefore w₁ w₂))

theorem Separate.eq {windows : List WorkingWindow} {weekday : Weekday} {minutes : Nat} (h : Separate windows)
    (h₁ : w₁ ∈ windows) (h₂ : w₂ ∈ windows) (hc₁ : w₁.covers weekday minutes) (hc₂ : w₂.covers weekday minutes) :
    w₁ = w₂ := by
  by_contra hn
  have hs : Std.Symm fun w₁ w₂ : WorkingWindow =>
      ∀ weekday minutes, ¬(w₁.covers weekday minutes ∧ w₂.covers weekday minutes) :=
    ⟨fun _ _ h weekday minutes hc => h weekday minutes hc.symm⟩
  exact h.forall h₁ h₂ hn weekday minutes ⟨hc₁, hc₂⟩

theorem length_le_one_iff (h : l.Nodup) : l.length ≤ 1 ↔ ∀ w₁ ∈ l, ∀ w₂ ∈ l, w₁ = w₂ := by
  match l with
  | []          => simp
  | [w]         => simp
  | w₁ :: w₂ :: l =>
    have hn : w₁ ≠ w₂ := fun he => by simp [he] at h
    refine iff_of_false (by simp) fun ha => hn (ha w₁ (by simp) w₂ (by simp))

theorem resolveWindows_le_one_iff (h : Separate decl.windows) :
    (∀ now o o', HourApart o o' → (resolveWindows decl now [o, o']).length ≤ 1) ↔ Spaced decl.windows := by
  constructor
  case mp =>
    intro ha w₁ h₁ w₂ h₂ hn hb
    obtain ⟨m, hm₁, hm₂⟩ := hourBefore_iff.mp hb
    let utc : UtcOffset := ⟨0, by decide, by decide⟩
    let hour : UtcOffset := ⟨3600, by decide, by decide⟩
    have hw : weekMinute (m * 60 - 259200) utc = m := by
      have hb := w₁.week_bounds
      simp only [weekMinute, utc]
      omega
    have hw' : weekMinute (m * 60 - 259200) hour = (m + 60) % 10080 := by
      rw [weekMinute_hour (o := utc) rfl, hw]
    have hl := (length_le_one_iff nodup_resolveWindows).mp (ha (m * 60 - 259200) utc hour (.inl rfl))
    refine hn (hl w₁ (mem_resolveWindows.mpr ⟨h₁, utc, by simp, ?_⟩) w₂ (mem_resolveWindows.mpr ⟨h₂, hour, by simp, ?_⟩))
    · rw [covers_iff, hw]
      exact hm₁
    · rw [covers_iff, hw']
      exact hm₂
  case mpr =>
    intro ha now o o' ho
    refine (length_le_one_iff nodup_resolveWindows).mpr fun w₁ hr₁ w₂ hr₂ => ?_
    obtain ⟨h₁, c₁, hc₁, hv₁⟩ := mem_resolveWindows.mp hr₁
    obtain ⟨h₂, c₂, hc₂, hv₂⟩ := mem_resolveWindows.mp hr₂
    -- Readings that differ are an hour apart, and no two windows are.
    have hd {w₁ w₂ : WorkingWindow} {c₁ c₂ : UtcOffset} (h₁ : w₁ ∈ decl.windows) (h₂ : w₂ ∈ decl.windows)
        (hc : c₂.seconds = c₁.seconds + 3600) (hv₁ : w₁.covers (localWeekday now c₁) (localMinutes now c₁))
        (hv₂ : w₂.covers (localWeekday now c₂) (localMinutes now c₂)) : w₁ = w₂ := by
      by_contra hn
      rw [covers_iff] at hv₁ hv₂
      rw [weekMinute_hour hc] at hv₂
      exact ha w₁ h₁ w₂ h₂ hn (hourBefore_iff.mpr ⟨_, hv₁, hv₂⟩)
    simp only [List.mem_cons, List.not_mem_nil, or_false] at hc₁ hc₂
    obtain rfl | rfl := hc₁ <;> obtain rfl | rfl := hc₂
    · exact h.eq h₁ h₂ hv₁ hv₂
    · cases ho
      case inl ho => exact hd h₁ h₂ ho hv₁ hv₂
      case inr ho => exact (hd h₂ h₁ ho hv₂ hv₁).symm
    · cases ho
      case inl ho => exact (hd h₂ h₁ ho hv₂ hv₁).symm
      case inr ho => exact hd h₁ h₂ ho hv₁ hv₂
    · exact h.eq h₁ h₂ hv₁ hv₂

theorem isActionable_iff : isActionable decl now ↔ ∃ w ∈ decl.windows,
    w.weekday = localWeekday now decl.tzOffset ∧
    minutesOf w.start ≤ localMinutes now decl.tzOffset ∧ localMinutes now decl.tzOffset < minutesOf w.end' := by
  rw [isActionable, Bool.not_eq_true', List.isEmpty_eq_false_iff_exists_mem]
  simp only [mem_resolveWindows, List.mem_singleton, exists_eq_left, covers, Bool.and_eq_true, decide_eq_true_eq,
    and_assoc]

end Boundary
section RoundTrip

open Serde

theorem pad_spec {n : Nat} (h : n < 100) : ∃ a b, pad n = [a, b] ∧ twoDigits [a, b] = some n ∧ '\x5c' ∉ [a, b] := by
  have hp : ∀ n < 100, (pad n).length = 2 ∧ twoDigits (pad n) = some n ∧ '\x5c' ∉ pad n := by decide +kernel
  obtain ⟨hl, ht, hc⟩ := hp n h
  obtain ⟨a, b, he⟩ := List.length_eq_two.mp hl
  exact ⟨a, b, he, he ▸ ht, he ▸ hc⟩

theorem weekdayOf_print (d : Weekday) : weekdayOf (.str (printWeekday d)) = some d := by
  cases d <;> decide +kernel

theorem hhmmOf_print (t : Time) : hhmmOf (.str (printHhmm t)) = some t := by
  obtain ⟨hour, minute, hh, hm⟩ := t
  obtain ⟨a, b, hp, ht, hn⟩ := @pad_spec hour (by omega)
  obtain ⟨a', b', hp', ht', hn'⟩ := @pad_spec minute (by omega)
  have hc : '\x5c' ∉ printHhmm ⟨hour, minute, hh, hm⟩ := by
    simp only [printHhmm, hp, hp', List.mem_append, List.mem_cons] at hn hn' ⊢
    grind
  rw [hhmmOf, text_str hc]
  simp [printHhmm, hp, hp', parseHhmm, ht, ht', hh, hm]

-- What can be declared: whole minutes, less than a day.
def Declared (o : UtcOffset) : Prop :=
  60 ∣ o.seconds ∧ -86400 < o.seconds ∧ o.seconds < 86400

theorem tzOf_print {o : UtcOffset} (h : Declared o) : tzOf (.str (printTz o)) = some o := by
  obtain ⟨s, hl, hu⟩ := o
  obtain ⟨⟨minutes, hs⟩, hlo, hup⟩ := h
  dsimp only at hs hlo hup
  subst hs
  have hd : (60 * minutes).tdiv 60 = minutes := Int.mul_tdiv_cancel_left _ (by decide)
  obtain ⟨a, b, hp, ht, hn⟩ := @pad_spec (minutes.natAbs / 60) (by omega)
  obtain ⟨a', b', hp', ht', hn'⟩ := @pad_spec (minutes.natAbs % 60) (by omega)
  have hh : minutes.natAbs / 60 ≤ 23 := by omega
  have hm : minutes.natAbs % 60 ≤ 59 := by omega
  have hc : '\x5c' ∉ printTz ⟨60 * minutes, hl, hu⟩ := by
    simp only [printTz, hd, hp, hp', List.mem_append, List.mem_cons] at hn hn' ⊢
    split <;> grind
  rw [tzOf, text_str hc]
  simp only [printTz, hd, hp, hp', Option.bind_eq_bind, Option.bind_some, parseTz, String.toList_ofList]
  by_cases hneg : minutes < 0
  case pos =>
    simp only [hneg, if_true, List.cons_append, List.nil_append, signOf, Option.bind_some, ht, ht', hh, hm, and_self,
      dif_pos, Option.some.injEq, UtcOffset.mk.injEq]
    omega
  case neg =>
    simp only [hneg, if_false, List.cons_append, List.nil_append, signOf, Option.bind_some, ht, ht', hh, hm, and_self,
      dif_pos, Bool.false_eq_true, Option.some.injEq, UtcOffset.mk.injEq]
    omega

theorem declared_parseTz {s : String} {o : UtcOffset} (h : parseTz s = some o) : Declared o := by
  unfold parseTz at h
  split at h
  case h_2 => contradiction
  case h_1 =>
    simp only [Option.bind_eq_bind, Option.bind_eq_some_iff] at h
    obtain ⟨negative, _, hour, _, minute, _, h⟩ := h
    split at h
    case isFalse => contradiction
    case isTrue hb =>
      split at h <;> cases h <;> unfold Declared <;> dsimp only <;> omega

theorem window_toJson (w : WorkingWindow) : WorkingWindow.ofJson w.toJson = some w := by
  have hf (a b c : Json) : fields ["weekday", "start", "end"]
      (.obj [("weekday".toList, a), ("start".toList, b), ("end".toList, c)]) = some [some a, some b, some c] :=
    rfl
  simp only [WorkingWindow.ofJson, WorkingWindow.toJson, hf, Option.bind_eq_bind, Option.bind_some, required,
    weekdayOf_print, hhmmOf_print, w.ordered, dif_pos]

theorem windows_toJson (ws : List WorkingWindow) :
    list WorkingWindow.ofJson (.arr (ws.map (·.toJson))) = some ws := by
  simp only [list]
  induction ws
  case nil => rfl
  case cons w ws hi => simp [List.mapM_cons, window_toJson, hi]

-- Only the offset could be one that is not written back, and it is not declared then.
theorem ofJson_toJson {j : Json} {d : OperatorWorkingHours} (h : OperatorWorkingHours.ofJson j = some d) :
    OperatorWorkingHours.ofJson d.toJson = some d := by
  have hd : Declared d.tzOffset := by
    simp only [OperatorWorkingHours.ofJson, Option.bind_eq_bind, Option.bind_eq_some_iff] at h
    obtain ⟨parts, _, h⟩ := h
    split at h
    case h_2 => contradiction
    case h_1 tz windows _ =>
      simp only [Option.bind_eq_some_iff] at h
      obtain ⟨o, ho, ws, _, he⟩ := h
      cases he
      cases tz
      case none   => contradiction
      case some j =>
        obtain ⟨s, _, hs⟩ := Option.bind_eq_some_iff.mp ho
        exact declared_parseTz hs
  have hf (a b : Json) : fields ["tz_offset", "windows"] (.obj [("tz_offset".toList, a), ("windows".toList, b)]) =
      some [some a, some b] :=
    rfl
  simp only [OperatorWorkingHours.ofJson, OperatorWorkingHours.toJson, hf, Option.bind_eq_bind, Option.bind_some,
    required, defaulted, tzOf_print hd, windows_toJson]
  rfl

end RoundTrip

-- A declaration is read back as it was written, and says itself when its operator is there. A boundary instant is in
-- at most one of its windows if and only if no two of them are too close.
theorem working_hours_iff {j : Json} {d : OperatorWorkingHours} (h : OperatorWorkingHours.ofJson j = some d)
    (hs : Separate d.windows) :
    ((∀ now o o', HourApart o o' → (resolveWindows d now [o, o']).length ≤ 1) ∧
      (∀ now, isActionable d now ↔ ∃ w ∈ d.windows, w.weekday = localWeekday now d.tzOffset ∧
        minutesOf w.start ≤ localMinutes now d.tzOffset ∧ localMinutes now d.tzOffset < minutesOf w.end') ∧
      OperatorWorkingHours.ofJson d.toJson = some d) ↔ Spaced d.windows := by
  rw [resolveWindows_le_one_iff hs]
  exact and_iff_left ⟨fun now => isActionable_iff, ofJson_toJson h⟩

-- Mondays from nine to half past five and from seven to nine in the evening, two hours ahead of UTC.
def vienna : OperatorWorkingHours where
  tzOffset := ⟨7200, by decide, by decide⟩
  windows  := [
    ⟨.monday, ⟨9, 0, by decide, by decide⟩, ⟨17, 30, by decide, by decide⟩, by decide⟩,
    ⟨.monday, ⟨19, 0, by decide, by decide⟩, ⟨21, 0, by decide, by decide⟩, by decide⟩]

theorem separate_vienna : Separate vienna.windows := by
  refine .cons ?_ (List.pairwise_singleton ..)
  rintro w hw weekday minutes ⟨h₁, h₂⟩
  cases List.mem_singleton.mp hw
  simp [WorkingWindow.covers, minutesOf] at h₁ h₂
  have := of_decide_eq_true h₁.2
  omega

theorem working_hours_vienna :
    (∀ now o o', HourApart o o' → (resolveWindows vienna now [o, o']).length ≤ 1) ∧
    (resolveWindows vienna 374400 [⟨3600, by decide, by decide⟩, ⟨7200, by decide, by decide⟩]).length = 1 :=
  ⟨((@working_hours_iff vienna.toJson vienna (by decide +kernel) separate_vienna).mpr (by decide)).1,
    by decide +kernel⟩

-- Two windows of an hour, one after the other.
def adjacent : OperatorWorkingHours where
  tzOffset := ⟨0, by decide, by decide⟩
  windows  := [
    ⟨.monday, ⟨1, 0, by decide, by decide⟩, ⟨2, 0, by decide, by decide⟩, by decide⟩,
    ⟨.monday, ⟨2, 0, by decide, by decide⟩, ⟨3, 0, by decide, by decide⟩, by decide⟩]

-- Each of the two offsets reads an instant into a window of its own.
theorem not_resolveWindows_adjacent : ¬∀ (j : Json) (d : OperatorWorkingHours), OperatorWorkingHours.ofJson j = some d →
    Separate d.windows → ∀ now o o', HourApart o o' → (resolveWindows d now [o, o']).length ≤ 1 := by
  intro h
  have hs : Separate adjacent.windows := by
    refine .cons ?_ (List.pairwise_singleton ..)
    rintro w hw weekday minutes ⟨h₁, h₂⟩
    cases List.mem_singleton.mp hw
    simp [WorkingWindow.covers, minutesOf] at h₁ h₂
    omega
  have hl := h adjacent.toJson adjacent (by decide +kernel) hs 351000 ⟨0, by decide, by decide⟩
    ⟨3600, by decide, by decide⟩ (.inl rfl)
  exact absurd hl (by decide +kernel)

end WorkingHours
