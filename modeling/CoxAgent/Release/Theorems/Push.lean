import CoxAgent.Release.Theorems.Lock

-- When the commit of a release changes nothing but the version.

section Release

variable {lib : SemverLib} {io : PushIo} {base pushed : ReleaseTree} {leader : String} {cur next : SemVer}

end Release

section Core

theorem SameButVersion.length_eq {lib : SemverLib} {m m' : String} (h : SameButVersion lib m m') :
    (rawLines m').length = (rawLines m).length := by
  cases h
  case inl h => rw [h]
  case inr h =>
    have ⟨before, x, old, v, y, after, _, hm, hm', _⟩ := h
    rw [hm, hm', List.length_append, List.length_append, List.length_cons, List.length_cons]

end Core
