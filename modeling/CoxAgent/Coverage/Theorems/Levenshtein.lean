import CoxAgent.Coverage.Record
import CoxAgent.Lib.EditDistance

namespace Coverage

open EditDistance

variable {a b x pre : List Char} {c : Char} {left diagonal i : Nat}

section Rows

-- The distances of what is read of the first text, backwards, to the beginnings of the second one.
def line (x b : List Char) : List Nat :=
  dist x [] :: row x [] b

theorem row_nil : row [] pre b = List.range' (pre.length + 1) b.length := by
  induction b generalizing pre
  case nil         => rfl
  case cons c b hi =>
    rw [row, hi, dist_nil_left, List.length_cons, List.length_cons, List.range'_succ]

theorem line_nil : line [] b = List.range (b.length + 1) := by
  rw [line, row_nil, dist_nil_left, List.range_eq_range', List.range'_succ]
  rfl

-- The cell at the left, the one above and the one between them are the three arguments of the recursion.
theorem editRow_row : editRow c (dist (c :: x) pre) (dist x pre) b (row x pre b) = row (c :: x) pre b := by
  induction b generalizing pre
  case nil         => rfl
  case cons d b hi =>
    have hcell : min (min (dist x (d :: pre) + 1) (dist (c :: x) pre + 1)) (dist x pre + if c ≠ d then 1 else 0) =
        dist (c :: x) (d :: pre) := by
      rw [dist_cons_cons, ite_not]
    rw [row, row, editRow]
    simp only [hcell, hi]

theorem nextRow_line : nextRow b (line x b) (x.length, c) = line (c :: x) b := by
  have h : editRow c (dist (c :: x) []) (dist x []) b (row x [] b) = row (c :: x) [] b := editRow_row
  rw [dist_nil_right, List.length_cons] at h
  rw [line, nextRow, h, line, dist_nil_right, List.length_cons]

theorem foldl_nextRow :
    (a.zipIdx x.length).foldl (fun prev (c, i) => nextRow b prev (i, c)) (line x b) = line (a.reverse ++ x) b := by
  induction a generalizing x
  case nil         => rfl
  case cons c a hi =>
    have h := hi (x := c :: x)
    rw [List.length_cons] at h
    rw [List.zipIdx_cons, List.foldl_cons]
    dsimp only
    rw [nextRow_line, h, List.reverse_cons, List.append_assoc]
    rfl

theorem levenshtein_eq_dist (a b : String) : levenshtein a b = dist a.toList b.toList := by
  unfold levenshtein
  dsimp only
  split
  case isTrue ha  => rw [ha, dist_nil_left]
  case isFalse ha =>
    split
    case isTrue hb  => rw [hb, dist_nil_right]
    case isFalse hb =>
      have h := foldl_nextRow (a := a.toList) (b := b.toList) (x := [])
      rw [List.length_nil, line_nil, List.append_nil] at h
      rw [h, line, List.getLastD_cons, getLastD_row, if_neg hb, List.append_nil, dist_reverse]

end Rows

section InPlace

-- What is left to write of a row, behind what is written.
theorem foldl_fillCell {p w stale above : List Nat} (hp : p.length = i) (hw : w.length = i)
    (ha : above.length = b.length) (hs : stale.length = b.length) :
    (b.zipIdx i).foldl (EditRows.fillCell c) ⟨p ++ diagonal :: above, w ++ left :: stale⟩ =
      ⟨p ++ diagonal :: above, w ++ left :: editRow c left diagonal b above⟩ := by
  induction b generalizing p w stale above i left diagonal
  case nil =>
    obtain rfl := List.length_eq_zero_iff.mp hs
    rfl
  case cons d b hi =>
    obtain ⟨up, above, rfl⟩ := List.exists_cons_of_length_eq_add_one ha
    obtain ⟨old, stale, rfl⟩ := List.exists_cons_of_length_eq_add_one hs
    have hdiagonal : (p ++ diagonal :: up :: above).getD i 0 = diagonal := by simp [← hp]
    have hup : (p ++ diagonal :: up :: above).getD (i + 1) 0 = up := by simp [← hp]
    have hleft : (w ++ left :: old :: stale).getD i 0 = left := by simp [← hw]
    have hset (cell : Nat) : (w ++ left :: old :: stale).set (i + 1) cell = (w ++ [left]) ++ cell :: stale := by
      simp [← hw]
    have hcell : EditRows.fillCell c ⟨p ++ diagonal :: up :: above, w ++ left :: old :: stale⟩ (d, i) =
        ⟨(p ++ [diagonal]) ++ up :: above, (w ++ [left]) ++
          min (min (up + 1) (left + 1)) (diagonal + if c ≠ d then 1 else 0) :: stale⟩ := by
      simp only [EditRows.fillCell, hdiagonal, hup, hleft, hset, List.append_assoc, List.singleton_append]
    rw [List.zipIdx_cons, List.foldl_cons, hcell, hi (by simp [hp]) (by simp [hw]) (Nat.succ.inj ha)
      (Nat.succ.inj hs), List.append_assoc, List.append_assoc, editRow]
    rfl

theorem fillRow_eq {rows : EditRows} (hp : rows.prev.length = b.length + 1) (hc : rows.cur.length = b.length + 1) :
    EditRows.fillRow b rows (c, i) = ⟨nextRow b rows.prev (i, c), rows.prev⟩ := by
  obtain ⟨prev, cur⟩ := rows
  obtain ⟨diagonal, above, rfl⟩ := List.exists_cons_of_length_eq_add_one hp
  obtain ⟨old, stale, rfl⟩ := List.exists_cons_of_length_eq_add_one hc
  have h : (b.zipIdx 0).foldl (EditRows.fillCell c) ⟨[] ++ diagonal :: above, [] ++ (i + 1) :: stale⟩ =
      ⟨[] ++ diagonal :: above, [] ++ (i + 1) :: editRow c (i + 1) diagonal b above⟩ :=
    foldl_fillCell rfl rfl (Nat.succ.inj hp) (Nat.succ.inj hc)
  rw [List.nil_append, List.nil_append, List.nil_append] at h
  rw [EditRows.fillRow]
  simp only [List.set_cons_zero, h, nextRow]

theorem length_editRow {above : List Nat} (h : above.length = b.length) :
    (editRow c left diagonal b above).length = b.length := by
  induction b generalizing above left diagonal
  case nil         => rfl
  case cons d b hi =>
    obtain ⟨up, above, rfl⟩ := List.exists_cons_of_length_eq_add_one h
    rw [editRow, List.length_cons, hi (Nat.succ.inj h), List.length_cons]

theorem length_nextRow {prev : List Nat} (h : prev.length = b.length + 1) :
    (nextRow b prev (i, c)).length = b.length + 1 := by
  obtain ⟨diagonal, above, rfl⟩ := List.exists_cons_of_length_eq_add_one h
  rw [nextRow, List.length_cons, length_editRow (Nat.succ.inj h)]

-- The rows in place against the row that is passed on.
structure Matches (b : List Char) (rows : EditRows) (prev : List Nat) : Prop where
  prev_eq     : rows.prev = prev
  length_prev : prev.length = b.length + 1
  length_cur  : rows.cur.length = b.length + 1

theorem Matches.fillRow {rows : EditRows} {prev : List Nat} (h : Matches b rows prev) (row : Char × Nat) :
    Matches b (EditRows.fillRow b rows row) (nextRow b prev (row.2, row.1)) := by
  obtain ⟨rfl, hp, hc⟩ := h
  rw [fillRow_eq hp hc]
  exact ⟨rfl, length_nextRow hp, hp⟩

theorem levenshteinRows_eq (a b : String) : levenshteinRows a b = levenshtein a b := by
  unfold levenshteinRows levenshtein
  dsimp only
  have hinit : Matches b.toList (EditRows.init b.toList) (List.range (b.toList.length + 1)) :=
    ⟨rfl, List.length_range, List.length_replicate⟩
  have h := List.foldl_rel (r := Matches b.toList) (l := a.toList.zipIdx) hinit fun row _ _ _ h => h.fillRow row
  split
  case isTrue  => rfl
  case isFalse =>
    split
    case isTrue  => rfl
    case isFalse =>
      rw [h.prev_eq, List.getD_eq_getElem?_getD, List.getLastD_eq_getLast?, List.getLast?_eq_getElem?, h.length_prev]
      rfl

end InPlace

theorem levenshtein_least_edits (a b c : String) :
    levenshteinRows a b = levenshtein a b ∧
    levenshtein a b = dist a.toList b.toList ∧
    IsLeast {n | Edits n a.toList b.toList} (levenshtein a b) ∧
    levenshtein a b = levenshtein b a ∧
    (levenshtein a b = 0 ↔ a = b) ∧
    levenshtein a b ≤ max a.length b.length ∧
    levenshtein a c ≤ levenshtein a b + levenshtein b c := by
  rw [levenshteinRows_eq, levenshtein_eq_dist, levenshtein_eq_dist, levenshtein_eq_dist, levenshtein_eq_dist]
  refine ⟨rfl, rfl, isLeast_dist .., dist_comm .., ?_, dist_le_max .., dist_triangle ..⟩
  rw [dist_eq_zero_iff, String.toList_inj]

end Coverage
