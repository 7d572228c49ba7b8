import LinearAssignment.Assignment
import LinearAssignment.Proofs.Board.Count

set_option autoImplicit false

namespace LinearAssignment

namespace Board

variable {α : Type}

def starOf (b : Board α) (row : Nat) : Option Nat :=
  (List.range b.cols).find? fun col => b.Starred row col

theorem row_star_of (b : Board α) (row : Nat) (stars : b.stars.size = b.rows * b.cols)
    (inside : row < b.rows) : b.rowStar? row = .ok (b.starOf row) := by
  rw [rowStar?, rowMark?, starOf, List.range_eq_range']
  refine seek_from_pure _ (fun col => decide (b.Starred row col)) 0 b.cols fun col _ before => ?_
  exact fetch_marked b.rows b.cols b.stars row col stars inside (by omega)

theorem star_of_starred (b : Board α) (row col : Nat) (found : b.starOf row = some col) :
    b.Starred row col := by
  rw [starOf] at found
  simpa using List.find?_some found

theorem star_of_some (b : Board α) (row col : Nat) (independent : b.Independent) :
    b.starOf row = some col ↔ b.Starred row col := by
  refine ⟨b.star_of_starred row col, fun starred => ?_⟩
  cases found : b.starOf row with
  | none =>
      have absent := List.find?_eq_none.mp found col (List.mem_range.mpr starred.2.1)
      exact absurd starred (by simpa using absent)
  | some other => rw [independent.rowOnce row other col (b.star_of_starred row other found) starred]

def choice (b : Board α) (values : Array Float) (row : Nat) : Option Nat :=
  (b.starOf row).filter fun col => (values.getD (b.offset row col) 0).isFinite

def chosenPairs (b : Board α) (values : Array Float) : List (Nat × Nat) :=
  (List.range b.rows).filterMap fun row => (b.choice values row).map (row, ·)

end Board

namespace Assignment

variable {α : Type} {w : Width}

def entryFor (a : Assignment w) : Option Nat → Nat
  | none => a.marker
  | some col => col + a.base

structure Holds (a : Assignment w) (rows : Nat) (choose : Nat → Option Nat) : Prop where
  size : a.columns.size = rows
  entries : ∀ row, row < rows → a.columns[row]? = some (a.entryFor (choose row))

theorem holds_congr (a : Assignment w) (rows : Nat) (choose other : Nat → Option Nat)
    (holds : a.Holds rows choose) (same : ∀ row, row < rows → choose row = other row) :
    a.Holds rows other where
  size := holds.size
  entries := fun row inside => same row inside ▸ holds.entries row inside

theorem holds_free (a : Assignment w) (rows : Nat) (oneBased : Bool) :
    (a.free rows oneBased).Holds rows fun _ => none where
  size := by simp [free]
  entries := fun row inside => by cases oneBased <;> simp [free, entryFor, marker, inside]

theorem assign_holds (a : Assignment w) (rows : Nat) (choose : Nat → Option Nat)
    (holds : a.Holds rows choose) (row : Nat) (inside : row < rows) (chosen : Option Nat) :
    ∃ after, a.assign row (a.entryFor chosen) = .ok after ∧
      after = { a with columns := after.columns } ∧
      after.Holds rows (Function.update choose row chosen) := by
  have stored := store_ok a.columns row (a.entryFor chosen) (by rw [holds.size]; exact inside)
  refine ⟨{ a with columns := a.columns.setIfInBounds row (a.entryFor chosen) }, ?_,
    rfl, by simpa using holds.size, fun other insideOther => ?_⟩
  · simp [assign, stored]
  · rw [Array.getElem?_setIfInBounds, holds.size]
    by_cases here : row = other
    · subst here
      simp [inside, entryFor, marker, base]
    · rw [if_neg here, Function.update_of_ne (Ne.symm here)]
      exact holds.entries other insideOther

-- No column is written as the marker, since the largest integer of the width stays free.
theorem column_held (a : Assignment w) (rows : Nat) (choose : Nat → Option Nat)
    (holds : a.Holds rows choose) (row : Nat) (inside : row < rows)
    (fits : ∀ col, choose row = some col → col < w.max) : a.columnOf? row = choose row := by
  rw [columnOf?, holds.entries row inside]
  cases chosen : choose row with
  | none => simp [entryFor]
  | some col =>
      have small := fits col chosen
      have apart : col + a.base ≠ a.marker := by
        cases numbered : a.oneBased
        · simp only [base, marker, numbered]
          simpa using small.ne
        · simp [base, marker, numbered]
      simp [entryFor, apart]

theorem pairs_held (a : Assignment w) (rows : Nat) (choose : Nat → Option Nat)
    (holds : a.Holds rows choose)
    (fits : ∀ row col, row < rows → choose row = some col → col < w.max) :
    a.pairs = (List.range rows).filterMap fun row => (choose row).map (row, ·) := by
  rw [pairs, holds.size]
  refine List.filterMap_congr fun row member => ?_
  have inside := List.mem_range.mp member
  rw [column_held a rows choose holds row inside fun col chosen => fits row col inside chosen]

def count (rows : Nat) (choose : Nat → Option Nat) : Nat :=
  ((List.range rows).filterMap choose).length

theorem count_next (rows : Nat) (choose : Nat → Option Nat) :
    count (rows + 1) choose = count rows choose + (if (choose rows).isSome then 1 else 0) := by
  rw [count, List.range_succ, List.filterMap_append, List.length_append]
  cases chosen : choose rows <;> simp [count, chosen]

theorem count_grows (few rows : Nat) (choose : Nat → Option Nat) (fewer : few ≤ rows) :
    count few choose ≤ count rows choose :=
  ((List.range_sublist.mpr fewer).filterMap choose).length_le

theorem count_bound (rows : Nat) (choose : Nat → Option Nat) : count rows choose ≤ rows := by
  simpa [count] using List.length_filterMap_le choose (List.range rows)

theorem count_pairs (rows : Nat) (choose : Nat → Option Nat) :
    ((List.range rows).filterMap fun row => (choose row).map (row, ·)).length =
      count rows choose := by
  induction rows with
  | zero => rfl
  | succ n ih =>
      rw [count_next, ← ih, List.range_succ, List.filterMap_append, List.length_append]
      cases chosen : choose n <;> simp [chosen]

def mixed (i : Nat) (after before : Nat → Option Nat) (row : Nat) : Option Nat :=
  if row < i then after row else before row

theorem mixed_next (i : Nat) (after before : Nat → Option Nat) :
    Function.update (mixed i after before) i (after i) = mixed (i + 1) after before := by
  funext row
  by_cases here : row = i
  · subst here
    simp [mixed]
  · rw [Function.update_of_ne here, mixed, mixed]
    by_cases earlier : row < i
    · rw [if_pos earlier, if_pos (by omega)]
    · rw [if_neg earlier, if_neg (by omega)]

theorem mixed_same (i : Nat) (after before : Nat → Option Nat) (same : after i = before i) :
    mixed i after before = mixed (i + 1) after before := by
  rw [← mixed_next, same]
  funext row
  by_cases here : row = i
  · subst here
    simp [mixed]
  · rw [Function.update_of_ne here]

theorem record_row (b : Board α) (a : Assignment w) (assigned row : Nat) (choose : Nat → Option Nat)
    (stars : b.stars.size = b.rows * b.cols) (holds : a.Holds b.rows choose) (inside : row < b.rows)
    (free : choose row = none) (fits : b.cols < w.max) :
    ∃ after, recordRow b (a, assigned) row =
        .ok (after, assigned + (if (b.starOf row).isSome then 1 else 0)) ∧
      after = { a with columns := after.columns } ∧
      after.Holds b.rows (Function.update choose row (b.starOf row)) := by
  have sought := b.row_star_of row stars inside
  cases star : b.starOf row with
  | none =>
      refine ⟨a, ?_, rfl, holds_congr a b.rows choose _ holds fun other _ => ?_⟩
      · simp [recordRow, sought, star]
      · by_cases here : other = row
        · subst here
          rw [Function.update_self, free]
        · rw [Function.update_of_ne here]
  | some col =>
      obtain ⟨after, assigned, frame, held⟩ :=
        assign_holds a b.rows choose holds row inside (some col)
      have starred := b.star_of_starred row col star
      have written : w.fit? (col + a.base) = some (col + a.base) := by
        refine w.fit_some _ ?_
        have insideColumn := starred.2.1
        rw [base]
        split <;> omega
      have assignedThere : a.assign row (col + a.base) = .ok after := assigned
      refine ⟨after, ?_, frame, held⟩
      simp [recordRow, sought, star, written, assignedThere]

theorem record_holds (b : Board α) (a : Assignment w) (stars : b.stars.size = b.rows * b.cols)
    (rowsFit : b.rows < w.max) (colsFit : b.cols < w.max) (holds : a.Holds b.rows fun _ => none) :
    ∃ recorded, a.record b = .ok recorded ∧ recorded.oneBased = a.oneBased ∧
      recorded.Holds b.rows b.starOf ∧ recorded.unassigned + count b.rows b.starOf = b.rows := by
  have folds := fold_from_keeps (recordRow b)
    (fun i done => done.1.oneBased = a.oneBased ∧
      done.1.Holds b.rows (mixed i b.starOf fun _ => none) ∧ done.2 = count i b.starOf)
    0 b.rows (a, 0) ⟨rfl, holds, rfl⟩ ?next
  case next =>
    rintro i ⟨before, assigned⟩ - below ⟨numbered, held, counted⟩
    have inside : i < b.rows := by omega
    obtain ⟨after, recorded, frame, heldThen⟩ :=
      record_row b before assigned i _ stars held inside (by simp [mixed]) colsFit
    refine ⟨_, recorded, ?_, ?_, ?_⟩
    · rw [frame]
      exact numbered
    · rw [mixed_next] at heldThen
      exact heldThen
    · rw [count_next]
      simp only at counted ⊢
      rw [counted]
  obtain ⟨⟨after, assigned⟩, folded, numbered, held, counted⟩ := folds
  simp only [Nat.zero_add] at held counted numbered
  have few := count_bound b.rows b.starOf
  have written : w.fit? (b.rows - assigned) = some (b.rows - assigned) := w.fit_some _ (by omega)
  refine ⟨{ after with unassigned := b.rows - assigned }, ?_, numbered,
    ⟨held.size, fun row inside => ?_⟩, ?_⟩
  · simp [record, folded, written]
  · have entry := held.entries row inside
    rw [mixed, if_pos inside] at entry
    exact entry
  · simp only [counted]
    omega

def addValue (values : Array Float) (rows : Nat) (total : Float) (cell : Nat × Nat) : Float :=
  total + values.getD (cell.1 + rows * cell.2) 0

structure Settled (b : Board α) (values : Array Float) (i : Nat) (a : Assignment w) (cost : Float) :
    Prop where
  holds : a.Holds b.rows (mixed i (b.choice values) b.starOf)
  cost : cost = ((List.range i).filterMap fun row => (b.choice values row).map (row, ·)).foldl
    (addValue values b.rows) 0
  counted : a.unassigned + count i (b.choice values) + count b.rows b.starOf =
    b.rows + count i b.starOf

theorem chosen_next (choose : Nat → Option Nat) (i : Nat) :
    (List.range (i + 1)).filterMap (fun row => (choose row).map (row, ·)) =
      (List.range i).filterMap (fun row => (choose row).map (row, ·)) ++
        ((choose i).map (i, ·)).toList := by
  rw [List.range_succ, List.filterMap_append]
  cases chosen : choose i <;> simp [chosen]

theorem settled_kept (b : Board α) (values : Array Float) (i : Nat) (a : Assignment w)
    (cost : Float) (settled : Settled b values i a cost) (kept : b.choice values i = b.starOf i) :
    Settled b values (i + 1) a
      (((b.choice values i).map (i, ·)).toList.foldl (addValue values b.rows) cost) where
  holds := by
    rw [← mixed_same i _ _ kept]
    exact settled.holds
  cost := by rw [chosen_next, List.foldl_append, ← settled.cost]
  counted := by
    have counted := settled.counted
    rw [count_next, count_next, kept]
    omega

theorem settled_dropped (b : Board α) (values : Array Float) (rowsFit : b.rows < w.max) (i : Nat)
    (inside : i < b.rows) (a : Assignment w) (cost : Float) (settled : Settled b values i a cost)
    (starred : (b.starOf i).isSome) (dropped : b.choice values i = none) :
    ∃ after, a.assign i a.marker = .ok after ∧ after.oneBased = a.oneBased ∧
      after.unassigned < w.max ∧
      Settled b values (i + 1) ({ after with unassigned := after.unassigned + 1 } : Assignment w)
        cost := by
  obtain ⟨after, assigned, frame, held⟩ := assign_holds a b.rows _ settled.holds i inside none
  have unassigned : after.unassigned = a.unassigned := by rw [frame]
  have counted := settled.counted
  have grown := count_grows (i + 1) b.rows b.starOf inside
  rw [count_next, if_pos starred] at grown
  refine ⟨after, assigned, by rw [frame], by omega, ⟨?_, ?_, ?_⟩⟩
  · rw [← dropped, mixed_next] at held
    exact ⟨held.size, held.entries⟩
  · rw [chosen_next, dropped, Option.map_none, Option.toList_none, List.append_nil]
    exact settled.cost
  · rw [count_next, count_next, if_pos starred, dropped]
    simp only [unassigned, Option.isSome_none, Bool.false_eq_true, if_false]
    omega

theorem settle_row (b : Board α) (values : Array Float) (size : values.size = b.rows * b.cols)
    (rowsFit : b.rows < w.max) (colsFit : b.cols < w.max) (i : Nat) (inside : i < b.rows)
    (a : Assignment w) (cost : Float) (settled : Settled b values i a cost) :
    ∃ after total, settleRow values b.rows (a, cost) i = .ok (after, total) ∧
      after.oneBased = a.oneBased ∧ Settled b values (i + 1) after total := by
  have fits : ∀ col, mixed i (b.choice values) b.starOf i = some col → col < w.max :=
    fun col chosen => by
    rw [mixed, if_neg (lt_irrefl i)] at chosen
    exact lt_trans (b.star_of_starred i col chosen).2.1 colsFit
  have found := column_held a b.rows _ settled.holds i inside fits
  rw [mixed, if_neg (lt_irrefl i)] at found
  cases star : b.starOf i with
  | none =>
      have none : b.choice values i = none := by rw [Board.choice, star]; rfl
      have next := settled_kept b values i a cost settled (none.trans star.symm)
      rw [none] at next
      refine ⟨a, cost, ?_, rfl, next⟩
      simp [settleRow, found, star]
  | some col =>
      have starred := b.star_of_starred i col star
      have below := cell_below b.rows b.cols i col inside starred.2.1
      have read : fetch values (i + b.rows * col) = .ok (values.getD (b.offset i col) 0) := by
        rw [fetch_ok values _ (by omega)]
        simp [Board.offset, Array.getD, size, below]
      by_cases finite : (values.getD (b.offset i col) 0).isFinite
      · have kept : b.choice values i = some col := by
          rw [Board.choice, star, Option.filter_some, if_pos finite]
        have next := settled_kept b values i a cost settled (kept.trans star.symm)
        rw [kept] at next
        refine ⟨a, cost + values.getD (b.offset i col) 0, ?_, rfl, next⟩
        simp only [settleRow, found, star, read, finite, if_true, ok_bind, pure_ok]
      · have dropped : b.choice values i = none := by
          rw [Board.choice, star, Option.filter_some, if_neg finite]
        obtain ⟨after, assigned, numbered, room, next⟩ :=
          settled_dropped b values rowsFit i inside a cost settled (by rw [star]; rfl) dropped
        refine ⟨{ after with unassigned := after.unassigned + 1 }, cost, ?_, numbered, next⟩
        simp only [settleRow, found, star, read, finite, release, assigned, demand, room,
          decide_true, if_true, ok_bind, pure_ok, Bool.false_eq_true, if_false]

structure Tells (a : Assignment w) (rows : Nat) (values : Array Float) (choose : Nat → Option Nat) :
    Prop where
  holds : a.Holds rows choose
  cost : a.cost = ((List.range rows).filterMap fun row => (choose row).map (row, ·)).foldl
    (addValue values rows) 0
  counted : a.unassigned + count rows choose = rows

theorem settle_told (b : Board α) (values : Array Float) (size : values.size = b.rows * b.cols)
    (rowsFit : b.rows < w.max) (colsFit : b.cols < w.max) (recorded : Assignment w)
    (holds : recorded.Holds b.rows b.starOf)
    (counted : recorded.unassigned + count b.rows b.starOf = b.rows) :
    ∃ report, recorded.settle values b.rows = .ok report ∧ report.oneBased = recorded.oneBased ∧
      report.Tells b.rows values (b.choice values) := by
  have folds := fold_from_keeps (settleRow (w := w) values b.rows)
    (fun i done => done.1.oneBased = recorded.oneBased ∧ Settled b values i done.1 done.2)
    0 b.rows (recorded, 0)
    ⟨rfl, ⟨holds_congr _ _ _ _ holds fun row _ => by simp [mixed], rfl, counted⟩⟩ ?next
  case next =>
    rintro i ⟨before, cost⟩ - below ⟨numbered, settled⟩
    obtain ⟨after, total, stepped, same, settledThen⟩ :=
      settle_row b values size rowsFit colsFit i (by omega) before cost settled
    exact ⟨_, stepped, same.trans numbered, settledThen⟩
  obtain ⟨⟨after, cost⟩, folded, numbered, settled⟩ := folds
  simp only [Nat.zero_add] at settled numbered
  have held : after.Holds b.rows (b.choice values) :=
    holds_congr _ _ _ _ settled.holds fun row inside => by simp [mixed, inside]
  have heldThen : ({ after with cost } : Assignment w).Holds b.rows (b.choice values) :=
    ⟨held.size, held.entries⟩
  refine ⟨{ after with cost }, ?_, numbered, heldThen, settled.cost, ?_⟩
  · have span : min b.rows recorded.columns.size = b.rows := by rw [holds.size, Nat.min_self]
    simp [settle, span, folded]
  · have all := settled.counted
    simp only at all ⊢
    omega

theorem board_told (b : Board α) (values : Array Float) (a : Assignment w)
    (stars : b.stars.size = b.rows * b.cols) (size : values.size = b.rows * b.cols)
    (rowsFit : b.rows < w.max) (colsFit : b.cols < w.max) (free : a.Holds b.rows fun _ => none) :
    ∃ recorded report, a.record b = .ok recorded ∧ recorded.settle values b.rows = .ok report ∧
      report.oneBased = a.oneBased ∧ report.Tells b.rows values (b.choice values) := by
  obtain ⟨recorded, records, numbered, holds, counted⟩ :=
    record_holds b a stars rowsFit colsFit free
  obtain ⟨report, settles, same, tells⟩ :=
    settle_told b values size rowsFit colsFit recorded holds counted
  exact ⟨recorded, report, records, settles, same.trans numbered, tells⟩

theorem told_pairs (a : Assignment w) (rows : Nat) (values : Array Float)
    (choose : Nat → Option Nat) (tells : a.Tells rows values choose)
    (fits : ∀ row col, row < rows → choose row = some col → col < w.max) :
    a.pairs = (List.range rows).filterMap (fun row => (choose row).map (row, ·)) ∧
      a.cost = a.pairs.foldl (addValue values rows) 0 ∧ a.unassigned + a.pairs.length = rows := by
  have pairs := pairs_held a rows choose tells.holds fits
  rw [pairs, count_pairs]
  exact ⟨rfl, tells.cost, tells.counted⟩

theorem assigned_pairs (a : Assignment w)
    (counted : a.unassigned + a.pairs.length = a.columns.size) :
    a.assignedCount = .ok a.pairs.length := by
  have fewer : a.unassigned ≤ a.columns.size := by omega
  have rest : a.columns.size - a.unassigned = a.pairs.length := by omega
  simp [assignedCount, demand, fewer, rest]

theorem board_reported (b : Board α) (values : Array Float) (a : Assignment w)
    (stars : b.stars.size = b.rows * b.cols) (size : values.size = b.rows * b.cols)
    (rowsFit : b.rows < w.max) (colsFit : b.cols < w.max) (free : a.Holds b.rows fun _ => none) :
    ∃ recorded report, a.record b = .ok recorded ∧ recorded.settle values b.rows = .ok report ∧
      report.oneBased = a.oneBased ∧ report.columns.size = b.rows ∧
      report.pairs = b.chosenPairs values ∧
      report.cost = (b.chosenPairs values).foldl (addValue values b.rows) 0 ∧
      report.unassigned + report.pairs.length = b.rows := by
  obtain ⟨recorded, report, records, settles, numbered, tells⟩ :=
    board_told b values a stars size rowsFit colsFit free
  have fits : ∀ row col, row < b.rows → b.choice values row = some col → col < w.max :=
    fun row col _ chosen => by
    have star := (Option.filter_eq_some_iff.mp chosen).1
    exact lt_trans (b.star_of_starred row col star).2.1 colsFit
  obtain ⟨pairs, _, unassigned⟩ := told_pairs report b.rows values (b.choice values) tells fits
  exact ⟨recorded, report, records, settles, numbered, tells.holds.size, pairs,
    tells.cost, unassigned⟩

end Assignment

end LinearAssignment
