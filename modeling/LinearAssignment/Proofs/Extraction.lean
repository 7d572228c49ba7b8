import LinearAssignment.Proofs.Faultless

set_option autoImplicit false

namespace LinearAssignment

variable {α : Type} {w : Width}

namespace Assignment

theorem restart_inverted (mem : Memory) (rows : Nat) (oneBased : Bool) (old fresh : Assignment w)
    (restarts : old.restart mem rows oneBased = .ok fresh) : fresh = old.free rows oneBased := by
  obtain ⟨_, _, restarts⟩ := bind_ok _ _ _ restarts
  exact (Except.ok.inj restarts).symm

section

variable (a : Assignment w) (rows cols : Nat) (values : Array Float) (choose : Nat → Option Nat)
  (tells : a.Tells rows values choose)

include tells

theorem told_in_order (fits : ∀ row col, row < rows → choose row = some col → col < w.max) :
    a.pairs.Pairwise fun pair later => pair.1 < later.1 := by
  rw [(told_pairs a rows values choose tells fits).1]
  refine List.pairwise_lt_range.filterMap _ fun row later order pair here laterPair there => ?_
  obtain ⟨_, _, rfl⟩ := Option.map_eq_some_iff.mp here
  obtain ⟨_, _, rfl⟩ := Option.map_eq_some_iff.mp there
  exact order

theorem told_member (fits : ∀ row col, row < rows → choose row = some col → col < w.max)
    (row col : Nat) : (row, col) ∈ a.pairs ↔ row < rows ∧ choose row = some col := by
  rw [(told_pairs a rows values choose tells fits).1, List.mem_filterMap]
  constructor
  · rintro ⟨other, inside, here⟩
    obtain ⟨_, chosen, same⟩ := Option.map_eq_some_iff.mp here
    cases same
    exact ⟨List.mem_range.mp inside, chosen⟩
  · rintro ⟨inside, chosen⟩
    exact ⟨row, List.mem_range.mpr inside, Option.map_eq_some_iff.mpr ⟨col, chosen, rfl⟩⟩

theorem settled_again (colsFit : cols < w.max)
    (cells : ∀ row col, choose row = some col → col < cols ∧
      ∃ v, values[row + rows * col]? = some v ∧ v.isFinite) : a.settle values rows = .ok a := by
  have folds := fold_from_keeps (settleRow (w := w) values rows)
    (fun i done => done.1 = a ∧
      done.2 = ((List.range i).filterMap fun row => (choose row).map (row, ·)).foldl
        (addValue values rows) 0)
    0 rows (a, 0) ⟨rfl, rfl⟩ ?next
  case next =>
    rintro i ⟨before, cost⟩ - below ⟨same, total⟩
    simp only at same total
    subst same
    have found := column_held before rows choose tells.holds i (by omega) fun col chosen =>
      lt_trans (cells i col chosen).1 colsFit
    cases chosen : choose i with
    | none =>
        refine ⟨(before, cost), ?_, rfl, ?_⟩
        · simp [settleRow, found, chosen]
        · rw [chosen_next, chosen, Option.map_none, Option.toList_none, List.append_nil]
          exact total
    | some col =>
        obtain ⟨_, v, here, finite⟩ := cells i col chosen
        have read : fetch values (i + rows * col) = .ok v := by rw [fetch, here]
        refine ⟨(before, cost + v), ?_, rfl, ?_⟩
        · simp only [settleRow, found, chosen, read, finite, if_true, ok_bind, pure_ok]
        · have added : addValue values rows cost (i, col) = cost + v := by
            rw [addValue, Array.getD_eq_getD_getElem?, here, Option.getD_some]
          rw [chosen_next, chosen, List.foldl_append, ← total]
          exact added.symm
  obtain ⟨⟨after, cost⟩, folded, same, total⟩ := folds
  simp only [Nat.zero_add] at same total
  have span : min rows a.columns.size = rows := by rw [tells.holds.size, Nat.min_self]
  have told : cost = a.cost := total.trans tells.cost.symm
  subst same told
  simp [settle, span, folded]

end

end Assignment

theorem Board.chosen_star (b : Board α) (values : Array Float)
    (stars : b.stars.size = b.rows * b.cols) (size : values.size = b.rows * b.cols) (row col : Nat)
    (inside : row < b.rows) :
    b.choice values row = some col ↔
      b.rowStar? row = .ok (some col) ∧ ∃ v, values[row + b.rows * col]? = some v ∧ v.isFinite := by
  rw [b.row_star_of row stars inside, Board.choice, Option.filter_eq_some_iff]
  constructor
  · rintro ⟨star, finite⟩
    have starred := b.star_of_starred row col star
    exact ⟨congrArg _ star, _, cell_value values b.rows b.cols row col size inside starred.2.1,
      finite⟩
  · rintro ⟨star, v, here, finite⟩
    refine ⟨Except.ok.inj star, ?_⟩
    rw [Board.offset, Array.getD_eq_getD_getElem?, here, Option.getD_some]
    exact finite

/-- Any stars can be recorded and settled as long as both sides are shorter than the largest integer
of the width. The pairs are the rows and their first stars where the values are finite, the cost is
the sum of their values in this order, and settling again changes nothing. -/
theorem stars_extracted (mem : Memory) (b : Board α) (values : Array Float) (oneBased : Bool)
    (old fresh : Assignment w) (stars : b.stars.size = b.rows * b.cols)
    (size : values.size = b.rows * b.cols) (rowsFit : b.rows < w.max) (colsFit : b.cols < w.max)
    (restarts : old.restart mem b.rows oneBased = .ok fresh) :
    ∃ recorded report, fresh.record b = .ok recorded ∧ recorded.settle values b.rows = .ok report ∧
      report.oneBased = oneBased ∧ (report.pairs.Pairwise fun pair later => pair.1 < later.1) ∧
      (∀ row col, (row, col) ∈ report.pairs ↔
        row < b.rows ∧ b.rowStar? row = .ok (some col) ∧
          ∃ v, values[row + b.rows * col]? = some v ∧ v.isFinite) ∧
      report.unassigned + report.pairs.length = b.rows ∧
      report.assignedCount = .ok report.pairs.length ∧
      report.cost =
        report.pairs.foldl (fun total cell => total + values.getD (cell.1 + b.rows * cell.2) 0) 0 ∧
      Problem.objective (⟨b.rows, b.cols, values⟩ : Problem w) report = .ok report.cost ∧
      report.settle values b.rows = .ok report := by
  have freshIs := Assignment.restart_inverted mem b.rows oneBased old fresh restarts
  subst freshIs
  have free := Assignment.holds_free old b.rows oneBased
  obtain ⟨recorded, report, records, settles, numbered, tells⟩ :=
    Assignment.board_told b values _ stars size rowsFit colsFit free
  have cells (row col : Nat) (chosen : b.choice values row = some col) :
      row < b.rows ∧ col < b.cols ∧ ∃ v, values[row + b.rows * col]? = some v ∧ v.isFinite := by
    have starred := b.star_of_starred row col (Option.filter_eq_some_iff.mp chosen).1
    exact ⟨starred.1, starred.2.1,
      ((b.chosen_star values stars size row col starred.1).mp chosen).2⟩
  have fits (row col : Nat) (_ : row < b.rows) (chosen : b.choice values row = some col) :
      col < w.max :=
    lt_trans (cells row col chosen).2.1 colsFit
  obtain ⟨_, cost, counted⟩ := Assignment.told_pairs report b.rows values _ tells fits
  refine ⟨recorded, report, records, settles, numbered, ?order, ?members, counted, ?assigned, cost,
    ?objective, ?again⟩
  case order => exact Assignment.told_in_order report b.rows values _ tells fits
  case members =>
    intro row col
    rw [Assignment.told_member report b.rows values _ tells fits row col]
    exact and_congr_right (b.chosen_star values stars size row col)
  case assigned => exact report.assigned_pairs (counted.trans tells.holds.size.symm)
  case objective =>
    exact Problem.objective_told ⟨b.rows, b.cols, values⟩ report _ ⟨rowsFit, colsFit⟩ tells cells
  case again =>
    exact Assignment.settled_again report b.rows b.cols values _ tells colsFit fun row col chosen =>
      (cells row col chosen).2

-- The first row has two stars, the first column as well, and the star of the last row is on a
-- barred value.
theorem stars_extracted_tangled :
    ∃ (recorded report : Assignment .bits8),
      (Assignment.free 3 true (⟨#[7], 0, 0, false⟩ : Assignment .bits8)).record
          (⟨3, 2, #[], #[true, false, true, true, true, false], #[], #[], #[]⟩ : Board Float) =
        .ok recorded ∧
      recorded.settle #[1, 2, Binary64.infinity, 4, 5, 6] 3 = .ok report ∧ (0, 0) ∈ report.pairs ∧
      (0, 1) ∉ report.pairs ∧ (1, 1) ∈ report.pairs ∧ (2, 0) ∉ report.pairs ∧
      Problem.objective (⟨3, 2, #[1, 2, Binary64.infinity, 4, 5, 6]⟩ : Problem .bits8) report =
        .ok report.cost := by
  obtain ⟨recorded, report, records, settles, _, _, members, _, _, _, objective, _⟩ :=
    stars_extracted (w := .bits8) ⟨100⟩
      (⟨3, 2, #[], #[true, false, true, true, true, false], #[], #[], #[]⟩ : Board Float)
      #[1, 2, Binary64.infinity, 4, 5, 6] true ⟨#[7], 0, 0, false⟩ _
      rfl rfl (by decide) (by decide) rfl
  refine ⟨recorded, report, records, settles, (members 0 0).mpr ?first,
    (members 0 1).not.mpr ?second, (members 1 1).mpr ?third,
    (members 2 0).not.mpr ?fourth, objective⟩
  case first => exact ⟨by decide, rfl, 1, rfl, by decide +kernel⟩
  case second =>
    rintro ⟨_, star, _⟩
    cases star
  case third => exact ⟨by decide, rfl, 5, rfl, by decide +kernel⟩
  case fourth =>
    rintro ⟨_, _, v, here, finite⟩
    cases here
    cases finite

end LinearAssignment
