import LinearAssignment.Proofs.Binary64.Nearness
import LinearAssignment.Proofs.Optimality.Search

/-! Searches that round. Every cost drifts away from what potentials leave of the loaded one, by a
few times the spacing of doubles for each shift. -/

set_option autoImplicit false

namespace LinearAssignment

namespace Board

section Rounded

open Binary64

variable (top : ℚ) (b : Board Float) (amount : Float)
  (room : top ≤ 3 / 2 * value sixteenthOfLargest) (plain : b.Plain) (finite : amount.isFinite)
  (positive : 0 < value amount)

include room plain finite positive

theorem raised_near (row col : Nat) (insideRow : row < b.rows) (insideColumn : col < b.cols)
    (small : b.worthAt row col + b.rowShare (value amount) row ≤ 2 * top) :
    (b.raisedAt amount row col).isFinite ∧
      |value (b.raisedAt amount row col) - (b.worthAt row col + b.rowShare (value amount) row)| ≤
        spacing * (2 * top) := by
  have finiteCost := plain.finite row col insideRow insideColumn
  have sign := plain.nonnegative row col insideRow insideColumn
  have spaced : 0 ≤ spacing := by norm_num [spacing]
  by_cases covered : b.RowCovered row
  · simp only [raisedAt, rowShare, covered, if_true] at small ⊢
    rw [worthAt] at sign small ⊢
    have size :
        |value (b.costAt row col) + value amount| = value (b.costAt row col) + value amount :=
      abs_of_nonneg (by linarith)
    obtain ⟨finiteSum, near⟩ :=
      sum_near (b.costAt row col) amount finiteCost finite (by rw [size]; linarith)
    rw [size] at near
    exact ⟨finiteSum, near.trans (mul_le_mul_of_nonneg_left small spaced)⟩
  · simp only [raisedAt, rowShare, covered, if_false, add_zero] at small ⊢
    refine ⟨finiteCost, ?_⟩
    rw [worthAt, sub_self, abs_zero]
    exact mul_nonneg spaced (by linarith)

theorem shifted_near (within : value amount ≤ 2 * top) (row col : Nat) (insideRow : row < b.rows)
    (insideColumn : col < b.cols)
    (small : b.worthAt row col + b.rowShare (value amount) row ≤ 2 * top) :
    (b.shiftedAt amount row col).isFinite ∧
      |value (b.shiftedAt amount row col) -
          (b.worthAt row col + b.rowShare (value amount) row - b.columnShare (value amount) col)| ≤
        17 / 4 * spacing * top := by
  have opened :
      b.shiftedAt amount row col =
        if b.ColumnCovered col then
          b.raisedAt amount row col
        else
          b.raisedAt amount row col - amount :=
    rfl
  obtain ⟨finiteRaised, raised⟩ :=
    raised_near top b amount room plain finite positive row col insideRow insideColumn small
  have sign := plain.nonnegative row col insideRow insideColumn
  have share : 0 ≤ b.rowShare (value amount) row := by
    rw [rowShare]
    split <;> linarith
  have few : 0 ≤ top := by linarith
  rw [opened]
  by_cases covered : b.ColumnCovered col
  · simp only [columnShare, covered, if_true, sub_zero]
    exact ⟨finiteRaised, raised.trans (by rw [spacing]; linarith)⟩
  · simp only [columnShare, covered, if_false]
    obtain ⟨below, above⟩ := abs_le.mp raised
    have size : |value (b.raisedAt amount row col) - value amount| ≤ (1 + spacing) * (2 * top) := by
      rw [abs_le]
      constructor <;> rw [spacing] at * <;> linarith
    obtain ⟨finiteDifference, lowered⟩ :=
      difference_near _ amount finiteRaised finite (size.trans (by rw [spacing]; linarith))
    refine ⟨finiteDifference, ?_⟩
    obtain ⟨belowToo, aboveToo⟩ :=
      abs_le.mp (lowered.trans (mul_le_mul_of_nonneg_left size (by norm_num [spacing])))
    rw [abs_le]
    constructor <;> rw [spacing] at * <;> linarith

end Rounded

structure Drifted (loaded : Nat → Nat → ℚ) (top error spent : ℚ) (b : Board Float) :
    Prop extends Paid (top + error) spent b where
  tracks : b.Tracks loaded error

theorem priced_finite_plain (b : Board Float) (priced : b.Priced)
    (finite : ∀ row col, row < b.rows → col < b.cols → (b.costAt row col).isFinite) : b.Plain :=
  ⟨finite, fun row col insideRow insideColumn =>
    (Binary64.nonnegative_finite _ (finite row col insideRow insideColumn)).mp
      (priced.nonnegative row col insideRow insideColumn)⟩

theorem drifted_shifted (loaded : Nat → Nat → ℚ) (top error spent : ℚ) (b after : Board Float)
    (searching : b.Searching) (drifted : b.Drifted loaded top error spent)
    (ceiling : top ≤ Binary64.value Binary64.sixteenthOfLargest) (little : 64 * error ≤ top)
    (least : Float) (lowest : b.Least least) (finite : least.isFinite) (positive : 0 < least)
    (shifted : b.Shifted after least) (some : 0 ≤ spent)
    (affords : spent + Binary64.value least ≤ top + error) :
    after.Drifted loaded top (error + 9 / 2 * Binary64.spacing * top)
      (spent + Binary64.value least) := by
  have sign := (Binary64.positive_iff least finite).mp positive
  obtain ⟨rows, cols⟩ := shifted_size b after least shifted
  have sameStars := fun row col => (shifted_marks b after least shifted row col).1
  have raised (row col : Nat) (insideRow : row < b.rows) (insideColumn : col < b.cols) :
      b.worthAt row col + b.rowShare (Binary64.value least) row ≤ 2 * (top + error) := by
    have before := drifted.raised row col insideRow insideColumn
    rw [rowShare]
    split <;> linarith
  have near (row col : Nat) (insideRow : row < b.rows) (insideColumn : col < b.cols) :
      (after.costAt row col).isFinite ∧
        |after.worthAt row col -
            (b.worthAt row col + b.rowShare (Binary64.value least) row -
              b.columnShare (Binary64.value least) col)| ≤
          9 / 2 * Binary64.spacing * top := by
    rw [worthAt, shifted.costs row col insideRow insideColumn]
    obtain ⟨finiteCost, close⟩ := shifted_near (top + error) b least (by linarith) drifted.toPlain
      finite sign (by linarith) row col insideRow insideColumn
      (raised row col insideRow insideColumn)
    exact ⟨finiteCost, close.trans (by rw [Binary64.spacing]; linarith)⟩
  have priced := shifted_priced b after least shifted searching (plain_priced b drifted.toPlain)
    lowest finite positive
  refine ⟨⟨priced_finite_plain after priced ?finite, ?raised, ?left⟩, ?tracks⟩
  all_goals simp only [Tracks, rows, cols, sameStars]
  case finite => exact fun row col insideRow insideColumn => (near row col insideRow insideColumn).1
  case raised =>
    intro row col insideRow insideColumn
    have before := drifted.raised row col insideRow insideColumn
    have above := (abs_le.mp (near row col insideRow insideColumn).2).2
    rw [rowShare, columnShare] at above
    split at above <;> split at above <;> linarith
  case left =>
    intro row col insideRow insideColumn rowFree columnFree
    have uncovered :=
      free_open b searching.toDisciplined row col insideRow insideColumn rowFree columnFree
    have before := drifted.left row col insideRow insideColumn rowFree columnFree
    have above := (abs_le.mp (near row col insideRow insideColumn).2).2
    rw [rowShare, columnShare, if_neg uncovered.2.2.1, if_neg uncovered.2.2.2] at above
    linarith
  case tracks =>
    obtain ⟨left, p, q, balanced, close⟩ := drifted.tracks
    refine ⟨_, _, _, balanced_moved loaded left b searching.toDisciplined _ sign.le p q balanced,
      fun row col insideRow insideColumn => ?_⟩
    obtain ⟨below, above⟩ := abs_le.mp (close row col insideRow insideColumn)
    obtain ⟨belowToo, aboveToo⟩ := abs_le.mp (near row col insideRow insideColumn).2
    rw [abs_le]
    constructor <;> linarith

theorem drifted_kept (loaded : Nat → Nat → ℚ) (top error spent : ℚ) (b after : Board Float)
    (rows : after.rows = b.rows) (cols : after.cols = b.cols) (costs : after.costs = b.costs)
    (starredRows : ∀ row, (∃ col, b.Starred row col) → ∃ col, after.Starred row col)
    (starredColumns : ∀ col, (∃ row, b.Starred row col) → ∃ row, after.Starred row col)
    (drifted : b.Drifted loaded top error spent) : after.Drifted loaded top error spent := by
  obtain ⟨left, p, q, balanced, close⟩ := drifted.tracks
  refine ⟨paid_kept (top + error) spent b after rows cols costs starredRows starredColumns
    drifted.toPaid, left, p, q, balanced_kept loaded left b after rows cols starredRows
    starredColumns p q balanced, ?_⟩
  simpa only [worthAt, same_costs b after rows costs, rows, cols] using close

theorem reduced_drifted (b start : Board Float) (unmarked : b.Unmarked)
    (reduce : b.reduce = .ok start)
    (finite : ∀ row col, row < b.rows → col < b.cols → (b.costAt row col).isFinite) (top : ℚ)
    (bounded : ∀ row col, row < b.rows → col < b.cols →
      b.worthAt row col - Binary64.value (b.leastOfLine (b.line row col)) ≤ top)
    (ceiling : top ≤ Binary64.value Binary64.sixteenthOfLargest) :
    start.Drifted b.worthAt top (9 / 2 * Binary64.spacing * top) 0 := by
  obtain ⟨starring, _⟩ := reduced_known b start unmarked reduce
  have rows : start.rows = b.rows := starring.rows
  have cols : start.cols = b.cols := starring.cols
  have lowered (row col : Nat) (insideRow : row < b.rows) (insideColumn : col < b.cols) :
      (start.costAt row col).isFinite ∧ 0 ≤ start.worthAt row col ∧
        |start.worthAt row col -
            (b.worthAt row col - Binary64.value (b.leastOfLine (b.line row col)))| ≤
          9 / 2 * Binary64.spacing * top ∧
        start.worthAt row col ≤ top + 9 / 2 * Binary64.spacing * top := by
    have lower : start.costAt row col = b.costAt row col - b.leastOfLine (b.line row col) :=
      (same_costs b.lowerLines start starring.rows starring.costs row col).trans
        (lowered_cost b unmarked.sized row col insideRow insideColumn)
    obtain ⟨_, finiteLeast, lowest⟩ :=
      line_least_attained b unmarked.sized finite row col insideRow insideColumn
    have below := lowest row col insideRow insideColumn rfl
    have most := bounded row col insideRow insideColumn
    have finiteCost := finite row col insideRow insideColumn
    rw [worthAt] at below most
    have size :
        |Binary64.value (b.costAt row col) - Binary64.value (b.leastOfLine (b.line row col))| =
          Binary64.value (b.costAt row col) - Binary64.value (b.leastOfLine (b.line row col)) :=
      abs_of_nonneg (by linarith)
    obtain ⟨finiteDifference, near⟩ :=
      Binary64.difference_near _ _ finiteCost finiteLeast (by rw [size]; linarith)
    have sign := Binary64.lowered_nonnegative _ (b.leastOfLine (b.line row col))
      (Binary64.finite_number _ finiteCost) finiteLeast
      (by rw [Binary64.height_finite _ finiteLeast, Binary64.height_finite _ finiteCost];
          exact_mod_cast below)
    rw [worthAt, worthAt, lower]
    rw [size] at near
    have close :=
      near.trans (mul_le_mul_of_nonneg_left most
        (by norm_num [Binary64.spacing] : 0 ≤ Binary64.spacing))
    have above := (abs_le.mp close).2
    refine ⟨finiteDifference, (Binary64.nonnegative_finite _ finiteDifference).mp sign,
      close.trans ?_, ?_⟩ <;> rw [Binary64.spacing] at * <;> linarith
  obtain ⟨p, q, balanced⟩ := lowered_balanced b (fun row => ∀ col, ¬ start.Starred row col)
    (fun col => ∀ row, ¬ start.Starred row col)
  refine ⟨⟨⟨?finite, ?nonnegative⟩, ?raised, ?left⟩, ?tracks⟩
  all_goals simp only [Tracks, rows, cols, add_zero, sub_zero]
  case finite =>
    exact fun row col insideRow insideColumn => (lowered row col insideRow insideColumn).1
  case nonnegative =>
    exact fun row col insideRow insideColumn => (lowered row col insideRow insideColumn).2.1
  case raised =>
    exact fun row col insideRow insideColumn => (lowered row col insideRow insideColumn).2.2.2
  case left =>
    exact fun row col insideRow insideColumn _ _ => (lowered row col insideRow insideColumn).2.2.2
  case tracks =>
    exact ⟨_, p, q, balanced, fun row col insideRow insideColumn =>
      (lowered row col insideRow insideColumn).2.2.1⟩

end Board

namespace Stage

def drift (top : ℚ) (shifts : ℕ) : ℚ := (shifts + 1) * (9 / 2 * Binary64.spacing * top)

theorem drift_little (top : ℚ) (sign : 0 ≤ top) (shifts : ℕ) (few : shifts < 2 ^ 32) :
    drift top shifts ≤ 9 / 2 ^ 21 * top := by
  have count : (shifts : ℚ) + 1 ≤ 2 ^ 32 := by exact_mod_cast few
  calc drift top shifts ≤ 2 ^ 32 * (9 / 2 * Binary64.spacing * top) :=
    mul_le_mul_of_nonneg_right count (by rw [Binary64.spacing]; positivity)
    _ = 9 / 2 ^ 21 * top := by rw [Binary64.spacing]; ring

variable (loaded : Nat → Nat → ℚ) (top : ℚ)
  (ceiling : top ≤ Binary64.value Binary64.sixteenthOfLargest) (sign : 0 ≤ top)

include ceiling sign

theorem next_drifted (s t : Stage) (sound : s.Sound) (next : s.Next t) (tally : Tally)
    (few : tally.shifts < 2 ^ 32) (spent : ℚ) (some : 0 ≤ spent)
    (drifted : s.board.Drifted loaded top (drift top tally.shifts) spent) :
    ∃ after, 0 ≤ after ∧
      t.board.Drifted loaded top (drift top (tally.count s.phase).shifts) after := by
  have advances := (next_sound s t sound next).2
  by_cases shift : s.phase = .shift
  · obtain ⟨least, asked⟩ := shift_asked s sound drifted.toPlain shift
    obtain ⟨phase, b⟩ := s
    cases shift
    obtain ⟨searching, missing, _⟩ := sound
    obtain ⟨_, result⟩ := shift_step b t next
    obtain ⟨other, foundToo, _, _, _, shifted⟩ :=
      Board.shift_inverted b t.board searching.sized result
    cases asked.found.symm.trans foundToo
    have affords := Board.paid_affords _ spent _ b searching.toDisciplined missing drifted.toPaid
      (Board.open_worth b drifted.toPlain least asked.lowest asked.finite)
    have little := drift_little top sign tally.shifts few
    have positive := (Binary64.positive_iff least asked.finite).mp asked.positive
    have driftedThen := Board.drifted_shifted loaded top _ spent b t.board searching drifted ceiling
      (by linarith) least asked.lowest asked.finite asked.positive shifted some affords
    refine ⟨spent + Binary64.value least, by linarith, ?_⟩
    have counted :
        drift top (tally.count .shift).shifts =
          drift top tally.shifts + 9 / 2 * Binary64.spacing * top := by
      simp only [drift, Tally.count]
      push_cast
      ring
    rw [counted]
    exact driftedThen
  · have counted : (tally.count s.phase).shifts = tally.shifts := by
      obtain ⟨phase, b⟩ := s
      cases phase <;> first | rfl | exact absurd rfl shift
    rw [counted]
    exact ⟨spent, some, Board.drifted_kept loaded top _ spent s.board t.board advances.rows
      advances.cols (advances.costs shift) advances.starredRows advances.starredColumns drifted⟩

omit ceiling sign in
theorem counted_few (start : Board Float) (fresh : start.Fresh) (priced : start.Priced)
    (budget : shiftsFrom start.starCount start.shorterSide < 2 ^ 32) (reached : Stage × Tally)
    (leads : Relation.ReflTransGen CountedNext (⟨.cover, start⟩, {}) reached) :
    reached.2.shifts < 2 ^ 32 := by
  obtain ⟨left, _, _, shifts⟩ :=
    counted_bound ⟨.cover, start⟩ 0 {} ⟨fresh, priced, trivial⟩ reached leads
  change reached.2.shifts + _ ≤ 0 + shiftsFrom start.starCount start.shorterSide at shifts
  omega

theorem counted_drifted (start : Board Float) (fresh : start.Fresh)
    (budget : shiftsFrom start.starCount start.shorterSide < 2 ^ 32)
    (drifted : start.Drifted loaded top (drift top 0) 0) (reached : Stage × Tally)
    (leads : Relation.ReflTransGen CountedNext (⟨.cover, start⟩, {}) reached) :
    ∃ spent, 0 ≤ spent ∧ reached.1.board.Drifted loaded top (drift top reached.2.shifts) spent := by
  induction leads with
  | refl => exact ⟨0, le_rfl, drifted⟩
  | @tail u t before next ih =>
      obtain ⟨unfinished, step, counted⟩ := next
      obtain ⟨spent, some, driftedHere⟩ := ih
      have sound :=
        leads_sound ⟨.cover, start⟩ u.1 fresh
          (Relation.ReflTransGen.lift (p := Next) Prod.fst (fun _ _ next => next.2.1)
          (⟨.cover, start⟩, {}) u before)
      have few := counted_few start fresh (Board.plain_priced start drifted.toPlain) budget u before
      rw [counted]
      exact next_drifted loaded top ceiling sign u.1 t.1 sound step u.2 few spent some driftedHere

omit ceiling sign in
theorem short_side (side : ℕ) (counters : side * (side + 1) / 2 < 2 ^ 32) : side ≤ 92681 := by
  by_contra long
  have many : 92682 * 92683 ≤ side * (side + 1) := Nat.mul_le_mul (by omega) (by omega)
  omega

theorem search_near (b : Board Float) (unmarked : b.Unmarked)
    (finite : ∀ row col, row < b.rows → col < b.cols → (b.costAt row col).isFinite)
    (bounded : ∀ row col, row < b.rows → col < b.cols →
      b.worthAt row col - Binary64.value (b.leastOfLine (b.line row col)) ≤ top)
    (counters : b.shorterSide * (b.shorterSide + 1) / 2 < 2 ^ 32) :
    ∃ start last tally, b.reduce = .ok start ∧ start.run = .ok (last, tally) ∧
      Sound ⟨.finished, last⟩ ∧ last.rows = b.rows ∧ last.cols = b.cols ∧
      ∀ other, Matching b.rows b.cols other → other.card = min b.rows b.cols →
        ∑ cell ∈ last.starCells, b.worthAt cell.1 cell.2 ≤
          ∑ cell ∈ other, b.worthAt cell.1 cell.2 + 4 / 5 * top := by
  obtain ⟨start, reduce, starring, fresh⟩ := Board.reduced b unmarked
  have side : start.shorterSide = b.shorterSide := by
    rw [Board.shorterSide, starring.rows, starring.cols]; rfl
  have drifted : start.Drifted b.worthAt top (drift top 0) 0 := by
    have once := Board.reduced_drifted b start unmarked reduce finite top bounded ceiling
    rwa [drift, Nat.cast_zero, zero_add, one_mul]
  have priced := Board.plain_priced start drifted.toPlain
  obtain ⟨last, tally, run, reached, _⟩ :=
    run_finishes start fresh priced (counts_fit start fresh priced (by rw [side]; exact counters))
  have sound := leads_sound ⟨.cover, start⟩ ⟨.finished, last⟩ fresh reached
  obtain ⟨rowsKept, colsKept⟩ := leads_size ⟨.cover, start⟩ ⟨.finished, last⟩ fresh reached
  have rows : last.rows = b.rows := rowsKept.trans starring.rows
  have cols : last.cols = b.cols := colsKept.trans starring.cols
  refine ⟨start, last, tally, reduce, run, sound, rows, cols, fun other matching full => ?_⟩
  obtain ⟨counted, path⟩ := leads_counted ⟨.cover, start⟩ ⟨.finished, last⟩ {} reached
  have budget : shiftsFrom start.starCount start.shorterSide < 2 ^ 32 :=
    lt_of_le_of_lt (shifts_from_bound _ _) (by rw [side]; exact counters)
  obtain ⟨spent, _, driftedLast⟩ :=
    counted_drifted b.worthAt top ceiling sign start fresh budget drifted _ path
  have little := drift_little top sign counted.shifts (counted_few start fresh priced budget _ path)
  have short : ((min last.rows last.cols : ℕ) : ℚ) ≤ 92681 := by
    rw [rows, cols]
    exact_mod_cast short_side b.shorterSide counters
  rw [← rows, ← cols] at matching full
  refine (finished_near b.worthAt _ last sound driftedLast.toPlain driftedLast.tracks other matching
    full).trans (add_le_add le_rfl ?_)
  calc 2 * ((min last.rows last.cols : ℕ) : ℚ) * drift top counted.shifts
      ≤ 2 * 92681 * (9 / 2 ^ 21 * top) := by
        refine mul_le_mul (by linarith) little ?_ (by norm_num)
        rw [drift, Binary64.spacing]
        positivity
    _ ≤ 4 / 5 * top := by linarith

end Stage

end LinearAssignment
