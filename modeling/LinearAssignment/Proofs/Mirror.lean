import LinearAssignment.Proofs.Binary64.Same
import LinearAssignment.Proofs.LastResort

set_option autoImplicit false

namespace LinearAssignment

open Binary64 (Same)

def transposed (rows cols : Nat) (values : Array Float) : Array Float :=
  Array.ofFn fun i : Fin (cols * rows) => values.getD (i / cols + rows * (i % cols)) 0

section

variable (rows cols : Nat) (values : Array Float)

theorem transposed_size : (transposed rows cols values).size = cols * rows := Array.size_ofFn

theorem transposed_cell (row col : Nat) (insideRow : row < rows) (insideColumn : col < cols) :
    (transposed rows cols values).getD (col + cols * row) 0 = values.getD (row + rows * col) 0 := by
  have inside := cell_below cols rows col row insideColumn insideRow
  simp [transposed, Array.getD, inside, cell_row _ _ _ insideColumn, cell_column _ _ _ insideColumn]

theorem transposed_member (size : values.size = rows * cols) (v : Float) :
    v ∈ transposed rows cols values ↔ v ∈ values := by
  constructor
  · intro member
    obtain ⟨i, rfl⟩ := Array.mem_ofFn.mp member
    obtain ⟨insideColumn, insideRow, _⟩ := cell_of_position cols rows i i.isLt
    exact cell_member values rows cols _ _ size insideRow insideColumn
  · intro member
    obtain ⟨i, inside, rfl⟩ := Array.mem_iff_getElem.mp member
    obtain ⟨insideRow, insideColumn, back⟩ := cell_of_position rows cols i (size ▸ inside)
    have cell := transposed_cell rows cols values _ _ insideRow insideColumn
    have memberToo := cell_member (transposed rows cols values) cols rows _ _
      (transposed_size rows cols values) insideColumn insideRow
    rw [cell, back] at memberToo
    simpa [Array.getD, inside] using memberToo

end

namespace Pricing

theorem forbidden_same (x y : Float) (cells : Nat) (same : Same x y) :
    Same (forbidden x cells) (forbidden y cells) := by
  have sign : 0 < x ↔ 0 < y := Binary64.same_less (Binary64.same_refl 0) same
  have price : Same (10 * x * Float.ofNat cells) (10 * y * Float.ofNat cells) :=
    Binary64.same_product (Binary64.same_product (Binary64.same_refl 10) same)
      (Binary64.same_refl _)
  have low :
      10 * x * Float.ofNat cells < Binary64.sixteenthOfLargest ↔
        10 * y * Float.ofNat cells < Binary64.sixteenthOfLargest :=
    Binary64.same_less price (Binary64.same_refl _)
  simp only [forbidden, sign, low]
  split_ifs
  · exact price
  · exact Binary64.same_refl _
  · exact Binary64.same_refl _

section

variable (options : Options) (values other : Array Float) (members : ∀ v, v ∈ other ↔ v ∈ values)
  (some : ∃ v ∈ values, v.isFinite)

include members some

theorem extremes_same :
    Same (greatestFinite values) (greatestFinite other) ∧
      Same (leastFinite values) (leastFinite other) := by
  have someToo : ∃ v ∈ other, v.isFinite := some.imp fun v facts =>
    ⟨(members v).mpr facts.1, facts.2⟩
  have level (x y : Float) (finiteX : x.isFinite) (finiteY : y.isFinite) (equal : Binary64.value x =
      Binary64.value y) :
      Same x y :=
    Binary64.same_of_height x y (Binary64.finite_number x finiteX)
      (Binary64.finite_number y finiteY)
      (by rw [Binary64.height_finite x finiteX, Binary64.height_finite y finiteY, equal])
  obtain ⟨finite, member, above⟩ := greatest_finite values some
  obtain ⟨finiteToo, memberToo, aboveToo⟩ := greatest_finite other someToo
  obtain ⟨finiteLeast, memberLeast, below⟩ := least_finite values some
  obtain ⟨finiteLeastToo, memberLeastToo, belowToo⟩ := least_finite other someToo
  constructor
  · exact level _ _ finite finiteToo
      (le_antisymm (aboveToo _ ((members _).mpr member) finite)
      (above _ ((members _).mp memberToo) finiteToo))
  · exact level _ _ finiteLeast finiteLeastToo
      (le_antisymm (below _ ((members _).mp memberLeastToo) finiteLeastToo)
      (belowToo _ ((members _).mpr memberLeast) finiteLeast))

theorem price_same (size : other.size = values.size) :
    Same (price options values) (price options other) := by
  obtain ⟨greatest, least⟩ := extremes_same values other members some
  rw [price, price, size]
  apply forbidden_same
  split_ifs
  · exact Binary64.same_difference greatest least
  · exact greatest

theorem settled_same (size : other.size = values.size) (v : Float) :
    Same (settledCost options values v) (settledCost options other v) := by
  obtain ⟨greatest, _⟩ := extremes_same values other members some
  have all : other.all Float.isFinite = values.all Float.isFinite := by
    rw [Bool.eq_iff_iff, Array.all_eq_true', Array.all_eq_true']
    exact forall_congr' fun v => imp_congr_left (members v)
  have taken :
      Same (if options.maximize && v.isFinite then greatestFinite values - v else v)
        (if options.maximize && v.isFinite then greatestFinite other - v else v) := by
    split_ifs
    · exact Binary64.same_difference greatest (Binary64.same_refl v)
    · exact Binary64.same_refl v
  have either (flag : Bool) (x y : Float) (same : Same x y) :
      Same (if flag || x.isFinite then x else price options values)
        (if flag || y.isFinite then y else price options other) := by
    rw [Binary64.same_finite same]
    split_ifs
    · exact same
    · exact price_same options values other members some size
  rw [settledCost, settledCost, all]
  exact either _ _ _ taken

end

theorem settled_number (options : Options) (values : Array Float) (v : Float)
    (member : v ∈ values) : (settledCost options values v).isNaN = false := by
  by_cases barred : ∃ u ∈ values, u.isFinite = false
  · exact Binary64.finite_number _ (settled_finite options values barred v member)
  · have finite : ∀ u ∈ values, u.isFinite := fun u memberU => by
      by_contra infinite
      exact barred ⟨u, memberU, (Bool.not_eq_true _).mp infinite⟩
    have all : values.all Float.isFinite = true := Array.all_eq_true'.mpr finite
    obtain ⟨finiteGreatest, _, _⟩ := greatest_finite values ⟨v, member, finite v member⟩
    simp only [settledCost, all, finite v member, Bool.and_true, Bool.true_or, if_true]
    split_ifs
    · exact (Binary64.difference_follows _ v finiteGreatest (finite v member)).1
    · exact Binary64.finite_number v (finite v member)

end Pricing

namespace Board

structure Mirrors (b c : Board Float) : Prop where
  rows : c.rows = b.cols
  cols : c.cols = b.rows
  costs : ∀ row col, row < b.rows → col < b.cols → Same (b.costAt row col) (c.costAt col row)
  stars : ∀ row col, b.Starred row col ↔ c.Starred col row

theorem mirrors_zero (b c : Board Float) (sized : b.Sized) (sizedToo : c.Sized)
    (mirrors : b.Mirrors c) (row col : Nat) : b.Zero row col ↔ c.Zero col row := by
  have test (insideRow : row < b.rows) (insideColumn : col < b.cols) :
      Cost.isZero (b.costAt row col) = Cost.isZero (c.costAt col row) :=
    Binary64.same_zero (mirrors.costs row col insideRow insideColumn)
  rw [zero_cost b row col sized, zero_cost c col row sizedToo, mirrors.rows, mirrors.cols]
  constructor
  · rintro ⟨insideRow, insideColumn, zero⟩
    exact ⟨insideColumn, insideRow, test insideRow insideColumn ▸ zero⟩
  · rintro ⟨insideColumn, insideRow, zero⟩
    exact ⟨insideRow, insideColumn, (test insideRow insideColumn).symm ▸ zero⟩

theorem line_least_number (b : Board Float)
    (numbers : ∀ row col, row < b.rows → col < b.cols → (b.costAt row col).isNaN = false)
    (line : Nat) (least : Float) (lowest : b.LineLeast line least) : least.isNaN = false := by
  cases lowest.origin with
  | inl top => rw [top, Binary64.infinity_number]
  | inr facts =>
      obtain ⟨row, col, insideRow, insideColumn, _, same⟩ := facts
      exact same ▸ numbers row col insideRow insideColumn

theorem line_least_below (b c : Board Float)
    (numbers : ∀ row col, row < b.rows → col < b.cols → (b.costAt row col).isNaN = false)
    (line : Nat) (least other : Float) (lowest : b.LineLeast line least)
    (lowestToo : c.LineLeast line other)
    (among : ∀ row col, row < c.rows → col < c.cols → c.line row col = line → ∃ r k, r < b.rows ∧
      k < b.cols ∧ b.line r k = line ∧ Same (b.costAt r k) (c.costAt row col)) :
    Binary64.height least ≤ Binary64.height other := by
  cases lowestToo.origin with
  | inl top =>
      rw [top, Binary64.height_infinity]
      exact le_top
  | inr facts =>
      obtain ⟨row, col, insideRow, insideColumn, belongs, attained⟩ := facts
      obtain ⟨r, k, insideR, insideK, belongsToo, same⟩ :=
        among row col insideRow insideColumn belongs
      have above := lowest.lowest r k insideR insideK belongsToo
      rw [Binary64.less_iff _ _ (numbers r k insideR insideK)
        (line_least_number b numbers line least lowest)] at above
      rw [← attained, ← Binary64.same_height same]
      exact not_lt.mp above

section

variable (b c : Board Float) (unmarked : b.Unmarked) (unmarkedToo : c.Unmarked)
  (mirrors : b.Mirrors c) (tall : b.cols < b.rows)
  (numbers : ∀ row col, row < b.rows → col < b.cols → (b.costAt row col).isNaN = false)

include mirrors tall

theorem mirrors_sides : ¬ b.isWide ∧ c.isWide := by
  simp only [isWide, mirrors.rows, mirrors.cols, decide_eq_true_eq]
  omega

theorem mirrors_line (row col : Nat) : b.line row col = col ∧ c.line col row = col := by
  obtain ⟨notWide, wide⟩ := mirrors_sides b c mirrors tall
  simp only [line, if_neg notWide, if_pos wide, and_self]

include unmarked unmarkedToo numbers

theorem mirrored_least (row col : Nat) :
    Same (b.leastOfLine (b.line row col)) (c.leastOfLine (c.line col row)) := by
  obtain ⟨lineHere, lineThere⟩ := mirrors_line b c mirrors tall row col
  have numbersToo (row col : Nat) (insideRow : row < c.rows) (insideColumn : col < c.cols) :
      (c.costAt row col).isNaN = false := by
    rw [mirrors.rows] at insideRow
    rw [mirrors.cols] at insideColumn
    exact Binary64.same_number (mirrors.costs col row insideColumn insideRow) ▸ numbers col row
      insideColumn insideRow
  have lowest := least_of_line b unmarked.sized col
  have lowestToo := least_of_line c unmarkedToo.sized col
  rw [lineHere, lineThere]
  apply Binary64.same_of_height _ _ (line_least_number b numbers col _ lowest)
    (line_least_number c numbersToo col _ lowestToo)
  apply le_antisymm
  · refine line_least_below b c numbers col _ _ lowest lowestToo fun k r insideK insideR belongs =>
      ?_
    rw [mirrors.rows] at insideK
    rw [mirrors.cols] at insideR
    obtain ⟨there, here⟩ := mirrors_line b c mirrors tall r k
    exact ⟨r, k, insideR, insideK, by rw [there, ← here, belongs],
      mirrors.costs r k insideR insideK⟩
  · refine line_least_below c b numbersToo col _ _ lowestToo lowest
      fun r k insideR insideK belongs => ?_
    obtain ⟨there, here⟩ := mirrors_line b c mirrors tall r k
    exact ⟨k, r, mirrors.rows.symm ▸ insideK,
      mirrors.cols.symm ▸ insideR, by
      rw [here, ← there, belongs], Binary64.same_symm _ _ (mirrors.costs r k insideR insideK)⟩

theorem mirrored_lowered : b.lowerLines.Mirrors c.lowerLines where
  rows := mirrors.rows
  cols := mirrors.cols
  costs := fun row col insideRow insideColumn => by
    rw [lowered_cost b unmarked.sized row col insideRow insideColumn,
      lowered_cost c unmarkedToo.sized col row (mirrors.rows.symm ▸ insideColumn)
      (mirrors.cols.symm ▸ insideRow)]
    exact Binary64.same_difference (mirrors.costs row col insideRow insideColumn)
      (mirrored_least b c unmarked unmarkedToo mirrors tall numbers row col)
  stars := mirrors.stars

theorem mirrored_reduced :
    ∃ start startToo, b.reduce = .ok start ∧ c.reduce = .ok startToo ∧ start.Mirrors startToo ∧
      b.lowerLines.Starring start ∧ start.Fresh ∧ c.lowerLines.Starring startToo ∧
      startToo.Fresh := by
  obtain ⟨start, reduce, starring, fresh⟩ := reduced b unmarked
  obtain ⟨startToo, reduceToo, starringToo, freshToo⟩ := reduced c unmarkedToo
  have lowered := mirrored_lowered b c unmarked unmarkedToo mirrors tall numbers
  obtain ⟨notWide, wide⟩ := mirrors_sides b c mirrors tall
  have first := reduced_first b start unmarked reduce
  have firstToo := reduced_first c startToo unmarkedToo reduceToo
  have tallStart : ¬ start.isWide := by rwa [isWide, starring.rows, starring.cols]
  have wideStart : startToo.isWide := by rwa [isWide, starringToo.rows, starringToo.cols]
  rw [FirstStars, if_neg tallStart] at first
  rw [FirstStars, if_pos wideStart] at firstToo
  have zeros : (fun col row => start.Zero row col) = startToo.Zero := by
    refine funext₂ fun col row => propext ?_
    rw [starring_zero _ start starring row col, starring_zero _ startToo starringToo col row]
    exact mirrors_zero _ _ (lowered_sized b unmarked.sized)
      (lowered_sized c unmarkedToo.sized) lowered row col
  have lines : startToo.rows = start.cols := by rw [starringToo.rows, lowered.rows, starring.cols]
  rw [zeros] at first
  rw [lines] at firstToo
  refine ⟨start, startToo, reduce, reduceToo,
    ⟨lines, ?_, fun row col insideRow insideColumn => ?_, fun row col => ?_⟩, starring, fresh,
    starringToo, freshToo⟩
  · rw [starringToo.cols, lowered.cols, starring.rows]
  · rw [starring.rows] at insideRow
    rw [starring.cols] at insideColumn
    rw [same_costs _ start starring.rows starring.costs row col,
      same_costs _ startToo starringToo.rows starringToo.costs col row]
    exact lowered.costs row col insideRow insideColumn
  · exact first_fit_unique first firstToo col row

end

theorem loaded_mirrors (options : Options) (rows cols : Nat) (values : Array Float)
    (size : values.size = rows * cols) (some : ∃ v ∈ values, v.isFinite) :
    (loaded options rows cols values).Mirrors
      (loaded options cols rows (transposed rows cols values)) where
  rows := rfl
  cols := rfl
  costs := fun row col insideRow insideColumn => by
    have sizeToo := transposed_size rows cols values
    rw [loaded_cost options rows cols values size row col insideRow insideColumn,
      loaded_cost options cols rows _ sizeToo col row insideColumn insideRow,
      transposed_cell rows cols values row col insideRow insideColumn]
    exact Pricing.settled_same options values _ (transposed_member rows cols values size) some
      (by rw [sizeToo, size, Nat.mul_comm]) _
  stars :=
    fun row col => iff_of_false ((loaded_unmarked options rows cols values size).unstarred row col)
      ((loaded_unmarked options cols rows _ (transposed_size rows cols values)).unstarred col row)

theorem table_accepted (options : Options) (rows cols : Nat) (values : Array Float)
    (allowed : (∀ v ∈ values, v.isFinite) ∨ options.forbidNonFinite = true) :
    objection? options values (ready rows cols) = none := by
  cases allowed with
  | inl finite => exact finite_accepted options rows cols values finite
  | inr forbids => simp [objection?, forbids]

end Board

/-- Exchanging the rows and columns of a tall table exchanges those of the costs, up to the signs of
zeros, and of the stars that it is loaded with and reduced to, however costs are rounded. -/
theorem tall_mirrors_wide (mem memToo : Memory) (options : Options) (rows cols : Nat)
    (values : Array Float) (old oldToo empty emptyToo : Board Float) (tall : cols < rows)
    (size : values.size = rows * cols)
    (allowed : (∀ v ∈ values, v.isFinite) ∨ options.forbidNonFinite = true)
    (reset : Board.reset mem rows cols old = .ok empty)
    (resetToo : Board.reset memToo cols rows oldToo = .ok emptyToo) :
    ∃ full fullToo priced, empty.load options values = .ok (full, priced) ∧
      emptyToo.load options (transposed rows cols values) = .ok (fullToo, priced) ∧
      priced = values.any Float.isFinite ∧ (priced = false → full = empty ∧ fullToo = emptyToo) ∧
      (priced = true →
        full.Mirrors fullToo ∧ full.Unmarked ∧ fullToo.Unmarked ∧
          ∃ start startToo, full.reduce = .ok start ∧ fullToo.reduce = .ok startToo ∧
            start.Mirrors startToo ∧ start.Fresh ∧ startToo.Fresh ∧
            (∀ col, start.ColumnCovered col ↔ ∃ row, start.Starred row col) ∧
            ∀ col, startToo.ColumnCovered col ↔ ∃ row, startToo.Starred row col) := by
  have emptyIs := Board.reset_inverted mem rows cols old empty reset
  have emptyTooIs := Board.reset_inverted memToo cols rows oldToo emptyToo resetToo
  subst emptyIs emptyTooIs
  have members := transposed_member rows cols values size
  have sizeToo := transposed_size rows cols values
  have accepted := Board.table_accepted options rows cols values allowed
  have acceptedToo := Board.table_accepted options cols rows (transposed rows cols values)
    (allowed.imp_left fun finite v member => finite v ((members v).mp member))
  have alike : (transposed rows cols values).any Float.isFinite = values.any Float.isFinite := by
    rw [Bool.eq_iff_iff, Array.any_eq_true', Array.any_eq_true']
    exact exists_congr fun v => and_congr_left' (members v)
  cases priced : values.any Float.isFinite with
  | false =>
      exact ⟨_, _, false, Board.load_unpriced options values _ size accepted priced,
        Board.load_unpriced options _ _ sizeToo acceptedToo (alike.trans priced), rfl, fun _ =>
          ⟨rfl, rfl⟩, fun absurd => by cases absurd⟩
  | true =>
      have some : ∃ v ∈ values, v.isFinite := Array.any_eq_true'.mp priced
      have unmarked := Board.loaded_unmarked options rows cols values size
      have unmarkedToo :=
        Board.loaded_unmarked options cols rows (transposed rows cols values) sizeToo
      have mirrors := Board.loaded_mirrors options rows cols values size some
      have numbers (row col : Nat) (insideRow : row < rows) (insideColumn : col < cols) :
          ((Board.loaded options rows cols values).costAt row col).isNaN = false := by
        rw [Board.loaded_cost options rows cols values size row col insideRow insideColumn]
        exact Pricing.settled_number options values _
          (cell_member values rows cols row col size insideRow insideColumn)
      obtain ⟨start, startToo, reduce, reduceToo, mirrored, starring, fresh, starringToo,
        freshToo⟩ := Board.mirrored_reduced _ _ unmarked unmarkedToo mirrors tall numbers
      exact ⟨_, _, true, Board.load_ready options rows cols values size accepted priced,
        Board.load_ready options cols rows _ sizeToo acceptedToo (alike.trans priced), rfl,
        (fun absurd => by cases absurd),
        fun _ => ⟨mirrors, unmarked, unmarkedToo, start, startToo, reduce, reduceToo, mirrored,
        fresh, freshToo, starring.columnCover, starringToo.columnCover⟩⟩

theorem tall_mirrors_wide_barred :
    ∃ full fullToo start startToo : Board Float,
      (Board.ready 3 2).load { forbidNonFinite := true }
        #[4, 1, 3, 2, Binary64.infinity, 5] = .ok (full, true) ∧
      (Board.ready 2 3).load { forbidNonFinite := true }
        (transposed 3 2 #[4, 1, 3, 2, Binary64.infinity, 5]) = .ok (fullToo, true) ∧
      full.Mirrors fullToo ∧ full.reduce = .ok start ∧ fullToo.reduce = .ok startToo ∧
      start.Mirrors startToo := by
  have reset := Board.reset_ok ⟨100⟩ 3 2 (Board.blank : Board Float) (by decide) (by decide)
    (by decide) (by decide) (by decide) (by decide)
  have resetToo := Board.reset_ok ⟨100⟩ 2 3 (Board.blank : Board Float) (by decide) (by decide)
    (by decide) (by decide) (by decide) (by decide)
  obtain ⟨full, fullToo, priced, load, loadToo, answer, _, done⟩ :=
    tall_mirrors_wide ⟨100⟩ ⟨100⟩ { forbidNonFinite := true } 3 2 #[4, 1, 3, 2, Binary64.infinity,
      5] _ _ _ _ (by decide) rfl (Or.inr rfl) reset resetToo
  have some : priced = true := answer.trans (by decide +kernel)
  subst some
  obtain ⟨mirrors, _, _, start, startToo, reduce, reduceToo, mirrored, _⟩ := done rfl
  exact ⟨full, fullToo, start, startToo, load, loadToo, mirrors, reduce, reduceToo, mirrored⟩

end LinearAssignment
