import LinearAssignment.Proofs.Optimality.Potentials

set_option autoImplicit false

namespace LinearAssignment

namespace Board

theorem line_least_attained (b : Board Float) (sized : b.Sized)
    (finite : ∀ row col, row < b.rows → col < b.cols → (b.costAt row col).isFinite) (row col : Nat)
    (insideRow : row < b.rows) (insideColumn : col < b.cols) :
    (∃ r c, r < b.rows ∧ c < b.cols ∧ b.line r c = b.line row col ∧
        b.costAt r c = b.leastOfLine (b.line row col)) ∧
      (b.leastOfLine (b.line row col)).isFinite ∧
      ∀ r c, r < b.rows → c < b.cols → b.line r c = b.line row col →
        Binary64.value (b.leastOfLine (b.line row col)) ≤ b.worthAt r c := by
  have lowest := least_of_line b sized (b.line row col)
  have finiteHere := finite row col insideRow insideColumn
  have attained :
      ∃ r c, r < b.rows ∧ c < b.cols ∧ b.line r c = b.line row col ∧
        b.costAt r c = b.leastOfLine (b.line row col) := by
    refine lowest.origin.resolve_left fun top => ?_
    have above := lowest.lowest row col insideRow insideColumn rfl
    rw [top, Binary64.less_iff _ _ (Binary64.finite_number _ finiteHere) Binary64.infinity_number,
      Binary64.height_infinity, Binary64.height_finite _ finiteHere] at above
    exact above (WithBot.coe_lt_coe.mpr (WithTop.coe_lt_top _))
  have finiteLeast : (b.leastOfLine (b.line row col)).isFinite := by
    obtain ⟨r, c, insideR, insideC, _, same⟩ := attained
    exact same ▸ finite r c insideR insideC
  refine ⟨attained, finiteLeast, fun r c insideR insideC belongs => ?_⟩
  have above := lowest.lowest r c insideR insideC belongs
  rw [Binary64.less_finite_iff _ _ (finite r c insideR insideC) finiteLeast] at above
  exact not_lt.mp above

theorem line_least_member (b : Board Float) (sized : b.Sized)
    (finite : ∀ row col, row < b.rows → col < b.cols → (b.costAt row col).isFinite) (row col : Nat)
    (insideRow : row < b.rows) (insideColumn : col < b.cols) :
    (∃ r c, r < b.rows ∧ c < b.cols ∧ b.costAt r c = b.leastOfLine (b.line row col)) ∧
      Binary64.value (b.leastOfLine (b.line row col)) ≤ b.worthAt row col := by
  obtain ⟨⟨r, c, insideR, insideC, _, same⟩, _, below⟩ :=
    line_least_attained b sized finite row col insideRow insideColumn
  exact ⟨⟨r, c, insideR, insideC, same⟩, below row col insideRow insideColumn rfl⟩

structure Lowerable (b : Board Float) : Prop where
  finite : ∀ row col, row < b.rows → col < b.cols → (b.costAt row col).isFinite
  whole : ∀ row col, row < b.rows → col < b.cols → ∃ n : ℤ, b.worthAt row col = n
  small : ∀ row col, row < b.rows → col < b.cols →
    b.worthAt row col - Binary64.value (b.leastOfLine (b.line row col)) ≤ 2 ^ 53

structure Searchable (b : Board Float) : Prop extends Lowerable b where
  shifts : ∀ start s, b.reduce = .ok start → Stage.Reached start s → s.Small

theorem reduced_cost (b start : Board Float) (unmarked : b.Unmarked) (reduce : b.reduce = .ok start)
    (lowerable : b.Lowerable) (row col : Nat) (insideRow : row < b.rows)
    (insideColumn : col < b.cols) :
    (start.costAt row col).isFinite ∧ (∃ n : ℤ, start.worthAt row col = n) ∧
      0 ≤ start.worthAt row col ∧
      start.worthAt row col =
        b.worthAt row col - Binary64.value (b.leastOfLine (b.line row col)) := by
  obtain ⟨starring, _⟩ := reduced_known b start unmarked reduce
  obtain ⟨⟨r, c, insideR, insideC, same⟩, below⟩ :=
    line_least_member b unmarked.sized lowerable.finite row col insideRow insideColumn
  obtain ⟨n, wholeHere⟩ := lowerable.whole row col insideRow insideColumn
  obtain ⟨k, wholeLeast⟩ := lowerable.whole r c insideR insideC
  rw [worthAt, same] at wholeLeast
  have lowered : start.costAt row col = b.costAt row col - b.leastOfLine (b.line row col) :=
    (same_costs b.lowerLines start starring.rows starring.costs row col).trans
      (lowered_cost b unmarked.sized row col insideRow insideColumn)
  have smallHere := lowerable.small row col insideRow insideColumn
  rw [wholeHere, wholeLeast] at smallHere below
  have order : k ≤ n := by exact_mod_cast below
  have bound : n - k ≤ 2 ^ 53 := by exact_mod_cast smallHere
  have difference := Binary64.difference_exact (b.costAt row col) (b.leastOfLine (b.line row col))
    (n - k) (lowerable.finite row col insideRow insideColumn)
    (same ▸ lowerable.finite r c insideR insideC)
    (by rw [← worthAt, wholeHere, wholeLeast]; push_cast; rfl)
    (by rw [abs_of_nonneg (by omega)]; exact bound)
  have value : start.worthAt row col = ((n - k : ℤ) : ℚ) := by
    rw [worthAt, lowered]; exact difference.2
  refine ⟨lowered ▸ difference.1, ⟨n - k, value⟩, ?_, ?_⟩
  · rw [value]
    exact_mod_cast Int.sub_nonneg.mpr order
  · rw [value, wholeHere, wholeLeast]
    push_cast
    rfl

-- The least costs of the lines are the first potentials; the cross lines have none yet.
theorem lowered_balanced (b : Board Float) (rowFree columnFree : Nat → Prop) :
    ∃ p q, Balanced b.rows b.cols b.worthAt
      (fun row col => b.worthAt row col - Binary64.value (b.leastOfLine (b.line row col))) p q
      rowFree columnFree := by
  by_cases wide : b.isWide
  · have order : b.rows ≤ b.cols := of_decide_eq_true wide
    refine ⟨fun row => Binary64.value (b.leastOfLine row), fun _ => 0,
      fun row col insideRow insideColumn => ?_, fun _ _ _ _ _ _ => le_rfl, fun tall =>
        absurd order (not_le.mpr tall)⟩
    simp only [line, if_pos wide, sub_zero]
  · have order : ¬ b.rows ≤ b.cols := fun order => wide (decide_eq_true order)
    refine ⟨fun _ => 0, fun col => Binary64.value (b.leastOfLine col),
      fun row col insideRow insideColumn => ?_, fun short => absurd short order,
      fun _ _ _ _ _ _ => le_rfl⟩
    simp only [line, if_neg wide, sub_zero]

theorem reduced_weighed (b start : Board Float) (unmarked : b.Unmarked)
    (reduce : b.reduce = .ok start) (lowerable : b.Lowerable) : start.Weighed b.worthAt := by
  have cost := reduced_cost b start unmarked reduce lowerable
  obtain ⟨starring, _⟩ := reduced_known b start unmarked reduce
  have rows : start.rows = b.rows := starring.rows
  have cols : start.cols = b.cols := starring.cols
  refine ⟨⟨?finite, ?whole, ?nonnegative, ?small⟩, ?balanced⟩
  case finite =>
    exact fun row col insideRow insideColumn =>
      (cost row col (rows ▸ insideRow) (cols ▸ insideColumn)).1
  case whole =>
    exact fun row col insideRow insideColumn =>
      (cost row col (rows ▸ insideRow) (cols ▸ insideColumn)).2.1
  case nonnegative =>
    exact fun row col insideRow insideColumn =>
      (cost row col (rows ▸ insideRow) (cols ▸ insideColumn)).2.2.1
  case small =>
    intro row col insideRow insideColumn
    rw [(cost row col (rows ▸ insideRow) (cols ▸ insideColumn)).2.2.2]
    exact lowerable.small row col (rows ▸ insideRow) (cols ▸ insideColumn)
  case balanced =>
    obtain ⟨p, q, balanced⟩ := lowered_balanced b (fun row => ∀ col, ¬ start.Starred row col)
      (fun col => ∀ row, ¬ start.Starred row col)
    rw [rows, cols]
    refine ⟨p, q, fun row col insideRow insideColumn => ?_, balanced.wide, balanced.tall⟩
    rw [(cost row col insideRow insideColumn).2.2.2]
    exact balanced.split row col insideRow insideColumn

end Board

namespace Stage

theorem reached_small (top : ℚ) (start : Board Float) (fresh : start.Fresh) (exact : start.Exact)
    (room : 2 * top ≤ 2 ^ 53)
    (bounded : ∀ row col, row < start.rows → col < start.cols → start.worthAt row col ≤ top)
    (s : Stage) (reached : Reached start s) : s.Small := by
  intro shift least found row col insideRow insideColumn _
  obtain ⟨rows, cols⟩ := leads_size ⟨.cover, start⟩ s fresh reached
  have sign : 0 ≤ top := by
    have first := exact.nonnegative row col (rows ▸ insideRow) (cols ▸ insideColumn)
    exact first.trans (bounded row col (rows ▸ insideRow) (cols ▸ insideColumn))
  have solvent := start_solvent top start (Board.exact_plain start exact) bounded sign
  obtain ⟨_, spent, solventHere⟩ := reached_on_unit 1 top (Binary64.has_whole _ room) start fresh
    solvent (Board.exact_on_unit start exact) s reached
  have sound := leads_sound ⟨.cover, start⟩ s fresh reached
  have affords := solvent_affords top spent s sound solventHere
  obtain ⟨other, asked⟩ := shift_asked s sound solventHere.toPlain shift
  cases found.symm.trans asked.found
  rw [asked.amount] at affords
  have raised := solventHere.raised row col insideRow insideColumn
  linarith

theorem star_matching (b : Board Float) (independent : b.Independent) :
    Matching b.rows b.cols b.starCells where
  inside := by
    rintro ⟨row, col⟩ member
    have starred := (b.star_cell row col).mp member
    exact ⟨starred.1, starred.2.1⟩
  rowsApart := Board.star_rows_apart b independent
  columnsApart := Board.star_columns_apart b independent

theorem full_near (loaded : Nat → Nat → ℚ) (error : ℚ) (b : Board Float) (matched : b.Matched)
    (complete : b.starCount = b.shorterSide) (plain : b.Plain) (tracks : b.Tracks loaded error)
    (other : Finset (Nat × Nat)) (matching : Matching b.rows b.cols other)
    (full : other.card = min b.rows b.cols) :
    ∑ cell ∈ b.starCells, loaded cell.1 cell.2 ≤
      ∑ cell ∈ other, loaded cell.1 cell.2 + 2 * (min b.rows b.cols : ℕ) * error := by
  obtain ⟨left, p, q, balanced, near⟩ := tracks
  refine balanced_near b.rows b.cols loaded left p q _ _ balanced error
    (fun row col insideRow insideColumn => ?above) b.starCells
    (star_matching b matched.toIndependent) ?full ?below (fun row left col starred => ?_)
    (fun col left row starred => ?_) other matching full
  case above =>
    have sign := plain.nonnegative row col insideRow insideColumn
    have within := (abs_le.mp (near row col insideRow insideColumn)).2
    linarith
  case full => rw [← Board.star_count_cells b matched.sized, complete, Board.shorterSide]
  case below =>
    rintro ⟨row, col⟩ member
    have zero := (Board.zero_cost b row col matched.sized).mp
      (matched.starZero row col ((b.star_cell row col).mp member))
    have none : b.worthAt row col = 0 := ((Binary64.zero_iff _).mp zero.2.2).2
    have within := (abs_le.mp (near row col zero.1 zero.2.1)).1
    simp only
    linarith
  · exact left ((b.starred_row row).mpr ⟨col, starred⟩)
  · exact left ((b.starred_column col).mpr ⟨row, starred⟩)

theorem full_cheapest (loaded : Nat → Nat → ℚ) (b : Board Float) (matched : b.Matched)
    (complete : b.starCount = b.shorterSide) (plain : b.Plain) (potentials : b.HasPotentials loaded)
    (other : Finset (Nat × Nat)) (matching : Matching b.rows b.cols other)
    (full : other.card = min b.rows b.cols) :
    ∑ cell ∈ b.starCells, loaded cell.1 cell.2 ≤ ∑ cell ∈ other, loaded cell.1 cell.2 := by
  obtain ⟨p, q, balanced⟩ := potentials
  have tracks : b.Tracks loaded 0 :=
    ⟨b.worthAt, p, q, balanced, fun _ _ _ _ => by rw [sub_self, abs_zero]⟩
  simpa using full_near loaded 0 b matched complete plain tracks other matching full

theorem finished_near (loaded : Nat → Nat → ℚ) (error : ℚ) (b : Board Float)
    (sound : Sound ⟨.finished, b⟩) (plain : b.Plain) (tracks : b.Tracks loaded error)
    (other : Finset (Nat × Nat)) (matching : Matching b.rows b.cols other)
    (full : other.card = min b.rows b.cols) :
    ∑ cell ∈ b.starCells, loaded cell.1 cell.2 ≤
      ∑ cell ∈ other, loaded cell.1 cell.2 + 2 * (min b.rows b.cols : ℕ) * error := by
  obtain ⟨searching, _, complete⟩ := sound
  exact full_near loaded error b searching.toMatched complete plain tracks other matching full

theorem finished_cheapest (loaded : Nat → Nat → ℚ) (b : Board Float) (sound : Sound ⟨.finished, b⟩)
    (weighed : b.Weighed loaded) (other : Finset (Nat × Nat))
    (matching : Matching b.rows b.cols other) (full : other.card = min b.rows b.cols) :
    ∑ cell ∈ b.starCells, loaded cell.1 cell.2 ≤ ∑ cell ∈ other, loaded cell.1 cell.2 := by
  obtain ⟨searching, _, complete⟩ := sound
  exact full_cheapest loaded b searching.toMatched complete (Board.exact_plain b weighed.toExact)
    weighed.balanced other matching full

theorem search_cheapest (b : Board Float) (unmarked : b.Unmarked) (searchable : b.Searchable)
    (counts : ∀ start, b.reduce = .ok start → CountsFit start) :
    ∃ start last tally, b.reduce = .ok start ∧ start.run = .ok (last, tally) ∧
      Sound ⟨.finished, last⟩ ∧ last.rows = b.rows ∧ last.cols = b.cols ∧
      ∀ other, Matching b.rows b.cols other → other.card = min b.rows b.cols →
        ∑ cell ∈ last.starCells, b.worthAt cell.1 cell.2 ≤
          ∑ cell ∈ other, b.worthAt cell.1 cell.2 := by
  obtain ⟨start, reduce, starring, fresh⟩ := Board.reduced b unmarked
  have weighed := Board.reduced_weighed b start unmarked reduce searchable.toLowerable
  obtain ⟨last, tally, run, reached, _⟩ :=
    run_finishes start fresh (Board.exact_priced start weighed.toExact) (counts start reduce)
  have sound := leads_sound ⟨.cover, start⟩ ⟨.finished, last⟩ fresh reached
  obtain ⟨rowsKept, colsKept⟩ := leads_size ⟨.cover, start⟩ ⟨.finished, last⟩ fresh reached
  have rows : last.rows = b.rows := rowsKept.trans starring.rows
  have cols : last.cols = b.cols := colsKept.trans starring.cols
  have weighedLast := reached_weighed b.worthAt start fresh weighed
    (fun s => searchable.shifts start s reduce) ⟨.finished, last⟩ reached
  refine ⟨start, last, tally, reduce, run, sound, rows, cols, fun other matching full => ?_⟩
  rw [← rows, ← cols] at matching full
  exact finished_cheapest b.worthAt last sound weighedLast other matching full

theorem spread_searchable (b : Board Float) (unmarked : b.Unmarked)
    (finite : ∀ row col, row < b.rows → col < b.cols → (b.costAt row col).isFinite)
    (whole : ∀ row col, row < b.rows → col < b.cols → ∃ n : ℤ, b.worthAt row col = n) (spread : ℚ)
    (room : 2 * spread ≤ 2 ^ 53)
    (close : ∀ row col r c, row < b.rows → col < b.cols → r < b.rows → c < b.cols →
      b.worthAt row col - b.worthAt r c ≤ spread) : b.Searchable := by
  have lowered :
      ∀ row col, row < b.rows → col < b.cols →
        b.worthAt row col - Binary64.value (b.leastOfLine (b.line row col)) ≤ spread := by
    intro row col insideRow insideColumn
    obtain ⟨⟨r, c, insideR, insideC, same⟩, _⟩ :=
      Board.line_least_member b unmarked.sized finite row col insideRow insideColumn
    rw [← same]
    exact close row col r c insideRow insideColumn insideR insideC
  have lowerable : b.Lowerable := ⟨finite, whole, fun row col insideRow insideColumn =>
    (lowered row col insideRow insideColumn).trans (by linarith)⟩
  refine ⟨lowerable, fun start s reduce reached => ?_⟩
  have cost := Board.reduced_cost b start unmarked reduce lowerable
  have weighed := Board.reduced_weighed b start unmarked reduce lowerable
  obtain ⟨starring, fresh⟩ := Board.reduced_known b start unmarked reduce
  refine reached_small spread start fresh weighed.toExact room
    (fun row col insideRow insideColumn => ?_) s reached
  have insideRowBefore : row < b.rows := starring.rows ▸ insideRow
  have insideColumnBefore : col < b.cols := starring.cols ▸ insideColumn
  rw [(cost row col insideRowBefore insideColumnBefore).2.2.2]
  exact lowered row col insideRowBefore insideColumnBefore

theorem short_counts_fit (b : Board Float) (unmarked : b.Unmarked) (lowerable : b.Lowerable)
    (counters : b.shorterSide * (b.shorterSide + 1) / 2 < 2 ^ 32) (start : Board Float)
    (reduce : b.reduce = .ok start) : CountsFit start := by
  have weighed := Board.reduced_weighed b start unmarked reduce lowerable
  obtain ⟨starring, fresh⟩ := Board.reduced_known b start unmarked reduce
  refine counts_fit start fresh (Board.exact_priced start weighed.toExact) ?_
  rw [Board.shorterSide, starring.rows, starring.cols]
  exact counters

end Stage

end LinearAssignment
