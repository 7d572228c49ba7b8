import LinearAssignment.Proofs.Lockstep.Run
import LinearAssignment.Proofs.Refusal

set_option autoImplicit false

namespace LinearAssignment

variable {w : Width}

namespace Board

def LowersExactly (b : Board Float) : Prop := ∀ row col, row < b.rows → col < b.cols →
  (b.costAt row col - b.leastOfLine (b.line row col)).isFinite ∧
    Binary64.value (b.costAt row col - b.leastOfLine (b.line row col)) =
      b.worthAt row col - Binary64.value (b.leastOfLine (b.line row col))

theorem lowered_exactly (b : Board Float) (sized : b.Sized) (exactly : b.LowersExactly)
    (row col : Nat) (insideRow : row < b.rows) (insideColumn : col < b.cols) :
    (b.lowerLines.costAt row col).isFinite ∧
      b.lowerLines.worthAt row col =
        b.worthAt row col - Binary64.value (b.leastOfLine (b.line row col)) := by
  have cost : b.lowerLines.costAt row col = b.costAt row col - b.leastOfLine (b.line row col) :=
    lowered_cost b sized row col insideRow insideColumn
  rw [worthAt, cost]
  exact exactly row col insideRow insideColumn

theorem lowered_plain (b : Board Float) (sized : b.Sized)
    (finite : ∀ row col, row < b.rows → col < b.cols → (b.costAt row col).isFinite)
    (exactly : b.LowersExactly) : b.lowerLines.Plain where
  finite := fun row col insideRow insideColumn =>
    (lowered_exactly b sized exactly row col insideRow insideColumn).1
  nonnegative := fun row col insideRow insideColumn => by
    rw [(lowered_exactly b sized exactly row col insideRow insideColumn).2]
    exact sub_nonneg.mpr (line_least_member b sized finite row col insideRow insideColumn).2

section

variable (k : ℚ) (positive : 0 < k) (b : Board Float) (costs : Array Float) (offsets : Nat → ℚ)
  (unmarked : b.Unmarked) (unmarkedToo : Unmarked ({ b with costs } : Board Float))
  (finite : ∀ row col, row < b.rows → col < b.cols → (b.costAt row col).isFinite ∧
    (costAt ({ b with costs } : Board Float) row col).isFinite)
  (worth : ∀ row col, row < b.rows → col < b.cols →
    worthAt ({ b with costs } : Board Float) row col =
    k * b.worthAt row col + offsets (b.line row col))

include positive unmarked unmarkedToo finite worth

theorem offset_least (row col : Nat) (insideRow : row < b.rows) (insideColumn : col < b.cols) :
    Binary64.value (leastOfLine ({ b with costs } : Board Float) (b.line row col)) =
      k * Binary64.value (b.leastOfLine (b.line row col)) + offsets (b.line row col) := by
  obtain ⟨⟨r, c, insideR, insideC, belongs, same⟩, _, below⟩ :=
    line_least_attained b unmarked.sized
      (fun row col insideRow insideColumn => (finite row col insideRow insideColumn).1) row col
      insideRow insideColumn
  obtain ⟨⟨rToo, cToo, insideRToo, insideCToo, belongsToo, sameToo⟩, _, belowToo⟩ :=
    line_least_attained ({ b with costs } : Board Float) unmarkedToo.sized
      (fun row col insideRow insideColumn => (finite row col insideRow insideColumn).2) row col
      insideRow insideColumn
  apply le_antisymm
  · have bound := belowToo r c insideR insideC belongs
    rw [worth r c insideR insideC, belongs, worthAt, same] at bound
    exact bound
  · have bound :=
      mul_le_mul_of_nonneg_left (below rToo cToo insideRToo insideCToo belongsToo) positive.le
    have times := worth rToo cToo insideRToo insideCToo
    rw [show b.line rToo cToo = b.line row col from belongsToo] at times
    change Binary64.value (costAt ({ b with costs } : Board Float) rToo cToo) = _ at times
    rw [sameToo] at times
    rw [show b.line row col = line ({ b with costs } : Board Float) row col from rfl]
      at times bound ⊢
    linarith

theorem lowered_multiple (exactly : b.LowersExactly)
    (exactlyToo : LowersExactly ({ b with costs } : Board Float)) :
    b.lowerLines.Multiple k (lowerLines ({ b with costs } : Board Float)) := by
  apply multiple_made k positive _ _ (lowered_sized b unmarked.sized)
    (lowered_sized _ unmarkedToo.sized) rfl
  · intro row col insideRow insideColumn
    exact ⟨(lowered_exactly b unmarked.sized exactly row col insideRow insideColumn).1,
      (lowered_exactly _ unmarkedToo.sized exactlyToo row col insideRow insideColumn).1⟩
  · intro row col insideRow insideColumn
    have least := offset_least k positive b costs offsets unmarked unmarkedToo finite worth row col
      insideRow insideColumn
    have times := worth row col insideRow insideColumn
    have here := (lowered_exactly b unmarked.sized exactly row col insideRow insideColumn).2
    have there := (lowered_exactly _ unmarkedToo.sized exactlyToo row col insideRow insideColumn).2
    rw [show line ({ b with costs } : Board Float) row col = b.line row col from rfl] at there
    rw [there, here, times, least]
    ring

theorem reduced_multiple (exactly : b.LowersExactly)
    (exactlyToo : LowersExactly ({ b with costs } : Board Float)) :
    ∃ start startToo, b.reduce = .ok start ∧
      reduce ({ b with costs } : Board Float) = .ok startToo ∧ start.Multiple k startToo ∧
      start.Fresh ∧ startToo.Fresh ∧ start.Plain ∧ startToo.Plain := by
  have multiple := lowered_multiple k positive b costs offsets unmarked unmarkedToo finite worth
    exactly exactlyToo
  obtain ⟨start, reduces, starring, fresh⟩ := reduced b unmarked
  obtain ⟨startToo, reducesToo, twins⟩ :=
    Alike.ok_right _ _ _ (twins_star_lines _ _ multiple.twins) start reduces
  obtain ⟨starringToo, freshToo⟩ := reduced_known _ startToo unmarkedToo reducesToo
  have plain := plain_kept _ start starring.rows starring.cols starring.costs
    (lowered_plain b unmarked.sized (fun row col insideRow insideColumn =>
      (finite row col insideRow insideColumn).1) exactly)
  have plainToo := plain_kept _ startToo starringToo.rows starringToo.cols starringToo.costs
    (lowered_plain _ unmarkedToo.sized (fun row col insideRow insideColumn =>
      (finite row col insideRow insideColumn).2) exactlyToo)
  refine ⟨start, startToo, reduces, reducesToo,
    ⟨twins, fun row col insideRow insideColumn => ?_, fun row col insideRow insideColumn => ?_⟩,
    fresh, freshToo, plain, plainToo⟩
  · obtain ⟨rows, cols⟩ := twins_size start startToo twins
    exact ⟨plain.finite row col insideRow insideColumn, plainToo.finite row col (rows ▸ insideRow)
      (cols ▸ insideColumn)⟩
  · rw [starring.rows] at insideRow
    rw [starring.cols] at insideColumn
    have times := multiple.worth row col insideRow insideColumn
    rw [worthAt, worthAt, same_costs _ startToo starringToo.rows starringToo.costs,
      same_costs _ start starring.rows starring.costs]
    exact times

end

end Board

namespace Assignment

theorem settle_alike (values other : Array Float) (size : other.size = values.size)
    (finite : ∀ v ∈ values, v.isFinite) (finiteToo : ∀ v ∈ other, v.isFinite) (rows : Nat)
    (a : Assignment w) :
    Alike (fun x y : Assignment w => x.columns = y.columns ∧ x.unassigned = y.unassigned)
      (a.settle values rows) (a.settle other rows) := by
  apply Alike.bind (fun x y : Assignment w × Float => x.1 = y.1)
  · refine Alike.fold (fun x y : Assignment w × Float => x.1 = y.1) _ _ _ _ ?_ (a, 0) (a, 0) rfl
    rintro row ⟨a, cost⟩ ⟨_, total⟩ rfl
    simp only [settleRow]
    cases a.columnOf? row with
    | none => exact rfl
    | some col =>
        by_cases inside : row + rows * col < values.size
        · have read := fetch_ok values _ inside
          have readToo := fetch_ok other _ (size ▸ inside)
          simp only [read, readToo, ok_bind, finite _ (Array.getElem_mem _),
            finiteToo _ (Array.getElem_mem _), if_true]
          exact rfl
        · have outside : fetch values (row + rows * col) = .error .outOfRange := by
            simp [fetch, inside]
          have outsideToo : fetch other (row + rows * col) = .error .outOfRange := by
            simp [fetch, size, inside]
          simp only [outside, outsideToo, error_bind]
          trivial
  · rintro ⟨a, cost⟩ ⟨_, total⟩ rfl
    exact ⟨rfl, rfl⟩

theorem twins_record (b c : Board Float) (twins : b.Twins c) (a : Assignment w) :
    a.record c = a.record b := by
  obtain ⟨costs, rfl, _⟩ := twins
  rfl

end Assignment

structure StaysUnrounded (options : Options) (rows cols : Nat) (values : Array Float) : Prop where
  loading : options.maximize = true → ∀ v ∈ values,
    (Pricing.greatestFinite values - v).isFinite ∧
      Binary64.value (Pricing.greatestFinite values - v) =
        Binary64.value (Pricing.greatestFinite values) - Binary64.value v
  lowering : (Board.loaded options rows cols values).LowersExactly
  shifting : ∀ start s limit, (Board.loaded options rows cols values).reduce = .ok start →
    Stage.Reached start s → s.Exactly limit

theorem exact_unrounded (options : Options) (rows cols : Nat) (values : Array Float)
    (size : values.size = rows * cols) (finite : ∀ v ∈ values, v.isFinite) (whole : Whole values)
    (exact : StaysExact options rows cols values) : StaysUnrounded options rows cols values := by
  have unmarked := Board.loaded_unmarked options rows cols values size
  have searchable := exact_searchable options rows cols values size finite whole exact
  refine ⟨fun maximize v member => ?loading, fun row col insideRow insideColumn => ?lowering,
    fun start s limit reduce reached => ?shifting⟩
  case loading =>
    obtain ⟨finiteFlipped, _, flipped⟩ := Pricing.flipped_exact values whole v member
      (finite v member) (exact.loading maximize v member)
    exact ⟨finiteFlipped, flipped⟩
  case lowering =>
    obtain ⟨start, reduce, starring, _⟩ := Board.reduced _ unmarked
    have cost := Board.reduced_cost _ start unmarked reduce searchable.toLowerable row col
      insideRow insideColumn
    have lowered := (Board.same_costs _ start starring.rows starring.costs row col).trans
      (Board.lowered_cost _ unmarked.sized row col insideRow insideColumn)
    rw [Board.worthAt, lowered] at cost
    exact ⟨cost.1, cost.2.2.2⟩
  case shifting =>
    obtain ⟨_, fresh⟩ := Board.reduced_known _ start unmarked reduce
    have weighed := Board.reduced_weighed _ start unmarked reduce searchable.toLowerable
    have small := searchable.shifts start s reduce reached
    have weighedHere := Stage.reached_weighed _ start fresh weighed
      (fun t => searchable.shifts start t reduce) s reached
    exact Stage.small_exactly s (Stage.leads_sound ⟨.cover, start⟩ s fresh reached)
      weighedHere.toExact small limit

theorem loaded_unrounded (options : Options) (rows cols : Nat) (values : Array Float)
    (size : values.size = rows * cols) (finite : ∀ v ∈ values, v.isFinite)
    (unrounded : StaysUnrounded options rows cols values) (row col : Nat) (insideRow : row < rows)
    (insideColumn : col < cols) :
    ((Board.loaded options rows cols values).costAt row col).isFinite ∧
      (Board.loaded options rows cols values).worthAt row col =
        if options.maximize then
          Binary64.value (Pricing.greatestFinite values) - worthOf values rows (row, col)
        else
          worthOf values rows (row, col) := by
  have member := cell_member values rows cols row col size insideRow insideColumn
  rw [Board.worthAt, Board.loaded_cost options rows cols values size row col insideRow insideColumn]
  cases maximize : options.maximize with
  | false =>
      rw [Pricing.settled_taken options values _ (finite _ member) maximize]
      exact ⟨finite _ member, rfl⟩
  | true =>
      have flipped := unrounded.loading maximize _ member
      rw [Pricing.settled_flipped options values _ (finite _ member) maximize flipped.1]
      exact flipped

-- The searches go through the same phases with the same marks and covers after each; so whatever
-- workspaces the tables are solved in, the same columns, free rows and counts are reported.
structure SolvedInStep (w : Width) (k : ℚ) (mem : Memory) (options optionsToo : Options)
    (rows cols : Nat) (values other : Array Float) : Prop where
  searches : ∃ start startToo, (Board.loaded options rows cols values).reduce = .ok start ∧
    (Board.loaded optionsToo rows cols other).reduce = .ok startToo ∧ start.Multiple k startToo ∧
    start.trail.2 = none ∧ startToo.trail.2 = none ∧
    List.Forall₂ (Stage.SameVisit k) start.trail.1 startToo.trail.1
  solves : ∀ (ws wsToo : Workspace w) (report reportToo : Assignment w),
    ws.problem = ⟨rows, cols, values⟩ → wsToo.problem = ⟨rows, cols, other⟩ →
    mem.Grants (w.bytes * (report.columns.size + rows)) →
    mem.Grants (w.bytes * (reportToo.columns.size + rows)) →
    Alike
      (fun x y => x.1.tally = y.1.tally ∧ x.2.columns = y.2.columns ∧
        x.2.unassigned = y.2.unassigned)
      (ws.solve mem options report) (wsToo.solve mem optionsToo reportToo)
  ends : StaysCounted options rows cols values →
    ∀ (ws : Workspace w) (report : Assignment w), ws.problem = ⟨rows, cols, values⟩ →
    mem.Grants (w.bytes * (report.columns.size + rows)) →
    ∃ out, ws.solve mem options report = .ok out

section

variable (k : ℚ) (positive : 0 < k) (mem : Memory) (options optionsToo : Options)
  (numbered : optionsToo.oneBased = options.oneBased) (rows cols : Nat) (values other : Array Float)
  (room : mem.Suffices w rows cols) (rowsFit : rows < w.max) (colsFit : cols < w.max)
  (size : values.size = rows * cols) (sizeToo : other.size = rows * cols)
  (finite : ∀ v ∈ values, v.isFinite) (finiteToo : ∀ v ∈ other, v.isFinite)
  (unrounded : StaysUnrounded options rows cols values)
  (unroundedToo : StaysUnrounded optionsToo rows cols other) (offsets : Nat → ℚ)
  (worth : ∀ row col, row < rows → col < cols →
    (Board.loaded optionsToo rows cols other).worthAt row col =
    k * (Board.loaded options rows cols values).worthAt row col + offsets
    (if rows ≤ cols then row else col))

include positive size sizeToo finite finiteToo unrounded unroundedToo worth

theorem searches_in_step :
    ∃ start startToo, (Board.loaded options rows cols values).reduce = .ok start ∧
      (Board.loaded optionsToo rows cols other).reduce = .ok startToo ∧
      Stage.InStep k ⟨.cover, start⟩ ⟨.cover, startToo⟩ := by
  have line (row col : Nat) :
      (Board.loaded options rows cols values).line row col = if rows ≤ cols then row else col := by
    by_cases order : rows ≤ cols <;>
      simp [Board.line, Board.isWide, Board.loaded, Board.ready, order]
  obtain ⟨start, startToo, reduce, reduceToo, multiple, fresh, freshToo, plain, plainToo⟩ :=
    Board.reduced_multiple k positive (Board.loaded options rows cols values)
      (Board.loaded optionsToo rows cols other).costs offsets
      (Board.loaded_unmarked options rows cols values size)
      (Board.loaded_unmarked optionsToo rows cols other sizeToo)
      (fun row col insideRow insideColumn =>
        ⟨(loaded_unrounded options rows cols values size finite unrounded row col insideRow
            insideColumn).1,
          (loaded_unrounded optionsToo rows cols other sizeToo finiteToo unroundedToo row col
            insideRow insideColumn).1⟩)
      (fun row col insideRow insideColumn => by
        rw [line]
        exact worth row col insideRow insideColumn)
      unrounded.lowering unroundedToo.lowering
  exact ⟨start, startToo, reduce, reduceToo, rfl, multiple,
    ⟨fresh, plain, fun t limit leads => unrounded.shifting start t limit reduce leads⟩,
    ⟨freshToo, plainToo, fun t limit leads =>
      unroundedToo.shifting startToo t limit reduceToo leads⟩⟩

include numbered

theorem readied_in_step :
    Alike
      (fun x y => x.1.tally = y.1.tally ∧ x.2.columns = y.2.columns ∧
        x.2.unassigned = y.2.unassigned)
      (Workspace.readiedSolve (w := w) options rows cols values)
      (Workspace.readiedSolve (w := w) optionsToo rows cols other) := by
  by_cases none : rows = 0 ∨ cols = 0
  · rw [Workspace.readiedSolve, Workspace.readiedSolve, if_pos none, if_pos none, numbered]
    exact ⟨rfl, rfl, rfl⟩
  · obtain ⟨start, startToo, reduce, reduceToo, inStep⟩ :=
      searches_in_step k positive options optionsToo rows cols values other size sizeToo finite
        finiteToo unrounded unroundedToo offsets worth
    have priced (table : Array Float) (sized : table.size = rows * cols)
        (finite : ∀ v ∈ table, v.isFinite) :
        table.any Float.isFinite :=
      Array.any_eq_true'.mpr ⟨_, some_cell rows cols table sized none,
        finite _ (some_cell rows cols table sized none)⟩
    rw [Workspace.readied_searches options rows cols values none size
      (finite_accepted options rows cols values finite) (priced values size finite),
      Workspace.readied_searches optionsToo rows cols other none sizeToo
      (finite_accepted optionsToo rows cols other finiteToo) (priced other sizeToo finiteToo),
      numbered, Workspace.search, Workspace.search]
    have bound := Board.twins_bound start startToo inStep.boards.twins
    have runs := Stage.runs_in_step k positive start.phaseBound ⟨.cover, start⟩ ⟨.cover, startToo⟩ 0
      {} inStep ⟨inStep.first.sound, Board.plain_priced start inStep.first.plain, trivial⟩
    apply Alike.bind (fun x y => x.1.Twins y.1 ∧ x.2 = y.2)
    · simp only [reduce, reduceToo, lift_ok, ok_bind]
      apply Alike.map_error
      change Alike _ (Board.runFrom start.phaseBound .cover {} start)
        (Board.runFrom startToo.phaseBound .cover {} startToo)
      rw [bound]
      exact runs
    · rintro ⟨last, tally⟩ ⟨lastToo, _⟩ ⟨twins, rfl⟩
      simp only [Assignment.twins_record last lastToo twins]
      apply Alike.bind Eq
      · exact Alike.map_error _ _ _ _ _ (Alike.same _)
      · rintro recorded _ rfl
        apply Alike.bind (fun x y : Assignment w => x.columns = y.columns ∧
          x.unassigned = y.unassigned)
        · exact Alike.map_error _ _ _ _ _
            (Assignment.settle_alike values other (sizeToo.trans size.symm) finite
            finiteToo rows recorded)
        · exact fun a b same => ⟨rfl, same⟩

include room rowsFit colsFit

theorem solved_in_step : SolvedInStep w k mem options optionsToo rows cols values other := by
  obtain ⟨start, startToo, reduce, reduceToo, inStep⟩ :=
    searches_in_step k positive options optionsToo rows cols values other size sizeToo finite
      finiteToo unrounded unroundedToo offsets worth
  have ready : Stage.Ready ⟨.cover, start⟩ 0 :=
    ⟨inStep.first.sound, Board.plain_priced start inStep.first.plain, trivial⟩
  constructor
  case searches =>
    have bound := Board.twins_bound start startToo inStep.boards.twins
    obtain ⟨ends, endsToo, visits⟩ := Stage.trails_in_step k positive start.phaseBound
      ⟨.cover, start⟩ ⟨.cover, startToo⟩ 0 inStep ready
      (Stage.phases_enough start inStep.first.sound)
    refine ⟨start, startToo, reduce, reduceToo, inStep.boards, ends, ?_, ?_⟩
    · rw [Board.trail, bound]
      exact endsToo
    · rw [Board.trail, Board.trail, bound]
      exact visits
  case solves =>
    intro ws wsToo report reportToo posed posedToo grows growsToo
    have solves := Workspace.solve_readied mem options ws report (by rw [posed]; exact room)
      (by rw [posed]; exact grows) (by rw [posed]; exact size)
    have solvesToo := Workspace.solve_readied mem optionsToo wsToo reportToo
      (by rw [posedToo]; exact room) (by rw [posedToo]; exact growsToo)
      (by rw [posedToo]; exact sizeToo)
    rw [solves, solvesToo, posed, posedToo]
    exact readied_in_step k positive options optionsToo numbered rows cols values other size sizeToo
      finite finiteToo unrounded unroundedToo offsets worth
  case ends =>
    intro counted ws report posed grows
    have solves := Workspace.solve_readied mem options ws report (by rw [posed]; exact room)
      (by rw [posed]; exact grows) (by rw [posed]; exact size)
    rw [solves, posed]
    have costs :
        ∀ begun, Board.Prepared options rows cols values begun →
          ∀ cost ∈ begun.costs, cost.isFinite := by
      intro begun prepared cost member
      obtain ⟨_, _, reduceHere⟩ := Board.prepared_reduced options rows cols values begun prepared
      cases reduce.symm.trans reduceHere
      obtain ⟨i, inside, rfl⟩ := Array.mem_iff_getElem.mp member
      have sized := inStep.first.sound.sized.costs
      obtain ⟨insideRow, insideColumn, back⟩ :=
        cell_of_position start.rows start.cols i (sized ▸ inside)
      have here := inStep.first.plain.finite _ _ insideRow insideColumn
      simp only [Board.costAt, Board.offset, back] at here
      simpa [Array.getD, inside] using here
    refine (Workspace.readied_unrefused mem options (⟨rows, cols, values⟩ : Problem w) room
      ⟨rowsFit, colsFit⟩ size ?_ costs).2 fun begun reduceHere _ => counted begun reduceHere
    rintro ⟨_, _, _, v, member, barred⟩
    rw [finite v member] at barred
    cases barred

end

/-- As long as nothing is rounded, a table of finite costs is solved in step with any positive
multiple of it, whatever is added to the lines of its shorter side; and so is making a total great
with making the total of the negatives small. -/
theorem multiples_and_negatives_in_step (w : Width) (mem : Memory) (options : Options)
    (rows cols : Nat) (values other : Array Float) (room : mem.Suffices w rows cols)
    (rowsFit : rows < w.max) (colsFit : cols < w.max) (size : values.size = rows * cols)
    (sizeToo : other.size = rows * cols) (finite : ∀ v ∈ values, v.isFinite)
    (finiteToo : ∀ v ∈ other, v.isFinite) :
    (∀ (k : ℚ) (offsets : Nat → ℚ), 0 < k →
        (∀ row col, row < rows → col < cols →
          worthOf other rows (row, col) =
            k * worthOf values rows (row, col) + offsets (if rows ≤ cols then row else col)) →
        StaysUnrounded { options with maximize := false } rows cols values →
        StaysUnrounded { options with maximize := false } rows cols other →
        SolvedInStep w k mem { options with maximize := false } { options with maximize := false }
          rows cols values other) ∧
      ((∀ row col, row < rows → col < cols →
          worthOf other rows (row, col) = - worthOf values rows (row, col)) →
        StaysUnrounded { options with maximize := true } rows cols values →
        StaysUnrounded { options with maximize := false } rows cols other →
        SolvedInStep w 1 mem { options with maximize := true } { options with maximize := false }
          rows cols values other) := by
  constructor
  · intro k offsets positive worth unrounded unroundedToo
    refine solved_in_step k positive mem _ _ rfl rows cols values other room rowsFit colsFit size
      sizeToo finite finiteToo unrounded unroundedToo offsets fun row col insideRow insideColumn =>
        ?_
    rw [(loaded_unrounded _ rows cols values size finite unrounded row col insideRow
      insideColumn).2,
      (loaded_unrounded _ rows cols other sizeToo finiteToo unroundedToo row col
      insideRow insideColumn).2]
    exact worth row col insideRow insideColumn
  · intro worth unrounded unroundedToo
    -- What values fall short of the greatest are their negatives, and the greatest more on every
    -- line.
    refine solved_in_step 1 one_pos mem { options with maximize := true }
      { options with maximize := false } rfl rows cols values other room rowsFit colsFit size
      sizeToo finite finiteToo unrounded unroundedToo
      (fun _ => - Binary64.value (Pricing.greatestFinite values))
      fun row col insideRow insideColumn => ?_
    rw [(loaded_unrounded _ rows cols values size finite unrounded row col insideRow
      insideColumn).2,
      (loaded_unrounded _ rows cols other sizeToo finiteToo unroundedToo row col insideRow
      insideColumn).2, if_pos rfl, if_neg (by simp), worth row col insideRow insideColumn]
    ring

theorem known_unrounded (options : Options) (rows cols : Nat) (values : Array Float)
    (numbers : List ℤ) (size : values.size = rows * cols)
    (known : List.Forall₂ (fun v (n : ℤ) => v.isFinite ∧ Binary64.value v = n) values.toList numbers)
    (moderate : ∀ n ∈ numbers, |n| ≤ 2 ^ 51) :
    (∀ v ∈ values, v.isFinite) ∧ StaysUnrounded options rows cols values := by
  have each (v : Float) (member : v ∈ values) :
      v.isFinite ∧ ∃ n ∈ numbers, Binary64.value v = n := by
    obtain ⟨i, inside, rfl⟩ := List.mem_iff_getElem.mp (Array.mem_toList_iff.mpr member)
    have insideToo : i < numbers.length := known.length_eq ▸ inside
    have here := (List.forall₂_iff_get.mp known).2 i inside insideToo
    exact ⟨here.1, _, List.getElem_mem insideToo, here.2⟩
  have finite : ∀ v ∈ values, v.isFinite := fun v member => (each v member).1
  have whole : Whole values := fun v member _ => (each v member).2.imp fun n facts => facts.2
  refine ⟨finite, exact_unrounded options rows cols values size finite whole ?_⟩
  refine moderate_stays_exact options rows cols values size finite whole fun v member => ?_
  obtain ⟨n, memberToo, same⟩ := (each v member).2
  rw [same]
  exact_mod_cast moderate n memberToo

theorem known_naturals (numbers : List ℕ) (small : ∀ n ∈ numbers, n < 2 ^ 53) :
    List.Forall₂ (fun v (n : ℤ) => v.isFinite ∧ Binary64.value v = n) (numbers.map Float.ofNat)
      (numbers.map Int.ofNat) := by
  rw [List.forall₂_map_left_iff, List.forall₂_map_right_iff, List.forall₂_same]
  intro n member
  simpa using Binary64.whole_exact n (small n member)

theorem multiples_and_negatives_in_step_four :
    SolvedInStep .bits8 3 ⟨1000⟩ {} {} 2 2 #[1, 2, 2, 4] #[4, 6, 7, 12] ∧
      SolvedInStep .bits8 1 ⟨1000⟩ { maximize := true } {} 2 2 #[1, 2, 2, 4]
        #[0 - 1, 0 - 2, 0 - 2, 0 - 4] := by
  have room : Memory.Suffices ⟨1000⟩ .bits8 2 2 := ⟨by decide, by decide, by decide, by decide⟩
  have natural (n : ℕ) (small : n ≤ 12) :
      (Float.ofNat n).isFinite ∧ Binary64.value (Float.ofNat n) = (n : ℤ) := by
    simpa using Binary64.whole_exact n (by omega)
  have negative (n : ℕ) (small : n ≤ 12) :
      (0 - Float.ofNat n).isFinite ∧ Binary64.value (0 - Float.ofNat n) = (-n : ℤ) := by
    obtain ⟨finite, value⟩ := natural n small
    refine Binary64.difference_exact 0 (Float.ofNat n) (-n) Binary64.finite_zero finite ?_
      (by rw [abs_neg, Nat.abs_cast]; omega)
    rw [Binary64.value_zero, value]
    push_cast
    ring
  have known :
      List.Forall₂ (fun v (n : ℤ) => v.isFinite ∧ Binary64.value v = n) [1, 2, 2, 4] [1, 2, 2, 4] :=
    .cons (natural 1 (by omega))
      (.cons (natural 2 (by omega))
      (.cons (natural 2 (by omega)) (.cons (natural 4 (by omega)) .nil)))
  have knownTriple :
      List.Forall₂ (fun v (n : ℤ) => v.isFinite ∧ Binary64.value v = n) [4, 6, 7, 12]
        [4, 6, 7, 12] :=
    .cons (natural 4 (by omega))
      (.cons (natural 6 (by omega))
      (.cons (natural 7 (by omega)) (.cons (natural 12 (by omega)) .nil)))
  have knownNegative :
      List.Forall₂ (fun v (n : ℤ) => v.isFinite ∧ Binary64.value v = n) [0 - 1, 0 - 2, 0 - 2, 0 - 4]
        [-1, -2, -2, -4] :=
    .cons (negative 1 (by omega))
      (.cons (negative 2 (by omega))
      (.cons (negative 2 (by omega)) (.cons (negative 4 (by omega)) .nil)))
  have cells (row col : Nat) (insideRow : row < 2) (insideColumn : col < 2) :
      (row = 0 ∨ row = 1) ∧ (col = 0 ∨ col = 1) := by
    omega
  constructor
  · obtain ⟨finite, unrounded⟩ := known_unrounded {} 2 2 #[1, 2, 2, 4] _ rfl known (by decide)
    obtain ⟨finiteToo, unroundedToo⟩ :=
      known_unrounded {} 2 2 #[4, 6, 7, 12] _ rfl knownTriple (by decide)
    refine (multiples_and_negatives_in_step .bits8 ⟨1000⟩ {} 2 2 #[1, 2, 2, 4] #[4, 6, 7, 12] room
      (by decide) (by decide) rfl rfl finite finiteToo).1 3 (fun row => if row = 0 then 1 else 0)
      (by norm_num) (fun row col insideRow insideColumn => ?_) unrounded unroundedToo
    obtain ⟨rfl | rfl, rfl | rfl⟩ := cells row col insideRow insideColumn
    · change Binary64.value (Float.ofNat 4) = 3 * Binary64.value (Float.ofNat 1) + 1
      rw [(natural 4 (by omega)).2, (natural 1 (by omega)).2]
      norm_num
    · change Binary64.value (Float.ofNat 7) = 3 * Binary64.value (Float.ofNat 2) + 1
      rw [(natural 7 (by omega)).2, (natural 2 (by omega)).2]
      norm_num
    · change Binary64.value (Float.ofNat 6) = 3 * Binary64.value (Float.ofNat 2) + 0
      rw [(natural 6 (by omega)).2, (natural 2 (by omega)).2]
      norm_num
    · change Binary64.value (Float.ofNat 12) = 3 * Binary64.value (Float.ofNat 4) + 0
      rw [(natural 12 (by omega)).2, (natural 4 (by omega)).2]
      norm_num
  · obtain ⟨finite, unrounded⟩ :=
      known_unrounded { maximize := true } 2 2 #[1, 2, 2, 4] _ rfl known (by decide)
    obtain ⟨finiteToo, unroundedToo⟩ :=
      known_unrounded {} 2 2 #[0 - 1, 0 - 2, 0 - 2, 0 - 4] _ rfl knownNegative (by decide)
    refine (multiples_and_negatives_in_step .bits8 ⟨1000⟩ {} 2 2 #[1, 2, 2, 4] #[0 - 1, 0 - 2,
      0 - 2, 0 - 4] room (by decide) (by decide) rfl rfl finite finiteToo).2
      (fun row col insideRow insideColumn => ?_) unrounded unroundedToo
    have opposite (n : ℕ) (small : n ≤ 12) :
        Binary64.value (0 - Float.ofNat n) = - Binary64.value (Float.ofNat n) := by
      rw [(negative n small).2, (natural n small).2]
      push_cast
      rfl
    obtain ⟨rfl | rfl, rfl | rfl⟩ := cells row col insideRow insideColumn
    · exact opposite 1 (by omega)
    · exact opposite 2 (by omega)
    · exact opposite 2 (by omega)
    · exact opposite 4 (by omega)

end LinearAssignment
