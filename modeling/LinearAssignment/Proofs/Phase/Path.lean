import LinearAssignment.Phase
import LinearAssignment.Proofs.Board.Place
import LinearAssignment.Proofs.Phase.Cover

/-! Flipping a path. The ranks of the rows on it fall, so that no line is visited again and a column
without a star is reached. -/

set_option autoImplicit false

namespace LinearAssignment.Board

variable {α : Type}

structure Route where
  primes : List (Nat × Nat)
  stars : List (Nat × Nat)
deriving DecidableEq

def Route.over (row col starRow : Nat) (rest : Route) : Route :=
  ⟨(row, col) :: rest.primes, (starRow, col) :: rest.stars⟩

def routeFrom : Nat → Nat → Nat → Board α → Except (Halt (Board α)) (Route × Board α)
  | 0, _, _, _ => .error (.fault .endless)
  | cells + 1, row, col, b => do
    let star ← b.columnStar? col
    let b ← b.setStar row col true
    match star with
    | none => return (⟨[(row, col)], []⟩, b)
    | some starRow =>
      let b ← b.setStar starRow col false
      match ← b.rowPrime? starRow with
      | none => refuse b (.noPartner starRow col)
      | some primeCol =>
        let (rest, b) ← routeFrom cells starRow primeCol b
        return (rest.over row col starRow, b)

def route (row col : Nat) (b : Board α) : Except (Halt (Board α)) (Route × Board α) := do
  let (visited, b) ← routeFrom b.pathBound row col b
  return (visited, b.erasePrimes.uncoverRows)

theorem route_from_flips (cells row col : Nat) (b : Board α) :
    flipFrom cells row col b = Prod.snd <$> routeFrom cells row col b := by
  induction cells generalizing row col b with
  | zero => rfl
  | succ n ih =>
      simp only [flipFrom, routeFrom, map_bind]
      refine bind_congr fun star => bind_congr fun placed => ?_
      cases star with
      | none => rfl
      | some starRow =>
          simp only [map_bind]
          refine bind_congr fun lifted => bind_congr fun prime => ?_
          cases prime with
          | none => rfl
          | some primeCol => simp only [ih, map_eq_pure_bind, bind_assoc, pure_bind]

theorem route_flips (row col : Nat) (b : Board α) :
    b.flip row col = Prod.snd <$> b.route row col := by
  simp only [flip, route, route_from_flips, map_eq_pure_bind, bind_assoc, pure_bind]

-- A path in turn down the columns of its primes, to a star each, and along the rows of its stars,
-- to a prime each. It visits no line twice and ends in a column without a star.
structure Alternating (b : Board α) (row col : Nat) (route : Route) : Prop where
  first : route.primes.head? = some (row, col)
  primed : ∀ cell ∈ route.primes, b.Primed cell.1 cell.2
  starred : ∀ cell ∈ route.stars, b.Starred cell.1 cell.2
  rows : route.primes.map Prod.fst = row :: route.stars.map Prod.fst
  columns : ∃ last, route.primes.map Prod.snd = route.stars.map Prod.snd ++ [last] ∧
    ∀ r, ¬ b.Starred r last
  rowsOnce : (route.primes.map Prod.fst).Nodup
  columnsOnce : (route.primes.map Prod.snd).Nodup

def Swapped (b after : Board α) (route : Route) : Prop :=
  ∀ r c, after.Starred r c ↔ (r, c) ∈ route.primes ∨ b.Starred r c ∧ (r, c) ∉ route.stars

structure Walking (b : Board α) (rank : Nat → Nat) (row col : Nat) :
    Prop extends Independent b where
  sized : b.Sized
  primed : b.Primed row col
  starless : ∀ c, ¬ b.Starred row c
  partner : ∀ r c other, b.Primed r c → b.Starred other c → ∃ c', b.Primed other c'
  falls : ∀ r c other, b.Primed r c → rank r ≤ rank row → b.Starred other c → rank other < rank r

structure Flipped (b after : Board α) (row : Nat) : Prop extends Independent after where
  sized : after.Sized
  origin : ∀ r c, after.Starred r c → b.Starred r c ∨ b.Primed r c
  starredRows : ∀ r, (∃ c, after.Starred r c) ↔ r = row ∨ ∃ c, b.Starred r c
  starredColumns : ∀ c, (∃ r, b.Starred r c) → ∃ r, after.Starred r c

theorem placed_walking (b after : Board α) (rank : Nat → Nat) (row col starRow next : Nat)
    (walking : b.Walking rank row col) (placed : b.Placed after row col) (sized : after.Sized)
    (samePrimes : ∀ r c, after.Primed r c ↔ b.Primed r c) (starred : b.Starred starRow col)
    (primedNext : b.Primed starRow next) : after.Walking rank starRow next := by
  have lower := walking.falls row col starRow walking.primed le_rfl starred
  have independent :=
    placed_independent b after row col placed walking.toIndependent walking.starless
  refine ⟨independent, sized, (samePrimes starRow next).mpr primedNext, ?starless, ?partner, ?falls⟩
  case starless =>
    intro c starredThen
    by_cases here : c = col
    · subst here
      rw [placed_column b after row c starRow placed] at starredThen
      exact walking.starless c (starredThen ▸ starred)
    · rw [placed_elsewhere b after row col starRow c placed here] at starredThen
      exact here (walking.rowOnce starRow c col starredThen starred)
  case partner =>
    intro r c other primed starredThen
    rw [samePrimes r c] at primed
    by_cases here : c = col
    · subst here
      rw [placed_column b after row c other placed] at starredThen
      exact ⟨c, (samePrimes other c).mpr (starredThen ▸ walking.primed)⟩
    · rw [placed_elsewhere b after row col other c placed here] at starredThen
      obtain ⟨c', primedToo⟩ := walking.partner r c other primed starredThen
      exact ⟨c', (samePrimes other c').mpr primedToo⟩
  case falls =>
    intro r c other primed low starredThen
    rw [samePrimes r c] at primed
    have lowBefore : rank r ≤ rank row := by omega
    by_cases here : c = col
    · subst here
      -- The old star of the column ranks below the prime, which ranks no higher than that star.
      have below := walking.falls r c starRow primed lowBefore starred
      omega
    · rw [placed_elsewhere b after row col other c placed here] at starredThen
      exact walking.falls r c other primed lowBefore starredThen

theorem first_swapped (b after : Board α) (row col : Nat) (placed : b.Placed after row col)
    (absent : ∀ r, ¬ b.Starred r col) : b.Swapped after ⟨[(row, col)], []⟩ := by
  intro r c
  rw [placed r c]
  by_cases here : c = col
  · subst here
    simp [absent r]
  · simp [here]

-- Later primes rank below the row that the path has left, and below all rows with a prime in the
-- column it has left.
theorem placed_apart (b after : Board α) (rank : Nat → Nat) (row col starRow next : Nat)
    (walking : b.Walking rank row col) (walkingOn : after.Walking rank starRow next)
    (placed : b.Placed after row col) (starred : b.Starred starRow col) (rest : Route)
    (alternating : after.Alternating starRow next rest)
    (low : ∀ cell ∈ rest.primes, rank cell.1 ≤ rank starRow) (cell : Nat × Nat)
    (member : cell ∈ rest.primes) : cell.1 ≠ row ∧ cell.2 ≠ col := by
  have lower := walking.falls row col starRow walking.primed le_rfl starred
  have below := low cell member
  constructor
  · rintro rfl
    omega
  · rintro rfl
    have starredNow := (placed_column b after row cell.2 row placed).mpr rfl
    have falls :=
      walkingOn.falls cell.1 cell.2 row (alternating.primed cell member) below starredNow
    omega

theorem star_column_visited (b : Board α) (row col : Nat) (route : Route)
    (alternating : b.Alternating row col route) (cell : Nat × Nat) (member : cell ∈ route.stars) :
    ∃ prime ∈ route.primes, prime.2 = cell.2 := by
  obtain ⟨last, columns, _⟩ := alternating.columns
  have visited : cell.2 ∈ route.primes.map Prod.snd := by
    rw [columns]
    exact List.mem_append_left _ (List.mem_map_of_mem member)
  exact List.mem_map.mp visited

theorem over_alternating (b after : Board α) (row col starRow next : Nat)
    (primed : b.Primed row col) (starred : b.Starred starRow col) (placed : b.Placed after row col)
    (samePrimes : ∀ r c, after.Primed r c ↔ b.Primed r c) (rest : Route)
    (alternating : after.Alternating starRow next rest)
    (apart : ∀ cell ∈ rest.primes, cell.1 ≠ row ∧ cell.2 ≠ col) :
    b.Alternating row col (rest.over row col starRow) where
  first := rfl
  primed := by
    refine List.forall_mem_cons.mpr ⟨primed, fun cell member => ?_⟩
    exact (samePrimes cell.1 cell.2).mp (alternating.primed cell member)
  starred := by
    refine List.forall_mem_cons.mpr ⟨starred, fun cell member => ?_⟩
    obtain ⟨prime, visited, same⟩ :=
      star_column_visited after starRow next rest alternating cell member
    have other : cell.2 ≠ col := same ▸ (apart prime visited).2
    exact (placed_elsewhere b after row col cell.1 cell.2 placed other).mp
      (alternating.starred cell member)
  rows := by simp [Route.over, alternating.rows]
  columns := by
    obtain ⟨last, columns, starless⟩ := alternating.columns
    refine ⟨last, by simp [Route.over, columns], fun r starredLast => ?_⟩
    have visited : last ∈ rest.primes.map Prod.snd := by simp [columns]
    obtain ⟨prime, member, same⟩ := List.mem_map.mp visited
    have other : last ≠ col := same ▸ (apart prime member).2
    exact starless r ((placed_elsewhere b after row col r last placed other).mpr starredLast)
  rowsOnce := by
    refine List.nodup_cons.mpr ⟨fun again => ?_, alternating.rowsOnce⟩
    obtain ⟨prime, member, same⟩ := List.mem_map.mp again
    exact (apart prime member).1 same
  columnsOnce := by
    refine List.nodup_cons.mpr ⟨fun again => ?_, alternating.columnsOnce⟩
    obtain ⟨prime, member, same⟩ := List.mem_map.mp again
    exact (apart prime member).2 same

theorem over_swapped (b placedBoard after : Board α) (row col starRow next : Nat)
    (independent : b.Independent) (starred : b.Starred starRow col)
    (placed : b.Placed placedBoard row col) (rest : Route)
    (alternating : placedBoard.Alternating starRow next rest)
    (swapped : placedBoard.Swapped after rest)
    (apart : ∀ cell ∈ rest.primes, cell.1 ≠ row ∧ cell.2 ≠ col) :
    b.Swapped after (rest.over row col starRow) := by
  intro r c
  rw [swapped r c, Route.over, List.mem_cons, List.mem_cons, Prod.mk.injEq, Prod.mk.injEq]
  by_cases here : c = col
  · subst here
    have unvisited : (r, c) ∉ rest.primes := fun member => (apart (r, c) member).2 rfl
    have unlifted : (r, c) ∉ rest.stars := by
      intro member
      obtain ⟨prime, visited, same⟩ :=
        star_column_visited placedBoard starRow next rest alternating (r, c) member
      exact (apart prime visited).2 same
    have only : b.Starred r c → r = starRow :=
      fun starredToo => independent.columnOnce r starRow c starredToo starred
    rw [placed_column b placedBoard row c r placed]
    tauto
  · rw [placed_elsewhere b placedBoard row col r c placed here]
    tauto

-- The induction is on the cells that may still be visited; the rank of the row keeps below their
-- number.
theorem route_from (rank : Nat → Nat) (cells : Nat) (b : Board α) (row col : Nat)
    (walking : b.Walking rank row col) (enough : rank row < cells) :
    ∃ route stars, routeFrom cells row col b = .ok (route, { b with stars }) ∧
      b.Alternating row col route ∧ b.Swapped { b with stars } route ∧
      ({ b with stars } : Board α).Independent ∧ ({ b with stars } : Board α).Sized ∧
      ∀ cell ∈ route.primes, rank cell.1 ≤ rank row := by
  induction cells generalizing b row col with
  | zero => omega
  | succ n ih =>
      have insideRow := walking.primed.1
      have insideColumn := walking.primed.2.1
      have placedFirst := set_star_ok b row col true walking.sized insideRow insideColumn
      cases column_star_cases b col walking.sized insideColumn with
      | inl facts =>
          obtain ⟨sought, absent⟩ := facts
          have placed := place_first b row col walking.sized insideRow insideColumn absent
          refine ⟨⟨[(row, col)], []⟩, _, ?result,
            ⟨rfl, ?primed, by simp, rfl, ⟨col, rfl, absent⟩, by simp, by simp⟩,
            first_swapped b _ row col placed absent,
            placed_independent b _ row col placed walking.toIndependent walking.starless,
            place_sized b row col true walking.sized, by simp⟩
          case result =>
            rw [routeFrom, sought, placedFirst]
            rfl
          case primed => simpa using walking.primed
      | inr facts =>
          obtain ⟨starRow, sought, starred⟩ := facts
          have apart : starRow ≠ row := fun same => walking.starless col (same ▸ starred)
          have placed := place_instead b row col starRow walking.sized walking.toIndependent
            insideRow apart starred
          have sized := place_sized (b.place row col true) starRow col false
            (place_sized b row col true walking.sized)
          have lifted := set_star_ok (b.place row col true) starRow col false
            (place_sized b row col true walking.sized) starred.1 insideColumn
          obtain ⟨c', primedThere⟩ := walking.partner row col starRow walking.primed starred
          cases row_mark_cases ((b.place row col true).place starRow col false) b.primes starRow
              walking.sized.primes starred.1 with
          | inl facts =>
              obtain ⟨_, unprimed⟩ := facts
              exact absurd primedThere (unprimed c')
          | inr facts =>
              obtain ⟨next, soughtPrime, primedNext⟩ := facts
              have walkingOn := placed_walking b _ rank row col starRow next walking placed sized
                (fun _ _ => Iff.rfl) starred primedNext
              have lower := walking.falls row col starRow walking.primed le_rfl starred
              obtain ⟨rest, stars, routed, alternating, swapped, independent, sizedLast, low⟩ :=
                ih _ starRow next walkingOn (by omega)
              have unvisited := placed_apart b _ rank row col starRow next walking walkingOn placed
                starred rest alternating low
              refine ⟨rest.over row col starRow, stars, ?result,
                over_alternating b _ row col starRow next walking.primed starred placed
                (fun _ _ => Iff.rfl) rest alternating unvisited,
                over_swapped b _ _ row col starRow next walking.toIndependent starred placed rest
                alternating swapped unvisited, independent, sizedLast,
                List.forall_mem_cons.mpr ⟨le_rfl, fun cell member => ?low⟩⟩
              case result =>
                have soughtRow :
                    ((b.place row col true).place starRow col false).rowPrime? starRow =
                      .ok (some next) :=
                  soughtPrime
                rw [routeFrom, sought, placedFirst]
                simp only [lift_ok, ok_bind, lifted, soughtRow, routed]
                rfl
              case low =>
                have below := low cell member
                omega

theorem swapped_origin (b after : Board α) (row col : Nat) (route : Route)
    (alternating : b.Alternating row col route) (swapped : b.Swapped after route) (r c : Nat)
    (starred : after.Starred r c) : b.Starred r c ∨ b.Primed r c := by
  cases (swapped r c).mp starred with
  | inl turned => exact Or.inr (alternating.primed (r, c) turned)
  | inr kept => exact Or.inl kept.1

theorem swapped_rows (b after : Board α) (row col : Nat) (route : Route)
    (alternating : b.Alternating row col route) (swapped : b.Swapped after route) (r : Nat) :
    (∃ c, after.Starred r c) ↔ r = row ∨ ∃ c, b.Starred r c := by
  have rows := fun r => congrArg (r ∈ ·) alternating.rows
  simp only [List.mem_map, Prod.exists, exists_and_right, exists_eq_right, List.mem_cons,
    eq_iff_iff] at rows
  constructor
  · rintro ⟨c, starredThen⟩
    rcases (swapped r c).mp starredThen with visited | ⟨starredBefore, _⟩
    · rcases (rows r).mp ⟨c, visited⟩ with same | ⟨c', lifted⟩
      · exact Or.inl same
      · exact Or.inr ⟨c', alternating.starred (r, c') lifted⟩
    · exact Or.inr ⟨c, starredBefore⟩
  · intro before
    by_cases visited : ∃ c, (r, c) ∈ route.primes
    · obtain ⟨c, visited⟩ := visited
      exact ⟨c, (swapped r c).mpr (Or.inl visited)⟩
    · obtain ⟨apart, unlifted⟩ := not_or.mp ((rows r).not.mp visited)
      obtain ⟨c, starredBefore⟩ := before.resolve_left apart
      exact ⟨c, (swapped r c).mpr (Or.inr ⟨starredBefore, fun lifted => unlifted ⟨c, lifted⟩⟩)⟩

theorem swapped_columns (b after : Board α) (row col : Nat) (route : Route)
    (alternating : b.Alternating row col route) (swapped : b.Swapped after route) :
    ∃ last, (∀ r, ¬ b.Starred r last) ∧
      ∀ c, (∃ r, after.Starred r c) ↔ c = last ∨ ∃ r, b.Starred r c := by
  obtain ⟨last, columns, starless⟩ := alternating.columns
  refine ⟨last, starless, fun c => ?_⟩
  have columns := fun c => congrArg (c ∈ ·) columns
  simp only [List.mem_map, Prod.exists, exists_eq_right, List.mem_append, List.mem_singleton,
    eq_iff_iff] at columns
  constructor
  · rintro ⟨r, starredThen⟩
    rcases (swapped r c).mp starredThen with visited | ⟨starredBefore, _⟩
    · rcases (columns c).mp ⟨r, visited⟩ with ⟨r', lifted⟩ | same
      · exact Or.inr ⟨r', alternating.starred (r', c) lifted⟩
      · exact Or.inl same
    · exact Or.inr ⟨r, starredBefore⟩
  · intro before
    by_cases visited : ∃ r, (r, c) ∈ route.primes
    · obtain ⟨r, visited⟩ := visited
      exact ⟨r, (swapped r c).mpr (Or.inl visited)⟩
    · obtain ⟨unlifted, apart⟩ := not_or.mp ((columns c).not.mp visited)
      obtain ⟨r, starredBefore⟩ := before.resolve_left apart
      exact ⟨r, (swapped r c).mpr (Or.inr ⟨starredBefore, fun lifted => unlifted ⟨r, lifted⟩⟩)⟩

theorem swapped_flipped (b after : Board α) (row col : Nat) (route : Route)
    (alternating : b.Alternating row col route) (swapped : b.Swapped after route)
    (independent : after.Independent) (sized : after.Sized) : b.Flipped after row where
  toIndependent := independent
  sized := sized
  origin := swapped_origin b after row col route alternating swapped
  starredRows := swapped_rows b after row col route alternating swapped
  starredColumns := by
    obtain ⟨last, _, columns⟩ := swapped_columns b after row col route alternating swapped
    exact fun c starred => (columns c).mpr (Or.inr starred)

variable [Cost α]

theorem disciplined_walking (b : Board α) (row col : Nat) (disciplined : b.Disciplined)
    (primed : b.Primed row col) (starless : ∀ c, ¬ b.Starred row c) :
    ∃ rank, b.Walking rank row col ∧ rank row ≤ b.coveredRows.card := by
  obtain ⟨rank, bounded, falls⟩ := disciplined.ranked
  have covered : ∀ r c other, b.Primed r c → b.Starred other c → b.RowCovered other := by
    intro r c other primedHere starred
    by_contra uncovered
    exact disciplined.primeOpen r c primedHere
      ((disciplined.columnCover c).mpr ⟨other, starred, uncovered⟩)
  refine ⟨fun r => min (rank r) b.coveredRows.card,
    ⟨disciplined.toIndependent, disciplined.sized, primed, starless, ?partner, ?falls⟩,
    Nat.min_le_right _ _⟩
  case partner =>
    intro r c other primedHere starred
    exact ((disciplined.rowCover other).mp (covered r c other primedHere starred)).2
  case falls =>
    intro r c other primedHere _ starred
    have low := bounded other (covered r c other primedHere starred)
    have lower := falls r c other primedHere starred
    simp only [lt_min_iff, min_lt_iff]
    exact ⟨Or.inl lower, Or.inl low⟩

theorem route_outcome (b : Board α) (row col : Nat) (disciplined : b.Disciplined)
    (primed : b.Primed row col) (starless : ∀ c, ¬ b.Starred row c) :
    ∃ route after, b.route row col = .ok (route, after) ∧ b.Alternating row col route ∧
      b.Swapped after route ∧ after.Fresh ∧ after.rows = b.rows ∧ after.cols = b.cols ∧
      after.costs = b.costs := by
  obtain ⟨rank, walking, low⟩ := disciplined_walking b row col disciplined primed starless
  have few : b.coveredRows.card ≤ b.rows := by
    simpa [coveredRows] using Finset.card_filter_le (Finset.range b.rows) b.RowCovered
  have enough : rank row < b.pathBound := by
    have wide : b.rows * 1 ≤ b.rows * b.cols := Nat.mul_le_mul_left _ (by have := primed.2.1; omega)
    rw [pathBound, disciplined.sized.stars]
    omega
  obtain ⟨visited, stars, routed, alternating, swapped, independent, sizedThen, _⟩ :=
    route_from rank b.pathBound b row col walking enough
  have sized : Sized ({ b with stars } : Board α).erasePrimes.uncoverRows :=
    ⟨sizedThen.costs, sizedThen.stars, by simpa [erasePrimes, uncoverRows] using sizedThen.primes,
      by simpa [erasePrimes, uncoverRows] using sizedThen.rowCover, sizedThen.columnCover⟩
  refine ⟨visited, ({ b with stars } : Board α).erasePrimes.uncoverRows, ?routed, alternating,
    swapped, ⟨⟨⟨independent.rowOnce, independent.columnOnce⟩, sized, ?starZero⟩, ?unprimed,
    ?uncovered⟩, rfl, rfl, rfl⟩
  case routed => simp [route, routed]
  case starZero =>
    intro r c starred
    cases swapped_origin b _ row col visited alternating swapped r c starred with
    | inl before => exact disciplined.starZero r c before
    | inr primedBefore => exact disciplined.primeZero r c primedBefore
  case unprimed => exact fun r c => nothing_marked b.rows b.cols b.primes r c
  case uncovered => exact fun r => flag_cleared b.rowCover r

theorem flip_outcome (b : Board α) (row col : Nat) (disciplined : b.Disciplined)
    (primed : b.Primed row col) (starless : ∀ c, ¬ b.Starred row c) :
    ∃ after, b.flip row col = .ok after ∧ after.Fresh ∧ b.Flipped after row ∧ after.rows = b.rows ∧
      after.cols = b.cols ∧ after.costs = b.costs := by
  obtain ⟨visited, after, routed, alternating, swapped, fresh, frame⟩ :=
    route_outcome b row col disciplined primed starless
  refine ⟨after, ?flipped, fresh, swapped_flipped b after row col visited alternating swapped
    fresh.toIndependent fresh.sized, frame⟩
  rw [route_flips, routed]
  rfl

theorem flipped_count (b after : Board α) (row : Nat) (matched : b.Matched)
    (flipped : b.Flipped after row) (starless : ∀ c, ¬ b.Starred row c) :
    after.starCount = b.starCount + 1 := by
  have grown : after.starredRows = insert row b.starredRows := by
    ext r
    rw [starred_row, flipped.starredRows r, Finset.mem_insert, starred_row]
  have fresh : row ∉ b.starredRows := by
    rw [starred_row]
    exact fun ⟨c, starred⟩ => starless c starred
  rw [star_count_rows after flipped.sized flipped.toIndependent,
    star_count_rows b matched.sized matched.toIndependent, grown,
    Finset.card_insert_of_notMem fresh]

end LinearAssignment.Board
