import Wayfinding.Drawing
import Wayfinding.Proofs.Snapshots
import Wayfinding.Proofs.Text.Lines

/-! Drawings read and written. A map can be read from rows exactly if they have the size of an
extent and show nothing but obstacles and open cells; then it is drawn as these rows again, and a
map that is drawn without a path is read as it was. A path changes a drawing at the places of its
walkable cells alone.
-/

namespace Wayfinding

-----------------------------------------------------------------------------------------
-- Sizes, and rows of one width
-----------------------------------------------------------------------------------------

namespace Extent

variable {e : Extent}

theorem ofSize?_eq_some {width height : Int}
    : ofSize? width height = some e ↔ e.width = width ∧ e.height = height := by
  constructor
  · intro h
    rw [ofSize?] at h
    split at h
    · cases h
      exact ⟨rfl, rfl⟩
    · cases h
  · rintro ⟨rfl, rfl⟩
    exact dif_pos ⟨e.width_pos, e.height_pos, e.width_le, e.height_le⟩

/-- The cells inside have coordinates that are not negative. -/
theorem exists_nat {p : Point} (inside : e.contains p = true) : ∃ x y : Nat, p = ⟨x, y⟩ := by
  obtain ⟨west, _, north, _⟩ := contains_iff.mp inside
  exact ⟨p.x.toNat, p.y.toNat, Point.ext (Int.toNat_of_nonneg west).symm
    (Int.toNat_of_nonneg north).symm⟩

/-- The rows of an extent have every cell inside in the column and the row of its coordinates. -/
theorem getElem?_rows (e : Extent) (x y : Nat)
    : e.rows[y]?.bind (·[x]?) = if e.contains ⟨x, y⟩ then some ⟨x, y⟩ else none := by
  have inside : e.contains ⟨x, y⟩ = true ↔ x < e.width.toNat ∧ y < e.height.toNat := by
    rw [contains_iff]
    dsimp only
    omega
  by_cases row : y < e.height.toNat
  · by_cases column : x < e.width.toNat <;> simp [rows, inside, row, column]
  · simp [rows, inside, row]

end Extent

namespace Drawing

variable {α β : Type} {e : Extent} {m : GridMap} {rows : List (List Char)} {p : Point}

theorem getElem?_map_rows (f : α → β) (rows : List (List α)) (x y : Nat)
    : (rows.map (List.map f))[y]?.bind (·[x]?) = (rows[y]?.bind (·[x]?)).map f := by
  rw [List.getElem?_map]
  cases rows[y]? <;> simp

theorem map_intercalate (f : α → β) (separator : List α) (ls : List (List α))
    : (separator.intercalate ls).map f = (separator.map f).intercalate (ls.map (List.map f)) := by
  induction ls with
  | nil => rfl
  | cons l ls ih =>
      cases ls with
      | nil => simp
      | cons next ls =>
          rw [List.intercalate_cons_cons, List.map_append, List.map_append, ih]
          exact List.intercalate_cons_cons.symm

/-- What rows of one width with a separator between them have at a place, by induction over the
rows: the element in its row and column, and the separator behind the last column.
-/
theorem getElem?_intercalate {rows : List (List α)} {width : Nat}
    (regular : ∀ row ∈ rows, row.length = width) (separator : α) (y : Nat) {x : Nat}
    (within : x ≤ width)
    : ([separator].intercalate rows)[y * (width + 1) + x]?
      = if x < width then rows[y]?.bind (·[x]?)
        else if y + 1 < rows.length then some separator else none := by
  induction rows generalizing y with
  | nil => simp
  | cons row rest ih =>
      have wide := regular row List.mem_cons_self
      have later := ih fun row member => regular row (List.mem_cons_of_mem _ member)
      cases rest with
      | nil =>
          rw [List.intercalate_singleton]
          cases y with
          | zero =>
              by_cases column : x < width
              · simp [column]
              · simp [column]
                omega
          | succ y =>
              have beyond : row.length ≤ (y + 1) * (width + 1) + x := by
                rw [wide, Nat.succ_mul]
                omega
              simp [beyond]
      | cons next rest =>
          rw [List.intercalate_cons_cons]
          cases y with
          | zero =>
              rcases Nat.lt_or_eq_of_le within with column | rfl
              · have first : x < row.length := wide.symm ▸ column
                rw [Nat.zero_mul, Nat.zero_add, List.append_assoc, List.getElem?_append_left first]
                simp [column]
              · simp [← wide]
          | succ y =>
              have behind : (y + 1) * (width + 1) + x
                  = (row ++ [separator]).length + (y * (width + 1) + x) := by
                rw [Nat.succ_mul, List.length_append, wide, List.length_singleton]
                omega
              rw [behind, List.getElem?_append_right (Nat.le_add_right _ _),
                Nat.add_sub_cancel_left, later]
              simp

-----------------------------------------------------------------------------------------
-- Rows that can be read
-----------------------------------------------------------------------------------------

/-- The rows have the size of an extent and show nothing but obstacles and open cells. -/
structure Legible (e : Extent) (rows : List (List Char)) : Prop where
  height : (rows.length : Int) = e.height
  width : ∀ row ∈ rows, (row.length : Int) = e.width
  symbols : ∀ row ∈ rows, ∀ c ∈ row, c = '#' ∨ c = '.'

theorem rowFault?_eq_none {width y : Nat} {row : List Char}
    : rowFault? width y row = none ↔ row.length = width ∧ ∀ c ∈ row, c = '#' ∨ c = '.' := by
  rw [rowFault?]
  split
  · rename_i wide
    simp [wide]
  · rename_i wide
    have characters : (∀ entry ∈ row.zipIdx, entry.1 = '#' ∨ entry.1 = '.')
        ↔ ∀ c ∈ row, c = '#' ∨ c = '.' := by
      have fields := List.forall_mem_map (f := Prod.fst) (l := row.zipIdx)
        (P := fun c => c = '#' ∨ c = '.')
      rw [List.zipIdx_map_fst] at fields
      exact fields.symm
    rw [Option.map_eq_none_iff, List.find?_eq_none, ← characters]
    simp [Decidable.not_not.mp wide, or_iff_not_imp_left]

/-- The character in a column and a row. -/
def shown? (rows : List (List Char)) (x y : Nat) : Option Char :=
  rows[y]?.bind (·[x]?)

/-- As many rows that show the same characters are the same. -/
theorem ext_shown? {other : List (List Char)} (height : rows.length = other.length)
    (same : ∀ x y, shown? rows x y = shown? other x y)
    : rows = other := by
  refine List.ext_getElem height fun y within otherWithin => List.ext_getElem? fun x => ?_
  simpa [shown?, within, otherWithin] using same x y

/-- The cells that rows show as obstacles. -/
def obstacles (rows : List (List Char)) : List Point :=
  rows.zipIdx.flatMap fun (row, y) => rowObstacles y row

theorem mem_obstacles
    : p ∈ obstacles rows ↔ ∃ x y : Nat, p = ⟨x, y⟩ ∧ shown? rows x y = some '#' := by
  simp only [obstacles, shown?, rowObstacles, List.mem_flatMap, List.mem_filterMap, Prod.exists,
    List.mem_zipIdx_iff_getElem?, Option.bind_eq_some_iff]
  constructor
  · rintro ⟨row, y, line, c, x, symbol, drawn⟩
    split at drawn
    · rename_i blocked
      cases drawn
      exact ⟨x, y, rfl, row, line, blocked ▸ symbol⟩
    · cases drawn
  · rintro ⟨x, y, rfl, row, line, symbol⟩
    exact ⟨row, y, line, '#', x, symbol, rfl⟩

theorem mk_mem_obstacles {x y : Nat}
    : (⟨x, y⟩ : Point) ∈ obstacles rows ↔ shown? rows x y = some '#' := by
  rw [mem_obstacles]
  constructor
  · rintro ⟨_, _, same, symbol⟩
    cases same
    exact symbol
  · exact fun symbol => ⟨x, y, rfl, symbol⟩

/-- The map of this extent with the obstacles that rows show. -/
def sketch (e : Extent) (rows : List (List Char)) : GridMap :=
  ⟨e, (obstacles rows).foldl (fun l p => l.set p true) (.fill e false), {}, none, none, none, []⟩

/-- Legible rows show nothing outside. -/
theorem Legible.contains (legible : Legible e rows) {x y : Nat} {c : Char}
    (symbol : shown? rows x y = some c)
    : e.contains ⟨x, y⟩ = true := by
  obtain ⟨row, line, place⟩ := Option.bind_eq_some_iff.mp symbol
  have height := legible.height
  have width := legible.width row (List.mem_of_getElem? line)
  have below := (List.getElem?_eq_some_iff.mp line).1
  have within := (List.getElem?_eq_some_iff.mp place).1
  rw [Extent.contains_iff]
  dsimp only
  omega

/-- Legible rows show every cell inside as an obstacle or as open. -/
theorem Legible.shown? (legible : Legible e rows) {x y : Nat} (inside : e.contains ⟨x, y⟩ = true)
    : shown? rows x y = some '#' ∨ shown? rows x y = some '.' := by
  have height := legible.height
  obtain ⟨_, within, _, below⟩ := Extent.contains_iff.mp inside
  dsimp only at within below
  have row : y < rows.length := by omega
  have line := List.getElem_mem row
  have width := legible.width _ line
  have column : x < rows[y].length := by omega
  have symbol : Drawing.shown? rows x y = some rows[y][x] := by
    simp [Drawing.shown?, row, column]
  rw [symbol]
  rcases legible.symbols _ line _ (List.getElem_mem column) with closed | free
  · exact Or.inl (congrArg some closed)
  · exact Or.inr (congrArg some free)

/-- From legible rows a map is read without a fault. -/
theorem ofRows_of_legible (legible : Legible e rows) : ofRows rows = .ok (sketch e rows) := by
  have size : Extent.ofSize? e.width e.height = some e := Extent.ofSize?_eq_some.mpr ⟨rfl, rfl⟩
  let blank : GridMap := ⟨e, .fill e false, {}, none, none, none, []⟩
  have accepted : (obstacles rows).forM blank.checkInside = .ok () :=
    GridMap.forM_checkInside fun p obstacle => by
      obtain ⟨x, y, rfl, symbol⟩ := mem_obstacles.mp obstacle
      exact legible.contains symbol
  cases rows with
  | nil =>
      have height := legible.height
      have positive := e.height_pos
      rw [List.length_nil] at height
      omega
  | cons first rest =>
      have wide := legible.width first List.mem_cons_self
      have faultless : (first :: rest).zipIdx.findSome?
          (fun (row, y) => rowFault? first.length y row) = none := by
        rw [List.findSome?_eq_none_iff]
        rintro ⟨row, y⟩ member
        have line := List.fst_mem_of_mem_zipIdx member
        have width := legible.width row line
        exact rowFault?_eq_none.mpr ⟨by omega, legible.symbols row line⟩
      have built : GridMap.ofObstacles first.length (first :: rest).length {}
          (obstacles (first :: rest)) = .ok (sketch e (first :: rest)) := by
        rw [wide, legible.height]
        refine GridMap.ofObstacles_eq_ok.mpr ⟨blank, by rw [GridMap.create, size], ?_⟩
        rw [GridMap.blockAll, accepted]
        rfl
      rw [ofRows, faultless]
      exact congrArg ReadFault.ofMap built

/-- A map is read from legible rows alone: no row has a fault, and an extent has their size. -/
theorem exists_legible (read : ofRows rows = .ok m) : ∃ e, Legible e rows := by
  cases rows with
  | nil => cases read
  | cons first rest =>
      rw [ofRows] at read
      split at read
      · cases read
      · rename_i faultless
        rw [List.findSome?_eq_none_iff] at faultless
        cases size : Extent.ofSize? first.length (first :: rest).length with
        | none =>
            rw [GridMap.ofObstacles, GridMap.create, size] at read
            cases read
        | some e =>
            obtain ⟨width, height⟩ := Extent.ofSize?_eq_some.mp size
            have regular (row : List Char) (line : row ∈ first :: rest)
                : row.length = first.length ∧ ∀ c ∈ row, c = '#' ∨ c = '.' := by
              obtain ⟨y, place⟩ := List.mem_iff_getElem?.mp line
              exact rowFault?_eq_none.mp
                (faultless (row, y) (List.mem_zipIdx_iff_getElem?.mpr place))
            refine ⟨e, height.symm, fun row line => ?_, fun row line => (regular row line).2⟩
            rw [(regular row line).1, width]

/-- A map can be read from rows exactly if they are legible, and it has the obstacles that they
show.
-/
theorem ofRows_eq_ok : ofRows rows = .ok m ↔ ∃ e, Legible e rows ∧ m = sketch e rows := by
  constructor
  · intro read
    obtain ⟨e, legible⟩ := exists_legible read
    rw [ofRows_of_legible legible] at read
    cases read
    exact ⟨e, legible, rfl⟩
  · rintro ⟨e, legible, rfl⟩
    exact ofRows_of_legible legible

-----------------------------------------------------------------------------------------
-- Rows of a map
-----------------------------------------------------------------------------------------

theorem symbol_nil (m : GridMap) (p : Point)
    : symbol m [] p = if m.walkable p then '.' else '#' := by
  cases free : m.walkable p <;> simp [symbol, free]

/-- The rows of a map show the cells inside by their symbols, and nothing else. -/
theorem shown?_rows (m : GridMap) (path : List Point) (x y : Nat)
    : shown? (Drawing.rows m path) x y
      = if m.extent.contains ⟨x, y⟩ then some (symbol m path ⟨x, y⟩) else none := by
  have drawn := getElem?_map_rows (symbol m path) m.extent.rows x y
  rw [shown?, Drawing.rows, drawn, Extent.getElem?_rows]
  split <;> rfl

theorem legible_rows (m : GridMap) : Legible m.extent (Drawing.rows m []) := by
  constructor
  · rw [Drawing.rows, List.length_map, Extent.rows, List.length_map, List.length_range]
    exact Int.toNat_of_nonneg (Int.le_of_lt m.extent.height_pos)
  · have width := Int.toNat_of_nonneg (Int.le_of_lt m.extent.width_pos)
    simpa [Drawing.rows, Extent.rows] using fun _ _ => width
  · simp [Drawing.rows, Extent.rows, symbol_nil]

/-- The cells that the rows of a map show as obstacles are its obstacles. -/
theorem mem_obstacles_rows
    : p ∈ obstacles (Drawing.rows m []) ↔ m.extent.contains p = true ∧ m.walkable p = false := by
  rw [mem_obstacles]
  constructor
  · rintro ⟨x, y, rfl, symbol⟩
    rw [shown?_rows, symbol_nil] at symbol
    split at symbol
    · rename_i inside
      refine ⟨inside, Bool.eq_false_iff.mpr fun free => ?_⟩
      rw [if_pos free] at symbol
      cases symbol
    · cases symbol
  · rintro ⟨inside, closed⟩
    obtain ⟨x, y, rfl⟩ := Extent.exists_nat inside
    exact ⟨x, y, rfl, by rw [shown?_rows, symbol_nil, if_pos inside, closed]; rfl⟩

theorem walkable_sketch
    : (sketch e rows).walkable p = true ↔ e.contains p = true ∧ p ∉ obstacles rows := by
  have closed : (sketch e rows).blocked.get p true
      = if p ∈ obstacles rows ∧ e.contains p = true then true
        else if e.contains p = true then false else true := by
    rw [sketch, GridMap.get_foldl_set, Layer.get_fill]
  have free : (sketch e rows).walkable p = !(sketch e rows).blocked.get p true := rfl
  rw [free, closed]
  by_cases inside : e.contains p = true <;> by_cases obstacle : p ∈ obstacles rows <;>
    simp [inside, obstacle]

/-- Legible rows show the cells inside as the map that is read from them does. -/
theorem Legible.rows_sketch (legible : Legible e rows)
    : Drawing.rows (sketch e rows) [] = rows := by
  have height := (legible_rows (sketch e rows)).height.trans legible.height.symm
  refine ext_shown? (Int.ofNat_inj.mp height) fun x y => ?_
  rw [shown?_rows, symbol_nil]
  change (if e.contains ⟨x, y⟩ = true then _ else _) = _
  by_cases inside : e.contains ⟨x, y⟩ = true
  · rw [if_pos inside]
    rcases legible.shown? inside with closed | free
    · rw [closed, if_neg fun free => (walkable_sketch.mp free).2 (mk_mem_obstacles.mpr closed)]
    · rw [free, if_pos (walkable_sketch.mpr ⟨inside, ?_⟩)]
      simp [mk_mem_obstacles, free]
  · have nothing : Drawing.shown? rows x y = none :=
      Option.eq_none_iff_forall_ne_some.mpr fun _ symbol => inside (legible.contains symbol)
    rw [if_neg inside, nothing]

/-- The rows of a map show its obstacles. -/
theorem sketch_rows (m : GridMap)
    : sketch m.extent (Drawing.rows m [])
      = { m with
          settings := {}, components := none, start := none, goal := none, latestPath := [] } := by
  have blocked : (sketch m.extent (Drawing.rows m [])).blocked = m.blocked := by
    refine Layer.ext_get true fun p inside => ?_
    have same : (sketch m.extent (Drawing.rows m [])).walkable p = m.walkable p := by
      change m.extent.contains p = true at inside
      rw [Bool.eq_iff_iff, walkable_sketch, mem_obstacles_rows]
      simp [inside]
    exact Bool.not_inj same
  change GridMap.mk m.extent (sketch m.extent (Drawing.rows m [])).blocked _ _ _ _ _ = _
  rw [blocked]

-----------------------------------------------------------------------------------------
-- Places in a drawing
-----------------------------------------------------------------------------------------

/-- What a drawing shows from one place to the next: the cells row by row, and nothing between rows.
-/
def frame (e : Extent) : List (Option Point) :=
  [none].intercalate (e.rows.map (List.map some))

/-- The place of a cell in a drawing, where every row before takes a line feed as well. -/
def place (e : Extent) (p : Point) : Nat :=
  p.y.toNat * (e.width.toNat + 1) + p.x.toNat

theorem toList_write (m : GridMap) (path : List Point)
    : (write m path).toList = (frame m.extent).map fun cell => cell.elim '\n' (symbol m path) := by
  rw [write, String.toList_ofList, frame, map_intercalate, List.map_map, Drawing.rows]
  congr 1
  refine List.map_congr_left fun row _ => ?_
  rw [Function.comp_apply, List.map_map]
  rfl

/-- A cell inside stands at its place, and nowhere else. -/
theorem getElem?_frame {i : Nat}
    : (frame e)[i]? = some (some p) ↔ e.contains p = true ∧ place e p = i := by
  have regular : ∀ row ∈ e.rows.map (List.map some), row.length = e.width.toNat := by
    simp [Extent.rows]
  have entry (x y : Nat) : (e.rows.map (List.map some))[y]?.bind (·[x]?)
      = if e.contains ⟨x, y⟩ then some (some ⟨x, y⟩) else none := by
    rw [getElem?_map_rows, Extent.getElem?_rows]
    split <;> rfl
  constructor
  · intro found
    obtain ⟨y, x, within, rfl⟩
        : ∃ y x, x ≤ e.width.toNat ∧ i = y * (e.width.toNat + 1) + x :=
      ⟨_, _, Nat.le_of_lt_succ (Nat.mod_lt i (Nat.succ_pos _)), (Nat.div_add_mod' i _).symm⟩
    rw [frame, getElem?_intercalate regular none y within, entry] at found
    split at found
    · split at found
      · rename_i inside
        cases found
        exact ⟨inside, rfl⟩
      · cases found
    · split at found <;> cases found
  · rintro ⟨inside, rfl⟩
    obtain ⟨x, y, rfl⟩ := Extent.exists_nat inside
    have column : x < e.width.toNat := by
      have bounds := Extent.contains_iff.mp inside
      dsimp only at bounds
      omega
    have found := getElem?_intercalate regular none y (Nat.le_of_lt column)
    rw [if_pos column, entry, if_pos inside] at found
    exact found

-----------------------------------------------------------------------------------------
-- Reading what is written
-----------------------------------------------------------------------------------------

/-- The drawing of a map without a path is read as its rows. -/
theorem trimmedLines_write (m : GridMap)
    : Text.trimmedLines (write m []).toList = Drawing.rows m [] := by
  have legible := legible_rows m
  rw [write, String.toList_ofList]
  refine Text.trimmedLines_intercalate ?_ ?_ ?_
  · intro empty
    have height := legible.height
    have positive := m.extent.height_pos
    rw [empty, List.length_nil] at height
    omega
  · rintro row member rfl
    have width := legible.width [] member
    have positive := m.extent.width_pos
    rw [List.length_nil] at width
    omega
  · intro row member c symbol
    rcases legible.symbols row member c symbol with rfl | rfl <;> decide

theorem read_write_nil (m : GridMap)
    : read (write m [])
      = .ok { m with
          settings := {}, components := none, start := none, goal := none, latestPath := [] } := by
  rw [read, trimmedLines_write, ofRows_of_legible (legible_rows m), sketch_rows]

/-- A text that can be read is drawn as its trimmed lines. -/
theorem toList_write_of_read {text : String} (found : read text = .ok m)
    : (write m []).toList = ['\n'].intercalate (Text.trimmedLines text.toList) := by
  obtain ⟨e, legible, rfl⟩ := ofRows_eq_ok.mp found
  rw [write, String.toList_ofList, legible.rows_sketch]

theorem symbol_ne_symbol_nil {path : List Point}
    : symbol m path p ≠ symbol m [] p ↔ m.walkable p = true ∧ p ∈ path := by
  rw [symbol_nil, symbol]
  cases m.walkable p <;> simp

/-- A drawing shows every cell inside at its place. -/
theorem getElem?_place (path : List Point) (inside : m.extent.contains p = true)
    : (write m path).toList[place m.extent p]? = some (symbol m path p) := by
  have cell := getElem?_frame.mpr ⟨inside, rfl⟩
  rw [toList_write, List.getElem?_map, cell]
  rfl

/-- A path changes the drawing of a map at the places of its walkable cells and nowhere else. -/
theorem write_ne_write_nil {path : List Point} {i : Nat}
    : (write m path).toList[i]? ≠ (write m []).toList[i]?
      ↔ ∃ p ∈ path, m.walkable p = true ∧ place m.extent p = i := by
  constructor
  · intro differ
    rw [toList_write, toList_write, List.getElem?_map, List.getElem?_map] at differ
    rcases cell : (frame m.extent)[i]? with _ | _ | p
    · exact absurd (by rw [cell]; rfl) differ
    · exact absurd (by rw [cell]; rfl) differ
    · have symbols : symbol m path p ≠ symbol m [] p := by simpa [cell] using differ
      obtain ⟨free, member⟩ := symbol_ne_symbol_nil.mp symbols
      exact ⟨p, member, free, (getElem?_frame.mp cell).2⟩
  · rintro ⟨p, member, free, rfl⟩ same
    have inside : m.extent.contains p = true := Terrain.contains_of_walkable free
    rw [getElem?_place path inside, getElem?_place [] inside] at same
    exact symbol_ne_symbol_nil.mpr ⟨free, member⟩ (Option.some.inj same)

/-- A map that is drawn without a path is read as it was, less its settings, the marked parts and
what queries left behind. A text that can be read is drawn as what is left of its lines without the
blanks around them, apart from blank lines. With a path, a drawing shows its walkable cells as such,
and differs from the one without it at their places alone.
-/
theorem read_write (m : GridMap)
    : read (write m [])
        = .ok { m with
            settings := {}, components := none, start := none, goal := none, latestPath := [] }
      ∧ (∀ text, read text = .ok m
          → ∃ lines inners,
              ['\n'].intercalate lines = text.toList
              ∧ (∀ l ∈ lines, '\n' ∉ l)
              ∧ List.Forall₂ Text.Trims lines inners
              ∧ (write m []).toList = ['\n'].intercalate (inners.filter fun l => !l.isEmpty))
      ∧ ∀ path,
          (∀ p, m.extent.contains p = true
            → (write m path).toList[place m.extent p]?
              = some (if m.walkable p then if p ∈ path then 'o' else '.' else '#'))
          ∧ ∀ i, (write m path).toList[i]? ≠ (write m []).toList[i]?
            ↔ ∃ p ∈ path, m.walkable p = true ∧ place m.extent p = i := by
  refine ⟨read_write_nil m, fun text found => ?_, fun path => ⟨fun p inside => ?_, fun i => ?_⟩⟩
  · obtain ⟨lines, inners, whole, parted, trims, trimmed⟩ := Text.exists_trimmedLines text.toList
    exact ⟨lines, inners, whole, parted, trims, by rw [toList_write_of_read found, trimmed]⟩
  · rw [getElem?_place path inside, symbol]
    cases m.walkable p <;> simp
  · exact write_ne_write_nil

/-- A map with an obstacle in the corner. -/
def corner : GridMap where
  extent := ⟨⟨2, 2⟩, by decide, by decide, by decide, by decide⟩
  blocked := (Layer.fill _ false).set ⟨1, 0⟩ true
  settings := {}
  components := none
  start := none
  goal := none
  latestPath := []

theorem read_write_corner
    : read (write corner []) = .ok corner
      ∧ read "\t.#\r\n\n\u3000..\n" = .ok corner
      ∧ (∃ lines inners,
          ['\n'].intercalate lines = "\t.#\r\n\n\u3000..\n".toList
          ∧ (∀ l ∈ lines, '\n' ∉ l)
          ∧ List.Forall₂ Text.Trims lines inners
          ∧ (write corner []).toList = ['\n'].intercalate (inners.filter fun l => !l.isEmpty))
      ∧ corner.walkable ⟨0, 1⟩ = true
      ∧ (write corner [⟨1, 0⟩, ⟨0, 1⟩]).toList[place corner.extent ⟨0, 1⟩]? = some 'o' := by
  obtain ⟨reads, accepts, draws⟩ := read_write corner
  have found : read "\t.#\r\n\n\u3000..\n" = .ok corner := by decide +kernel
  have free : corner.walkable ⟨0, 1⟩ = true := by decide +kernel
  have shown := (draws [⟨1, 0⟩, ⟨0, 1⟩]).1 ⟨0, 1⟩ (Terrain.contains_of_walkable free)
  rw [if_pos free, if_pos (by decide)] at shown
  exact ⟨reads, found, accepts _ found, free, shown⟩

end Drawing

end Wayfinding
