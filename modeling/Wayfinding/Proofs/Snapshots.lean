import Wayfinding.Proofs.Json.Records
import Wayfinding.Snapshot

/-! A map that is saved can be loaded again. The text says which cells are blocked, row by row, and
nothing about how they came to be: maps with the same size, obstacles and settings are saved as the
same text.
-/

namespace Wayfinding

open Json

-----------------------------------------------------------------------------------------
-- Snapshots as values
-----------------------------------------------------------------------------------------

namespace Snapshot

theorem named (s : Snapshot)
    : Named ["width", "height", "obstacles", "config"]
        [("width", .ofInt s.width), ("height", .ofInt s.height),
          ("obstacles", .array (s.obstacles.map Point.toJson)), ("config", s.settings.toJson)] :=
  ⟨rfl, by simp [Plain], by decide⟩

theorem wellFormed_toJson (s : Snapshot) : s.toJson.WellFormed := by
  have obstacles : (Value.array (s.obstacles.map Point.toJson)).WellFormed :=
    .array (List.forall_mem_map.mpr fun p _ => p.wellFormed_toJson)
  refine s.named.wellFormed ?_
  simp [Value.wellFormed_ofInt, Settings.wellFormed_toJson, obstacles]

/-- A snapshot with integers of 32 bits is read as it is but for the offset of its settings, with
which it is read or refused.
-/
theorem ofJson?_toJson {s : Snapshot} (width : InInt32 s.width) (height : InInt32 s.height)
    (obstacles : ∀ p ∈ s.obstacles, p.Fits)
    : Snapshot.ofJson? s.toJson
      = (singleValue? (.ofSingle s.settings.cornerOffset)).map fun offset =>
          { s with settings := { s.settings with cornerOffset := offset } } := by
  have points := list?_map fun p hp => Point.ofJson?_toJson (obstacles p hp)
  rw [Snapshot.ofJson?, Snapshot.toJson, s.named.fields?]
  simp only [List.map_cons, List.map_nil, required?, optional?, int32Value?_ofInt width,
    int32Value?_ofInt height, points, s.settings.ofJson?_toJson]
  cases singleValue? (.ofSingle s.settings.cornerOffset) <;> rfl

end Snapshot

namespace GridMap

variable {m other : GridMap}

-----------------------------------------------------------------------------------------
-- Maps from their obstacles
-----------------------------------------------------------------------------------------

/-- Cells inside are all accepted, by induction over them. -/
theorem forM_checkInside {cells : List Point} (inside : ∀ p ∈ cells, m.extent.contains p = true)
    : cells.forM m.checkInside = .ok () := by
  induction cells with
  | nil => rfl
  | cons p cells ih =>
      have accepted : m.checkInside p = .ok () := if_pos (inside p List.mem_cons_self)
      rw [List.forM, accepted]
      exact ih fun q hq => inside q (List.mem_cons_of_mem p hq)

/-- Exactly the listed cells are blocked, by induction over them. -/
theorem get_foldl_set {e : Extent} (cells : List Point) (l : Layer e Bool) (q : Point)
    : (cells.foldl (fun l p => l.set p true) l).get q true
      = if q ∈ cells ∧ e.contains q = true then true else l.get q true := by
  induction cells generalizing l with
  | nil => simp
  | cons p cells ih =>
      rw [List.foldl_cons, ih, Layer.get_set]
      by_cases inside : e.contains q = true
      · by_cases later : q ∈ cells
        · simp [inside, later]
        · simp [inside, later, eq_comm]
      · simp [inside]

/-- The obstacles of a map determine its blocked cells. -/
theorem foldl_obstacles (m : GridMap)
    : m.terrain.obstacles.foldl (fun l p => l.set p true) (Layer.fill m.extent false)
      = m.blocked := by
  refine Layer.ext_get true fun p inside => ?_
  rw [get_foldl_set, Layer.get_fill, if_pos inside]
  have listed : p ∈ m.terrain.obstacles ↔ m.blocked.get p true = true := by
    simp [Terrain.obstacles, Terrain.walkable, terrain, Extent.mem_points, inside]
  cases blocked : m.blocked.get p true with
  | true => exact if_pos ⟨listed.mpr blocked, inside⟩
  | false =>
      refine if_neg fun both => ?_
      rw [listed.mp both.1] at blocked
      cases blocked

/-- The snapshot of a map describes the map itself, with nothing marked and no query before. -/
theorem toMap_snapshot (m : GridMap)
    : m.snapshot.toMap
      = .ok { m with components := none, start := none, goal := none, latestPath := [] } := by
  have size : Extent.ofSize? m.extent.width m.extent.height = some m.extent :=
    dif_pos ⟨m.extent.width_pos, m.extent.height_pos, m.extent.width_le, m.extent.height_le⟩
  let blank : GridMap :=
    ⟨m.extent, .fill m.extent false, m.settings, none, none, none, []⟩
  have created : create m.extent.width m.extent.height m.settings = .ok blank := by
    rw [create, size]
  have accepted : m.terrain.obstacles.forM blank.checkInside = .ok () :=
    forM_checkInside fun p hp => Extent.mem_points.mp (List.mem_filter.mp hp).1
  have blocked : blank.blockAll m.terrain.obstacles
      = (.ok (), { blank with blocked := m.blocked }) := by
    rw [blockAll, accepted, ← m.foldl_obstacles]
  exact ofObstacles_eq_ok.mpr ⟨blank, created, blocked⟩

/-- The same size, obstacles and settings make for the same snapshot. -/
theorem snapshot_eq (width : other.extent.width = m.extent.width)
    (height : other.extent.height = m.extent.height)
    (walkable : ∀ p, other.walkable p = m.walkable p) (settings : other.settings = m.settings)
    : other.snapshot = m.snapshot := by
  have point : other.extent.point = m.extent.point := by
    funext i
    rw [Extent.point, Extent.point, width]
  have points : other.extent.points = m.extent.points := by
    rw [Extent.points, Extent.points, Extent.area, Extent.area, width, height, point]
  have obstacles : other.terrain.obstacles = m.terrain.obstacles := by
    have same : other.terrain.walkable = m.terrain.walkable := funext walkable
    unfold Terrain.obstacles
    rw [same]
    exact congrArg _ points
  rw [snapshot, snapshot, width, height, settings, obstacles]

-----------------------------------------------------------------------------------------
-- Saving and loading
-----------------------------------------------------------------------------------------

/-- Every integer in the snapshot of a map has 32 bits, so nothing of it but the offset can be lost.
-/
theorem ofJson?_toJson_snapshot (m : GridMap)
    : Snapshot.ofJson? m.snapshot.toJson
      = (singleValue? (.ofSingle m.settings.cornerOffset)).map fun offset =>
          (m.configure { m.settings with cornerOffset := offset }).snapshot := by
  have widthPos := m.extent.width_pos
  have heightPos := m.extent.height_pos
  have widthLe := m.extent.width_le
  have heightLe := m.extent.height_le
  refine Snapshot.ofJson?_toJson ⟨?_, widthLe⟩ ⟨?_, heightLe⟩ ?_
  · simp only [snapshot]
    omega
  · simp only [snapshot]
    omega
  · intro p hp
    have inside : m.extent.contains p = true := Extent.mem_points.mp (List.mem_filter.mp hp).1
    rw [Extent.contains_iff] at inside
    unfold Point.Fits InInt32
    omega

theorem ofJson?_snapshot
    (offset : singleValue? (.ofSingle m.settings.cornerOffset) = some m.settings.cornerOffset)
    : Snapshot.ofJson? m.snapshot.toJson = some m.snapshot := by
  rw [ofJson?_toJson_snapshot, offset]
  rfl

/-- A map whose offset is not lost in decimals is loaded as it was saved, less the marked parts and
what queries left behind. Its text depends on the size, the obstacles and the settings alone, so
the loaded map is saved as the same text.
-/
theorem load_save
    (reads : readWhole? singleValue? (Value.ofSingle m.settings.cornerOffset).text
      = some m.settings.cornerOffset)
    : load m.save
        = .ok { m with components := none, start := none, goal := none, latestPath := [] }
      ∧ (∀ loaded, load m.save = .ok loaded → loaded.save = m.save)
      ∧ ∀ other : GridMap,
          other.extent.width = m.extent.width → other.extent.height = m.extent.height
          → (∀ p, other.walkable p = m.walkable p) → other.settings = m.settings
          → other.save = m.save := by
  rw [readWhole?_text (Value.wellFormed_ofSingle _)] at reads
  have loads : load m.save
      = .ok { m with components := none, start := none, goal := none, latestPath := [] } := by
    rw [load, save, Value.text, String.toList_ofList, take?_chars m.snapshot.wellFormed_toJson]
    simp only [ofJson?_snapshot reads, toMap_snapshot]
    rfl
  refine ⟨loads, ?_, ?_⟩
  · intro loaded found
    rw [loads] at found
    cases found
    rfl
  · intro other width height walkable settings
    rw [save, save, snapshot_eq width height walkable settings]

/-- A map with a marked part, a blocked cell and the remains of a query. -/
def pebble : GridMap where
  extent := ⟨⟨2, 1⟩, by decide, by decide, by decide, by decide⟩
  blocked := (Layer.fill _ false).set ⟨1, 0⟩ true
  settings := { smooth := false, cornerOffset := 0.1 }
  components := some ⟨1, (Layer.fill _ 0).set ⟨0, 0⟩ 1⟩
  start := some ⟨0, 0⟩
  goal := some ⟨0, 0⟩
  latestPath := [⟨0, 0⟩]

theorem load_save_pebble
    : readWhole? singleValue? (Value.ofSingle pebble.settings.cornerOffset).text
          = some pebble.settings.cornerOffset
      ∧ load pebble.save
        = .ok { pebble with components := none, start := none, goal := none, latestPath := [] }
      ∧ (∀ loaded, load pebble.save = .ok loaded → loaded.save = pebble.save)
      ∧ ∀ other : GridMap,
          other.extent.width = pebble.extent.width → other.extent.height = pebble.extent.height
          → (∀ p, other.walkable p = pebble.walkable p) → other.settings = pebble.settings
          → other.save = pebble.save := by
  have reads : readWhole? singleValue? (Value.ofSingle pebble.settings.cornerOffset).text
      = some pebble.settings.cornerOffset := by decide +kernel
  exact ⟨reads, load_save reads⟩

end GridMap

end Wayfinding
