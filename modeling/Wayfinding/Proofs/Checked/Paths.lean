import Wayfinding.Checked.Query
import Wayfinding.Proofs.Checked.Searches
import Wayfinding.Proofs.Search.Trails
import Wayfinding.Proofs.Shortening
import Wayfinding.Proofs.Sightlines

/-! Reading off a path and shortening it in machine words. Turning points lie between cells inside,
lines of sight stay within the words, and a path has at most two cells for each one inside.
-/

namespace Wayfinding.Checked

variable {e : Extent} {t : Terrain} {start goal p q : Point} {done : List Node} {m : Node}

-----------------------------------------------------------------------------------------
-- The path of a search
-----------------------------------------------------------------------------------------

/-- Steps of one sign towards an integer do not lead beyond it. -/
theorem sign_mul_between (a : Int) {k : Int} (nonneg : 0 ≤ k) (le : k ≤ a.natAbs)
    : min 0 a ≤ a.sign * k ∧ a.sign * k ≤ max 0 a := by
  rcases Int.lt_trichotomy a 0 with negative | rfl | positive
  · rw [Int.sign_eq_neg_one_of_neg negative]
    omega
  · simp
  · rw [Int.sign_eq_one_of_pos positive]
    omega

/-- Between cells inside, the turning point is found without leaving the words. -/
theorem turningPoint_eq (target : e.contains p = true) (source : e.contains q = true)
    : turningPoint p q = some (turningPoint? p q) := by
  have width := e.width_le
  have height := e.height_le
  rw [Extent.contains_iff] at target source
  have difference : (p - q).Fits := by
    constructor <;> constructor <;> simp only [Point.sub_x, Point.sub_y] <;> omega
  have sizes : InInt32 (p - q).x.natAbs ∧ InInt32 (p - q).y.natAbs := by
    constructor <;> constructor <;> simp only [Point.sub_x, Point.sub_y] <;> omega
  let k : Int := min (p - q).x.natAbs (p - q).y.natAbs
  have between := sign_mul_between (p - q).x (show 0 ≤ k by omega) (show k ≤ _ by omega)
  have beside := sign_mul_between (p - q).y (show 0 ≤ k by omega) (show k ≤ _ by omega)
  have run : ((p - q).signum.scale k).Fits := by
    constructor <;> constructor <;>
      simp only [Point.scale_x, Point.scale_y, Point.signum] <;>
      simp only [Point.sub_x, Point.sub_y] at between beside ⊢ <;> omega
  have turn : (q + (p - q).signum.scale k).Fits := by
    constructor <;> constructor <;>
      simp only [Point.add_x, Point.add_y, Point.scale_x, Point.scale_y, Point.signum] <;>
      simp only [Point.sub_x, Point.sub_y] at between beside ⊢ <;> omega
  simp only [turningPoint, Point.sub?, Point.scale?, Point.add?, checked?_of_fits difference,
    int32?_of_fits sizes.1, int32?_of_fits sizes.2, Option.bind_eq_bind, Option.bind_some,
    turningPoint?]
  split
  · rfl
  · rw [checked?_of_fits run, Option.bind_some, checked?_of_fits turn]
    rfl

/-- Walking back from a closed node comes to its end, by induction over the closed nodes. -/
theorem walkBack_eq {cameFrom : Layer t.extent (Option Point)}
    (recorded : t.Recorded start cameFrom done) (member : m ∈ done) {k : Nat}
    (enough : done.length ≤ k)
    : walkBack cameFrom k m.cell = some (Wayfinding.walkBack cameFrom k m.cell) := by
  induction recorded generalizing m k with
  | nil => cases member
  | @cons m' earlier sound recorded ih =>
      rw [List.length_cons] at enough
      rcases List.mem_cons.mp member with rfl | old
      · obtain ⟨k, rfl⟩ := Nat.exists_eq_add_of_le' (Nat.le_trans (Nat.le_add_left 1 _) enough)
        rw [walkBack, Wayfinding.walkBack, read_eq _ sound.inside none, Option.bind_eq_bind,
          Option.bind_some]
        cases sound.link with
        | root _ origin =>
            rw [origin]
            rfl
        -- The node that it was reached from had been closed before, so fewer nodes are left.
        | @bend b _ _ _ _ before link =>
            obtain ⟨_, soundB⟩ := recorded.sound before
            have rest := ih before (Nat.le_of_succ_le_succ enough)
            simp only [link, turningPoint_eq sound.inside soundB.inside, rest, Option.bind_eq_bind,
              Option.bind_some]
            rfl
      · exact ih old (Nat.le_of_succ_le enough)

theorem length_walkBack_le (cameFrom : Layer e (Option Point)) (k : Nat) (p : Point)
    : (Wayfinding.walkBack cameFrom k p).length ≤ 2 * k + 1 := by
  induction k generalizing p with
  | zero => simp [Wayfinding.walkBack]
  | succ k ih =>
      rw [Wayfinding.walkBack]
      cases cameFrom.get p none with
      | none => simp
      | some q =>
          have rest := ih q
          have turn := Option.length_toList_le (o := turningPoint? p q)
          simp only [List.cons_append, List.length_cons, List.length_append]
          omega

/-- The path of a search that has just closed a node is read off. -/
theorem path_eq {c : State t.extent} {s : Search t.extent} (follows : c.Follows s)
    (ledger : t.Ledger start goal (m :: done) s)
    : path c m.cell = some (s.path m.cell) := by
  rw [path, follows.cameFrom, walkBack_eq ledger.recorded List.mem_cons_self ledger.length_le]
  rfl

theorem length_path_lt (s : Search e) (goal : Point)
    : (s.path goal).length < 18446744073709551614 := by
  have short := length_walkBack_le s.cameFrom e.area goal
  have area := area_lt e
  rw [Search.path, List.length_reverse]
  omega

-----------------------------------------------------------------------------------------
-- Shortening
-----------------------------------------------------------------------------------------

/-- The farthest cell in sight is found where the shortened path goes on, by induction over the
places from the last one back.
-/
theorem farthest_eq (p : Point) (before cells after : List Point)
    (short : (before ++ cells).length < 18446744073709551616)
    : farthest t (before ++ cells ++ after) p before.length cells.length
      = some ((fromLast? (t.seesCell p) cells).map fun found =>
          before.length + (cells.length - found.length)) := by
  induction cells using List.reverseRecOn generalizing after with
  | nil => rfl
  | append_singleton cells q ih =>
      simp only [List.length_append, List.length_cons, List.length_nil] at short ⊢
      have place : (before ++ (cells ++ [q]) ++ after)[before.length + cells.length]? = some q := by
        simp
      rw [farthest, word64?, if_pos (by omega), Option.bind_eq_bind, Option.bind_some, place,
        Option.bind_eq_bind, Option.bind_some, obstacle_eq, Option.bind_eq_bind, Option.bind_some,
        fromLast?_concat]
      change (if t.seesCell p q = true then _ else _) = _
      cases t.seesCell p q with
      | true => simp
      | false =>
          have rest := ih (q :: after) (by simp only [List.length_append]; omega)
          simp only [List.append_assoc, List.cons_append, List.nil_append] at rest ⊢
          simp only [Bool.false_eq_true, if_false, rest, Option.map_map, Function.comp_def,
            List.length_append, List.length_cons, List.length_nil]
          congr 2
          funext found
          omega

/-- The same for the cells from the second one after a place on. -/
theorem farthest_after (kept : List Point) (a : Point) (rest : List Point)
    (short : (kept ++ a :: rest).length < 18446744073709551614)
    : farthest t (kept ++ a :: rest) a (kept.length + 2)
        ((kept ++ a :: rest).length - (kept.length + 2))
      = some ((fromLast? (t.seesCell a) rest.tail).map fun found =>
          kept.length + 2 + (rest.tail.length - found.length)) := by
  cases rest with
  | nil => simp [farthest, fromLast?]
  | cons b more =>
      have whole := farthest_eq (t := t) a (kept ++ [a, b]) more []
        (by simp only [List.length_append, List.length_cons, List.length_nil] at short ⊢; omega)
      have count : (kept ++ a :: b :: more).length - (kept.length + 2) = more.length := by
        simp only [List.length_append, List.length_cons]
        omega
      rw [count]
      simpa using whole

/-- The cells between a place and those that the shortened path goes on with are left out. -/
theorem drain_eq (kept : List Point) (a b : Point) (skipped found : List Point)
    : drain (kept ++ a :: b :: (skipped ++ found)) (kept.length + 1)
        (kept.length + 2 + ((skipped ++ found).length - found.length))
      = some (kept ++ [a] ++ found) := by
  have front : (kept ++ a :: b :: (skipped ++ found))
      = (kept ++ [a]) ++ b :: (skipped ++ found) := by
    simp
  have back : (kept ++ a :: b :: (skipped ++ found)) = (kept ++ [a] ++ b :: skipped) ++ found := by
    simp
  have dropped : kept.length + 2 + ((skipped ++ found).length - found.length)
      = (kept ++ [a] ++ b :: skipped).length := by
    simp only [List.length_append, List.length_cons, List.length_nil]
    omega
  rw [drain, if_pos (by simp only [List.length_append, List.length_cons]; omega)]
  congr 2
  · rw [front]
    exact List.take_left' (by simp)
  · rw [dropped, back, List.drop_left]

theorem fromFarthest_eq_getD (sees : Point → Point → Bool) (a : Point) (rest : List Point)
    : fromFarthest sees a rest = (fromLast? (sees a) rest.tail).getD rest := by
  cases rest <;> rfl

/-- Shortening a path from a place on leaves what is before it, by induction over the steps. -/
theorem smoothFrom_eq {steps : Nat} (kept cells : List Point) (enough : cells.length < steps)
    (short : (kept ++ cells).length < 18446744073709551614)
    : smoothFrom t steps kept.length (kept ++ cells)
      = some (kept ++ shorten t.seesCell cells) := by
  induction steps generalizing kept cells with
  | zero => omega
  | succ steps ih =>
      rw [smoothFrom]
      cases cells with
      | nil => simp [shorten]
      | cons a rest =>
          have after := farthest_after (t := t) kept a rest short
          simp only [List.length_append, List.length_cons] at enough short
          have on {l : List Point} (fewer : l.length ≤ rest.length)
              : smoothFrom t steps (kept.length + 1) (kept ++ [a] ++ l)
                = some (kept ++ a :: shorten t.seesCell l) := by
            have further := ih (kept ++ [a]) l (by omega)
              (by simp only [List.length_append, List.length_cons, List.length_nil]; omega)
            simpa using further
          have place : (kept ++ a :: rest)[kept.length]? = some a := by simp
          rw [if_pos (by simp), shorten, fromFarthest_eq_getD]
          simp only [place, word64?, if_pos (show kept.length + 1 < 18446744073709551616 by omega),
            if_pos (show kept.length + 2 < 18446744073709551616 by omega), Option.bind_eq_bind,
            Option.bind_some, after]
          cases seen : fromLast? (t.seesCell a) rest.tail with
          | none => simpa using on (Nat.le_refl rest.length)
          | some found =>
              obtain ⟨skipped, _, _, split, _, _⟩ := fromLast?_eq_some seen
              cases rest with
              | nil => simp [fromLast?] at seen
              | cons b more =>
                  rw [List.tail_cons] at split
                  subst split
                  simp only [List.tail_cons, Option.map_some, drain_eq, Option.bind_some,
                    Option.getD_some]
                  exact on (by simp only [List.length_cons, List.length_append]; omega)

theorem smooth_eq {path : List Point} (short : path.length < 18446744073709551614)
    : smooth t path = some (t.smooth path) := by
  exact smoothFrom_eq [] path (Nat.lt_succ_self _) short

end Wayfinding.Checked
