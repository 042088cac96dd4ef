import Rally.Proofs.Arena.Observers
import Rally.Proofs.Arena.Uses
import Rally.Proofs.Scalar.Order

/-! Triggers. A paddle has one for each of the positive distances it was built with, however they
are listed. They are numbered from the outermost one on, and from one to the next no edge lies
farther out, whatever becomes of the paddle. -/
namespace Rally

open Scalar

/-! Boxes in front of a face. -/

namespace Box
variable {c c' h y g : Scalar} {a : ℝ}

/-- A box whose center is farther along the x axis has its edges no less far along. -/
theorem around_mono (hh : h.Is a) (hc : c ≤ c') :
    (around ⟨c, y⟩ ⟨h, g⟩).low.x ≤ (around ⟨c', y⟩ ⟨h, g⟩).low.x ∧
      (around ⟨c, y⟩ ⟨h, g⟩).high.x ≤ (around ⟨c', y⟩ ⟨h, g⟩).high.x :=
  ⟨least_le_least (hh.rises_sub.le hc) (hh.rises_add_right.le hc),
    greatest_le_greatest (hh.rises_sub.le hc) (hh.rises_add_right.le hc)⟩

/-- How far a box extends along the y axis has nothing to do with the x axis. -/
theorem around_y {c d h g : Vec} (hc : c.y = d.y) (hh : h.y = g.y) :
    (around c h).low.y = (around d g).low.y ∧ (around c h).high.y = (around d g).high.y := by
  have hlow : (c - h).y = (d - g).y := congrArg₂ (· - ·) hc hh
  have hhigh : (c + h).y = (d + g).y := congrArg₂ (· + ·) hc hh
  exact ⟨congrArg₂ least hlow hhigh, congrArg₂ greatest hlow hhigh⟩

end Box

/-- From the first box to the second no edge across the x axis moves outward, away from the goal of
this side. -/
def Side.Inward (side : Side) (b c : Box) : Prop :=
  match side with
  | .left => c.low.x ≤ b.low.x ∧ c.high.x ≤ b.high.x
  | .right => b.low.x ≤ c.low.x ∧ b.high.x ≤ c.high.x

namespace Paddle
variable (p : Paddle) {side : Side} {params : Params} {offset inner : Scalar}

/-- Where the face lies along the x axis. -/
def face : Scalar := p.position.x + p.facing * p.size.x / 2

/-- Where the middle of a trigger lies along the x axis. -/
def middle (offset : Scalar) : Scalar := p.face + p.facing * (offset + p.triggerThickness / 2)

/-- The trigger at some distance from the face. -/
def volume (offset : Scalar) : Box :=
  .around ⟨p.middle offset, p.position.y⟩ ⟨p.triggerThickness / 2, p.size.y / 2⟩

theorem triggers_eq : p.triggers =
    p.triggerOffsets.mapIdx fun level offset => ⟨level % 256, p.volume offset⟩ := rfl

variable {p}

/-- The triggers extend as far along the y axis as the paddle does. -/
theorem y_of_mem_triggers {t : Trigger} (ht : t ∈ p.triggers) :
    t.bounds.low.y = p.body.low.y ∧ t.bounds.high.y = p.body.high.y := by
  rw [triggers_eq] at ht
  obtain ⟨level, hlevel, rfl⟩ := List.mem_mapIdx.mp ht
  exact Box.around_y rfl rfl

/-- A trigger at a smaller distance lies no farther out. The face has to lie at a finite place,
since an infinite one and an infinite distance may cancel out. -/
theorem volume_inward (hface : p.face.isFinite = true) (hthick : p.triggerThickness.isFinite = true)
    (h : inner ≤ offset) : p.side.Inward (p.volume offset) (p.volume inner) := by
  have hface := is_toReal hface
  have hthick := is_toReal hthick
  have hhalf := hthick.div is_two two_ne_zero (hthick.fits.mono (by
    rw [abs_div, abs_two]
    linarith [abs_nonneg p.triggerThickness.toReal]))
  have hreach := hhalf.rises_add_right.le h
  unfold Side.Inward
  split
  · rename_i hside
    have hmiddle : p.middle inner ≤ p.middle offset := by
      unfold middle facing
      rw [hside]
      exact hface.rises_add_left.le ((is_one.rises_mul zero_lt_one).le hreach)
    exact Box.around_mono hhalf hmiddle
  · rename_i hside
    have hmiddle : p.middle offset ≤ p.middle inner := by
      unfold middle facing
      rw [hside]
      exact hface.rises_add_left.le (neg_one_mul_le hreach)
    exact Box.around_mono hhalf hmiddle

/-! Offsets. -/

theorem triggerOffsets_perm (side : Side) (params : Params) :
    (ofParams side params).triggerOffsets.Perm (params.triggerOffsets.filter (0 < ·)) :=
  List.mergeSort_perm ..

theorem triggerOffsets_sorted (side : Side) (params : Params) :
    (ofParams side params).triggerOffsets.Pairwise fun a b => b ≤ a := by
  have hpos : ∀ a ∈ (ofParams side params).triggerOffsets, 0 < a := fun a ha => by
    simpa using (List.mem_filter.mp ((triggerOffsets_perm side params).mem_iff.mp ha)).2
  have hrank : (ofParams side params).triggerOffsets.Pairwise fun a b => b.rank ≤ a.rank := by
    refine (List.pairwise_mergeSort ?_ ?_ _).imp (by simp)
    · intro a b c hab hbc
      simp only [decide_eq_true_eq] at hab hbc ⊢
      omega
    · intro a b
      simp only [Bool.or_eq_true, decide_eq_true_eq]
      omega
  exact hrank.imp_of_mem fun ha hb => le_of_rank_le (hpos _ ha) (hpos _ hb)

/-! Paddles as they were built. -/

/-- A paddle as it was built, but for how far it has come and the way that it goes. -/
def Built (side : Side) (params : Params) (p : Paddle) : Prop :=
  ∃ y direction, p = { ofParams side params with
    position := { (ofParams side params).position with y }
    direction }

theorem built_ofParams (side : Side) (params : Params) : (ofParams side params).Built side params :=
  ⟨(ofParams side params).position.y, (ofParams side params).direction, rfl⟩

namespace Built
variable (h : p.Built side params)
include h

theorem steer (direction : Int8) : (p.steer direction).Built side params := by
  obtain ⟨y, _, rfl⟩ := h
  exact ⟨y, _, rfl⟩

theorem move (y : Scalar) : Built side params { p with position := { p.position with y } } := by
  obtain ⟨_, direction, rfl⟩ := h
  exact ⟨y, direction, rfl⟩

theorem side_eq : p.side = side := by
  obtain ⟨y, direction, rfl⟩ := h
  cases side <;> rfl

theorem triggerThickness_eq : p.triggerThickness = params.triggerThickness := by
  obtain ⟨y, direction, rfl⟩ := h
  rfl

theorem triggerOffsets_eq : p.triggerOffsets = (ofParams side params).triggerOffsets := by
  obtain ⟨y, direction, rfl⟩ := h
  rfl

theorem face_eq : p.face = (ofParams side params).face := by
  obtain ⟨y, direction, rfl⟩ := h
  simp only [face, facing]

theorem triggers_level (hcount : params.triggerOffsets.countP (0 < ·) ≤ 256) :
    p.triggers.map Trigger.level = List.range (params.triggerOffsets.countP (0 < ·)) := by
  have hlength : p.triggerOffsets.length = params.triggerOffsets.countP (0 < ·) := by
    rw [h.triggerOffsets_eq, List.countP_eq_length_filter]
    exact (triggerOffsets_perm side params).length_eq
  refine List.ext_getElem (by simpa [triggers_eq] using hlength) fun i hi hi' => ?_
  have hlt : i < 256 := by
    rw [List.length_range] at hi'
    omega
  simp [triggers_eq, Nat.mod_eq_of_lt hlt]

theorem triggers_surface (hcount : params.triggerOffsets.countP (0 < ·) ≤ 256) :
    p.triggers.map (fun t => Surface.trigger p.side t.level) =
      (List.range (params.triggerOffsets.countP (0 < ·))).map (Surface.trigger side) := by
  rw [← h.triggers_level hcount, List.map_map, h.side_eq]
  rfl

theorem triggers_bounds : (p.triggers.map Trigger.bounds).Perm
    ((params.triggerOffsets.filter (0 < ·)).map p.volume) := by
  have hbounds : p.triggers.map Trigger.bounds = p.triggerOffsets.map p.volume := by
    refine List.ext_getElem (by simp [triggers_eq]) fun i hi hi' => ?_
    simp [triggers_eq]
  rw [hbounds, h.triggerOffsets_eq]
  exact (triggerOffsets_perm side params).map _

theorem triggers_inward (hface : (ofParams side params).face.isFinite = true)
    (hthick : params.triggerThickness.isFinite = true) :
    p.triggers.Pairwise fun t u => side.Inward t.bounds u.bounds := by
  have hsorted := triggerOffsets_sorted side params
  rw [← h.triggerOffsets_eq, List.pairwise_iff_getElem] at hsorted
  rw [← h.face_eq] at hface
  rw [← h.triggerThickness_eq] at hthick
  rw [← h.side_eq, List.pairwise_iff_getElem]
  intro i j hi hj hij
  simp only [triggers_eq, List.length_mapIdx] at hi hj
  simp only [triggers_eq, List.getElem_mapIdx]
  exact volume_inward hface hthick (hsorted i j hi hj hij)

end Built
end Paddle

/-! Both paddles. -/

namespace Arena
variable {params : Params} {a b : Arena} {side : Side} {u : Use} {us : List Use}

theorem built_use (ha : ∀ side, (a.paddles.get side).Built side params) (h : a.use u = .ok b) :
    ∀ side, (b.paddles.get side).Built side params := by
  refine use_paddles (T := fun _ => True) (fun direction hp => hp.steer direction)
    (fun _ => trivial) ?_ (fun _ _ => trivial) ha h
  intro a seconds _ ha side
  obtain ⟨y, hy⟩ := (Moved.sweep a seconds).paddles side
  rw [hy]
  exact (ha side).move y

theorem built_useAll (h : (ofParams params).useAll us = .ok a) (side : Side) :
    (a.paddles.get side).Built side params := by
  refine useAll_invariant (P := fun _ => True) (fun _ ha hb => built_use ha hb) (fun _ _ => trivial)
    ?_ h side
  intro side
  cases side <;> exact Paddle.built_ofParams _ params

/-- The triggers of both paddles, as the ball can reach them. -/
theorem surfaces_ofTrigger (a : Arena) : (a.surfaces.map Prod.fst).filter Surface.ofTrigger =
    a.paddles.left.triggers.map (fun t => .trigger a.paddles.left.side t.level) ++
      a.paddles.right.triggers.map fun t => .trigger a.paddles.right.side t.level := by
  simp [surfaces, Paddle.surfaces, Surface.ofTrigger, List.filter_map, Function.comp_def]

/-- No two triggers in an arena are the same surface. -/
theorem nodup_ofTrigger (hcount : params.triggerOffsets.countP (0 < ·) ≤ 256)
    (h : ∀ side, (a.paddles.get side).Built side params) :
    ((a.surfaces.map Prod.fst).filter Surface.ofTrigger).Nodup := by
  have hleft : a.paddles.left.Built .left params := h .left
  have hright : a.paddles.right.Built .right params := h .right
  have hnodup : ∀ side, ((List.range (params.triggerOffsets.countP (0 < ·))).map
      (Surface.trigger side)).Nodup := fun side =>
    List.nodup_range.map fun i j hij => (Surface.trigger.inj hij).2
  rw [surfaces_ofTrigger, hleft.triggers_surface hcount, hright.triggers_surface hcount]
  refine (hnodup .left).append (hnodup .right) fun x hx hy => ?_
  obtain ⟨i, -, rfl⟩ := List.mem_map.mp hx
  obtain ⟨j, -, hij⟩ := List.mem_map.mp hy
  cases hij

/-- Whatever is done with an arena, each of its triggers is told from all others by its side and
its level. A paddle has one for each of the positive distances it was built with, in whatever order
they were listed. The levels count from the outermost trigger on: from one to the next no edge
comes to lie farther out, if the face lies at a finite place, and all extend along the y axis as the
paddle does. -/
theorem triggers_in_order (side : Side) (hcount : params.triggerOffsets.countP (0 < ·) ≤ 256)
    (hthick : params.triggerThickness.isFinite = true)
    (hface : (Paddle.ofParams side params).face.isFinite = true)
    (h : (ofParams params).useAll us = .ok a) :
    ((a.surfaces.map Prod.fst).filter Surface.ofTrigger).Nodup ∧
      (a.paddles.get side).side = side ∧
      (a.paddles.get side).triggers.map Trigger.level =
        List.range (params.triggerOffsets.countP (0 < ·)) ∧
      ((a.paddles.get side).triggers.map Trigger.bounds).Perm
        ((params.triggerOffsets.filter (0 < ·)).map (a.paddles.get side).volume) ∧
      (a.paddles.get side).triggers.Pairwise (fun t u => side.Inward t.bounds u.bounds) ∧
      ∀ t ∈ (a.paddles.get side).triggers,
        t.bounds.low.y = (a.paddles.get side).body.low.y ∧
          t.bounds.high.y = (a.paddles.get side).body.high.y := by
  have hbuilt := built_useAll h side
  exact ⟨nodup_ofTrigger hcount (built_useAll h), hbuilt.side_eq, hbuilt.triggers_level hcount,
    hbuilt.triggers_bounds, hbuilt.triggers_inward hface hthick, fun _ => Paddle.y_of_mem_triggers⟩

/-- Of seven distances out of order, four are positive, one of them infinite. -/
theorem triggers_in_order_listed_anyhow :
    ∃ params us a,
      params = ({ triggerOffsets := [0.5, 1 / 0, -1, 0 / 0, 0, 2, 0.5] } : Params) ∧
      us = [Use.steer .right 1, .sweep 0.25] ∧ (ofParams params).useAll us = .ok a ∧
      a.paddles.right.position.y = 2.25 ∧
      ((a.surfaces.map Prod.fst).filter Surface.ofTrigger).Nodup ∧
      a.paddles.right.triggers.map Trigger.level = [0, 1, 2, 3] ∧
      a.paddles.right.triggers.Pairwise (fun t u => Side.right.Inward t.bounds u.bounds) := by
  obtain ⟨a, h, hy⟩ := exists_ok
    (x := (ofParams { triggerOffsets := [0.5, 1 / 0, -1, 0 / 0, 0, 2, 0.5] }).useAll
      [.steer .right 1, .sweep 0.25])
    (fun a => a.paddles.right.position.y = 2.25) (by decide +kernel)
  obtain ⟨hnodup, -, hlevel, -, hinward, -⟩ := triggers_in_order .right
    (by decide +kernel) (by decide +kernel) (by decide +kernel) h
  refine ⟨_, _, a, rfl, rfl, h, hy, hnodup, hlevel.trans ?_, hinward⟩
  decide +kernel

end Arena
end Rally
