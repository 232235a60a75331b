/-
# `RigExec.Touch.Histories` — a mesh after any history

Topologies, accepted or not, points, transforms, preparations and casts come in any order.
After all of them `Prepare` leaves a tree over the current points, and a cast ends without a
read outside an array; where it can lose no triangle to the slab test, it reports what
`CastBruteForce` reports.

    condition    no triangle passes the test with a parameter that is not a number

The test rejects with `u < 0.0 || u > 1.0` and the like, so a triangle whose numbers are all
NaN passes every rejection: `t <= _kMinT || t >= tMax` is false as well.  It is reported, and
as `tMax` it lets any later triangle through.
-/
import RigExec.Touch.Casting
import Mathlib.Data.Rat.Defs
import Mathlib.Algebra.Order.Ring.Unbundled.Rat
import Mathlib.Data.Rat.Floor
import Mathlib.Data.Fin.VecNotation

namespace RigExec.Touch

open scoped RigExec.Accel
open RigExec.Accel (floatLt minOf maxOf Point)
open Lib (HasRun RunsOver Weighs Reaches runItems)

inductive Event (F R M : Type)
  | setTopology (counts indices : List Int) (pointCount : Nat)
  | setPoints (points : List (Point F))
  | setTransform (localToWorld : M)
  | prepare
  | cast (origin direction : Vec R)

/-- The faces and the corners of a topology are counted by an `int`, and its triangles have bounds
below 2 ^ 32. -/
def Event.Small {F R M : Type} : Event F R M → Prop
  | .setTopology counts indices _ => counts.length < 2 ^ 31 ∧ indices.length < 2 ^ 31 ∧
      6 * triangleCount counts ≤ 2 ^ 32
  | _ => True

section

variable {F R M : Type} [LinearOrder R]

variable {ops : Arithmetic F R M} {mesh : Mesh F R M} {bvh : Bvh F R} {o d : Vec R}

/-! ## Reports -/

/-- `r` reports the best triangle, or none. -/
def Mesh.Reports (mesh : Mesh F R M) (best : Best R) (r : Option (Nat × Option R)) : Prop :=
  best.tri = none ∧ r = none ∨ ∃ tri face, best.tri = some tri ∧
    mesh.triFace[tri]? = some face ∧ r = some (face, best.t)

omit [LinearOrder R] in
theorem report_some (h : mesh.InRange) {best : Best R} (hin : best.InMesh mesh) :
    ∃ r, mesh.report best = some r ∧ mesh.Reports best r := by
  unfold Mesh.report
  cases htri : best.tri with
  | none => exact ⟨none, rfl, Or.inl ⟨htri, rfl⟩⟩
  | some tri =>
      have hlt : tri < mesh.triFace.length := by
        rw [h.faces]
        exact hin tri htri
      have hface := List.getElem?_eq_getElem hlt
      refine ⟨some (mesh.triFace[tri], best.t), ?_, Or.inr ⟨tri, _, htri, hface, rfl⟩⟩
      dsimp only
      rw [hface, Option.map_some]

/-- A cast and the brute-force cast agree: a hit of either is at the other's parameter, which is a
number, and on the face of a triangle hit there. -/
def Mesh.Agrees (ops : Arithmetic F R M) (mesh : Mesh F R M) (o d : Vec R)
    (hit brute : Option (Nat × Option R)) : Prop :=
  hit.map Prod.snd = brute.map Prod.snd ∧
    ∀ face t, hit = some (face, t) ∨ brute = some (face, t) → t.isSome ∧
      ∃ tri, mesh.triFace[tri]? = some face ∧ mesh.parameter ops o d tri = some t

theorem agrees_of_least {best best' : Best R} {b b' : R} {r r' : Option (Nat × Option R)}
    (hat : best.At ops mesh o d b) (hleast : mesh.Least ops o d b)
    (hat' : best'.At ops mesh o d b') (hleast' : mesh.Least ops o d b')
    (hr : mesh.Reports best r) (hr' : mesh.Reports best' r') : mesh.Agrees ops o d r r' := by
  obtain ⟨rfl, hsame⟩ := hat.unique hleast hat' hleast'
  have hreport : ∀ {best : Best R} {r : Option (Nat × Option R)}, best.At ops mesh o d b →
      mesh.Reports best r → ∀ face t, r = some (face, t) → t.isSome ∧
        ∃ tri, mesh.triFace[tri]? = some face ∧ mesh.parameter ops o d tri = some t := by
    rintro best r ⟨hb, hwhich⟩ hr face t rfl
    rcases hr with ⟨-, hnone⟩ | ⟨tri, face', htri, hface, heq⟩
    · cases hnone
    · cases heq
      rcases hwhich with ⟨hnone, -⟩ | ⟨tri', -, htri', hp, -⟩
      · cases hnone.symm.trans htri
      · cases htri'.symm.trans htri
        rw [hb]
        exact ⟨rfl, tri, hface, hp⟩
  refine ⟨?_, fun face t heq => ?_⟩
  · rcases hr with ⟨hnone, rfl⟩ | ⟨tri, face, hsome, -, rfl⟩
    · rcases hr' with ⟨-, rfl⟩ | ⟨tri', face', hsome', -, -⟩
      · rfl
      · rw [hnone, hsome'] at hsame
        cases hsame
    · rcases hr' with ⟨hnone', -⟩ | ⟨tri', face', hsome', -, rfl⟩
      · rw [hsome, hnone'] at hsame
        cases hsame
      · show some best.t = some best'.t
        rw [hat.1, hat'.1]
  · rcases heq with heq | heq
    · exact hreport hat hr face t heq
    · exact hreport hat' hr' face t heq

/-! ## The casts -/

/-- **The brute-force cast ends**, in a least parameter where hits are numbers. -/
theorem castBruteForce_some (h : mesh.InRange) (hpoints : mesh.hasPoints = true)
    {origin direction : Vec R} (hray : mesh.localRay ops origin direction = some (o, d)) :
    ∃ (best : Best R) (r : Option (Nat × Option R)),
      mesh.castBruteForce ops origin direction = some r ∧ mesh.Reports best r ∧
      (mesh.HitsAreNumbers ops o d → ∃ b, best.At ops mesh o d b ∧ mesh.Least ops o d b) := by
  have hrun : ∀ tri ∈ List.range mesh.triFace.length, tri < mesh.tris.length := by
    intro tri htri
    rw [← h.faces]
    exact List.mem_range.mp htri
  obtain ⟨best, hbest, hin, hless⟩ := foldlM_tryTriangle ops o d h hpoints hrun inMesh_start
  obtain ⟨r, hr, hreport⟩ := report_some h hin
  refine ⟨best, r, ?_, hreport, fun hnumbers => ?_⟩
  · rw [Mesh.castBruteForce, hray]
    dsimp only
    rw [hbest, Option.bind_some, hr]
  · obtain ⟨b, -, hat, hall⟩ := hless hnumbers ops.dblMax at_start
    refine ⟨b, hat, fun tri htri x hx => hall tri ?_ x hx⟩
    rw [List.mem_range, h.faces]
    exact htri

theorem localRay_points {origin direction : Vec R}
    (hray : mesh.localRay ops origin direction = some (o, d)) : mesh.hasPoints = true := by
  unfold Mesh.localRay at hray
  dsimp only at hray
  split at hray
  · cases hray
  · rename_i hnot
    cases hpoints : mesh.hasPoints with
    | true => rfl
    | false => exact absurd (Or.inr hpoints) hnot

theorem castStep_nil {walk : Walk R} (h : mesh.castStep ops bvh o d walk = none) :
    walk = .fault ∨ walk = .fallback ∨ ∃ best, walk = .walking [] best := by
  cases walk with
  | fault => exact Or.inl rfl
  | fallback => exact Or.inr (Or.inl rfl)
  | walking stack best =>
      cases stack with
      | nil => exact Or.inr (Or.inr ⟨best, rfl⟩)
      | cons index stack =>
          unfold Mesh.castStep at h
          dsimp only at h
          split at h
          · cases h
          · split at h
            · cases h
            · split at h
              · cases h
              · split at h <;> cases h

variable [LinearOrder F]

/-- **A cast on a current tree** reports without a fault, and as the brute-force cast does where
hits are numbers and the slab test is sound. -/
theorem cast_of_tree (h : mesh.InRange) {part : StdPartition} {origin direction : Vec R}
    (hray : mesh.localRay ops origin direction = some (o, d))
    (hprepare : mesh.prepare ops part = some bvh) (htree : mesh.TreeOver bvh) :
    ∃ hit brute, mesh.cast ops part origin direction = some (bvh, hit) ∧
      mesh.castBruteForce ops origin direction = some brute ∧
      (mesh.HitsAreNumbers ops o d → SlabSound ops mesh bvh o d →
        mesh.Agrees ops o d hit brute) := by
  have hpoints := localRay_points hray
  obtain ⟨least, brute, hbrute, hreport, hfound⟩ := castBruteForce_some h hpoints hray
  -- a cast that reports nothing agrees when no triangle is hit
  have hmiss : (∀ tri < mesh.tris.length, ∀ x, mesh.parameter ops o d tri = some (some x) →
      ¬ x < ops.dblMax) → mesh.HitsAreNumbers ops o d → mesh.Agrees ops o d none brute := by
    intro hnone hnumbers
    obtain ⟨b, hat, hleast⟩ := hfound hnumbers
    exact agrees_of_least at_start (fun tri htri x hx => not_lt.mp (hnone tri htri x hx)) hat hleast
      (Or.inl ⟨rfl, rfl⟩) hreport
  rw [Mesh.cast, hray]
  dsimp only
  rw [hprepare]
  dsimp only [Option.bind_eq_bind, Option.bind_some]
  cases hroot : bvh.nodes[0]? with
  | none =>
      refine ⟨none, brute, rfl, hbrute, fun hnumbers _ => hmiss ?_ hnumbers⟩
      have hzero := htree.eq_nil_iff.mp (List.eq_nil_of_length_eq_zero
        (Nat.eq_zero_of_not_pos fun hpos => by
          rw [List.getElem?_eq_getElem hpos] at hroot
          cases hroot))
      intro tri htri
      omega
  | some root =>
      have hne : bvh.nodes ≠ [] := by
        intro hnil
        rw [hnil] at hroot
        cases hroot
      have hpos : 0 < mesh.tris.length :=
        Nat.pos_of_ne_zero fun hzero => hne (htree.eq_nil_iff.mpr hzero)
      have hrun := htree.tiles.root hpos
      dsimp only
      cases hslab : slab ops o d root (some ops.dblMax) with
      | none =>
          refine ⟨none, brute, rfl, hbrute, fun hnumbers hsound => hmiss ?_ hnumbers⟩
          intro tri htri x hx hlt
          exact hsound _ _ Relation.ReflTransGen.refl 0 root _ _ hroot hrun tri
            (htree.mem_root htri) x ops.dblMax hx rfl hlt hslab
      | some near =>
          have hstep : ∀ weight walk walk', (walk.Fits mesh bvh weight ∧
              Reaches (mesh.castStep ops bvh o d) (.walking [0] (Best.start ops)) walk ∧
              (mesh.HitsAreNumbers ops o d → SlabSound ops mesh bvh o d →
                walk.Walking ops mesh bvh o d)) → mesh.castStep ops bvh o d walk = some walk' →
              ∃ lighter < weight, walk'.Fits mesh bvh lighter ∧
                Reaches (mesh.castStep ops bvh o d) (.walking [0] (Best.start ops)) walk' ∧
                (mesh.HitsAreNumbers ops o d → SlabSound ops mesh bvh o d →
                  walk'.Walking ops mesh bvh o d) := by
            rintro weight walk walk' ⟨hfits, hreaches, hwalking⟩ hstep
            obtain ⟨lighter, hlt, hfits'⟩ := hfits.step h hpoints htree hstep
            exact ⟨lighter, hlt, hfits', hreaches.tail hstep, fun hnumbers hsound =>
              (hwalking hnumbers hsound).step h hpoints htree hnumbers hsound hreaches hfits hstep⟩
          have hstart : (Walk.walking [0] (Best.start ops)).Fits mesh bvh
              (2 * mesh.tris.length - 1) := ⟨Weighs.root hrun, inMesh_start⟩
          have hfuel : 2 * mesh.tris.length - 1 ≤ 2 * bvh.order.length := by
            rw [htree.length_order]
            omega
          obtain ⟨walk, weight, hloop, hend, hfits, -, hwalking⟩ := Lib.loop_total hstep
            ⟨hstart, Relation.ReflTransGen.refl, fun _ _ => ⟨ops.dblMax, at_start,
              fun tri htri _ _ _ => ⟨0, List.mem_singleton_self 0, 0, _, hrun,
                htree.mem_root htri⟩⟩⟩ hfuel
          dsimp only
          rw [hloop]
          rcases castStep_nil hend with rfl | rfl | ⟨best, rfl⟩
          · exact hfits.elim
          · refine ⟨brute, brute, ?_, hbrute, fun hnumbers _ => ?_⟩
            · dsimp only [Option.bind_some]
              rw [hbrute, Option.bind_some]
              rfl
            · obtain ⟨b, hat, hleast⟩ := hfound hnumbers
              exact agrees_of_least hat hleast hat hleast hreport hreport
          · obtain ⟨r, hr, hcastReport⟩ := report_some h hfits.2
            refine ⟨r, brute, ?_, hbrute, fun hnumbers hsound => ?_⟩
            · dsimp only [Option.bind_some]
              rw [hr, Option.bind_some]
              rfl
            · obtain ⟨b, hat, hopen⟩ := hwalking hnumbers hsound
              obtain ⟨b', hat', hleast'⟩ := hfound hnumbers
              refine agrees_of_least hat (fun tri htri x hx => ?_) hat' hleast' hcastReport hreport
              by_contra hlt
              obtain ⟨i, hi, -⟩ := hopen tri htri x hx (not_le.mp hlt)
              exact absurd hi List.not_mem_nil

/-! ## Histories -/

def Mesh.after (ops : Arithmetic F R M) (part : StdPartition) (mesh : Mesh F R M) :
    Event F R M → Option (Mesh F R M)
  | .setTopology counts indices pointCount =>
      some (mesh.setTopology counts indices pointCount).1
  | .setPoints points => some (mesh.setPoints points).1
  | .setTransform localToWorld => some (mesh.setTransform ops localToWorld)
  | .prepare => (mesh.prepare ops part).map fun bvh => { mesh with bvh := bvh }
  | .cast origin direction =>
      (mesh.cast ops part origin direction).map fun r => { mesh with bvh := r.1 }

def history (ops : Arithmetic F R M) (part : StdPartition) (events : List (Event F R M)) :
    Option (Mesh F R M) :=
  events.foldlM (Mesh.after ops part) (Mesh.new ops)

/-- The tree of a mesh with points. -/
structure Mesh.IsTree (mesh : Mesh F R M) (bvh : Bvh F R) : Prop where
  /-- The order is a permutation of the triangles. -/
  order : bvh.order.Perm (List.range mesh.triFace.length)
  /-- Every node has a run, which is not empty, and a leaf at most four triangles. -/
  run : ∀ (i : Nat) node, bvh.nodes[i]? = some node → node.count ≤ leafSize ∧
    ∃ first count, HasRun (bvh.nodes.map Node.shape) i first count ∧ 0 < count ∧
      first + count ≤ mesh.triFace.length
  /-- The leaves' runs tile the order. -/
  leaves : ∀ position < mesh.triFace.length,
    ∃! i, Lib.LeafAt (bvh.nodes.map Node.shape) i position
  /-- The children of an interior node are stored after it and split its run. -/
  interior : ∀ (i : Nat) node, bvh.nodes[i]? = some node → node.count = 0 →
    i < node.first ∧ node.first + 1 < bvh.nodes.length ∧ ∃ first left right,
      HasRun (bvh.nodes.map Node.shape) i first (left + right) ∧
      HasRun (bvh.nodes.map Node.shape) node.first first left ∧
      HasRun (bvh.nodes.map Node.shape) (node.first + 1) (first + left) right
  /-- The box of a node holds the corners of every triangle of its run, on each axis where they are
  numbers. -/
  box : ∀ (i : Nat) node first count, bvh.nodes[i]? = some node →
    HasRun (bvh.nodes.map Node.shape) i first count → ∀ tri ∈ runItems bvh.order first count,
    ∃ a b c, mesh.corners tri = some (a, b, c) ∧ ∀ k x y z, a k = some x → b k = some y →
      c k = some z → ∀ w ∈ [x, y, z], node.lo k ≤ w ∧ w ≤ node.hi k

omit [LinearOrder R] in
theorem boundsOf_holds {a b c : Point F} {box : Box F} (h : box.Holds (boundsOf (a, b, c)))
    {k : Fin 3} {x y z : F} (hx : a k = some x) (hy : b k = some y) (hz : c k = some z) :
    ∀ w ∈ [x, y, z], box.lo k ≤ w ∧ w ≤ box.hi k := by
  have hmin : ∀ u v : F, ∃ m, minOf (some u) (some v) = some m ∧ m ≤ u ∧ m ≤ v := by
    intro u v
    unfold minOf
    split
    · rename_i hlt
      exact ⟨v, rfl, (decide_eq_true_iff.mp hlt).le, le_rfl⟩
    · rename_i hge
      exact ⟨u, rfl, le_rfl, not_lt.mp fun hlt => hge (decide_eq_true hlt)⟩
  have hmax : ∀ u v : F, ∃ m, maxOf (some u) (some v) = some m ∧ u ≤ m ∧ v ≤ m := by
    intro u v
    unfold maxOf
    split
    · rename_i hlt
      exact ⟨v, rfl, (decide_eq_true_iff.mp hlt).le, le_rfl⟩
    · rename_i hge
      exact ⟨u, rfl, le_rfl, not_lt.mp fun hlt => hge (decide_eq_true hlt)⟩
  obtain ⟨m, hm, hmy, hmz⟩ := hmin y z
  obtain ⟨n, hn, hny, hnz⟩ := hmax y z
  obtain ⟨lo, hlo, hlox, hlom⟩ := hmin x m
  obtain ⟨hi, hhi, hhix, hhin⟩ := hmax x n
  have hboundsLo : (boundsOf (a, b, c)).lo k = some lo := by
    show minOf (a k) (minOf (b k) (c k)) = some lo
    rw [hx, hy, hz, hm, hlo]
  have hboundsHi : (boundsOf (a, b, c)).hi k = some hi := by
    show maxOf (a k) (maxOf (b k) (c k)) = some hi
    rw [hx, hy, hz, hn, hhi]
  have hboxLo := (h k).1 lo hboundsLo
  have hboxHi := (h k).2 hi hboundsHi
  intro w hw
  simp only [List.mem_cons, List.not_mem_nil, or_false] at hw
  rcases hw with rfl | rfl | rfl
  · exact ⟨hboxLo.trans hlox, hhix.trans hboxHi⟩
  · exact ⟨hboxLo.trans (hlom.trans hmy), hny.trans (hhin.trans hboxHi)⟩
  · exact ⟨hboxLo.trans (hlom.trans hmz), hnz.trans (hhin.trans hboxHi)⟩

omit [LinearOrder R] in
theorem Mesh.TreeOver.isTree (htree : mesh.TreeOver bvh) (h : mesh.InRange)
    (hpoints : mesh.hasPoints = true) : mesh.IsTree bvh where
  order := h.faces ▸ htree.perm
  run i node hnode := by
    have hlt := (List.getElem?_eq_some_iff.mp hnode).1
    obtain ⟨first, count, hrun, hle⟩ := htree.tiles.within i (by rw [List.length_map]; exact hlt)
    exact ⟨htree.leaf node (List.mem_of_getElem? hnode), first, count, hrun, hrun.pos,
      by rw [h.faces]; exact hle⟩
  leaves := h.faces ▸ htree.tiles.leaves
  interior i node hnode hzero := by
    have hlt := (List.getElem?_eq_some_iff.mp hnode).1
    obtain ⟨first, count, hrun, -⟩ := htree.tiles.within i (by rw [List.length_map]; exact hlt)
    have hindex : (bvh.nodes.map Node.shape)[i]? = some node.shape :=
      Lib.getElem?_map_shape hnode
    obtain ⟨hlater, left, right, hleft, hright, rfl⟩ := hrun.children hindex hzero
    have hlast := hright.lt_length
    rw [List.length_map] at hlast
    exact ⟨hlater, hlast, first, left, right, hrun, hleft, hright⟩
  box i node first count hnode hrun tri htri := by
    obtain ⟨⟨a, b, c⟩, hcorners⟩ := h.exists_corners hpoints (htree.lt_of_mem htri)
    refine ⟨a, b, c, hcorners, fun k x y z hx hy hz => ?_⟩
    exact boundsOf_holds (htree.box i node first count hnode hrun tri htri _ hcorners) hx hy hz

/-- **A cast ends on any mesh a history leaves**, and keeps what it keeps. -/
theorem Mesh.Kept.cast {calls : Nat} (h : mesh.Kept calls) (ops : Arithmetic F R M)
    (part : StdPartition) (origin direction : Vec R) :
    ∃ bvh hit brute, mesh.cast ops part origin direction = some (bvh, hit) ∧
      mesh.castBruteForce ops origin direction = some brute ∧
      Mesh.Kept { mesh with bvh := bvh } calls ∧
      (mesh.localRay ops origin direction = none → hit = none ∧ brute = none) ∧
      ∀ o d, mesh.localRay ops origin direction = some (o, d) → mesh.HitsAreNumbers ops o d →
        SlabSound ops mesh bvh o d → mesh.Agrees ops o d hit brute := by
  cases hray : mesh.localRay ops origin direction with
  | none =>
      refine ⟨mesh.bvh, none, none, ?_, ?_, h, fun _ => ⟨rfl, rfl⟩, fun o d heq => nomatch heq⟩
      · rw [Mesh.cast, hray]
      · rw [Mesh.castBruteForce, hray]
  | some ray =>
      obtain ⟨o, d⟩ := ray
      have hpoints := localRay_points hray
      obtain ⟨bvh, hprepare, hversion, hkept⟩ := h.prepare ops part
      obtain ⟨hit, brute, hcast, hbrute, hagrees⟩ :=
        cast_of_tree h.range hray hprepare (hkept.current hversion hpoints).2
      refine ⟨bvh, hit, brute, hcast, hbrute, hkept, fun hnone => (nomatch hnone),
        fun o' d' heq => ?_⟩
      cases heq
      exact hagrees

theorem Mesh.Kept.after {calls : Nat} (h : mesh.Kept calls) (hcalls : calls + 1 < 2 ^ 64 - 1)
    (ops : Arithmetic F R M) (part : StdPartition) {event : Event F R M} (hsmall : event.Small) :
    ∃ mesh', mesh.after ops part event = some mesh' ∧ mesh'.Kept (calls + 1) := by
  have hwait : ∀ {mesh : Mesh F R M}, mesh.Kept calls → mesh.Kept (calls + 1) :=
    fun h => ⟨h.range, Nat.le_succ_of_le h.points, h.version, h.tree, h.current⟩
  cases event with
  | setTopology counts indices pointCount => exact ⟨_, rfl, h.setTopology hcalls hsmall.2.2⟩
  | setPoints points => exact ⟨_, rfl, h.setPoints hcalls points⟩
  | setTransform localToWorld => exact ⟨_, rfl, hwait (h.setTransform localToWorld)⟩
  | prepare =>
      obtain ⟨bvh, hprepare, -, hkept⟩ := h.prepare ops part
      exact ⟨_, by rw [Mesh.after, hprepare]; rfl, hwait hkept⟩
  | cast origin direction =>
      obtain ⟨bvh, hit, brute, hcast, -, hkept, -⟩ := h.cast ops part origin direction
      exact ⟨_, by rw [Mesh.after, hcast]; rfl, hwait hkept⟩

theorem foldlM_after (ops : Arithmetic F R M) (part : StdPartition) {events : List (Event F R M)}
    (hsmall : ∀ event ∈ events, event.Small) {calls : Nat} (h : mesh.Kept calls)
    (hcalls : calls + events.length < 2 ^ 64 - 1) :
    ∃ mesh', events.foldlM (Mesh.after ops part) mesh = some mesh' ∧
      mesh'.Kept (calls + events.length) := by
  induction events generalizing mesh calls with
  | nil => exact ⟨mesh, rfl, h⟩
  | cons event events ih =>
      rw [List.length_cons] at hcalls ⊢
      obtain ⟨next, hnext, hkept⟩ :=
        h.after (by omega) ops part (hsmall event List.mem_cons_self)
      obtain ⟨mesh', hrest, hkept'⟩ :=
        ih (fun event hevent => hsmall event (List.mem_cons_of_mem _ hevent)) hkept (by omega)
      refine ⟨mesh', by rw [List.foldlM_cons, hnext]; exact hrest, ?_⟩
      rwa [Nat.add_right_comm, Nat.add_assoc] at hkept'

/-- **After any history** a mesh with points is prepared into a tree over its triangles, and both
casts end without a read outside an array.  Where no triangle passes the test with a parameter that
is not a number, and no box is rejected that holds a nearer triangle, they agree. -/
theorem cast_agrees (ops : Arithmetic F R M) (part : StdPartition) (events : List (Event F R M))
    (hsmall : ∀ event ∈ events, event.Small) (hcalls : events.length < 2 ^ 64 - 1) :
    ∃ mesh, history ops part events = some mesh ∧
      (∃ bvh, mesh.prepare ops part = some bvh ∧
        (mesh.hasPoints = true → mesh.IsTree bvh)) ∧
      ∀ origin direction, ∃ bvh hit brute,
        mesh.cast ops part origin direction = some (bvh, hit) ∧
        mesh.castBruteForce ops origin direction = some brute ∧
        (mesh.localRay ops origin direction = none → hit = none ∧ brute = none) ∧
        ∀ o d, mesh.localRay ops origin direction = some (o, d) →
          mesh.HitsAreNumbers ops o d → SlabSound ops mesh bvh o d →
          mesh.Agrees ops o d hit brute := by
  obtain ⟨mesh, hhistory, hkept⟩ := foldlM_after ops part hsmall (kept_new ops)
    (by rw [Nat.zero_add]; exact hcalls)
  refine ⟨mesh, hhistory, ?_, fun origin direction => ?_⟩
  · obtain ⟨bvh, hprepare, hversion, hprepared⟩ := hkept.prepare ops part
    refine ⟨bvh, hprepare, fun hpoints => ?_⟩
    have htree : mesh.TreeOver bvh := (hprepared.current hversion hpoints).2
    exact htree.isTree hkept.range hpoints
  · obtain ⟨bvh, hit, brute, hcast, hbrute, -, hnone, hagrees⟩ :=
      hkept.cast ops part origin direction
    exact ⟨bvh, hit, brute, hcast, hbrute, hnone, hagrees⟩

end

/-! ## Casts on five triangles -/

/-- Exact arithmetic, where a NaN operand gives a NaN. -/
def exactOps : Arithmetic ℚ ℚ Unit :=
  let both (f : ℚ → ℚ → ℚ) (a b : Option ℚ) : Option ℚ :=
    a.bind fun a => b.map (f a)
  let quotient (a b : Option ℚ) : Option ℚ :=
    a.bind fun a => b.bind fun b => if b = 0 then none else some (a / b)
  let dot (v w : Vec ℚ) := both (· + ·) (both (· + ·) (both (· * ·) (v 0) (w 0))
    (both (· * ·) (v 1) (w 1))) (both (· * ·) (v 2) (w 2))
  let minor (v w : Vec ℚ) (i j : Fin 3) := both (· - ·) (both (· * ·) (v i) (w j))
    (both (· * ·) (v j) (w i))
  { fltMax := 2 ^ 128
    fltLowest := -2 ^ 128
    fltZero := 0
    fltHalf := 1 / 2
    fltAdd := both (· + ·)
    fltSub := both (· - ·)
    fltMul := both (· * ·)
    fltDiv := quotient
    fltOfNat := fun n => some n
    toInt := fun x => (x.map Rat.floor).getD 0
    double := id
    dblMax := 2 ^ 1024
    dblLowest := -2 ^ 1024
    dblOfNat := fun n => some n
    literal := id
    add := both (· + ·)
    sub := both (· - ·)
    mul := both (· * ·)
    div := quotient
    fabs := Option.map fun x => if x < 0 then -x else x
    vecSub := fun v w k => both (· - ·) (v k) (w k)
    gfCross := fun v w => ![minor v w 1 2, minor v w 2 0, minor v w 0 1]
    gfDot := dot
    -- the length of a direction along an axis
    getLength := fun v => both (· + ·) (both (· + ·) (v 0) (v 1)) (v 2)
    vecDiv := fun v s k => quotient (v k) s
    identity := ()
    sameMatrix := fun _ _ => true
    getInverse := id
    transform := fun _ v => v
    transformDir := fun _ v => v }

/-- A partition that keeps the order on both sides. -/
def stablePartition : StdPartition where
  apply pred run := run.filter pred ++ run.filter fun t => !pred t
  perm pred run := List.filter_append_perm pred run

/-- A triangle across the z axis at height `z`. -/
def acrossAxis (z : Option ℚ) : List (Point ℚ) :=
  [![some (-1), some (-1), z], ![some 1, some (-1), z], ![some 0, some 1, z]]

/-- A mesh of triangles across the z axis. -/
def stacked (heights : List (Option ℚ)) : List (Event ℚ ℚ Unit) :=
  [.setTopology (heights.map fun _ => 3)
      ((List.range (3 * heights.length)).map fun i => (i : Int)) (3 * heights.length),
    .setPoints (heights.flatMap acrossAxis)]

/-- What both casts along the z axis report. -/
def castsAlongAxis (events : List (Event ℚ ℚ Unit)) :
    Option (Option (Nat × Option ℚ) × Option (Nat × Option ℚ)) := do
  let mesh ← history exactOps stablePartition events
  let (_, hit) ← mesh.cast exactOps stablePartition (fun _ => some 0) ![some 0, some 0, some 1]
  let brute ← mesh.castBruteForce exactOps (fun _ => some 0) ![some 0, some 0, some 1]
  return (hit, brute)

example : castsAlongAxis (stacked [some 1, some 2, some 3, some 4, some 5]) =
    some (some (0, some 1), some (0, some 1)) := by decide +kernel

/-- Five triangles across the z axis. -/
def stackedMesh : Mesh ℚ ℚ Unit :=
  (history exactOps stablePartition (stacked [some 1, some 2, some 3, some 4, some 5])).getD
    (Mesh.new exactOps)

def zAxis : Vec ℚ := ![some 0, some 0, some 1]

theorem localRay_stacked : stackedMesh.localRay exactOps (fun _ => some 0) zAxis =
    some (fun _ => some 0, zAxis) := by
  have hlong : ¬ (floatLt (exactOps.getLength zAxis) (num exactOps (1 / 10 ^ 12)) = true ∨
      stackedMesh.hasPoints = false) := by decide +kernel
  have hidentity : stackedMesh.identity = true := by decide +kernel
  have hunit : ∀ k, exactOps.vecDiv zAxis (exactOps.getLength zAxis) k = zAxis k := by
    decide +kernel
  unfold Mesh.localRay
  dsimp only
  rw [if_neg hlong, if_pos hidentity, if_pos hidentity, funext hunit]

/-- The tree that a cast along the z axis leaves. -/
def stackedBvh : Bvh ℚ ℚ :=
  ((stackedMesh.cast exactOps stablePartition (fun _ => some 0) zAxis).map Prod.fst).getD
    stackedMesh.bvh

/-- The walk can lose nothing: every box is hit, or nothing is nearer than the best. -/
def losesNothing : Walk ℚ → Bool
  | .walking _ best =>
      (stackedBvh.nodes.all fun node =>
        (slab exactOps (fun _ => some 0) zAxis node best.t).isSome) ||
      (List.range 5).all fun tri =>
        ((stackedMesh.parameter exactOps (fun _ => some 0) zAxis tri).bind id).all fun x =>
          best.t.all fun b => b ≤ x
  | _ => true

theorem slabSound_stacked : SlabSound exactOps stackedMesh stackedBvh (fun _ => some 0) zAxis := by
  intro stack best hreaches i node first count hnode hrun tri htri x b hx hb hlt
  have hwalk : (Lib.trace (stackedMesh.castStep exactOps stackedBvh (fun _ => some 0) zAxis) 10
      (.walking [0] (Best.start exactOps))).all losesNothing = true := by decide +kernel
  have hsafe := List.all_eq_true.mp hwalk _ (hreaches.mem_trace (by decide +kernel))
  rw [losesNothing, Bool.or_eq_true] at hsafe
  rcases hsafe with hboxes | hnearest
  · exact Option.isSome_iff_ne_none.mp
      (List.all_eq_true.mp hboxes node (List.mem_of_getElem? hnode))
  · have horder : ∀ tri ∈ stackedBvh.order, tri < 5 := by decide +kernel
    have htri := horder tri (List.mem_of_mem_drop (List.mem_of_mem_take htri))
    have hle := List.all_eq_true.mp hnearest tri (List.mem_range.mpr htri)
    rw [hx, hb] at hle
    exact absurd hlt (not_lt.mpr (of_decide_eq_true hle))

/-- The tree over them, and the first of them hit by both casts. -/
theorem cast_agrees_stacked :
    ∃ mesh, history exactOps stablePartition
        (stacked [some 1, some 2, some 3, some 4, some 5]) = some mesh ∧
      (∃ bvh, mesh.prepare exactOps stablePartition = some bvh ∧ mesh.IsTree bvh) ∧
      ∃ bvh hit brute,
        mesh.cast exactOps stablePartition (fun _ => some 0) zAxis = some (bvh, hit) ∧
        mesh.castBruteForce exactOps (fun _ => some 0) zAxis = some brute ∧
        mesh.Agrees exactOps (fun _ => some 0) zAxis hit brute ∧ hit = some (0, some 1) := by
  obtain ⟨mesh, hhistory, ⟨bvh, hprepare, htree⟩, hcasts⟩ := cast_agrees exactOps stablePartition
    (stacked [some 1, some 2, some 3, some 4, some 5])
    (by
      intro event hevent
      simp only [stacked, List.mem_cons, List.not_mem_nil, or_false] at hevent
      rcases hevent with rfl | rfl
      · show 5 < 2 ^ 31 ∧ 15 < 2 ^ 31 ∧ 6 * triangleCount [3, 3, 3, 3, 3] ≤ 2 ^ 32
        decide
      · trivial)
    (by decide)
  have hmesh : mesh = stackedMesh := by
    rw [stackedMesh, hhistory]
    rfl
  subst hmesh
  obtain ⟨bvh', hit, brute, hcast, hbrute, -, hagrees⟩ := hcasts (fun _ => some 0) zAxis
  have hbvh : bvh' = stackedBvh := by
    rw [stackedBvh, hcast]
    rfl
  subst hbvh
  have hhit : (stackedMesh.cast exactOps stablePartition (fun _ => some 0) zAxis).map Prod.snd =
      some (some (0, some 1)) := by decide +kernel
  rw [hcast] at hhit
  refine ⟨stackedMesh, hhistory, ⟨bvh, hprepare, htree (by decide +kernel)⟩, stackedBvh, hit,
    brute, hcast, hbrute, hagrees _ _ ?_ ?_ slabSound_stacked, Option.some.inj hhit⟩
  · exact localRay_stacked
  · have hnumbers : ∀ tri < stackedMesh.tris.length,
        stackedMesh.parameter exactOps (fun _ => some 0) zAxis tri ≠ some none := by decide +kernel
    exact hnumbers

/-- **One triangle at no number**, at the place of the fourth: the tree reports it, at a parameter
that is not a number, and the brute-force loop reports the last triangle.  The nearest is the
first. -/
theorem cast_nan : castsAlongAxis (stacked [some 1, some 2, some 3, none, some 5]) =
    some (some (3, none), some (4, some 5)) := by
  decide +kernel

end RigExec.Touch
