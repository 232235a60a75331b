/-
# `RigExec.Touch.Cast` — casting a ray at the mesh

`Cast` walks the tree with a stack of at most 128 entries, nearer child first, and falls back
to `CastBruteForce` when the stack would not do.  Both report the face of the nearest triangle
hit and the parameter of the hit.

    none            of a read: outside an array, or no end
    tOut, return    `none` for -1 and -1, `some (face, t)` for a hit
    const           a function that is `const` returns the acceleration it leaves

The comparisons are the source's: a rejection `x < 0.0` is false where `x` is not a number.
-/
import RigExec.Touch.Build

namespace RigExec.Touch

open scoped RigExec.Accel
open RigExec.Accel (floatLt floatLe minOf maxOf Point)

section

variable {F R M : Type} [LinearOrder F] [LinearOrder R] (ops : Arithmetic F R M)

/-- `x` as a double. -/
def num (q : ℚ) : Option R := some (ops.literal q)

/-! ## One triangle -/

/-- `_HitTriangle` up to the test against `tMax`: the parameter of the hit.  `_kMinT` is 1e-4. -/
def rayParameter (corners : Point F × Point F × Point F) (o d : Vec R) : Option (Option R) :=
  let toVec (p : Point F) : Vec R := fun k => ops.double (p k)
  let v0 := toVec corners.1
  let e1 := ops.vecSub (toVec corners.2.1) v0
  let e2 := ops.vecSub (toVec corners.2.2) v0
  let pv := ops.gfCross d e2
  let det := ops.gfDot e1 pv
  if floatLt (ops.fabs det) (num ops (1 / 10 ^ 18)) = true then none
  else
    let inv := ops.div (num ops 1) det
    let tv := ops.vecSub o v0
    let u := ops.mul (ops.gfDot tv pv) inv
    if floatLt u (num ops 0) = true ∨ floatLt (num ops 1) u = true then none
    else
      let qv := ops.gfCross tv e1
      let v := ops.mul (ops.gfDot d qv) inv
      if floatLt v (num ops 0) = true ∨ floatLt (num ops 1) (ops.add u v) = true then none
      else
        let t := ops.mul (ops.gfDot e2 qv) inv
        if floatLe t (num ops (1 / 10 ^ 4)) = true then none else some t

def Mesh.hitTriangle (mesh : Mesh F R M) (tri : Nat) (o d : Vec R) (tMax : Option R) :
    Option (Option (Option R)) :=
  (mesh.corners tri).map fun corners =>
    (rayParameter ops corners o d).filter fun t => !floatLe tMax t

/-! ## The ray -/

/-- The ray in local space: `None` for one that hits nothing anyway. -/
def Mesh.localRay (mesh : Mesh F R M) (worldOrigin worldDirection : Vec R) :
    Option (Vec R × Vec R) :=
  let length := ops.getLength worldDirection
  if floatLt length (num ops (1 / 10 ^ 12)) = true ∨ mesh.hasPoints = false then none
  else
    let wd := ops.vecDiv worldDirection length
    some (if mesh.identity = true then worldOrigin else ops.transform mesh.inverse worldOrigin,
      if mesh.identity = true then wd else ops.transformDir mesh.inverse wd)

structure Best (R : Type) where
  t : Option R
  /-- `None` for -1. -/
  tri : Option Nat

def Best.start : Best R := ⟨some ops.dblMax, none⟩

/-- One triangle of a loop over triangles. -/
def Mesh.tryTriangle (mesh : Mesh F R M) (o d : Vec R) (best : Best R) (tri : Nat) :
    Option (Best R) :=
  (mesh.hitTriangle ops tri o d best.t).map fun hit =>
    match hit with
    | some t => ⟨t, some tri⟩
    | none => best

/-- What a cast reports of its best triangle. -/
def Mesh.report (mesh : Mesh F R M) (best : Best R) : Option (Option (Nat × Option R)) :=
  match best.tri with
  | none => some none
  | some tri => (mesh.triFace[tri]?).map fun face => some (face, best.t)

def Mesh.castBruteForce (mesh : Mesh F R M) (worldOrigin worldDirection : Vec R) :
    Option (Option (Nat × Option R)) :=
  match mesh.localRay ops worldOrigin worldDirection with
  | none => some none
  | some (o, d) =>
      ((List.range mesh.triFace.length).foldlM (mesh.tryTriangle ops o d)
        (Best.start ops)).bind mesh.report

/-! ## The walk -/

/-- `inv`, the inverse of a direction. -/
def slabInverse (d : Vec R) (k : Fin 3) : Option R :=
  if floatLt (num ops (1 / 10 ^ 30)) (ops.fabs (d k)) = true then ops.div (num ops 1) (d k)
  else if floatLe (num ops 0) (d k) = true then num ops (10 ^ 30)
  else num ops (-10 ^ 30)

/-- One axis of `slab`: `t0` and `t1` after it. -/
def slabAxis (node : Node F) (o d : Vec R) (span : Option R × Option R) (k : Fin 3) :
    Option (Option R × Option R) :=
  let inv := slabInverse ops d k
  let a := ops.mul (ops.sub (ops.double (some (node.lo k))) (o k)) inv
  let b := ops.mul (ops.sub (ops.double (some (node.hi k))) (o k)) inv
  let ordered := if floatLt b a = true then (b, a) else (a, b)
  let pad x := ops.add (ops.mul (num ops (1 / 10 ^ 7)) (ops.fabs x)) (num ops (1 / 10 ^ 9))
  let t0 := maxOf span.1 (ops.sub ordered.1 (pad ordered.1))
  let t1 := minOf span.2 (ops.add ordered.2 (pad ordered.2))
  if floatLt t1 t0 = true then none else some (t0, t1)

/-- `slab`: `tNear`, where it is true. -/
def slab (o d : Vec R) (node : Node F) (tMax : Option R) : Option (Option R) :=
  ((List.finRange 3).foldlM (slabAxis ops node o d) (some ops.dblLowest, tMax)).bind fun span =>
    if floatLe (num ops 0) span.2 = true then some span.1 else none

/-- The walk of `Cast`. -/
inductive Walk (R : Type)
  /-- The top of the stack is the head. -/
  | walking (stack : List Nat) (best : Best R)
  | fallback
  /-- A read or a write outside an array. -/
  | fault

/-- `stack[top++] = index`, on a stack of 128 entries. -/
def push (stack : List Nat) (index : Nat) : Option (List Nat) :=
  if stack.length < 128 then some (index :: stack) else none

/-- The children of an interior node go on the stack. -/
def pushChildren (bvh : Bvh F R) (o d : Vec R) (node : Node F) (stack : List Nat)
    (best : Best R) : Option (Walk R) := do
  let l := node.first
  let r := node.first + 1
  let tl := slab ops o d (← bvh.nodes[l]?) best.t
  let tr := slab ops o d (← bvh.nodes[r]?) best.t
  if 128 < stack.length + 2 then return .fallback
  else
    match tl, tr with
    | some tl, some tr =>
        if floatLt tl tr = true then return .walking (← push (← push stack r) l) best
        else return .walking (← push (← push stack l) r) best
    | some _, none => return .walking (← push stack l) best
    | none, some _ => return .walking (← push stack r) best
    | none, none => return .walking stack best

/-- The triangles of a leaf. -/
def Mesh.tryLeaf (mesh : Mesh F R M) (bvh : Bvh F R) (o d : Vec R) (node : Node F)
    (best : Best R) : Option (Best R) :=
  (List.range node.count).foldlM (fun best j =>
    (bvh.order[node.first + j]?).bind (mesh.tryTriangle ops o d best)) best

/-- One turn of the loop of `Cast`. -/
def Mesh.castStep (mesh : Mesh F R M) (bvh : Bvh F R) (o d : Vec R) : Walk R → Option (Walk R)
  | .walking (index :: stack) best =>
      match bvh.nodes[index]? with
      | none => some .fault
      | some node =>
          match slab ops o d node best.t with
          | none => some (.walking stack best)
          | some tNear =>
              if floatLt best.t tNear = true then some (.walking stack best)
              else if node.count ≠ 0 then
                some (((mesh.tryLeaf ops bvh o d node best).map (Walk.walking stack)).getD .fault)
              else some ((pushChildren ops bvh o d node stack best).getD .fault)
  | _ => none

variable (part : StdPartition)

/-- `Cast`: the acceleration after it, and the report. -/
def Mesh.cast (mesh : Mesh F R M) (worldOrigin worldDirection : Vec R) :
    Option (Bvh F R × Option (Nat × Option R)) :=
  match mesh.localRay ops worldOrigin worldDirection with
  | none => some (mesh.bvh, none)
  | some (o, d) => do
      let bvh ← mesh.prepare ops part
      match bvh.nodes[0]? with
      | none => return (bvh, none)
      | some root =>
          match slab ops o d root (some ops.dblMax) with
          | none => return (bvh, none)
          | some _ =>
              let walk ← Lib.loop (mesh.castStep ops bvh o d) (2 * bvh.order.length)
                (.walking [0] (Best.start ops))
              match walk with
              | .walking _ best => return (bvh, ← mesh.report best)
              | .fallback => return (bvh, ← mesh.castBruteForce ops worldOrigin worldDirection)
              | .fault => none

end

end RigExec.Touch
