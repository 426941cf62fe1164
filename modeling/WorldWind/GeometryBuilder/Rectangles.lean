import Mathlib
import WorldWind.Lib.Numerals
/-!
# Rectangles with rounded corners and a leader

`GeometryBuilder.makeRectangle` and `makeRectangleWithLeader`, over any ordered
field with the two trigonometric functions as parameters. A buffer is the list
of its vertices; a buffer that is too small throws, and one that is not filled
keeps vertices at the origin.
-/

namespace WorldWind.GeometryBuilder.Rectangles

open scoped Lib.Numerals

/-- The x and the y coordinate. -/
abbrev Vertex (K : Type*) := K × K

variable {K : Type*} [Field K] [LinearOrder K]

/-- `newFloatBuffer` for `n` vertices, the `put`s and `rewind`. -/
def fill (n : Int) (vertices : List (Vertex K)) : Option (List (Vertex K)) :=
  if vertices.length ≤ n then some (vertices ++ List.replicate (n.toNat - vertices.length) (0, 0)) else none

/-- `Math.cos`, `Math.sin` and `Math.PI`. -/
structure Trigonometry (K : Type*) where
  cos : K → K
  sin : K → K
  pi : K

/-! ## Sharp corners -/

def makeRectangle (x y width height : K) : Option (List (Vertex K)) :=
  if width < 0 then none
  else if height < 0 then none
  else fill 4 [(x, y), (x + width, y), (x + width, y + height), (x, y + height)]

def LEADER_LOCATION_INSIDE : Nat := 0
def LEADER_LOCATION_TOP : Nat := 1
def LEADER_LOCATION_BOTTOM : Nat := 2
def LEADER_LOCATION_RIGHT : Nat := 4
def LEADER_LOCATION_LEFT : Nat := 8

def computeLeaderLocationCode (x1 y1 x2 y2 leaderX leaderY : K) : Nat :=
  (if leaderY > y2 then LEADER_LOCATION_TOP else 0) ||| (if leaderY < y1 then LEADER_LOCATION_BOTTOM else 0) |||
    (if leaderX > x2 then LEADER_LOCATION_RIGHT else 0) ||| (if leaderX < x1 then LEADER_LOCATION_LEFT else 0)

def makeRectangleWithLeader (x y width height leaderX leaderY leaderWidth : K) : Option (List (Vertex K)) :=
  if width < 0 then none
  else if height < 0 then none
  else if leaderWidth < 0 then none
  else if leaderWidth = 0 then makeRectangle x y width height
  else
    let leaderCode := computeLeaderLocationCode x y (x + width) (y + height) leaderX leaderY
    if leaderCode = LEADER_LOCATION_INSIDE then makeRectangle x y width height
    else if leaderCode &&& LEADER_LOCATION_BOTTOM ≠ 0 then
      let leaderWidth := if leaderWidth > width then width else leaderWidth
      fill 7 [(x + width / 2 + leaderWidth / 2, y), (x + width, y), (x + width, y + height), (x, y + height), (x, y),
        (x + width / 2 - leaderWidth / 2, y), (leaderX, leaderY)]
    else if leaderCode &&& LEADER_LOCATION_TOP ≠ 0 then
      let leaderWidth := if leaderWidth > width then width else leaderWidth
      fill 7 [(x + width / 2 - leaderWidth / 2, y + height), (x, y + height), (x, y), (x + width, y),
        (x + width, y + height), (x + width / 2 + leaderWidth / 2, y + height), (leaderX, leaderY)]
    else if leaderCode &&& LEADER_LOCATION_LEFT ≠ 0 then
      let leaderWidth := if leaderWidth > height then height else leaderWidth
      fill 7 [(x, y + height / 2 - leaderWidth / 2), (x, y), (x + width, y), (x + width, y + height), (x, y + height),
        (x, y + height / 2 + leaderWidth / 2), (leaderX, leaderY)]
    else if leaderCode &&& LEADER_LOCATION_RIGHT ≠ 0 then
      let leaderWidth := if leaderWidth > height then height else leaderWidth
      fill 7 [(x + width, y + height / 2 + leaderWidth / 2), (x + width, y + height), (x, y + height), (x, y),
        (x + width, y), (x + width, y + height / 2 - leaderWidth / 2), (leaderX, leaderY)]
    else makeRectangle x y width height

/-! ## Rounded corners -/

variable (math : Trigonometry K)

def piOver2 : K := math.pi / 2

/-- The loop of `addRectangleRoundedCorner`, of `n` more rounds. -/
def addCornerVertices (x y radius step : K) : Nat → K → List (Vertex K)
  | 0, _ => []
  | n + 1, angle =>
    (x + math.cos angle * radius, y + math.sin angle * radius) :: addCornerVertices x y radius step n (angle + step)

def addRectangleRoundedCorner (x y radius start sweep : K) (slices : Int) : List (Vertex K) :=
  if slices = 0 then []
  else
    let step := sweep / slices
    let angle := start + step
    addCornerVertices math x y radius step (slices - 1).toNat angle

/-- The four corners, from the first to the last vertex of each. -/
structure Corners (K : Type*) where
  lowerLeft : List (Vertex K)
  lowerRight : List (Vertex K)
  upperRight : List (Vertex K)
  upperLeft : List (Vertex K)

def corners (x y width height cornerRadius : K) (cornerSlices : Int) : Corners K where
  -- `x` stands for `y` in the second argument
  lowerLeft := (x, y + cornerRadius) ::
    addRectangleRoundedCorner math (x + cornerRadius) (x + cornerRadius) cornerRadius math.pi
      (piOver2 math) cornerSlices ++
      [(x + cornerRadius, y)]
  lowerRight := (x + width - cornerRadius, y) ::
    addRectangleRoundedCorner math (x + width - cornerRadius) (y + cornerRadius) cornerRadius (-piOver2 math)
      (piOver2 math) cornerSlices ++ [(x + width, y + cornerRadius)]
  upperRight := (x + width, y + height - cornerRadius) ::
    addRectangleRoundedCorner math (x + width - cornerRadius)
      (y + height - cornerRadius) cornerRadius 0 (piOver2 math)
      cornerSlices ++ [(x + width - cornerRadius, y + height)]
  upperLeft := (x + cornerRadius, y + height) ::
    addRectangleRoundedCorner math (x + cornerRadius) (y + height - cornerRadius) cornerRadius (piOver2 math)
      (piOver2 math) cornerSlices ++ [(x, y + height - cornerRadius)]

/-- The radius, limited by half the smaller dimension. -/
def limitRadius (width height cornerRadius : K) : K :=
  let maxCornerRadius := min width height / 2
  if cornerRadius > maxCornerRadius then maxCornerRadius else cornerRadius

def makeRoundedRectangle (x y width height cornerRadius : K) (cornerSlices : Int) : Option (List (Vertex K)) :=
  if width < 0 then none
  else if height < 0 then none
  else if cornerRadius < 0 then none
  else if cornerSlices < 0 then none
  else
    let cornerRadius := limitRadius width height cornerRadius
    if cornerRadius = 0 ∨ cornerSlices = 0 then makeRectangle x y width height
    else
      let c := corners math x y width height cornerRadius cornerSlices
      fill (8 + 4 * (cornerSlices - 1)) (c.lowerLeft ++ c.lowerRight ++ c.upperRight ++ c.upperLeft)

def makeRoundedRectangleWithLeader (x y width height cornerRadius : K) (cornerSlices : Int)
    (leaderX leaderY leaderWidth : K) : Option (List (Vertex K)) :=
  if width < 0 then none
  else if height < 0 then none
  else if cornerRadius < 0 then none
  else if cornerSlices < 0 then none
  else if leaderWidth < 0 then none
  else
    let cornerRadius := limitRadius width height cornerRadius
    if cornerRadius = 0 ∨ cornerSlices = 0 then makeRectangleWithLeader x y width height leaderX leaderY leaderWidth
    else if leaderWidth = 0 then makeRoundedRectangle math x y width height cornerRadius cornerSlices
    else
      let leaderCode := computeLeaderLocationCode x y (x + width) (y + height) leaderX leaderY
      if leaderCode = LEADER_LOCATION_INSIDE then makeRoundedRectangle math x y width height cornerRadius cornerSlices
      else
        let c := corners math x y width height cornerRadius cornerSlices
        let n := 11 + 4 * (cornerSlices - 1)
        if leaderCode &&& LEADER_LOCATION_BOTTOM ≠ 0 then
          let maxLeaderWidth := width - 2 * cornerRadius
          let leaderWidth := if leaderWidth > maxLeaderWidth then maxLeaderWidth else leaderWidth
          fill n ((x + width / 2 + leaderWidth / 2, y) :: c.lowerRight ++ c.upperRight ++ c.upperLeft ++
            c.lowerLeft ++
            [(x + width / 2 - leaderWidth / 2, y), (leaderX, leaderY)])
        else if leaderCode &&& LEADER_LOCATION_TOP ≠ 0 then
          let maxLeaderWidth := width - 2 * cornerRadius
          let leaderWidth := if leaderWidth > maxLeaderWidth then maxLeaderWidth else leaderWidth
          fill n ((x + width / 2 - leaderWidth / 2, y + height) :: c.upperLeft ++ c.lowerLeft ++ c.lowerRight ++
            c.upperRight ++ [(x + width / 2 + leaderWidth / 2, y + height), (leaderX, leaderY)])
        else if leaderCode &&& LEADER_LOCATION_LEFT ≠ 0 then
          let maxLeaderWidth := height - 2 * cornerRadius
          let leaderWidth := if leaderWidth > maxLeaderWidth then maxLeaderWidth else leaderWidth
          fill n ((x, y + height / 2 - leaderWidth / 2) :: c.lowerLeft ++ c.lowerRight ++ c.upperRight ++
            c.upperLeft ++
            [(x, y + height / 2 + leaderWidth / 2), (leaderX, leaderY)])
        else if leaderCode &&& LEADER_LOCATION_RIGHT ≠ 0 then
          let maxLeaderWidth := height - 2 * cornerRadius
          let leaderWidth := if leaderWidth > maxLeaderWidth then maxLeaderWidth else leaderWidth
          fill n ((x + width, y + height / 2 + leaderWidth / 2) :: c.upperRight ++ c.upperLeft ++ c.lowerLeft ++
            c.lowerRight ++ [(x + width, y + height / 2 - leaderWidth / 2), (leaderX, leaderY)])
        else makeRoundedRectangle math x y width height cornerRadius cornerSlices

end WorldWind.GeometryBuilder.Rectangles
