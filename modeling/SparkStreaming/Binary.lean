import SparkStreaming.Graph
import SparkStreaming.Rdd

/-!
# Two-parent streams: `transformWith`, `union` and the joins

`DStream.transformWith` normalises its function to take `(time, rdd_a, rdd_b)`,
asserting the arity, and builds a `PythonTransformed2DStream` on the Java side: a
`jvm` node with the two parents, which the fusion of `Graph.lean` never folds.
`union` first checks that both parents slide by the same duration; the joins and
`cogroup` are `transformWith` on one RDD operation each, in `numPartitions`
partitions (`defaultParallelism` when absent), whose shuffle at time `t` fetches in
the run's order for that operation and time.  What these operations compute one
key at a time is the dataset collaborator's (`RDD.valuesOf_cogroup`,
`RDD.valuesOf_joinWith`).
-/

namespace SparkStreaming

variable {D α K V W U : Type}

/-! ## Algorithm -/

/-- The function given to `DStream.transformWith`: two arguments (`rdd_a`, `rdd_b`), three
(`time`, `rdd_a`, `rdd_b`), or another number of arguments. -/
inductive TransformWithFunc (D : Type) where
  | binary (f : D → D → D)
  | ternary (f : Time → D → D → D)
  | other

/-- The arity normalisation of `DStream.transformWith`, with its assertion. -/
def TransformWithFunc.normalize : TransformWithFunc D → Except String (Time → D → D → D)
  | .binary f => .ok fun _ a b => f a b
  | .ternary f => .ok f
  | .other => .error "func should take two or three arguments"

/-- **Modelled from the spec:** what a `PythonTransformed2DStream` computes at time `t` from the
streams of its parents `[self, other]`. -/
def transformed2 [Inhabited D] (func : Time → D → D → D) (ss : List (Time → D)) (t : Time) :
    D :=
  func t (ss.getD 0 default t) (ss.getD 1 default t)

namespace DStream

/-- `DStream.transformWith` on the nodes `n` (`self`) and `other`: the operation that builds
the two-parent node. -/
def transformWith [Inhabited D] (n other : Nat) (func : TransformWithFunc D) :
    Except String (Op D) := do
  let func ← func.normalize
  pure (.jvm [n, other] (transformed2 func))

/-- `DStream.union`; `selfSlide` and `otherSlide` are the parents' slide durations in ms,
which `_slideDuration` compares in seconds. -/
def union (selfSlide otherSlide : Nat) (n other : Nat) : Except String (Op (RDD α)) := do
  if selfSlide ≠ otherSlide then
    throw "the two DStream should have same slide duration"
  transformWith n other (.binary fun a b => a.union b)

/-- The function a keyed two-parent operation passes to `transformWith`: one RDD operation in
`numPartitions` partitions, `defaultParallelism` when absent, its shuffle at time `t` named by
the operation's `site`. -/
def pairwise {β : Type} (site : String)
    (rddOp : ShuffleOrder → ℕ+ → (K → Int) → RDD (K × V) → RDD (K × W) → RDD β)
    (fo : FetchOrder) (numPartitions : Option ℕ+) (defaultParallelism : ℕ+)
    (partitionFunc : K → Int) : Time → RDD (K × V) → RDD (K × W) → RDD β :=
  fun t a b => rddOp (fo.shuffle ⟨site, t⟩) (numPartitions.getD defaultParallelism) partitionFunc
    a b

variable [DecidableEq K]

/-- `DStream.cogroup`. -/
def cogroup : FetchOrder → Option ℕ+ → ℕ+ → (K → Int) →
    Time → RDD (K × V) → RDD (K × W) → RDD (K × (List V × List W)) :=
  pairwise "cogroup" RDD.cogroup

/-- `DStream.join`. -/
def join : FetchOrder → Option ℕ+ → ℕ+ → (K → Int) →
    Time → RDD (K × V) → RDD (K × W) → RDD (K × (V × W)) :=
  pairwise "join" RDD.join

/-- `DStream.leftOuterJoin`. -/
def leftOuterJoin : FetchOrder → Option ℕ+ → ℕ+ → (K → Int) →
    Time → RDD (K × V) → RDD (K × W) → RDD (K × (V × Option W)) :=
  pairwise "leftOuterJoin" RDD.leftOuterJoin

/-- `DStream.rightOuterJoin`. -/
def rightOuterJoin : FetchOrder → Option ℕ+ → ℕ+ → (K → Int) →
    Time → RDD (K × V) → RDD (K × W) → RDD (K × (Option V × W)) :=
  pairwise "rightOuterJoin" RDD.rightOuterJoin

/-- `DStream.fullOuterJoin`. -/
def fullOuterJoin : FetchOrder → Option ℕ+ → ℕ+ → (K → Int) →
    Time → RDD (K × V) → RDD (K × W) → RDD (K × (Option V × Option W)) :=
  pairwise "fullOuterJoin" RDD.fullOuterJoin

end DStream

end SparkStreaming
