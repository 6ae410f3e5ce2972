import SparkStreaming.Graph
import SparkStreaming.Rdd

/-!
# The stateless operations, batch by batch

Every stateless `DStream` operation is a `transform` whose function maps a
batch to a batch; a chain of them is fused into one function with `fuse`
(`Graph.lean`, and `run_transformed_chain` for why fusing is sound).  This
module gives those batch functions under the source's names, in the
`DStream` namespace, and what the derived ones compute:

    (DStream.reduce fo pf func t r).elems = (combineAll id func r.elems).toList
                                                             (DStream.elems_reduce)
    r.partitions ≠ [] → (DStream.count fo pf t r).elems = [r.elems.length]
                                                              (DStream.elems_count)

`count` reduces one partial count per partition, so a batch with no partition
has nothing to reduce and `count` emits nothing for it
(`DStream.count_zeroPartitions`).  `countByValue` gives each value of a batch
its number of occurrences, once (`DStream.countByValue_counts`).  `combineByKey`
with a consistent aggregator (`mergeValue` merges a value's combiner, and
`mergeCombiners` is associative and commutative) folds each key's values in batch
order, whatever the partitions and the fetch order
(`DStream.combineByKey_eq_combineAll`).
-/

namespace SparkStreaming

namespace DStream

variable {α β K V U : Type}

/-! ## Algorithm -/

/-- `DStream.mapPartitionsWithIndex`: `transform(lambda rdd: rdd.mapPartitionsWithIndex(f))`. -/
def mapPartitionsWithIndex (f : Nat → List α → List β) : Time → RDD α → RDD β :=
  fun _ rdd => rdd.mapPartitionsWithIndex f

/-- `DStream.mapPartitions`: `mapPartitionsWithIndex(lambda s, iterator: f(iterator))`. -/
def mapPartitions (f : List α → List β) : Time → RDD α → RDD β :=
  mapPartitionsWithIndex fun _ it => f it

/-- `DStream.map`. -/
def map (f : α → β) : Time → RDD α → RDD β := mapPartitions (List.map f)

/-- `DStream.filter`. -/
def filter (f : α → Bool) : Time → RDD α → RDD α := mapPartitions (List.filter f)

/-- `DStream.flatMap`. -/
def flatMap (f : α → List β) : Time → RDD α → RDD β :=
  mapPartitionsWithIndex fun _ it => it.flatMap f

/-- `DStream.mapValues`. -/
def mapValues (f : V → U) : Time → RDD (K × V) → RDD (K × U) := map fun kv => (kv.1, f kv.2)

/-- `DStream.flatMapValues`. -/
def flatMapValues (f : V → List U) : Time → RDD (K × V) → RDD (K × U) :=
  flatMap fun kv => (f kv.2).map (kv.1, ·)

/-- `DStream.glom`: each partition as one list. -/
def glom : Time → RDD α → RDD (List α) := mapPartitions fun it => [it]

section Keyed

variable [DecidableEq K]

/-- `DStream.combineByKey`, in `numPartitions` partitions, the context's `defaultParallelism` when
absent. -/
def combineByKey (fo : FetchOrder) (createCombiner : V → U) (mergeValue : U → V → U)
    (mergeCombiners : U → U → U) (numPartitions : Option ℕ+) (defaultParallelism : ℕ+)
    (partitionFunc : K → Int) : Time → RDD (K × V) → RDD (K × U) :=
  fun t rdd => rdd.combineByKey (fo.shuffle ⟨"combineByKey", t⟩) createCombiner mergeValue
    mergeCombiners
    (numPartitions.getD defaultParallelism) partitionFunc

/-- `DStream.reduceByKey`: `combineByKey(lambda x: x, func, func, numPartitions)`. -/
def reduceByKey (fo : FetchOrder) (func : V → V → V) (numPartitions : Option ℕ+)
    (defaultParallelism : ℕ+) (partitionFunc : K → Int) : Time → RDD (K × V) → RDD (K × V) :=
  combineByKey fo id func func (some (numPartitions.getD defaultParallelism)) defaultParallelism
    partitionFunc

/-- `DStream.groupByKey`: `rdd.groupByKey(numPartitions)` on every batch. -/
def groupByKey (fo : FetchOrder) (numPartitions : Option ℕ+) (defaultParallelism : ℕ+)
    (partitionFunc : K → Int) : Time → RDD (K × V) → RDD (K × List V) :=
  fun t rdd => rdd.groupByKey (fo.shuffle ⟨"groupByKey", t⟩) (numPartitions.getD defaultParallelism)
    partitionFunc

/-- `DStream.partitionBy`: `rdd.partitionBy(numPartitions, partitionFunc)` on every batch. -/
def partitionBy (fo : FetchOrder) (numPartitions : ℕ+) (partitionFunc : K → Int) :
    Time → RDD (K × V) → RDD (K × V) :=
  fun t rdd => rdd.partitionBy (fo.shuffle ⟨"partitionBy", t⟩) numPartitions partitionFunc

/-- `DStream.countByValue`: pairs `(x, 1)` summed per value by `reduceByKey`, its
`numPartitions` absent. -/
def countByValue (fo : FetchOrder) (defaultParallelism : ℕ+) (partitionFunc : K → Int) :
    Time → RDD K → RDD (K × Nat) :=
  fuse (map fun x => (x, 1))
    (reduceByKey fo (fun x y => x + y) none defaultParallelism partitionFunc)

end Keyed

/-- `DStream.reduce`: key every element by `None`, reduce by key into one partition, drop the
key.  `partitionFunc` hashes the one key; with `numPartitions` given, `reduceByKey` reads no
`defaultParallelism`, so any value stands for it. -/
def reduce (fo : FetchOrder) (partitionFunc : Unit → Int) (func : α → α → α) :
    Time → RDD α → RDD α :=
  fuse (fuse (map fun x => ((), x)) (reduceByKey fo func (some 1) 1 partitionFunc))
    (map fun kv => kv.2)

/-- `DStream.count`: each partition's size, then their sum by `reduce(operator.add)`. -/
def count (fo : FetchOrder) (partitionFunc : Unit → Int) : Time → RDD α → RDD Nat :=
  fuse (mapPartitions fun it => [it.length]) (reduce fo partitionFunc (· + ·))

/-! ## Lemmas -/

@[simp] theorem elems_map (f : α → β) (t : Time) (r : RDD α) :
    (map f t r).elems = r.elems.map f := RDD.elems_map f r

theorem elems_mapPartitions (f : List α → List β) (t : Time) (r : RDD α) :
    (mapPartitions f t r).elems = (r.partitions.map f).flatten := RDD.elems_mapPartitions f r

theorem reduce_apply (fo : FetchOrder) (partitionFunc : Unit → Int) (func : α → α → α) (t : Time)
    (r : RDD α) : reduce fo partitionFunc func t r =
      ((r.map fun x => ((), x)).reduceByKey (fo.shuffle ⟨"combineByKey", t⟩) func 1
        partitionFunc).map fun kv => kv.2 := rfl

/-- The one key of `reduce` holds every value. -/
theorem valuesOf_unit (ds : List (Unit × α)) : valuesOf () ds = ds.map fun kv => kv.2 := by
  simp [valuesOf]

/-- **What `reduce` emits.**  For an associative and commutative `func`, in every fetch
order: the reduce of the batch, or nothing for an empty batch. -/
theorem elems_reduce {func : α → α → α} (hassoc : ∀ a b c, func (func a b) c = func a (func b c))
    (hcomm : ∀ a b, func a b = func b a) (fo : FetchOrder) (partitionFunc : Unit → Int)
    (t : Time) (r : RDD α) :
    (reduce fo partitionFunc func t r).elems = (combineAll id func r.elems).toList := by
  rw [reduce_apply, RDD.elems_map, ← valuesOf_unit, RDD.valuesOf_reduceByKey func hassoc hcomm,
    RDD.elems_map, valuesOf_unit, List.map_map]
  simp [Function.comp_def]

/-- The partial counts of a batch: one per partition. -/
theorem elems_count (fo : FetchOrder) (partitionFunc : Unit → Int) (t : Time) (r : RDD α) :
    (count fo partitionFunc t r).elems =
      (combineAll id (· + ·) (r.partitions.map fun p => p.length)).toList := by
  have h : ∀ L : List (List α), (L.map fun it => [it.length]).flatten = L.map List.length :=
    fun L => by induction L <;> simp_all
  rw [count, fuse, elems_reduce Nat.add_assoc Nat.add_comm, elems_mapPartitions, h]

/-- **What `count` emits for a batch with a partition**: one element, the batch's size. -/
theorem count_of_partitions (fo : FetchOrder) (partitionFunc : Unit → Int) (t : Time)
    (r : RDD α) (h : r.partitions ≠ []) :
    (count fo partitionFunc t r).elems = [r.elems.length] := by
  rw [elems_count, combineAll_add, if_neg (by simpa using h)]
  simp [RDD.elems, List.length_flatten]

/-- A batch with one empty partition counts to `0`. -/
theorem count_of_partitions_empty :
    [([] : List Nat)] ≠ [] ∧
      (count FetchOrder.inOrder (fun _ => 0) 0 (⟨[[]]⟩ : RDD Nat)).elems = [0] :=
  ⟨by decide, count_of_partitions FetchOrder.inOrder (fun _ => 0) 0 ⟨[[]]⟩ (by decide)⟩

/-- **A batch with no partition counts to nothing**: `count` emits an empty dataset, for every
fetch order and every time, where its docstring promises one element, `0`. -/
theorem count_zeroPartitions (fo : FetchOrder) (partitionFunc : Unit → Int) (t : Time) :
    (count fo partitionFunc t (⟨[]⟩ : RDD α)).elems = [] := by
  rw [elems_count]; rfl

/-- One value's count: its number of occurrences in the batch, or nothing when it has none. -/
theorem valuesOf_countByValue [DecidableEq K] (fo : FetchOrder) (defaultParallelism : ℕ+)
    (partitionFunc : K → Int) (t : Time) (r : RDD K) (x : K) :
    valuesOf x (countByValue fo defaultParallelism partitionFunc t r).elems =
      if r.elems.count x = 0 then [] else [r.elems.count x] := by
  have h := RDD.valuesOf_reduceByKey (fun a b : Nat => a + b) Nat.add_assoc Nat.add_comm
    (fo.shuffle ⟨"combineByKey", t⟩) defaultParallelism partitionFunc (r.map fun y => (y, 1)) x
  rw [RDD.elems_map, valuesOf_map_pair] at h
  refine h.trans ?_
  cases r.elems.count x with
  | zero => rfl
  | succ n =>
    have hs : ∀ m, (List.replicate m 1).sum = m := fun m => by
      induction m with
      | zero => rfl
      | succ m ih => rw [List.replicate_succ, List.sum_cons, ih, Nat.add_comm]
    simp [combineAll_add, hs]

/-- **What `countByValue` emits.**  In every fetch order and number of partitions: distinct
keys, each value of the batch once with the number of its occurrences, and no other key. -/
theorem countByValue_counts [DecidableEq K] (fo : FetchOrder) (defaultParallelism : ℕ+)
    (partitionFunc : K → Int) (t : Time) (r : RDD K) :
    ((countByValue fo defaultParallelism partitionFunc t r).elems.map Prod.fst).Nodup ∧
      ∀ x, valuesOf x (countByValue fo defaultParallelism partitionFunc t r).elems =
        if r.elems.count x = 0 then [] else [r.elems.count x] := by
  refine ⟨(nodup_keys_iff _).2 fun x => ?_, valuesOf_countByValue fo defaultParallelism
    partitionFunc t r⟩
  rw [valuesOf_countByValue]
  split <;> simp

/-- **`combineByKey` with a consistent aggregator is one fold per key.**  When `mergeValue`
merges a value's combiner with `mergeCombiners`, and `mergeCombiners` is associative and
commutative, then in every fetch order and number of partitions the combined batch has distinct
keys and gives each key of the batch one combiner, its values folded in batch order by
`createCombiner` and `mergeValue`: the per-partition combining does not show. -/
theorem combineByKey_eq_combineAll [DecidableEq K] (fo : FetchOrder) (createCombiner : V → U)
    (mergeValue : U → V → U) (mergeCombiners : U → U → U)
    (hmv : ∀ c v, mergeValue c v = mergeCombiners c (createCombiner v))
    (hassoc : ∀ a b c, mergeCombiners (mergeCombiners a b) c = mergeCombiners a (mergeCombiners b c))
    (hcomm : ∀ a b, mergeCombiners a b = mergeCombiners b a) (numPartitions : Option ℕ+)
    (defaultParallelism : ℕ+) (partitionFunc : K → Int) (t : Time) (r : RDD (K × V)) :
    ((combineByKey fo createCombiner mergeValue mergeCombiners numPartitions defaultParallelism
        partitionFunc t r).elems.map Prod.fst).Nodup ∧
      ∀ k, valuesOf k (combineByKey fo createCombiner mergeValue mergeCombiners numPartitions
        defaultParallelism partitionFunc t r).elems =
        (combineAll createCombiner mergeValue (valuesOf k r.elems)).toList := by
  obtain rfl : mergeValue = fun c v => mergeCombiners c (createCombiner v) :=
    funext fun c => funext (hmv c)
  exact ⟨(RDD.isMap_iff_nodup _).1 (RDD.isMap_combineByKey _ _ _ _ _ _ _),
    valuesOf_combineByKey_comm createCombiner mergeCombiners hassoc hcomm (fo.shuffle _) _
      partitionFunc r⟩

/-- Sums with their counts, over the pairs `(0, 4)` and then `(0, 6)`, `(1, 1)` in a second
partition, fetched last partition first: key `0` gets `(10, 2)`. -/
theorem combineByKey_eq_combineAll_sumCount :
    (∀ (c : Nat × Nat) (v : Nat), (c.1 + v, c.2 + 1) = (c.1 + (v, 1).1, c.2 + (v, 1).2)) ∧
    (∀ a b c : Nat × Nat, ((a.1 + b.1) + c.1, (a.2 + b.2) + c.2) =
      (a.1 + (b.1 + c.1), a.2 + (b.2 + c.2))) ∧
    (∀ a b : Nat × Nat, (a.1 + b.1, a.2 + b.2) = (b.1 + a.1, b.2 + a.2)) ∧
      valuesOf 0 (combineByKey FetchOrder.reversed (fun v : Nat => (v, 1))
        (fun c v => (c.1 + v, c.2 + 1)) (fun a b => (a.1 + b.1, a.2 + b.2)) (some 2) 1
        (fun k : Nat => (k : Int)) 0 ⟨[[(0, 4)], [(0, 6), (1, 1)]]⟩).elems = [(10, 2)] := by
  have hassoc : ∀ a b c : Nat × Nat, ((a.1 + b.1) + c.1, (a.2 + b.2) + c.2) =
      (a.1 + (b.1 + c.1), a.2 + (b.2 + c.2)) := fun _ _ _ =>
    Prod.ext (Nat.add_assoc _ _ _) (Nat.add_assoc _ _ _)
  have hcomm : ∀ a b : Nat × Nat, (a.1 + b.1, a.2 + b.2) = (b.1 + a.1, b.2 + a.2) := fun _ _ =>
    Prod.ext (Nat.add_comm _ _) (Nat.add_comm _ _)
  exact ⟨fun _ _ => rfl, hassoc, hcomm,
    ((combineByKey_eq_combineAll FetchOrder.reversed (fun v : Nat => (v, 1))
      (fun c v => (c.1 + v, c.2 + 1)) (fun a b => (a.1 + b.1, a.2 + b.2)) (fun _ _ => rfl) hassoc
      hcomm (some 2) 1 (fun k : Nat => (k : Int)) 0 ⟨[[(0, 4)], [(0, 6), (1, 1)]]⟩).2 0).trans
      (by decide)⟩

end DStream

end SparkStreaming
