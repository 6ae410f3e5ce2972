import Mathlib.Algebra.Group.Int
import Mathlib.Data.PNat.Defs
import Mathlib.Data.List.Basic

/-!
# The dataset collaborator: partitioned RDDs and the shuffle

`dstream.py` only composes calls into PySpark's `RDD`, whose code is not part of
this repository; its operations are modelled from the spec (§6, "Dataset
collaborator interface").  An `RDD` is its list of partitions.  Every keyed
operation goes through one shuffle, `combineByKey`:

* each map partition is merged locally into an insertion-ordered dict
  (`Merger.mergeValues`, a Python dict update per pair);
* each pair goes to reduce partition `partitionFunc k % numPartitions`
  (`partitionBy`);
* each reduce partition merges the combiners it fetched (`Merger.mergeCombiners`)
  in the order the map outputs arrive, which the engine leaves open
  (`ShuffleOrder`); a run's `FetchOrder` gives every shuffle of every tick its own,
  by the call that starts it and the tick (`ShuffleId`).

What the streaming code needs from a keyed result is one key's entry:

    valuesOf k (combineByKey so cc mv mc n pf r).elems
      = (combineAll id mc (valuesOf k (so.order b (r.map (mergeValues cc mv))).flatten)).toList
                                                                  (valuesOf_combineByKey)

and, for an associative and commutative `func`, the fetch order drops out
(`valuesOf_reduceByKey`).  `groupByKey` gives a key one list, a permutation of its
values (`valuesOf_groupByKey`); `cogroup` and the joins tag both sides, group them
and dispatch per key: every left value against every right value, with `None` for
a missing side in the outer joins, each side in some order (`valuesOf_joinWith`).
Whatever the aggregator and the fetch order, a shuffle's output is a map, with at
most one value per key (`isMap_combineByKey`).
-/

namespace SparkStreaming

/-- A dataset, PySpark's `RDD`: its partitions, in order. -/
structure RDD (α : Type) where
  partitions : List (List α)

/-- The empty dataset, with no partition. -/
instance {α : Type} : Inhabited (RDD α) := ⟨⟨[]⟩⟩

/-- The order in which one reduce partition of a shuffle fetches the map outputs:
some permutation, chosen per reduce partition. -/
structure ShuffleOrder where
  order : {β : Type} → Nat → List β → List β
  perm : ∀ {β : Type} (r : Nat) (l : List β), (order r l).Perm l

/-- Map outputs fetched in map-partition order. -/
def ShuffleOrder.inOrder : ShuffleOrder := ⟨fun _ l => l, fun _ _ => List.Perm.refl _⟩

/-- Map outputs fetched last partition first, as a reduce task may when the later map
outputs arrive first. -/
def ShuffleOrder.reversed : ShuffleOrder :=
  ⟨fun _ l => l.reverse, fun _ l => List.reverse_perm l⟩

/-- A shuffle of a streaming run: the call in `dstream.py` that starts it and the tick it
runs for. -/
structure ShuffleId where
  site : String
  tick : Nat
  deriving DecidableEq, Repr

/-- The fetch orders of a whole run: every shuffle of every tick fetches in its own order. -/
structure FetchOrder where
  shuffle : ShuffleId → ShuffleOrder

/-- Every shuffle fetched in map-partition order. -/
def FetchOrder.inOrder : FetchOrder := ⟨fun _ => ShuffleOrder.inOrder⟩

/-- Every shuffle fetched last map partition first. -/
def FetchOrder.reversed : FetchOrder := ⟨fun _ => ShuffleOrder.reversed⟩

variable {α β K V U W : Type}

/-! ## Algorithm -/

namespace RDD

/-- The elements, partition after partition. -/
def elems (r : RDD α) : List α := r.partitions.flatten

def union (a b : RDD α) : RDD α := ⟨a.partitions ++ b.partitions⟩

def mapPartitionsWithIndex (f : Nat → List α → List β) (r : RDD α) : RDD β :=
  ⟨r.partitions.mapIdx f⟩

def mapPartitions (f : List α → List β) (r : RDD α) : RDD β :=
  r.mapPartitionsWithIndex fun _ it => f it

def map (f : α → β) (r : RDD α) : RDD β := r.mapPartitions (List.map f)

def filter (p : α → Bool) (r : RDD α) : RDD α := r.mapPartitions (List.filter p)

def mapValues (f : V → W) (r : RDD (K × V)) : RDD (K × W) := r.map fun kv => (kv.1, f kv.2)

def flatMapValues (f : V → List W) (r : RDD (K × V)) : RDD (K × W) :=
  r.mapPartitions fun it => it.flatMap fun kv => (f kv.2).map (kv.1, ·)

end RDD

/-- The reduce partition of a key: `partitionFunc(k) % numPartitions`. -/
def bucket (partitionFunc : K → Int) (numPartitions : ℕ+) (k : K) : Nat :=
  (partitionFunc k % (numPartitions : Int)).toNat

variable [DecidableEq K]

/-- The values of key `k` in a list of pairs, in order. -/
def valuesOf (k : K) (ds : List (K × V)) : List V := (ds.filter (·.1 = k)).map (·.2)

/-- One key's entry in a merger dict: `createCombiner` on the first value,
`mergeValue` on each later one. -/
def combineStep (createCombiner : V → U) (mergeValue : U → V → U) (acc : Option U) (v : V) :
    Option U :=
  some (match acc with
    | none => createCombiner v
    | some u => mergeValue u v)

/-- The entry a merger dict holds for a key after seeing its values `vs`. -/
def combineAll (createCombiner : V → U) (mergeValue : U → V → U) (vs : List V) : Option U :=
  vs.foldl (combineStep createCombiner mergeValue) none

namespace Merger

/-- A Python dict update `d[k] = merge(d[k]) if k in d else create`, in insertion order. -/
def upsert (k : K) (merge : U → U) (create : U) : List (K × U) → List (K × U)
  | [] => [(k, create)]
  | (k', u) :: d => if k' = k then (k', merge u) :: d else (k', u) :: upsert k merge create d

/-- `ExternalMerger.mergeValues`: the pairs of one partition merged into a fresh dict. -/
def mergeValues (createCombiner : V → U) (mergeValue : U → V → U) (it : List (K × V)) :
    List (K × U) :=
  it.foldl (fun d kv => upsert kv.1 (mergeValue · kv.2) (createCombiner kv.2) d) []

/-- `ExternalMerger.mergeCombiners`: the same fold, over combiners. -/
def mergeCombiners (mergeCombiners : U → U → U) (it : List (K × U)) : List (K × U) :=
  mergeValues id mergeCombiners it

end Merger

namespace RDD

/-- `RDD.partitionBy`: reduce partition `i` reads the map partitions in
`so.order i` order and keeps the pairs of its bucket. -/
def partitionBy (so : ShuffleOrder) (numPartitions : ℕ+) (partitionFunc : K → Int)
    (r : RDD (K × V)) : RDD (K × V) :=
  ⟨(List.range numPartitions).map fun i =>
    (so.order i r.partitions).flatMap (List.filter fun kv => bucket partitionFunc numPartitions kv.1 = i)⟩

/-- `RDD.combineByKey`: `combineLocally`, the shuffle, then `_mergeCombiners`. -/
def combineByKey (so : ShuffleOrder) (createCombiner : V → U) (mergeValue : U → V → U)
    (mergeCombiners : U → U → U) (numPartitions : ℕ+) (partitionFunc : K → Int)
    (r : RDD (K × V)) : RDD (K × U) :=
  ((r.mapPartitions (Merger.mergeValues createCombiner mergeValue)).partitionBy so numPartitions
    partitionFunc).mapPartitions (Merger.mergeCombiners mergeCombiners)

/-- `RDD.reduceByKey`: `combineByKey(lambda x: x, func, func)`. -/
def reduceByKey (so : ShuffleOrder) (func : V → V → V) (numPartitions : ℕ+)
    (partitionFunc : K → Int) (r : RDD (K × V)) : RDD (K × V) :=
  r.combineByKey so id func func numPartitions partitionFunc

/-- `RDD.groupByKey`: lists as combiners. -/
def groupByKey (so : ShuffleOrder) (numPartitions : ℕ+) (partitionFunc : K → Int)
    (r : RDD (K × V)) : RDD (K × List V) :=
  r.combineByKey so (fun x => [x]) (fun xs x => xs ++ [x]) (· ++ ·)
    numPartitions partitionFunc

/-- `python_cogroup` of two datasets: tag, union, `groupByKey`, split by tag. -/
def cogroup (so : ShuffleOrder) (numPartitions : ℕ+) (partitionFunc : K → Int)
    (a : RDD (K × V)) (b : RDD (K × W)) : RDD (K × (List V × List W)) :=
  (((a.mapValues Sum.inl).union (b.mapValues Sum.inr)).groupByKey so numPartitions
    partitionFunc).mapValues fun seq => (seq.filterMap Sum.getLeft?, seq.filterMap Sum.getRight?)

/-- The `dispatch` of `python_join` and its outer variants: every left value of a key against
every right value, after `padV` and `padW` put `None` in for a side with no value. -/
def joinDispatch {V' W' : Type} (padV : List V → List V') (padW : List W → List W')
    (seq : List (V ⊕ W)) : List (V' × W') :=
  let vbuf := padV (seq.filterMap Sum.getLeft?)
  let wbuf := padW (seq.filterMap Sum.getRight?)
  vbuf.flatMap fun v => wbuf.map (v, ·)

/-- `if not buf: buf.append(None)`, the values present as `some`. -/
def padNone (vs : List V) : List (Option V) := if vs.isEmpty then [none] else vs.map some

/-- `_do_python_join`: tag both sides, union, `groupByKey`, then `dispatch`. -/
def joinWith {V' W' : Type} (padV : List V → List V') (padW : List W → List W')
    (so : ShuffleOrder) (numPartitions : ℕ+) (partitionFunc : K → Int) (a : RDD (K × V))
    (b : RDD (K × W)) : RDD (K × (V' × W')) :=
  (((a.mapValues Sum.inl).union (b.mapValues Sum.inr)).groupByKey so numPartitions
    partitionFunc).flatMapValues (joinDispatch padV padW)

/-- `python_join`. -/
def join (so : ShuffleOrder) (numPartitions : ℕ+) (partitionFunc : K → Int) (a : RDD (K × V))
    (b : RDD (K × W)) : RDD (K × (V × W)) :=
  joinWith id id so numPartitions partitionFunc a b

/-- `python_left_outer_join`: `None` for a missing right side. -/
def leftOuterJoin (so : ShuffleOrder) (numPartitions : ℕ+) (partitionFunc : K → Int)
    (a : RDD (K × V)) (b : RDD (K × W)) : RDD (K × (V × Option W)) :=
  joinWith id padNone so numPartitions partitionFunc a b

/-- `python_right_outer_join`: `None` for a missing left side. -/
def rightOuterJoin (so : ShuffleOrder) (numPartitions : ℕ+) (partitionFunc : K → Int)
    (a : RDD (K × V)) (b : RDD (K × W)) : RDD (K × (Option V × W)) :=
  joinWith padNone id so numPartitions partitionFunc a b

/-- `python_full_outer_join`: `None` for either missing side. -/
def fullOuterJoin (so : ShuffleOrder) (numPartitions : ℕ+) (partitionFunc : K → Int)
    (a : RDD (K × V)) (b : RDD (K × W)) : RDD (K × (Option V × Option W)) :=
  joinWith padNone padNone so numPartitions partitionFunc a b

end RDD

/-! ## Lemmas -/

namespace RDD

@[simp] theorem elems_union (a b : RDD α) : (a.union b).elems = a.elems ++ b.elems := by
  simp [union, elems]

@[simp] theorem partitions_mapPartitions (f : List α → List β) (r : RDD α) :
    (r.mapPartitions f).partitions = r.partitions.map f :=
  List.ext_getElem? fun i => by simp [mapPartitions, mapPartitionsWithIndex, List.getElem?_mapIdx]

theorem elems_mapPartitions (f : List α → List β) (r : RDD α) :
    (r.mapPartitions f).elems = (r.partitions.map f).flatten := by
  rw [elems, partitions_mapPartitions]

@[simp] theorem elems_map (f : α → β) (r : RDD α) : (r.map f).elems = r.elems.map f := by
  rw [map, elems_mapPartitions]; simp [List.map_flatten, elems]

@[simp] theorem elems_filter (p : α → Bool) (r : RDD α) :
    (r.filter p).elems = r.elems.filter p := by
  rw [filter, elems_mapPartitions]; simp [List.filter_flatten, elems]

end RDD

@[simp] theorem valuesOf_nil (k : K) : valuesOf k ([] : List (K × V)) = [] := rfl

theorem valuesOf_cons (k : K) (kv : K × V) (ds : List (K × V)) :
    valuesOf k (kv :: ds) = if kv.1 = k then kv.2 :: valuesOf k ds else valuesOf k ds := by
  by_cases h : kv.1 = k <;> simp [valuesOf, List.filter_cons, h]

@[simp] theorem valuesOf_append (k : K) (a b : List (K × V)) :
    valuesOf k (a ++ b) = valuesOf k a ++ valuesOf k b := by
  simp [valuesOf]

@[simp] theorem mem_valuesOf (k : K) (v : V) (ds : List (K × V)) :
    v ∈ valuesOf k ds ↔ (k, v) ∈ ds := by
  simp [valuesOf]

theorem valuesOf_eq_nil_iff (k : K) (ds : List (K × V)) :
    valuesOf k ds = [] ↔ k ∉ ds.map Prod.fst := by
  simp [List.eq_nil_iff_forall_not_mem]

/-- **Distinct keys, key by key.**  A dataset's keys are pairwise distinct exactly when every key
has at most one value. -/
theorem nodup_keys_iff (ds : List (K × V)) :
    (ds.map Prod.fst).Nodup ↔ ∀ k, (valuesOf k ds).length ≤ 1 := by
  induction ds with
  | nil => simp
  | cons kv ds ih =>
    obtain ⟨k', v⟩ := kv
    simp only [List.map_cons, List.nodup_cons, ih, valuesOf_cons, ← valuesOf_eq_nil_iff]
    constructor
    · rintro ⟨h1, h2⟩ k
      by_cases hk : k' = k
      · subst hk; simp [h1]
      · simpa [hk] using h2 k
    · intro h
      have h1 : valuesOf k' ds = [] := by simpa using h k'
      refine ⟨h1, fun k => ?_⟩
      by_cases hk : k' = k
      · subst hk; simp [h1]
      · simpa [hk] using h k

theorem valuesOf_flatten (k : K) (L : List (List (K × V))) :
    valuesOf k L.flatten = (L.map (valuesOf k)).flatten := by
  induction L <;> simp_all

theorem valuesOf_filter_key (k : K) (p : K → Bool) (ds : List (K × V)) :
    valuesOf k (ds.filter fun kv => p kv.1) = if p k then valuesOf k ds else [] := by
  induction ds with
  | nil => simp
  | cons kv ds ih =>
    by_cases hk : kv.1 = k
    · subst hk; by_cases hp : p kv.1 <;> simp_all [List.filter_cons, valuesOf_cons]
    · simp only [List.filter_cons, valuesOf_cons, hk]
      split <;> simp_all [valuesOf_cons]

theorem valuesOf_filter (k : K) (p : K × V → Bool) (ds : List (K × V)) :
    valuesOf k (ds.filter p) = (valuesOf k ds).filter fun v => p (k, v) := by
  induction ds with
  | nil => rfl
  | cons kv ds ih =>
    obtain ⟨k', v⟩ := kv
    by_cases hk : k' = k
    · subst hk; by_cases hp : p (k', v) <;> simp_all [List.filter_cons, valuesOf_cons]
    · by_cases hp : p (k', v) <;> simp_all [List.filter_cons, valuesOf_cons]

@[simp] theorem valuesOf_map_snd (k : K) (f : V → W) (ds : List (K × V)) :
    valuesOf k (ds.map fun kv => (kv.1, f kv.2)) = (valuesOf k ds).map f := by
  induction ds with
  | nil => rfl
  | cons kv ds ih => by_cases hk : kv.1 = k <;> simp_all [valuesOf_cons]

theorem valuesOf_flatMap_snd (k : K) (f : V → List W) (ds : List (K × V)) :
    valuesOf k (ds.flatMap fun kv => (f kv.2).map (kv.1, ·)) = (valuesOf k ds).flatMap f := by
  induction ds with
  | nil => rfl
  | cons kv ds ih =>
    have hpair : ∀ k' : K, valuesOf k ((f kv.2).map (k', ·)) = if k' = k then f kv.2 else [] := by
      intro k'; induction f kv.2 <;> by_cases hk : k' = k <;> simp_all [valuesOf_cons]
    by_cases hk : kv.1 = k <;> simp_all [valuesOf_cons]

/-- Every element under the key `k₀`: the values of `k₀` are the elements, and no other key
has any. -/
theorem valuesOf_map_key (k₀ k : K) (xs : List V) :
    valuesOf k (xs.map fun x => (k₀, x)) = if k₀ = k then xs else [] := by
  induction xs with
  | nil => split <;> rfl
  | cons x xs ih => by_cases h : k₀ = k <;> simp_all [valuesOf_cons]

/-- The values of `x` once every element is paired with `c`: one `c` per occurrence of `x`. -/
theorem valuesOf_map_pair (l : List K) (c : V) (x : K) :
    valuesOf x (l.map fun y => (y, c)) = List.replicate (l.count x) c := by
  induction l with
  | nil => rfl
  | cons y l ih =>
    by_cases h : y = x
    · subst h; simp [valuesOf_cons, ih, List.replicate_succ]
    · simp [valuesOf_cons, ih, h, List.count_cons, Ne.symm h]

/-- Dropping the keys of a dataset whose only key is `k₀` leaves the values of `k₀`. -/
theorem map_snd_eq_valuesOf (k₀ : K) (ds : List (K × V))
    (h : ∀ k, k ≠ k₀ → valuesOf k ds = []) : ds.map (fun kv => kv.2) = valuesOf k₀ ds := by
  induction ds with
  | nil => rfl
  | cons kv ds ih =>
    obtain ⟨k, v⟩ := kv
    obtain rfl : k = k₀ := by
      by_contra hne
      simpa [valuesOf_cons] using h k hne
    rw [List.map_cons, valuesOf_cons, if_pos rfl,
      ih fun k' hk' => by simpa [valuesOf_cons, Ne.symm hk'] using h k' hk']

/-! ### The merger dict -/

theorem valuesOf_upsert (k k' : K) (merge : U → U) (create : U) (d : List (K × U)) :
    valuesOf k (Merger.upsert k' merge create d) =
      if k' = k then
        (match valuesOf k d with
          | [] => [create]
          | u :: us => merge u :: us)
      else valuesOf k d := by
  induction d with
  | nil => by_cases h : k' = k <;> simp [Merger.upsert, valuesOf_cons, h]
  | cons p d ih =>
    obtain ⟨k'', u⟩ := p
    by_cases h1 : k'' = k' <;> by_cases h2 : k'' = k <;> by_cases h3 : k' = k <;>
      simp_all [Merger.upsert, valuesOf_cons]

theorem valuesOf_mergeValues_foldl (createCombiner : V → U) (mergeValue : U → V → U) (k : K)
    (it : List (K × V)) (d : List (K × U)) (o : Option U) (hd : valuesOf k d = o.toList) :
    valuesOf k (it.foldl (fun d kv => Merger.upsert kv.1 (mergeValue · kv.2)
        (createCombiner kv.2) d) d) =
      ((valuesOf k it).foldl (combineStep createCombiner mergeValue) o).toList := by
  induction it generalizing d o with
  | nil => simpa using hd
  | cons kv it ih =>
    simp only [List.foldl_cons, valuesOf_cons]
    by_cases hk : kv.1 = k
    · rw [if_pos hk, List.foldl_cons]
      refine ih _ (combineStep createCombiner mergeValue o kv.2) ?_
      cases o <;> simp_all [valuesOf_upsert, combineStep]
    · rw [if_neg hk]
      exact ih _ o (by simp [valuesOf_upsert, hk, hd])

/-- **One key of a merged partition.**  The dict holds the key once, with the
combiner of its values in order. -/
theorem valuesOf_mergeValues (createCombiner : V → U) (mergeValue : U → V → U) (k : K)
    (it : List (K × V)) :
    valuesOf k (Merger.mergeValues createCombiner mergeValue it) =
      (combineAll createCombiner mergeValue (valuesOf k it)).toList :=
  valuesOf_mergeValues_foldl _ _ k it [] none rfl

/-! ### The shuffle -/

omit [DecidableEq K] in
theorem bucket_lt (partitionFunc : K → Int) (numPartitions : ℕ+) (k : K) :
    bucket partitionFunc numPartitions k < numPartitions := by
  have hn : (0 : Int) < numPartitions := by exact_mod_cast numPartitions.pos
  have h1 := Int.emod_nonneg (partitionFunc k) hn.ne'
  have h2 := Int.emod_lt_of_pos (partitionFunc k) hn
  unfold bucket; omega

/-- Only the bucket's own entry of a list indexed by `range n` survives. -/
theorem flatten_range_ite (n b : Nat) (hb : b < n) (x : List β) :
    ((List.range n).map fun i => if b = i then x else []).flatten = x := by
  induction n with
  | zero => omega
  | succ n ih =>
    rw [List.range_succ, List.map_append, List.flatten_append]
    by_cases h : b = n
    · subst h
      have hz : ((List.range b).map fun i => if b = i then x else []).flatten = [] := by
        simp only [List.flatten_eq_nil_iff, List.mem_map, List.mem_range]
        rintro _ ⟨i, hi, rfl⟩; simp [Nat.ne_of_gt hi]
      simp [hz]
    · simp [ih (by omega), h]

/-- **A key's values after a per-partition dict merge behind a shuffle.**  Only
the key's bucket holds it, fed by the map partitions in that bucket's fetch order. -/
theorem valuesOf_partitionBy_mapPartitions (so : ShuffleOrder) (numPartitions : ℕ+)
    (partitionFunc : K → Int) (r : RDD (K × V)) (f : List (K × V) → List (K × U))
    (F : List V → List U) (hf : ∀ it, valuesOf k (f it) = F (valuesOf k it)) (hF : F [] = []) :
    valuesOf k ((r.partitionBy so numPartitions partitionFunc).mapPartitions f).elems =
      F (valuesOf k (so.order (bucket partitionFunc numPartitions k) r.partitions).flatten) := by
  rw [RDD.elems_mapPartitions, valuesOf_flatten, List.map_map, RDD.partitionBy, List.map_map]
  refine (congrArg List.flatten (List.map_congr_left fun i _ => ?_)).trans
    (flatten_range_ite numPartitions _ (bucket_lt partitionFunc numPartitions k) _)
  simp only [Function.comp, hf, List.flatMap, ← List.filter_flatten]
  rw [valuesOf_filter_key (p := fun k' => decide (bucket partitionFunc numPartitions k' = i))]
  by_cases h : bucket partitionFunc numPartitions k = i
  · subst h; simp
  · simp [h, hF]

/-- **One key of `combineByKey`.**  The combiners of the key's map-side entries,
merged in the fetch order of its bucket. -/
theorem valuesOf_combineByKey (so : ShuffleOrder) (createCombiner : V → U)
    (mergeValue : U → V → U) (mergeCombiners : U → U → U) (numPartitions : ℕ+)
    (partitionFunc : K → Int) (r : RDD (K × V)) (k : K) :
    valuesOf k (r.combineByKey so createCombiner mergeValue mergeCombiners numPartitions
        partitionFunc).elems =
      (combineAll id mergeCombiners (valuesOf k (so.order (bucket partitionFunc numPartitions k)
        (r.partitions.map (Merger.mergeValues createCombiner mergeValue))).flatten)).toList := by
  have h := valuesOf_partitionBy_mapPartitions so numPartitions partitionFunc
    (r.mapPartitions (Merger.mergeValues createCombiner mergeValue))
    (Merger.mergeCombiners mergeCombiners) (fun vs => (combineAll id mergeCombiners vs).toList)
    (fun it => valuesOf_mergeValues id mergeCombiners k it) rfl
  rwa [RDD.partitions_mapPartitions] at h

/-- A key's values, fetched in any order, are a permutation of its values in map-partition
order. -/
theorem valuesOf_order_perm (so : ShuffleOrder) (b : Nat) (ps : List (List (K × V))) (k : K) :
    (valuesOf k (so.order b ps).flatten).Perm (valuesOf k ps.flatten) :=
  ((so.perm b ps).flatten.filter _).map _

/-- **One key of `combineByKey`, in every fetch order**: the key's map-side combiners, in
some order, merged. -/
theorem valuesOf_combineByKey_perm (so : ShuffleOrder) (createCombiner : V → U)
    (mergeValue : U → V → U) (mergeCombiners : U → U → U) (numPartitions : ℕ+)
    (partitionFunc : K → Int) (r : RDD (K × V)) (k : K) :
    ∃ us, us.Perm (valuesOf k (r.partitions.map (Merger.mergeValues createCombiner
        mergeValue)).flatten) ∧
      valuesOf k (r.combineByKey so createCombiner mergeValue mergeCombiners numPartitions
        partitionFunc).elems = (combineAll id mergeCombiners us).toList :=
  ⟨_, valuesOf_order_perm so _ _ k, valuesOf_combineByKey so createCombiner mergeValue
    mergeCombiners numPartitions partitionFunc r k⟩

/-! ### Merging in another order -/

section Algebra

@[simp] theorem combineStep_none (createCombiner : V → U) (mergeValue : U → V → U) (v : V) :
    combineStep createCombiner mergeValue none v = some (createCombiner v) := rfl

@[simp] theorem combineStep_some (createCombiner : V → U) (mergeValue : U → V → U) (u : U)
    (v : V) : combineStep createCombiner mergeValue (some u) v = some (mergeValue u v) := rfl

@[simp] theorem toList_eq_nil (o : Option U) : o.toList = [] ↔ o = none := by
  cases o <;> simp

theorem foldl_combineStep_ne_none (createCombiner : V → U) (mergeValue : U → V → U) (u : U)
    (vs : List V) : vs.foldl (combineStep createCombiner mergeValue) (some u) ≠ none := by
  induction vs generalizing u with
  | nil => simp
  | cons v vs ih => exact ih _

/-- A key has an entry exactly when it has a value. -/
@[simp] theorem combineAll_eq_none (createCombiner : V → U) (mergeValue : U → V → U)
    (vs : List V) : combineAll createCombiner mergeValue vs = none ↔ vs = [] := by
  cases vs with
  | nil => simp [combineAll]
  | cons v vs => simpa [combineAll] using foldl_combineStep_ne_none _ mergeValue _ vs

variable (f : V → V → V)

theorem foldl_combineStep_some (createCombiner : U → V) (u : V) (us : List U) :
    us.foldl (combineStep createCombiner (fun a b => f a (createCombiner b))) (some u) =
      some (us.foldl (fun a b => f a (createCombiner b)) u) := by
  induction us generalizing u <;> simp_all

/-- A consistent aggregator merges a value as the combiner it would create. -/
theorem combineAll_eq_map (createCombiner : U → V) (vs : List U) :
    combineAll createCombiner (fun a b => f a (createCombiner b)) vs =
      combineAll id f (vs.map createCombiner) := by
  cases vs with
  | nil => rfl
  | cons u us =>
    calc combineAll createCombiner _ (u :: us)
        = some (us.foldl (fun a b => f a (createCombiner b)) (createCombiner u)) :=
          foldl_combineStep_some f createCombiner _ us
      _ = some ((us.map createCombiner).foldl f (createCombiner u)) := by rw [List.foldl_map]
      _ = _ := (foldl_combineStep_some f id _ _).symm

@[simp] theorem combineAll_toList (o : Option V) : combineAll id f o.toList = o := by
  cases o <;> rfl

@[simp] theorem merge_none_left (o : Option V) : Option.merge f none o = o := by
  cases o <;> rfl

@[simp] theorem merge_none_right (o : Option V) : Option.merge f o none = o := by
  cases o <;> rfl

variable {f}

theorem combineAll_append (hassoc : ∀ a b c, f (f a b) c = f a (f b c)) (xs ys : List V) :
    combineAll id f (xs ++ ys) = Option.merge f (combineAll id f xs) (combineAll id f ys) := by
  unfold combineAll
  rw [List.foldl_append]
  generalize xs.foldl (combineStep id f) none = o
  induction ys generalizing o with
  | nil => cases o <;> rfl
  | cons y ys ih =>
    rw [List.foldl_cons, List.foldl_cons, ih, ih (combineStep id f none y)]
    cases o <;> cases ys.foldl (combineStep id f) none <;> simp [Option.merge, hassoc]

/-- **Merging partial combiners.**  For an associative `f`, combining the
per-piece results gives what combining the whole list gives. -/
theorem combineAll_flatten (hassoc : ∀ a b c, f (f a b) c = f a (f b c))
    (L : List (List V)) :
    combineAll id f ((L.map fun p => (combineAll id f p).toList).flatten) =
      combineAll id f L.flatten := by
  induction L with
  | nil => rfl
  | cons p L ih =>
    simp only [List.map_cons, List.flatten_cons, combineAll_append hassoc, ih,
      combineAll_toList]

/-- **Fetch order drops out.**  For an associative and commutative `f`, the
order of the values does not matter. -/
theorem combineAll_perm (hassoc : ∀ a b c, f (f a b) c = f a (f b c))
    (hcomm : ∀ a b, f a b = f b a) {l₁ l₂ : List V} (h : l₁.Perm l₂) :
    combineAll id f l₁ = combineAll id f l₂ :=
  h.foldl_eq' (fun x _ y _ z => by
    cases z with
    | none => simp [hcomm x y]
    | some a => simp only [combineStep_some]; rw [hassoc, hassoc, hcomm x y]) none

/-- Under addition, a nonempty list combines to its sum. -/
theorem combineAll_add {M : Type} [AddMonoid M] (l : List M) :
    combineAll id (· + ·) l = if l.isEmpty then none else some l.sum := by
  cases l with
  | nil => rfl
  | cons a l =>
    have h : ∀ b, l.foldl (· + ·) b = b + l.sum := by
      induction l with
      | nil => intro b; exact (add_zero b).symm
      | cons c l ih => intro b; rw [List.foldl_cons, ih, List.sum_cons, add_assoc]
    calc combineAll id (· + ·) (a :: l) = some (l.foldl (· + ·) a) :=
          foldl_combineStep_some (· + ·) id a l
      _ = _ := by rw [h, List.isEmpty_cons, if_neg Bool.false_ne_true, List.sum_cons]

/-- Adding up `n` ones gives `n`. -/
theorem combineAll_replicate_one (n : Nat) :
    combineAll id (· + ·) (List.replicate n (1 : Int)) = if n = 0 then none else some (n : Int) := by
  have hsum : ∀ n, (List.replicate n (1 : Int)).sum = n := fun n => by
    induction n with
    | zero => rfl
    | succ n ih =>
      rw [List.replicate_succ, List.sum_cons, ih, Int.natCast_add, Int.add_comm]; rfl
  rw [combineAll_add, hsum]
  cases n <;> rfl

end Algebra

/-- **A key survives the shuffle exactly when it has a value**, in every fetch order. -/
theorem valuesOf_combineByKey_eq_nil (so : ShuffleOrder) (createCombiner : V → U)
    (mergeValue : U → V → U) (mergeCombiners : U → U → U) (numPartitions : ℕ+)
    (partitionFunc : K → Int) (r : RDD (K × V)) (k : K) :
    valuesOf k (r.combineByKey so createCombiner mergeValue mergeCombiners numPartitions
        partitionFunc).elems = [] ↔ valuesOf k r.elems = [] := by
  obtain ⟨us, hus, h⟩ := valuesOf_combineByKey_perm so createCombiner mergeValue mergeCombiners
    numPartitions partitionFunc r k
  rw [h, toList_eq_nil, combineAll_eq_none, ← List.length_eq_zero, hus.length_eq,
    List.length_eq_zero]
  simp only [valuesOf_flatten, List.map_map, List.flatten_eq_nil_iff, List.mem_map,
    Function.comp_apply, valuesOf_mergeValues, forall_exists_index, and_imp,
    forall_apply_eq_imp_iff₂, toList_eq_nil, combineAll_eq_none, RDD.elems]

section Aggregator

variable (createCombiner : V → U) (mergeCombiners : U → U → U)
  (hassoc : ∀ a b c, mergeCombiners (mergeCombiners a b) c = mergeCombiners a (mergeCombiners b c))
include hassoc

theorem combineAll_mergeValues_flatten (k : K) (ps : List (List (K × V))) :
    combineAll id mergeCombiners (valuesOf k
        (ps.map (Merger.mergeValues createCombiner fun a b =>
          mergeCombiners a (createCombiner b))).flatten) =
      combineAll createCombiner (fun a b => mergeCombiners a (createCombiner b))
        (valuesOf k ps.flatten) := by
  have hpiece : ∀ p : List (K × V), valuesOf k (Merger.mergeValues createCombiner
      (fun a b => mergeCombiners a (createCombiner b)) p) =
      (combineAll id mergeCombiners ((valuesOf k p).map createCombiner)).toList := fun p => by
    rw [valuesOf_mergeValues, combineAll_eq_map]
  calc _ = combineAll id mergeCombiners (((ps.map fun p => (valuesOf k p).map createCombiner).map
          fun q => (combineAll id mergeCombiners q).toList).flatten) := by
        rw [valuesOf_flatten, List.map_map, List.map_map]; simp only [Function.comp_def, hpiece]
    _ = combineAll id mergeCombiners (ps.map fun p => (valuesOf k p).map createCombiner).flatten :=
        combineAll_flatten hassoc _
    _ = _ := by rw [combineAll_eq_map, valuesOf_flatten, List.map_flatten, List.map_map]; rfl

/-- **`combineByKey` fetched in order.**  With a consistent aggregator whose
`mergeCombiners` is associative, one key's entry combines its values in
dataset order. -/
theorem valuesOf_combineByKey_inOrder (numPartitions : ℕ+) (partitionFunc : K → Int)
    (r : RDD (K × V)) (k : K) :
    valuesOf k (r.combineByKey ShuffleOrder.inOrder createCombiner
        (fun a b => mergeCombiners a (createCombiner b)) mergeCombiners numPartitions
        partitionFunc).elems =
      (combineAll createCombiner (fun a b => mergeCombiners a (createCombiner b))
        (valuesOf k r.elems)).toList := by
  rw [valuesOf_combineByKey]
  exact congrArg Option.toList (combineAll_mergeValues_flatten _ _ hassoc k _)

/-- **`combineByKey` in any fetch order.**  When `mergeCombiners` is also
commutative, one key's entry does not depend on the fetch order. -/
theorem valuesOf_combineByKey_comm (hcomm : ∀ a b, mergeCombiners a b = mergeCombiners b a)
    (so : ShuffleOrder) (numPartitions : ℕ+) (partitionFunc : K → Int) (r : RDD (K × V))
    (k : K) :
    valuesOf k (r.combineByKey so createCombiner
        (fun a b => mergeCombiners a (createCombiner b)) mergeCombiners numPartitions
        partitionFunc).elems =
      (combineAll createCombiner (fun a b => mergeCombiners a (createCombiner b))
        (valuesOf k r.elems)).toList := by
  rw [valuesOf_combineByKey]
  exact congrArg Option.toList ((combineAll_perm hassoc hcomm (valuesOf_order_perm so _ _ k)).trans
    (combineAll_mergeValues_flatten _ _ hassoc k r.partitions))

end Aggregator

/-! ### The keyed operations, one key at a time -/

namespace RDD

theorem valuesOf_reduceByKey (func : V → V → V)
    (hassoc : ∀ a b c, func (func a b) c = func a (func b c)) (hcomm : ∀ a b, func a b = func b a)
    (so : ShuffleOrder) (numPartitions : ℕ+) (partitionFunc : K → Int) (r : RDD (K × V))
    (k : K) :
    valuesOf k (r.reduceByKey so func numPartitions partitionFunc).elems =
      (combineAll id func (valuesOf k r.elems)).toList :=
  valuesOf_combineByKey_comm id func hassoc hcomm so numPartitions partitionFunc r k

theorem valuesOf_reduceByKey_inOrder (func : V → V → V)
    (hassoc : ∀ a b c, func (func a b) c = func a (func b c)) (numPartitions : ℕ+)
    (partitionFunc : K → Int) (r : RDD (K × V)) (k : K) :
    valuesOf k (r.reduceByKey ShuffleOrder.inOrder func numPartitions partitionFunc).elems =
      (combineAll id func (valuesOf k r.elems)).toList :=
  valuesOf_combineByKey_inOrder id func hassoc numPartitions partitionFunc r k

theorem valuesOf_reduceByKey_eq_nil (so : ShuffleOrder) (func : V → V → V)
    (numPartitions : ℕ+) (partitionFunc : K → Int) (r : RDD (K × V)) (k : K) :
    valuesOf k (r.reduceByKey so func numPartitions partitionFunc).elems = [] ↔
      valuesOf k r.elems = [] :=
  valuesOf_combineByKey_eq_nil so id func func numPartitions partitionFunc r k

end RDD

/-- `reduceByKey` gives every key the reduce of its values in dataset order, in every shuffle
of the run: true in every schedule for an associative and commutative `func`
(`reducesInOrder_of_comm`), and for an associative one when every shuffle fetches in order
(`reducesInOrder_inOrder`). -/
def ReducesInOrder (fo : FetchOrder) (func : V → V → V) (numPartitions : ℕ+)
    (partitionFunc : K → Int) : Prop :=
  ∀ (sh : ShuffleId) (r : RDD (K × V)) (k : K),
    valuesOf k (r.reduceByKey (fo.shuffle sh) func numPartitions partitionFunc).elems =
      (combineAll id func (valuesOf k r.elems)).toList

theorem reducesInOrder_of_comm {func : V → V → V}
    (hassoc : ∀ a b c, func (func a b) c = func a (func b c)) (hcomm : ∀ a b, func a b = func b a)
    (fo : FetchOrder) (numPartitions : ℕ+) (partitionFunc : K → Int) :
    ReducesInOrder fo func numPartitions partitionFunc := fun sh =>
  RDD.valuesOf_reduceByKey func hassoc hcomm (fo.shuffle sh) numPartitions partitionFunc

theorem reducesInOrder_inOrder {func : V → V → V}
    (hassoc : ∀ a b c, func (func a b) c = func a (func b c)) (numPartitions : ℕ+)
    (partitionFunc : K → Int) : ReducesInOrder FetchOrder.inOrder func numPartitions partitionFunc :=
  fun _ => RDD.valuesOf_reduceByKey_inOrder func hassoc numPartitions partitionFunc

/-- A list of at most one element has no other permutation. -/
theorem eq_toList_of_perm {xs : List V} {o : Option V} (h : xs.Perm o.toList) : xs = o.toList := by
  cases o with
  | none => exact List.perm_nil.1 h
  | some v => exact List.perm_singleton.1 h

namespace RDD

theorem combineAll_singleton (vs : List V) :
    combineAll (fun x => [x]) (fun xs x => xs ++ [x]) vs = if vs.isEmpty then none else some vs := by
  cases vs with
  | nil => rfl
  | cons v vs =>
    have h : ∀ acc : List V, vs.foldl (fun xs x => xs ++ [x]) acc = acc ++ vs := by
      induction vs <;> simp_all
    simpa [combineAll, h] using foldl_combineStep_some (· ++ ·) (fun x => [x]) [v] vs

/-- Under append, a nonempty list of lists combines to its concatenation. -/
theorem combineAll_append_lists (L : List (List V)) :
    combineAll id (· ++ ·) L = if L.isEmpty then none else some L.flatten := by
  cases L with
  | nil => rfl
  | cons l L =>
    have h : ∀ acc : List V, L.foldl (· ++ ·) acc = acc ++ L.flatten := by
      induction L <;> simp_all
    simpa [combineAll, h] using foldl_combineStep_some (· ++ ·) id l L

/-- **One key of `groupByKey`, in every fetch order**: nothing for a key with no value,
otherwise one list of the key's values in some order. -/
theorem valuesOf_groupByKey (so : ShuffleOrder) (numPartitions : ℕ+) (partitionFunc : K → Int)
    (r : RDD (K × V)) (k : K) :
    ∃ vs, vs.Perm (valuesOf k r.elems) ∧
      valuesOf k (r.groupByKey so numPartitions partitionFunc).elems =
        if (valuesOf k r.elems).isEmpty then [] else [vs] := by
  obtain ⟨us, hus, h⟩ := valuesOf_combineByKey_perm so (fun x : V => [x]) (fun xs x => xs ++ [x])
    (· ++ ·) numPartitions partitionFunc r k
  -- fetched in map-partition order, the key's lists concatenate to its values
  have hW := combineAll_mergeValues_flatten (fun x : V => [x]) (· ++ ·) List.append_assoc k
    r.partitions
  rw [combineAll_singleton, combineAll_append_lists, ← hus.isEmpty_eq,
    show r.partitions.flatten = r.elems from rfl] at hW
  rw [groupByKey, h, combineAll_append_lists]
  generalize valuesOf k (r.partitions.map _).flatten = W at hus hW
  generalize valuesOf k r.elems = vs at hW ⊢
  cases hu : us.isEmpty <;> cases hv : vs.isEmpty <;>
    simp only [hu, hv, Bool.false_eq_true, if_true, if_false, reduceCtorEq,
      Option.some.injEq] at hW ⊢
  · exact ⟨us.flatten, hW ▸ hus.flatten, rfl⟩
  · exact ⟨[], by rw [List.isEmpty_iff.1 hv], rfl⟩

@[simp] theorem valuesOf_mapValues (f : V → W) (r : RDD (K × V)) (k : K) :
    valuesOf k (r.mapValues f).elems = (valuesOf k r.elems).map f := by
  simp [mapValues]

theorem valuesOf_flatMapValues (f : V → List W) (r : RDD (K × V)) (k : K) :
    valuesOf k (r.flatMapValues f).elems = (valuesOf k r.elems).flatMap f := by
  obtain ⟨ps⟩ := r
  rw [flatMapValues, elems_mapPartitions, elems]
  induction ps with
  | nil => rfl
  | cons p ps ih =>
    simp only [List.map_cons, List.flatten_cons, valuesOf_append, List.flatMap_append,
      valuesOf_flatMap_snd, ih]

theorem valuesOf_filter_elems (p : K × V → Bool) (r : RDD (K × V)) (k : K) :
    valuesOf k (r.filter p).elems = (valuesOf k r.elems).filter fun v => p (k, v) := by
  rw [elems_filter, valuesOf_filter]

@[simp] theorem valuesOf_union (a b : RDD (K × V)) (k : K) :
    valuesOf k (a.union b).elems = valuesOf k a.elems ++ valuesOf k b.elems := by
  simp

/-- The values of one key after tagging both sides and taking their union. -/
theorem valuesOf_tagged (a : RDD (K × V)) (b : RDD (K × W)) (k : K) :
    valuesOf k ((a.mapValues Sum.inl).union (b.mapValues Sum.inr)).elems =
      (valuesOf k a.elems).map Sum.inl ++ (valuesOf k b.elems).map Sum.inr := by
  simp

theorem isEmpty_tagged (xs : List V) (ys : List W) :
    (xs.map Sum.inl ++ ys.map Sum.inr).isEmpty = (xs.isEmpty && ys.isEmpty) := by
  cases xs <;> cases ys <;> rfl

@[simp] theorem filterMap_getLeft_tagged (xs : List V) (ys : List W) :
    (xs.map Sum.inl ++ ys.map Sum.inr).filterMap Sum.getLeft? = xs := by
  induction xs <;> simp_all [List.filterMap_map, Function.comp_def]

@[simp] theorem filterMap_getRight_tagged (xs : List V) (ys : List W) :
    (xs.map Sum.inl ++ ys.map Sum.inr).filterMap Sum.getRight? = ys := by
  induction xs <;> simp_all [List.filterMap_map, Function.comp_def]

/-- The tagged values of a key, grouped in some order: either side's values, in some order. -/
theorem valuesOf_groupByKey_tagged (so : ShuffleOrder) (numPartitions : ℕ+)
    (partitionFunc : K → Int) (a : RDD (K × V)) (b : RDD (K × W)) (k : K) :
    ∃ seq : List (V ⊕ W), (seq.filterMap Sum.getLeft?).Perm (valuesOf k a.elems) ∧
      (seq.filterMap Sum.getRight?).Perm (valuesOf k b.elems) ∧
      valuesOf k (((a.mapValues Sum.inl).union (b.mapValues Sum.inr)).groupByKey so numPartitions
        partitionFunc).elems =
        if (valuesOf k a.elems).isEmpty && (valuesOf k b.elems).isEmpty then [] else [seq] := by
  obtain ⟨seq, hseq, h⟩ := valuesOf_groupByKey so numPartitions partitionFunc
    ((a.mapValues Sum.inl).union (b.mapValues Sum.inr)) k
  rw [valuesOf_tagged] at hseq h
  rw [isEmpty_tagged] at h
  have hl := hseq.filterMap Sum.getLeft?
  have hr := hseq.filterMap Sum.getRight?
  rw [filterMap_getLeft_tagged] at hl
  rw [filterMap_getRight_tagged] at hr
  exact ⟨seq, hl, hr, h⟩

/-- **The joins, one key at a time, in every fetch order**: nothing for a key on neither side;
otherwise every padded left value against every padded right value, each side in some order. -/
theorem valuesOf_joinWith {V' W' : Type} (padV : List V → List V') (padW : List W → List W')
    (so : ShuffleOrder) (numPartitions : ℕ+) (partitionFunc : K → Int) (a : RDD (K × V))
    (b : RDD (K × W)) (k : K) :
    ∃ (xs : List V) (ys : List W), xs.Perm (valuesOf k a.elems) ∧ ys.Perm (valuesOf k b.elems) ∧
      valuesOf k (joinWith padV padW so numPartitions partitionFunc a b).elems =
        if (valuesOf k a.elems).isEmpty && (valuesOf k b.elems).isEmpty then []
        else (padV xs).flatMap fun v => (padW ys).map (v, ·) := by
  obtain ⟨seq, hl, hr, h⟩ := valuesOf_groupByKey_tagged so numPartitions partitionFunc a b k
  refine ⟨_, _, hl, hr, ?_⟩
  rw [joinWith, valuesOf_flatMapValues, h]
  split <;> simp only [List.flatMap_nil, List.flatMap_cons, List.append_nil, joinDispatch]

theorem valuesOf_leftOuterJoin (so : ShuffleOrder) (numPartitions : ℕ+) (partitionFunc : K → Int)
    (a : RDD (K × V)) (b : RDD (K × W)) (k : K) :
    ∃ (xs : List V) (ys : List W), xs.Perm (valuesOf k a.elems) ∧ ys.Perm (valuesOf k b.elems) ∧
      valuesOf k (leftOuterJoin so numPartitions partitionFunc a b).elems =
        xs.flatMap fun v => (padNone ys).map (v, ·) := by
  obtain ⟨xs, ys, hx, hy, h⟩ := valuesOf_joinWith id padNone so numPartitions partitionFunc a b k
  refine ⟨xs, ys, hx, hy, ?_⟩
  rw [leftOuterJoin, h]
  split
  · rename_i hab
    simp only [Bool.and_eq_true, List.isEmpty_eq_true] at hab
    rw [hab.1, List.perm_nil] at hx
    simp [hx]
  · rfl

/-! ### Maps: at most one value per key -/

/-- The dataset is a map: every key has at most one value. -/
def IsMap (r : RDD (K × V)) : Prop := ∀ k, (valuesOf k r.elems).length ≤ 1

theorem isMap_iff_nodup (r : RDD (K × V)) : r.IsMap ↔ (r.elems.map Prod.fst).Nodup :=
  (nodup_keys_iff _).symm

/-- **A shuffle's output is a map**, for every aggregator and fetch order: one reduce partition
holds all of a key's combiners and merges them into one. -/
theorem isMap_combineByKey (so : ShuffleOrder) (createCombiner : V → U) (mergeValue : U → V → U)
    (mergeCombiners : U → U → U) (numPartitions : ℕ+) (partitionFunc : K → Int) (r : RDD (K × V)) :
    (r.combineByKey so createCombiner mergeValue mergeCombiners numPartitions partitionFunc).IsMap :=
  fun k => by
    rw [valuesOf_combineByKey]
    cases combineAll id mergeCombiners _ <;> simp

theorem isMap_reduceByKey (so : ShuffleOrder) (func : V → V → V) (numPartitions : ℕ+)
    (partitionFunc : K → Int) (r : RDD (K × V)) :
    (r.reduceByKey so func numPartitions partitionFunc).IsMap :=
  isMap_combineByKey so id func func numPartitions partitionFunc r

theorem IsMap.filter {r : RDD (K × V)} (h : r.IsMap) (p : K × V → Bool) : (r.filter p).IsMap :=
  fun k => by
    rw [valuesOf_filter_elems]
    exact (List.length_filter_le _ _).trans (h k)

theorem IsMap.mapValues {r : RDD (K × V)} (h : r.IsMap) (f : V → W) : (r.mapValues f).IsMap :=
  fun k => by
    rw [valuesOf_mapValues, List.length_map]
    exact h k

/-- A left outer join of two maps is a map: one left value against one right value or `None`. -/
theorem IsMap.leftOuterJoin {a : RDD (K × V)} {b : RDD (K × W)} (ha : a.IsMap) (hb : b.IsMap)
    (so : ShuffleOrder) (numPartitions : ℕ+) (partitionFunc : K → Int) :
    (leftOuterJoin so numPartitions partitionFunc a b).IsMap := fun k => by
  obtain ⟨xs, ys, hx, hy, h⟩ := valuesOf_leftOuterJoin so numPartitions partitionFunc a b k
  have ha' := hx.length_eq ▸ ha k
  have hb' := hy.length_eq ▸ hb k
  rw [h]
  rcases xs with _ | ⟨x, _ | ⟨_, _⟩⟩
  · simp
  · rcases ys with _ | ⟨y, _ | ⟨_, _⟩⟩ <;> simp [padNone] at hb' ⊢
  · simp at ha'

end RDD

end SparkStreaming
