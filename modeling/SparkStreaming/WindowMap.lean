import SparkStreaming.ReduceWindow

/-!
# What the windowed reduce emits, whatever its functions

The results of `ReduceWindow.lean` on values need laws on `func` and `invFunc`;
which keys come out does not.  Every dataset `reduceByKeyAndWindow` emits is a
map, and holds only keys some batch has brought before the tick's end, for every
`func`, `invFunc` and `filterFunc`, every fetch order and either order of the
driver's calls (`reduceByKeyAndWindow_emits_map`):

    reduceByKeyAndWindow … = .ok out →
      ((out j).elems.map Prod.fst).Nodup ∧
        ∀ kv ∈ (out j).elems, ∃ i < j * s, valuesOf kv.1 (batch i).elems ≠ []

The incremental path gets both from one tick of the driver: `reduceFunc` ends
in a `reduceByKey`, a shuffle, so its output is a map whatever it is given, and
`invReduceFunc` joins a map with a map.  A key the batches have not brought is
in no map the driver keeps (`valuesOf_windowState_eq_nil`).

Without an `invFunc` the window is reduced afresh, and for an associative and
commutative `func` each key gets the reduce of its values in the window, in
every fetch order (`reduceByKeyAndWindow_none_eq_window_reduce`).
-/

namespace SparkStreaming

variable {K V : Type} [DecidableEq K]

/-! ## Lemmas -/

section Driver

variable (fo : FetchOrder) (func : V → V → V) (numPartitions : ℕ+) (partitionFunc : K → Int)

/-- `reduceFunc` emits a map, whatever the previous map and the entering batches. -/
theorem isMap_reduceFunc (filterFunc : Option (K × V → Bool)) (t : Nat) (a : Option (RDD (K × V)))
    (b : RDD (K × V)) : (reduceFunc fo func numPartitions partitionFunc filterFunc t a b).IsMap := by
  cases filterFunc with
  | none => cases a <;> exact RDD.isMap_reduceByKey _ _ _ _ _
  | some f => cases a <;> exact (RDD.isMap_reduceByKey _ _ _ _ _).filter f

/-- `invReduceFunc` keeps a map a map. -/
theorem isMap_invReduceFunc (invFunc : V → V → V) (t : Nat) {a : RDD (K × V)} (ha : a.IsMap)
    (b : RDD (K × V)) : (invReduceFunc fo func numPartitions partitionFunc invFunc t a b).IsMap :=
  (ha.leftOuterJoin (RDD.isMap_reduceByKey _ _ _ _ _) _ _ _).mapValues _

/-- **The driver only ever holds maps**: the map after every tick has distinct keys, for
every `func`, `invFunc` and filter, in either order of the two calls. -/
theorem isMap_incrementalWindow (order : StepOrder) (invFunc : V → V → V)
    (filterFunc : Option (K × V → Bool)) (reduced : Nat → RDD (K × V)) (w s : Nat) :
    ∀ j, (incrementalWindow fo func numPartitions partitionFunc order invFunc filterFunc
      reduced w s j).IsMap
  | 0 => fun _ => by simp [incrementalWindow, windowState, RDD.elems]
  | j + 1 => by
    simp only [incrementalWindow, windowState, Option.getD_some]
    cases order with
    | reduceFirst => exact isMap_invReduceFunc _ _ _ _ _ j (isMap_reduceFunc _ _ _ _ _ j _ _) _
    | invFirst => exact isMap_reduceFunc _ _ _ _ _ j _ _

variable {fo func numPartitions partitionFunc} (k : K)

/-- `reduceFunc` brings in no key that neither the previous map nor the entering batches hold. -/
theorem valuesOf_reduceFunc_eq_nil (filterFunc : Option (K × V → Bool)) (t : Nat)
    (a : Option (RDD (K × V))) (b : RDD (K × V)) (ha : valuesOf k (a.getD ⟨[]⟩).elems = [])
    (hb : valuesOf k b.elems = []) :
    valuesOf k (reduceFunc fo func numPartitions partitionFunc filterFunc t a b).elems = [] := by
  have hr : ∀ so (x : RDD (K × V)), valuesOf k x.elems = [] →
      valuesOf k (x.reduceByKey so func numPartitions partitionFunc).elems = [] :=
    fun so x => (RDD.valuesOf_reduceByKey_eq_nil so func numPartitions partitionFunc x k).2
  cases a with
  | none =>
    cases filterFunc <;>
      simp only [reduceFunc, RDD.valuesOf_filter_elems, hr _ b hb, List.filter_nil]
  | some a =>
    have hu : valuesOf k (a.union (b.reduceByKey (fo.shuffle ⟨"reduceFunc.b", t⟩) func
        numPartitions partitionFunc)).elems = [] := by
      rw [RDD.valuesOf_union, hr _ b hb, List.append_nil]
      exact ha
    cases filterFunc <;>
      simp only [reduceFunc, RDD.valuesOf_filter_elems, hr _ _ hu, List.filter_nil]

/-- `invReduceFunc` brings in no key its map does not hold. -/
theorem valuesOf_invReduceFunc_eq_nil (invFunc : V → V → V) (t : Nat) (a b : RDD (K × V))
    (ha : valuesOf k a.elems = []) :
    valuesOf k (invReduceFunc fo func numPartitions partitionFunc invFunc t a b).elems = [] := by
  obtain ⟨xs, ys, hxs, -, h⟩ := RDD.valuesOf_leftOuterJoin (fo.shuffle ⟨"invReduceFunc.join", t⟩)
    numPartitions partitionFunc a
    (b.reduceByKey (fo.shuffle ⟨"invReduceFunc.b", t⟩) func numPartitions partitionFunc) k
  rw [ha, List.perm_nil] at hxs
  simp only [invReduceFunc, RDD.valuesOf_mapValues, h, hxs, List.flatMap_nil, List.map_nil]

/-- **A key the batches have not brought is in no map of the driver**: if no reduced batch
before `j * s` holds `k`, the map after tick `j` does not, whatever the functions and the
filter. -/
theorem valuesOf_windowState_eq_nil (order : StepOrder) (invFunc : V → V → V)
    (filterFunc : Option (K × V → Bool)) (reduced : Nat → RDD (K × V)) (w s : Nat) :
    ∀ j, (∀ i < j * s, valuesOf k (reduced i).elems = []) →
      valuesOf k ((windowState order (reduceFunc fo func numPartitions partitionFunc filterFunc)
        (invReduceFunc fo func numPartitions partitionFunc invFunc) reduced w s j).getD
          ⟨[]⟩).elems = []
  | 0, _ => rfl
  | j + 1, hk => by
    have hprev := valuesOf_windowState_eq_nil order invFunc filterFunc reduced w s j
      fun i hi => hk i (Nat.lt_of_lt_of_le hi (Nat.mul_le_mul_right s (Nat.le_succ j)))
    have hent : valuesOf k (unionOf reduced (entering w s j)).elems = [] := by
      rw [valuesOf_unionOf, List.flatMap_eq_nil_iff]
      exact fun i hi => hk i ((mem_windowRange _ _ _ _).1 (List.mem_of_mem_filter hi)).2
    simp only [windowState, Option.getD_some, windowStep]
    cases order with
    | reduceFirst =>
      exact valuesOf_invReduceFunc_eq_nil k invFunc j _ _
        (valuesOf_reduceFunc_eq_nil k filterFunc j _ _ hprev hent)
    | invFirst =>
      refine valuesOf_reduceFunc_eq_nil k filterFunc j _ _ ?_ hent
      cases hp : windowState .invFirst (reduceFunc fo func numPartitions partitionFunc filterFunc)
          (invReduceFunc fo func numPartitions partitionFunc invFunc) reduced w s j with
      | none => rfl
      | some A =>
        rw [hp, Option.getD_some] at hprev
        exact valuesOf_invReduceFunc_eq_nil k invFunc j A _ hprev

end Driver

/-! ### The entry point -/

section Entry

variable (fo : FetchOrder) (order : StepOrder) (duration defaultParallelism : ℕ+)
  (partitionFunc : K → Int) (func : V → V → V) (windowDuration : Int)
  (slideDuration : Option Int) (numPartitions : Option ℕ+) (batch : Nat → RDD (K × V))

/-- Both paths: a key no batch before `j * s` holds is not emitted at tick `j`. -/
theorem valuesOf_reduceByKeyAndWindow_eq_nil (invFunc : Option (V → V → V))
    (filterFunc : Option (K × V → Bool)) {out : Nat → RDD (K × V)}
    (h : reduceByKeyAndWindow fo order duration defaultParallelism partitionFunc func invFunc
      windowDuration slideDuration numPartitions filterFunc batch = .ok out) (j : Nat) (k : K)
    (hk : ∀ i < j * slideBatches duration slideDuration, valuesOf k (batch i).elems = []) :
    valuesOf k (out j).elems = [] := by
  have hred : ∀ i < j * slideBatches duration slideDuration, valuesOf k
      (reducedStream fo func (numPartitions.getD defaultParallelism) partitionFunc batch i).elems
        = [] := fun i hi =>
    (RDD.valuesOf_reduceByKey_eq_nil _ _ _ _ _ k).2 (hk i hi)
  cases invFunc with
  | none =>
    rw [reduceByKeyAndWindow_none_ok fo order duration defaultParallelism partitionFunc func
      windowDuration slideDuration numPartitions batch h, naiveWindow,
      RDD.valuesOf_reduceByKey_eq_nil, valuesOf_unionOf, List.flatMap_eq_nil_iff]
    exact fun i hi => hred i ((mem_windowRange _ _ _ _).1 hi).2
  | some invFunc =>
    rw [reduceByKeyAndWindow_some_ok fo order duration defaultParallelism partitionFunc func
      windowDuration slideDuration numPartitions batch h]
    exact valuesOf_windowState_eq_nil k order invFunc filterFunc _ _ _ j hred

/-- **`reduceByKeyAndWindow` emits maps of keys it has seen.**  For every `func`, `invFunc` and
`filterFunc`, every fetch order and either order of the driver's calls, the dataset of every
tick has distinct keys, and each of them has a value in some batch before the tick's end. -/
theorem reduceByKeyAndWindow_emits_map (invFunc : Option (V → V → V))
    (filterFunc : Option (K × V → Bool)) {out : Nat → RDD (K × V)}
    (h : reduceByKeyAndWindow fo order duration defaultParallelism partitionFunc func invFunc
      windowDuration slideDuration numPartitions filterFunc batch = .ok out) (j : Nat) :
    ((out j).elems.map Prod.fst).Nodup ∧
      ∀ kv ∈ (out j).elems, ∃ i < j * slideBatches duration slideDuration,
        valuesOf kv.1 (batch i).elems ≠ [] := by
  refine ⟨(RDD.isMap_iff_nodup _).1 ?_, fun kv hkv => ?_⟩
  · cases invFunc with
    | none =>
      rw [reduceByKeyAndWindow_none_ok fo order duration defaultParallelism partitionFunc func
        windowDuration slideDuration numPartitions batch h]
      exact RDD.isMap_reduceByKey _ _ _ _ _
    | some invFunc =>
      rw [reduceByKeyAndWindow_some_ok fo order duration defaultParallelism partitionFunc func
        windowDuration slideDuration numPartitions batch h]
      exact isMap_incrementalWindow _ _ _ _ _ _ _ _ _ _ j
  · by_contra hno
    push_neg at hno
    exact (valuesOf_eq_nil_iff _ _).1 (valuesOf_reduceByKeyAndWindow_eq_nil fo order duration
      defaultParallelism partitionFunc func windowDuration slideDuration numPartitions batch
      invFunc filterFunc h j kv.1 hno) (List.mem_map_of_mem _ hkv)

/-- The batches `{0: 1, 0: 2}` (two partitions) and `{1: 5}` summed and subtracted over a
window of two batches sliding by one, fetched last partition first and inverse-reduced first:
the dataset of tick 2 is a map of keys the two batches brought. -/
theorem reduceByKeyAndWindow_emits_map_twoBatches :
    let batch := batchAt [(⟨[[(0, 1)], [(0, 2)]]⟩ : RDD (Nat × Int)), ⟨[[(1, 5)]]⟩]
    ∃ out, reduceByKeyAndWindow FetchOrder.reversed .invFirst 1000 1 (fun k : Nat => (k : Int))
        (· + ·) (some (· - ·)) 2 (some 1) none none batch = .ok out ∧
      ((out 2).elems.map Prod.fst).Nodup ∧
      ∀ kv ∈ (out 2).elems, ∃ i < 2 * slideBatches 1000 (some 1),
        valuesOf kv.1 (batch i).elems ≠ [] :=
  ⟨_, rfl, reduceByKeyAndWindow_emits_map FetchOrder.reversed .invFirst 1000 1 _ _ 2 (some 1)
    none _ (some (· - ·)) none rfl 2⟩

/-- **Without an `invFunc`, the window is reduced afresh.**  For an associative and commutative
`func`, in every fetch order and whatever `filterFunc`, each key gets at every tick the reduce
of its values in the window's batches, and a key with none there is not emitted. -/
theorem reduceByKeyAndWindow_none_eq_window_reduce
    (hassoc : ∀ a b c, func (func a b) c = func a (func b c)) (hcomm : ∀ a b, func a b = func b a)
    (filterFunc : Option (K × V → Bool)) {out : Nat → RDD (K × V)}
    (h : reduceByKeyAndWindow fo order duration defaultParallelism partitionFunc func none
      windowDuration slideDuration numPartitions filterFunc batch = .ok out) (j : Nat) (k : K) :
    valuesOf k (out j).elems =
      (combineAll id func (valuesOf k (unionOf batch (windowRange (batchesOf duration windowDuration)
        (slideBatches duration slideDuration) j)).elems)).toList := by
  have hred := reducesInOrder_of_comm hassoc hcomm fo (numPartitions.getD defaultParallelism)
    partitionFunc
  rw [reduceByKeyAndWindow_none_ok fo order duration defaultParallelism partitionFunc func
    windowDuration slideDuration numPartitions batch h, valuesOf_naiveWindow hred,
    combineAll_reducedStream hassoc hred]

/-- Summing without an `invFunc` over the same two batches, fetched last partition first: key
`0` gets `3` at tick 2. -/
theorem reduceByKeyAndWindow_none_eq_window_reduce_sum :
    let batch := batchAt [(⟨[[(0, 1)], [(0, 2)]]⟩ : RDD (Nat × Nat)), ⟨[[(1, 5)]]⟩]
    (∀ a b c : Nat, a + b + c = a + (b + c)) ∧ (∀ a b : Nat, a + b = b + a) ∧
      ∃ out, reduceByKeyAndWindow FetchOrder.reversed .reduceFirst 1000 1
          (fun k : Nat => (k : Int)) (· + ·) none 2 (some 1) none none batch = .ok out ∧
        valuesOf 0 (out 2).elems = [3] :=
  ⟨Nat.add_assoc, Nat.add_comm, _, rfl,
    (reduceByKeyAndWindow_none_eq_window_reduce FetchOrder.reversed .reduceFirst 1000 1 _ _ 2
      (some 1) none _ Nat.add_assoc Nat.add_comm none rfl 2 0).trans (by decide)⟩

end Entry

end SparkStreaming
