import SparkStreaming.ReduceWindow

/-!
# Windowed grouping and counting on the incremental path

`groupByKeyAndWindow` and `countByValueAndWindow` are `reduceByKeyAndWindow`
with an inverse function and no filter: lists under append with "drop the first
`len(b)` values" as the inverse, and counts under addition with subtraction.

Grouping needs the values of a key to stay in arrival order, since the inverse
drops a prefix.  When every shuffle fetches its map outputs in order, lists
meet `InverseLaws` and the window's values come out in order
(`groupByKeyAndWindow_inOrder`); a shuffle that fetches the newer batch first
reorders a key's list, and the prefix dropped later is then the wrong one
(`groupByKeyAndWindow_reordered`).

With no filter, the incremental path never drops a key
(`incrementalWindow_keeps_key`): a key whose values have all left stays in the
state with the identity, the empty group or the count `0`.  For counting by
value, the final `kv[1] > 0` filter removes those keys from the output, which is
exact (`countByValueAndWindow_counts`).

`reduceByWindow` and `countByWindow` put every element under the one key `1`.
A key no batch holds is never held (`valuesOf_incrementalWindow_of_nil`), so
dropping the keys leaves that key's value, and every tick emits at most one
element:

    window ≠ [] → (out j).elems = [window.length]        (countByWindow_eq_window_count)

Without an inverse, `reduceByWindow` reduces each window afresh and emits its
reduce exactly, for an associative and commutative `reduceFunc`
(`reduceByWindow_none_eq_window_reduce`).
-/

namespace SparkStreaming

variable {α K V : Type}

/-! ## Algorithm -/

/-- `ls = self.mapValues(lambda x: [x])`. -/
def singletons (batch : Nat → RDD (K × V)) (i : Nat) : RDD (K × List V) :=
  (batch i).mapValues fun x => [x]

/-- `keyed = self.map(lambda x: (x, 1))`. -/
def countKeyed (batch : Nat → RDD α) (i : Nat) : RDD (α × Int) :=
  (batch i).map fun x => (x, 1)

variable [DecidableEq K] [DecidableEq α]

/-- `DStream.groupByKeyAndWindow`; `ResultIterable` iterates the grouped list, which the model
keeps as it is. -/
def groupByKeyAndWindow (fo : FetchOrder) (order : StepOrder) (duration defaultParallelism : ℕ+)
    (partitionFunc : K → Int) (windowDuration slideDuration : Int) (numPartitions : Option ℕ+)
    (batch : Nat → RDD (K × V)) : Except String (Nat → RDD (K × List V)) :=
  reduceByKeyAndWindow fo order duration defaultParallelism partitionFunc (fun a b => a ++ b)
    (some fun a b => a.drop b.length) windowDuration (some slideDuration) numPartitions none
    (singletons batch)

/-- `DStream.countByValueAndWindow`: the windowed counts, then only the positive ones. -/
def countByValueAndWindow (fo : FetchOrder) (order : StepOrder) (duration defaultParallelism : ℕ+)
    (partitionFunc : α → Int) (windowDuration slideDuration : Int) (numPartitions : Option ℕ+)
    (batch : Nat → RDD α) : Except String (Nat → RDD (α × Int)) := do
  let counted ← reduceByKeyAndWindow fo order duration defaultParallelism partitionFunc (· + ·)
    (some (· - ·)) windowDuration (some slideDuration) numPartitions none (countKeyed batch)
  pure fun j => (counted j).filter fun kv => decide (kv.2 > 0)

/-- `keyed = self.map(lambda x: (1, x))` in `reduceByWindow`. -/
def reduceByWindow.keyed (batch : Nat → RDD α) (i : Nat) : RDD (Nat × α) :=
  (batch i).map fun x => (1, x)

/-- `DStream.reduceByWindow`: every element under the key `1`, reduced by key and window into
one partition, the key dropped.  `partitionFunc` hashes the key. -/
def reduceByWindow (fo : FetchOrder) (order : StepOrder) (duration defaultParallelism : ℕ+)
    (partitionFunc : Nat → Int) (reduceFunc : α → α → α) (invReduceFunc : Option (α → α → α))
    (windowDuration slideDuration : Int) (batch : Nat → RDD α) :
    Except String (Nat → RDD α) := do
  let reduced ← reduceByKeyAndWindow fo order duration defaultParallelism partitionFunc reduceFunc
    invReduceFunc windowDuration (some slideDuration) (some 1) none (reduceByWindow.keyed batch)
  pure fun j => (reduced j).map fun kv => kv.2

/-- `DStream.countByWindow`: `self.map(lambda x: 1)`, then `reduceByWindow` with `operator.add`
and `operator.sub`. -/
def countByWindow (fo : FetchOrder) (order : StepOrder) (duration defaultParallelism : ℕ+)
    (partitionFunc : Nat → Int) (windowDuration slideDuration : Int) (batch : Nat → RDD α) :
    Except String (Nat → RDD Int) :=
  reduceByWindow fo order duration defaultParallelism partitionFunc (· + ·) (some (· - ·))
    windowDuration slideDuration fun i => (batch i).map fun _ => 1

/-! ## Lemmas -/

/-! ### A key, once held, stays -/

section Keep

variable {fo : FetchOrder} {func : V → V → V} {numPartitions : ℕ+} {partitionFunc : K → Int}
  (k : K)

theorem valuesOf_reduceFunc_ne_nil (t : Nat) (A b : RDD (K × V)) (hA : valuesOf k A.elems ≠ []) :
    valuesOf k (reduceFunc fo func numPartitions partitionFunc none t (some A) b).elems ≠ [] := by
  simp only [reduceFunc, ne_eq, RDD.valuesOf_reduceByKey_eq_nil, RDD.valuesOf_union,
    List.append_eq_nil]
  exact fun h => hA h.1

theorem valuesOf_invReduceFunc_ne_nil (invFunc : V → V → V) (t : Nat) (A b : RDD (K × V))
    (hA : valuesOf k A.elems ≠ []) :
    valuesOf k (invReduceFunc fo func numPartitions partitionFunc invFunc t A b).elems ≠ [] := by
  obtain ⟨xs, ys, hxs, -, h⟩ := RDD.valuesOf_leftOuterJoin (fo.shuffle ⟨"invReduceFunc.join", t⟩)
    numPartitions partitionFunc A
    (b.reduceByKey (fo.shuffle ⟨"invReduceFunc.b", t⟩) func numPartitions partitionFunc) k
  simp only [invReduceFunc, RDD.valuesOf_mapValues, h, ne_eq, List.map_eq_nil_iff,
    List.flatMap_eq_nil_iff, not_forall]
  obtain ⟨v, hv⟩ := List.exists_mem_of_ne_nil _ hA
  refine ⟨v, hxs.mem_iff.2 hv, ?_⟩
  unfold RDD.padNone
  split <;> simp_all

/-- One tick without a filter keeps every key the previous map held. -/
theorem windowStep_keeps_key (order : StepOrder) (invFunc : V → V → V) (t : Nat)
    (A E L : RDD (K × V)) (hA : valuesOf k A.elems ≠ []) :
    valuesOf k (windowStep order (reduceFunc fo func numPartitions partitionFunc none t)
      (invReduceFunc fo func numPartitions partitionFunc invFunc t) (some A) E L).elems ≠ [] := by
  cases order with
  | reduceFirst =>
    exact valuesOf_invReduceFunc_ne_nil k invFunc t _ _ (valuesOf_reduceFunc_ne_nil k t A E hA)
  | invFirst =>
    exact valuesOf_reduceFunc_ne_nil k t _ E (valuesOf_invReduceFunc_ne_nil k invFunc t A L hA)

/-- **No filter, no expiry.**  For every `func` and `invFunc`, fetch order and order of the
driver's calls, a key the incremental path holds at a tick it holds at every later tick. -/
theorem incrementalWindow_keeps_key (order : StepOrder) (invFunc : V → V → V)
    (reduced : Nat → RDD (K × V)) (w s : Nat) {j j' : Nat} (hj : j ≤ j')
    (hk : valuesOf k (incrementalWindow fo func numPartitions partitionFunc order invFunc none
      reduced w s j).elems ≠ []) :
    valuesOf k (incrementalWindow fo func numPartitions partitionFunc order invFunc none
      reduced w s j').elems ≠ [] := by
  induction hj with
  | refl => exact hk
  | @step m _ ih =>
    unfold incrementalWindow at ih ⊢
    cases hprev : windowState order (reduceFunc fo func numPartitions partitionFunc none)
        (invReduceFunc fo func numPartitions partitionFunc invFunc) reduced w s m with
    | none => rw [hprev] at ih; exact absurd rfl ih
    | some A =>
      rw [hprev] at ih
      simp only [windowState, hprev, Option.getD_some]
      exact windowStep_keeps_key k order invFunc m A _ _ ih

end Keep

/-- The pair `(0, 1)` counted at tick 1 is still held at tick 5, long after it left the
one-batch window. -/
theorem incrementalWindow_keeps_key_count :
    let reduced := reducedStream FetchOrder.inOrder (· + ·) 1 (fun k : Nat => (k : Int))
      (countKeyed (batchAt [(⟨[[0]]⟩ : RDD Nat)]))
    1 ≤ 5 ∧
      valuesOf 0 (incrementalWindow FetchOrder.inOrder (· + ·) 1 (fun k : Nat => (k : Int))
        .reduceFirst (· - ·) none reduced 1 1 1).elems ≠ [] ∧
      valuesOf 0 (incrementalWindow FetchOrder.inOrder (· + ·) 1 (fun k : Nat => (k : Int))
        .reduceFirst (· - ·) none reduced 1 1 5).elems ≠ [] :=
  ⟨by decide, by decide, incrementalWindow_keeps_key 0 .reduceFirst (· - ·) _ 1 1 (j := 1) (by decide)
    (by decide)⟩

/-! ### Grouping in arrival order -/

/-- Lists under append, with prefix drop as the inverse, meet the laws with identity `[]`. -/
theorem appendDrop_inverseLaws :
    InverseLaws (fun a b : List V => a ++ b) (fun a b => a.drop b.length) [] :=
  ⟨List.append_assoc, List.nil_append, List.append_nil, List.drop_left⟩

omit [DecidableEq α] in
/-- One key's values over the reduced singleton batches of a window, appended: the window's
values of the key, in batch order. -/
theorem combineAll_singletons_window (numPartitions : ℕ+) (partitionFunc : K → Int)
    (batch : Nat → RDD (K × V)) (is : List Nat) (k : K) :
    combineAll id (fun a b : List V => a ++ b) (is.flatMap fun i => valuesOf k
        (reducedStream FetchOrder.inOrder (fun a b => a ++ b) numPartitions partitionFunc
          (singletons batch) i).elems) =
      if (valuesOf k (unionOf batch is).elems).isEmpty then none
      else some (valuesOf k (unionOf batch is).elems) := by
  rw [combineAll_reducedStream List.append_assoc
    (reducesInOrder_inOrder List.append_assoc numPartitions partitionFunc), valuesOf_unionOf,
    valuesOf_unionOf]
  simp only [singletons, RDD.valuesOf_mapValues, ← List.map_flatMap]
  rw [← combineAll_eq_map]
  exact RDD.combineAll_singleton _

/-- **Grouping in arrival order.**  When every shuffle fetches its map outputs in order, at
every tick and in either order of the driver's calls, `groupByKeyAndWindow` gives a key with
values in the window exactly those values, in batch order, and any other key it holds the
empty group. -/
theorem groupByKeyAndWindow_inOrder (order : StepOrder) (duration defaultParallelism : ℕ+)
    (partitionFunc : K → Int) (windowDuration slideDuration : Int) (numPartitions : Option ℕ+)
    (batch : Nat → RDD (K × V)) (out : Nat → RDD (K × List V))
    (h : groupByKeyAndWindow FetchOrder.inOrder order duration defaultParallelism partitionFunc
      windowDuration slideDuration numPartitions batch = .ok out) (j : Nat) (k : K) :
    let vs := valuesOf k (unionOf batch (windowRange (batchesOf duration windowDuration)
      (batchesOf duration slideDuration) j)).elems
    (vs ≠ [] → valuesOf k (out j).elems = [vs]) ∧
      (vs = [] → ∀ g ∈ valuesOf k (out j).elems, g = []) := by
  dsimp only
  have hred : ReducesInOrder FetchOrder.inOrder (fun a b : List V => a ++ b)
      (numPartitions.getD defaultParallelism) partitionFunc :=
    reducesInOrder_inOrder List.append_assoc _ _
  rw [reduceByKeyAndWindow_some_ok FetchOrder.inOrder order duration defaultParallelism
    partitionFunc _ windowDuration (some slideDuration) numPartitions _ h]
  simp only [slideBatches]
  obtain ⟨-, hne, hemp⟩ := incrementalWindow_agrees appendDrop_inverseLaws hred order
    (reducedStream FetchOrder.inOrder (fun a b => a ++ b) (numPartitions.getD defaultParallelism)
      partitionFunc (singletons batch)) (batchesOf duration windowDuration)
    (batchesOf duration slideDuration) j k
  have hc := combineAll_singletons_window (numPartitions.getD defaultParallelism) partitionFunc
    batch (windowRange (batchesOf duration windowDuration) (batchesOf duration slideDuration) j) k
  by_cases hv : valuesOf k (unionOf batch (windowRange (batchesOf duration windowDuration)
      (batchesOf duration slideDuration) j)).elems = []
  · rw [hv, List.isEmpty_nil, if_pos rfl, combineAll_eq_none] at hc
    exact ⟨fun h => absurd hv h, fun _ => hemp hc⟩
  · rw [if_neg (by simpa using hv)] at hc
    refine ⟨fun _ => ?_, fun h => absurd h hv⟩
    rw [hne (fun h0 => by rw [h0] at hc; cases hc), hc]
    rfl

/-- Fetched in order, the pairs `(0, 1)` then `(0, 2)` group to `[2]` at tick 3 of a window of
two batches sliding by one. -/
theorem groupByKeyAndWindow_inOrder_twoBatches :
    ∃ out, groupByKeyAndWindow FetchOrder.inOrder .reduceFirst 1000 1 (fun k : Nat => (k : Int))
      2 1 none (batchAt [(⟨[[(0, 1)]]⟩ : RDD (Nat × Nat)), ⟨[[(0, 2)]]⟩]) = .ok out ∧
      valuesOf 0 (out 3).elems = [[2]] :=
  ⟨_, rfl, (groupByKeyAndWindow_inOrder .reduceFirst 1000 1 _ 2 1 none _ _ rfl 3 0).1
    (by decide)⟩

/-- A shuffle that fetches the newer batch first breaks grouping: with the pairs `(0, 1)` then
`(0, 2)`, a window of two batches sliding by one and either order of the driver's calls, the
window of tick 3 holds `[2]` for key `0`, but `groupByKeyAndWindow` gives it `[1]`. -/
theorem groupByKeyAndWindow_reordered :
    valuesOf 0 (unionOf (batchAt [(⟨[[(0, 1)]]⟩ : RDD (Nat × Nat)), ⟨[[(0, 2)]]⟩])
      (windowRange 2 1 3)).elems = [2] ∧
      ∀ order, ∃ out, groupByKeyAndWindow FetchOrder.reversed order 1000 1
        (fun k : Nat => (k : Int)) 2 1 none (batchAt [⟨[[(0, 1)]]⟩, ⟨[[(0, 2)]]⟩]) = .ok out ∧
        valuesOf 0 (out 3).elems = [[1]] := by
  refine ⟨by decide, fun order => ?_⟩
  cases order <;> exact ⟨_, rfl, by decide⟩

/-- After its only value leaves, a key stays in both windowed states: with the pair `(0, 5)`
(the element `0`) in the first batch only and a one-batch window, the window of tick 2 holds
nothing for key `0`, yet `groupByKeyAndWindow` emits `(0, [])` and the counts that
`countByValueAndWindow` filters hold `(0, 0)`, in either order of the driver's calls. -/
theorem windowState_keeps_expired_key :
    valuesOf 0 (unionOf (batchAt [(⟨[[(0, 5)]]⟩ : RDD (Nat × Nat))]) (windowRange 1 1 2)).elems = [] ∧
      ∀ order,
        (∃ out, groupByKeyAndWindow FetchOrder.inOrder order 1000 1 (fun k : Nat => (k : Int)) 1 1
          none (batchAt [⟨[[(0, 5)]]⟩]) = .ok out ∧ valuesOf 0 (out 2).elems = [[]]) ∧
        ∃ counted, reduceByKeyAndWindow FetchOrder.inOrder order 1000 1 (fun k : Nat => (k : Int))
          (· + ·) (some (· - ·)) 1 (some 1) none none (countKeyed (batchAt [(⟨[[0]]⟩ : RDD Nat)]))
          = .ok counted ∧ valuesOf 0 (counted 2).elems = [0] := by
  refine ⟨by decide, fun order => ?_⟩
  cases order <;> exact ⟨⟨_, rfl, by decide⟩, ⟨_, rfl, by decide⟩⟩


/-! ### Counting by value -/

/-- A run of `countByValueAndWindow` that passes validation: the incremental path's counts, the
positive ones only. -/
theorem countByValueAndWindow_ok (fo : FetchOrder) (order : StepOrder)
    (duration defaultParallelism : ℕ+) (partitionFunc : α → Int) (windowDuration slideDuration : Int)
    (numPartitions : Option ℕ+) (batch : Nat → RDD α) {out : Nat → RDD (α × Int)}
    (h : countByValueAndWindow fo order duration defaultParallelism partitionFunc windowDuration
      slideDuration numPartitions batch = .ok out) :
    out = fun j => (incrementalWindow fo (· + ·) (numPartitions.getD defaultParallelism)
      partitionFunc order (· - ·) none (reducedStream fo (· + ·)
        (numPartitions.getD defaultParallelism) partitionFunc (countKeyed batch))
      (batchesOf duration windowDuration) (batchesOf duration slideDuration) j).filter
        fun kv => decide (kv.2 > 0) := by
  unfold countByValueAndWindow at h
  cases hr : reduceByKeyAndWindow fo order duration defaultParallelism partitionFunc (· + ·)
      (some (· - ·)) windowDuration (some slideDuration) numPartitions none (countKeyed batch) with
  | error _ => simp [hr, bind, Except.bind] at h
  | ok r =>
    simp only [hr, bind, Except.bind, pure, Except.pure, Except.ok.injEq] at h
    rw [← h, reduceByKeyAndWindow_some_ok _ _ _ _ _ _ _ _ _ _ hr]
    rfl

/-- Counting keys every element with `1`: a value's ones are its occurrences. -/
theorem valuesOf_unionOf_countKeyed (batch : Nat → RDD α) (is : List Nat) (x : α) :
    valuesOf x (unionOf (countKeyed batch) is).elems =
      List.replicate ((unionOf batch is).elems.count x) 1 := by
  rw [← valuesOf_map_pair]
  congr 1
  simp only [elems_unionOf, countKeyed, RDD.elems_map, List.map_flatMap]

/-- One value's windowed count: the number of its occurrences in the window, or nothing when
it has none there. -/
theorem valuesOf_countByValueAndWindow (fo : FetchOrder) (order : StepOrder)
    (duration defaultParallelism : ℕ+) (partitionFunc : α → Int) (windowDuration slideDuration : Int)
    (numPartitions : Option ℕ+) (batch : Nat → RDD α) {out : Nat → RDD (α × Int)}
    (h : countByValueAndWindow fo order duration defaultParallelism partitionFunc windowDuration
      slideDuration numPartitions batch = .ok out) (j : Nat) (x : α) :
    valuesOf x (out j).elems =
      if (unionOf batch (windowRange (batchesOf duration windowDuration)
          (batchesOf duration slideDuration) j)).elems.count x = 0 then []
      else [((unionOf batch (windowRange (batchesOf duration windowDuration)
          (batchesOf duration slideDuration) j)).elems.count x : Int)] := by
  have hred := reducesInOrder_of_comm Int.add_assoc Int.add_comm fo
    (numPartitions.getD defaultParallelism) partitionFunc
  rw [countByValueAndWindow_ok fo order duration defaultParallelism partitionFunc windowDuration
    slideDuration numPartitions batch h, RDD.valuesOf_filter_elems]
  obtain ⟨-, hne, hemp⟩ := incrementalWindow_agrees addSub_invertible.inverseLaws hred order
    (reducedStream fo (· + ·) (numPartitions.getD defaultParallelism) partitionFunc
      (countKeyed batch)) (batchesOf duration windowDuration) (batchesOf duration slideDuration) j x
  have hnil := flatMap_reducedStream_eq_nil fo (· + ·) (numPartitions.getD defaultParallelism)
    partitionFunc (countKeyed batch) (windowRange (batchesOf duration windowDuration)
      (batchesOf duration slideDuration) j) x
  rw [valuesOf_unionOf_countKeyed] at hnil
  split
  · next hc =>
    rw [hc, List.replicate_zero] at hnil
    exact List.filter_eq_nil_iff.2 fun v hv => by simp [hemp (hnil.2 rfl) v hv]
  · next hc =>
    rw [hne (mt hnil.1 (by simpa using hc)), combineAll_reducedStream Int.add_assoc hred,
      valuesOf_unionOf_countKeyed, combineAll_replicate_one, if_neg hc]
    simp only [Option.toList_some, List.filter_cons, List.filter_nil]
    rw [if_pos (by simpa using Nat.pos_of_ne_zero hc)]

/-- **`countByValueAndWindow` counts exactly.**  At every tick, in every fetch order and either
order of the driver's calls, it emits each value of the window once, with its number of
occurrences in the window, and no other value: the final filter removes the expired keys the
state keeps. -/
theorem countByValueAndWindow_counts (fo : FetchOrder) (order : StepOrder)
    (duration defaultParallelism : ℕ+) (partitionFunc : α → Int) (windowDuration slideDuration : Int)
    (numPartitions : Option ℕ+) (batch : Nat → RDD α) (out : Nat → RDD (α × Int))
    (h : countByValueAndWindow fo order duration defaultParallelism partitionFunc windowDuration
      slideDuration numPartitions batch = .ok out) (j : Nat) :
    ((out j).elems.map Prod.fst).Nodup ∧
      ∀ x, valuesOf x (out j).elems =
        if (unionOf batch (windowRange (batchesOf duration windowDuration)
            (batchesOf duration slideDuration) j)).elems.count x = 0 then []
        else [((unionOf batch (windowRange (batchesOf duration windowDuration)
            (batchesOf duration slideDuration) j)).elems.count x : Int)] := by
  have hx := valuesOf_countByValueAndWindow fo order duration defaultParallelism partitionFunc
    windowDuration slideDuration numPartitions batch h j
  refine ⟨(nodup_keys_iff _).2 fun x => ?_, hx⟩
  rw [hx x]
  split <;> simp

/-- Over a window of two batches sliding by one, the batches `[0, 1]` and `[0]` count to `(0, 2)`
and `(1, 1)` at tick 2, with a shuffle that fetches in reverse and the inverse called first. -/
theorem countByValueAndWindow_counts_twoBatches :
    ∃ out, countByValueAndWindow FetchOrder.reversed .invFirst 1000 1 (fun k : Nat => (k : Int))
      2 1 none (batchAt [(⟨[[0, 1]]⟩ : RDD Nat), ⟨[[0]]⟩]) = .ok out ∧
      valuesOf 0 (out 2).elems = [2] ∧ valuesOf 1 (out 2).elems = [1] :=
  ⟨_, rfl, ((countByValueAndWindow_counts FetchOrder.reversed .invFirst 1000 1 _ 2 1 none _ _ rfl
    2).2 0).trans (by decide), ((countByValueAndWindow_counts FetchOrder.reversed .invFirst 1000 1 _
    2 1 none _ _ rfl 2).2 1).trans (by decide)⟩

/-! ### The whole window under one key -/

section OneKey

variable {func invFunc : α → α → α} {e : α} (hf : InvertibleReduce func invFunc e)
  (fo : FetchOrder) (order : StepOrder) (numPartitions : ℕ+) (partitionFunc : Nat → Int)
  (batch : Nat → RDD α)

omit [DecidableEq α] in
/-- `reduceByWindow`'s keyed batches hold their elements under `1` and nothing else. -/
theorem valuesOf_keyed (k i : Nat) : valuesOf k (reduceByWindow.keyed batch i).elems =
    if 1 = k then (batch i).elems else [] := by
  rw [reduceByWindow.keyed, RDD.elems_map, valuesOf_map_key]

omit [DecidableEq α] in
theorem valuesOf_unionOf_keyed (k : Nat) (is : List Nat) :
    valuesOf k (unionOf (reduceByWindow.keyed batch) is).elems =
      if 1 = k then (unionOf batch is).elems else [] := by
  rw [valuesOf_unionOf, elems_unionOf]
  by_cases hk : 1 = k
  · simp only [valuesOf_keyed, if_pos hk]
  · simp only [valuesOf_keyed, if_neg hk, List.flatMap_def, List.map_const',
      List.flatten_replicate_nil]

omit [DecidableEq α] in
include hf in
/-- **The incremental path under the one key `1`**, keys dropped: at most one element, the
reduce of the window's elements when it has any, `e` otherwise. -/
theorem keyedWindow_agrees (w s j : Nat) :
    let out := (incrementalWindow fo func numPartitions partitionFunc order invFunc none
      (reducedStream fo func numPartitions partitionFunc (reduceByWindow.keyed batch)) w s
      j).elems.map fun kv => kv.2
    let vs := (unionOf batch (windowRange w s j)).elems
    out.length ≤ 1 ∧ (vs ≠ [] → out = (combineAll id func vs).toList) ∧
      (vs = [] → ∀ v ∈ out, v = e) := by
  intro out vs
  have hred := reducesInOrder_of_comm hf.assoc hf.comm fo numPartitions partitionFunc
  have hvs : valuesOf 1 (unionOf (reduceByWindow.keyed batch) (windowRange w s j)).elems =
      (unionOf batch (windowRange w s j)).elems := by
    rw [valuesOf_unionOf_keyed, if_pos rfl]
  have hout : out = valuesOf 1 (incrementalWindow fo func numPartitions partitionFunc order
      invFunc none (reducedStream fo func numPartitions partitionFunc (reduceByWindow.keyed batch))
      w s j).elems :=
    map_snd_eq_valuesOf 1 _ fun k hk => valuesOf_incrementalWindow_of_nil hf.assoc hred k _ _ _ _
      _ _ _ fun i => by
        rw [reducedStream, RDD.valuesOf_reduceByKey_eq_nil, valuesOf_keyed, if_neg (Ne.symm hk)]
  obtain ⟨hlen, hne, hemp⟩ := incrementalWindow_agrees hf.inverseLaws hred order
    (reducedStream fo func numPartitions partitionFunc (reduceByWindow.keyed batch)) w s j 1
  have hnil := flatMap_reducedStream_eq_nil fo func numPartitions partitionFunc
    (reduceByWindow.keyed batch) (windowRange w s j) 1
  rw [hvs] at hnil
  refine ⟨hout ▸ hlen, fun h => ?_, fun h => hout ▸ hemp (hnil.2 h)⟩
  rw [hout, hne (mt hnil.1 h), combineAll_reducedStream hf.assoc hred, hvs]

end OneKey

omit [DecidableEq α] in
/-- With an inverse, a run of `reduceByWindow` that passes validation is the incremental path
over one partition, keys dropped. -/
theorem reduceByWindow_some_ok (fo : FetchOrder) (order : StepOrder)
    (duration defaultParallelism : ℕ+) (partitionFunc : Nat → Int)
    {reduceFunc invReduceFunc : α → α → α}
    (windowDuration slideDuration : Int) (batch : Nat → RDD α) {out : Nat → RDD α}
    (h : reduceByWindow fo order duration defaultParallelism partitionFunc reduceFunc
      (some invReduceFunc) windowDuration slideDuration batch = .ok out) :
    out = fun j => (incrementalWindow fo reduceFunc 1 partitionFunc order invReduceFunc none
      (reducedStream fo reduceFunc 1 partitionFunc (reduceByWindow.keyed batch))
      (batchesOf duration windowDuration) (batchesOf duration slideDuration) j).map
        fun kv => kv.2 := by
  unfold reduceByWindow at h
  cases hr : reduceByKeyAndWindow fo order duration defaultParallelism partitionFunc reduceFunc
      (some invReduceFunc) windowDuration (some slideDuration) (some 1) none
      (reduceByWindow.keyed batch) with
  | error _ => simp [hr, bind, Except.bind] at h
  | ok r =>
    simp only [hr, bind, Except.bind, pure, Except.pure, Except.ok.injEq] at h
    rw [← h, reduceByKeyAndWindow_some_ok _ _ _ _ _ _ _ _ _ _ hr]
    rfl

omit [DecidableEq α] in
/-- **What `reduceByWindow` emits.**  For a `reduceFunc` and `invReduceFunc` meeting the contract
of the docstring with identity `e`, at every tick, in every fetch order and either order of
the driver's calls: at most one element; the reduce of the window's elements when it has any;
`e`, if anything, when it has none. -/
theorem reduceByWindow_eq_window_reduce {reduceFunc invReduceFunc : α → α → α} {e : α}
    (hf : InvertibleReduce reduceFunc invReduceFunc e) (fo : FetchOrder) (order : StepOrder)
    (duration defaultParallelism : ℕ+) (partitionFunc : Nat → Int)
    (windowDuration slideDuration : Int) (batch : Nat → RDD α) (out : Nat → RDD α)
    (h : reduceByWindow fo order duration defaultParallelism partitionFunc reduceFunc
      (some invReduceFunc) windowDuration slideDuration batch = .ok out) (j : Nat) :
    (out j).elems.length ≤ 1 ∧
      ((unionOf batch (windowRange (batchesOf duration windowDuration)
          (batchesOf duration slideDuration) j)).elems ≠ [] →
        (out j).elems = (combineAll id reduceFunc (unionOf batch (windowRange
          (batchesOf duration windowDuration) (batchesOf duration slideDuration) j)).elems).toList) ∧
      ((unionOf batch (windowRange (batchesOf duration windowDuration)
          (batchesOf duration slideDuration) j)).elems = [] → ∀ v ∈ (out j).elems, v = e) := by
  rw [reduceByWindow_some_ok fo order duration defaultParallelism partitionFunc windowDuration
    slideDuration batch h, RDD.elems_map]
  exact keyedWindow_agrees hf fo order 1 partitionFunc batch _ _ j

/-- Summing over a window of two batches sliding by one: the batches `[3]` and `[4]` reduce to
`7` at tick 2, with a shuffle that fetches in reverse and the inverse called first. -/
theorem reduceByWindow_eq_window_reduce_sum :
    ∃ out, reduceByWindow FetchOrder.reversed .invFirst 1000 1 (fun k => (k : Int)) (· + ·)
      (some (· - ·)) 2 1 (batchAt [(⟨[[3]]⟩ : RDD Int), ⟨[[4]]⟩]) = .ok out ∧
      (out 2).elems = [7] :=
  ⟨_, rfl, ((reduceByWindow_eq_window_reduce addSub_invertible FetchOrder.reversed .invFirst
    1000 1 (fun k => (k : Int)) 2 1 _ _ rfl 2).2.1 (by decide)).trans (by decide)⟩

omit [DecidableEq α] in
/-- **What `countByWindow` emits.**  At every tick, in every fetch order and either order of
the driver's calls: at most one element; the number of elements in the window when it has
any; `0`, if anything, when it has none. -/
theorem countByWindow_eq_window_count (fo : FetchOrder) (order : StepOrder)
    (duration defaultParallelism : ℕ+) (partitionFunc : Nat → Int)
    (windowDuration slideDuration : Int) (batch : Nat → RDD α) (out : Nat → RDD Int)
    (h : countByWindow fo order duration defaultParallelism partitionFunc windowDuration
      slideDuration batch = .ok out) (j : Nat) :
    (out j).elems.length ≤ 1 ∧
      ((unionOf batch (windowRange (batchesOf duration windowDuration)
          (batchesOf duration slideDuration) j)).elems ≠ [] →
        (out j).elems = [((unionOf batch (windowRange (batchesOf duration windowDuration)
          (batchesOf duration slideDuration) j)).elems.length : Int)]) ∧
      ((unionOf batch (windowRange (batchesOf duration windowDuration)
          (batchesOf duration slideDuration) j)).elems = [] → ∀ c ∈ (out j).elems, c = 0) := by
  rw [reduceByWindow_some_ok fo order duration defaultParallelism partitionFunc windowDuration
    slideDuration _ h, RDD.elems_map]
  have hones : ∀ is, (unionOf (fun i => (batch i).map fun _ => (1 : Int)) is).elems =
      (unionOf batch is).elems.map fun _ => 1 := fun is => by
    simp only [elems_unionOf, RDD.elems_map, List.map_flatMap]
  obtain ⟨hlen, hne, hemp⟩ := keyedWindow_agrees addSub_invertible fo order 1 partitionFunc
    (fun i => (batch i).map fun _ => (1 : Int)) (batchesOf duration windowDuration)
    (batchesOf duration slideDuration) j
  simp only [hones, ne_eq, List.map_eq_nil_iff] at hne hemp
  refine ⟨hlen, fun hv => ?_, hemp⟩
  rw [hne hv, List.map_const', combineAll_replicate_one, if_neg (by simpa using hv)]
  rfl

/-- Counting over a window of two batches sliding by one: three elements, one of them in a
partition of its own beside an empty one, count to `3` at tick 2. -/
theorem countByWindow_eq_window_count_threeElems :
    ∃ out, countByWindow FetchOrder.inOrder .reduceFirst 1000 1 (fun k => (k : Int)) 2 1
      (batchAt [(⟨[[7, 8]]⟩ : RDD Nat), ⟨[[], [9]]⟩]) = .ok out ∧ (out 2).elems = [3] :=
  ⟨_, rfl, ((countByWindow_eq_window_count FetchOrder.inOrder .reduceFirst 1000 1
    (fun k => (k : Int)) 2 1 _ _ rfl 2).2.1 (by decide)).trans (by decide)⟩

omit [DecidableEq α] in
/-- Without an inverse, a run of `reduceByWindow` that passes validation reduces every window
afresh, in one partition, keys dropped. -/
theorem reduceByWindow_none_ok (fo : FetchOrder) (order : StepOrder)
    (duration defaultParallelism : ℕ+) (partitionFunc : Nat → Int) {reduceFunc : α → α → α}
    (windowDuration slideDuration : Int) (batch : Nat → RDD α) {out : Nat → RDD α}
    (h : reduceByWindow fo order duration defaultParallelism partitionFunc reduceFunc none
      windowDuration slideDuration batch = .ok out) :
    out = fun j => (naiveWindow fo reduceFunc 1 partitionFunc
      (reducedStream fo reduceFunc 1 partitionFunc (reduceByWindow.keyed batch))
      (batchesOf duration windowDuration) (batchesOf duration slideDuration) j).map
        fun kv => kv.2 := by
  unfold reduceByWindow at h
  cases hr : reduceByKeyAndWindow fo order duration defaultParallelism partitionFunc reduceFunc
      none windowDuration (some slideDuration) (some 1) none (reduceByWindow.keyed batch) with
  | error _ => simp [hr, bind, Except.bind] at h
  | ok r =>
    simp only [hr, bind, Except.bind, pure, Except.pure, Except.ok.injEq] at h
    rw [← h, reduceByKeyAndWindow_none_ok _ _ _ _ _ _ _ _ _ _ hr]
    rfl

omit [DecidableEq α] in
/-- **`reduceByWindow` without an inverse.**  For an associative and commutative `reduceFunc`,
at every tick and in every fetch order, the output is the reduce of the window's elements:
one element, or none for an empty window. -/
theorem reduceByWindow_none_eq_window_reduce {reduceFunc : α → α → α}
    (hassoc : ∀ a b c, reduceFunc (reduceFunc a b) c = reduceFunc a (reduceFunc b c))
    (hcomm : ∀ a b, reduceFunc a b = reduceFunc b a) (fo : FetchOrder) (order : StepOrder)
    (duration defaultParallelism : ℕ+) (partitionFunc : Nat → Int)
    (windowDuration slideDuration : Int) (batch : Nat → RDD α) (out : Nat → RDD α)
    (h : reduceByWindow fo order duration defaultParallelism partitionFunc reduceFunc none
      windowDuration slideDuration batch = .ok out) (j : Nat) :
    (out j).elems = (combineAll id reduceFunc (unionOf batch (windowRange
      (batchesOf duration windowDuration) (batchesOf duration slideDuration) j)).elems).toList := by
  have hred := reducesInOrder_of_comm hassoc hcomm fo 1 partitionFunc
  rw [reduceByWindow_none_ok fo order duration defaultParallelism partitionFunc windowDuration
    slideDuration batch h, RDD.elems_map, map_snd_eq_valuesOf 1 _ fun k hk => ?_,
    valuesOf_naiveWindow hred, combineAll_reducedStream hassoc hred, valuesOf_unionOf_keyed,
    if_pos rfl]
  rw [naiveWindow, RDD.valuesOf_reduceByKey_eq_nil, valuesOf_unionOf,
    flatMap_reducedStream_eq_nil, valuesOf_unionOf_keyed, if_neg (Ne.symm hk)]

/-- Summing without an inverse over a window of two batches sliding by one: the batches `[3]`
and `[4, 5]` reduce to `12` at tick 2, with a shuffle that fetches in reverse. -/
theorem reduceByWindow_none_eq_window_reduce_sum :
    (∀ a b c : Nat, a + b + c = a + (b + c)) ∧ (∀ a b : Nat, a + b = b + a) ∧
      ∃ out, reduceByWindow FetchOrder.reversed .reduceFirst 1000 1 (fun k => (k : Int))
        (· + ·) none 2 1 (batchAt [(⟨[[3]]⟩ : RDD Nat), ⟨[[4], [5]]⟩]) = .ok out ∧
        (out 2).elems = [12] :=
  ⟨Nat.add_assoc, Nat.add_comm, _, rfl,
    (reduceByWindow_none_eq_window_reduce Nat.add_assoc Nat.add_comm FetchOrder.reversed
      .reduceFirst 1000 1 (fun k => (k : Int)) 2 1 _ _ rfl 2).trans (by decide)⟩

end SparkStreaming
