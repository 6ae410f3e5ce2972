import SparkStreaming.Window

/-!
# The windowed reduce: naive and incremental paths

`reduceByKeyAndWindow` first reduces every batch (`reducedStream`).  Without an
`invFunc` it unions the reduced batches of each window and reduces again
(`naiveWindow`).  With one it hands `reduceFunc` and `invReduceFunc` to
`PythonReducedWindowedDStream`, which keeps the previous window's map and, at
each tick, merges in the entering batches and takes out the leaving ones.  That
driver runs in the JVM and is not part of this source; `windowStep` models it
from the specification, with both orders of its two calls.

One key at a time every dataset the incremental path builds holds at most one
value, and the driver refines a step on `Option V` (`valuesOf_windowState`):

    valuesOf k (windowState order (reduceFunc …) (invReduceFunc …) reduced w s j).elems
      = (keyState order func invFunc (keepOf filterFunc k) vals w s j).toList

`WindowInv` says a key's state is the reduce of its window values, or the
identity once they have all left.  Under the docstring's contract on `func` and
`invFunc` (`InvertibleReduce`) it holds at every tick (`keyState_windowInv`).
-/

namespace SparkStreaming

variable {α K V : Type}

/-! ## Algorithm -/

/-- The `mapValues` lambda of `invReduceFunc`: `invFunc(v, w)` when the leaving
batches hold `w` for the key, `v` when they hold nothing. -/
def applyInv (invFunc : V → V → V) (kv : V × Option V) : V :=
  match kv.2 with
  | some w => invFunc kv.1 w
  | none => kv.1

/-- Which of its two functions the driver calls first at a tick. -/
inductive StepOrder
  | reduceFirst
  | invFirst
  deriving DecidableEq, Repr

/-- **Modelled from the spec:** one tick of `PythonReducedWindowedDStream`.  The previous
map (absent before the first tick) is merged with the entering batches by `reduceFunc` and
reduced by the leaving ones with `invReduceFunc`; the spec calls `reduceFunc` first. -/
def windowStep (order : StepOrder) (reduceFunc : Option (RDD α) → RDD α → RDD α)
    (invReduceFunc : RDD α → RDD α → RDD α) (prev : Option (RDD α)) (entering leaving : RDD α) :
    RDD α :=
  match order with
  | .reduceFirst => invReduceFunc (reduceFunc prev entering) leaving
  | .invFirst => reduceFunc (prev.map fun a => invReduceFunc a leaving) entering

/-- The driver's map after output tick `j` over the parent stream `batch`; the functions are
called with the tick. -/
def windowState (order : StepOrder) (reduceFunc : Nat → Option (RDD α) → RDD α → RDD α)
    (invReduceFunc : Nat → RDD α → RDD α → RDD α) (batch : Nat → RDD α) (w s : Nat) :
    Nat → Option (RDD α)
  | 0 => none
  | j + 1 => some (windowStep order (reduceFunc j) (invReduceFunc j)
      (windowState order reduceFunc invReduceFunc batch w s j)
      (unionOf batch (entering w s j)) (unionOf batch (leaving w s j)))

variable [DecidableEq K]

section Funcs

variable (fo : FetchOrder) (func : V → V → V) (numPartitions : ℕ+) (partitionFunc : K → Int)

/-- `reduced = self.reduceByKey(func, numPartitions)`, batch by batch. -/
def reducedStream (batch : Nat → RDD (K × V)) (i : Nat) : RDD (K × V) :=
  (batch i).reduceByKey (fo.shuffle ⟨"reduced", i⟩) func numPartitions partitionFunc

/-- `reduceByKeyAndWindow.reduceFunc` at tick `t`: merge the entering batches into the previous
map, then keep the pairs `filterFunc` accepts. -/
def reduceFunc (filterFunc : Option (K × V → Bool)) (t : Nat) (a : Option (RDD (K × V)))
    (b : RDD (K × V)) : RDD (K × V) :=
  let b := b.reduceByKey (fo.shuffle ⟨"reduceFunc.b", t⟩) func numPartitions partitionFunc
  let r := match a with
    | some a => (a.union b).reduceByKey (fo.shuffle ⟨"reduceFunc.union", t⟩) func numPartitions
        partitionFunc
    | none => b
  match filterFunc with
  | some f => r.filter f
  | none => r

/-- `reduceByKeyAndWindow.invReduceFunc` at tick `t`: take the leaving batches out of the map. -/
def invReduceFunc (invFunc : V → V → V) (t : Nat) (a b : RDD (K × V)) : RDD (K × V) :=
  let b := b.reduceByKey (fo.shuffle ⟨"invReduceFunc.b", t⟩) func numPartitions partitionFunc
  let joined := RDD.leftOuterJoin (fo.shuffle ⟨"invReduceFunc.join", t⟩) numPartitions
    partitionFunc a b
  joined.mapValues (applyInv invFunc)

/-- The incremental path's output at tick `j` (nothing before the first tick). -/
def incrementalWindow (order : StepOrder) (invFunc : V → V → V)
    (filterFunc : Option (K × V → Bool)) (reduced : Nat → RDD (K × V)) (w s j : Nat) :
    RDD (K × V) :=
  (windowState order (reduceFunc fo func numPartitions partitionFunc filterFunc)
    (invReduceFunc fo func numPartitions partitionFunc invFunc) reduced w s j).getD ⟨[]⟩

/-- The naive path's output at tick `j`: `reduced.window(…).reduceByKey(func, numPartitions)`. -/
def naiveWindow (reduced : Nat → RDD (K × V)) (w s j : Nat) : RDD (K × V) :=
  (unionOf reduced (windowRange w s j)).reduceByKey (fo.shuffle ⟨"window.reduceByKey", j⟩) func
    numPartitions partitionFunc

end Funcs

/-- `DStream.reduceByKeyAndWindow` over the parent stream `batch` whose slide is
`duration` ms; an absent `numPartitions` is the context's `defaultParallelism`. -/
def reduceByKeyAndWindow (fo : FetchOrder) (order : StepOrder) (duration defaultParallelism : ℕ+)
    (partitionFunc : K → Int) (func : V → V → V) (invFunc : Option (V → V → V))
    (windowDuration : Int) (slideDuration : Option Int) (numPartitions : Option ℕ+)
    (filterFunc : Option (K × V → Bool)) (batch : Nat → RDD (K × V)) :
    Except String (Nat → RDD (K × V)) := do
  validateWindowParam duration windowDuration slideDuration
  let numPartitions := numPartitions.getD defaultParallelism
  let reduced := reducedStream fo func numPartitions partitionFunc batch
  match invFunc with
  | some invFunc =>
    pure (incrementalWindow fo func numPartitions partitionFunc order invFunc filterFunc reduced
      (batchesOf duration windowDuration) (slideBatches duration slideDuration))
  | none => do
    let windowed ← window duration windowDuration slideDuration reduced
    pure fun j => (windowed j).reduceByKey (fo.shuffle ⟨"window.reduceByKey", j⟩) func
      numPartitions partitionFunc

/-! ### One key at a time -/

/-- Whether `filterFunc` keeps value `v` of key `k`; no filter keeps everything. -/
def keepOf (filterFunc : Option (K × V → Bool)) (k : K) (v : V) : Bool :=
  match filterFunc with
  | some f => f (k, v)
  | none => true

/-- One tick of the driver for one key, from the key's previous value and the reduces of its
entering and leaving values. -/
def keyStep (order : StepOrder) (func invFunc : V → V → V) (keep : V → Bool)
    (prev entering leaving : Option V) : Option V :=
  match order with
  | .reduceFirst =>
    ((Option.merge func prev entering).filter keep).map fun v => applyInv invFunc (v, leaving)
  | .invFirst =>
    (Option.merge func (prev.map fun v => applyInv invFunc (v, leaving)) entering).filter keep

/-- A key's value after tick `j`, when it has values `vals i` in batch `i`. -/
def keyState (order : StepOrder) (func invFunc : V → V → V) (keep : V → Bool)
    (vals : Nat → List V) (w s : Nat) : Nat → Option V
  | 0 => none
  | j + 1 => keyStep order func invFunc keep (keyState order func invFunc keep vals w s j)
      (combineAll id func ((entering w s j).flatMap vals))
      (combineAll id func ((leaving w s j).flatMap vals))

/-- The contract the docstrings put on `func` and `invFunc`, with an identity `e`. -/
structure InvertibleReduce (func invFunc : V → V → V) (e : V) : Prop where
  assoc : ∀ a b c, func (func a b) c = func a (func b c)
  comm : ∀ a b, func a b = func b a
  id_left : ∀ a, func e a = a
  inv : ∀ x y, invFunc (func x y) x = y

/-- What the incremental path needs: an associative `func` with a two-sided identity `e`, and
an `invFunc` that takes back the older operand.  Lists under append and prefix drop qualify. -/
structure InverseLaws (func invFunc : V → V → V) (e : V) : Prop where
  assoc : ∀ a b c, func (func a b) c = func a (func b c)
  id_left : ∀ a, func e a = a
  id_right : ∀ a, func a e = a
  inv : ∀ x y, invFunc (func x y) x = y

/-- A key's state against its window values: their reduce, or the identity once none is left. -/
def WindowInv (func : V → V → V) (e : V) (o : Option V) (vs : List V) : Prop :=
  o = combineAll id func vs ∨ (o = some e ∧ vs = [])

/-! ## Lemmas -/

omit [DecidableEq K] in
/-- **A key no batch holds is never held**, whatever the functions and the filter. -/
theorem keyState_of_nil (order : StepOrder) (func invFunc : V → V → V) (keep : V → Bool)
    (vals : Nat → List V) (hvals : ∀ i, vals i = []) (w s : Nat) :
    ∀ j, keyState order func invFunc keep vals w s j = none
  | 0 => rfl
  | j + 1 => by
    have he : ∀ is : List Nat, combineAll id func (is.flatMap vals) = none := fun is =>
      (combineAll_eq_none _ _ _).2 (List.flatMap_eq_nil_iff.2 fun i _ => hvals i)
    rw [keyState, keyState_of_nil order func invFunc keep vals hvals w s j, he, he]
    cases order <;> rfl

/-! ### The datasets, one key at a time -/

section Refinement

variable {fo : FetchOrder} {func : V → V → V} {numPartitions : ℕ+} {partitionFunc : K → Int}
  (hassoc : ∀ a b c, func (func a b) c = func a (func b c))
  (hred : ReducesInOrder fo func numPartitions partitionFunc) (k : K)

omit [DecidableEq K] in
@[simp] theorem keepOf_none : keepOf (none : Option (K × V → Bool)) k = fun _ => true := rfl

omit [DecidableEq K] in
@[simp] theorem filter_true_eq (o : Option V) : o.filter (fun _ => true) = o := by
  cases o <;> rfl

omit [DecidableEq K] in
theorem toList_filter (o : Option V) (p : V → Bool) : o.toList.filter p = (o.filter p).toList := by
  cases o with
  | none => rfl
  | some v => by_cases h : p v <;> simp [Option.filter_some, h]

include hassoc hred in
/-- **`reduceFunc` for one key**: the previous value merged with the entering reduce,
kept if the filter accepts it. -/
theorem valuesOf_reduceFunc (filterFunc : Option (K × V → Bool)) (t : Nat)
    (a : Option (RDD (K × V))) (o : Option V) (ha : valuesOf k (a.getD ⟨[]⟩).elems = o.toList)
    (b : RDD (K × V)) :
    valuesOf k (reduceFunc fo func numPartitions partitionFunc filterFunc t a b).elems =
      ((Option.merge func o (combineAll id func (valuesOf k b.elems))).filter
        (keepOf filterFunc k)).toList := by
  have hr : valuesOf k (match a with
      | some a => (a.union (b.reduceByKey (fo.shuffle ⟨"reduceFunc.b", t⟩) func numPartitions
          partitionFunc)).reduceByKey (fo.shuffle ⟨"reduceFunc.union", t⟩) func numPartitions
          partitionFunc
      | none => b.reduceByKey (fo.shuffle ⟨"reduceFunc.b", t⟩) func numPartitions
          partitionFunc).elems =
      (Option.merge func o (combineAll id func (valuesOf k b.elems))).toList := by
    cases a with
    | none =>
      obtain rfl : o = none := by simpa [RDD.elems] using ha.symm
      simpa using hred _ b k
    | some a =>
      simp only [Option.getD_some] at ha
      rw [hred, RDD.valuesOf_union, ha, hred, combineAll_append hassoc, combineAll_toList,
        combineAll_toList]
  cases filterFunc with
  | none => simpa [reduceFunc] using hr
  | some f => simp only [reduceFunc, RDD.valuesOf_filter_elems, hr, toList_filter]; rfl

include hred in
/-- **`invReduceFunc` for one key**: the leaving reduce taken out of the key's value. -/
theorem valuesOf_invReduceFunc (invFunc : V → V → V) (t : Nat) (a : RDD (K × V)) (o : Option V)
    (ha : valuesOf k a.elems = o.toList) (b : RDD (K × V)) :
    valuesOf k (invReduceFunc fo func numPartitions partitionFunc invFunc t a b).elems =
      (o.map fun v => applyInv invFunc (v, combineAll id func (valuesOf k b.elems))).toList := by
  obtain ⟨xs, ys, hxs, hys, h⟩ := RDD.valuesOf_leftOuterJoin (fo.shuffle ⟨"invReduceFunc.join", t⟩)
    numPartitions partitionFunc a
    (b.reduceByKey (fo.shuffle ⟨"invReduceFunc.b", t⟩) func numPartitions partitionFunc) k
  rw [ha] at hxs
  rw [hred] at hys
  simp only [invReduceFunc, RDD.valuesOf_mapValues, h, eq_toList_of_perm hxs,
    eq_toList_of_perm hys]
  cases o <;> cases combineAll id func (valuesOf k b.elems) <;> rfl

omit hassoc hred in
/-- When the leaving batches hold nothing for a key, `invReduceFunc` keeps its values, in the
order the join fetched them. -/
theorem valuesOf_invReduceFunc_of_nil (fo : FetchOrder) (func : V → V → V)
    (numPartitions : ℕ+) (partitionFunc : K → Int) (invFunc : V → V → V) (t : Nat)
    (a b : RDD (K × V)) (hb : valuesOf k b.elems = []) :
    (valuesOf k (invReduceFunc fo func numPartitions partitionFunc invFunc t a b).elems).Perm
      (valuesOf k a.elems) := by
  obtain ⟨xs, ys, hxs, hys, h⟩ := RDD.valuesOf_leftOuterJoin (fo.shuffle ⟨"invReduceFunc.join", t⟩)
    numPartitions partitionFunc a
    (b.reduceByKey (fo.shuffle ⟨"invReduceFunc.b", t⟩) func numPartitions partitionFunc) k
  rw [(RDD.valuesOf_reduceByKey_eq_nil _ func numPartitions partitionFunc b k).2 hb,
    List.perm_nil] at hys
  have hx : ∀ l : List V, (l.flatMap fun v => [(none : Option V)].map (v, ·)).map
      (applyInv invFunc) = l := fun l => by
    induction l with
    | nil => rfl
    | cons x l ih => rw [List.flatMap_cons, List.map_append, ih]; rfl
  simp only [invReduceFunc, RDD.valuesOf_mapValues, h, hys, RDD.padNone, List.isEmpty_nil,
    if_true]
  rwa [hx]

include hassoc hred in
/-- **The driver refines `keyState`**, key by key and tick by tick. -/
theorem valuesOf_windowState (order : StepOrder) (invFunc : V → V → V)
    (filterFunc : Option (K × V → Bool)) (reduced : Nat → RDD (K × V)) (w s : Nat) :
    ∀ j, valuesOf k ((windowState order (reduceFunc fo func numPartitions partitionFunc filterFunc)
        (invReduceFunc fo func numPartitions partitionFunc invFunc) reduced w s j).getD ⟨[]⟩).elems =
      (keyState order func invFunc (keepOf filterFunc k) (fun i => valuesOf k (reduced i).elems)
        w s j).toList
  | 0 => rfl
  | j + 1 => by
    have ih := valuesOf_windowState order invFunc filterFunc reduced w s j
    simp only [windowState, keyState, Option.getD_some, ← valuesOf_unionOf]
    cases order with
    | reduceFirst =>
      exact valuesOf_invReduceFunc hred k invFunc j _ _
        (valuesOf_reduceFunc hassoc hred k filterFunc j _ _ ih _) _
    | invFirst =>
      refine valuesOf_reduceFunc hassoc hred k filterFunc j _ _ ?_ _
      cases hprev : windowState .invFirst (reduceFunc fo func numPartitions partitionFunc filterFunc)
          (invReduceFunc fo func numPartitions partitionFunc invFunc) reduced w s j with
      | none =>
        have h0 : keyState .invFirst func invFunc (keepOf filterFunc k)
            (fun i => valuesOf k (reduced i).elems) w s j = none := by
          rw [hprev] at ih; exact (toList_eq_nil _).1 ih.symm
        rw [h0]; rfl
      | some A =>
        rw [hprev] at ih
        exact valuesOf_invReduceFunc hred k invFunc j A _ ih _

include hassoc hred in
/-- A key that no reduced batch holds is absent from the incremental path at every tick. -/
theorem valuesOf_incrementalWindow_of_nil (order : StepOrder) (invFunc : V → V → V)
    (filterFunc : Option (K × V → Bool)) (reduced : Nat → RDD (K × V)) (w s j : Nat)
    (hk : ∀ i, valuesOf k (reduced i).elems = []) :
    valuesOf k (incrementalWindow fo func numPartitions partitionFunc order invFunc filterFunc
      reduced w s j).elems = [] := by
  rw [incrementalWindow, valuesOf_windowState hassoc hred k,
    keyState_of_nil _ _ _ _ _ hk]
  rfl

end Refinement

/-! ### The window invariant -/

section Invariant

theorem InvertibleReduce.inverseLaws {func invFunc : V → V → V} {e : V}
    (hf : InvertibleReduce func invFunc e) : InverseLaws func invFunc e :=
  ⟨hf.assoc, hf.id_left, fun a => by rw [hf.comm, hf.id_left], hf.inv⟩

variable {func invFunc : V → V → V} {e : V} (hl : InverseLaws func invFunc e)
include hl

theorem InverseLaws.inv_self (l : V) : invFunc l l = e := by
  simpa [hl.id_right] using hl.inv l e

/-- Merging in the reduce of new values keeps the invariant. -/
theorem WindowInv.merge {o : Option V} {vs : List V} (h : WindowInv func e o vs) (ws : List V) :
    WindowInv func e (Option.merge func o (combineAll id func ws)) (vs ++ ws) := by
  rcases h with rfl | ⟨rfl, rfl⟩
  · exact .inl (combineAll_append hl.assoc vs ws).symm
  · cases hws : combineAll id func ws with
    | none => exact .inr ⟨rfl, by simpa using hws⟩
    | some x => exact .inl (by simp [Option.merge, hl.id_left, hws])

/-- Taking out the reduce of the oldest values keeps the invariant. -/
theorem WindowInv.sub {o : Option V} {ls vs : List V} (h : WindowInv func e o (ls ++ vs)) :
    WindowInv func e (o.map fun v => applyInv invFunc (v, combineAll id func ls)) vs := by
  rcases h with rfl | ⟨rfl, h⟩
  · rw [combineAll_append hl.assoc]
    cases hl' : combineAll id func ls with
    | none => left; cases combineAll id func vs <;> rfl
    | some l =>
      cases hv : combineAll id func vs with
      | none => exact .inr ⟨by simp [Option.merge, applyInv, hl.inv_self], by simpa using hv⟩
      | some x => exact .inl (by simp [Option.merge, applyInv, hl.inv, hv])
  · obtain ⟨rfl, rfl⟩ := List.append_eq_nil.1 h
    exact .inr ⟨rfl, rfl⟩

/-- **One tick keeps the invariant**, in either order, when no filter is given: the oldest
values leave, the newest enter. -/
theorem keyStep_windowInv (order : StepOrder) {o : Option V} {leaving common entering : List V}
    (h : WindowInv func e o (leaving ++ common)) :
    WindowInv func e (keyStep order func invFunc (fun _ => true) o (combineAll id func entering)
      (combineAll id func leaving)) (common ++ entering) := by
  cases order with
  | reduceFirst =>
    have h1 := h.merge hl entering
    rw [List.append_assoc] at h1
    simpa [keyStep] using h1.sub hl
  | invFirst => simpa [keyStep] using (h.sub hl).merge hl entering

/-- **Every tick keeps the invariant.** -/
theorem keyState_windowInv (order : StepOrder) (vals : Nat → List V) (w s : Nat) :
    ∀ j, WindowInv func e (keyState order func invFunc (fun _ => true) vals w s j)
      ((windowRange w s j).flatMap vals)
  | 0 => .inl (by simp [keyState, combineAll])
  | j + 1 => by
    have ih := keyState_windowInv order vals w s j
    rw [windowRange_eq_leaving_append_common, List.flatMap_append] at ih
    rw [windowRange_succ_eq_common_append_entering, List.flatMap_append]
    exact keyStep_windowInv hl order ih

end Invariant

/-- Add and subtract on integers meet the contract, with identity `0`. -/
theorem addSub_invertible : InvertibleReduce (· + ·) (· - ·) (0 : Int) :=
  ⟨Int.add_assoc, Int.add_comm, Int.zero_add, fun x y => by omega⟩

/-! ### The two paths -/

/-- The naive path for one key: the reduce of the key's values in the window's reduced batches. -/
theorem valuesOf_naiveWindow {fo : FetchOrder} {func : V → V → V} {numPartitions : ℕ+}
    {partitionFunc : K → Int} (hred : ReducesInOrder fo func numPartitions partitionFunc)
    (reduced : Nat → RDD (K × V)) (w s j : Nat) (k : K) :
    valuesOf k (naiveWindow fo func numPartitions partitionFunc reduced w s j).elems =
      (combineAll id func ((windowRange w s j).flatMap fun i => valuesOf k (reduced i).elems)).toList := by
  rw [naiveWindow, hred, valuesOf_unionOf]

/-- A key has values in the reduced batches of a window exactly when it has some in the window. -/
theorem flatMap_reducedStream_eq_nil (fo : FetchOrder) (func : V → V → V) (numPartitions : ℕ+)
    (partitionFunc : K → Int) (batch : Nat → RDD (K × V)) (is : List Nat) (k : K) :
    is.flatMap (fun i => valuesOf k (reducedStream fo func numPartitions partitionFunc batch i).elems)
      = [] ↔ valuesOf k (unionOf batch is).elems = [] := by
  simp only [valuesOf_unionOf, List.flatMap_eq_nil_iff, reducedStream,
    RDD.valuesOf_reduceByKey_eq_nil]

/-- Combining a key's reduced batches over a window is combining its values in the window,
when `reduceByKey` reduces in dataset order. -/
theorem combineAll_reducedStream {fo : FetchOrder} {func : V → V → V} {numPartitions : ℕ+}
    {partitionFunc : K → Int} (hassoc : ∀ a b c, func (func a b) c = func a (func b c))
    (hred : ReducesInOrder fo func numPartitions partitionFunc) (batch : Nat → RDD (K × V))
    (is : List Nat) (k : K) :
    combineAll id func
        (is.flatMap fun i => valuesOf k (reducedStream fo func numPartitions partitionFunc batch i).elems) =
      combineAll id func (valuesOf k (unionOf batch is).elems) := by
  simp only [reducedStream, hred _ _ k, valuesOf_unionOf, List.flatMap_def]
  have h := combineAll_flatten hassoc (is.map fun i => valuesOf k (batch i).elems)
  rwa [List.map_map] at h

/-- **The incremental path, one key at a time.**  Without a filter and under `InverseLaws`,
whenever `reduceByKey` reduces in dataset order, each tick's map holds at most one value for
`k`: the reduce of `k`'s values in the window's batches, or `e` when there are none. -/
theorem incrementalWindow_agrees {fo : FetchOrder} {func invFunc : V → V → V} {e : V}
    {numPartitions : ℕ+} {partitionFunc : K → Int} (hl : InverseLaws func invFunc e)
    (hred : ReducesInOrder fo func numPartitions partitionFunc) (order : StepOrder)
    (reduced : Nat → RDD (K × V)) (w s j : Nat) (k : K) :
    (valuesOf k (incrementalWindow fo func numPartitions partitionFunc order invFunc none
      reduced w s j).elems).length ≤ 1 ∧
    (((windowRange w s j).flatMap fun i => valuesOf k (reduced i).elems) ≠ [] →
      valuesOf k (incrementalWindow fo func numPartitions partitionFunc order invFunc none
        reduced w s j).elems =
      (combineAll id func ((windowRange w s j).flatMap fun i => valuesOf k (reduced i).elems)).toList) ∧
    (((windowRange w s j).flatMap fun i => valuesOf k (reduced i).elems) = [] →
      ∀ v ∈ valuesOf k (incrementalWindow fo func numPartitions partitionFunc order invFunc none
        reduced w s j).elems, v = e) := by
  have hinc := valuesOf_windowState hl.assoc hred k order invFunc none reduced w s j
  simp only [keepOf_none] at hinc
  rw [incrementalWindow, hinc]
  rcases keyState_windowInv hl order (fun i => valuesOf k (reduced i).elems) w s j
    with h | ⟨h, hvs⟩ <;> rw [h]
  · refine ⟨by cases combineAll id func _ <;> simp, fun _ => rfl, fun hvs v hv => ?_⟩
    simp [hvs, combineAll] at hv
  · exact ⟨by simp, fun hne => absurd hvs hne, fun _ v hv => by simpa using hv⟩

/-- **The incremental path agrees with the naive one.**  Without a filter, in either order of
the driver's calls and for every fetch order, each tick's map holds at most one value per key;
a key with values in the window gets the naive path's value, and any other key it holds has
the identity. -/
theorem incrementalWindow_eq_naiveWindow {func invFunc : V → V → V} {e : V}
    (hf : InvertibleReduce func invFunc e) (fo : FetchOrder) (order : StepOrder)
    (numPartitions : ℕ+) (partitionFunc : K → Int) (batch : Nat → RDD (K × V)) (w s j : Nat)
    (k : K) :
    let reduced := reducedStream fo func numPartitions partitionFunc batch
    let inc := valuesOf k (incrementalWindow fo func numPartitions partitionFunc order invFunc none
      reduced w s j).elems
    inc.length ≤ 1 ∧
      (valuesOf k (unionOf batch (windowRange w s j)).elems ≠ [] →
        inc = valuesOf k (naiveWindow fo func numPartitions partitionFunc reduced w s j).elems) ∧
      (valuesOf k (unionOf batch (windowRange w s j)).elems = [] → ∀ v ∈ inc, v = e) := by
  intro reduced inc
  have hred := reducesInOrder_of_comm hf.assoc hf.comm fo numPartitions partitionFunc
  have hnil := flatMap_reducedStream_eq_nil fo func numPartitions partitionFunc batch
    (windowRange w s j) k
  obtain ⟨hlen, hne, hemp⟩ := incrementalWindow_agrees hf.inverseLaws hred order reduced w s j k
  rw [valuesOf_naiveWindow hred]
  exact ⟨hlen, fun h => hne (mt hnil.1 h), fun h => hemp (hnil.2 h)⟩

/-- The spec's scenario: add and subtract over the batches `{k: 1}`, `{k: 1}`, `{k: 1}` with a
window of two batches sliding by one; at tick 3 both paths give `k` the sum `2`. -/
theorem incrementalWindow_eq_naiveWindow_addSub :
    let batch := batchAt [(⟨[[(0, 1)]]⟩ : RDD (Nat × Int)), ⟨[[(0, 1)]]⟩, ⟨[[(0, 1)]]⟩]
    let reduced := reducedStream FetchOrder.inOrder (· + ·) 1 (fun k : Nat => (k : Int)) batch
    InvertibleReduce (· + ·) (· - ·) (0 : Int) ∧
      valuesOf 0 (incrementalWindow FetchOrder.inOrder (· + ·) 1 (fun k : Nat => (k : Int))
        .reduceFirst (· - ·) none reduced 2 1 3).elems =
      valuesOf 0 (naiveWindow FetchOrder.inOrder (· + ·) 1 (fun k : Nat => (k : Int)) reduced 2 1 3).elems :=
  ⟨addSub_invertible, (incrementalWindow_eq_naiveWindow addSub_invertible FetchOrder.inOrder
    .reduceFirst 1 (fun k : Nat => (k : Int)) _ 2 1 3 0).2.1 (by decide)⟩

/-- A filter can drop a key the window still holds: with add and subtract, one pair `(0, 1)`,
a one-batch window and a filter that keeps nothing, the incremental path emits nothing for key
`(0)` at tick 1 in either order, while the naive path emits its sum. -/
theorem incrementalWindow_filter_drops_key :
    let batch := batchAt [(⟨[[(0, 1)]]⟩ : RDD (Nat × Int))]
    let reduced := reducedStream FetchOrder.inOrder (· + ·) 1 (fun k : Nat => (k : Int)) batch
    InvertibleReduce (· + ·) (· - ·) (0 : Int) ∧
      valuesOf 0 (unionOf batch (windowRange 1 1 1)).elems = [1] ∧
      (∀ order, valuesOf 0 (incrementalWindow FetchOrder.inOrder (· + ·) 1 (fun k : Nat => (k : Int))
        order (· - ·) (some fun _ => false) reduced 1 1 1).elems = []) ∧
      valuesOf 0 (naiveWindow FetchOrder.inOrder (· + ·) 1 (fun k : Nat => (k : Int)) reduced 1 1 1).elems
        = [1] := by
  refine ⟨addSub_invertible, by decide, fun order => ?_, by decide⟩
  cases order <;> decide

/-! ### The entry point -/

section Entry

variable (fo : FetchOrder) (order : StepOrder) (duration defaultParallelism : ℕ+)
  (partitionFunc : K → Int) (func : V → V → V) (windowDuration : Int)
  (slideDuration : Option Int) (numPartitions : Option ℕ+) (batch : Nat → RDD (K × V))

/-- With an `invFunc`, a run that passes validation is the incremental path. -/
theorem reduceByKeyAndWindow_some_ok {invFunc : V → V → V} {filterFunc : Option (K × V → Bool)}
    {out : Nat → RDD (K × V)}
    (h : reduceByKeyAndWindow fo order duration defaultParallelism partitionFunc func (some invFunc)
      windowDuration slideDuration numPartitions filterFunc batch = .ok out) :
    out = incrementalWindow fo func (numPartitions.getD defaultParallelism) partitionFunc order
      invFunc filterFunc
      (reducedStream fo func (numPartitions.getD defaultParallelism) partitionFunc batch)
      (batchesOf duration windowDuration) (slideBatches duration slideDuration) := by
  unfold reduceByKeyAndWindow at h
  cases hv : validateWindowParam duration windowDuration slideDuration <;>
    simp [hv, bind, Except.bind, pure, Except.pure] at h
  exact h.symm

/-- Without an `invFunc`, a run that passes validation is the naive path. -/
theorem reduceByKeyAndWindow_none_ok {filterFunc : Option (K × V → Bool)}
    {out : Nat → RDD (K × V)}
    (h : reduceByKeyAndWindow fo order duration defaultParallelism partitionFunc func none
      windowDuration slideDuration numPartitions filterFunc batch = .ok out) :
    out = naiveWindow fo func (numPartitions.getD defaultParallelism) partitionFunc
      (reducedStream fo func (numPartitions.getD defaultParallelism) partitionFunc batch)
      (batchesOf duration windowDuration) (slideBatches duration slideDuration) := by
  unfold reduceByKeyAndWindow at h
  cases hv : validateWindowParam duration windowDuration slideDuration <;>
    simp [hv, window, bind, Except.bind, pure, Except.pure] at h
  exact h.symm

/-- `reduceByKeyAndWindow` fails exactly as `_validate_window_param` does. -/
theorem reduceByKeyAndWindow_error_iff (invFunc : Option (V → V → V))
    (filterFunc : Option (K × V → Bool)) (msg : String) :
    reduceByKeyAndWindow fo order duration defaultParallelism partitionFunc func invFunc
        windowDuration slideDuration numPartitions filterFunc batch = .error msg ↔
      validateWindowParam duration windowDuration slideDuration = .error msg := by
  unfold reduceByKeyAndWindow
  cases hv : validateWindowParam duration windowDuration slideDuration with
  | error m => simp [bind, Except.bind]
  | ok u =>
    cases invFunc with
    | some f => simp [bind, Except.bind, pure, Except.pure]
    | none => simp [window, hv, bind, Except.bind, pure, Except.pure]

/-- **Which windows are rejected, and with which message.**  `window` and
`reduceByKeyAndWindow` fail, returning nothing, exactly when `1000 * windowDuration` is
no multiple of the parent's slide, or the slide is given, nonzero and no multiple; the message
names the first field that fails.  Zero and negative multiples pass. -/
theorem windowParam_error_iff (invFunc : Option (V → V → V))
    (filterFunc : Option (K × V → Bool)) (msg : String) :
    (window duration windowDuration slideDuration batch = .error msg ↔
      reduceByKeyAndWindow fo order duration defaultParallelism partitionFunc func invFunc
        windowDuration slideDuration numPartitions filterFunc batch = .error msg) ∧
    (reduceByKeyAndWindow fo order duration defaultParallelism partitionFunc func invFunc
        windowDuration slideDuration numPartitions filterFunc batch = .error msg ↔
      (windowDuration * 1000 % (duration : Nat) ≠ 0 ∧
        windowParamError "windowDuration" duration = msg) ∨
      (windowDuration * 1000 % (duration : Nat) = 0 ∧ slideIsSet slideDuration ∧
        slideDuration.getD 0 * 1000 % (duration : Nat) ≠ 0 ∧
        windowParamError "slideDuration" duration = msg)) := by
  rw [window_error_iff, reduceByKeyAndWindow_error_iff, validateWindowParam_error]
  exact ⟨Iff.rfl, Iff.rfl⟩

/-- A zero window passes, and so do a negative multiple and a zero slide, for a one-second
parent: `window` and `reduceByKeyAndWindow` both return a stream. -/
theorem window_accepts_nonpositive :
    let batch : Nat → RDD (Nat × Int) := fun _ => ⟨[[(0, 1)]]⟩
    (∃ out, window 1000 0 none batch = .ok out) ∧
      (∃ out, window 1000 (-2) (some 0) batch = .ok out) ∧
      ∃ out, reduceByKeyAndWindow FetchOrder.inOrder .reduceFirst 1000 1 (fun k : Nat => (k : Int))
        (· + ·) (some (· - ·)) 0 none none none batch = .ok out :=
  ⟨⟨_, rfl⟩, ⟨_, rfl⟩, ⟨_, rfl⟩⟩

/-- **Where the filter applies.**  Without an `invFunc` the result does not depend on
`filterFunc`.  With one, every pair emitted at a tick satisfies it, unless the driver calls
`reduceFunc` first and the key has values in the batches leaving the window at that tick. -/
theorem reduceByKeyAndWindow_filterFunc (f : K × V → Bool) :
    reduceByKeyAndWindow fo order duration defaultParallelism partitionFunc func none
        windowDuration slideDuration numPartitions (some f) batch =
      reduceByKeyAndWindow fo order duration defaultParallelism partitionFunc func none
        windowDuration slideDuration numPartitions none batch ∧
    ∀ invFunc out, reduceByKeyAndWindow fo order duration defaultParallelism partitionFunc func
        (some invFunc) windowDuration slideDuration numPartitions (some f) batch = .ok out →
      ∀ j k v, (k, v) ∈ (out (j + 1)).elems → f (k, v) = true ∨
        (order = .reduceFirst ∧ ((leaving (batchesOf duration windowDuration)
          (slideBatches duration slideDuration) j).flatMap fun i => valuesOf k (batch i).elems) ≠ []) := by
  refine ⟨rfl, fun invFunc out h j k v hv => ?_⟩
  rw [reduceByKeyAndWindow_some_ok fo order duration defaultParallelism partitionFunc func
    windowDuration slideDuration numPartitions batch h, ← mem_valuesOf] at hv
  simp only [incrementalWindow, windowState, Option.getD_some] at hv
  cases order with
  | invFirst =>
    simp only [windowStep, reduceFunc, RDD.valuesOf_filter_elems, List.mem_filter] at hv
    exact .inl hv.2
  | reduceFirst =>
    by_cases hL : (leaving (batchesOf duration windowDuration) (slideBatches duration slideDuration)
      j).flatMap (fun i => valuesOf k (batch i).elems) = []
    · rw [← valuesOf_unionOf, ← flatMap_reducedStream_eq_nil fo func
        (numPartitions.getD defaultParallelism) partitionFunc, ← valuesOf_unionOf] at hL
      rw [windowStep, (valuesOf_invReduceFunc_of_nil k _ _ _ _ _ _ _ _ hL).mem_iff] at hv
      simp only [reduceFunc, RDD.valuesOf_filter_elems, List.mem_filter] at hv
      exact .inl hv.2
    · exact .inr ⟨rfl, hL⟩

/-- **The naive path ignores `filterFunc`.**  In every fetch schedule: summing the one batch
`(0, 1)` of a one-second parent over a one-second window, without an `invFunc` and with a filter
that keeps nothing, passes validation and emits the pair `(0, 1)` at tick 1. -/
theorem reduceByKeyAndWindow_naive_ignores_filter (fo : FetchOrder) :
    ∃ out, reduceByKeyAndWindow fo .reduceFirst 1000 1 (fun k : Nat => (k : Int)) (· + ·) none 1
        none none (some fun _ => false) (batchAt [(⟨[[(0, 1)]]⟩ : RDD (Nat × Int))]) = .ok out ∧
      (0, 1) ∈ (out 1).elems := by
  have hred : ReducesInOrder fo (· + ·) ((none : Option ℕ+).getD 1) (fun k : Nat => (k : Int)) :=
    reducesInOrder_of_comm Int.add_assoc Int.add_comm fo _ _
  obtain ⟨out, hout⟩ : ∃ out, reduceByKeyAndWindow fo .reduceFirst 1000 1
      (fun k : Nat => (k : Int)) (· + ·) none 1 none none (some fun _ => false)
      (batchAt [(⟨[[(0, 1)]]⟩ : RDD (Nat × Int))]) = .ok out := ⟨_, rfl⟩
  refine ⟨out, hout, ?_⟩
  rw [reduceByKeyAndWindow_none_ok fo .reduceFirst 1000 1 (fun k : Nat => (k : Int)) (· + ·) 1
    none none _ hout, ← mem_valuesOf, valuesOf_naiveWindow hred]
  simp only [reducedStream, hred _ _ 0]
  decide

end Entry

end SparkStreaming
