import Mathlib.Data.List.Sort
import SparkStreaming.Rdd

/-!
# Windows over a stream of batches

A DStream is, tick by tick, a sequence of datasets; the parent's batch `i` is
`batchAt bs i` (empty past the end of `bs`).  A window of `w` batches sliding
by `s` batches has, at output tick `j`, the batches with index in
`[j s - w, j s)`: the parent batches whose time lies in `(t - window, t]` for
the tick's time `t`.  Tick `0` is the empty window before the first slide.

`window` and `reduceByKeyAndWindow` first run `_validate_window_param`, which
checks `int(x * 1000) % duration` for the window and, when it is truthy, for
the slide:

    validateWindowParam duration w s = .ok () ↔
      w * 1000 % duration = 0 ∧ (s = none ∨ s = some 0 ∨ s * 1000 % duration = 0)
                                                   (validateWindowParam_ok_iff)

The entering and leaving batches of a tick are those of its window not in the
previous one and those of the previous window not in it.  Windows are runs of
consecutive batches, so they split in order:

    windowRange w s j       = leaving w s j ++ common w s j
    windowRange w s (j + 1) = common w s j ++ entering w s j
-/

namespace SparkStreaming

variable {α K V : Type}

/-! ## Algorithm -/

/-- The slide argument is used only when it is truthy (`if slide and …`). -/
def slideIsSet : Option Int → Bool
  | some s => s != 0
  | none => false

/-- The text of the `ValueError` for a duration `field` that is no multiple of `d` ms. -/
def windowParamError (field : String) (d : Nat) : String :=
  s!"{field} must be multiple of the parent dstream\x27s slide (batch) duration ({d} ms)"

/-- `DStream._validate_window_param`; `duration` is the parent's slide duration in ms. -/
def validateWindowParam (duration : ℕ+) (window : Int) (slide : Option Int) :
    Except String Unit := do
  let d : Nat := duration
  if window * 1000 % d ≠ 0 then
    throw (windowParamError "windowDuration" d)
  if slideIsSet slide ∧ slide.getD 0 * 1000 % d ≠ 0 then
    throw (windowParamError "slideDuration" d)

/-- A duration in seconds as a number of parent batches. -/
def batchesOf (duration : ℕ+) (x : Int) : Nat := (x * 1000 / (duration : Nat)).toNat

/-- The slide in batches: one batch when the slide is absent. -/
def slideBatches (duration : ℕ+) : Option Int → Nat
  | some s => batchesOf duration s
  | none => 1

/-- The parent's batch `i`; a stream is empty past the batches it was given. -/
def batchAt (bs : List (RDD α)) (i : Nat) : RDD α := bs.getD i ⟨[]⟩

/-- The batch indices of output tick `j`: `[j s - w, j s)`. -/
def windowRange (w s j : Nat) : List Nat := List.range' (j * s - w) (j * s - (j * s - w))

/-- The batches of tick `j + 1` that were not in the window of tick `j`. -/
def entering (w s j : Nat) : List Nat :=
  (windowRange w s (j + 1)).filter (· ∉ windowRange w s j)

/-- The batches of tick `j` that are not in the window of tick `j + 1`. -/
def leaving (w s j : Nat) : List Nat :=
  (windowRange w s j).filter (· ∉ windowRange w s (j + 1))

/-- `sc.union` of the given batches: their partitions, in order. -/
def unionOf (batch : Nat → RDD α) (is : List Nat) : RDD α :=
  ⟨is.flatMap fun i => (batch i).partitions⟩

/-- `DStream.window`: validate, then the windowed stream of the parent `batch`. -/
def window (duration : ℕ+) (windowDuration : Int) (slideDuration : Option Int)
    (batch : Nat → RDD α) : Except String (Nat → RDD α) := do
  validateWindowParam duration windowDuration slideDuration
  pure fun j => unionOf batch
    (windowRange (batchesOf duration windowDuration) (slideBatches duration slideDuration) j)

/-! ## Lemmas -/

/-- The two checks of `_validate_window_param`, in order. -/
theorem validateWindowParam_eq (duration : ℕ+) (window : Int) (slide : Option Int) :
    validateWindowParam duration window slide =
      if window * 1000 % (duration : Nat) ≠ 0 then
        .error (windowParamError "windowDuration" duration)
      else if slideIsSet slide ∧ slide.getD 0 * 1000 % (duration : Nat) ≠ 0 then
        .error (windowParamError "slideDuration" duration)
      else .ok () := by
  unfold validateWindowParam
  dsimp only
  split_ifs <;> rfl

/-- **What `_validate_window_param` accepts.** -/
theorem validateWindowParam_ok_iff (duration : ℕ+) (window : Int) (slide : Option Int) :
    validateWindowParam duration window slide = .ok () ↔
      window * 1000 % (duration : Nat) = 0 ∧
        (slide = none ∨ slide = some 0 ∨ slide.getD 0 * 1000 % (duration : Nat) = 0) := by
  rw [validateWindowParam_eq]
  cases slide <;> split_ifs <;> simp_all [slideIsSet, or_iff_not_imp_left]

/-- **Which field a failure names.**  The window is checked first; the slide only
when it is truthy. -/
theorem validateWindowParam_error (duration : ℕ+) (window : Int) (slide : Option Int)
    (msg : String) :
    validateWindowParam duration window slide = .error msg ↔
      (window * 1000 % (duration : Nat) ≠ 0 ∧ windowParamError "windowDuration" duration = msg) ∨
      (window * 1000 % (duration : Nat) = 0 ∧ slideIsSet slide ∧
        slide.getD 0 * 1000 % (duration : Nat) ≠ 0 ∧
        windowParamError "slideDuration" duration = msg) := by
  rw [validateWindowParam_eq]
  split_ifs with hw hs <;> simp_all

/-- `window` fails exactly as `_validate_window_param` does. -/
theorem window_error_iff (duration : ℕ+) (windowDuration : Int) (slideDuration : Option Int)
    (batch : Nat → RDD α) (msg : String) :
    window duration windowDuration slideDuration batch = .error msg ↔
      validateWindowParam duration windowDuration slideDuration = .error msg := by
  unfold window
  cases validateWindowParam duration windowDuration slideDuration <;>
    simp [bind, Except.bind, pure, Except.pure]

/-! ### Window arithmetic -/

@[simp] theorem mem_windowRange (w s j i : Nat) :
    i ∈ windowRange w s j ↔ j * s - w ≤ i ∧ i < j * s := by
  simp [windowRange]

theorem nodup_windowRange (w s j : Nat) : (windowRange w s j).Nodup := List.nodup_range' _ _

@[simp] theorem windowRange_zero (w s : Nat) : windowRange w s 0 = [] := by simp [windowRange]

/-- The batches of tick `j` that stay in the window of tick `j + 1`. -/
def common (w s j : Nat) : List Nat := (windowRange w s j).filter (· ∈ windowRange w s (j + 1))

/-- The union of batches holds their elements, batch after batch. -/
theorem elems_unionOf (batch : Nat → RDD α) (is : List Nat) :
    (unionOf batch is).elems = is.flatMap fun i => (batch i).elems := by
  induction is with
  | nil => rfl
  | cons i is ih =>
    simp only [unionOf, RDD.elems, List.flatMap_cons, List.flatten_append] at ih ⊢
    rw [ih]

theorem valuesOf_unionOf [DecidableEq K] (batch : Nat → RDD (K × V)) (is : List Nat) (k : K) :
    valuesOf k (unionOf batch is).elems = is.flatMap fun i => valuesOf k (batch i).elems := by
  induction is with
  | nil => rfl
  | cons i is ih =>
    simp only [unionOf, RDD.elems, List.flatMap_cons, List.flatten_append] at ih ⊢
    rw [valuesOf_append, ih]

/-- A window is in batch order, so it splits at any batch index. -/
theorem windowRange_split (w s j t : Nat) :
    windowRange w s j = (windowRange w s j).filter (· < t) ++ (windowRange w s j).filter (t ≤ ·) := by
  unfold windowRange
  generalize j * s - w = a
  generalize j * s - a = n
  induction n generalizing a with
  | zero => rfl
  | succ n ih =>
    by_cases h : a < t
    · rw [List.range'_succ]
      simpa [List.filter_cons, h, Nat.not_le.2 h] using ih (a + 1)
    · rw [List.filter_eq_nil_iff.2 fun x hx => ?_, List.filter_eq_self.2 fun x hx => ?_,
        List.nil_append] <;> simp at hx ⊢ <;> omega

/-- The previous window is the batches that leave, then those that stay. -/
theorem windowRange_eq_leaving_append_common (w s j : Nat) :
    windowRange w s j = leaving w s j ++ common w s j := by
  have hl : leaving w s j = (windowRange w s j).filter (· < (j + 1) * s - w) :=
    List.filter_congr fun x hx => by
      rw [decide_eq_decide]; simp only [mem_windowRange, Nat.add_one_mul] at hx ⊢; omega
  have hc : common w s j = (windowRange w s j).filter ((j + 1) * s - w ≤ ·) :=
    List.filter_congr fun x hx => by
      rw [decide_eq_decide]; simp only [mem_windowRange, Nat.add_one_mul] at hx ⊢; omega
  rw [hl, hc]
  exact windowRange_split w s j _

/-- The batches that stay are the new window's batches before the new slide. -/
theorem common_eq_filter (w s j : Nat) :
    common w s j = (windowRange w s (j + 1)).filter (· < j * s) := by
  refine List.eq_of_perm_of_sorted (r := (· ≤ ·)) ?_
    ((List.pairwise_le_range' _ _).filter _) ((List.pairwise_le_range' _ _).filter _)
  refine (List.perm_ext_iff_of_nodup ((nodup_windowRange _ _ _).filter _)
    ((nodup_windowRange _ _ _).filter _)).2 fun x => ?_
  simp only [common, List.mem_filter, mem_windowRange, decide_eq_true_eq, Nat.add_one_mul]
  omega

/-- The new window is the batches that stayed, then those that enter. -/
theorem windowRange_succ_eq_common_append_entering (w s j : Nat) :
    windowRange w s (j + 1) = common w s j ++ entering w s j := by
  have he : entering w s j = (windowRange w s (j + 1)).filter (j * s ≤ ·) :=
    List.filter_congr fun x hx => by
      rw [decide_eq_decide]; simp only [mem_windowRange, Nat.add_one_mul] at hx ⊢; omega
  rw [common_eq_filter, he]
  exact windowRange_split w s (j + 1) _

end SparkStreaming
