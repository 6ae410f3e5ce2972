import Mathlib.Data.List.Infix
import SparkStreaming.Rdd

/-!
# Output operations: `pprint` and `saveAsTextFiles`

Both register a function with `foreachRDD`, which runs it on every batch; what
they do with one batch is a pure function here.  `pprint(num)` prints a header,
the first `num` elements and `...` when there are more (`takeAndPrint_eq`):

    takeAndPrint num str time rdd
      = header ++ (rdd.elems.take num.toNat).map str
          ++ (if num < rdd.elems.length then ["..."] else []) ++ [""]

so a negative `num` prints no element and always `...`.  `saveAsTextFiles`
swallows a failed save whose error names `FileAlreadyExistsException`, as a
batch saved again after recovery from a checkpoint fails that way, and raises
every other failure unchanged (`saveAsTextFile_eq_ok_iff`).
-/

namespace SparkStreaming

variable {α : Type}

/-! ## Algorithm -/

/-- PySpark's `RDD.take`, whose code is not part of this repository: the first `num` elements,
partition after partition, and none for `num ≤ 0`. -/
def RDD.take (num : Int) (r : RDD α) : List α := r.elems.take num.toNat

/-- Python's slice `xs[:num]`: the first `num` elements, or all but the last `-num` ones for a
negative `num`. -/
def sliceTo (xs : List α) (num : Int) : List α :=
  if 0 ≤ num then xs.take num.toNat else xs.take (xs.length - num.natAbs)

/-- The separator line `pprint` prints around the time. -/
def pprint.rule : String := "-------------------------------------------"

/-- `pprint`'s `takeAndPrint`: the lines printed for the batch of `time`; `str` renders a record
and `time` is the rendered time. -/
def pprint.takeAndPrint (num : Int) (str : α → String) (time : String) (rdd : RDD α) :
    List String :=
  let taken := rdd.take (num + 1)
  [pprint.rule, s!"Time: {time}", pprint.rule] ++ (sliceTo taken num).map str ++
    (if (taken.length : Int) > num then ["..."] else []) ++ [""]

/-- Whether a Java error's text names `FileAlreadyExistsException`. -/
def namesFileAlreadyExists (e : String) : Bool :=
  decide ("FileAlreadyExistsException".toList <:+: e.toList)

/-- `saveAsTextFiles`'s `saveAsTextFile`, given the outcome of `rdd.saveAsTextFile(path)`: a
failure that names `FileAlreadyExistsException` is swallowed, any other is raised again. -/
def saveAsTextFiles.saveAsTextFile (saved : Except String Unit) : Except String Unit :=
  match saved with
  | .ok () => .ok ()
  | .error e => if namesFileAlreadyExists e then .ok () else .error e

/-! ## Lemmas -/

/-- **What `pprint` prints for a batch**: the header, the batch's first `num` elements (none for
a negative `num`), `...` exactly when the batch holds more than `num` elements, and an empty
line. -/
theorem takeAndPrint_eq (num : Int) (str : α → String) (time : String) (rdd : RDD α) :
    pprint.takeAndPrint num str time rdd =
      [pprint.rule, s!"Time: {time}", pprint.rule] ++ (rdd.elems.take num.toNat).map str ++
        (if num < rdd.elems.length then ["..."] else []) ++ [""] := by
  unfold pprint.takeAndPrint RDD.take sliceTo
  by_cases h : 0 ≤ num
  · have h1 : (num + 1).toNat = num.toNat + 1 := by omega
    have h2 : ((rdd.elems.take (num.toNat + 1)).length : Int) > num ↔
        num < rdd.elems.length := by
      rw [List.length_take]; omega
    simp only [if_pos h, h1, List.take_take, Nat.min_eq_left (Nat.le_succ _), h2]
  · have h1 : (num + 1).toNat = 0 := by omega
    have h2 : num < rdd.elems.length := by omega
    simp [if_neg h, h1, Int.toNat_eq_zero.2 (Int.le_of_lt (Int.not_le.1 h)), h2,
      show num < 0 from Int.not_le.1 h]

example : pprint.takeAndPrint 1 toString "t" (⟨[[1, 2]]⟩ : RDD Nat) =
    [pprint.rule, "Time: t", pprint.rule, "1", "...", ""] := by
  decide

/-- **A save fails exactly when the underlying save failed for another reason**, with that
reason. -/
theorem saveAsTextFile_eq_ok_iff (saved : Except String Unit) :
    saveAsTextFiles.saveAsTextFile saved = .ok () ↔
      saved = .ok () ∨ ∃ e, saved = .error e ∧ namesFileAlreadyExists e = true := by
  rcases saved with e | ⟨⟩ <;> simp only [saveAsTextFiles.saveAsTextFile]
  · split <;> simp_all
  · simp

example : saveAsTextFiles.saveAsTextFile
    (.error "org.apache.hadoop.mapred.FileAlreadyExistsException: Output directory exists") =
      .ok () :=
  rfl

end SparkStreaming
