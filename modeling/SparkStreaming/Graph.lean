import Mathlib.Data.List.Basic

/-!
# The DStream graph: transform, fusion and the cache/checkpoint flags

Building a streaming program builds a graph of DStream objects.  Most
operations (`map`, `filter`, `reduceByKey`, `count`, …) are a call to
`DStream.transform`, which normalises the user function to take
`(time, rdd)` and builds a `TransformedDStream`.  `TransformedDStream.__init__`
folds into its parent when the parent is itself an uncached, uncheckpointed
`TransformedDStream`: the new node runs `func(t, prev_func(t, rdd))` on the
grandparent.  Other DStreams (input streams, `window`, `transformWith`,
`reduceByKeyAndWindow`, `updateStateByKey`) are built on the Java side and are
`jvm` nodes here.

A graph is the list of its nodes in construction order; `run ops` replays a
sequence of graph-building operations.  `runU ops` replays the same
operations with a builder that never folds: the unfused graph the spec's
fusion rule is measured against.  `streams g` is what every node computes,
tick by tick.
-/

namespace SparkStreaming

/-- Batch time, in milliseconds. -/
abbrev Time := Nat

variable {D : Type}

/-- The function given to `DStream.transform`: one argument (`rdd`), two
(`time`, `rdd`), or another number of arguments. -/
inductive TransformFunc (D : Type) where
  | unary (f : D → D)
  | binary (f : Time → D → D)
  | other

/-- The arity normalisation of `DStream.transform`, with its assertion. -/
def TransformFunc.normalize : TransformFunc D → Except String (Time → D → D)
  | .unary f => .ok fun _ rdd => f rdd
  | .binary f => .ok f
  | .other => .error "func should take one or two arguments"

/-- How a node produces its datasets. -/
inductive Kind (D : Type) where
  /-- A DStream built on the Java side from `parents`, computed from their streams. -/
  | jvm (parents : List Nat) (compute : List (Time → D) → Time → D)
  /-- A `TransformedDStream`: `func` on the dataset of `prev` at the same time. -/
  | transformed (prev : Nat) (func : Time → D → D)

/-- A DStream object: how it computes, and its `is_cached`, `is_checkpointed` flags. -/
structure Node (D : Type) where
  kind : Kind D
  isCached : Bool := false
  isCheckpointed : Bool := false

/-- Every DStream built so far, by construction order; a node's id is its index. -/
abbrev Graph (D : Type) := List (Node D)

/-- The function a folded `TransformedDStream` runs: `func(t, prev_func(t, rdd))`. -/
def fuse {α β γ : Type} (prevFunc : Time → α → β) (func : Time → β → γ) : Time → α → γ :=
  fun t rdd => func t (prevFunc t rdd)

/-! ## Algorithm -/

namespace Graph

/-- The kind of node `i`, if it exists. -/
def kindAt (g : Graph D) (i : Nat) : Option (Kind D) := g[i]?.map Node.kind

/-- The node a transform on `prev` reads from: the parent of `prev` when
`prev` can be folded into, `prev` itself otherwise. -/
def foldTarget (g : Graph D) (prev : Nat) : Nat :=
  match g[prev]? with
  | some { kind := .transformed pp _, isCached := false, isCheckpointed := false } => pp
  | _ => prev

/-- `TransformedDStream.__init__`. -/
def transformedDStream (g : Graph D) (prev : Nat) (func : Time → D → D) : Node D :=
  match g[prev]? with
  | some { kind := .transformed pp prevFunc, isCached := false, isCheckpointed := false } =>
    { kind := .transformed pp (fuse prevFunc func) }
  | _ => { kind := .transformed prev func }

/-- A `TransformedDStream` built by a builder that never folds. -/
def unfusedDStream (_ : Graph D) (prev : Nat) (func : Time → D → D) : Node D :=
  { kind := .transformed prev func }

/-- `DStream.transform` on node `n` with a given `TransformedDStream` builder;
a node that does not exist leaves the graph as it is. -/
def transform (build : Graph D → Nat → (Time → D → D) → Node D) (g : Graph D) (n : Nat)
    (func : TransformFunc D) : Except String (Graph D) := do
  let func ← func.normalize
  pure (if n < g.length then g ++ [build g n func] else g)

/-- Update the object of node `n`. -/
def updateNode : Graph D → Nat → (Node D → Node D) → Graph D
  | [], _, _ => []
  | nd :: g, 0, upd => upd nd :: g
  | nd :: g, n + 1, upd => nd :: updateNode g n upd

/-- `DStream.persist`: `self.is_cached = True`. -/
def persist (g : Graph D) (n : Nat) : Graph D := g.updateNode n fun nd => { nd with isCached := true }

/-- `DStream.cache`: `self.is_cached = True`, then `persist`. -/
def cache (g : Graph D) (n : Nat) : Graph D :=
  (g.updateNode n fun nd => { nd with isCached := true }).persist n

/-- `DStream.checkpoint`: `self.is_checkpointed = True`. -/
def checkpoint (g : Graph D) (n : Nat) : Graph D :=
  g.updateNode n fun nd => { nd with isCheckpointed := true }

end Graph

/-- A graph-building operation. -/
inductive Op (D : Type) where
  /-- A DStream built on the Java side from existing nodes. -/
  | jvm (parents : List Nat) (compute : List (Time → D) → Time → D)
  | transform (n : Nat) (func : TransformFunc D)
  | cache (n : Nat)
  | persist (n : Nat)
  | checkpoint (n : Nat)

namespace Graph

/-- One operation, with a given `TransformedDStream` builder; a failed
`transform` raises and leaves the graph unchanged. -/
def stepWith (build : Graph D → Nat → (Time → D → D) → Node D) (g : Graph D) : Op D → Graph D
  | .jvm parents compute =>
    if parents.all (· < g.length) then g ++ [{ kind := .jvm parents compute }] else g
  | .transform n func =>
    match transform build g n func with
    | .ok g' => g'
    | .error _ => g
  | .cache n => g.cache n
  | .persist n => g.persist n
  | .checkpoint n => g.checkpoint n

/-- The graph the code builds. -/
def step : Graph D → Op D → Graph D := stepWith transformedDStream

/-- The graph built without fusion. -/
def stepU : Graph D → Op D → Graph D := stepWith unfusedDStream

end Graph

/-- The graph a sequence of operations builds. -/
def run (ops : List (Op D)) : Graph D := ops.foldl Graph.step []

/-- The unfused graph of the same operations. -/
def runU (ops : List (Op D)) : Graph D := ops.foldl Graph.stepU []

/-! ## Semantics -/

/-- The stream of a node of kind `k`, given the streams of the nodes before it. -/
def Kind.stream [Inhabited D] (k : Kind D) (ss : List (Time → D)) : Time → D :=
  match k with
  | .jvm parents compute => compute (parents.map fun p => ss.getD p default)
  | .transformed prev func => fun t => func t (ss.getD prev default t)

/-- What every node of the graph computes, node by node. -/
def Graph.streams [Inhabited D] (g : Graph D) : List (Time → D) :=
  g.foldl (fun ss nd => ss ++ [nd.kind.stream ss]) []

/-! ## Lemmas -/

namespace Graph

theorem kindAt_append_lt (g : Graph D) (nd : Node D) {i : Nat} (h : i < g.length) :
    kindAt (g ++ [nd]) i = kindAt g i := by
  simp [kindAt, List.getElem?_append_left h]

@[simp] theorem kindAt_append_length (g : Graph D) (nd : Node D) :
    kindAt (g ++ [nd]) g.length = some nd.kind := by
  simp [kindAt]

theorem lt_length_of_kindAt {g : Graph D} {i : Nat} {k : Kind D} (h : kindAt g i = some k) :
    i < g.length := by
  by_contra hi
  simp [kindAt, List.getElem?_eq_none (Nat.le_of_not_lt hi)] at h

@[simp] theorem length_updateNode (g : Graph D) (n : Nat) (upd : Node D → Node D) :
    (g.updateNode n upd).length = g.length := by
  induction g generalizing n with
  | nil => rfl
  | cons nd g ih => cases n <;> simp [updateNode, ih]

theorem getElem?_updateNode (g : Graph D) (n i : Nat) (upd : Node D → Node D) :
    (g.updateNode n upd)[i]? = g[i]?.map fun nd => if i = n then upd nd else nd := by
  induction g generalizing n i with
  | nil => rfl
  | cons nd g ih => cases n <;> cases i <;> simp [updateNode, ih]

/-- Setting flags keeps every node's kind. -/
theorem kindAt_updateNode (g : Graph D) (n : Nat) (upd : Node D → Node D)
    (hupd : ∀ nd, (upd nd).kind = nd.kind) (i : Nat) :
    kindAt (g.updateNode n upd) i = kindAt g i := by
  rw [kindAt, getElem?_updateNode, kindAt]
  cases g[i]? <;> by_cases h : i = n <;> simp [h, hupd]

/-- **What `TransformedDStream.__init__` builds.**  Either `prev` is an uncached,
uncheckpointed `TransformedDStream` and the new node folds into it, or it is not
and the new node reads `prev`. -/
theorem transformedDStream_cases (g : Graph D) (prev : Nat) (func : Time → D → D) :
    (∃ pp pf, g[prev]? = some ⟨.transformed pp pf, false, false⟩ ∧
      transformedDStream g prev func = { kind := .transformed pp (fuse pf func) } ∧
      foldTarget g prev = pp) ∨
    ((∀ pp pf, g[prev]? ≠ some ⟨.transformed pp pf, false, false⟩) ∧
      transformedDStream g prev func = { kind := .transformed prev func } ∧
      foldTarget g prev = prev) := by
  unfold transformedDStream foldTarget
  split
  · next pp pf h => exact .inl ⟨pp, pf, h, rfl, rfl⟩
  · next h => exact .inr ⟨fun pp pf he => h pp pf he, rfl, rfl⟩

theorem stepWith_transform (build : Graph D → Nat → (Time → D → D) → Node D) (g : Graph D)
    (n : Nat) (func : TransformFunc D) :
    stepWith build g (.transform n func) =
      match func.normalize with
      | .ok f => if n < g.length then g ++ [build g n f] else g
      | .error _ => g := by
  cases func <;> rfl

@[simp] theorem streams_append [Inhabited D] (g : Graph D) (nd : Node D) :
    (g ++ [nd]).streams = g.streams ++ [nd.kind.stream g.streams] := by
  simp [streams, List.foldl_append]

@[simp] theorem length_streams [Inhabited D] (g : Graph D) : g.streams.length = g.length := by
  induction g using List.reverseRecOn <;> simp_all [streams]

/-- Streams read only the kinds of the nodes. -/
theorem streams_eq_of_kinds [Inhabited D] {g g' : Graph D}
    (h : g.map Node.kind = g'.map Node.kind) : g.streams = g'.streams := by
  simp only [streams]
  rw [← List.foldl_map Node.kind (fun ss k => ss ++ [k.stream ss]),
    ← List.foldl_map Node.kind (fun ss k => ss ++ [k.stream ss]), h]

/-- **A node's stream.**  Node `q` computes from the streams of the nodes before it. -/
theorem getD_streams [Inhabited D] (g : Graph D) {q : Nat} (nd : Node D) (h : g[q]? = some nd) :
    g.streams.getD q default = nd.kind.stream (g.streams.take q) := by
  induction g using List.reverseRecOn generalizing q with
  | nil => simp at h
  | append_singleton g x ih =>
    have hq : q < g.length + 1 := by simpa using (List.getElem?_eq_some_iff.1 h).1
    rw [streams_append]
    rcases Nat.lt_succ_iff_lt_or_eq.1 hq with hq | rfl
    · rw [List.getElem?_append_left hq] at h
      rw [List.getD_eq_getElem?_getD, List.getElem?_append_left (by simpa using hq),
        ← List.getD_eq_getElem?_getD, ih h, List.take_append_of_le_length (by simp; omega)]
    · simp only [List.getElem?_append_right (Nat.le_refl _), Nat.sub_self,
        List.getElem?_cons_zero, Option.some.injEq] at h
      subst h
      simp [List.getD_eq_getElem?_getD]

end Graph

end SparkStreaming
