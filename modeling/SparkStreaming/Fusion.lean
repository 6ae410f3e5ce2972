import SparkStreaming.Graph

/-!
# Fusion is transparent, and where it stops

`run ops` (the code) and `runU ops` (no fusion) build graphs with the same
nodes, flags and Java-side nodes; they differ only in where a
`TransformedDStream` reads from and what function it runs.  `Sim g u` is what
the two graphs share; every operation keeps it (`Sim.step`).  From it:

    kindAt (run ops) n = some (.transformed p f) →
      ∃ ms, Chain (kindAt (runU ops)) p n f ms                 (run_transformed_chain)
    (run ops).streams = (runU ops).streams                     (run_transformed_chain)

`Chain κ p n f ms` says that following logical parents from `n` reaches `p`
through the transform nodes `ms`, and that `f` runs their functions in
construction order; the chain is unique (`Chain.unique`).  The flags of the
nodes fusion bypasses are read once, when the bypassing node is built
(`run_chain_unflagged` needs no flag set on a node after a transform was folded
across it).  No physical parent is ever a node fusion could fold into, and every
transform reads its logical parent or that node's physical parent
(`FoldCoherent`), so a logical chain of unflagged transforms, built in any
interleaving with other operations, is one physical hop (`run_prev_not_fusable`).
-/

namespace SparkStreaming

variable {D : Type}

open Graph

/-- Following logical parents (the kinds `κ` gives) from node `n` reaches node
`p` through the transform nodes `ms`; `f` runs their functions in order. -/
inductive Chain (κ : Nat → Option (Kind D)) (p : Nat) :
    Nat → (Time → D → D) → List Nat → Prop
  | single {n : Nat} {f : Time → D → D} :
      κ n = some (.transformed p f) → Chain κ p n f []
  | snoc {m n : Nat} {f h : Time → D → D} {ms : List Nat} :
      Chain κ p m f ms → κ n = some (.transformed m h) → Chain κ p n (fuse f h) (ms ++ [m])

/-- Transform nodes read from earlier nodes. -/
def PrevBefore (κ : Nat → Option (Kind D)) : Prop :=
  ∀ i p f, κ i = some (.transformed p f) → p < i

/-- Node `p` is an uncached, uncheckpointed `TransformedDStream`: a transform
built on it folds into it. -/
def Fusable (g : Graph D) (p : Nat) : Prop :=
  ∃ pp pf, g[p]? = some { kind := .transformed pp pf, isCached := false, isCheckpointed := false }

/-- The `is_cached` and `is_checkpointed` flags of a node. -/
def Node.flags (nd : Node D) : Bool × Bool := (nd.isCached, nd.isCheckpointed)

/-- The flags of node `i`, if it exists. -/
def flagsAt (g : Graph D) (i : Nat) : Option (Bool × Bool) := g[i]?.map Node.flags

/-! ## Chains -/

namespace Chain

variable {κ κ' : Nat → Option (Kind D)} {p n : Nat} {f : Time → D → D} {ms : List Nat}

theorem mono (hκ : ∀ i k, κ i = some k → κ' i = some k) (h : Chain κ p n f ms) :
    Chain κ' p n f ms := by
  induction h with
  | single hn => exact .single (hκ _ _ hn)
  | snoc _ hn ih => exact .snoc ih (hκ _ _ hn)

theorem lt (hwf : PrevBefore κ) (h : Chain κ p n f ms) : p < n := by
  induction h with
  | single hn => exact hwf _ _ _ hn
  | snoc _ hn ih => exact Nat.lt_trans ih (hwf _ _ _ hn)

/-- A chain is determined by its two ends. -/
theorem unique (hwf : PrevBefore κ) (h : Chain κ p n f ms) {f' : Time → D → D}
    {ms' : List Nat} (h' : Chain κ p n f' ms') : f = f' ∧ ms = ms' := by
  induction h generalizing f' ms' with
  | single hn =>
    cases h' with
    | single hn' => rw [hn] at hn'; cases hn'; exact ⟨rfl, rfl⟩
    | snoc hc hn' =>
      rw [hn] at hn'; cases hn'
      exact absurd (hc.lt hwf) (Nat.lt_irrefl _)
  | snoc hc hn ih =>
    cases h' with
    | single hn' =>
      rw [hn] at hn'; cases hn'
      exact absurd (hc.lt hwf) (Nat.lt_irrefl _)
    | snoc hc' hn' =>
      rw [hn] at hn'; cases hn'
      obtain ⟨rfl, rfl⟩ := ih hc'
      exact ⟨rfl, rfl⟩

/-- Every node a chain passes through is a transform node. -/
theorem mem_transformed (h : Chain κ p n f ms) :
    ∀ m ∈ ms, ∃ q g, κ m = some (.transformed q g) := by
  induction h with
  | single _ => intro _ hm; cases hm
  | snoc hc _ ih =>
    intro m hm
    rcases List.mem_append.1 hm with hm | hm
    · exact ih m hm
    · rw [List.mem_singleton.1 hm]
      cases hc with
      | single hk => exact ⟨_, _, hk⟩
      | snoc _ hk => exact ⟨_, _, hk⟩

end Chain

/-! ## The fused and the unfused graph -/

/-- What the graph the code builds (`g`) and the unfused graph (`u`) share. -/
structure Sim [Inhabited D] (g u : Graph D) : Prop where
  length_eq : g.length = u.length
  flags_eq : ∀ i, flagsAt g i = flagsAt u i
  jvm_eq : ∀ i ps c, kindAt g i = some (.jvm ps c) ↔ kindAt u i = some (.jvm ps c)
  wf : PrevBefore (kindAt g)
  wfU : PrevBefore (kindAt u)
  chain : ∀ n p f, kindAt g n = some (.transformed p f) → ∃ ms, Chain (kindAt u) p n f ms
  streams_eq : g.streams = u.streams

theorem kindAt_append_of_some {g : Graph D} {nd : Node D} {i : Nat} {k : Kind D}
    (h : kindAt g i = some k) : kindAt (g ++ [nd]) i = some k := by
  rw [kindAt_append_lt _ _ (lt_length_of_kindAt h), h]

/-- A new node's kind, read back from the grown graph. -/
theorem kindAt_append_iff {g : Graph D} {nd : Node D} {i : Nat} {k : Kind D} :
    kindAt (g ++ [nd]) i = some k ↔ kindAt g i = some k ∨ (i = g.length ∧ nd.kind = k) := by
  constructor
  · intro h
    rcases Nat.lt_or_ge i g.length with hi | hi
    · exact .inl (by rwa [kindAt_append_lt _ _ hi] at h)
    · have hi' := lt_length_of_kindAt h
      simp only [List.length_append, List.length_singleton] at hi'
      obtain rfl : i = g.length := by omega
      simp only [kindAt_append_length, Option.some.injEq] at h
      exact .inr ⟨rfl, h⟩
  · rintro (h | ⟨rfl, rfl⟩)
    · exact kindAt_append_of_some h
    · exact kindAt_append_length g nd

theorem PrevBefore.append {g : Graph D} {nd : Node D} (hwf : PrevBefore (kindAt g))
    (hnd : ∀ p f, nd.kind = .transformed p f → p < g.length) :
    PrevBefore (kindAt (g ++ [nd])) := by
  intro i p f h
  rcases kindAt_append_iff.1 h with h | ⟨rfl, hk⟩
  · exact hwf _ _ _ h
  · exact hnd _ _ hk

theorem flagsAt_append (g : Graph D) (nd : Node D) (i : Nat) :
    flagsAt (g ++ [nd]) i =
      if i < g.length then flagsAt g i else if i = g.length then some nd.flags else none := by
  unfold flagsAt
  split
  · rw [List.getElem?_append_left ‹_›]
  · rw [List.getElem?_append_right (by omega)]
    split
    · subst_vars; simp
    · rw [List.getElem?_eq_none (by simp; omega)]; rfl

theorem flagsAt_updateNode (g : Graph D) (n : Nat) (upd : Node D → Node D)
    (F : Bool × Bool → Bool × Bool) (hF : ∀ nd, (upd nd).flags = F nd.flags) (i : Nat) :
    flagsAt (g.updateNode n upd) i = (flagsAt g i).map fun fl => if i = n then F fl else fl := by
  unfold flagsAt
  rw [getElem?_updateNode]
  cases g[i]? <;> by_cases h : i = n <;> simp [h, hF]

/-- Flag updates keep the kinds, hence the streams. -/
theorem streams_updateNode [Inhabited D] (g : Graph D) (n : Nat) (upd : Node D → Node D)
    (hupd : ∀ nd, (upd nd).kind = nd.kind) : (g.updateNode n upd).streams = g.streams := by
  refine streams_eq_of_kinds (List.ext_getElem? fun i => ?_)
  simpa only [List.getElem?_map, kindAt] using kindAt_updateNode g n upd hupd i

namespace Sim

variable [Inhabited D] {g u : Graph D}

theorem nil : Sim ([] : Graph D) [] :=
  ⟨rfl, fun _ => rfl, fun _ _ _ => Iff.rfl, fun _ _ _ h => by simp [kindAt] at h,
    fun _ _ _ h => by simp [kindAt] at h, fun _ _ _ h => by simp [kindAt] at h, rfl⟩

/-- Appending nodes of the same flags whose kinds are not `jvm`. -/
theorem jvm_eq_append (hs : Sim g u) {ndg ndu : Node D}
    (hg : ∀ ps c, ndg.kind ≠ .jvm ps c) (hu : ∀ ps c, ndu.kind ≠ .jvm ps c) (i : Nat)
    (ps : List Nat) (c : List (Time → D) → Time → D) :
    kindAt (g ++ [ndg]) i = some (.jvm ps c) ↔ kindAt (u ++ [ndu]) i = some (.jvm ps c) := by
  rw [kindAt_append_iff, kindAt_append_iff, hs.jvm_eq, hs.length_eq]
  simp [hg, hu]

theorem append_jvm (hs : Sim g u) (ps : List Nat) (c : List (Time → D) → Time → D) :
    Sim (g ++ [{ kind := .jvm ps c }]) (u ++ [{ kind := .jvm ps c }]) where
  length_eq := by simp [hs.length_eq]
  flags_eq i := by rw [flagsAt_append, flagsAt_append, hs.flags_eq, hs.length_eq]
  jvm_eq i ps' c' := by rw [kindAt_append_iff, kindAt_append_iff, hs.jvm_eq, hs.length_eq]
  wf := hs.wf.append fun _ _ h => by cases h
  wfU := hs.wfU.append fun _ _ h => by cases h
  chain n p f h := by
    rcases kindAt_append_iff.1 h with h | ⟨_, hk⟩
    · obtain ⟨ms, hc⟩ := hs.chain n p f h
      exact ⟨ms, hc.mono fun _ _ => kindAt_append_of_some⟩
    · cases hk
  streams_eq := by simp [hs.streams_eq]

/-- Appending a transform node to both graphs, given what is particular to the code's node:
the node it reads, a chain that reaches it, and that it computes the unfused node's stream. -/
theorem append_transformed (hs : Sim g u) {n q : Nat} {f f' : Time → D → D} (hq : q < g.length)
    (hn : n < u.length)
    (hc : ∃ ms, Chain (kindAt (u ++ [{ kind := .transformed n f }])) q g.length f' ms)
    (hst : Kind.stream (.transformed q f') g.streams = Kind.stream (.transformed n f) u.streams) :
    Sim (g ++ [{ kind := .transformed q f' }]) (u ++ [{ kind := .transformed n f }]) := by
  have hlen : g.length = u.length := hs.length_eq
  refine ⟨by simp [hlen], fun i => ?_, hs.jvm_eq_append (by simp) (by simp),
    hs.wf.append fun _ _ h => ?_, hs.wfU.append fun _ _ h => ?_, fun m p h hm => ?_, ?_⟩
  · rw [flagsAt_append, flagsAt_append, hs.flags_eq, hlen]; rfl
  · cases h; exact hq
  · cases h; exact hn
  · rcases kindAt_append_iff.1 hm with hm | ⟨rfl, hk⟩
    · obtain ⟨ms, hc⟩ := hs.chain m p h hm
      exact ⟨ms, hc.mono fun _ _ => kindAt_append_of_some⟩
    · cases hk; exact hc
  · rw [streams_append, streams_append, hst, hs.streams_eq]

/-- **One transform.**  The code's node and the unfused node compute the same
stream, and the code's node runs the logical chain's functions. -/
theorem append_transform (hs : Sim g u) {n : Nat} (hn : n < g.length) (f : Time → D → D) :
    Sim (g ++ [transformedDStream g n f]) (u ++ [unfusedDStream u n f]) := by
  have hu : kindAt (u ++ [unfusedDStream u n f]) g.length = some (.transformed n f) := by
    rw [hs.length_eq]; exact kindAt_append_length _ _
  have hnu : n < u.length := hs.length_eq ▸ hn
  rcases transformedDStream_cases g n f with ⟨pp, pf, hq, hnd, -⟩ | ⟨-, hnd, -⟩ <;> rw [hnd]
  · have hkq : kindAt g n = some (.transformed pp pf) := by simp [kindAt, hq]
    have hpp : pp < n := hs.wf _ _ _ hkq
    obtain ⟨ms, hc⟩ := hs.chain n pp pf hkq
    refine hs.append_transformed (by omega) hnu
      ⟨ms ++ [n], .snoc (hc.mono fun _ _ => kindAt_append_of_some) hu⟩ (funext fun t => ?_)
    rw [← hs.streams_eq]
    simp only [Kind.stream, fuse, getD_streams g _ hq, List.getD_eq_getElem?_getD,
      List.getElem?_take_of_lt hpp]
  · exact hs.append_transformed hn hnu ⟨[], .single hu⟩ (by rw [hs.streams_eq])

/-- Setting flags on the same node of both graphs. -/
theorem update (hs : Sim g u) (n : Nat) (upd : Node D → Node D)
    (hupd : ∀ nd, (upd nd).kind = nd.kind) (F : Bool × Bool → Bool × Bool)
    (hF : ∀ nd, (upd nd).flags = F nd.flags) : Sim (g.updateNode n upd) (u.updateNode n upd) := by
  have hkg := kindAt_updateNode g n upd hupd
  have hku := kindAt_updateNode u n upd hupd
  refine ⟨by simp [hs.length_eq], fun i => ?_, fun i ps c => ?_, fun i p f h => ?_,
    fun i p f h => ?_, fun m p f h => ?_, ?_⟩
  · rw [flagsAt_updateNode g n upd F hF, flagsAt_updateNode u n upd F hF, hs.flags_eq]
  · rw [hkg, hku]; exact hs.jvm_eq i ps c
  · rw [hkg] at h; exact hs.wf _ _ _ h
  · rw [hku] at h; exact hs.wfU _ _ _ h
  · rw [hkg] at h
    obtain ⟨ms, hc⟩ := hs.chain m p f h
    exact ⟨ms, hc.mono fun i k hk => by rw [hku]; exact hk⟩
  · rw [streams_updateNode g n upd hupd, streams_updateNode u n upd hupd, hs.streams_eq]

/-- Setting `is_cached` on node `n` of both graphs. -/
theorem setCached (hs : Sim g u) (n : Nat) :
    Sim (g.updateNode n fun nd => { nd with isCached := true })
      (u.updateNode n fun nd => { nd with isCached := true }) :=
  hs.update n _ (fun _ => rfl) (fun fl => (true, fl.2)) fun _ => rfl

/-- **Every operation keeps the simulation.** -/
theorem step (hs : Sim g u) (op : Op D) : Sim (Graph.step g op) (Graph.stepU u op) := by
  cases op with
  | jvm ps c =>
    simp only [Graph.step, Graph.stepU, stepWith, ← hs.length_eq]
    split
    · exact hs.append_jvm ps c
    · exact hs
  | transform n func =>
    simp only [Graph.step, Graph.stepU, stepWith_transform, ← hs.length_eq]
    split
    · split
      · exact hs.append_transform ‹_› _
      · exact hs
    · exact hs
  | cache n => exact (hs.setCached n).setCached n
  | persist n => exact hs.setCached n
  | checkpoint n =>
    exact hs.update n _ (fun _ => rfl) (fun fl => (fl.1, true)) fun _ => rfl

end Sim

theorem run_append (ops : List (Op D)) (op : Op D) :
    run (ops ++ [op]) = Graph.step (run ops) op := by
  simp [run, List.foldl_append]

theorem runU_append (ops : List (Op D)) (op : Op D) :
    runU (ops ++ [op]) = Graph.stepU (runU ops) op := by
  simp [runU, List.foldl_append]

/-- The two graphs of every sequence of operations are in simulation. -/
theorem sim_run [Inhabited D] (ops : List (Op D)) : Sim (run ops) (runU ops) := by
  induction ops using List.reverseRecOn with
  | nil => exact Sim.nil
  | append_singleton ops op ih => rw [run_append, runU_append]; exact ih.step op

/-! ## Fusion is transparent -/

/-- The function node `m` was given, as its kind records it (identity elsewhere). -/
def ownFunc (κ : Nat → Option (Kind D)) (m : Nat) : Time → D → D :=
  match κ m with
  | some (.transformed _ h) => h
  | _ => fun _ rdd => rdd

/-- A chain's function applies the functions of its nodes, in construction order. -/
theorem Chain.apply {κ : Nat → Option (Kind D)} {p n : Nat} {f : Time → D → D} {ms : List Nat}
    (h : Chain κ p n f ms) (t : Time) (r : D) :
    f t r = (ms ++ [n]).foldl (fun acc m => ownFunc κ m t acc) r := by
  induction h with
  | single hn => simp only [List.nil_append, List.foldl_cons, List.foldl_nil, ownFunc, hn]
  | snoc _ hn ih =>
    rw [List.foldl_append, ← ih]
    simp only [fuse, List.foldl_cons, List.foldl_nil, ownFunc, hn]

/-- **Fusion is transparent.**  Every `TransformedDStream` of the graph the code
builds runs, on the dataset of its physical parent `p`, the functions of the
transform nodes logically chained from `p` to it, each at the same time, in
construction order; and the fused graph computes what the unfused one does. -/
theorem run_transformed_chain [Inhabited D] (ops : List (Op D)) (n p : Nat) (f : Time → D → D)
    (h : kindAt (run ops) n = some (.transformed p f)) :
    (∃ ms, Chain (kindAt (runU ops)) p n f ms ∧
      ∀ t r, f t r = (ms ++ [n]).foldl (fun acc m => ownFunc (kindAt (runU ops)) m t acc) r) ∧
    (run ops).streams = (runU ops).streams := by
  obtain ⟨ms, hc⟩ := (sim_run ops).chain n p f h
  exact ⟨⟨ms, hc, hc.apply⟩, (sim_run ops).streams_eq⟩

/-- A source, then two maps: the second folds into the first. -/
def twoMaps : List (Op Nat) :=
  [.jvm [] (fun _ t => t), .transform 0 (.unary (· + 1)), .transform 1 (.unary (· * 2))]

/-- The same, with the source checkpointed between the two maps. -/
def checkpointedSource : List (Op Nat) :=
  [.jvm [] (fun _ t => t), .transform 0 (.unary (· + 1)), .checkpoint 0,
    .transform 1 (.unary (· * 2))]

theorem run_transformed_chain_twoMaps :
    kindAt (run twoMaps) 2 = some (.transformed 0 (fuse (fun _ r => r + 1) fun _ r => r * 2)) ∧
    (∃ ms, Chain (kindAt (runU twoMaps)) 0 2 (fuse (fun _ r => r + 1) fun _ r => r * 2) ms ∧
      ∀ t r, fuse (fun _ r => r + 1) (fun _ r => r * 2) t r =
        (ms ++ [2]).foldl (fun acc m => ownFunc (kindAt (runU twoMaps)) m t acc) r) ∧
    (run twoMaps).streams = (runU twoMaps).streams :=
  ⟨rfl, run_transformed_chain twoMaps 2 0 _ rfl⟩

/-! ## No physical parent can be folded into -/

/-- No `TransformedDStream` reads from a node a transform would fold into. -/
def NoFusablePrev (g : Graph D) : Prop :=
  ∀ n p f, kindAt g n = some (.transformed p f) → ¬ Fusable g p

theorem fusable_append {g : Graph D} {nd : Node D} {p : Nat} (hp : p < g.length) :
    Fusable (g ++ [nd]) p ↔ Fusable g p := by
  simp [Fusable, List.getElem?_append_left hp]

/-- Setting a flag makes a node unfusable and leaves the others as they were. -/
theorem fusable_updateNode {g : Graph D} {m p : Nat} {upd : Node D → Node D}
    (hupd : ∀ nd, (upd nd).flags ≠ (false, false)) (h : Fusable (g.updateNode m upd) p) :
    Fusable g p := by
  obtain ⟨pp, pf, h⟩ := h
  rw [getElem?_updateNode] at h
  by_cases hpm : p = m
  · subst hpm
    cases hg : g[p]? with
    | none => simp [hg] at h
    | some nd =>
      simp only [hg, if_true, Option.map_some', Option.some.injEq] at h
      exact absurd (by rw [h]; rfl) (hupd nd)
  · exact ⟨pp, pf, by simpa [hpm] using h⟩

@[simp] theorem flags_setCached (nd : Node D) :
    ({ nd with isCached := true } : Node D).flags = (true, nd.isCheckpointed) := rfl

@[simp] theorem flags_setCheckpointed (nd : Node D) :
    ({ nd with isCheckpointed := true } : Node D).flags = (nd.isCached, true) := rfl

theorem NoFusablePrev.updateNode {g : Graph D} (h : NoFusablePrev g) (m : Nat)
    (upd : Node D → Node D) (hupd : ∀ nd, (upd nd).kind = nd.kind)
    (hfl : ∀ nd, (upd nd).flags ≠ (false, false)) : NoFusablePrev (g.updateNode m upd) :=
  fun n p f hn hp => h n p f (by rwa [kindAt_updateNode g m upd hupd] at hn)
    (fusable_updateNode hfl hp)

theorem NoFusablePrev.step [Inhabited D] {g u : Graph D} (hs : Sim g u) (h : NoFusablePrev g)
    (op : Op D) : NoFusablePrev (Graph.step g op) := by
  have old : ∀ nd : Node D, ∀ n p f, kindAt g n = some (.transformed p f) →
      ¬ Fusable (g ++ [nd]) p := fun nd n p f hn => by
    rw [fusable_append (Nat.lt_trans (hs.wf _ _ _ hn) (lt_length_of_kindAt hn))]
    exact h n p f hn
  cases op with
  | jvm ps c =>
    simp only [Graph.step, stepWith]
    split
    · intro n p f hn
      rcases kindAt_append_iff.1 hn with hn | ⟨-, hk⟩
      · exact old _ n p f hn
      · cases hk
    · exact h
  | transform n func =>
    simp only [Graph.step, stepWith_transform]
    split
    · split
      · next hlt =>
        intro m p f hm
        rcases kindAt_append_iff.1 hm with hm | ⟨-, hk⟩
        · exact old _ m p f hm
        · rcases transformedDStream_cases g n _ with ⟨pp, pf, hq, hnd, -⟩ | ⟨hnf, hnd, -⟩
          · have hkq : kindAt g n = some (.transformed pp pf) := by simp [kindAt, hq]
            rw [hnd] at hk; cases hk
            exact old _ n _ pf hkq
          · rw [hnd] at hk; cases hk
            rw [fusable_append hlt]
            rintro ⟨pp, pf, hq⟩
            exact hnf pp pf hq
      · exact h
    · exact h
  | cache n =>
    have h1 := h.updateNode n (fun nd => { nd with isCached := true }) (fun _ => rfl)
      fun _ => by simp
    exact h1.updateNode n (fun nd => { nd with isCached := true }) (fun _ => rfl) fun _ => by simp
  | persist n =>
    exact h.updateNode n (fun nd => { nd with isCached := true }) (fun _ => rfl) fun _ => by simp
  | checkpoint n =>
    exact h.updateNode n (fun nd => { nd with isCheckpointed := true }) (fun _ => rfl)
      fun _ => by simp

/-- Every graph the code builds has no foldable physical parent. -/
theorem noFusablePrev_run [Inhabited D] (ops : List (Op D)) : NoFusablePrev (run ops) := by
  induction ops using List.reverseRecOn with
  | nil => intro _ _ _ h; simp [kindAt, run] at h
  | append_singleton ops op ih => rw [run_append]; exact ih.step (sim_run ops) op

/-! ## Where a transform reads from -/

/-- Every `TransformedDStream` of `g` reads the node its transform was applied to in `u`, or
the physical parent of that node, which is then a `TransformedDStream` of `g` too. -/
def FoldCoherent (g u : Graph D) : Prop :=
  ∀ n P h c f, kindAt g n = some (.transformed P h) → kindAt u n = some (.transformed c f) →
    P = c ∨ ∃ h', kindAt g c = some (.transformed P h')

/-- A node the unfused graph builds as a transform is a transform in the code's graph. -/
theorem Sim.transformed_of_unfused [Inhabited D] {g u : Graph D} (hs : Sim g u) {n c : Nat}
    {f : Time → D → D} (h : kindAt u n = some (.transformed c f)) :
    ∃ P h', kindAt g n = some (.transformed P h') := by
  have hn : n < g.length := hs.length_eq ▸ lt_length_of_kindAt h
  cases hk : kindAt g n with
  | none => simp [kindAt, List.getElem?_eq_getElem hn] at hk
  | some k =>
    cases k with
    | jvm ps c' => rw [(hs.jvm_eq n ps c').1 hk] at h; cases h
    | transformed P h' => exact ⟨P, h', rfl⟩

/-- An unflagged `TransformedDStream` can be folded into. -/
theorem fusable_of_flagsAt {g : Graph D} {m P : Nat} {h : Time → D → D}
    (hk : kindAt g m = some (.transformed P h)) (hf : flagsAt g m = some (false, false)) :
    Fusable g m := by
  cases hm : g[m]? with
  | none => simp [kindAt, hm] at hk
  | some nd =>
    simp only [kindAt, flagsAt, hm, Option.map_some', Option.some.injEq, Node.flags,
      Prod.mk.injEq] at hk hf
    obtain ⟨k, c, ck⟩ := nd
    obtain ⟨rfl, rfl⟩ := hf
    exact ⟨P, h, by rw [hm, ← hk]⟩

theorem FoldCoherent.append [Inhabited D] {g u : Graph D} (hs : Sim g u) (h : FoldCoherent g u)
    {ndg ndu : Node D}
    (hnew : ∀ P hP c f, ndg.kind = .transformed P hP → ndu.kind = .transformed c f →
      P = c ∨ ∃ h', kindAt g c = some (.transformed P h')) :
    FoldCoherent (g ++ [ndg]) (u ++ [ndu]) := by
  intro n P hP c f hg hu
  have lift : (P = c ∨ ∃ h', kindAt g c = some (.transformed P h')) →
      P = c ∨ ∃ h', kindAt (g ++ [ndg]) c = some (.transformed P h') :=
    Or.imp_right fun ⟨h', hc⟩ => ⟨h', kindAt_append_of_some hc⟩
  rcases kindAt_append_iff.1 hg with hg | ⟨rfl, hk⟩
  · rw [kindAt_append_lt _ _ (hs.length_eq ▸ lt_length_of_kindAt hg)] at hu
    exact lift (h n P hP c f hg hu)
  · rw [hs.length_eq, kindAt_append_length, Option.some.injEq] at hu
    exact lift (hnew P hP c f hk hu)

theorem FoldCoherent.updateNode {g u : Graph D} (h : FoldCoherent g u) (m : Nat)
    (upd : Node D → Node D) (hupd : ∀ nd, (upd nd).kind = nd.kind) :
    FoldCoherent (g.updateNode m upd) (u.updateNode m upd) := by
  rw [FoldCoherent, funext (kindAt_updateNode g m upd hupd),
    funext (kindAt_updateNode u m upd hupd)]
  exact h

/-- **Every operation keeps transforms reading their logical parent or its parent.** -/
theorem FoldCoherent.step [Inhabited D] {g u : Graph D} (hs : Sim g u) (h : FoldCoherent g u)
    (op : Op D) : FoldCoherent (Graph.step g op) (Graph.stepU u op) := by
  cases op with
  | jvm ps c =>
    simp only [Graph.step, Graph.stepU, stepWith, ← hs.length_eq]
    split
    · exact h.append hs fun _ _ _ _ hk => by cases hk
    · exact h
  | transform n func =>
    simp only [Graph.step, Graph.stepU, stepWith_transform, ← hs.length_eq]
    split
    · split
      · next f _ _ =>
        refine h.append hs fun P hP c f' hk hku => ?_
        cases hku
        rcases transformedDStream_cases g n f with ⟨pp, pf, hq, hnd, -⟩ | ⟨-, hnd, -⟩ <;>
          rw [hnd] at hk <;> cases hk
        · exact .inr ⟨pf, by simp [kindAt, hq]⟩
        · exact .inl rfl
      · exact h
    · exact h
  | cache n =>
    exact (h.updateNode n (fun nd => { nd with isCached := true }) fun _ => rfl).updateNode n
      (fun nd => { nd with isCached := true }) fun _ => rfl
  | persist n => exact h.updateNode n (fun nd => { nd with isCached := true }) fun _ => rfl
  | checkpoint n => exact h.updateNode n (fun nd => { nd with isCheckpointed := true }) fun _ => rfl

theorem foldCoherent_run [Inhabited D] (ops : List (Op D)) : FoldCoherent (run ops) (runU ops) := by
  induction ops using List.reverseRecOn with
  | nil => intro _ _ _ _ _ h; simp [kindAt, run] at h
  | append_singleton ops op ih => rw [run_append, runU_append]; exact ih.step (sim_run ops) op

/-- **A logical chain of unflagged transforms is one physical hop.**  The last node of a
chain from `x` whose inner nodes are unflagged reads `x`, or the physical parent of `x`. -/
theorem Chain.reads_start [Inhabited D] {g u : Graph D} (hs : Sim g u) (hfc : FoldCoherent g u)
    (hnf : NoFusablePrev g) {x n : Nat} {f : Time → D → D} {ms : List Nat}
    (hc : Chain (kindAt u) x n f ms) (hfl : ∀ m ∈ ms, flagsAt g m = some (false, false)) :
    ∃ P h, kindAt g n = some (.transformed P h) ∧
      (P = x ∨ ∃ h', kindAt g x = some (.transformed P h')) := by
  induction hc with
  | single hn =>
    obtain ⟨P, h, hk⟩ := hs.transformed_of_unfused hn
    exact ⟨P, h, hk, hfc _ P h _ _ hk hn⟩
  | @snoc m n f h ms hc hn ih =>
    obtain ⟨P, hP, hkm, hx⟩ := ih fun m' hm' => hfl m' (List.mem_append_left _ hm')
    obtain ⟨Q, hQ, hkn⟩ := hs.transformed_of_unfused hn
    refine ⟨Q, hQ, hkn, ?_⟩
    rcases hfc _ Q hQ _ _ hkn hn with rfl | ⟨h', hkm'⟩
    · exact absurd (fusable_of_flagsAt hkm (hfl _ (List.mem_append_right _ (List.mem_singleton_self _))))
        (hnf _ _ _ hkn)
    · rw [hkm] at hkm'
      cases hkm'
      exact hx

/-- `k` successive transforms from node `x`, each on the node the previous one
built; the first new node gets id `start`. -/
def chainOps (start x : Nat) : List (TransformFunc D) → List (Op D)
  | [] => []
  | f :: fs => .transform x f :: chainOps (start + 1) start fs

theorem TransformFunc.normalize_ok {f : TransformFunc D} (hf : f ≠ .other) :
    ∃ f', f.normalize = .ok f' := by
  cases f with
  | unary f => exact ⟨_, rfl⟩
  | binary f => exact ⟨_, rfl⟩
  | other => exact absurd rfl hf

theorem step_transform_ok {g : Graph D} {n : Nat} {func : TransformFunc D} {f : Time → D → D}
    (hf : func.normalize = .ok f) (hn : n < g.length) :
    Graph.step g (.transform n func) = g ++ [transformedDStream g n f] := by
  simp [Graph.step, stepWith_transform, hf, hn]

/-- Transforms applied one after the other to an uncached, uncheckpointed
`TransformedDStream` that is the last node keep reading its parent `T`. -/
theorem foldl_step_chainOps (fs : List (TransformFunc D)) (hfs : ∀ f ∈ fs, f ≠ .other) :
    ∀ (g : Graph D) (m T : Nat) (h : Time → D → D), g.length = m + 1 →
      g[m]? = some ⟨.transformed T h, false, false⟩ →
      ∃ h', ((chainOps (m + 1) m fs).foldl Graph.step g).length = m + 1 + fs.length ∧
        ((chainOps (m + 1) m fs).foldl Graph.step g)[m + fs.length]? =
          some ⟨.transformed T h', false, false⟩ := by
  induction fs with
  | nil => intro g m T h hl hm; exact ⟨h, by simpa using hl, by simpa using hm⟩
  | cons f fs ih =>
    intro g m T h hl hm
    obtain ⟨f', hf'⟩ := TransformFunc.normalize_ok (hfs f (List.mem_cons_self _ _))
    have hstep := step_transform_ok (g := g) (n := m) hf' (by omega)
    have hnd : transformedDStream g m f' = ⟨.transformed T (fuse h f'), false, false⟩ := by
      simp [transformedDStream, hm]
    obtain ⟨h', hlen, hlast⟩ := ih (fun f hf => hfs f (List.mem_cons_of_mem _ hf))
      (g ++ [transformedDStream g m f']) (m + 1) T (fuse h f') (by simp [hl])
      (by rw [hnd, List.getElem?_append_right (by omega)]; simp [hl])
    simp only [chainOps, List.foldl_cons, hstep, List.length_cons]
    exact ⟨h', by rw [hlen]; omega, by rwa [show m + (fs.length + 1) = m + 1 + fs.length by omega]⟩

/-- **Chains of transforms collapse.**  No `TransformedDStream` of a graph the
code builds reads from an uncached, uncheckpointed `TransformedDStream`; so
`k ≥ 1` transforms applied one after the other to node `x` end in a single
`TransformedDStream` whose physical parent is `x`, or the parent of `x` when
`x` can itself be folded into.  The same holds when the chain's transforms are
interleaved with any other operations: the last node of a logical chain from `x`
whose inner nodes end unflagged reads `x` or the physical parent of `x`. -/
theorem run_prev_not_fusable [Inhabited D] (ops : List (Op D)) :
    (∀ n p f, kindAt (run ops) n = some (.transformed p f) → ¬ Fusable (run ops) p) ∧
    (∀ (x : Nat) (fs : List (TransformFunc D)), x < (run ops).length → fs ≠ [] →
      (∀ f ∈ fs, f ≠ .other) →
      ∃ h, (run (ops ++ chainOps (run ops).length x fs))[(run ops).length + fs.length - 1]? =
        some ⟨.transformed (foldTarget (run ops) x) h, false, false⟩) ∧
    ∀ (x n : Nat) (f : Time → D → D) (ms : List Nat), Chain (kindAt (runU ops)) x n f ms →
      (∀ m ∈ ms, flagsAt (run ops) m = some (false, false)) →
      ∃ P h, kindAt (run ops) n = some (.transformed P h) ∧
        (P = x ∨ ∃ h', kindAt (run ops) x = some (.transformed P h')) := by
  refine ⟨noFusablePrev_run ops, fun x fs hx hne hfs => ?_, fun x n f ms hc hfl =>
    hc.reads_start (sim_run ops) (foldCoherent_run ops) (noFusablePrev_run ops) hfl⟩
  cases fs with
  | nil => exact absurd rfl hne
  | cons f fs =>
    obtain ⟨f', hf'⟩ := TransformFunc.normalize_ok (hfs f (List.mem_cons_self _ _))
    have hfirst : ∃ h, (run ops ++ [transformedDStream (run ops) x f'])[(run ops).length]? =
        some ⟨.transformed (foldTarget (run ops) x) h, false, false⟩ := by
      rcases transformedDStream_cases (run ops) x f' with ⟨_, pf, -, hnd, ht⟩ | ⟨-, hnd, ht⟩
      · exact ⟨fuse pf f', by simp [hnd, ht]⟩
      · exact ⟨f', by simp [hnd, ht]⟩
    obtain ⟨h, hh⟩ := hfirst
    obtain ⟨h', -, hlast⟩ := foldl_step_chainOps fs (fun f hf => hfs f (List.mem_cons_of_mem _ hf))
      _ _ _ h (by simp) hh
    refine ⟨h', ?_⟩
    rw [run, List.foldl_append, ← run, chainOps, List.foldl_cons, step_transform_ok hf' hx]
    simpa using hlast

/-- The node a source and two maps chain through is bypassed by the second map; two more maps
on the second fold into it too; and with the source checkpointed between the two maps, the
second still reads the source. -/
theorem run_prev_not_fusable_twoMaps :
    ¬ Fusable (run twoMaps) 0 ∧
    (∃ h, (run (twoMaps ++ chainOps (run twoMaps).length 2 [.unary id, .unary id]))[
        (run twoMaps).length + [TransformFunc.unary (id : Nat → Nat), .unary id].length - 1]? =
      some ⟨.transformed (foldTarget (run twoMaps) 2) h, false, false⟩) ∧
    ∃ P h, kindAt (run checkpointedSource) 2 = some (.transformed P h) ∧
      (P = 0 ∨ ∃ h', kindAt (run checkpointedSource) 0 = some (.transformed P h')) :=
  ⟨(run_prev_not_fusable twoMaps).1 2 0 _ rfl,
    (run_prev_not_fusable twoMaps).2.1 2 _ (by decide) (by simp) (by simp),
    (run_prev_not_fusable checkpointedSource).2.2 0 2 _ [1] (.snoc (.single rfl) rfl)
      fun m hm => by rw [List.mem_singleton.1 hm]; rfl⟩

/-! ## The flags of bypassed nodes -/

/-- `op` sets a flag of node `m`. -/
def Op.SetsFlagOn : Op D → Nat → Prop
  | .cache n, m => n = m
  | .persist n, m => n = m
  | .checkpoint n, m => n = m
  | _, _ => False

/-- A transform has been folded across node `m`: it lies on the logical chain between a
`TransformedDStream` of `g` and that node's physical parent. -/
def Bypassed (g u : Graph D) (m : Nat) : Prop :=
  ∃ n p f ms, kindAt g n = some (.transformed p f) ∧ Chain (kindAt u) p n f ms ∧ m ∈ ms

/-- No cache, persist or checkpoint reaches a node after a transform was folded across it. -/
def FlagsBeforeBypass (ops : List (Op D)) : Prop :=
  ∀ i (hi : i < ops.length) m, ops[i].SetsFlagOn m →
    ¬ Bypassed (run (ops.take i)) (runU (ops.take i)) m

/-- A node whose flag is set after a transform was built on it: the cache comes
too late for the second map, which already folded over node 1. -/
theorem run_chain_cached_later :
    ¬ ∀ (ops : List (Op Nat)) (n p : Nat) (f : Time → Nat → Nat) (ms : List Nat),
      kindAt (run ops) n = some (.transformed p f) → Chain (kindAt (runU ops)) p n f ms →
      ∀ m ∈ ms, flagsAt (run ops) m = some (false, false) := fun h => by
  have h1 := h (twoMaps ++ [Op.cache 1]) 2 0 (fuse (fun _ r => r + 1) fun _ r => r * 2) [1]
    (by show kindAt (run twoMaps) 2 = _; rfl)
    (.snoc (.single (by show kindAt (runU twoMaps) 1 = _; rfl))
      (by show kindAt (runU twoMaps) 2 = _; rfl)) 1 (by simp)
  exact absurd h1 (by decide)

/-- Setting flags keeps the kinds, so it bypasses nothing new. -/
theorem bypassed_updateNode {g u : Graph D} {m0 : Nat} (n : Nat) {upd : Node D → Node D}
    (hupd : ∀ nd, (upd nd).kind = nd.kind) :
    Bypassed (g.updateNode n upd) (u.updateNode n upd) m0 ↔ Bypassed g u m0 := by
  rw [Bypassed, Bypassed, funext (kindAt_updateNode g n upd hupd),
    funext (kindAt_updateNode u n upd hupd)]

/-- Every transform node of `g` reads through a chain of unflagged nodes. -/
def ChainsUnflagged (g u : Graph D) : Prop :=
  ∀ n p f, kindAt g n = some (.transformed p f) →
    ∃ ms, Chain (kindAt u) p n f ms ∧ ∀ m ∈ ms, flagsAt g m = some (false, false)

namespace ChainsUnflagged

variable [Inhabited D] {g u : Graph D}

theorem old (hs : Sim g u) (hc : ChainsUnflagged g u) (ndg ndu : Node D) {n p : Nat}
    {f : Time → D → D} (h : kindAt g n = some (.transformed p f)) :
    ∃ ms, Chain (kindAt (u ++ [ndu])) p n f ms ∧
      ∀ m ∈ ms, flagsAt (g ++ [ndg]) m = some (false, false) := by
  obtain ⟨ms, hch, hfl⟩ := hc n p f h
  refine ⟨ms, hch.mono fun _ _ => kindAt_append_of_some, fun m hm => ?_⟩
  have hlt : m < g.length := by
    rw [hs.length_eq]
    obtain ⟨q, g', hk⟩ := hch.mem_transformed m hm
    exact lt_length_of_kindAt hk
  rw [flagsAt_append, if_pos hlt, hfl m hm]

omit [Inhabited D] in
theorem update (hc : ChainsUnflagged g u) (m0 : Nat) (upd : Node D → Node D)
    (hupd : ∀ nd, (upd nd).kind = nd.kind) (F : Bool × Bool → Bool × Bool)
    (hF : ∀ nd, (upd nd).flags = F nd.flags) (hm0 : ¬ Bypassed g u m0) :
    ChainsUnflagged (g.updateNode m0 upd) (u.updateNode m0 upd) := by
  intro n p f h
  rw [kindAt_updateNode g m0 upd hupd] at h
  obtain ⟨ms, hch, hfl⟩ := hc n p f h
  refine ⟨ms, hch.mono fun i k hk => by rw [kindAt_updateNode u m0 upd hupd]; exact hk,
    fun m hm => ?_⟩
  have hne : m ≠ m0 := by
    rintro rfl
    exact hm0 ⟨n, p, f, ms, h, hch, hm⟩
  rw [flagsAt_updateNode g m0 upd F hF, hfl m hm]
  simp [hne]

theorem step (hs : Sim g u) (hc : ChainsUnflagged g u) (op : Op D)
    (hop : ∀ m, op.SetsFlagOn m → ¬ Bypassed g u m) :
    ChainsUnflagged (Graph.step g op) (Graph.stepU u op) := by
  cases op with
  | jvm ps c =>
    simp only [Graph.step, Graph.stepU, stepWith, ← hs.length_eq]
    split
    · intro n p f h
      rcases kindAt_append_iff.1 h with h | ⟨-, hk⟩
      · exact hc.old hs _ _ h
      · cases hk
    · exact hc
  | transform n func =>
    simp only [Graph.step, Graph.stepU, stepWith_transform, ← hs.length_eq]
    split
    · split
      · next f hf hlt =>
        intro m p f' h
        rcases kindAt_append_iff.1 h with h | ⟨rfl, hk⟩
        · exact hc.old hs _ _ h
        · have hu : kindAt (u ++ [unfusedDStream u n f]) g.length = some (.transformed n f) := by
            rw [hs.length_eq]; exact kindAt_append_length _ _
          rcases transformedDStream_cases g n f with ⟨pp, pf, hq, hnd, -⟩ | ⟨-, hnd, -⟩
          · have hkq : kindAt g n = some (.transformed pp pf) := by simp [kindAt, hq]
            rw [hnd] at hk; cases hk
            obtain ⟨ms, hch, hfl⟩ := hc.old hs (transformedDStream g n f) (unfusedDStream u n f) hkq
            refine ⟨ms ++ [n], .snoc hch hu, fun m hm => ?_⟩
            rcases List.mem_append.1 hm with hm | hm
            · exact hfl m hm
            · rw [List.mem_singleton.1 hm, flagsAt_append, if_pos hlt]
              simp [flagsAt, hq, Node.flags]
          · rw [hnd] at hk; cases hk
            exact ⟨[], .single hu, by simp⟩
      · exact hc
    · exact hc
  | cache n =>
    have hn := hop n rfl
    have hupd : ∀ nd : Node D, ({ nd with isCached := true } : Node D).kind = nd.kind :=
      fun _ => rfl
    exact (hc.update n _ hupd (fun fl => (true, fl.2)) (fun _ => rfl) hn).update n _ hupd
      (fun fl => (true, fl.2)) (fun _ => rfl) ((bypassed_updateNode n hupd).not.2 hn)
  | persist n =>
    exact hc.update n (fun nd => { nd with isCached := true }) (fun _ => rfl)
      (fun fl => (true, fl.2)) (fun _ => rfl) (hop n rfl)
  | checkpoint n =>
    exact hc.update n (fun nd => { nd with isCheckpointed := true }) (fun _ => rfl)
      (fun fl => (fl.1, true)) (fun _ => rfl) (hop n rfl)

end ChainsUnflagged

theorem FlagsBeforeBypass.of_append {ops : List (Op D)} {op : Op D}
    (h : FlagsBeforeBypass (ops ++ [op])) :
    FlagsBeforeBypass ops ∧ ∀ m, op.SetsFlagOn m → ¬ Bypassed (run ops) (runU ops) m := by
  refine ⟨fun i hi m hm => ?_, fun m hm => ?_⟩
  · have := h i (by simp; omega) m (by rwa [List.getElem_append_left hi])
    rwa [List.take_append_of_le_length (Nat.le_of_lt hi)] at this
  · have := h ops.length (by simp) m (by simpa using hm)
    rwa [List.take_left' rfl] at this

theorem chainsUnflagged_run [Inhabited D] (ops : List (Op D)) (hops : FlagsBeforeBypass ops) :
    ChainsUnflagged (run ops) (runU ops) := by
  induction ops using List.reverseRecOn with
  | nil => intro _ _ _ h; simp [kindAt, run] at h
  | append_singleton ops op ih =>
    obtain ⟨hops, hop⟩ := hops.of_append
    rw [run_append, runU_append]
    exact (ih hops).step (sim_run ops) op hop

/-- **Fusion folds only across unflagged nodes.**  When no cache, persist or
checkpoint reaches a node after a transform was folded across it, every node that
lies logically between a `TransformedDStream` and its physical parent has
neither flag set. -/
theorem run_chain_unflagged [Inhabited D] (ops : List (Op D)) (hops : FlagsBeforeBypass ops)
    (n p : Nat) (f : Time → D → D) (ms : List Nat) (h : kindAt (run ops) n = some (.transformed p f))
    (hc : Chain (kindAt (runU ops)) p n f ms) : ∀ m ∈ ms, flagsAt (run ops) m = some (false, false) := by
  obtain ⟨ms', hc', hfl⟩ := chainsUnflagged_run ops hops n p f h
  obtain ⟨-, rfl⟩ := hc.unique (sim_run ops).wfU hc'
  exact hfl

/-- A map checkpointed on its source after it was built, then a second map: the checkpoint
reaches node `0`, which no transform is folded across, and the second map folds over node
`1`, which stays unflagged. -/
theorem run_chain_unflagged_checkpointedSource :
    FlagsBeforeBypass checkpointedSource ∧
      ∀ m ∈ [1], flagsAt (run checkpointedSource) m = some (false, false) := by
  have hops : FlagsBeforeBypass checkpointedSource := fun i hi m hm => by
    match i, hi with
    | 0, _ => exact hm.elim
    | 1, _ => exact hm.elim
    | 2, _ =>
      obtain rfl : 0 = m := hm
      rintro ⟨n, p, f, ms, -, hc, h0⟩
      obtain ⟨q, g, hk⟩ := hc.mem_transformed 0 h0
      cases hk
    | 3, _ => exact hm.elim
  exact ⟨hops, run_chain_unflagged checkpointedSource hops 2 0 _ [1] rfl (.snoc (.single rfl) rfl)⟩

end SparkStreaming
