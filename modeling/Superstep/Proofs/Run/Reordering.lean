import Superstep.Proofs.Algorithm.Components
import Superstep.Proofs.Algorithm.ShortestPaths
import Superstep.Proofs.Graph.Arcs
import Superstep.Proofs.Run.Twins

/-!
# Graphs that list their relationships in another order

The steps of a computation may see of a graph no more than the number of nodes, the degrees, and the
relationships of their node in whatever order (`Computation.GraphBlind`). On two graphs that differ
in that order such a computation sends the same messages, each node in another order; if the order
of messages does not matter either, its runs on the two graphs are twins. An arc list and the table
that it is copied into are two such graphs.

Results:
* `Computation.graphBlind_of_step_eq`: steps that come to the same on such graphs are blind to them.
* `twins_of_reorders`: runs on such graphs are twins.
* `copied_graph_runs_alike`: an arc list and its copy are the same graph, also to a run.
-/

namespace Superstep

/-! ## Steps that do not see the order of relationships -/

section

variable {W V M : Type}

/-- What two steps come to that are taken on two graphs by the same node: the same value, the same
    vote, the same messages in some order, and both say that they fail, or neither does. -/
structure Outcome.Resembles (g g' : Graph W) (node : NodeId) (o o' : Outcome V M) : Prop where
  value : o'.value = o.value
  halt : o'.halt = o.halt
  failure : o'.failure.isSome = o.failure.isSome
  letters : (o.sends.flatMap (Send.expand g node)).Perm (o'.sends.flatMap (Send.expand g' node))

/-- A computation that sees of a graph only the number of nodes, the degrees, and the relationships
    of each node in whatever order. -/
structure Computation.GraphBlind (c : Computation W V M) : Prop where
  init : ∀ (g g' : Graph W) (v : NodeId), g.Reorders g' → c.init g' v = c.init g v
  step : ∀ (view : NodeView W V M) (g' : Graph W), view.graph.Reorders g' →
    (c.step view).Resembles view.graph g' view.node (c.step { view with graph := g' })

theorem Send.expand_perm {g g' : Graph W} (h : g.Reorders g') (node : NodeId) (send : Send M) :
    (send.expand g node).Perm (send.expand g' node) := by
  match send with
  | .to target message => rfl
  | .toNeighbors message => exact ((h.relationships_perm node).map Prod.fst).map _

/-- Steps that come to the same on graphs that differ in the order of relationships do not see that
    order. -/
theorem Computation.graphBlind_of_step_eq {c : Computation W V M}
    (hinit : ∀ (g g' : Graph W) (v : NodeId), g.Reorders g' → c.init g' v = c.init g v)
    (hstep : ∀ (view : NodeView W V M) (g' : Graph W), view.graph.Reorders g' →
      c.step { view with graph := g' } = c.step view) : c.GraphBlind where
  init := hinit
  step view g' h := by
    rw [hstep view g' h]
    refine ⟨rfl, rfl, rfl, ?_⟩
    apply List.Perm.flatMap_left
    intro send _
    exact send.expand_perm h view.node

end

/-! ## Frames -/

namespace Frame.Alike

variable {W V M : Type} [Message M] {p p' : Program W V M} {t : Nat} {f f' : Frame V M}
  (h : f.Alike f') (hgraph : p.graph.Reorders p'.graph)
  (hcomputation : p'.computation = p.computation) (hblind : p.computation.GraphBlind)
include hgraph hcomputation hblind

omit [Message M] in
theorem resembles_of_reorders (f : Frame V M) (t i : Nat) :
    (p.outcome f t i).Resembles p.graph p'.graph (.ofIndex i) (p'.outcome f t i) := by
  unfold Program.outcome
  rw [hcomputation]
  exact hblind.step ⟨p.graph, .ofIndex i, t, f.value i, f.inbox i⟩ p'.graph hgraph

include h

/-- On two such graphs the steps of alike frames send the same messages, each node in some order. -/
theorem corresponds (hp : p.Unordered) (hf : f.Proper p) : Corresponds p p' t f f' where
  nodeCount := congrArg UInt64.toNat hgraph.nodeCount_eq
  value := h.value
  active := h.active
  step i hi := by
    have hsame := (h.agree (t := t) hp hf).outcome i hi
    have hresembles := resembles_of_reorders hgraph hcomputation hblind f' t i
    exact ⟨hresembles.value.trans hsame.value, hresembles.halt.trans hsame.halt⟩
  letters i hi := by
    have hsame := (h.agree (t := t) hp hf).letters_eq hi
    rw [← hsame]
    exact (resembles_of_reorders hgraph hcomputation hblind f' t i).letters

/-- On two such graphs the steps of alike frames fail alike, if the order of messages does not even
    matter to how they fail. -/
theorem flawless
    (hp : p.reduction.OrderFree ∨ (p.reduction.isCombining = false ∧ p.computation.Symmetric))
    (hf : f.Proper p) (hflawless : p.Flawless f t) : p'.Flawless f' t := by
  have hunordered : p.Unordered := hp.imp_right fun h => ⟨h.1, h.2.orderBlind⟩
  have hcorresponds := h.corresponds (t := t) hgraph hcomputation hblind hunordered hf
  intro i hi
  rw [h.active] at hi
  obtain ⟨hfailure, hletters⟩ :=
    (Program.failure?_eq_none_iff (hgraph.readable _).1).1 (hflawless i hi)
  have hresembles := resembles_of_reorders hgraph hcomputation hblind f' t i
  rw [h.outcome_eq hp hf] at hresembles
  refine (Program.failure?_eq_none_iff (hgraph.readable _).2).2 ⟨?_, ?_⟩
  · have hsome := hresembles.failure
    rw [hfailure] at hsome
    simpa using hsome
  · intro l hl
    rw [hcorresponds.nodeCount]
    exact hletters l ((hcorresponds.letters i hi).mem_iff.2 hl)

end Frame.Alike

/-! ## Runs -/

section

variable {W V M : Type} [Message M] {r r' : Run W V M} (hgraph : r.graph.Reorders r'.graph)
  (hcomputation : r'.computation = r.computation)
  (hconfig : r'.config = { r.config with concurrency := r'.config.concurrency })
  (hblind : r.computation.GraphBlind)
include hgraph hcomputation hconfig hblind

/-- Runs on graphs that differ in the order of relationships are twins, if neither that order nor
    the order of messages matters to them. -/
theorem Run.twins_of_reorders [Memory.Allocator] (hp : r.program.Unordered) (flag : TerminationFlag)
    (n : Nat) :
    r.Twins r' flag n := by
  have hcount : r'.nodeCount = r.nodeCount := congrArg UInt64.toNat hgraph.nodeCount_eq
  have hreduction : r'.program.reduction = r.program.reduction := by
    show Reduction.choose _ _ = Reduction.choose _ _
    rw [hcomputation, hconfig]
  have hinitial : r'.config.initialActive = r.config.initialActive := by rw [hconfig]
  have hinit : ∀ i, r'.computation.init r'.graph (.ofIndex i) =
      r.computation.init r.graph (.ofIndex i) := by
    intro i
    rw [hcomputation]
    exact hblind.init _ _ _ hgraph
  have hstart : r.initialFrame.Alike r'.initialFrame := by
    refine ⟨funext hinit, ?_, fun _ => .rfl⟩
    show r'.initialNodes = r.initialNodes
    unfold initialNodes
    rw [hcount, hinitial]
  refine ⟨hcount, by rw [hconfig], ?_, ?_, ?_⟩
  · unfold initialValues
    simp only [hcount, hinit]
  · unfold Run.initialActive
    rw [hcount, hinitial]
  · intro k f f' stats stats' _ hcourse hcourse'
    exact hcourse.alike_of_corresponds hstart hreduction (hp.imp_right And.left)
      (fun halike hproper => halike.corresponds hgraph hcomputation hblind hp hproper) hcourse'

end

/-- An arc list to which nodes and arcs have been added one by one is copied, with its weights, into
    a table that describes the same graph, if there is memory for the table. The two have the same
    number of nodes and of relationships and the same degrees. They list the relationships of every
    id in opposite orders, and have none for an id that is no node. The weight between two nodes is
    that of the last arc added, in the table that of the first one, and these are the same if
    parallel arcs have equal weights. Two runs that differ in the graph, in the number of workers
    and in the schedule, when neither the order of relationships nor that of messages matters to
    them: after every superstep they have the same values, the same active nodes, the same messages
    up to their order, and the same counts; their results have the same values, the same counts and
    the same termination; and if the order of messages does not even matter to how steps fail, and
    the trackers do not panic, one of them has a result exactly if the other one has. -/
theorem copied_graph_runs_alike [Memory.Allocator] {W : Type} [Weight W] {g : ArcList W}
    (hg : g.Built) :
    ((∃ t, g.toOffsetTable (some id) = .ok t) ↔ Builder.Allocatable g.nodeCount g.arcs.size) ∧
    ∀ t, g.toOffsetTable (some id) = .ok t →
      t.toGraph.nodeCount = g.toGraph.nodeCount ∧
      t.toGraph.relationshipCount = g.toGraph.relationshipCount ∧
      (∀ v, t.toGraph.degree v = g.toGraph.degree v ∧
        g.toGraph.relationships v = (t.toGraph.relationships v).reverse ∧
        (¬ g.toGraph.IsNode v →
          g.toGraph.relationships v = [] ∧ t.toGraph.relationships v = [])) ∧
      (∀ u v, g.toGraph.weight? u v = ((g.between u v).getLast?.map fun a => a.2.2, none) ∧
        t.toGraph.weight? u v = ((g.between u v).head?.map fun a => a.2.2, none) ∧
        ((∀ a ∈ g.between u v, ∀ b ∈ g.between u v, a.2.2 = b.2.2) →
          g.toGraph.weight? u v = t.toGraph.weight? u v)) ∧
      ∀ (V M T T' : Type) [Message M] (r r' : Run W V M), r.graph = g.toGraph →
        r'.graph = t.toGraph → r'.computation = r.computation →
        r'.config = { r.config with concurrency := r'.config.concurrency } →
        r.computation.GraphBlind →
        (r.reduction.OrderFree ∨
          (r.reduction.isCombining = false ∧ r.computation.OrderBlind)) →
        ∀ (tracker : Tracker T) (tracker' : Tracker T') (schedule : Schedule (r.job tracker))
          (schedule' : Schedule (r'.job tracker')) (state : T) (state' : T')
          (flag : TerminationFlag),
          (∀ k d d', r.after schedule state flag k = some d →
            r'.after schedule' state' flag k = some d' → d.Same r.nodeCount k d') ∧
          (∀ result result', (Run.under schedule state flag).ending = .finished result →
            (Run.under schedule' state' flag).ending = .finished result' →
              result.Same r.nodeCount result' ∧ result'.termination = result.termination) ∧
          (tracker.Quiet → tracker'.Quiet →
            (r.reduction.OrderFree ∨
              (r.reduction.isCombining = false ∧ r.computation.Symmetric)) →
            ((∃ result, (Run.under schedule state flag).ending = .finished result) ↔
              ∃ result', (Run.under schedule' state' flag).ending = .finished result')) := by
  refine ⟨hg.exists_copy_iff, fun t ht => ?_⟩
  have hreorders := hg.reorders ht
  refine ⟨hreorders.nodeCount_eq, hg.relationshipCount_copy ht, fun v => ?_, fun u v => ?_,
    ?_⟩
  · have hcopy := hg.relationships_copy ht v
    refine ⟨hreorders.degree_eq v, hcopy, fun hv => ?_⟩
    have hnone := hg.relationships_of_not_isNode hv
    rw [hnone] at hcopy
    exact ⟨hnone, List.reverse_eq_nil_iff.1 hcopy.symm⟩
  · exact ⟨hg.weight?_eq u v, hg.weight?_copy ht u v, hg.weight?_copy_eq ht⟩
  · intro V M T T' _ r r' hr hr' hcomputation hconfig hblind horder tracker tracker' schedule
      schedule' state state' flag
    have hgraph : r.graph.Reorders r'.graph := by rwa [hr, hr']
    have htwins := fun n => Run.twins_of_reorders hgraph hcomputation hconfig hblind horder flag n
    refine ⟨fun k d d' hd hd' => (htwins k).same_after le_rfl hd hd', fun result result' h h' => ?_,
      fun htracker htracker' hsymmetric => ⟨fun ⟨result, h⟩ => ?_, fun ⟨result', h'⟩ => ?_⟩⟩
    · obtain ⟨hsame, -, htermination⟩ := (htwins result.ranIterations).same_result h le_rfl h'
      exact ⟨hsame, htermination⟩
    · refine (htwins result.ranIterations).exists_finished htracker' h le_rfl ?_
      intro k f f' stats stats' hk hcourse hcourse' hflawless
      have halike := ((htwins k).alike le_rfl hcourse hcourse').1
      exact halike.flawless (p := r.program) hgraph hcomputation hblind hsymmetric
        hcourse.proper hflawless
    · refine (htwins result'.ranIterations).symm.exists_finished htracker h' le_rfl ?_
      intro k f' f stats' stats hk hcourse' hcourse hflawless
      have halike := ((htwins k).alike le_rfl hcourse hcourse').1.symm
      have hreduction : r'.reduction = r.reduction := by
        unfold Run.reduction
        rw [hcomputation, hconfig]
      have hblind' : r'.computation.GraphBlind := by rwa [hcomputation]
      have hsymmetric' : r'.reduction.OrderFree ∨
          (r'.reduction.isCombining = false ∧ r'.computation.Symmetric) := by
        rwa [hreduction, hcomputation]
      exact halike.flawless (p := r'.program) hgraph.symm hcomputation.symm hblind'
        hsymmetric' hcourse'.proper hflawless

/-- Two nodes with parallel arcs from the first to the second one, of different weights. -/
def parallelList : ArcList Int where
  nodeCount := 2
  arcs := #[(⟨0⟩, ⟨1⟩, 5), (⟨1⟩, ⟨0⟩, 2), (⟨0⟩, ⟨1⟩, 7)]

theorem built_parallelList : parallelList.Built :=
  ArcList.built_of_ofArcs?
    (show ArcList.ofArcs? 2 [(⟨0⟩, ⟨1⟩, 5), (⟨1⟩, ⟨0⟩, 2), (⟨0⟩, ⟨1⟩, 7)] = some parallelList
      from rfl)
    (by decide) (by decide)

/-- A run that looks for the components of an arc list with one worker. -/
def parallelListRun : Run Int (Unsigned 64) (Unsigned 64) where
  graph := parallelList.toGraph
  config := { Config.default 1 with combiner := .min, maxIterations := 1 }
  computation := Components.computation
  accepted := rfl

/-- Two workers on a table. -/
def tableRun (t : OffsetTable Int) : Run Int (Unsigned 64) (Unsigned 64) where
  graph := t.toGraph
  config := { Config.default 2 with combiner := .min, maxIterations := 1 }
  computation := Components.computation
  accepted := rfl

/-- The weights that the arc list and its copy give to the first relationship, an id of which the
    low 32 bits name a node, and the results of their runs. -/
theorem copied_graph_runs_alike_parallelList :
    ∃ t, parallelList.toOffsetTable (some id) = .ok t ∧
      parallelList.toGraph.weight? ⟨0⟩ ⟨1⟩ = (some 7, none) ∧
      t.toGraph.weight? ⟨0⟩ ⟨1⟩ = (some 5, none) ∧
      parallelList.toGraph.relationships ⟨4294967296⟩ = [] ∧
      t.toGraph.relationships ⟨4294967296⟩ = [] ∧
      ∃ result result', (Run.under (.inOrder (parallelListRun.job Tracker.silent)) ()
          .never).ending = .finished result ∧
        (Run.under (.inOrder ((tableRun t).job Tracker.silent)) () .never).ending =
          .finished result' ∧
        result.Same 2 result' ∧ result'.termination = result.termination := by
  obtain ⟨-, hcopies⟩ := copied_graph_runs_alike built_parallelList
  obtain ⟨t, ht⟩ := built_parallelList.exists_copy
  obtain ⟨-, -, hids, hweights, hruns⟩ := hcopies t ht
  obtain ⟨hlist, htable, -⟩ := hweights ⟨0⟩ ⟨1⟩
  obtain ⟨-, -, hnone⟩ := hids ⟨4294967296⟩
  have hblind : (Components.computation (W := Int)).GraphBlind :=
    Computation.graphBlind_of_step_eq (fun _ _ _ _ => rfl) fun _ _ _ => rfl
  have hfree : parallelListRun.reduction.OrderFree :=
    Reduction.orderFree_unsigned 64 (.inr (.inl rfl))
  obtain ⟨-, hresults, hexists⟩ := hruns _ _ _ _ parallelListRun (tableRun t) rfl rfl rfl rfl hblind
    (.inl hfree) Tracker.silent Tracker.silent (.inOrder (parallelListRun.job Tracker.silent))
    (.inOrder ((tableRun t).job Tracker.silent)) () () .never
  have hclosed : parallelList.toGraph.Closed := ⟨fun _ _ => rfl, by decide +kernel⟩
  have hrelaxes := Components.relaxes (r := parallelListRun) rfl (.inl rfl)
    (fun v hv => Finset.mem_range.2 hv) hclosed
  obtain ⟨d, workers, hprepare⟩ : ∃ d workers,
      parallelListRun.prepare Tracker.silent () = .ok (d, workers) := ⟨_, _, rfl⟩
  obtain ⟨result, hfinished⟩ : ∃ result, (Run.under (.inOrder (parallelListRun.job Tracker.silent))
      () .never).ending = .finished result :=
    hrelaxes.finishes (fun _ _ => rfl) (parallelListRun.fits_of_prepare hprepare)
  obtain ⟨result', hfinished'⟩ :=
    (hexists (fun _ _ => rfl) (fun _ _ => rfl) (.inl hfree)).1 ⟨_, hfinished⟩
  obtain ⟨hsame, htermination⟩ := hresults _ _ hfinished hfinished'
  refine ⟨t, ht, hlist.trans (by decide +kernel), htable.trans (by decide +kernel),
    (hnone (by decide +kernel)).1, (hnone (by decide +kernel)).2, result, result', hfinished,
    hfinished', hsame, htermination⟩

end Superstep
