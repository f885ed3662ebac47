import Superstep.Cli.Execution
import Superstep.Proofs.Cli.Files
import Superstep.Proofs.EdgeList.Tables

/-!
# Saved graphs and generated graphs

A run can generate its graph itself, or read what `generate` has left in a file. Both take the same
draws, and from there the ways part: one freezes the graph, and perhaps adds the reverse of every
relationship afterwards; the other reads the text of the graph into a directed or an undirected
builder. That both lead to the same table, relationship by relationship, is what
`EdgeList.parse_text_of_build` and `EdgeList.parse_text_undirected` say. Generated weights are
finite, so that nothing has to be assumed of them but that their text is read back.

Result: `saved_graph_runs_alike`.
-/

namespace Superstep

namespace OffsetTable

/-- The text of every finite weight of the table is read as the weight. -/
def ReadsBack (t : OffsetTable Float) : Prop :=
  ∀ ws ∈ t.weights, ∀ w ∈ ws, w.isFinite → Decimal.readFloat? (Decimal.floatDigits w) = some w

instance (t : OffsetTable Float) : Decidable t.ReadsBack :=
  inferInstanceAs (Decidable (∀ ws ∈ t.weights, ∀ w ∈ ws,
    w.isFinite → Decimal.readFloat? (Decimal.floatDigits w) = some w))

/-- A table that is made, with finite weights whose text is read back, is saved, and what is saved
    is read as the table, or as the table with every relationship reversed. -/
theorem Made.read_save [Memory.Allocator] {t : OffsetTable Float} (h : t.Made) (hfinite : t.Finite)
    (htext : t.ReadsBack) :
    (EdgeList.save t.toGraph none).2 = .ok () ∧
      (EdgeList.save t.toGraph none).1.toList = EdgeList.text t.toGraph ∧
      ∀ undirected, EdgeList.parseBytes (Text.utf8 (EdgeList.text t.toGraph)) undirected =
        if undirected then t.undirected else .ok t := by
  obtain ⟨b, hsound, hbuild⟩ := h.exists_builder
  have hlists := lists_of_build hsound hbuild
  have hreadable : ∀ node ∈ t.toGraph.nodes, t.toGraph.fault? node = none :=
    fun node _ => hlists.fault?_eq_none node
  have hsavable : EdgeList.Savable t.toGraph := .of_build hsound hbuild fun ws hws w hw =>
    Weight.legible_float (hfinite ws hws w hw) (htext ws hws w hw (hfinite ws hws w hw))
  obtain ⟨hheld, hok⟩ := EdgeList.save_none hreadable
  refine ⟨hok, hheld, fun undirected => ?_⟩
  rw [EdgeList.parseBytes_utf8]
  cases undirected with
  | false => exact EdgeList.parse_text_of_build hsound hbuild hsavable
  | true =>
    refine EdgeList.parse_text_undirected ?_ hsavable
    rw [hlists.nodeCount_eq]
    exact toNat_lt_wordLimit _

end OffsetTable

namespace Cli

/-- The same run on another graph. -/
def RunOptions.on (o : RunOptions) (source : GraphSource) : RunOptions := { o with source }

/-- What `generate` has to be told so that it makes the graph of a run. -/
def RunOptions.generated (o : RunOptions) (nodeCount : UInt64) (output : Option String) :
    GenerateOptions where
  nodeCount
  degree := o.degree
  seed := o.seed
  weighted := o.algorithm = .shortestPaths
  output

/-- After `generate` the file at `path` holds the edge list: `generate` has written it there, where
    it can be found, or it has shown it and the file holds what was shown. -/
inductive GenerateOptions.Leaves [Memory.Allocator] (p : GenerateOptions) (path : String)
    (folder folder' : Folder) : Prop where
  | saved {bytes : List UInt8} (houtput : p.output = some path)
      (hrun : (p.execute Folder.access).run folder = (.ok .saved, folder'))
      (hfound : folder'.read path = .ok bytes)
  | shown {text : String} (houtput : p.output = none)
      (hrun : (p.execute Folder.access).run folder = (.ok (.edgeList text), folder))
      (hfile : folder'.read path = .ok text.toUTF8.toList)

namespace GenerateOptions

variable [Memory.Allocator] {p : GenerateOptions} {path : String} {folder folder' : Folder}
  {g : OffsetTable Float} (hgraph : p.graph = .ok g)
include hgraph

theorem run_execute_of_some (houtput : p.output = some path) (folder : Folder) :
    (p.execute Folder.access).run folder =
      match folder.write path (String.ofList (EdgeList.text g.toGraph)) with
      | .ok folder' => (.ok .saved, folder')
      | .error reason => (.error (.graph (.io reason)), folder) := by
  have hwrite : (Folder.access.write path (String.ofList (EdgeList.text g.toGraph))).run folder =
      match folder.write path (String.ofList (EdgeList.text g.toGraph)) with
      | .ok folder' => (.ok (), folder')
      | .error reason => (.error reason, folder) := by
    unfold Folder.access
    dsimp only
    rw [StateT.run_bind, StateT.run_get, pure_bind]
    cases folder.write path (String.ofList (EdgeList.text g.toGraph)) <;> rfl
  unfold execute
  simp only [hgraph, houtput]
  rw [StateT.run_bind, hwrite]
  cases folder.write path (String.ofList (EdgeList.text g.toGraph)) <;> rfl

theorem run_execute_of_none (houtput : p.output = none) (folder : Folder) :
    (p.execute Folder.access).run folder =
      (.ok (.edgeList (String.ofList (EdgeList.text g.toGraph))), folder) := by
  unfold execute
  simp only [hgraph, houtput]
  rfl

theorem Leaves.read_eq (h : p.Leaves path folder folder') :
    folder'.read path = .ok (Text.utf8 (EdgeList.text g.toGraph)) := by
  rw [← Text.toUTF8_ofList]
  cases h with
  | saved houtput hrun hfound =>
    rw [run_execute_of_some hgraph houtput] at hrun
    split at hrun
    · next written hwrite =>
      obtain rfl : written = folder' := (Prod.ext_iff.1 hrun).2
      rw [hfound, Folder.read_of_write hwrite hfound]
    · cases (Prod.ext_iff.1 hrun).1
  | shown houtput hrun hfile =>
    rw [run_execute_of_none hgraph houtput] at hrun
    cases (Prod.ext_iff.1 hrun).1
    exact hfile

end GenerateOptions

namespace RunOptions

variable [Memory.Allocator] {o : RunOptions}

/-- Where the graph comes from does not matter once it is there. -/
theorem proceed_on (o : RunOptions) (source : GraphSource) : (o.on source).proceed = o.proceed := by
  have hrunOn : (o.on source).runOn = o.runOn := by
    funext g config
    obtain ⟨_, _, _, algorithm, _, _, _, _, _⟩ := o
    cases algorithm <;> rfl
  funext loaded
  unfold proceed
  rw [hrunOn]
  rfl

theorem run_execute_of_loadGraph {source : GraphSource} {folder : Folder}
    {loaded : Except GraphError (OffsetTable Float)}
    (h : ((o.on source).loadGraph Folder.access).run folder = (loaded, folder)) :
    ((o.on source).execute Folder.access).run folder = (o.proceed loaded, folder) := by
  rw [execute, StateT.run_bind, h, proceed_on]
  rfl

theorem run_loadGraph_file {path : String} {folder : Folder} {bytes : List UInt8}
    (h : folder.read path = .ok bytes) :
    ((o.on (.file path)).loadGraph Folder.access).run folder =
      (EdgeList.parseBytes bytes o.isUndirected, folder) := by
  have hread : (Folder.access.read path).run folder = (folder.read path, folder) := rfl
  unfold loadGraph
  dsimp only [on]
  rw [StateT.run_bind, hread, h]
  rfl

theorem run_loadGraph_random {n : UInt64} {output : Option String}
    {g : OffsetTable Float} (h : (o.generated n output).graph = .ok g) (folder : Folder) :
    ((o.on (.random n)).loadGraph Folder.access).run folder =
      (if o.isUndirected then g.undirected else .ok g, folder) := by
  have hgraph : Random.seededGraph n o.degree o.seed (o.algorithm = .shortestPaths) = .ok g := h
  have hgenerate : o.generateGraph n = if o.isUndirected then g.undirected else .ok g := by
    rw [generateGraph, hgraph]
    rfl
  rw [← hgenerate]
  rfl

end RunOptions

/-- First, of every table that a builder or a generator makes, with finite weights: it can be saved,
    and what is saved, read as an undirected graph, is the table with the reverse of every
    relationship added, also where adding it fails; read as a directed graph it is the table itself.

    Second, of every run and every number of nodes, where `generate` succeeds with the degree and
    the seed of the run, and with weights if the run needs them: the weights of the graph `g` of
    `generate` are finite. If the file holds what `generate` has left, then a run on the file and a
    run that generates its graph both get `g`, with the reverse of every relationship if their
    options or their algorithm ask for it, and proceed with that.

    That the text of each finite weight is read back as the weight is assumed in both. -/
theorem saved_graph_runs_alike [Memory.Allocator] :
    (∀ t : OffsetTable Float, t.Made → t.Finite → t.ReadsBack →
      (EdgeList.save t.toGraph none).2 = .ok () ∧
        ∀ undirected, EdgeList.parseBytes
            (Text.utf8 (EdgeList.save t.toGraph none).1.toList) undirected =
          if undirected then t.undirected else .ok t) ∧
    ∀ (o : RunOptions) (n : UInt64) (output : Option String) (path : String)
      (folder folder' : Folder) (g : OffsetTable Float),
      (o.generated n output).graph = .ok g → g.ReadsBack →
      (o.generated n output).Leaves path folder folder' →
        let loaded := if o.isUndirected then g.undirected else .ok g
        g.Finite ∧
        ∀ source, source = .file path ∨ source = .random n →
          ((o.on source).loadGraph Folder.access).run folder' = (loaded, folder') ∧
          ((o.on source).execute Folder.access).run folder' = (o.proceed loaded, folder') := by
  refine ⟨fun t hmade hfinite htext => ?_,
    fun o n output path folder folder' g hgraph htext h => ?_⟩
  · obtain ⟨hok, hheld, hread⟩ := hmade.read_save hfinite htext
    rw [hheld]
    exact ⟨hok, hread⟩
  · have hfinite : g.Finite := OffsetTable.finite_of_seededGraph hgraph
    obtain ⟨-, -, hread⟩ := (OffsetTable.Made.of_seededGraph hgraph).read_save hfinite htext
    have hload : ∀ source, source = .file path ∨ source = .random n →
        ((o.on source).loadGraph Folder.access).run folder' =
          (if o.isUndirected then g.undirected else .ok g, folder') := by
      rintro source (rfl | rfl)
      · rw [RunOptions.run_loadGraph_file (h.read_eq hgraph), hread]
      · exact RunOptions.run_loadGraph_random hgraph folder'
    exact ⟨hfinite, fun source hsource =>
      ⟨hload source hsource, RunOptions.run_execute_of_loadGraph (hload source hsource)⟩⟩

/-- Shortest paths on three nodes, each with one relationship, followed in both directions. -/
def shortRun : RunOptions where
  source := .random 3
  degree := 1
  seed := 7
  algorithm := .shortestPaths
  origin := ⟨0⟩
  concurrency := none
  maxIterations := none
  undirected := true
  config := none

/-- The graph of `shortRun` before relationships are reversed. -/
def shortGraph : OffsetTable Float where
  offsets := #[0, 1, 2, 3]
  targets := #[⟨1⟩, ⟨2⟩, ⟨1⟩]
  weights := some #[Float.ofBits 0x4004186143651ba1, Float.ofBits 0x401e29a5d5994cbf,
    Float.ofBits 0x4010efe6eb0931a6]

theorem graph_shortRun (output : Option String) :
    (shortRun.generated 3 output).graph = .ok shortGraph := by
  change Random.seededGraph 3 1 7 true = .ok shortGraph
  decide +kernel

/-- The graph of `shortRun`. -/
def shortTable : OffsetTable Float where
  offsets := #[0, 1, 4, 6]
  targets := #[⟨1⟩, ⟨0⟩, ⟨2⟩, ⟨2⟩, ⟨1⟩, ⟨1⟩]
  weights := some #[Float.ofBits 0x4004186143651ba1, Float.ofBits 0x4004186143651ba1,
    Float.ofBits 0x401e29a5d5994cbf, Float.ofBits 0x4010efe6eb0931a6,
    Float.ofBits 0x401e29a5d5994cbf, Float.ofBits 0x4010efe6eb0931a6]

/-- A folder with one file. -/
def savedFolder : Folder := ⟨[("graph.txt", String.ofList (EdgeList.text shortGraph.toGraph))]⟩

theorem leaves_shortRun :
    (shortRun.generated 3 (some "/graph.txt")).Leaves "/graph.txt" ⟨[]⟩ savedFolder := by
  have hpath : Folder.Path.ofString "/graph.txt" = ⟨true, ["graph.txt"], false⟩ := by
    rw [Folder.Path.ofString, Folder.Path.mk.injEq]
    decide +kernel
  have hwrite : (Folder.mk []).write "/graph.txt"
      (String.ofList (EdgeList.text shortGraph.toGraph)) = .ok savedFolder := by
    unfold Folder.write
    rw [hpath]
    rfl
  have hread : savedFolder.read "/graph.txt" =
      .ok (String.ofList (EdgeList.text shortGraph.toGraph)).toUTF8.toList := by
    unfold Folder.read
    rw [hpath]
    rfl
  refine .saved rfl ?_ hread
  rw [GenerateOptions.run_execute_of_some (graph_shortRun _) rfl, hwrite]

/-- The summary of `shortRun`. The distances are zero, the weight of the first relationship, and the
    sum of that and the weight of the last one. -/
def shortSummary : Summary where
  algorithm := .shortestPaths
  ranIterations := 4
  didConverge := true
  termination := .converged
  supersteps := [⟨0, 1, 1, 0, 1⟩, ⟨1, 1, 3, 1, 2⟩, ⟨2, 2, 2, 1, 1⟩, ⟨3, 1, 0, 0, 0⟩]
  values := .numbers [0, Float.ofBits 0x4004186143651ba1, Float.ofBits 0x401afc178cbbbf76]

theorem saved_graph_runs_alike_shortRun :
    ∀ source, source = .file "/graph.txt" ∨ source = .random 3 →
      ((shortRun.on source).loadGraph Folder.access).run savedFolder =
        (.ok shortTable, savedFolder) ∧
      ∃ events, ((shortRun.on source).execute Folder.access).run savedFolder =
        ((.ok shortSummary, events), savedFolder) := by
  obtain ⟨-, hload⟩ := saved_graph_runs_alike.2 shortRun 3 (some "/graph.txt") "/graph.txt" ⟨[]⟩
    savedFolder shortGraph (graph_shortRun _) (by decide +kernel) leaves_shortRun
  have htable : (if shortRun.isUndirected then shortGraph.undirected else .ok shortGraph) =
      .ok shortTable := by
    decide +kernel
  have hsummary : (shortRun.proceed (.ok shortTable)).1 = .ok shortSummary := by
    decide +kernel
  intro source hsource
  obtain ⟨hloaded, hran⟩ := hload source hsource
  rw [htable] at hloaded hran
  exact ⟨hloaded, _, hran.trans (by rw [← hsummary])⟩

end Cli

end Superstep
