/-
One generation run.

`buildRecords` validates a configuration, draws the overlay and derives all node records;
`generateInto` then stores them one by one in any sink; `generateInDirectory` does so in
the configured output directory and clears away what an earlier run left.

Design notes: all records are derived before the first is stored, so no failure of the
overlay or of the port ranges ever leaves part of a run behind.
-/
import PeerOverlay.Config.Validation
import PeerOverlay.Configurator
import PeerOverlay.Random.KeyStream
import PeerOverlay.Sink.Directory
import PeerOverlay.Topology.SmallWorld

namespace PeerOverlay

/-- Why a run failed. -/
inductive RunError
  | invalid (cause : ValidationError)
  /-- No overlay was drawn. -/
  | overlay (cause : DrawError)
  /-- The run over the nodes could not start. -/
  | start (cause : ConfigureError)
  /-- A record could not be derived. -/
  | derive (cause : ConfigureError)
  /-- A record could not be stored. -/
  | store (node : NodeId) (cause : SinkError)
  /-- The output directory could not be opened or cleared. -/
  | directory (cause : SinkError)
deriving DecidableEq, Repr

namespace RunError

/-- The error and the causes behind it, outermost first. -/
def chain : RunError → List String
  | invalid cause => cause.chain
  | overlay (.invalid cause) => ["Failed to construct overlay topology", cause.message]
  | overlay .exhausted =>
    ["Failed to construct overlay topology", "the random source offers no new neighbor"]
  | start cause => [cause.message]
  | derive cause => ["Failed to derive node records", cause.message]
  | store node cause => s!"Failed to store configuration for node {node}" :: cause.chain
  | directory cause => cause.chain

end RunError

/-- What a run did. -/
structure Summary where
  numNodes : Nat
  edges : Nat
  /-- Nodes without neighbours, in ascending order. -/
  isolated : List NodeId
  written : Nat
  /-- Artifacts of an earlier run that were removed. -/
  staleRemoved : Nat
deriving DecidableEq, Repr

/-- The random source of a run: the key stream of the seed, or a fresh source. -/
def TopologySection.draws (t : TopologySection) (fresh : DrawSource) : DrawSource :=
  match t.seed with
  | some seed => keyStream seed
  | none => fresh

/-- Draws the overlay of a configuration and derives the record of every node.  The fresh
source serves a configuration without seed. -/
def buildRecords (c : Config) (fresh : DrawSource) (patience : Nat) :
    Except RunError (Graph × List NodeRecord) := do
  c.validate.mapError .invalid
  let wiring ← (smallWorld c.network.numNodes c.topology.params (c.topology.draws fresh)
    patience).mapError .overlay
  let run ← (Configurator.start c.network.numNodes c.ports wiring.graph.toTopology
    c.network.transport c.network.host).mapError .start
  let records ← run.collect.mapError .derive
  return (wiring.graph, records)

/-- Stores records in order and stops at the first failure. -/
def storeAll {σ : Type} (store : Store σ) : List NodeRecord → σ → Except RunError Unit × σ
  | [], s => (.ok (), s)
  | r :: rest, s =>
    match store r s with
    | (.error e, s) => (.error (.store r.node e), s)
    | (.ok (), s) => storeAll store rest s

/-- The nodes whose records list no neighbours. -/
def isolatedNodes (records : List NodeRecord) : List NodeId :=
  (records.filter fun r => r.neighbors.isEmpty).map NodeRecord.node

/-- What a run that stored all records did. -/
def summarize (g : Graph) (records : List NodeRecord) : Summary where
  numNodes := records.length
  edges := g.edgeCount
  isolated := isolatedNodes records
  written := records.length
  staleRemoved := 0

/-- Runs a configuration into a sink. -/
def generateInto {σ : Type} (c : Config) (fresh : DrawSource) (patience : Nat)
    (store : Store σ) (s : σ) : Except RunError Summary × σ :=
  match buildRecords c fresh patience with
  | .error e => (.error e, s)
  | .ok (g, records) =>
    let (stored, s) := storeAll store records s
    (stored.map fun _ => summarize g records, s)

/-- Runs a configuration into its output directory. -/
def generateInDirectory (c : Config) (fresh : DrawSource) (patience : Nat) (t : FileTree) :
    Except RunError Summary × FileTree :=
  match c.validate with
  | .error e => (.error (.invalid e), t)
  | .ok () =>
    match DirectorySink.openAt t (.ofText c.general.outputDir) c.general.format c.node
        c.general.overwrite with
    | (.error e, t) => (.error (.directory e), t)
    | (.ok sink, t) =>
      match generateInto c fresh patience DirectorySink.store (sink, t) with
      | (.error e, _, t) => (.error e, t)
      | (.ok summary, sink, t) =>
        match sink.removeStale t with
        | (.error e, _, t) => (.error (.directory e), t)
        | (.ok removed, _, t) => (.ok { summary with staleRemoved := removed.length }, t)

end PeerOverlay
