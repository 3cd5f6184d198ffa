/-
What a configurator delivers, pull by pull.

A topology may fail any query and list any neighbours, so a run may end before its last node.
It delivers the records of all nodes before the first that has none, then the error of that
node if there is one, and nothing more however often it is pulled.

* `configureNode_eq_error_iff` — why a node that fits the port ranges has no record;
* `Configurator.exists_delivers` — what one pull leaves to come is what a shorter run delivers;
* `Configurator.start_delivers` — which runs start, and all that they deliver.
-/
import Mathlib.Logic.Function.Iterate
import Mathlib.Order.Basic
import PeerOverlay.Proofs.Configurator

namespace PeerOverlay

variable {topology : Topology} {bases : BasePorts} {transport : Transport} {host : String}
  {counters advanced : PortCounters} {r : NodeRecord} {e : ConfigureError}

/-! ### Nodes without a record -/

theorem endpointsFor_eq_error_iff {nodes : List NodeId} {cause : AllocationError} :
    endpointsFor transport host bases nodes = .error cause ↔
      ∃ front u back, nodes = front ++ u :: back ∧
        (∀ x ∈ front, ∃ endpoint, Endpoint.forNode transport host bases x = .ok endpoint) ∧
          Endpoint.forNode transport host bases u = .error cause := by
  constructor
  · intro h
    induction nodes with
    | nil => cases h
    | cons v rest ih =>
      rw [endpointsFor] at h
      rcases hv : Endpoint.forNode transport host bases v with cause' | endpoint
      · rw [hv] at h
        obtain rfl : cause' = cause := Except.error.inj h
        exact ⟨[], v, rest, rfl, List.forall_mem_nil _, hv⟩
      · rw [hv] at h
        rcases hrest : endpointsFor transport host bases rest with cause' | endpoints
        · rw [hrest] at h
          obtain rfl : cause' = cause := Except.error.inj h
          obtain ⟨front, u, back, rfl, hfront, hu⟩ := ih hrest
          exact ⟨v :: front, u, back, rfl, List.forall_mem_cons.mpr ⟨⟨endpoint, hv⟩, hfront⟩, hu⟩
        · rw [hrest] at h
          cases h
  · rintro ⟨front, u, back, rfl, hfront, hu⟩
    induction front with
    | nil =>
      rw [List.nil_append, endpointsFor, hu]
      rfl
    | cons v rest ih =>
      obtain ⟨⟨endpoint, hv⟩, hrest⟩ := List.forall_mem_cons.mp hfront
      rw [List.cons_append, endpointsFor, hv, ih hrest]
      rfl

/-- Why a node has no record: its query fails, or one of its neighbours has no receiver, the
first of them being the one to blame. -/
inductive Refuses (topology : Topology) (bases : BasePorts) (transport : Transport)
    (host : String) (v : NodeId) : ConfigureError → Prop
  | query {cause : TopologyError} (failed : topology.neighborsOf v = .error cause) :
    Refuses topology bases transport host v (.topology cause)
  | neighbor {front back : List NodeId} {u : NodeId} {cause : AllocationError}
    (listed : topology.neighborsOf v = .ok (front ++ u :: back))
    (before : ∀ x ∈ front, ∃ endpoint, Endpoint.forNode transport host bases x = .ok endpoint)
    (failed : Endpoint.forNode transport host bases u = .error cause) :
    Refuses topology bases transport host v (.allocation cause)

theorem configureNode_eq_error_iff (hfits : counters.bases.Fits counters.nextNode) :
    configureNode counters topology transport host = .error e ↔
      Refuses topology counters.bases transport host counters.nextNode e := by
  have hallocate := PortCounters.allocate_eq_ok_iff.mpr ⟨hfits, rfl⟩
  have hnode : (counters.bases.block counters.nextNode).node = counters.nextNode := rfl
  rw [configureNode, hallocate]
  simp only [hnode]
  constructor
  · intro h
    rcases hquery : topology.neighborsOf counters.nextNode with cause | neighbors
    · simp only [hquery] at h
      obtain rfl := Except.error.inj h
      exact .query hquery
    · simp only [hquery] at h
      rcases hends : endpointsFor transport host counters.bases neighbors with cause | endpoints
      · simp only [hends] at h
        obtain rfl := Except.error.inj h
        obtain ⟨front, u, back, rfl, hfront, hu⟩ := endpointsFor_eq_error_iff.mp hends
        exact .neighbor hquery hfront hu
      · simp only [hends] at h
        cases h
  · intro h
    cases h with
    | query failed => simp only [failed]
    | @neighbor front back u cause listed before failed =>
      have hends : endpointsFor transport host counters.bases (front ++ u :: back) =
          .error cause := endpointsFor_eq_error_iff.mpr ⟨front, u, back, rfl, before, failed⟩
      simp only [listed, hends]

/-- A record belongs to the next node, and the counters go on behind it. -/
theorem eq_of_configureNode_eq_ok
    (h : configureNode counters topology transport host = .ok (r, advanced)) :
    r.node = counters.nextNode ∧ advanced = ⟨counters.bases, counters.nextNode + 1⟩ := by
  rw [configureNode] at h
  rcases hallocate : counters.allocate with cause | ⟨ports, next⟩
  · simp only [hallocate] at h
    cases h
  simp only [hallocate] at h
  obtain ⟨-, hblock⟩ := PortCounters.allocate_eq_ok_iff.mp hallocate
  obtain ⟨rfl, rfl⟩ := Prod.mk.inj hblock
  rcases hquery : topology.neighborsOf (counters.bases.block counters.nextNode).node
    with cause | neighbors
  · simp only [hquery] at h
    cases h
  simp only [hquery] at h
  rcases hends : endpointsFor transport host counters.bases neighbors with cause | endpoints
  · simp only [hends] at h
    cases h
  simp only [hends] at h
  obtain ⟨rfl, rfl⟩ := Prod.mk.inj (Except.ok.inj h)
  exact ⟨rfl, rfl⟩

/-- Derives the records of some nodes in a row, handing the counters on from one to the next. -/
def configureMany (topology : Topology) (transport : Transport) (host : String) :
    (count : Nat) → PortCounters → Except ConfigureError (List NodeRecord × PortCounters)
  | 0, counters => .ok ([], counters)
  | count + 1, counters => do
    let (record, advanced) ← configureNode counters topology transport host
    let (records, last) ← configureMany topology transport host count advanced
    return (record :: records, last)

theorem configureMany_succ {count : Nat} {records : List NodeRecord} {last : PortCounters}
    (hnode : configureNode counters topology transport host = .ok (r, advanced))
    (hrest : configureMany topology transport host count advanced = .ok (records, last)) :
    configureMany topology transport host (count + 1) counters = .ok (r :: records, last) := by
  rw [configureMany, hnode]
  simp only [bind, Except.bind, hrest]
  rfl

namespace Configurator

variable {c next : Configurator} {items : List (Except ConfigureError NodeRecord)}

/-! ### Pulls in a row -/

/-- The configurator after a number of pulls. -/
def after (c : Configurator) (count : Nat) : Configurator :=
  (fun c : Configurator => c.pull.2)^[count] c

/-- The items come one with each pull, and nothing comes after them.  The next node goes on with
the records that came and stays at an error; what is still to come is never more than the upper
bound, which counts the nodes left until an error came. -/
structure Delivers (c : Configurator) (items : List (Except ConfigureError NodeRecord)) :
    Prop where
  pull : ∀ k, (c.after k).pull.1 = items[k]?
  nextNode : ∀ k, (c.after k).nextNode = c.nextNode + (items.take k).countP Except.isOk
  sizeHint : ∀ k, (c.after k).sizeHint =
    (0, if (items.take k).all Except.isOk then c.numNodes - (c.after k).nextNode else 0)
  length_le : ∀ k, (items.drop k).length ≤ (c.after k).sizeHint.2

theorem after_of_pull_eq_none (h : c.pull = (none, c)) (k : Nat) : c.after k = c :=
  Function.iterate_fixed (congrArg Prod.snd h) k

theorem after_succ (h : c.pull.2 = next) (k : Nat) : c.after (k + 1) = next.after k :=
  h ▸ rfl

theorem pull_of_failed (h : c.failed = true) : c.pull = (none, c) := by
  rw [pull, h, Bool.true_or, if_pos rfl]

theorem pull_of_error (hfailed : c.failed = false) (hnext : c.nextNode < c.numNodes)
    (h : configureNode c.counters c.topology c.transport c.host = .error e) :
    c.pull = (some (.error e), { c with failed := true }) := by
  rw [pull, hfailed, Bool.false_or, if_neg (by simpa using hnext), h]

theorem pull_of_ok (hfailed : c.failed = false) (hnext : c.nextNode < c.numNodes)
    (h : configureNode c.counters c.topology c.transport c.host = .ok (r, advanced)) :
    c.pull = (some (.ok r), { c with counters := advanced }) := by
  rw [pull, hfailed, Bool.false_or, if_neg (by simpa using hnext), h]

/-- A run at its end delivers nothing. -/
theorem delivers_nil (hfailed : c.failed = false) (hend : c.numNodes ≤ c.nextNode) :
    c.Delivers [] := by
  have hpull : c.pull = (none, c) := by
    rw [pull, hfailed, Bool.false_or, if_pos (by simpa using hend)]
  have hafter := after_of_pull_eq_none hpull
  refine ⟨fun k => ?_, fun k => ?_, fun k => ?_, fun k => ?_⟩
  · rw [hafter, hpull]
    rfl
  · rw [hafter, List.take_nil, List.countP_nil, Nat.add_zero]
  · rw [hafter, Configurator.sizeHint, hfailed]
    simp
  · rw [List.drop_nil]
    exact Nat.zero_le _

/-- A run that fails delivers its error and ends with it. -/
theorem delivers_error (hfailed : c.failed = false) (hnext : c.nextNode < c.numNodes)
    (hpull : c.pull = (some (.error e), { c with failed := true })) :
    c.Delivers [.error e] := by
  have hstop : ({ c with failed := true } : Configurator).pull = (none, { c with failed := true }) :=
    pull_of_failed rfl
  have hafter : ∀ k, c.after (k + 1) = { c with failed := true } := fun k => by
    rw [after_succ (congrArg Prod.snd hpull), after_of_pull_eq_none hstop]
  refine ⟨fun k => ?_, fun k => ?_, fun k => ?_, fun k => ?_⟩ <;> rcases k with _ | k
  · exact congrArg Prod.fst hpull
  · rw [hafter, hstop]
    rfl
  · rfl
  · rw [hafter]
    simp [Configurator.nextNode, Except.isOk, Except.toBool]
  · show c.sizeHint = _
    rw [Configurator.sizeHint, hfailed]
    rfl
  · rw [hafter]
    simp [Configurator.sizeHint, Except.isOk, Except.toBool]
  · show 1 ≤ c.sizeHint.2
    rw [Configurator.sizeHint, hfailed]
    exact Nat.sub_pos_of_lt hnext
  · rw [List.drop_succ_cons, List.drop_nil]
    exact Nat.zero_le _

/-- A run that delivers a record goes on with what the run behind that node delivers. -/
theorem delivers_cons (hfailed : c.failed = false) (hnext : c.nextNode < c.numNodes)
    (hpull : c.pull = (some (.ok r), next)) (hnode : next.nextNode = c.nextNode + 1)
    (hcount : next.numNodes = c.numNodes) (hfailed' : next.failed = false)
    (h : next.Delivers items) : c.Delivers (.ok r :: items) := by
  have hafter : ∀ k, c.after (k + 1) = next.after k := after_succ (congrArg Prod.snd hpull)
  refine ⟨fun k => ?_, fun k => ?_, fun k => ?_, fun k => ?_⟩ <;> rcases k with _ | k
  · exact congrArg Prod.fst hpull
  · rw [hafter, h.pull]
    rfl
  · rfl
  · rw [hafter, h.nextNode, hnode, List.take_succ_cons, List.countP_cons_of_pos rfl,
      Nat.add_assoc, Nat.add_comm 1]
  · show c.sizeHint = _
    rw [Configurator.sizeHint, hfailed]
    rfl
  · rw [hafter, h.sizeHint, hcount, List.take_succ_cons, List.all_cons]
    rfl
  · -- One node more is left than behind the record.
    have hlength : items.length ≤ next.numNodes - next.nextNode := by
      have hrest := h.length_le 0
      rw [List.drop_zero] at hrest
      have hhint : (next.after 0).sizeHint.2 = next.numNodes - next.nextNode := by
        show next.sizeHint.2 = _
        rw [Configurator.sizeHint, hfailed']
        rfl
      rwa [hhint] at hrest
    rw [hcount, hnode] at hlength
    have hmore : ∀ a b n : Nat, b < a → n ≤ a - (b + 1) → n + 1 ≤ a - b := by omega
    show items.length + 1 ≤ c.sizeHint.2
    rw [Configurator.sizeHint, hfailed]
    exact hmore _ _ _ hnext hlength
  · rw [hafter, List.drop_succ_cons]
    exact h.length_le k

/-! ### The items of a run -/

/-- The items of a run: its records, and the error that ends it if there is one. -/
def itemsOf (records : List NodeRecord) (failure : Option ConfigureError) :
    List (Except ConfigureError NodeRecord) :=
  records.map .ok ++ failure.toList.map .error

/-- The records that a run derives, one a node, and why it ends before its last node if it
does: a node that has no record, all before it having one. -/
structure Derives (c : Configurator) (records : List NodeRecord)
    (failure : Option ConfigureError) : Prop where
  configureMany_eq : configureMany c.topology c.transport c.host records.length c.counters =
    .ok (records, ⟨c.counters.bases, c.nextNode + records.length⟩)
  map_node : records.map NodeRecord.node = List.range' c.nextNode records.length
  not_refuses : ∀ v, c.nextNode ≤ v → v < c.nextNode + records.length →
    ∀ e, ¬Refuses c.topology c.counters.bases c.transport c.host v e
  length_of_none : failure = none → c.nextNode + records.length = c.numNodes
  refuses_of_some : ∀ e, failure = some e → c.nextNode + records.length < c.numNodes ∧
    Refuses c.topology c.counters.bases c.transport c.host (c.nextNode + records.length) e

theorem derives_cons {records : List NodeRecord} {failure : Option ConfigureError}
    (hfits : c.counters.bases.Fits c.nextNode)
    (hconfigure : configureNode c.counters c.topology c.transport c.host = .ok (r, advanced))
    (h : Derives { c with counters := advanced } records failure) :
    c.Derives (r :: records) failure := by
  obtain ⟨hnode, rfl⟩ := eq_of_configureNode_eq_ok hconfigure
  have hnext : Configurator.nextNode { c with
      counters := ⟨c.counters.bases, c.counters.nextNode + 1⟩ } = c.nextNode + 1 := rfl
  have hshift : ∀ n, c.nextNode + 1 + n = c.nextNode + (n + 1) := fun n => by
    rw [Nat.add_assoc, Nat.add_comm 1]
  obtain ⟨hmany, hnodes, hanswered, hnone, hsome⟩ := h
  rw [hnext] at hmany hnodes hanswered hnone hsome
  refine ⟨?_, ?_, ?_, ?_, ?_⟩
  · rw [List.length_cons, ← hshift]
    exact configureMany_succ hconfigure hmany
  · rw [List.map_cons, hnodes, List.length_cons, List.range'_succ, hnode]
    rfl
  · intro v hv hlt e hrefuses
    rcases Nat.eq_or_lt_of_le hv with rfl | hgt
    · -- The node of the record is not refused, for it has one.
      have herror := (configureNode_eq_error_iff hfits).mpr hrefuses
      rw [hconfigure] at herror
      cases herror
    · rw [List.length_cons, ← hshift] at hlt
      exact hanswered v hgt hlt e hrefuses
  · intro hfailure
    rw [List.length_cons, ← hshift]
    exact hnone hfailure
  · intro e hfailure
    rw [List.length_cons, ← hshift]
    exact hsome e hfailure

/-- **A run delivers what it derives.**  The induction is on the nodes still to come; pulling a
record advances the counters, so the configurator varies with them. -/
theorem exists_delivers (count : Nat) :
    ∀ {c : Configurator}, c.failed = false → (∀ v < c.numNodes, c.counters.bases.Fits v) →
      c.nextNode + count = c.numNodes →
        ∃ records failure, c.Derives records failure ∧ c.Delivers (itemsOf records failure) := by
  induction count with
  | zero =>
    intro c hfailed _ hcount
    refine ⟨[], none, ⟨rfl, rfl, ?_, fun _ => hcount, nofun⟩,
      delivers_nil hfailed (Nat.le_of_eq hcount.symm)⟩
    intro v hv hlt
    exact absurd hlt (Nat.not_lt.mpr hv)
  | succ count ih =>
    intro c hfailed hfits hcount
    have hnext : c.nextNode < c.numNodes := hcount ▸ Nat.lt_add_of_pos_right count.succ_pos
    rcases hconfigure : configureNode c.counters c.topology c.transport c.host
      with e | ⟨r, advanced⟩
    · have hpull := pull_of_error hfailed hnext hconfigure
      have hrefuses := (configureNode_eq_error_iff (hfits _ hnext)).mp hconfigure
      refine ⟨[], some e, ⟨rfl, rfl, ?_, nofun, ?_⟩, delivers_error hfailed hnext hpull⟩
      · intro v hv hlt
        exact absurd hlt (Nat.not_lt.mpr hv)
      · intro e' he
        obtain rfl := Option.some.inj he
        exact ⟨hnext, hrefuses⟩
    · have hpull := pull_of_ok hfailed hnext hconfigure
      obtain ⟨-, hadvanced⟩ := eq_of_configureNode_eq_ok hconfigure
      have hbehind : Configurator.nextNode { c with counters := advanced } = c.nextNode + 1 := by
        rw [hadvanced]
        rfl
      have hbases : ∀ v < c.numNodes, advanced.bases.Fits v := hadvanced ▸ hfits
      have hadvance : (c.nextNode + 1) + count = c.numNodes := by
        rw [Nat.add_assoc, Nat.add_comm 1]
        exact hcount
      obtain ⟨records, failure, hderives, hdelivers⟩ :=
        ih (c := { c with counters := advanced }) hfailed hbases (hbehind ▸ hadvance)
      exact ⟨r :: records, failure, derives_cons (hfits _ hnext) hconfigure hderives,
        delivers_cons hfailed hnext hpull hbehind rfl hfailed hdelivers⟩

/-- **Which runs start, and what they deliver.**  A run starts exactly if the topology claims the
requested nodes and the port ranges hold them, the claim being looked at first.  It delivers the
records of the nodes in order, those that handing the counters on by hand gives, up to the first
node without one; that node's error ends it. -/
theorem start_delivers (numNodes : Nat) (bases : BasePorts) (topology : Topology)
    (transport : Transport) (host : String) :
    (topology.numNodes ≠ numNodes → start numNodes bases topology transport host =
      .error (.nodeCountMismatch numNodes topology.numNodes)) ∧
    ((∃ c, start numNodes bases topology transport host = .ok c) ↔
      topology.numNodes = numNodes ∧ bases.checkCapacity numNodes = .ok ()) ∧
    ∀ c, start numNodes bases topology transport host = .ok c →
      c.nextNode = 0 ∧ c.numNodes = numNodes ∧ ∃ records failure,
        configureMany topology transport host records.length (.start bases) =
          .ok (records, ⟨bases, records.length⟩) ∧
        records.map NodeRecord.node = List.range records.length ∧
        (∀ v < records.length, ∀ e, ¬Refuses topology bases transport host v e) ∧
        (failure = none → records.length = numNodes) ∧
        (∀ e, failure = some e → records.length < numNodes ∧
          Refuses topology bases transport host records.length e) ∧
        c.Delivers (itemsOf records failure) := by
  have hmismatch : topology.numNodes ≠ numNodes →
      start numNodes bases topology transport host =
        .error (.nodeCountMismatch numNodes topology.numNodes) := by
    intro hne
    rw [start, if_pos hne]
  have hstart : ∀ c, start numNodes bases topology transport host = .ok c →
      topology.numNodes = numNodes ∧ bases.checkCapacity numNodes = .ok () ∧
        c = ⟨topology, .start bases, numNodes, transport, host, false⟩ := by
    intro c hc
    have hnodes : topology.numNodes = numNodes := by
      by_contra hne
      rw [hmismatch hne] at hc
      cases hc
    rcases hcapacity : bases.checkCapacity numNodes with cause | ⟨⟩
    · rw [start, if_neg (by simpa using hnodes), hcapacity] at hc
      cases hc
    · rw [start_eq_ok transport host hnodes hcapacity] at hc
      exact ⟨hnodes, rfl, (Except.ok.inj hc).symm⟩
  refine ⟨hmismatch, ⟨?_, ?_⟩, ?_⟩
  · rintro ⟨c, hc⟩
    obtain ⟨hnodes, hcapacity, -⟩ := hstart c hc
    exact ⟨hnodes, hcapacity⟩
  · rintro ⟨hnodes, hcapacity⟩
    exact ⟨_, start_eq_ok transport host hnodes hcapacity⟩
  · intro c hc
    obtain ⟨-, hcapacity, rfl⟩ := hstart c hc
    obtain ⟨records, failure, hderives, hdelivers⟩ :=
      exists_delivers numNodes (c := ⟨topology, .start bases, numNodes, transport, host, false⟩)
        rfl (fun v hv => BasePorts.fits_of_checkCapacity hcapacity hv) (Nat.zero_add numNodes)
    obtain ⟨hmany, hnodes, hanswered, hnone, hsome⟩ := hderives
    simp only [nextNode, PortCounters.start, Nat.zero_add] at hmany hnodes hanswered hnone hsome
    refine ⟨rfl, rfl, records, failure, hmany, ?_, fun v hv => hanswered v v.zero_le hv, hnone,
      hsome, hdelivers⟩
    rw [hnodes, List.range_eq_range']

/-- Four nodes, the third of which lists a neighbour beyond the port range. -/
def straying : Topology :=
  .ofAdjacency #[[1], [0], [0, 40000], [0]]

/-- Two records are delivered, and then the error of the third node. -/
theorem start_delivers_straying :
    ∃ c records e, start 4 {} straying .tcp "127.0.0.1" = .ok c ∧ records.length = 2 ∧
      c.Delivers (itemsOf records (some e)) := by
  obtain ⟨-, hstarts, hdelivers⟩ := start_delivers 4 {} straying .tcp "127.0.0.1"
  obtain ⟨c, hc⟩ := hstarts.mpr ⟨rfl, rfl⟩
  obtain ⟨-, -, records, failure, -, -, hanswered, hnone, hsome, hitems⟩ := hdelivers c hc
  have hcapacity : BasePorts.checkCapacity {} 4 = .ok () := rfl
  have hfits : ∀ v : Nat, v < 4 → BasePorts.Fits (PortCounters.mk {} v).bases v := fun v hv =>
    BasePorts.fits_of_checkCapacity hcapacity hv
  have hthird : Refuses straying {} .tcp "127.0.0.1" 2
      (.allocation (.rangeExhausted .tcpReceiver 34000 40000)) :=
    (configureNode_eq_error_iff (hfits 2 (by decide))).mp rfl
  have hbefore : ∀ v : Nat, v < 2 → ∀ e, ¬Refuses straying {} .tcp "127.0.0.1" v e := by
    intro v hv e hrefuses
    have herror := (configureNode_eq_error_iff (hfits v (by omega))).mpr hrefuses
    obtain rfl | rfl : v = 0 ∨ v = 1 := by omega
    · cases herror
    · cases herror
  have hle : ¬2 < records.length := fun hlt => hanswered 2 hlt _ hthird
  rcases failure with _ | e
  · have hall := hnone rfl
    omega
  · obtain ⟨-, hrefuses⟩ := hsome e rfl
    have hge : ¬records.length < 2 := fun hlt => hbefore _ hlt e hrefuses
    exact ⟨c, records, e, hc, by omega, hitems⟩

end Configurator

end PeerOverlay
