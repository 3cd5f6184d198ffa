/-
The layout of a node artifact.

`nodeLayout` fixes the order of all lines: static settings with their built-in values,
one comment, and six lines whose values belong to the node.
-/
import PeerOverlay.Record

namespace PeerOverlay

/-- The values that differ from node to node. -/
inductive NodeField
  | apiPort
  | udpReceiverPort
  | tcpReceiverPort
  | neighbors
  | zmqIpc
  | zmqPort
deriving DecidableEq, Repr

namespace NodeField

/-- All fields, in the order of the layout. -/
def all : List NodeField :=
  [apiPort, udpReceiverPort, tcpReceiverPort, neighbors, zmqIpc, zmqPort]

/-- The key that a field is written under. -/
def key : NodeField → String
  | apiPort => "API_PORT"
  | udpReceiverPort => "UDP_RECEIVER_PORT"
  | tcpReceiverPort => "TCP_RECEIVER_PORT"
  | neighbors => "NEIGHBORS"
  | zmqIpc => "ZMQ_IPC"
  | zmqPort => "ZMQ_PORT"

end NodeField

/-- The keys of the per-node values; no setting may take them. -/
def reservedKeys : List String :=
  NodeField.all.map NodeField.key

/-- One line of the layout. -/
inductive LayoutLine
  /-- A static setting and its built-in value. -/
  | static (key value : String)
  /-- A line that is written as it stands. -/
  | comment (text : String)
  /-- A value of the node. -/
  | perNode (field : NodeField)
deriving DecidableEq, Repr

/-- The lines of a node artifact in order. -/
def nodeLayout : List LayoutLine :=
  [ .perNode .apiPort,
    .static "API_HOST" "localhost",
    .static "REMOTE_LIMIT_API"
      "addNeighbors, getNeighbors, removeNeighbors, attachToTangle, interruptAttachingToTangle",
    .static "MAX_FIND_TRANSACTIONS" "100_000",
    .static "MAX_REQUESTS_LIST" "1_000",
    .static "MAX_GET_BYTES" "10_000",
    .static "MAX_BODY_LENGTH" "1_000_000",
    .comment "#REMOTE_AUTH =",
    .static "MS_DELAY" "0",
    .perNode .udpReceiverPort,
    .perNode .tcpReceiverPort,
    .perNode .neighbors,
    .static "P_REMOVE_REQUEST" "0.01",
    .static "SEND_LIMIT" "-1",
    .static "MAX_PEERS" "0",
    .static "DNS_REFRESHER_ENABLED" "true",
    .static "DNS_RESOLUTION_ENABLED" "true",
    .static "HXI_DIR" "hxi",
    .static "DB_PATH" "mainnetdb",
    .static "DB_LOG_PATH" "mainnet.log",
    .static "DB_CACHE_SIZE" "100_000",
    .static "ROCKS_DB" "rocksdb",
    .static "REVALIDATE" "false",
    .static "RESCAN_DB" "false",
    .static "P_REPLY_RANDOM_TIP" "0.66",
    .static "P_DROP_TRANSACTION" "0.0",
    .static "P_SELECT_MILESTONE_CHILD" "0.7",
    .static "P_SEND_MILESTONE" "0.02",
    .static "P_PROPAGATE_REQUEST" "0.01",
    .static "MWM" "1",
    .static "PACKET_SIZE" "1200",
    .static "REQ_HASH_SIZE" "32",
    .static "QUEUE_SIZE" "1_000",
    .static "P_DROP_CACHE_ENTRY" "0.02",
    .static "CACHE_SIZE_BYTES" "150_000",
    .static "ZMQ_THREADS" "1",
    .perNode .zmqIpc,
    .static "ZMQ_ENABLED" "false",
    .perNode .zmqPort,
    .static "GRAPH_ENABLED" "false",
    .static "MAX_DEPTH" "15",
    .static "ALPHA" "0.001",
    .static "TIP_SOLIDIFIER_ENABLED" "true",
    .static "POW_THREADS" "0",
    .static "COORDINATOR_ADDRESS"
      "6a8413edc634e948e3446806afde11b17e0e188faf80a59a8b1147a0600cc5db",
    .static "LOCAL_SNAPSHOTS_ENABLED" "true",
    .static "LOCAL_SNAPSHOTS_PRUNING_ENABLED" "true",
    .static "LOCAL_SNAPSHOTS_PRUNING_DELAY" "50000",
    .static "LOCAL_SNAPSHOTS_INTERVAL_SYNCED" "10",
    .static "LOCAL_SNAPSHOTS_INTERVAL_UNSYNCED" "1000",
    .static "LOCAL_SNAPSHOTS_BASE_PATH" "mainnet",
    .static "LOCAL_SNAPSHOTS_DEPTH" "100",
    .static "SNAPSHOT_FILE" "/snapshotMainnet.txt",
    .static "SNAPSHOT_SIG_FILE" "/snapshotMainnet.sig",
    .static "PREVIOUS_EPOCHS_SPENT_ADDRESSES_TXT" "/previousEpochsSpentAddresses.txt",
    .static "PREVIOUS_EPOCHS_SPENT_ADDRESSES_SIG" "/previousEpochsSpentAddresses.sig",
    .static "GLOBAL_SNAPSHOT_TIME" "1522235533",
    .static "MILESTONE_START_INDEX" "0",
    .static "NUM_KEYS_IN_MILESTONE" "10",
    .static "MAX_ANALYZED_TXS" "20_000",
    .static "SAVELOG" "true",
    .static "SAVELOG_BASE_PATH" "logs/",
    .static "SAVELOG_XML_FILE" "/logback-save.xml" ]

/-- The static settings of the layout with their built-in values. -/
def staticSettings : List (String × String) :=
  nodeLayout.filterMap fun
    | .static key value => some (key, value)
    | _ => none

/-- The keys of the static settings. -/
def staticKeys : List String :=
  staticSettings.map Prod.fst

end PeerOverlay
