/-
The options of the command line.

An `OptionName` has a long spelling, perhaps a letter, and a `ValueKind` if it takes a
value.  The readers below take the text of a value; a kind accepts exactly the texts that
its reader reads.
-/
import PeerOverlay.Artifact.FileName
import PeerOverlay.Endpoint
import PeerOverlay.Number.DecimalText

namespace PeerOverlay.CommandLine

open PeerOverlay.Text

/-- An option. -/
inductive OptionName
  | help
  | version
  | logLevel
  | config
  | numNodes
  | k
  | p
  | seed
  | apiPortStart
  | udpReceiverPortStart
  | tcpReceiverPortStart
  | zmqIpcStart
  | zmqPortStart
  | host
  | transport
  | output
  | format
  | overwrite
  | dir
deriving DecidableEq, Repr

/-- What the value of an option is. -/
inductive ValueKind
  | text
  | path
  | size
  | seed
  | port
  | index
  | decimal
  | transport
  | format
deriving DecidableEq, Repr

/-- Reads a number up to `limit`; a plus sign may stand in front. -/
def number? (limit : Nat) (text : String) : Option Nat :=
  let digits :=
    match text.toList with
    | '+' :: rest => rest
    | cs => cs
  (Text.number? digits).filter (· ≤ limit)

/-- Reads a number up to `limit`; any sign may stand in front of a zero. -/
def signedNumber? (limit : Nat) (text : String) : Option Nat :=
  match text.toList with
  | '-' :: digits => (Text.number? digits).filter (· = 0)
  | _ => number? limit text

/-- Reads a number of nodes or neighbours. -/
def size? (text : String) : Option Nat :=
  number? (UInt64.size - 1) text

/-- Reads a seed. -/
def seed? (text : String) : Option UInt64 :=
  (number? (UInt64.size - 1) text).map UInt64.ofNat

/-- Reads a port. -/
def port? (text : String) : Option UInt16 :=
  (signedNumber? (UInt16.size - 1) text).map UInt16.ofNat

/-- Reads an index of an interprocess channel. -/
def index? (text : String) : Option UInt32 :=
  (signedNumber? (UInt32.size - 1) text).map UInt32.ofNat

/-- Reads a decimal number. -/
def decimal? (text : String) : Option Binary64 :=
  Binary64.ofText? text.toList

/-- Whether a text is a value of a kind. -/
def ValueKind.accepts : ValueKind → String → Bool
  | .text, _ => true
  | .path, s => s ≠ ""
  | .size, s => (size? s).isSome
  | .seed, s => (seed? s).isSome
  | .port, s => (port? s).isSome
  | .index, s => (index? s).isSome
  | .decimal, s => (decimal? s).isSome
  | .transport, s => (Transport.ofName? s).isSome
  | .format, s => (ArtifactFormat.ofName? s).isSome

namespace OptionName

/-- The long spelling, without its hyphens. -/
def long : OptionName → String
  | help => "help"
  | version => "version"
  | logLevel => "log-level"
  | config => "config"
  | numNodes => "num-nodes"
  | k => "k"
  | p => "p"
  | seed => "seed"
  | apiPortStart => "api-port-start"
  | udpReceiverPortStart => "udp-receiver-port-start"
  | tcpReceiverPortStart => "tcp-receiver-port-start"
  | zmqIpcStart => "zmq-ipc-start"
  | zmqPortStart => "zmq-port-start"
  | host => "host"
  | transport => "transport"
  | output => "output"
  | format => "format"
  | overwrite => "overwrite"
  | dir => "dir"

/-- The letter of an option. -/
def letter? : OptionName → Option Char
  | help => some 'h'
  | version => some 'V'
  | config => some 'c'
  | k => some 'k'
  | p => some 'p'
  | output => some 'o'
  | _ => none

/-- What an option takes as its value, if it takes one. -/
def kind? : OptionName → Option ValueKind
  | help | version | overwrite => none
  | logLevel | host => some .text
  | config | output | dir => some .path
  | numNodes | k => some .size
  | p => some .decimal
  | seed => some .seed
  | apiPortStart | udpReceiverPortStart | tcpReceiverPortStart | zmqPortStart => some .port
  | zmqIpcStart => some .index
  | transport => some .transport
  | format => some .format

end OptionName

end PeerOverlay.CommandLine
