/-
Endpoints: transport, host and port of a node's receiver.

An endpoint is written `transport://host:port`, with an IPv6 host in square brackets.
`Endpoint.parse` reads that form; `Endpoint.forNode` computes the endpoint of a node
from the shared TCP base, and `Endpoint.nodeId?` recovers the node from the port.

Design notes: neither a port nor a host outside brackets holds a colon, so the last
colon of the text separates the two, and reading needs no search.
-/
import PeerOverlay.Host
import PeerOverlay.Ports.Basic

namespace PeerOverlay

open PeerOverlay.Text

/-- How a neighbour is reached. -/
inductive Transport
  | tcp
  | udp
deriving DecidableEq, Repr

namespace Transport

/-- The name of a transport, as endpoints show it. -/
def name : Transport → String
  | tcp => "tcp"
  | udp => "udp"

/-- All transports. -/
def all : List Transport :=
  [tcp, udp]

/-- The transport of a given name. -/
def ofName? (name : String) : Option Transport :=
  all.find? fun t => t.name = name

end Transport

/-- Why a text is not an endpoint. -/
inductive EndpointError
  | malformed (text : String)
  | unknownTransport (name : String)
  | invalidPort (text : String)
deriving DecidableEq, Repr

/-- The sentence that reports the error. -/
def EndpointError.message : EndpointError → String
  | .malformed text => "malformed endpoint '" ++ text ++ "'"
  | .unknownTransport name => "unknown transport '" ++ name ++ "'"
  | .invalidPort text => "port out of range in endpoint '" ++ text ++ "'"

/-- Reads the name of a transport. -/
def Transport.parse (name : String) : Except EndpointError Transport :=
  match Transport.ofName? name with
  | some t => .ok t
  | none => .error (.unknownTransport name)

/-- The network address of a node's receiver; an IPv6 host is held without brackets. -/
structure Endpoint where
  transport : Transport
  host : String
  port : UInt16
deriving DecidableEq, Repr

namespace Endpoint

/-- The receiver of a node: its port is the TCP base plus the node number. -/
def forNode (transport : Transport) (host : String) (bases : BasePorts) (node : NodeId) :
    Except AllocationError Endpoint :=
  (bases.valueFor .tcpReceiver node).map fun port => ⟨transport, host, UInt16.ofNat port⟩

/-- The node whose receiver an endpoint is, unless its port lies below the TCP base. -/
def nodeId? (e : Endpoint) (bases : BasePorts) : Option NodeId :=
  if bases.tcp ≤ e.port then some (e.port.toNat - bases.tcp.toNat) else none

/-- The host as the written form shows it: an IPv6 address stands in brackets. -/
def shownHost (host : String) : String :=
  if Host.isIpv6 host.toList then "[" ++ host ++ "]" else host

/-- The written form of an endpoint. -/
def text (e : Endpoint) : String :=
  e.transport.name ++ "://" ++ shownHost e.host ++ ":" ++ String.ofList (numeral e.port.toNat)

/-- A character of a host outside brackets. -/
def isNameChar (c : Char) : Bool :=
  isAsciiAlnum c || c = '.' || c = '-'

/-- A character of a host inside brackets. -/
def isBracketedChar (c : Char) : Bool :=
  isHexDigit c || c = ':'

/-- The host of a written form, without its brackets. -/
def host? (cs : List Char) : Option (List Char) :=
  match cs with
  | '[' :: inner =>
    let body := inner.dropLast
    if inner.getLast? = some ']' ∧ body ≠ [] ∧ body.all isBracketedChar then some body else none
  | _ => if cs ≠ [] ∧ cs.all isNameChar then some cs else none

/-- Splits a text at its last colon. -/
def splitAtLastColon? (cs : List Char) : Option (List Char × List Char) :=
  let reversed := cs.reverse
  match reversed.dropWhile (· ≠ ':') with
  | [] => none
  | _ :: front => some (front.reverse, (reversed.takeWhile (· ≠ ':')).reverse)

/-- The parts of a written form: the name of the transport, the host without brackets and
the digits of the port. -/
structure Parts where
  transport : List Char
  host : List Char
  port : List Char
deriving DecidableEq, Repr

/-- A run of lower-case letters, `://`, a host, a colon, and one to five decimal digits. -/
def parts? (cs : List Char) : Option Parts :=
  let transport := cs.takeWhile Char.isLower
  match cs.dropWhile Char.isLower with
  | ':' :: '/' :: '/' :: rest =>
    match splitAtLastColon? rest with
    | some (before, port) =>
      match host? before with
      | some host =>
        if transport ≠ [] ∧ 1 ≤ port.length ∧ port.length ≤ 5 ∧ port.all isDecimalDigit then
          some ⟨transport, host, port⟩
        else none
      | none => none
    | none => none
  | _ => none

/-- The port that a run of digits stands for: ASCII digits, at most 65535. -/
def port? (digits : List Char) : Option UInt16 :=
  ((number? digits).filter (· < UInt16.size)).map UInt16.ofNat

/-- Reads the written form of an endpoint; blanks around it are ignored. -/
def parse (s : String) : Except EndpointError Endpoint :=
  match parts? (trim s.toList) with
  | none => .error (.malformed s)
  | some parts =>
    match Transport.parse (String.ofList parts.transport) with
    | .error e => .error e
    | .ok transport =>
      match port? parts.port with
      | some port => .ok ⟨transport, String.ofList parts.host, port⟩
      | none => .error (.invalidPort s)

end Endpoint

end PeerOverlay
