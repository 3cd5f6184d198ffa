/-
From tokens to a document.

`Document.ofText` reads the first document of a text.  Each reader below answers a node
and the state after it; no state means that the text stopped being YAML inside the node,
which then holds a fault at that place.

Design notes: every reader either takes a token or hands over to one that does, so the
number of tokens bounds the depth of the recursion.
-/
import PeerOverlay.Yaml.Lexer
import PeerOverlay.Yaml.Node

namespace PeerOverlay.Yaml

/-- The tokens that are still to be read, and what the document has declared so far. -/
structure Reader where
  tokens : List Token
  /-- Tag handles and what they stand for. -/
  handles : List (List Char × Tag)
  /-- Anchor names and the number of the latest anchor of each. -/
  anchors : List (List Char × Nat)

namespace Reader

/-- The next token; past the last one there is only a fault. -/
def head (r : Reader) : Token :=
  r.tokens.headD .fault

/-- Passes the next token. -/
def pass (r : Reader) : Reader :=
  { r with tokens := r.tokens.tail }

/-- Declares an anchor; its number counts the names declared before it. -/
def declare (r : Reader) (name : List Char) : Nat × Reader :=
  (r.anchors.length,
    { r with anchors := (name, r.anchors.length) :: r.anchors.filter (·.1 ≠ name) })

end Reader

/-- A node or a list of nodes, and the state after it unless it ends in a fault. -/
abbrev Partial (α : Type) := α × Option Reader

/-- The anchor and the tag in front of a node. -/
structure Properties where
  anchor : Option (List Char) := none
  tag : Option (List Char × Tag) := none

/-- Reads the properties of a node: at most one anchor and one tag, in either order. -/
def properties (r : Reader) : Properties × Reader :=
  match r.head with
  | .anchor name =>
    match r.pass.head with
    | .tag handle suffix => (⟨some name, some (handle, suffix)⟩, r.pass.pass)
    | _ => (⟨some name, none⟩, r.pass)
  | .tag handle suffix =>
    match r.pass.head with
    | .anchor name => (⟨some name, some (handle, suffix)⟩, r.pass.pass)
    | _ => (⟨none, some (handle, suffix)⟩, r.pass)
  | _ => ({}, r)

/-- The whole tag: what its handle stands for and its suffix.  It fails on an unknown
handle. -/
def wholeTag? (r : Reader) : Option (List Char × Tag) → Option (Option Tag)
  | none => some none
  | some ([], suffix) => some (some suffix)
  | some (handle, suffix) => (r.handles.lookup handle).map fun stem => some (stem.append suffix)

/-- Declares the anchor of a node, if it has one. -/
def declareAnchor (r : Reader) : Option (List Char) → Option Nat × Reader
  | none => (none, r)
  | some name =>
    let (number, r) := r.declare name
    (some number, r)

/-- Whether a token ends the value or key that might stand in front of it. -/
def endsBlockPart (t : Token) : Bool :=
  t = .key || t = .value || t = .blockEnd

/-- Whether a token ends a part of an entry of a flow collection that `closing` ends. -/
def endsFlowPart (closing t : Token) : Bool :=
  t = .flowEntry || t = closing

mutual

/-- Reads a node.  Block collections are allowed if `block` is set, and sequences that are
not indented if `flat` is. -/
def readNode (block flat : Bool) : (fuel : Nat) → Reader → Partial Node
  | 0, _ => (.fault, none)
  | fuel + 1, r =>
    match r.head with
    | .alias name =>
      match r.anchors.lookup name with
      | some number => (.alias number, some r.pass)
      | none => (.fault, none)
    | _ =>
      let (props, r) := properties r
      match wholeTag? r props.tag with
      | none => (.fault, none)
      | some tag => readContent block flat props tag fuel r

/-- Reads what follows the properties of a node. -/
def readContent (block flat : Bool) (props : Properties) (tag : Option Tag) :
    (fuel : Nat) → Reader → Partial Node
  | 0, _ => (.fault, none)
  | fuel + 1, r =>
    let (anchor, declared) := declareAnchor r props.anchor
    let absent : Partial Node :=
      if props.anchor.isSome || tag.isSome then (.scalar anchor tag .plain "", some declared)
      else (.fault, none)
    match r.head with
    | .scalar text style =>
      (.scalar anchor tag style (String.ofList text), some declared.pass)
    | .flowSequenceStart =>
      let (items, after) := readFlowItems true fuel declared.pass
      (.sequence anchor tag items, after)
    | .flowMappingStart =>
      let (entries, after) := readFlowEntries true fuel declared.pass
      (.mapping anchor tag entries, after)
    | .blockEntry =>
      if flat then
        let (items, after) := readFlatItems fuel declared
        (.sequence anchor tag items, after)
      else absent
    | .blockSequenceStart =>
      if block then
        let (items, after) := readBlockItems fuel declared.pass
        (.sequence anchor tag items, after)
      else absent
    | .blockMappingStart =>
      if block then
        let (entries, after) := readBlockEntries fuel declared.pass
        (.mapping anchor tag entries, after)
      else absent
    | .fault => (.fault, none)
    | _ => absent

/-- Reads the items of an indented sequence and its end. -/
def readBlockItems : (fuel : Nat) → Reader → Partial (List Node)
  | 0, _ => ([.fault], none)
  | fuel + 1, r =>
    match r.head with
    | .blockEntry =>
      let r := r.pass
      match r.head with
      | .fault => ([.fault], none)
      | t =>
        let (item, after) :=
          if t = .blockEntry || t = .blockEnd then (Node.empty, some r)
          else readNode true false fuel r
        match after with
        | none => ([item], none)
        | some r =>
          let (items, after) := readBlockItems fuel r
          (item :: items, after)
    | .blockEnd => ([], some r.pass)
    | _ => ([.fault], none)

/-- Reads the items of a sequence that is not indented. -/
def readFlatItems : (fuel : Nat) → Reader → Partial (List Node)
  | 0, _ => ([.fault], none)
  | fuel + 1, r =>
    match r.head with
    | .blockEntry =>
      let r := r.pass
      match r.head with
      | .fault => ([.fault], none)
      | t =>
        let (item, after) :=
          if t = .blockEntry || endsBlockPart t then (Node.empty, some r)
          else readNode true false fuel r
        match after with
        | none => ([item], none)
        | some r =>
          let (items, after) := readFlatItems fuel r
          (item :: items, after)
    | .fault => ([.fault], none)
    | _ => ([], some r)

/-- Reads the entries of a block mapping and its end. -/
def readBlockEntries : (fuel : Nat) → Reader → Partial (List (Node × Node))
  | 0, _ => ([(.fault, .fault)], none)
  | fuel + 1, r =>
    match r.head with
    | .key =>
      let r := r.pass
      match r.head with
      | .fault => ([(.fault, .fault)], none)
      | t =>
        let (key, after) :=
          if endsBlockPart t then (Node.empty, some r) else readNode true true fuel r
        match after with
        | none => ([(key, .fault)], none)
        | some r => readBlockValue key fuel r
    | .blockEnd => ([], some r.pass)
    | _ => ([(.fault, .fault)], none)

/-- Reads the value of a key of a block mapping, and the entries after it. -/
def readBlockValue (key : Node) : (fuel : Nat) → Reader → Partial (List (Node × Node))
  | 0, _ => ([(key, .fault)], none)
  | fuel + 1, r =>
    let (value, after) : Partial Node :=
      match r.head with
      | .fault => (.fault, none)
      | .value =>
        let r := r.pass
        match r.head with
        | .fault => (.fault, none)
        | t => if endsBlockPart t then (Node.empty, some r) else readNode true true fuel r
      | _ => (Node.empty, some r)
    match after with
    | none => ([(key, value)], none)
    | some r =>
      let (entries, after) := readBlockEntries fuel r
      ((key, value) :: entries, after)

/-- Reads the items of a flow sequence and its end; a comma stands before each but the
first.  An item may be a single entry of a mapping. -/
def readFlowItems (first : Bool) : (fuel : Nat) → Reader → Partial (List Node)
  | 0, _ => ([.fault], none)
  | fuel + 1, r =>
    match r.head with
    | .flowSequenceEnd => ([], some r.pass)
    | t =>
      if first || t = .flowEntry then
        let r := if first then r else r.pass
        match r.head with
        | .flowSequenceEnd => ([], some r.pass)
        | .fault => ([.fault], none)
        | t =>
          let (item, after) :=
            if t = .key then readSingleEntry fuel r.pass else readNode false false fuel r
          match after with
          | none => ([item], none)
          | some r =>
            let (items, after) := readFlowItems false fuel r
            (item :: items, after)
      else ([.fault], none)

/-- Reads a mapping with a single entry inside a flow sequence; it ends before the next
token.  Where its key is missing, the token in its place is passed. -/
def readSingleEntry : (fuel : Nat) → Reader → Partial Node
  | 0, _ => (.fault, none)
  | fuel + 1, r =>
    let single (key value : Node) : Node := .mapping none none [(key, value)]
    match r.head with
    | .fault => (single .fault .fault, none)
    | t =>
      let (key, after) :=
        if t = .value || endsFlowPart .flowSequenceEnd t then (Node.empty, some r.pass)
        else readNode false false fuel r
      match after with
      | none => (single key .fault, none)
      | some r =>
        let (value, after) : Partial Node :=
          match r.head with
          | .fault => (.fault, none)
          | .value =>
            let r := r.pass
            match r.head with
            | .fault => (.fault, none)
            | t =>
              if endsFlowPart .flowSequenceEnd t then (Node.empty, some r)
              else readNode false false fuel r
          | _ => (Node.empty, some r)
        match after with
        | none => (single key value, none)
        | some r =>
          if r.head = .fault then (.mapping none none [(key, value), (.fault, .fault)], none)
          else (single key value, some r)

/-- Reads the entries of a flow mapping and its end; a comma stands before each but the
first. -/
def readFlowEntries (first : Bool) : (fuel : Nat) → Reader → Partial (List (Node × Node))
  | 0, _ => ([(.fault, .fault)], none)
  | fuel + 1, r =>
    match r.head with
    | .flowMappingEnd => ([], some r.pass)
    | t =>
      if first || t = .flowEntry then
        let r := if first then r else r.pass
        match r.head with
        | .flowMappingEnd => ([], some r.pass)
        | .fault => ([(.fault, .fault)], none)
        | .key =>
          let r := r.pass
          match r.head with
          | .fault => ([(.fault, .fault)], none)
          | t =>
            let (key, after) :=
              if t = .value || endsFlowPart .flowMappingEnd t then (Node.empty, some r)
              else readNode false false fuel r
            match after with
            | none => ([(key, .fault)], none)
            | some r => readFlowValue key fuel r
        | _ =>
          let (key, after) := readNode false false fuel r
          match after with
          | none => ([(key, .fault)], none)
          | some r =>
            if r.head = .fault then ([(key, .fault)], none)
            else
              let (entries, after) := readFlowEntries false fuel r
              ((key, Node.empty) :: entries, after)
      else ([(.fault, .fault)], none)

/-- Reads the value of a key of a flow mapping, and the entries after it. -/
def readFlowValue (key : Node) : (fuel : Nat) → Reader → Partial (List (Node × Node))
  | 0, _ => ([(key, .fault)], none)
  | fuel + 1, r =>
    let (value, after) : Partial Node :=
      match r.head with
      | .fault => (.fault, none)
      | .value =>
        let r := r.pass
        match r.head with
        | .fault => (.fault, none)
        | t =>
          if endsFlowPart .flowMappingEnd t then (Node.empty, some r)
          else readNode false false fuel r
      | _ => (Node.empty, some r)
    match after with
    | none => ([(key, value)], none)
    | some r =>
      let (entries, after) := readFlowEntries false fuel r
      ((key, value) :: entries, after)

end

/-- The tag handles that every document knows. -/
def builtInHandles : List (List Char × Tag) :=
  [(['!'], .lone), (['!', '!'], .commonStem)]

/-- Reads the directives of a document: one version, 1.1 or 1.2, and one meaning for each
tag handle. -/
def readDirectives? (versioned : Bool) (handles : List (List Char × Tag)) :
    List Token → Option (List (List Char × Tag) × List Token)
  | .version major minor :: rest =>
    if versioned || major ≠ 1 || (minor ≠ 1 && minor ≠ 2) then none
    else readDirectives? true handles rest
  | .tagHandle handle stem :: rest =>
    if (handles.lookup handle).isSome then none
    else readDirectives? versioned (handles ++ [(handle, stem)]) rest
  | tokens => some (handles ++ builtInHandles, tokens)

/-- Whether nothing but document ends comes before the end of the text. -/
def endsText : List Token → Bool
  | .documentEnd :: rest => endsText rest
  | t :: _ => t = .streamEnd
  | [] => false

/-- Whether a token follows the start of a document that has no content. -/
def endsDocument : Token → Bool
  | .version _ _ | .tagHandle _ _ | .documentStart | .documentEnd | .streamEnd => true
  | _ => false

/-- Reads the content of a document. -/
def readRoot (handles : List (List Char × Tag)) (tokens : List Token) : Document :=
  let (root, after) := readNode true false (8 * (tokens.length + 1)) ⟨tokens, handles, []⟩
  ⟨some root, after.any fun r => endsText r.tokens⟩

/-- The first document of a list of tokens. -/
def Document.ofTokens (tokens : List Token) : Document :=
  match tokens with
  | .streamEnd :: _ => ⟨none, true⟩
  | .version _ _ :: _ | .tagHandle _ _ :: _ | .documentStart :: _ =>
    match readDirectives? false [] tokens with
    | some (handles, .documentStart :: rest) =>
      if rest.head?.any endsDocument then ⟨some .empty, endsText rest⟩
      else readRoot handles rest
    | _ => ⟨some .fault, false⟩
  | _ => readRoot builtInHandles tokens

/-- The first document of a text. -/
def Document.ofText (text : String) : Document :=
  .ofTokens (tokens text)

end PeerOverlay.Yaml
