import FormatLint.Yaml.Scan
import FormatLint.Yaml.Plain

/-!
From the tokens of a YAML text to its one document.
-/

namespace FormatLint.Yaml

/-- What the reader of nodes carries along: the tokens left, the tag handles of the document and
    the anchors seen. An anchor whose node is not complete yet has no datum. -/
structure Nodes where
  tokens : List Token
  handles : List (String × String) := [("!", "!"), ("!!", "tag:yaml.org,2002:")]
  anchors : List (String × Option Datum) := []

namespace Nodes

def peek? (n : Nodes) : Option Token := n.tokens.head?

def skip (n : Nodes) : Nodes := { n with tokens := n.tokens.drop 1 }

def bind (n : Nodes) (anchor : Option String) (d : Option Datum) : Nodes :=
  match anchor with
  | some name => { n with anchors := (name, d) :: n.anchors }
  | none => n

end Nodes

/-- Properties in front of a node. -/
structure Properties where
  anchor : Option String := none
  tag : Option (String × String) := none

def Nodes.properties (n : Nodes) : Properties × Nodes :=
  match n.tokens with
  | .anchor a :: .tag h s :: rest =>
    ({ anchor := some a, tag := some (h, s) }, { n with tokens := rest })
  | .tag h s :: .anchor a :: rest =>
    ({ anchor := some a, tag := some (h, s) }, { n with tokens := rest })
  | .anchor a :: rest => ({ anchor := some a }, { n with tokens := rest })
  | .tag h s :: rest => ({ tag := some (h, s) }, { n with tokens := rest })
  | _ => ({}, n)

/-- The full name of a tag. -/
def Nodes.tagName (n : Nodes) (tag : Option (String × String)) : Except Fault (Option String) :=
  match tag with
  | none => .ok none
  | some (handle, suffix) =>
    if handle.isEmpty then .ok (some suffix)
    else
      match n.handles.find? (·.1 == handle) with
      | some (_, start) => .ok (some (start ++ suffix))
      | none => .error .unknownHandle

/-- A tag that names a variant, without its mark. -/
def variantOf (tag : String) : Option String :=
  match tag.toList with
  | ['!'] => some "!"
  | '!' :: rest => some (String.ofList rest)
  | _ => none

/-- A collection under its tag. -/
def underTag (tag : Option String) (d : Datum) : Datum :=
  match tag.bind variantOf with
  | some variant => .tagged variant d
  | none => d

/-- A scalar under its tag. The tags of the core schema decide its type. -/
def scalarDatum (tag : Option String) (text : String) (style : Style) : Datum :=
  let word (value : Scalar) : Datum := .scalar { written := some text, value }
  let plain := if style = .plain then resolve text else .text text
  match tag with
  | none => word plain
  | some name =>
    match variantOf name with
    | some variant => .tagged variant (word plain)
    | none =>
      let only (p : Scalar → Bool) : Datum :=
        if p (resolve text) then word (resolve text) else word .unusable
      if name = "tag:yaml.org,2002:bool" then
        only fun | .bool _ => true | _ => false
      else if name = "tag:yaml.org,2002:int" then
        only fun | .integer _ => true | _ => false
      else if name = "tag:yaml.org,2002:float" then
        match double? text.toList with
        | some x => word (.double x)
        | none => word .unusable
      else if name = "tag:yaml.org,2002:null" then
        only fun | .null => true | _ => false
      else word (.text text)

def emptyNode : Datum := .scalar { written := some "", value := .null }

/-- The scalar of a key, whatever it is tagged with. -/
def keyWord? : Datum → Option Word
  | .scalar w => some w
  | .tagged _ (.scalar w) => some { w with value := .unusable }
  | _ => none

/-- A mapping. Its keys must be scalars. -/
def mappingDatum (entries : List (Datum × Datum)) : Datum :=
  match entries.mapM fun (key, value) => (keyWord? key).map fun word => (word, value) with
  | some entries => .map entries
  | none => .unusable

/-- Where a node may stand. -/
structure Place where
  block : Bool
  /-- A sequence may stand at the indentation of its parent. -/
  indentless : Bool := false

mutual

/-- One node. -/
def node (place : Place) (n : Nodes) : Nat → Except Fault (Datum × Nodes)
  | 0 => .error .tooDeep
  | fuel + 1 =>
    match n.tokens with
    | .alias name :: _ =>
      match n.anchors.find? (·.1 == name) with
      | some (_, some d) => .ok (d, n.skip)
      | _ => .error .unknownAnchor
    | _ =>
      let (properties, n) := n.properties
      match n.tagName properties.tag with
      | .error e => .error e
      | .ok tag =>
        let outer := n.bind properties.anchor none
        let finish (made : Except Fault (Datum × Nodes)) : Except Fault (Datum × Nodes) :=
          match made with
          | .error e => .error e
          | .ok (d, n) =>
            let d := underTag tag d
            .ok (d, n.bind properties.anchor (some d))
        let list (made : Except Fault (List Datum × Nodes)) : Except Fault (Datum × Nodes) :=
          finish (made.map fun (items, n) => (.list items, n))
        let map (made : Except Fault (List (Datum × Datum) × Nodes)) :
            Except Fault (Datum × Nodes) :=
          finish (made.map fun (entries, n) => (mappingDatum entries, n))
        match n.peek? with
        | some (.scalar text style) =>
          let d := scalarDatum tag text style
          .ok (d, n.skip.bind properties.anchor (some d))
        | some .flowSequenceStart => list (flowItems true outer.skip fuel)
        | some .flowMappingStart => map (flowEntries true outer.skip fuel)
        | other =>
          if place.indentless && other == some .blockEntry then
            list (blockItems false outer fuel)
          else if place.block && other == some .blockSequenceStart then
            list (blockItems true outer.skip fuel)
          else if place.block && other == some .blockMappingStart then
            map (blockEntries outer.skip fuel)
          else if properties.anchor.isSome || tag.isSome then
            let d := scalarDatum tag "" .plain
            .ok (d, n.bind properties.anchor (some d))
          else .error .unexpectedToken

/-- A node, or an empty one when the next token is among `stops`. -/
def nodeUnless (stops : List Token) (place : Place) (n : Nodes) (fuel : Nat) :
    Except Fault (Datum × Nodes) :=
  match fuel with
  | 0 => .error .tooDeep
  | fuel + 1 =>
    match n.peek? with
    | none => .ok (emptyNode, n)
    | some t => if stops.contains t then .ok (emptyNode, n) else node place n fuel

/-- The items of a block sequence; `closed` tells that an end token follows them. -/
def blockItems (closed : Bool) (n : Nodes) : Nat → Except Fault (List Datum × Nodes)
  | 0 => .error .tooDeep
  | fuel + 1 =>
    match n.peek? with
    | some .blockEntry =>
      let stops := if closed then [.blockEntry, .blockEnd]
        else [.blockEntry, .key, .value, .blockEnd]
      match nodeUnless stops { block := true } n.skip fuel with
      | .error e => .error e
      | .ok (item, n) =>
        match blockItems closed n fuel with
        | .error e => .error e
        | .ok (items, n) => .ok (item :: items, n)
    | some .blockEnd => .ok ([], if closed then n.skip else n)
    | _ => if closed then .error .unexpectedToken else .ok ([], n)

/-- The entries of a block mapping up to its end token. -/
def blockEntries (n : Nodes) : Nat → Except Fault (List (Datum × Datum) × Nodes)
  | 0 => .error .tooDeep
  | fuel + 1 =>
    let stops : List Token := [.key, .value, .blockEnd]
    let place : Place := { block := true, indentless := true }
    let after (key : Datum) (n : Nodes) : Except Fault (List (Datum × Datum) × Nodes) :=
      let made := match n.peek? with
        | some .value => nodeUnless stops place n.skip fuel
        | _ => .ok (emptyNode, n)
      match made with
      | .error e => .error e
      | .ok (value, n) =>
        match blockEntries n fuel with
        | .error e => .error e
        | .ok (entries, n) => .ok ((key, value) :: entries, n)
    match n.peek? with
    | some .key =>
      match nodeUnless stops place n.skip fuel with
      | .error e => .error e
      | .ok (key, n) => after key n
    | some .blockEnd => .ok ([], n.skip)
    | _ => .error .unexpectedToken

/-- The items of a flow sequence up to its bracket. -/
def flowItems (first : Bool) (n : Nodes) : Nat → Except Fault (List Datum × Nodes)
  | 0 => .error .tooDeep
  | fuel + 1 =>
    match n.peek? with
    | some .flowSequenceEnd => .ok ([], n.skip)
    | other =>
      if !first && other != some .flowEntry then .error .unexpectedToken
      else
        let n := if first then n else n.skip
        match n.peek? with
        | some .flowSequenceEnd => .ok ([], n.skip)
        | some .key =>
          match flowPair n.skip fuel with
          | .error e => .error e
          | .ok (item, n) =>
            match flowItems false n fuel with
            | .error e => .error e
            | .ok (items, n) => .ok (item :: items, n)
        | _ =>
          match node { block := false } n fuel with
          | .error e => .error e
          | .ok (item, n) =>
            match flowItems false n fuel with
            | .error e => .error e
            | .ok (items, n) => .ok (item :: items, n)

/-- A mapping of one entry inside a flow sequence, after the key token. -/
def flowPair (n : Nodes) : Nat → Except Fault (Datum × Nodes)
  | 0 => .error .tooDeep
  | fuel + 1 =>
    let stops : List Token := [.value, .flowEntry, .flowSequenceEnd]
    let keyed : Except Fault (Datum × Nodes) := match n.peek? with
      | some t =>
        if stops.contains t then .ok (emptyNode, n.skip) else node { block := false } n fuel
      | none => .error .unexpectedEnd
    match keyed with
    | .error e => .error e
    | .ok (key, n) =>
      let valued : Except Fault (Datum × Nodes) := match n.peek? with
        | some .value => nodeUnless [.flowEntry, .flowSequenceEnd] { block := false } n.skip fuel
        | _ => .ok (emptyNode, n)
      match valued with
      | .error e => .error e
      | .ok (value, n) => .ok (mappingDatum [(key, value)], n)

/-- The entries of a flow mapping up to its brace. -/
def flowEntries (first : Bool) (n : Nodes) : Nat → Except Fault (List (Datum × Datum) × Nodes)
  | 0 => .error .tooDeep
  | fuel + 1 =>
    let more (key value : Datum) (n : Nodes) : Except Fault (List (Datum × Datum) × Nodes) :=
      match flowEntries false n fuel with
      | .error e => .error e
      | .ok (entries, n) => .ok ((key, value) :: entries, n)
    match n.peek? with
    | some .flowMappingEnd => .ok ([], n.skip)
    | other =>
      if !first && other != some .flowEntry then .error .unexpectedToken
      else
        let n := if first then n else n.skip
        match n.peek? with
        | some .flowMappingEnd => .ok ([], n.skip)
        | some .key =>
          match nodeUnless [.value, .flowEntry, .flowMappingEnd] { block := false } n.skip fuel with
          | .error e => .error e
          | .ok (key, n) =>
            match n.peek? with
            | some .value =>
              match nodeUnless [.flowEntry, .flowMappingEnd] { block := false } n.skip fuel with
              | .error e => .error e
              | .ok (value, n) => more key value n
            | _ => more key emptyNode n
        | _ =>
          match node { block := false } n fuel with
          | .error e => .error e
          | .ok (key, n) => more key emptyNode n

end

/-- The directives in front of a document: the version at most once, each handle at most once. -/
def directives (n : Nodes) (version : Bool) (own : List (String × String)) :
    List Token → Except Fault (Bool × Nodes)
  | .version major minor :: rest =>
    if version || major != 1 || (minor != 1 && minor != 2) then .error .badDirective
    else directives n true own rest
  | .tagDirective handle start :: rest =>
    if own.any (·.1 == handle) then .error .badDirective
    else directives n version ((handle, start) :: own) rest
  | rest => .ok (version || !own.isEmpty, { n with tokens := rest, handles := own ++ n.handles })

mutual

/-- The number of collections around the deepest scalar. -/
def depth : Datum → Nat
  | .scalar _ => 0
  | .list items => 1 + depthItems items
  | .map entries => 1 + depthEntries entries
  | .tagged _ inner => depth inner

def depthItems : List Datum → Nat
  | [] => 0
  | d :: rest => max (depth d) (depthItems rest)

def depthEntries : List (Word × Datum) → Nat
  | [] => 0
  | (_, d) :: rest => max (depth d) (depthEntries rest)

end

/-- Tokens that stand outside of documents. -/
def isDocumentToken : Token → Bool
  | .documentStart | .documentEnd | .version _ _ | .tagDirective _ _ => true
  | _ => false

/-- Collections may be nested this deep. -/
def depthLimit : Nat := 128

/-- Reads the one document of a text; a text without any is an empty node. -/
def read (text : String) : Except Fault Datum := do
  let tokens ← scan text
  let (directed, n) ← directives { tokens } false [] tokens
  let explicit := n.peek? == some .documentStart
  if directed && !explicit then throw .badDirective
  let n := if explicit then n.skip else n
  let fuel := 4 * tokens.length + 8
  let (d, n) ← match n.peek? with
    | none => pure (emptyNode, n)
    | some t =>
      if explicit && isDocumentToken t then pure (emptyNode, n) else node { block := true } n fuel
  if !(n.tokens.all (· == .documentEnd)) then throw .severalDocuments
  if depthLimit < depth d then throw .tooDeep
  return d

end FormatLint.Yaml
