import Graft.Yaml.Token

/-!
# Graft.Yaml.Event

The events of a token list: documents and collections by their two ends, and
what stands between.

What is expected next is a stack of productions (`Expect`), the innermost on
top. Each step takes the top production and the tokens in front, and answers
with one event, the new stack and the tokens left; a node replaces the
production on top by its own, and so costs no recursion.

The events end with `streamEnd` exactly when all tokens could be used.
-/

namespace Graft
namespace Yaml

/-- What stands in front of a node. -/
structure Properties where
  /-- Its anchor. -/
  anchor : Option String
  /-- Its tag, with the handle resolved. -/
  tag : Option (List UInt8)

/-- An event. -/
inductive Event where
  /-- The start of a document. -/
  | documentStart
  /-- The end of a document. -/
  | documentEnd
  /-- The end of the text. -/
  | streamEnd
  /-- A reference to an anchor. -/
  | alias (name : String)
  /-- A scalar. -/
  | scalar (properties : Properties) (style : ScalarStyle) (text : String)
  /-- The start of a sequence. -/
  | sequenceStart (properties : Properties)
  /-- The end of a sequence. -/
  | sequenceEnd
  /-- The start of a mapping. -/
  | mappingStart (properties : Properties)
  /-- The end of a mapping. -/
  | mappingEnd

/-- A production: what may come next. -/
inductive Expect where
  /-- A document; `implicit` if it may start without a marker. -/
  | document (implicit : Bool)
  /-- The content of a document after its marker. -/
  | documentContent
  /-- The end of a document. -/
  | documentEnd
  /-- A node outside of brackets. -/
  | blockNode
  /-- The opening token of an indented sequence, or another item of it. -/
  | blockItem (first : Bool)
  /-- An item of a sequence that is not indented. -/
  | flushItem
  /-- The opening token of an indented mapping, or another key of it. -/
  | blockKey (first : Bool)
  /-- The value of an indented mapping. -/
  | blockValue
  /-- The opening bracket of a sequence, or another item of it. -/
  | flowItem (first : Bool)
  /-- The key of a pair that is an item. -/
  | pairKey
  /-- The value of a pair that is an item. -/
  | pairValue
  /-- The end of a pair that is an item. -/
  | pairEnd
  /-- The opening bracket of a mapping, or another key of it. -/
  | flowKey (first : Bool)
  /-- The value of a key in brackets; `missing` if no colon can follow it. -/
  | flowValue (missing : Bool)

/-- The tag handles of a document and what they stand for. -/
abbrev Handles : Type := List (String × List UInt8)

/-- The state between two events. -/
structure EventState where
  /-- The productions, innermost first. -/
  stack : List Expect
  /-- The tokens left. -/
  tokens : List Token
  /-- The tag handles of the document. -/
  handles : Handles

namespace EventState

/-- The scalar that stands for a missing node. -/
def emptyScalar (p : Properties) : Event := .scalar p .plain ""

/-- No anchor and no tag. -/
def noProperties : Properties := ⟨none, none⟩

/-- The handles that need no directive. -/
def defaultHandles : Handles := [("!", [tagMark]), ("!!", coreTag "")]

/-- The bytes a tag stands for, if its handle is known. -/
def resolveTag? (handles : Handles) (handle : String) (suffix : List UInt8) : Option (List UInt8) :=
  if handle.isEmpty then some suffix
  else (handles.lookup handle).map (· ++ suffix)

/-- The anchor and the tag in front of a node, in either order. -/
def takeProperties? (handles : Handles) :
    List Token → Option (Properties × List Token)
  | .anchor a :: .tag h s :: r => (resolveTag? handles h s).map fun t => (⟨some a, some t⟩, r)
  | .tag h s :: .anchor a :: r => (resolveTag? handles h s).map fun t => (⟨some a, some t⟩, r)
  | .anchor a :: r => some (⟨some a, none⟩, r)
  | .tag h s :: r => (resolveTag? handles h s).map fun t => (⟨none, some t⟩, r)
  | r => some (noProperties, r)

/-- The event of a node and the state after it. `block` outside of brackets;
`flush` where items may stand without indentation; `outer` is the stack for after
the node. A node with nothing but properties is an empty scalar. -/
def node? (handles : Handles) (block flush : Bool) (outer : List Expect)
    (tokens : List Token) : Option (Event × EventState) :=
  match tokens with
  | .alias name :: r => some (.alias name, ⟨outer, r, handles⟩)
  | _ => do
    let (p, rest) ← takeProperties? handles tokens
    match rest, block with
    | .item :: _, _ =>
      if flush then some (.sequenceStart p, ⟨.flushItem :: outer, rest, handles⟩)
      else if p.anchor.isSome || p.tag.isSome then some (emptyScalar p, ⟨outer, rest, handles⟩)
      else none
    | .scalar style text :: r, _ => some (.scalar p style text, ⟨outer, r, handles⟩)
    | .openSequence :: _, _ => some (.sequenceStart p, ⟨.flowItem true :: outer, rest, handles⟩)
    | .openMapping :: _, _ => some (.mappingStart p, ⟨.flowKey true :: outer, rest, handles⟩)
    | .blockSequence :: _, true => some (.sequenceStart p, ⟨.blockItem true :: outer, rest, handles⟩)
    | .blockMapping :: _, true => some (.mappingStart p, ⟨.blockKey true :: outer, rest, handles⟩)
    | _, _ =>
      if p.anchor.isSome || p.tag.isSome then some (emptyScalar p, ⟨outer, rest, handles⟩)
      else none

/-! ### Documents -/

/-- Takes the directives in front of a document: at most one version, which is
1.1 or 1.2, and at most one prefix per handle. -/
def takeDirectives? (versions : Nat) (handles : Handles) :
    List Token → Option (Handles × List Token)
  | .version major minor :: r =>
    if versions = 0 ∧ major = 1 ∧ (minor = 1 ∨ minor = 2) then takeDirectives? 1 handles r else none
  | .tagPrefix h e :: r =>
    if (handles.lookup h).isSome then none else takeDirectives? versions (handles ++ [(h, e)]) r
  | r => some (handles ++ defaultHandles, r)

/-- Whether a token can only stand in front of a document's marker or after a
document. -/
def isBoundary : Token → Bool
  | .version .. | .tagPrefix .. | .documentStart | .documentEnd | .streamEnd => true
  | _ => false

/-- The start of a document or the end of the text. -/
def document? (implicit : Bool) (outer : List Expect) (tokens : List Token) :
    Option (Event × EventState) :=
  let tokens := if implicit then tokens else tokens.dropWhile (· == .documentEnd)
  match tokens with
  | [] => none
  | .streamEnd :: r => some (.streamEnd, ⟨[], r, []⟩)
  | t :: _ =>
    if implicit && (!isBoundary t || t == .documentEnd) then
      some (.documentStart, ⟨.blockNode :: .documentEnd :: outer, tokens, defaultHandles⟩)
    else do
      match ← takeDirectives? 0 [] tokens with
      | (handles, .documentStart :: r) =>
        some (.documentStart, ⟨.documentContent :: .documentEnd :: outer, r, handles⟩)
      | _ => none

/-! ### Collections -/

/-- Whether nothing stands where a node of a block collection is due. -/
def isMissingInBlock : Token → Bool
  | .key | .value | .blockEnd => true
  | _ => false

/-- Whether nothing stands where a node is due inside square brackets. -/
def isMissingInSequence : Token → Bool
  | .comma | .closeSequence => true
  | _ => false

/-- Whether nothing stands where a node is due inside curly brackets. -/
def isMissingInMapping : Token → Bool
  | .comma | .closeMapping => true
  | _ => false

/-- A node, or an empty scalar where `isMissing` says that none is there. The
tokens must not be used up. -/
def nodeUnless? (s : EventState) (isMissing : Token → Bool) (block flush : Bool)
    (next : List Expect) (tokens : List Token) : Option (Event × EventState) :=
  match tokens with
  | [] => none
  | t :: _ =>
    if isMissing t then some (emptyScalar noProperties, ⟨next, tokens, s.handles⟩)
    else node? s.handles block flush next tokens

/-- An item of an indented sequence, or its end. -/
def blockItem? (s : EventState) (outer : List Expect) : List Token → Option (Event × EventState)
  | .item :: r =>
    let isMissing := fun t => t == .item || t == .blockEnd
    s.nodeUnless? isMissing true false (.blockItem false :: outer) r
  | .blockEnd :: r => some (.sequenceEnd, ⟨outer, r, s.handles⟩)
  | _ => none

/-- An item of a sequence that is not indented, or its end. -/
def flushItem? (s : EventState) (outer : List Expect) : List Token → Option (Event × EventState)
  | .item :: r =>
    let isMissing := fun t => t == .item || isMissingInBlock t
    s.nodeUnless? isMissing true false (.flushItem :: outer) r
  | [] => none
  | tokens => some (.sequenceEnd, ⟨outer, tokens, s.handles⟩)

/-- A key of an indented mapping, or its end. -/
def blockKey? (s : EventState) (outer : List Expect) : List Token → Option (Event × EventState)
  | .key :: r => s.nodeUnless? isMissingInBlock true true (.blockValue :: outer) r
  | .blockEnd :: r => some (.mappingEnd, ⟨outer, r, s.handles⟩)
  | _ => none

/-- The value of an indented mapping. -/
def blockValue? (s : EventState) (outer : List Expect) : List Token → Option (Event × EventState)
  | .value :: r => s.nodeUnless? isMissingInBlock true true (.blockKey false :: outer) r
  | [] => none
  | tokens => some (emptyScalar noProperties, ⟨.blockKey false :: outer, tokens, s.handles⟩)

/-- An item inside square brackets, or their end; `tokens` is past the comma. A
key makes the item a mapping of one pair. -/
def flowItem? (s : EventState) (outer : List Expect) (tokens : List Token) :
    Option (Event × EventState) :=
  match tokens with
  | .key :: r => some (.mappingStart noProperties, ⟨.pairKey :: .flowItem false :: outer, r, s.handles⟩)
  | .closeSequence :: r => some (.sequenceEnd, ⟨outer, r, s.handles⟩)
  | _ => node? s.handles false false (.flowItem false :: outer) tokens

/-- The key of a pair. Where it is missing, the token in its place is used up. -/
def pairKey? (s : EventState) (outer : List Expect) : List Token → Option (Event × EventState)
  | [] => none
  | t :: r =>
    if t == .value || isMissingInSequence t then
      some (emptyScalar noProperties, ⟨.pairValue :: outer, r, s.handles⟩)
    else node? s.handles false false (.pairValue :: outer) (t :: r)

/-- The value of a pair. -/
def pairValue? (s : EventState) (outer : List Expect) : List Token → Option (Event × EventState)
  | .value :: r => s.nodeUnless? isMissingInSequence false false (.pairEnd :: outer) r
  | [] => none
  | tokens => some (emptyScalar noProperties, ⟨.pairEnd :: outer, tokens, s.handles⟩)

/-- A key inside curly brackets, or their end; `tokens` is past the comma. -/
def flowKey? (s : EventState) (outer : List Expect) (tokens : List Token) :
    Option (Event × EventState) :=
  match tokens with
  | .key :: r =>
    let isMissing := fun t => t == .value || isMissingInMapping t
    s.nodeUnless? isMissing false false (.flowValue false :: outer) r
  | .closeMapping :: r => some (.mappingEnd, ⟨outer, r, s.handles⟩)
  | _ => node? s.handles false false (.flowValue true :: outer) tokens

/-- The value of a key inside curly brackets. -/
def flowValue? (s : EventState) (missing : Bool) (outer : List Expect) (tokens : List Token) :
    Option (Event × EventState) :=
  let next := .flowKey false :: outer
  match missing, tokens with
  | _, [] => none
  | false, .value :: r => s.nodeUnless? isMissingInMapping false false next r
  | _, _ => some (emptyScalar noProperties, ⟨next, tokens, s.handles⟩)

/-- Past the opening token the first time, past a comma after that; a closing
bracket needs none. -/
def pastSeparator? (first : Bool) (close : Token) : List Token → Option (List Token)
  | [] => none
  | t :: r =>
    if first then some r
    else if t == .comma then some r
    else if t == close then some (t :: r)
    else none

/-! ### Steps -/

/-- The next event. -/
def step? (s : EventState) : Option (Event × EventState) :=
  match s.stack with
  | [] => none
  | .document implicit :: outer => document? implicit outer s.tokens
  | .documentContent :: outer => s.nodeUnless? isBoundary true false outer s.tokens
  | .documentEnd :: outer =>
    match s.tokens with
    | [] => none
    | .documentEnd :: r => some (.documentEnd, ⟨.document false :: outer, r, []⟩)
    | tokens => some (.documentEnd, ⟨.document false :: outer, tokens, []⟩)
  | .blockNode :: outer => node? s.handles true false outer s.tokens
  | .blockItem first :: outer => s.blockItem? outer (if first then s.tokens.drop 1 else s.tokens)
  | .flushItem :: outer => s.flushItem? outer s.tokens
  | .blockKey first :: outer => s.blockKey? outer (if first then s.tokens.drop 1 else s.tokens)
  | .blockValue :: outer => s.blockValue? outer s.tokens
  | .flowItem first :: outer => (pastSeparator? first .closeSequence s.tokens).bind (s.flowItem? outer)
  | .pairKey :: outer => s.pairKey? outer s.tokens
  | .pairValue :: outer => s.pairValue? outer s.tokens
  | .pairEnd :: outer => some (.mappingEnd, ⟨outer, s.tokens, s.handles⟩)
  | .flowKey first :: outer => (pastSeparator? first .closeMapping s.tokens).bind (s.flowKey? outer)
  | .flowValue missing :: outer => s.flowValue? missing outer s.tokens

/-- All events onto the reversed `acc`, `fuel` of them at most. -/
def run (acc : List Event) : Nat → EventState → List Event
  | 0, _ => acc.reverse
  | fuel + 1, s =>
    match s.step? with
    | none => acc.reverse
    | some (.streamEnd, _) => (.streamEnd :: acc).reverse
    | some (e, s) => run (e :: acc) fuel s

end EventState

/-- The events of a token list. A production is put on the stack with a token
that is used up and answers with one event more than its nodes, so four events
per token are enough. -/
def Event.ofTokens (tokens : List Token) : List Event :=
  EventState.run [] (4 * tokens.length + 4) ⟨[.document true], tokens, []⟩

end Yaml
end Graft
