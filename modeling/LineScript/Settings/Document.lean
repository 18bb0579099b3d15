import LineScript.Settings.Node
import LineScript.Settings.Token.Stream

/-!
Settings documents as nodes. The tokens are read one by one while the collections that are still
open are kept on a stack, so that nesting is only limited by what the tokens allow. Of several
documents only the first is read, and after its root only the tokens next to it are looked at.

With the modules that it imports, this is the reader behind `Settings.decode`, which stands in for a
YAML library and covers only part of the language: anchors, aliases, tags, directives and block
scalars are refused, although they may stand in settings.
-/
namespace LineScript.Document

/-- What an open collection holds so far, last first. -/
inductive Frame where
  | blockSequence (items : List Node)
  /-- A sequence in the column of the key before it. -/
  | bareSequence (items : List Node)
  | blockMapping (entries : List (Node × Node))
  | blockValue (entries : List (Node × Node)) (key : Node)
  | flowSequence (items : List Node)
  /-- An entry without braces in a flow sequence, before its key. -/
  | pair
  | pairValue (key : Node)
  | flowMapping (entries : List (Node × Node))
  | flowKey (entries : List (Node × Node))
  /-- A key that no value can follow. -/
  | flowLoneKey (entries : List (Node × Node))
  | flowValue (entries : List (Node × Node)) (key : Node)

inductive Context where
  | flow
  | block
  /-- The value of a block mapping, which may be a sequence in the column of its key. -/
  | afterKey

inductive Goal where
  | read (context : Context)
  | put (node : Node)
  | resume

structure State where
  goal : Goal
  frames : List Frame
  tokens : TokenStream

namespace State

def put (node : Node) (frame : Frame) (frames : List Frame) (tokens : TokenStream) : State :=
  let resume (frame : Frame) : State := ⟨.resume, frame :: frames, tokens⟩
  match frame with
  | .blockSequence items => resume (.blockSequence (node :: items))
  | .bareSequence items => resume (.bareSequence (node :: items))
  | .blockMapping entries => resume (.blockValue entries node)
  | .blockValue entries key => resume (.blockMapping ((key, node) :: entries))
  | .flowSequence items => resume (.flowSequence (node :: items))
  | .pair => resume (.pairValue node)
  | .pairValue key => ⟨.put (.mapping [(key, node)]), frames, tokens⟩
  | .flowMapping entries => resume (.flowValue entries node)
  | .flowKey entries => resume (.flowValue entries node)
  | .flowLoneKey entries => resume (.flowMapping ((node, .absent) :: entries))
  | .flowValue entries key => resume (.flowMapping ((key, node) :: entries))

/-- Reads a node unless a token comes next before which it is left out. -/
def readUnless (ends : List Token) (context : Context) (frames : List Frame)
    (tokens : TokenStream) : Option State := do
  let (t, tokens) ← tokens.peek?
  some ⟨if ends.contains t then .put .absent else .read context, frames, tokens⟩

def read? (context : Context) (frames : List Frame) (tokens : TokenStream) : Option State := do
  let (t, tokens) ← tokens.peek?
  let enter (frame : Frame) : Option State := some ⟨.resume, frame :: frames, tokens.tail⟩
  match t, context with
  | .scalar text plain, _ => some ⟨.put (.scalar text plain), frames, tokens.tail⟩
  | .flowSequence, _ => enter (.flowSequence [])
  | .flowMapping, _ => enter (.flowMapping [])
  | .blockSequence, .block => enter (.blockSequence [])
  | .blockSequence, .afterKey => enter (.blockSequence [])
  | .blockMapping, .block => enter (.blockMapping [])
  | .blockMapping, .afterKey => enter (.blockMapping [])
  | .item, .afterKey => some ⟨.resume, .bareSequence [] :: frames, tokens⟩
  | _, _ => none

def afterComma? (isFirst : Bool) (t : Token) (tokens : TokenStream) :
    Option (Token × TokenStream) :=
  if isFirst then some (t, tokens)
  else if t = .comma then tokens.tail.peek?
  else none

def resume? (frame : Frame) (frames : List Frame) (tokens : TokenStream) : Option State := do
  let (t, tokens) ← tokens.peek?
  let close (node : Node) (tokens : TokenStream) : Option State := some ⟨.put node, frames, tokens⟩
  let leaveOut : Option State := some ⟨.put .absent, frame :: frames, tokens⟩
  match frame with
  | .blockSequence items =>
    match t with
    | .item => readUnless [.item, .blockEnd] .block (frame :: frames) tokens.tail
    | .blockEnd => close (.sequence items.reverse) tokens.tail
    | _ => none
  | .bareSequence items =>
    match t with
    | .item => readUnless [.item, .key, .value, .blockEnd] .block (frame :: frames) tokens.tail
    | _ => close (.sequence items.reverse) tokens
  | .blockMapping entries =>
    match t with
    | .key => readUnless [.key, .value, .blockEnd] .afterKey (frame :: frames) tokens.tail
    | .blockEnd => close (.mapping entries.reverse) tokens.tail
    | _ => none
  | .blockValue _ _ =>
    match t with
    | .value => readUnless [.key, .value, .blockEnd] .afterKey (frame :: frames) tokens.tail
    | _ => leaveOut
  | .flowSequence items =>
    if t = .flowSequenceEnd then close (.sequence items.reverse) tokens.tail
    else
      let (t, tokens) ← afterComma? items.isEmpty t tokens
      match t with
      | .flowSequenceEnd => close (.sequence items.reverse) tokens.tail
      | .key => some ⟨.resume, .pair :: frame :: frames, tokens.tail⟩
      | _ => some ⟨.read .flow, frame :: frames, tokens⟩
  | .pair =>
    if [.value, .comma, .flowSequenceEnd].contains t then
      some ⟨.put .absent, frame :: frames, tokens.tail⟩
    else some ⟨.read .flow, frame :: frames, tokens⟩
  | .pairValue _ =>
    match t with
    | .value => readUnless [.comma, .flowSequenceEnd] .flow (frame :: frames) tokens.tail
    | _ => leaveOut
  | .flowMapping entries =>
    if t = .flowMappingEnd then close (.mapping entries.reverse) tokens.tail
    else
      let (t, tokens) ← afterComma? entries.isEmpty t tokens
      match t with
      | .flowMappingEnd => close (.mapping entries.reverse) tokens.tail
      | .key =>
        readUnless [.value, .comma, .flowMappingEnd] .flow (.flowKey entries :: frames) tokens.tail
      | _ => some ⟨.read .flow, .flowLoneKey entries :: frames, tokens⟩
  | .flowKey _ => none
  | .flowLoneKey _ => none
  | .flowValue _ _ =>
    match t with
    | .value => readUnless [.comma, .flowMappingEnd] .flow (frame :: frames) tokens.tail
    | _ => leaveOut

def run? : Nat → State → Option (Node × TokenStream)
  | 0, _ => none
  | _ + 1, ⟨.put node, [], tokens⟩ => some (node, tokens)
  | fuel + 1, ⟨.put node, frame :: frames, tokens⟩ => run? fuel (put node frame frames tokens)
  | fuel + 1, ⟨.read context, frames, tokens⟩ => (read? context frames tokens).bind (run? fuel)
  | fuel + 1, ⟨.resume, frame :: frames, tokens⟩ => (resume? frame frames tokens).bind (run? fuel)
  | _ + 1, ⟨.resume, [], _⟩ => none

end State

/-- The root of a document, absent if there is nothing in it; `none` if it is refused. -/
def read? (t : Text) : Option Node := do
  let source := Source.ofText t
  let (t, tokens) ← (TokenStream.ofSource source).peek?
  if t = .streamEnd then some .absent
  else
    let start ←
      if t = .documentStart then
        State.readUnless [.documentStart, .documentEnd, .streamEnd] .block [] tokens.tail
      else some ⟨.read .block, [], tokens⟩
    let (node, tokens) ← start.run? (32 * (source.size + 4))
    let _ ← tokens.peek?
    some node

end LineScript.Document
