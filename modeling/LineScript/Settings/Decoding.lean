import LineScript.Settings.Error
import LineScript.Settings.Node

/-!
What the nodes of a settings document stand for. The key `<<` asks for the entries of other
mappings, which come after a mapping's own and never replace them. After most faults the rest of the
document is still read, because it may end the reading in another way. This is part of the stand-in
for a YAML library.
-/
namespace LineScript

structure DecodingState where
  isFaulty : Bool := false
  /-- The keys that hide those of further mappings, while there are any to merge. -/
  hidden : Option (List Datum) := none

abbrev Decoding := StateT DecodingState (Except SettingsError)

namespace Decoding

def fault : Decoding Unit := modify ({ · with isFaulty := true })

def setHidden (keys : Option (List Datum)) : Decoding Unit := modify ({ · with hidden := keys })

def outcome {α : Type} (d : Decoding α) : Except SettingsError α := do
  let (a, state) ← d.run {}
  if state.isFaulty then throw .refused else return a

end Decoding

open Decoding

structure MappingReader (σ : Type) where
  asText : Bool
  datum : Node → Decoding (Option Datum)
  visit : σ → Datum → Node → Decoding σ

namespace MappingReader

variable {σ : Type}

/-- As a text, a key that stands for nothing is passed over, and a collection is a fault. -/
def key (r : MappingReader σ) (n : Node) : Decoding (Option Datum) := do
  if !r.asText then r.datum n
  else if n.isNull then return none
  else match n.spelling? with
    | some t => return some (.text t)
    | none =>
      fault
      return none

def hide (k : Datum) (keys : List Datum) : Decoding (List Datum) :=
  match k with
  | .other typeName => throw (.unusableKey typeName)
  | _ => return k :: keys

def visitOwn (r : MappingReader σ) :
    (hidden : Option (List Datum)) → σ → List (Node × Node) → Decoding (σ × Option (List Datum))
  | hidden, s, [] => return (s, hidden)
  | hidden, s, (key, value) :: rest => do
    if key.isMerge then r.visitOwn hidden s rest
    else match ← r.key key, hidden with
      | none, _ => r.visitOwn hidden s rest
      | some k, some keys =>
        let more ← hide k keys
        if keys.any k.isSameKey then r.visitOwn hidden s rest
        else r.visitOwn (some more) (← r.visit s k value) rest
      | some (.other _), none => throw .refused
      | some k, none => r.visitOwn none (← r.visit s k value) rest

def readOwn (r : MappingReader σ) (s : σ) (entries : List (Node × Node)) : Decoding σ := do
  let hidden := (← get).hidden
  setHidden none
  let (s, hidden) ← r.visitOwn hidden s entries
  setHidden hidden
  return s

mutual

def readMerged (r : MappingReader σ) : σ → List (Node × Node) → Decoding σ
  | s, [] => return s
  | s, (key, value) :: rest =>
    if key.isMerge then r.readFrom false s value else r.readMerged s rest

def readFrom (r : MappingReader σ) (inSequence : Bool) : σ → Node → Decoding σ
  | _, .scalar _ _ => throw .refused
  | s, .sequence items => if inSequence then throw .refused else r.readItems s items
  | s, .mapping entries => do
    if Node.hasDistinctKeys entries then r.readMerged (← r.readOwn s entries) entries
    else
      fault
      return s

def readItems (r : MappingReader σ) : σ → List Node → Decoding σ
  | s, [] => return s
  | s, n :: rest => do r.readItems (← r.readFrom true s n) rest

end

def hideKeys (r : MappingReader σ) : List (Node × Node) → Decoding Unit
  | [] => return
  | (key, _) :: rest => do
    if let some k ← r.datum key then
      setHidden (some (← hide k ((← get).hidden.getD [])))
    r.hideKeys rest

/-- An entry of another mapping is hidden by an equal key, be it of the mapping itself or of one
before. -/
def read (r : MappingReader σ) (s : σ) (entries : List (Node × Node)) : Decoding (Option σ) := do
  if !Node.hasDistinctKeys entries then
    fault
    return none
  let s ← r.readOwn s entries
  if !entries.any (·.1.isMerge) then return some s
  else if (← get).hidden.isSome then return some (← r.readMerged s entries)
  else
    setHidden (some [])
    r.hideKeys entries
    let s ← r.readMerged s entries
    setHidden none
    return some s

end MappingReader

namespace Node

def datumWithin : Nat → Node → Decoding (Option Datum)
  | _, .scalar t plain => return some (Scalar.datum t plain)
  | 0, _ => throw .refused
  | depth + 1, .sequence items => do
    items.forM fun n => discard (datumWithin depth n)
    return some (.other Datum.sequenceType)
  | depth + 1, .mapping entries => do
    let asText := entries.all (·.1.isTextKey)
    let reader : MappingReader Unit :=
      ⟨asText, datumWithin depth, fun _ _ n => discard (datumWithin depth n)⟩
    let typeName := if asText then Datum.mappingType else Datum.generalMappingType
    return (← reader.read () entries).map fun _ => .other typeName

def datum (n : Node) : Decoding (Option Datum) := datumWithin n.depth n

end Node

end LineScript
