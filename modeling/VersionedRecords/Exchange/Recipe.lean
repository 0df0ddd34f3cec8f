import VersionedRecords.Exchange.Record
import VersionedRecords.Record.Notices

/-!
Reading drafts, edits and changes from JSON.

A draft is given by a recipe: begin from nothing with a key, or build another recipe and edit what
it builds; then do some edits in order.  An edit is given by a path that walks down through fields,
the sub-record in a field and the entries of maps, and by what is to be done there.  Recipes are
carried out while they are read; the bench keeps the notices of that work and hands out the stamps
for what is built.

`fuel` bounds the number of nested calls; the size of the JSON value says how much is enough.
-/

namespace VersionedRecords.Exchange

/-- What the work on recipes needs and leaves behind. -/
structure Bench where
  layouts : List Layout
  /-- The next stamp that nothing has been built with. -/
  stamp : Nat
  /-- The notices so far, the latest first. -/
  notices : List Notice

/-- Work on a bench that fails on JSON of another form. -/
abbrev Work (α : Type) : Type := StateT Bench Option α

def give {α : Type} (v : Option α) : Work α := fun b => v.map fun a => (a, b)

def refuse {α : Type} : Work α := give none

def tell (notices : List Notice) : Work Unit :=
  modify fun b => { b with notices := notices.reverse ++ b.notices }

def freshStamp : Work Nat := modifyGet fun b => (b.stamp, { b with stamp := b.stamp + 1 })

def layoutNamed (name : String) : Work Layout := do give (Layout.named? (← get).layouts name)

/-- Merges what is given for one field, if anything is. -/
def forgeField (l : Layout) (payload : FieldKind → Json → Work (Payload Change)) (fields : Json)
    (a : Accumulator) (name : String) : Work Accumulator := do
  match fields.member? name, l.field? name, l.indexOf? name with
  | some j, some f, some i => do
    let p ← payload f.kind j
    tell (a.addFieldNotices i p)
    return a.addField i p
  | _, _, _ => return a

mutual

/-- Reads a change by putting it together field by field, in the order of the field names. -/
def forge : Nat → Layout → Json → Work (Option Change)
  | 0, _, _ => refuse
  | fuel + 1, l, j => do
    let intent ← give (j.member? "type" >>= Intent.ofJson?)
    let key ← give (j.member? "key" >>= Key.ofJson? l.keyType)
    let fields ← give (j.member? "fields")
    let names := (l.fields.map Field.name).mergeSort (· ≤ ·)
    let a ← names.foldlM (forgeField l (payload fuel) fields) (.start l intent key)
    return a.build

/-- Reads what a change carries for a field. -/
def payload : Nat → FieldKind → Json → Work (Payload Change)
  | 0, _, _ => refuse
  | fuel + 1, kind, j =>
    match kind with
    | .scalar t => do return .scalar (← give (Datum.ofJson? t j))
    | .attached t => do return .attached (← give (Json.option? (Datum.ofJson? t) j))
    | .nested m => do return .nested (← change fuel (← layoutNamed m) j)
    | .keySet k => do
      return .keySet (← give (j.list? >>= fun js => js.mapM (MemberChange.ofJson? k)))
    | .valueMap k v => do
      return .valueMap (← give (j.list? >>= fun js => js.mapM (EntryChange.ofJson? k v)))
    | .modelMap k m => do
      let l ← layoutNamed m
      return .modelMap (← (← give j.list?).mapM fun
        | .list [i, key, c] => do
          return ⟨← give (Intent.ofJson? i), ← give (Key.ofJson? k key), ← change fuel l c⟩
        | _ => refuse)

/-- Reads a change that has some content. -/
def change : Nat → Layout → Json → Work Change
  | 0, _, _ => refuse
  | fuel + 1, l, j => do
    match ← forge fuel l j with
    | some c => return c
    | none => refuse

end

mutual

/-- Makes the draft of a recipe. -/
def draft : Nat → Layout → Json → Work Draft
  | 0, _, _ => refuse
  | fuel + 1, l, j => do
    let d ← (match j.member? "new", j.member? "edit" with
      | some key, _ => do return .new l (← give (Key.ofJson? l.keyType key))
      | none, some inner => do
        let d ← draft fuel l inner
        let s ← give (d.build (← freshStamp))
        return s.edit
      | none, none => refuse : Work Draft)
    ((j.member? "do" >>= Json.list?).getD []).foldlM (fun d => fun
      | .list [.list path, .list action] => do
        let e ← edit fuel l path action
        tell (e.notices d)
        return (e.run d).1
      | _ => refuse) d

/-- Reads an edit of a draft. -/
def edit : Nat → Layout → List Json → List Json → Work Edit
  | 0, _, _, _ => refuse
  | _ + 1, _, [], [.text "reset"] => return .reset
  | _ + 1, _, [], [.text "init"] => return .materialise
  | _ + 1, _, [], [.text "set_last", i] => do
    return .setLastIntent (← give (Json.option? Intent.ofJson? i))
  | _ + 1, l, [], [.text "apply", c] => do return .apply (← change (4 * c.size + 4) l c)
  | _ + 1, _, [], [.text "info"] => return .look
  | fuel + 1, l, .text name :: rest, action => do
    let f ← give (l.field? name)
    return .field name (← fieldEdit fuel f.kind rest action)
  | _, _, _, _ => refuse

/-- Reads an edit of a field. -/
def fieldEdit : Nat → FieldKind → List Json → List Json → Work FieldEdit
  | 0, _, _, _ => refuse
  | fuel + 1, .nested m, _ :: rest, action => do
    return .nested (← edit fuel (← layoutNamed m) rest action)
  | fuel + 1, .modelMap k m, step :: rest, action => do
    return .entry (← give (Key.ofJson? k step)) (← edit fuel (← layoutNamed m) rest action)
  | _ + 1, _, [], [.text "touch"] => return .touch
  | fuel + 1, kind, [], [.text "set", v] => do return .set (← working fuel kind v)
  | _ + 1, .keySet k, [], [.text "insert", key] => do return .insert (← give (Key.ofJson? k key))
  | _ + 1, .keySet k, [], [.text "remove", key]
  | _ + 1, .valueMap k _, [], [.text "remove", key]
  | _ + 1, .modelMap k _, [], [.text "remove", key] => do
    return .remove (← give (Key.ofJson? k key))
  | _ + 1, _, [], [.text "clear"] => return .clear
  | _ + 1, .valueMap k v, [], [.text "put", key, value] => do
    return .putValue (← give (Key.ofJson? k key)) (← give (Datum.ofJson? v value))
  | fuel + 1, .modelMap k m, [], [.text "put", key, recipe] => do
    return .putRecord (← give (Key.ofJson? k key)) (← draft fuel (← layoutNamed m) recipe)
  | _, _, _, _ => refuse

/-- Reads a working copy. -/
def working : Nat → FieldKind → Json → Work (Working Draft)
  | 0, _, _ => refuse
  | fuel + 1, kind, j =>
    match kind with
    | .scalar t => do return .scalar (← give (Datum.ofJson? t j))
    | .attached t => do return .attached (← give (Json.option? (Datum.ofJson? t) j))
    | .nested m => do
      match j with
      | .null => return .nested none
      | j => return .nested (some (← draft fuel (← layoutNamed m) j))
    | .keySet k => do return .keySet (← give (KeySet.ofJson? k j))
    | .valueMap k v => do return .valueMap (← give (Keyed.ofJson? k v j))
    | .modelMap k m => do
      let l ← layoutNamed m
      let es ← (← give j.list?).mapM fun
        | .list [key, recipe] => do
          return (← give (Key.ofJson? k key), ← draft fuel l recipe)
        | _ => (refuse : Work (Key × Draft))
      return .modelMap (Keyed.ofList es)

end

/-- Enough fuel for a JSON value: no value in it, and so no step of a path, takes more than four
calls. -/
def fuelFor (j : Json) : Nat := 4 * j.size + 4

/-- Makes the draft of a recipe. -/
def makeDraft (l : Layout) (j : Json) : Work Draft := draft (fuelFor j) l j

/-- Reads an edit of a draft. -/
def readEdit (l : Layout) (path action : List Json) : Work Edit :=
  edit (fuelFor (.list (path ++ action))) l path action

/-- Reads an edit of a field. -/
def readFieldEdit (kind : FieldKind) (path action : List Json) : Work FieldEdit :=
  fieldEdit (fuelFor (.list (path ++ action))) kind path action

/-- Reads a change that may come out empty. -/
def readForged (l : Layout) (j : Json) : Work (Option Change) := forge (fuelFor j) l j

/-- Reads what a change carries for a field. -/
def readPayload (kind : FieldKind) (j : Json) : Work (Payload Change) := payload (fuelFor j) kind j

/-- Reads a working copy. -/
def readWorking (kind : FieldKind) (j : Json) : Work (Working Draft) := working (fuelFor j) kind j

/-- Reads a value by freezing the working copy that it describes. -/
def readValue (kind : FieldKind) (j : Json) : Work (Value Snapshot) := do
  let w ← readWorking kind j
  return Draft.freeze (← freshStamp) [] w

end VersionedRecords.Exchange
