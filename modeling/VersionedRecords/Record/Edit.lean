import VersionedRecords.Record.Patch

/-!
Edits as data: everything that can be done to a draft, at any depth.  An edit of a field touches it,
whether or not there is anything below for the rest of the edit to act on.
-/

namespace VersionedRecords

mutual

/-- Something done to a draft. -/
inductive Edit
  /-- Empties the draft. -/
  | reset
  /-- Touches every field at every depth. -/
  | materialise
  | setLastIntent (intent : Option Intent)
  | apply (change : Change)
  /-- Changes nothing; the result shows the draft. -/
  | look
  | field (name : String) (edit : FieldEdit)

/-- Something done to the working copy of a field. -/
inductive FieldEdit
  | touch
  | set (working : Working Draft)
  /-- Adds a member to a set. -/
  | insert (key : Key)
  /-- Removes a member of a set or an entry of a map. -/
  | remove (key : Key)
  /-- Empties a set or a map. -/
  | clear
  | putValue (key : Key) (value : Datum)
  | putRecord (key : Key) (draft : Draft)
  /-- Edits the sub-record, if there is one. -/
  | nested (edit : Edit)
  /-- Edits the sub-record under a key, if there is one. -/
  | entry (key : Key) (edit : Edit)

end

/-- What an edit has to tell. -/
inductive EditResult
  | done
  /-- There was nothing to act on. -/
  | absent
  /-- Whether a set was changed. -/
  | changed (yes : Bool)
  /-- Whether there was an entry before. -/
  | replaced (yes : Bool)
  /-- The value that was there before. -/
  | previous (value : Option Datum)
  | refused (cause : IdentityMismatch)
  | shown (draft : Draft)

mutual

/-- Does an edit. -/
def Edit.run : Edit → Draft → Draft × EditResult
  | .reset, d => (d.reset, .done)
  | .materialise, d => (d.materialise, .done)
  | .setLastIntent i, d => (d.setLastIntent i, .done)
  | .apply c, d =>
    match d.apply c with
    | .ok d' => (d', .done)
    | .error e => (d, .refused e)
  | .look, d => (d, .shown d)
  | .field name e, d =>
    match d.layout.indexOf? name with
    | none => (d, .absent)
    | some i =>
      match d.slots[i]? with
      | none => (d, .absent)
      | some s =>
        let (w, r) := e.run s.working
        ({ d with slots := d.slots.set i (.touched w) }, r)

/-- Does an edit of a working copy. -/
def FieldEdit.run : FieldEdit → Working Draft → Working Draft × EditResult
  | .touch, w => (w, .done)
  | .set w', _ => (w', .done)
  | .insert k, .keySet ms => (.keySet (KeySet.insert k ms), .changed (!ms.contains k))
  | .remove k, .keySet ms => (.keySet (KeySet.erase k ms), .changed (ms.contains k))
  | .remove k, .valueMap es => (.valueMap (Keyed.erase k es), .previous (Keyed.find? k es))
  | .remove k, .modelMap es => (.modelMap (Keyed.erase k es), .replaced (Keyed.has k es))
  | .clear, .keySet _ => (.keySet [], .done)
  | .clear, .valueMap _ => (.valueMap [], .done)
  | .clear, .modelMap _ => (.modelMap [], .done)
  | .putValue k v, .valueMap es => (.valueMap (Keyed.insert k v es), .previous (Keyed.find? k es))
  | .putRecord k d, .modelMap es => (.modelMap (Keyed.insert k d es), .replaced (Keyed.has k es))
  | .nested e, .nested (some d) =>
    let (d', r) := e.run d
    (.nested (some d'), r)
  | .entry k e, .modelMap es =>
    match Keyed.find? k es with
    | some d =>
      let (d', r) := e.run d
      (.modelMap (Keyed.insert k d' es), r)
    | none => (.modelMap es, .absent)
  | _, w => (w, .absent)

end

/-- The draft after several edits in order. -/
def Draft.edited (d : Draft) (edits : List Edit) : Draft :=
  edits.foldl (fun d e => (e.run d).1) d

namespace Slot

/-- Does an edit of the working copy of a slot. -/
def edit (s : Slot Snapshot Draft) (e : FieldEdit) : Slot Snapshot Draft × EditResult :=
  let (w, r) := e.run s.working
  (.touched w, r)

end Slot

end VersionedRecords
