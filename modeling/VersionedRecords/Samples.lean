import VersionedRecords.Layout

/-!
Sample layouts.  Between them they use every kind of field, every type of key and of value,
sub-records below sub-records, map keys that are not the keys of the records below them, and a kind
of record that holds records of its own kind.
-/

namespace VersionedRecords.Samples

private def str : DatumType := .key .text

private def int (t : IntegerType) : DatumType := .key (.integer t)

/-- A record with nothing but its key. -/
def marker : Layout :=
  { name := "Marker", keyName := "id", keyType := .text, fields := [] }

def badge : Layout :=
  { name := "Badge", keyName := "code", keyType := .text, fields := [⟨"label", .scalar str⟩] }

def friend : Layout :=
  { name := "Friend", keyName := "id", keyType := .integer .u32
    fields :=
      [⟨"nickname", .scalar str⟩, ⟨"since", .scalar (int .u16)⟩, ⟨"badge", .nested "Badge"⟩,
        ⟨"marks", .keySet .char⟩] }

def shade : DatumType := .enumeration "Shade" ["Plain", "Bold"]

def profile : Layout :=
  { name := "Profile", keyName := "id", keyType := .integer .u32
    fields :=
      [⟨"name", .scalar str⟩, ⟨"shade", .scalar shade⟩, ⟨"avatar", .attached .bytes⟩,
        ⟨"badge", .nested "Badge"⟩, ⟨"tags", .keySet .text⟩, ⟨"scores", .valueMap .text (int .i64)⟩,
        ⟨"friends", .modelMap (.integer .u32) "Friend"⟩,
        ⟨"slots", .modelMap (.integer .u8) "Badge"⟩] }

def team : Layout :=
  { name := "Team", keyName := "code", keyType := .line
    fields :=
      [⟨"motto", .scalar str⟩, ⟨"lead", .nested "Profile"⟩,
        ⟨"members", .modelMap .text "Profile"⟩] }

/-- Measured quantities: the layout with floating-point numbers. -/
def gauge : Layout :=
  { name := "Gauge", keyName := "key", keyType := .integer .i64
    fields :=
      [⟨"reading", .scalar .float⟩, ⟨"flag", .scalar (.key .bool)⟩,
        ⟨"letter", .scalar (.key .char)⟩, ⟨"small", .scalar (int .i8)⟩,
        ⟨"home", .scalar (.key .line)⟩, ⟨"unit", .attached str⟩,
        ⟨"limit", .attached .float⟩, ⟨"series", .valueMap (.integer .i64) .float⟩,
        ⟨"cells", .keySet .line⟩] }

def rig : Layout :=
  { name := "Rig", keyName := "id", keyType := .integer .u64
    fields :=
      [⟨"gauge", .nested "Gauge"⟩, ⟨"gauges", .modelMap (.integer .i64) "Gauge"⟩,
        ⟨"marker", .nested "Marker"⟩, ⟨"markers", .modelMap .text "Marker"⟩]
    declaredFingerprint := some 18446744073709551615 }

/-- Records that hold records of their own kind. -/
def node : Layout :=
  { name := "Node", keyName := "id", keyType := .integer .u64
    fields := [⟨"label", .scalar str⟩, ⟨"children", .modelMap (.integer .u64) "Node"⟩] }

def all : List Layout := [marker, badge, friend, profile, team, gauge, rig, node]

end VersionedRecords.Samples
