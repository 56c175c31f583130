import SuperDB.Server.World
import SuperDB.Storage.Files

/-!
# The data directory

The files from which a server in wal mode starts, those of earlier versions included, and what is
left of them when the process stops inside `Compact` or `RecoverLatest`. A snapshot stands for the
tables that it decodes to. A WAL is its bytes, since the format of what is appended does not depend
on the format of what is there.
-/

namespace SuperDB.Server

open Go Engine Storage

structure DataDir where
  /-- `snapshot.spdb` -/
  snapshot : Option (Map Table) := none
  /-- `wal.spdb` -/
  wal : Option Bytes := none
  /-- `superdb.snapshot` -/
  legacySnapshot : Option (Map Table) := none
  /-- `superdb.wal` -/
  legacyWAL : Option Bytes := none

/-- Records, each in an environment of its own. -/
def inEnvs (env : Nat → Env) (records : List Bytes) : List (Env × Bytes) :=
  records.zipIdx.map fun p => (env p.2, p.1)

/-- The statements of a WAL file that can be read to its end. -/
def walRecords (z : Zlib) : Option Bytes → Option (List Bytes)
  | none => some []
  | some b =>
    match replayed z b with
    | (none, l) => some l
    | (some _, _) => none

namespace DataDir

/-- The tables that `LoadSnapshot` reads: the legacy file is looked at where there is no other. -/
def image (dir : DataDir) : Option (Map Table) := dir.snapshot.or dir.legacySnapshot

/-- The statements that `ReplayWAL` reads: the legacy file is looked at where there is no other. -/
def records (z : Zlib) (dir : DataDir) : Option (List Bytes) :=
  walRecords z (dir.wal.or dir.legacyWAL)

/-- `LoadSnapshot` into a new database. -/
def loadSnapshot (env : Env) (dir : DataDir) : Database :=
  dir.image.elim {} (Database.restored env)

/-- `LoadSnapshot` and `ReplayWAL`, as a start in wal mode and `Compact` do. A WAL that cannot be
read or a record that is refused ends the process. -/
def load (z : Zlib) (env : Nat → Env) (dir : DataDir) : Option Database :=
  (dir.records z).bind fun l =>
    ((dir.loadSnapshot (env 0)).replay (inEnvs (fun i => env (i + 1)) l)).toOption

/-! ## Starting and stopping -/

/-- What the sessions of a server share that has loaded `db`. Of the WAL there is what is appended
from here on. -/
def opened (db : Database) (dir : DataDir) : Shared := { db, store := { snapshot := dir.snapshot } }

/-- The directory when the server stops. `OpenWALWriter` has made a WAL file if there was none, and
`Append` has put its frames behind what was there. -/
def stopped (sh : Shared) (dir : DataDir) : DataDir :=
  { dir with wal := some (dir.wal.getD [] ++ sh.store.wal.flatMap walRecord) }

/-! ## Compact and RecoverLatest -/

/-- `WriteSnapshot`, which puts the file into its place at once, and then `clearWAL`: the
directories that the process passes through. -/
def install (image : Map Table) (dir : DataDir) : List DataDir :=
  let dir := { dir with snapshot := some (wireImage image) }
  [dir, { dir with wal := none }, { dir with wal := none, legacyWAL := none }]

end DataDir

end SuperDB.Server
