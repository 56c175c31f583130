import SuperDB.Server.Session

/-!
# Sessions side by side

Any number of sessions share a database and a data directory. Their requests interleave at the
actions of `Server.Session`, and a history records every action with its answer. What has been
published, and in which order, is read off the history.
-/

namespace SuperDB.Server

open Go Engine

/-- An action of a session and its answer. -/
structure Event where
  sid : Nat
  action : Action
  answer : action.Answer

structure Logged where
  shared : Shared
  history : List Event := []

/-- An action of the session `sid`, recorded. -/
def Logged.perform (mode : Mode) (sid : Nat) (a : Action) (g : Logged) : a.Answer × Logged :=
  ((a.run mode g.shared).1,
    { shared := (a.run mode g.shared).2
      history := g.history ++ [⟨sid, a, (a.run mode g.shared).1⟩] })

def localServer (cfg : Config) :
    Go.Server Nat Action Action.Answer Logged Session Request Response where
  handle := Logged.perform cfg.mode
  serve := executeRequest cfg

abbrev Process := Go.World Nat Action Action.Answer Logged Session Response

def startOn (shared : Shared) : Process :=
  { shared := { shared }, conn := fun _ => .idle {} }

def Request.calls (q : Request) : List Call := q.sql :: q.sqls

def Request.Live (cfg : Config) (q : Request) : Prop := ∀ c ∈ q.calls, (cfg.env c).Live

theorem Request.live_of_untimed {cfg : Config} (h : cfg.limits.queryTimeout = 0) (q : Request) :
    q.Live cfg := fun _ _ _ => by
  simp only [Config.env, queryContext, if_pos h]
  rfl

def request (sql : String) : Request := { sql := { sql := str sql } }

def batchOf (sqls : List String) : Request :=
  { sqls := sqls.map fun sql => { sql := str sql } }

/-! ## Publications -/

/-- What has been published at once: a statement, or the statements of a transaction or an atomic
batch. -/
inductive Publication where
  | statement (env : Env) (sql : Bytes)
  | commit (l : List (Env × Bytes))

def Publication.statements : Publication → List (Env × Bytes)
  | .statement env sql => [(env, sql)]
  | .commit l => l

/-- The publications so far; and for each session the statements that succeeded on its last copy
and what has been published since it took that copy. -/
structure Ledger where
  published : List Publication := []
  onCopy : Nat → List (Env × Bytes) := fun _ => []
  since : Nat → List Publication := fun _ => []

def Ledger.publish (p : Publication) (l : Ledger) : Ledger :=
  { l with published := l.published ++ [p], since := fun i => l.since i ++ [p] }

def Ledger.record (l : Ledger) : Event → Ledger
  | ⟨sid, .clone, _⟩ =>
    { l with onCopy := Function.update l.onCopy sid [], since := Function.update l.since sid [] }
  | ⟨_, .exec env sql, .ok _⟩ =>
    if isWriteSQL sql then l.publish (.statement env sql) else l
  | ⟨sid, .execTx _ env sql, (.ok _, _)⟩ =>
    { l with onCopy := Function.update l.onCopy sid (l.onCopy sid ++ [(env, sql)]) }
  | ⟨sid, .commitFrom _ _ _, .ok ()⟩ => l.publish (.commit (l.onCopy sid))
  | _ => l

def ledger (history : List Event) : Ledger := history.foldl Ledger.record {}

end SuperDB.Server
