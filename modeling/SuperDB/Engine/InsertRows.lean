import SuperDB.Engine.Statement

/-!
# The two parsers of VALUES

`parseInsertRows` is the older reader of the rows of INSERT, which `parseInsertRowsMode` replaces on
the production path: it first cuts the text into rows and then each row into values.
-/

namespace SuperDB.Engine

open Go

def parseInsertRowsFast (raw : Bytes) (columns : List Column) : Except Fault (List InsertRow) :=
  parseInsertRowsMode raw columns false

/-- The loop of `splitRows`; `cur` is the text since the last row was opened, in reverse. -/
def splitRowsFrom : Quote → Int → Option Bytes → Bytes → List Bytes
  | _, _, _, [] => []
  | q, depth, cur, a :: s =>
    let next := cur.map (a :: ·)
    if q.plain a && a == ch '(' then
      splitRowsFrom (q.step a s) (depth + 1) (if depth = 0 then some [] else next) s
    else if q.plain a && a == ch ')' then
      let rest := splitRowsFrom (q.step a s) (depth - 1) next s
      match cur with
      | some body => if depth = 1 then trimSpace body.reverse :: rest else rest
      | none => rest
    else splitRowsFrom (q.step a s) depth next s

def splitRows (s : Bytes) : List Bytes := splitRowsFrom .out 0 none s

def parseInsertRows (raw : Bytes) (columns : List Column) : Except Fault (List InsertRow) :=
  let groups := splitRows (trimSpace raw)
  if groups.isEmpty then .error (fault "INSERT requires VALUES")
  else groups.foldlM (fun rows group => flushRow columns false rows (splitVals group)) []

end SuperDB.Engine
