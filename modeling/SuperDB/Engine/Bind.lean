import SuperDB.Engine.Fold
import SuperDB.Go.Strconv

/-!
# Binding parameters

Placeholders outside quoted literals are replaced by the literals of the arguments.
-/

namespace SuperDB.Engine

open Go

/-- An argument of a statement: the Go types `formatParam` tells apart. `other` stands for every
type that is printed by `fmt.Sprint`, with the text printed. -/
inductive Param where
  | null
  | text (s : Bytes)
  | bool (b : Bool)
  | int (n : Int)
  | float (x : Float64)
  | other (text : Bytes)

/-- A quoted literal, with the quotes inside doubled. -/
def quoteLiteral (s : Bytes) : Bytes :=
  quote :: (s.flatMap fun a => if a == quote then [quote, quote] else [a]) ++ [quote]

def formatParam : Param → Bytes
  | .null => str "NULL"
  | .text s => quoteLiteral s
  | .bool b => if b then str "true" else str "false"
  | .int n => formatInt n
  | .float x => formatFloat x
  | .other s => quoteLiteral s

/-- Whether the byte `a` is a placeholder. -/
def Quote.placeholder (q : Quote) (a : UInt8) : Bool := q.plain a && a == ch '?'

def hasPlaceholderFrom : Quote → Bytes → Bool
  | _, [] => false
  | q, a :: s => q.placeholder a || hasPlaceholderFrom (q.step a s) s

def hasPlaceholder (sql : Bytes) : Bool := hasPlaceholderFrom .out sql

/-- The loop of `bindParams`: `n` arguments have been used. The result is the text, the number of
placeholders and the arguments that are left. -/
def bindFrom : Quote → Nat → List Param → Bytes → Except Bytes (Bytes × Nat × List Param)
  | _, n, args, [] => .ok ([], n, args)
  | q, n, args, a :: s =>
    if q.placeholder a then
      match args with
      | [] => .error (str "too few params: placeholder " ++ decimal (n + 1) ++ str " has no value")
      | p :: args => (bindFrom (q.step a s) (n + 1) args s).map fun r => (formatParam p ++ r.1, r.2)
    else (bindFrom (q.step a s) n args s).map fun r => (a :: r.1, r.2)

def bindParams (sql : Bytes) (args : List Param) : Except Bytes Bytes :=
  if args.isEmpty then
    if hasPlaceholder sql then
      .error (str "missing params: query has placeholders but no args")
    else .ok sql
  else
    match bindFrom .out 0 args sql with
    | .error e => .error e
    | .ok (text, n, rest) =>
      if rest.isEmpty then .ok text
      else
        .error (str "too many params: have " ++ decimal args.length ++ str " args for " ++
          decimal n ++ str " placeholders")

end SuperDB.Engine
