import PathGlob.Text.Quoted
import PathGlob.Pattern
import PathGlob.Double

namespace PathGlob

/-- A wrapper is an object that stands for a path and gives it when asked. -/
inductive Value where
  | null
  | bool (b : Bool)
  | int (n : Int)
  | float (x : Double)
  | text (t : Text)
  | bytes (t : Text)
  | list (items : List Value)
  | table
  | wrapper (inner : Value)
  | pattern (p : Pattern)
  | path (path : Text) (base : Option Text) (sep : Value)

inductive Kind where
  | null | bool | int | float | text | bytes | list | table | wrapper | pattern | path
  deriving DecidableEq, Repr

def Kind.name : Kind → Text
  | null => "NoneType".toList
  | bool => "bool".toList
  | int => "int".toList
  | float => "float".toList
  | text => "str".toList
  | bytes => "bytes".toList
  | list => "list".toList
  | table => "dict".toList
  | wrapper => "PathLike".toList
  | pattern => "CompiledPattern".toList
  | path => "Path".toList

namespace Value

def kind : Value → Kind
  | null => .null
  | bool _ => .bool
  | int _ => .int
  | float _ => .float
  | text _ => .text
  | bytes _ => .bytes
  | list _ => .list
  | table => .table
  | wrapper _ => .wrapper
  | pattern _ => .pattern
  | path .. => .path

/-- Zeros and empty things count as not given; a wrapper counts whatever it holds. -/
def truthy : Value → Bool
  | null => false
  | bool b => b
  | int n => n != 0
  | float x => !x.isZero
  | text t => !t.isEmpty
  | bytes t => !t.isEmpty
  | list items => !items.isEmpty
  | table => false
  | wrapper _ => true
  | pattern p => !p.segments.isEmpty
  | path .. => true

def hashable : Value → Bool
  | list _ => false
  | table => false
  | path _ _ sep => sep.hashable
  | _ => true

def asInt : Value → Option Int
  | bool b => some (if b then 1 else 0)
  | int n => some n
  | _ => none

def asNumber : Value → Option Double
  | bool b => some (.ofInt (if b then 1 else 0))
  | int n => some (.ofInt n)
  | float x => some x
  | _ => none

mutual

def same : Value → Value → Bool
  | null, null => true
  | text s, text t => s == t
  | bytes s, bytes t => s == t
  | list xs, list ys => sameAll xs ys
  | table, table => true
  | pattern p, pattern q => p.same q
  | path p b s, path q c t => p == q && b == c && same s t
  | x, y =>
      match x.asNumber, y.asNumber with
      | some a, some b => a.same b
      | _, _ => false

def sameAll : List Value → List Value → Bool
  | [], [] => true
  | x :: xs, y :: ys => same x y && sameAll xs ys
  | _, _ => false

end

def countDistinct : List Value → Nat
  | [] => 0
  | x :: rest => (if rest.any (same x) then 0 else 1) + countDistinct rest

def shownInt (n : Int) : Text :=
  if n < 0 then '-' :: Nat.toDigits 10 n.natAbs else Nat.toDigits 10 n.natAbs

mutual

def shown : Value → Text
  | null => "None".toList
  | bool b => if b then "True".toList else "False".toList
  | int n => shownInt n
  | float x => x.shown
  | text t => Text.quoted t
  | bytes t => Text.quotedBytes t
  | list items => '[' :: shownAll items ++ [']']
  | table => "\x7b\x7d".toList
  | wrapper _ => "<PathLike>".toList
  | pattern p =>
      "CompiledPattern(".toList ++ Text.quoted p.source ++ ", sep=".toList ++
        Text.quoted [p.sep] ++ [')']
  | path p base sep =>
      "Path(".toList ++ Text.quoted p ++ ", base=".toList ++
        (match base with
          | none => "None".toList
          | some b => Text.quoted b) ++
        ", sep=".toList ++ shown sep ++ [')']

def shownAll : List Value → Text
  | [] => []
  | [x] => shown x
  | x :: y :: rest => shown x ++ ", ".toList ++ shownAll (y :: rest)

end

def plain : Value → Text
  | text t => t
  | v => v.shown

end Value

end PathGlob
