import PathGlob.Fault

namespace PathGlob.Value

def asText (argument : Argument) : Value → Except Fault Text
  | text t => .ok t
  | path t _ _ => .ok t
  | wrapper (text t) => .ok t
  | wrapper (bytes _) => .error (.notText argument .bytes)
  | bytes _ => .error (.notText argument .bytes)
  | v => .error (.notPath argument v.kind)

def onlyText : Value → Except Fault Text
  | text t => .ok t
  | _ => .error .notUsable

def optionalText (argument : Argument) (v : Value) : Except Fault (Option Text) :=
  if v.truthy then (v.asText argument).map some else .ok none

def orSlash (sep : Value) : Value := if sep.truthy then sep else .text ['/']

def asSeparator (sep : Value) : Option Text :=
  match sep.orSlash with
  | text s => some s
  | _ => none

def distinctWith (v : Value) (others : List Value) : Except Fault Nat :=
  if (v :: others).all hashable then .ok (countDistinct (v :: others)) else .error .notHashable

theorem asSeparator_text {s : Text} (h : s ≠ []) : (text s).asSeparator = some s := by
  have : (text s).truthy = true := by simpa [truthy] using h
  simp [asSeparator, orSlash, this]

end PathGlob.Value
