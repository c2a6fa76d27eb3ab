import FlowExpr.Path.Fault

namespace FlowExpr

-- Why a reference has no value.
inductive ReferenceFault where
  | unknown (root : String) (available : List String)
  | access (e : AccessError)
  | malformed (e : PathError)
  | invalidKey (path segment found : String)
deriving DecidableEq, Repr

def ReferenceFault.message : ReferenceFault → String
  | unknown root available =>
    s!"unknown reference '{root}'. Available references: " ++ ", ".intercalate available
  | access e => e.message
  | malformed e => e.message
  | invalidKey path segment found =>
    s!"invalid computed key '[{segment}]' in path '{path}': expected string or number, got {found}"

end FlowExpr
