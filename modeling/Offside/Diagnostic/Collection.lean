import Offside.Diagnostic.Basic

namespace Offside.Diagnostic

structure Collection where
  /-- The diagnostics, earliest first. -/
  toList : List Diagnostic

namespace Collection

def empty : Collection := ⟨[]⟩

def add (c : Collection) (d : Diagnostic) : Collection := ⟨c.toList ++ [d]⟩

def size (c : Collection) : Nat := c.toList.length

def isEmpty (c : Collection) : Bool := c.toList.isEmpty

def errorCount (c : Collection) : Nat := c.toList.countP isError

def hasErrors (c : Collection) : Bool := c.toList.any isError

theorem hasErrors_eq_false_iff (c : Collection) : c.hasErrors = false ↔ c.errorCount = 0 := by
  simp [hasErrors, errorCount, List.countP_eq_zero]

end Collection

end Offside.Diagnostic
