namespace Offside

structure Options where
  /-- The columns that a tab counts for in the indentation of a line. A space counts for one. -/
  tabWidth : UInt32 := 8
  deriving DecidableEq

namespace Options

def maxTabWidth : UInt32 := 64

inductive Invalid where
  | tabTooNarrow
  | tabTooWide
  deriving DecidableEq

def Invalid.text : Invalid → String
  | tabTooNarrow => "tabWidth must be at least 1"
  | tabTooWide => "tabWidth must be at most " ++ toString maxTabWidth

def validate (options : Options) : Except Invalid Unit :=
  if options.tabWidth = 0 then .error .tabTooNarrow
  else if maxTabWidth < options.tabWidth then .error .tabTooWide
  else .ok ()

theorem validate_eq_ok_iff (options : Options) :
    options.validate = .ok () ↔ 1 ≤ options.tabWidth.toNat ∧ options.tabWidth.toNat ≤ 64 := by
  have zero : options.tabWidth = 0 ↔ options.tabWidth.toNat = 0 := UInt32.toNat_inj.symm
  have wide : maxTabWidth < options.tabWidth ↔ 64 < options.tabWidth.toNat := UInt32.lt_iff_toNat_lt
  simp only [validate, zero, wide]
  split
  · simp only [reduceCtorEq, false_iff]; omega
  · split
    · simp only [reduceCtorEq, false_iff]; omega
    · simp only [true_iff]; omega

end Options

end Offside
