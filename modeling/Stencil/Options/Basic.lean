/-!
# Options

What can be set for compiling and for printing. The defaults are the values of a configuration that
says nothing.
-/

namespace Stencil

structure CompileOptions where
  /-- Report what is wrong with a template. -/
  development : Bool := false
  /-- Cut block comments out of the source before it is read. -/
  stripBlockComments : Bool := true
deriving DecidableEq, Repr, Inhabited

structure PrintOptions where
  /-- The number of spaces for each level, a number of 64 bits. -/
  indentWidth : UInt64 := 2
  /-- Indent with one tab for each level, whatever the width. -/
  useTabs : Bool := false
deriving DecidableEq, Repr, Inhabited

structure Options where
  compile : CompileOptions := {}
  print : PrintOptions := {}
deriving DecidableEq, Repr, Inhabited

end Stencil
