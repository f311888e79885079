import ModuleTree.Procedure
/- Compilers. The work of a run knows them only by what they answer. -/
namespace ModuleTree

structure Compiler where
  announce : Request → List Notice
  compile : Request → Except CompileError Compiled

end ModuleTree
